/-
  ComponentGraph.Proofs.Text.Utf8
  ────────────────────────────────
  **UTF-8 READS BACK.**

  The scanner takes the bytes of one character and is between characters
  again, whatever follows (`scan_encodeChar`).  So the bytes of a text are
  read as this text (`decode?_encode`), and where the strict decoder reads a
  text the other one reads the same (`decodeLossy_of_decode?`).
-/
import ComponentGraph.Text.Utf8
import Mathlib.Tactic.Common

namespace ComponentGraph.Text.Utf8

/-! ## §1. Single bytes. -/

theorem scan_cons (begun : Option Partial) (b : Nat) (rest : List Nat) :
    scan begun (b :: rest) = (advance begun b).1 ++ scan (advance begun b).2 rest := by
  cases begun <;> rfl

/-- A character of one byte. -/
theorem scan_whole {b : Nat} (h : b < 0x80) (rest : List Nat) :
    scan none (b :: rest) = some (Char.ofNat b) :: scan none rest := by
  simp [scan_cons, advance, fresh, lead, h]

/-- The first of several bytes. -/
theorem scan_first {b : Nat} {p : Partial} (h : lead b = .more p) (rest : List Nat) :
    scan none (b :: rest) = scan (some p) rest := by
  simp [scan_cons, advance, fresh, h]

/-- A byte that fits, with others to come. -/
theorem scan_inner {low high b : Nat} (hlow : low ≤ b) (hhigh : b ≤ high) (bits owed : Nat)
    (rest : List Nat) :
    scan (some ⟨bits, owed + 2, low, high⟩) (b :: rest)
      = scan (some ⟨bits * 0x40 + (b - 0x80), owed + 1, 0x80, 0xBF⟩) rest := by
  rw [scan_cons, advance, if_pos ⟨hlow, hhigh⟩, if_neg (by simp)]
  rfl

/-- The last of several bytes. -/
theorem scan_last {low high b : Nat} (hlow : low ≤ b) (hhigh : b ≤ high) (bits : Nat)
    (rest : List Nat) :
    scan (some ⟨bits, 1, low, high⟩) (b :: rest)
      = some (Char.ofNat (bits * 0x40 + (b - 0x80))) :: scan none rest := by
  rw [scan_cons, advance, if_pos ⟨hlow, hhigh⟩, if_pos (by simp)]
  rfl

/-! ## §2. First bytes. -/

theorem lead_two {n : Nat} (hlow : 0x80 ≤ n) (hhigh : n < 0x800) :
    lead (0xC0 + n / 0x40) = .more ⟨n / 0x40, 1, 0x80, 0xBF⟩ := by
  rw [lead, if_neg (by omega), if_neg (by omega), if_pos (by omega), Nat.add_sub_cancel_left]

theorem lead_three {n : Nat} (hhigh : n < 0x10000) :
    lead (0xE0 + n / 0x1000) = .more ⟨n / 0x1000, 2, if n / 0x1000 = 0 then 0xA0 else 0x80,
      if n / 0x1000 = 0xD then 0x9F else 0xBF⟩ := by
  rw [lead, if_neg (by omega), if_neg (by omega), if_neg (by omega), if_pos (by omega),
    Nat.add_sub_cancel_left]
  congr 3
  · simp
  · rw [eq_iff_iff]
    omega

theorem lead_four {n : Nat} (hhigh : n < 0x110000) :
    lead (0xF0 + n / 0x40000) = .more ⟨n / 0x40000, 3, if n / 0x40000 = 0 then 0x90 else 0x80,
      if n / 0x40000 = 4 then 0x8F else 0xBF⟩ := by
  rw [lead, if_neg (by omega), if_neg (by omega), if_neg (by omega), if_neg (by omega),
    if_pos (by omega), Nat.add_sub_cancel_left]
  congr 3
  · simp
  · rw [eq_iff_iff]
    omega

/-! ## §3. Characters. -/

theorem scan_two {n : Nat} (hlow : 0x80 ≤ n) (hhigh : n < 0x800) (rest : List Nat) :
    scan none ([0xC0 + n / 0x40, 0x80 + n % 0x40] ++ rest)
      = some (Char.ofNat n) :: scan none rest := by
  have hbits : n / 0x40 * 0x40 + (0x80 + n % 0x40 - 0x80) = n := by omega
  simp only [List.cons_append, List.nil_append]
  rw [scan_first (lead_two hlow hhigh), scan_last (by omega) (by omega), hbits]

/-- A surrogate would not fit. -/
theorem scan_three {n : Nat} (hlow : 0x800 ≤ n) (hhigh : n < 0x10000)
    (hscalar : n < 0xD800 ∨ 0xDFFF < n) (rest : List Nat) :
    scan none ([0xE0 + n / 0x1000, 0x80 + n / 0x40 % 0x40, 0x80 + n % 0x40] ++ rest)
      = some (Char.ofNat n) :: scan none rest := by
  have hbits : (n / 0x1000 * 0x40 + (0x80 + n / 0x40 % 0x40 - 0x80)) * 0x40
      + (0x80 + n % 0x40 - 0x80) = n := by omega
  simp only [List.cons_append, List.nil_append]
  rw [scan_first (lead_three hhigh), scan_inner (by split <;> omega) (by split <;> omega),
    scan_last (by omega) (by omega), hbits]

theorem scan_four {n : Nat} (hlow : 0x10000 ≤ n) (hhigh : n < 0x110000) (rest : List Nat) :
    scan none ([0xF0 + n / 0x40000, 0x80 + n / 0x1000 % 0x40, 0x80 + n / 0x40 % 0x40,
        0x80 + n % 0x40] ++ rest)
      = some (Char.ofNat n) :: scan none rest := by
  have hbits : ((n / 0x40000 * 0x40 + (0x80 + n / 0x1000 % 0x40 - 0x80)) * 0x40
      + (0x80 + n / 0x40 % 0x40 - 0x80)) * 0x40 + (0x80 + n % 0x40 - 0x80) = n := by omega
  simp only [List.cons_append, List.nil_append]
  rw [scan_first (lead_four hhigh), scan_inner (by split <;> omega) (by split <;> omega),
    scan_inner (by omega) (by omega), scan_last (by omega) (by omega), hbits]

/-- No character is a surrogate, and none lies beyond the last plane. -/
theorem toNat_lt_or (c : Char) : c.toNat < 0xD800 ∨ 0xDFFF < c.toNat ∧ c.toNat < 0x110000 :=
  c.valid

/-- **The bytes of a character are read as this character.** -/
theorem scan_encodeChar (c : Char) (rest : List Nat) :
    scan none (encodeChar c ++ rest) = some c :: scan none rest := by
  have hvalid := toNat_lt_or c
  have hc : Char.ofNat c.toNat = c := Char.ofNat_toNat c
  unfold encodeChar
  simp only
  split
  · rw [List.singleton_append, scan_whole (by assumption), hc]
  · split
    · rw [scan_two (by omega) (by omega), hc]
    · split
      · rw [scan_three (by omega) (by omega) (by omega), hc]
      · rw [scan_four (by omega) (by omega), hc]

/-! ## §4. Texts. -/

theorem scan_encode (cs : List Char) : scan none (encode cs) = cs.map some := by
  induction cs with
  | nil => rfl
  | cons c cs ih =>
    rw [encode, List.flatMap_cons, scan_encodeChar, ← encode, ih, List.map_cons]

@[simp] theorem decode?_encode (cs : List Char) : decode? (encode cs) = some cs := by
  rw [decode?, scan_encode]
  induction cs with
  | nil => rfl
  | cons c cs ih => simp [ih]

/-- Where nothing is malformed, both decoders read the same. -/
theorem decodeLossy_of_decode? {bytes : List Nat} {cs : List Char} (h : decode? bytes = some cs) :
    decodeLossy bytes = cs := by
  rw [decode?] at h
  rw [decodeLossy]
  generalize scan none bytes = parts at h
  induction parts generalizing cs with
  | nil => simpa using h
  | cons part parts ih =>
    simp only [List.mapM_cons, id_eq, Option.bind_eq_bind, Option.bind_eq_some_iff,
      Option.pure_def, Option.some.injEq] at h
    obtain ⟨c, rfl, rest, hrest, rfl⟩ := h
    simp [ih hrest]

theorem encodeChar_ne_nil (c : Char) : encodeChar c ≠ [] := by
  unfold encodeChar
  simp only
  split_ifs <;> simp

/-- What an encoding consists of are bytes. -/
theorem lt_of_mem_encodeChar {c : Char} {b : Nat} (h : b ∈ encodeChar c) : b < 0x100 := by
  have hvalid := toNat_lt_or c
  unfold encodeChar at h
  simp only at h
  split_ifs at h <;> simp only [List.mem_cons, List.not_mem_nil, or_false] at h <;> omega

/-! ## §5. No bytes are lost. -/

/-- A character that has begun leaves a part behind, whatever follows. -/
theorem scan_some_ne_nil (p : Partial) (bytes : List Nat) : scan (some p) bytes ≠ [] := by
  induction bytes generalizing p with
  | nil => exact List.cons_ne_nil _ _
  | cons b rest ih =>
    rw [scan_cons, advance]
    split
    · split
      · exact List.cons_ne_nil _ _
      -- the byte fits, and the character still lacks others
      · exact ih (p.push b)
    · exact List.cons_ne_nil _ _

theorem scan_none_ne_nil {bytes : List Nat} (h : bytes ≠ []) : scan none bytes ≠ [] := by
  obtain ⟨b, rest, rfl⟩ := List.exists_cons_of_ne_nil h
  rw [scan_cons, advance, fresh]
  cases lead b with
  | whole c => exact List.cons_ne_nil _ _
  | more p => exact scan_some_ne_nil p rest
  | malformed => exact List.cons_ne_nil _ _

/-- **Only no bytes at all read as the empty text.** -/
theorem eq_nil_of_decode? {bytes : List Nat} (h : decode? bytes = some []) : bytes = [] := by
  by_contra hne
  obtain ⟨part, parts, hscan⟩ := List.exists_cons_of_ne_nil (scan_none_ne_nil hne)
  rw [decode?, hscan] at h
  simp only [List.mapM_cons, Option.bind_eq_bind, Option.bind_eq_some_iff, Option.pure_def,
    Option.some.injEq, reduceCtorEq, and_false, exists_false] at h

end ComponentGraph.Text.Utf8
