/-
  ComponentGraph.Proofs.Purl.Percent
  ────────────────────────────────
  **WHAT IS ESCAPED READS BACK.**

  An escape is read as its byte, and a character that is kept as itself.  So
  an encoded text is decoded to this text (`decode?_encode`), as long as the
  percent sign is not kept.  An encoded text holds nothing but characters that
  are kept, percent signs, letters and digits (`of_mem_encode`): what separates
  the parts of a package URL is escaped inside them.
-/
import ComponentGraph.Purl.Percent
import ComponentGraph.Proofs.Text.Pieces
import ComponentGraph.Proofs.Text.Utf8

namespace ComponentGraph.Purl.Percent

open ComponentGraph.Text

/-! ## §1. Escapes. -/

theorem digit?_upper {n : Nat} (h : n < 16) : Hex.digit? (Hex.upper n) = some n := by
  have hall : ∀ n < 16, Hex.digit? (Hex.upper n) = some n := by decide
  exact hall n h

theorem isAlphanum_upper {n : Nat} (h : n < 16) : (Hex.upper n).isAlphanum = true := by
  have hall : ∀ n < 16, (Hex.upper n).isAlphanum = true := by decide
  exact hall n h

theorem bytes?_escape {b : Nat} (h : b < 0x100) (rest : List Char) :
    bytes? (escape b ++ rest) = (bytes? rest).map (b :: ·) := by
  have hb : 16 * (b / 16) + b % 16 = b := Nat.div_add_mod b 16
  simp only [escape, List.cons_append, List.nil_append]
  rw [bytes?]
  simp only [digit?_upper (show b / 16 < 16 by omega), digit?_upper (show b % 16 < 16 by omega), hb]

theorem bytes?_escapes {bs : List Nat} (h : ∀ b ∈ bs, b < 0x100) (rest : List Char) :
    bytes? (bs.flatMap escape ++ rest) = (bytes? rest).map (bs ++ ·) := by
  induction bs with
  | nil => simp
  | cons b bs ih =>
    rw [List.forall_mem_cons] at h
    rw [List.flatMap_cons, List.append_assoc, bytes?_escape h.1, ih h.2, Option.map_map]
    rfl

theorem bytes?_cons {c : Char} (h : c ≠ '%') (rest : List Char) :
    bytes? (c :: rest) = (bytes? rest).map (Utf8.encodeChar c ++ ·) := by
  rw [bytes?]
  all_goals simp_all

/-! ## §2. Encoded texts. -/

variable {keep : Char → Bool}

theorem bytes?_encodeChar (hkeep : keep '%' = false) (c : Char) (rest : List Char) :
    bytes? (encodeChar keep c ++ rest) = (bytes? rest).map (Utf8.encodeChar c ++ ·) := by
  unfold encodeChar
  split
  · rename_i hc
    rw [List.singleton_append, bytes?_cons (by rintro rfl; simp [hkeep] at hc)]
  · exact bytes?_escapes (fun _ => Utf8.lt_of_mem_encodeChar) rest

theorem bytes?_encode (hkeep : keep '%' = false) (cs : List Char) :
    bytes? (encode keep cs) = some (Utf8.encode cs) := by
  induction cs with
  | nil => rfl
  | cons c cs ih =>
    rw [encode, List.flatMap_cons, bytes?_encodeChar hkeep, ← encode, ih]
    rfl

/-- **An encoded text is decoded to this text.** -/
theorem decode?_encode (hkeep : keep '%' = false) (cs : List Char) :
    decode? (encode keep cs) = some cs := by
  rw [decode?, bytes?_encode hkeep, Option.bind_some, Utf8.decode?_encode]

/-- Where all escapes are well formed, both decoders read the same bytes. -/
theorem bytesLossy_of_bytes? {cs : List Char} {bs : List Nat} (h : bytes? cs = some bs) :
    bytesLossy cs = bs := by
  fun_induction bytes? cs generalizing bs with
  | case1 => simpa [bytesLossy] using h
  | case2 => contradiction
  | case3 => contradiction
  | case4 a b rest x y hx hy ih =>
    obtain ⟨bs', hbs', rfl⟩ := Option.map_eq_some_iff.1 h
    rw [bytesLossy]
    simp [hx, hy, ih hbs']
  | case5 => contradiction
  | case6 c rest h1 h2 h3 ih =>
    obtain ⟨bs', hbs', rfl⟩ := Option.map_eq_some_iff.1 h
    rw [bytesLossy, ih hbs']
    all_goals assumption

theorem decodeLossy_encode (hkeep : keep '%' = false) (cs : List Char) :
    decodeLossy (encode keep cs) = cs := by
  rw [decodeLossy, bytesLossy_of_bytes? (bytes?_encode hkeep cs),
    Utf8.decodeLossy_of_decode? (Utf8.decode?_encode cs)]

theorem eq_nil_of_bytes? {cs : List Char} (h : bytes? cs = some []) : cs = [] := by
  fun_induction bytes? cs with
  | case1 => rfl
  | case2 => contradiction
  | case3 => contradiction
  | case4 a b rest x y =>
    obtain ⟨bytes, -, hbytes⟩ := Option.map_eq_some_iff.1 h
    exact absurd hbytes (List.cons_ne_nil _ _)
  | case5 => contradiction
  | case6 c rest =>
    obtain ⟨bytes, -, hbytes⟩ := Option.map_eq_some_iff.1 h
    exact absurd (List.append_eq_nil_iff.1 hbytes).1 (Utf8.encodeChar_ne_nil c)

/-- Nothing but the empty text is decoded to the empty text. -/
theorem eq_nil_of_decode? {cs : List Char} (h : decode? cs = some []) : cs = [] := by
  obtain ⟨bytes, hbytes, hdecode⟩ := Option.bind_eq_some_iff.1 h
  obtain rfl := Utf8.eq_nil_of_decode? hdecode
  exact eq_nil_of_bytes? hbytes

/-! ## §3. What an encoded text holds. -/

theorem of_mem_escape {b : Nat} (hb : b < 0x100) {c : Char} (h : c ∈ escape b) :
    c = '%' ∨ c.isAlphanum := by
  simp only [escape, List.mem_cons, List.not_mem_nil, or_false] at h
  rcases h with rfl | rfl | rfl
  · exact .inl rfl
  · exact .inr (isAlphanum_upper (by omega))
  · exact .inr (isAlphanum_upper (by omega))

/-- **An encoded text holds characters of the text that are kept, and escapes.** -/
theorem of_mem_encode {cs : List Char} {c : Char} (h : c ∈ encode keep cs) :
    (c ∈ cs ∧ keep c) ∨ c = '%' ∨ c.isAlphanum := by
  obtain ⟨x, hxs, hx⟩ := List.mem_flatMap.1 h
  unfold encodeChar at hx
  split at hx
  · rename_i hkeep
    rw [List.mem_singleton] at hx
    subst hx
    exact .inl ⟨hxs, hkeep⟩
  · obtain ⟨b, hb, hc⟩ := List.mem_flatMap.1 hx
    exact .inr (of_mem_escape (Utf8.lt_of_mem_encodeChar hb) hc)

/-- A text that is kept as a whole is its own encoding. -/
theorem encode_eq_self {cs : List Char} (h : ∀ c ∈ cs, keep c = true) : encode keep cs = cs := by
  induction cs with
  | nil => rfl
  | cons c cs ih =>
    rw [List.forall_mem_cons] at h
    rw [encode, List.flatMap_cons, ← encode, ih h.2, encodeChar, if_pos h.1, List.singleton_append]

/-- The first character of an encoded text is that of the text, or begins an escape. -/
theorem exists_encode_cons (keep : Char → Bool) (c : Char) (cs : List Char) :
    ∃ x rest, encode keep (c :: cs) = x :: rest ∧ (x = c ∨ x = '%') := by
  rw [encode, List.flatMap_cons, encodeChar]
  split
  · exact ⟨c, _, rfl, .inl rfl⟩
  · cases hb : Utf8.encodeChar c with
    | nil => exact absurd hb (Utf8.encodeChar_ne_nil c)
    | cons b bs => exact ⟨'%', _, rfl, .inr rfl⟩

theorem encode_ne_nil {cs : List Char} (h : cs ≠ []) : encode keep cs ≠ [] := by
  obtain ⟨c, rest, rfl⟩ := List.exists_cons_of_ne_nil h
  obtain ⟨x, more, hx, -⟩ := exists_encode_cons keep c rest
  simp [hx]

theorem encode_append (a b : List Char) : encode keep (a ++ b) = encode keep a ++ encode keep b :=
  List.flatMap_append

/-- A separator that is kept separates the encoded pieces. -/
theorem encode_join {c : Char} (hkeep : keep c = true) (pieces : List (List Char)) :
    encode keep (join c pieces) = join c (pieces.map (encode keep)) := by
  induction pieces with
  | nil => rfl
  | cons piece more ih =>
    cases more with
    | nil => rfl
    | cons next more =>
      have hc : encode keep [c] = [c] := encode_eq_self (by simpa using hkeep)
      rw [List.map_cons, List.map_cons, join_cons_cons, join_cons_cons, ← List.map_cons, ← ih,
        encode_append, ← List.singleton_append, encode_append, hc, List.singleton_append]

/-- **The pieces of an encoded text are the encoded pieces of the text**, where
the separator is kept and no part of an escape. -/
theorem split_encode {c : Char} (hkeep : keep c = true) (hc : c ≠ '%' ∧ ¬ c.isAlphanum)
    (cs : List Char) : split c (encode keep cs) = (split c cs).map (encode keep) := by
  have hpieces : ∀ piece ∈ (split c cs).map (encode keep), c ∉ piece := by
    intro piece hp hmem
    obtain ⟨raw, hraw, rfl⟩ := List.mem_map.1 hp
    rcases of_mem_encode hmem with ⟨h, -⟩ | h | h
    · exact not_mem_of_mem_split hraw h
    · exact hc.1 h
    · exact hc.2 h
  rw [← split_join (by simp [split_ne_nil]) hpieces, ← encode_join hkeep, join_split]

end ComponentGraph.Purl.Percent
