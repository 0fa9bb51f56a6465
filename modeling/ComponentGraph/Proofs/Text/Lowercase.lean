/-
  ComponentGraph.Proofs.Text.Lowercase
  ────────────────────────────────
  **LOWER CASE IS LOWER CASE.**

  The lower case of a text consists of characters that have no lower-case
  form of their own, so taking it again changes nothing
  (`lowercase_lowercase`).  All that is asked of the table is that the forms
  in one of its ranges lie outside all the others, or between them.
-/
import ComponentGraph.Text.Lowercase

namespace ComponentGraph.Text

/-! ## §1. The table. -/

namespace LowerRange

/-- Are the forms that one range gives not covered by the other?  They lie
before it, behind it, or between its characters. -/
def clears (r s : LowerRange) : Bool :=
  r.last + r.distance < s.first || s.last < r.first + r.distance
    || ((r.first = r.last || r.stride = 2) && s.stride = 2
      && (r.first + r.distance - s.first) % 2 ≠ 0)

/-- Are the forms that the range gives characters? -/
def givesChars (r : LowerRange) : Bool :=
  0 ≤ r.first + r.distance && r.last + r.distance < 0xD800
    || 0xDFFF < r.first + r.distance && r.last + r.distance < 0x110000

/-- The two characters whose lower case is not in the table, each a range of
its own. -/
def special : List LowerRange := [⟨0x130, 0x130, 1, 0⟩, ⟨0x3A3, 0x3A3, 1, 0⟩]

theorem clears_all : lowerRanges.all
    (fun r => r.givesChars && (lowerRanges ++ special).all fun s => r.clears s) = true := by
  decide +kernel

theorem not_covers_of_clears {r s : LowerRange} {n m : Nat} (h : r.clears s)
    (hn : r.covers n) (hm : (m : Int) = n + r.distance) : ¬ s.covers m := by
  intro hs
  simp only [covers, Bool.and_eq_true, decide_eq_true_eq] at hn hs
  simp only [clears, Bool.or_eq_true, Bool.and_eq_true, decide_eq_true_eq] at h
  obtain ⟨⟨hfirst, hlast⟩, hstride⟩ := hn
  obtain ⟨⟨hfirst', hlast'⟩, hstride'⟩ := hs
  rcases h with (h | h) | ⟨⟨hr, hs⟩, h⟩
  · omega
  · omega
  · -- between its characters: every second one, and of the other parity
    rw [hs] at hstride'
    rcases hr with hr | hr
    · omega
    · rw [hr] at hstride
      omega

end LowerRange

/-! ## §2. Characters without a lower-case form. -/

/-- Is the character its own lower case, wherever it stands? -/
structure IsLow (c : Char) : Prop where
  own : lowerChar c = c
  not_dotted : c ≠ '\u0130'
  not_sigma : c ≠ '\u03A3'

theorem toNat_ofNat {n : Nat} (h : n.isValidChar) : (Char.ofNat n).toNat = n := by
  rw [Char.ofNat, dif_pos h]
  rfl

/-- What the table gives for a character is its own lower case. -/
theorem isLow_of_range {c : Char} {r : LowerRange} (hr : r ∈ lowerRanges)
    (hc : r.covers c.toNat) : IsLow (Char.ofNat ((c.toNat : Int) + r.distance).toNat) := by
  have h := List.all_eq_true.1 LowerRange.clears_all r hr
  rw [Bool.and_eq_true] at h
  obtain ⟨hchars, hclear⟩ := h
  have hbounds := hc
  simp only [LowerRange.covers, Bool.and_eq_true, decide_eq_true_eq] at hbounds
  simp only [LowerRange.givesChars, Bool.or_eq_true, Bool.and_eq_true, decide_eq_true_eq]
    at hchars
  have hm : ((((c.toNat : Int) + r.distance).toNat : Nat) : Int) = c.toNat + r.distance := by
    omega
  have hn : (Char.ofNat ((c.toNat : Int) + r.distance).toNat).toNat
      = ((c.toNat : Int) + r.distance).toNat := by
    apply toNat_ofNat
    rw [Nat.isValidChar]
    omega
  -- no range covers the form, and it is not one of the two special characters
  have hfree : ∀ s ∈ lowerRanges ++ LowerRange.special,
      ¬ s.covers (Char.ofNat ((c.toNat : Int) + r.distance).toNat).toNat := by
    intro s hs
    rw [hn]
    exact LowerRange.not_covers_of_clears (List.all_eq_true.1 hclear s hs) hc hm
  refine ⟨?_, ?_, ?_⟩
  · have hnone : lowerRanges.find?
        (·.covers (Char.ofNat ((c.toNat : Int) + r.distance).toNat).toNat) = none := by
      rw [List.find?_eq_none]
      exact fun s hs => hfree s (List.mem_append_left _ hs)
    rw [lowerChar, hnone]
  · intro he
    rw [he] at hfree
    exact hfree ⟨0x130, 0x130, 1, 0⟩ (List.mem_append_right _ (by simp [LowerRange.special]))
      (by decide)
  · intro he
    rw [he] at hfree
    exact hfree ⟨0x3A3, 0x3A3, 1, 0⟩ (List.mem_append_right _ (by simp [LowerRange.special]))
      (by decide)

/-- The lower-case form of any other character than the two is its own lower
case. -/
theorem isLow_lowerChar {c : Char} (hd : c ≠ '\u0130') (hs : c ≠ '\u03A3') :
    IsLow (lowerChar c) := by
  cases h : lowerRanges.find? (·.covers c.toNat) with
  | none =>
    have hc : lowerChar c = c := by rw [lowerChar, h]
    rw [hc]
    exact ⟨hc, hd, hs⟩
  | some r =>
    have hc : lowerChar c = Char.ofNat ((c.toNat : Int) + r.distance).toNat := by
      rw [lowerChar, h]
    rw [hc]
    exact isLow_of_range (List.mem_of_find?_eq_some h)
      (by simpa using List.find?_some h)

/-! ## §3. Texts. -/

/-- What a character becomes between its neighbours is its own lower case. -/
theorem isLow_lowerIn (before after : List Char) (c : Char) :
    ∀ x ∈ lowerIn before c after, IsLow x := by
  intro x hx
  unfold lowerIn at hx
  split at hx
  · -- an i and a dot above it
    rw [List.mem_cons, List.mem_singleton] at hx
    rcases hx with rfl | rfl <;> exact ⟨by decide +kernel, by decide, by decide⟩
  · split at hx
    · -- one of the two small sigmas
      split at hx <;> rw [List.mem_singleton] at hx <;> subst hx <;>
        exact ⟨by decide +kernel, by decide, by decide⟩
    · rw [List.mem_singleton] at hx
      subst hx
      exact isLow_lowerChar ‹_› ‹_›

theorem isLow_lowercaseAfter (before cs : List Char) :
    ∀ x ∈ lowercaseAfter before cs, IsLow x := by
  induction cs generalizing before with
  | nil => simp [lowercaseAfter]
  | cons c cs ih =>
    intro x hx
    rw [lowercaseAfter, List.mem_append] at hx
    rcases hx with hx | hx
    · exact isLow_lowerIn _ _ _ x hx
    · exact ih _ x hx

/-- A text of such characters is its own lower case. -/
theorem lowercaseAfter_of_isLow (before : List Char) {cs : List Char}
    (h : ∀ c ∈ cs, IsLow c) : lowercaseAfter before cs = cs := by
  induction cs generalizing before with
  | nil => rfl
  | cons c cs ih =>
    have hc := h c List.mem_cons_self
    rw [lowercaseAfter, lowerIn, if_neg hc.not_dotted, if_neg hc.not_sigma, hc.own,
      ih _ fun x hx => h x (List.mem_cons_of_mem _ hx)]
    rfl

theorem isLow_lowercase (cs : List Char) : ∀ x ∈ lowercase cs, IsLow x :=
  isLow_lowercaseAfter [] cs

theorem lowercase_of_isLow {cs : List Char} (h : ∀ c ∈ cs, IsLow c) : lowercase cs = cs :=
  lowercaseAfter_of_isLow [] h

/-- **The lower case of a lower case is the same text.** -/
theorem lowercase_lowercase (cs : List Char) : lowercase (lowercase cs) = lowercase cs :=
  lowercase_of_isLow (isLow_lowercase cs)

end ComponentGraph.Text
