/-
  ComponentGraph.Proofs.Json.Number
  ────────────────────────────────
  **WHOLE NUMBERS INSIDE A TEXT.**

  A number is kept without the zeros at the end of its digits.  Where it is
  read inside a text these zeros come back: a whole number of at most 21
  digits reads as just its digits (`text_ofNat`).
-/
import Mathlib.Tactic.Ring
import ComponentGraph.Json.Number

namespace ComponentGraph.Number

/-- Zeros taken off the digits are added to the exponent. -/
theorem exists_stripZeros (fuel digits : Nat) (exponent : Int) :
    ∃ zeros : Nat, (stripZeros fuel digits exponent).1 * 10 ^ zeros = digits
      ∧ (stripZeros fuel digits exponent).2 = exponent + zeros := by
  fun_induction stripZeros fuel digits exponent with
  | case1 digits exponent => exact ⟨0, by simp, by simp⟩
  | case2 fuel digits exponent hzero ih =>
    obtain ⟨zeros, hdigits, hexponent⟩ := ih
    refine ⟨zeros + 1, ?_, by omega⟩
    rw [pow_succ, ← mul_assoc, hdigits]
    omega
  | case3 fuel digits exponent hzero => exact ⟨0, by simp, by simp⟩

/-- A zero behind the digits of a number multiplies it by ten. -/
theorem toDigits_mul_tens {n : Nat} (h : 0 < n) (zeros : Nat) :
    Nat.toDigits 10 (n * 10 ^ zeros) = Nat.toDigits 10 n ++ List.replicate zeros '0' := by
  induction zeros with
  | zero => simp
  | succ zeros ih =>
    have hpos : 0 < n * 10 ^ zeros := Nat.mul_pos h (Nat.pow_pos (by decide))
    have hten : n * 10 ^ (zeros + 1) = 10 * (n * 10 ^ zeros) + 0 := by
      rw [pow_succ]
      ring
    rw [hten, ← Nat.toDigits_append_toDigits (by decide) hpos (by decide), ih, Nat.toDigits_zero,
      List.append_assoc, List.replicate_succ']

/-- A positive whole number is its digits without the zeros at the end, and these zeros. -/
theorem exists_ofNat {n : Nat} (h : 0 < n) :
    ∃ digits zeros : Nat, 0 < digits ∧ digits * 10 ^ zeros = n ∧ ofNat n = .finite false digits zeros := by
  obtain ⟨zeros, hdigits, hexponent⟩ := exists_stripZeros (Nat.log2 n) n 0
  refine ⟨(stripZeros (Nat.log2 n) n 0).1, zeros, ?_, hdigits, ?_⟩
  · rw [Nat.pos_iff_ne_zero]
    intro hz
    rw [hz] at hdigits
    omega
  · rw [ofNat, ofDecimal, if_neg (Nat.ne_of_gt h)]
    simp only [hexponent, Int.zero_add]

theorem isZero_ofNat (n : Nat) : (ofNat n).isZero = decide (n = 0) := by
  rcases Nat.eq_zero_or_pos n with rfl | h
  · decide
  · obtain ⟨digits, zeros, hpos, -, he⟩ := exists_ofNat h
    rw [he, isZero, zero, decide_eq_false (Nat.ne_of_gt h), decide_eq_false]
    intro hz
    injection hz with _ hd
    omega

/-- Up to 21 digits a whole number needs no point. -/
theorem layout_of_whole {ds : List Char} {zeros : Nat} (h : ds.length + zeros ≤ 21) :
    layout ds (ds.length + zeros) = ds ++ List.replicate zeros '0' := by
  have hzeros : ((ds.length : Int) + zeros - ds.length).toNat = zeros := by omega
  rw [layout]
  simp only [hzeros]
  rw [if_pos ⟨by omega, by omega⟩]

/-- **A whole number of at most 21 digits reads as these digits.** -/
theorem text_ofNat {n : Nat} (h : n < 10 ^ 21) :
    (ofNat n).text = String.ofList (Nat.toDigits 10 n) := by
  rcases Nat.eq_zero_or_pos n with rfl | hpos
  · rfl
  · obtain ⟨digits, zeros, hdigits, hn, he⟩ := exists_ofNat hpos
    have hall : Nat.toDigits 10 n = Nat.toDigits 10 digits ++ List.replicate zeros '0' := by
      rw [← hn, toDigits_mul_tens hdigits]
    have hlength : (Nat.toDigits 10 digits).length + zeros ≤ 21 := by
      rw [← Nat.length_toDigits_le_iff (by decide) (by decide), hall, List.length_append,
        List.length_replicate] at h
      exact h
    have htext : (ofNat n).text
        = String.ofList (layout (Nat.toDigits 10 digits) ((Nat.toDigits 10 digits).length + zeros)) := by
      rw [he, text, if_neg (Nat.ne_of_gt hdigits)]
      rfl
    rw [htext, layout_of_whole hlength, hall]

end ComponentGraph.Number
