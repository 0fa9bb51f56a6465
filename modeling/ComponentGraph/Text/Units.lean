/-
  ComponentGraph.Text.Units
  ────────────────────────────────
  **THE ORDER OF UTF-16 UNITS.**

  Names are sorted by their UTF-16 code units.  This differs from the order
  of code points only where a character beyond U+FFFF meets one between
  U+E000 and U+FFFF.
-/

namespace ComponentGraph.Text

def unitsOfChar (c : Char) : List Nat :=
  let n := c.toNat
  if n < 0x10000 then [n] else [0xD800 + (n - 0x10000) / 0x400, 0xDC00 + (n - 0x10000) % 0x400]

def units (s : String) : List Nat := s.toList.flatMap unitsOfChar

/-- Does the first list come before or at the second one, word by word? -/
def unitsLe : List Nat → List Nat → Bool
  | [], _ => true
  | _ :: _, [] => false
  | a :: as, b :: bs => a < b || (a == b && unitsLe as bs)

/-- Does the first text come before or at the second one? -/
def atOrBefore (a b : String) : Bool := unitsLe (units a) (units b)

end ComponentGraph.Text
