/-
  ComponentGraph.Text.Blank
  ────────────────────────────────
  **BLANK CHARACTERS AND TRIMMING.**

  The blanks that trimming removes are the Unicode spaces, the line and
  paragraph separators, the byte order mark and the ASCII controls from tab
  to carriage return.  U+0085 and U+200B are not among them.
-/

namespace ComponentGraph.Text

def blankPoints : List Nat :=
  [0x09, 0x0A, 0x0B, 0x0C, 0x0D, 0x20, 0xA0, 0x1680, 0x2000, 0x2001, 0x2002, 0x2003, 0x2004,
    0x2005, 0x2006, 0x2007, 0x2008, 0x2009, 0x200A, 0x2028, 0x2029, 0x202F, 0x205F, 0x3000,
    0xFEFF]

def isBlank (c : Char) : Bool := blankPoints.contains c.toNat

/-- The text without the characters of a class at either end. -/
def trimBy (p : Char → Bool) (cs : List Char) : List Char :=
  ((cs.dropWhile p).reverse.dropWhile p).reverse

def trim (cs : List Char) : List Char := trimBy isBlank cs

end ComponentGraph.Text
