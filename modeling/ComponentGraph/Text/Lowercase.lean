/-
  ComponentGraph.Text.Lowercase
  ────────────────────────────────
  **LOWER CASE.**

  The lower case of a text, character by character with two exceptions: the
  dotted capital I becomes two characters, and capital sigma has a form of
  its own at the end of a word.  ASCII capitals are the first range of the
  table, so on ASCII text this is the usual map.
-/
import ComponentGraph.Text.Casing

namespace ComponentGraph.Text

/-- Is the code point in one of the ranges? -/
def inRanges (ranges : List (Nat × Nat)) (n : Nat) : Bool :=
  ranges.any fun r => r.1 ≤ n && n ≤ r.2

def isCased (c : Char) : Bool := inRanges casedRanges c.toNat

/-- Is the character looked through when a word's end is sought? -/
def isTransparent (c : Char) : Bool := inRanges transparentRanges c.toNat

/-- Does the range give the character of this code point a lower-case form? -/
def LowerRange.covers (r : LowerRange) (n : Nat) : Bool :=
  r.first ≤ n && n ≤ r.last && (n - r.first) % r.stride = 0

def lowerChar (c : Char) : Char :=
  match lowerRanges.find? (·.covers c.toNat) with
  | some r => Char.ofNat ((c.toNat : Int) + r.distance).toNat
  | none => c

/-- Does a cased character come first, behind those that are looked through? -/
def startsCased (cs : List Char) : Bool := (cs.dropWhile isTransparent).head?.any isCased

/-- The lower-case form of a character between its neighbours; `before` is
read backwards. -/
def lowerIn (before : List Char) (c : Char) (after : List Char) : List Char :=
  if c = '\u0130' then ['i', '\u0307']
  else if c = '\u03A3' then
    if startsCased before && !startsCased after then ['\u03C2'] else ['\u03C3']
  else [lowerChar c]

/-- The lower case of what follows `before`. -/
def lowercaseAfter : List Char → List Char → List Char
  | _, [] => []
  | before, c :: rest => lowerIn before c rest ++ lowercaseAfter (c :: before) rest

def lowercase (cs : List Char) : List Char := lowercaseAfter [] cs

end ComponentGraph.Text
