/-
  ComponentGraph.Text.Pieces
  ────────────────────────────────
  **TAKING TEXTS APART.**

  Cutting at the first occurrence of a character, and splitting at all of
  them.  Joining the pieces with the character gives the text back.
-/

namespace ComponentGraph.Text

/-- What stands before the first `c` and what stands after it; none if there
is no `c`. -/
def cut? (c : Char) : List Char → Option (List Char × List Char)
  | [] => none
  | x :: rest =>
    if x = c then some ([], rest) else (cut? c rest).map fun (a, b) => (x :: a, b)

/-- What stands before the first `c`, and what stands after it if there is one. -/
def cut (c : Char) (cs : List Char) : List Char × Option (List Char) :=
  match cut? c cs with
  | some (a, b) => (a, some b)
  | none => (cs, none)

/-- What stands before the last `c` and what stands after it; none if there
is no `c`. -/
def cutLast? (c : Char) (cs : List Char) : Option (List Char × List Char) :=
  (cut? c cs.reverse).map fun (a, b) => (b.reverse, a.reverse)

/-- The pieces between the occurrences of `c`; never none at all. -/
def split (c : Char) : List Char → List (List Char)
  | [] => [[]]
  | x :: rest =>
    if x = c then [] :: split c rest
    else
      match split c rest with
      | piece :: more => (x :: piece) :: more
      | [] => [[x]]

def join (c : Char) : List (List Char) → List Char
  | [] => []
  | [piece] => piece
  | piece :: more => piece ++ c :: join c more

end ComponentGraph.Text
