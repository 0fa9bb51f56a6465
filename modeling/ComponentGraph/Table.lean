/-
  ComponentGraph.Table
  ────────────────────────────────
  **TABLES IN ORDER OF FIRST APPEARANCE.**

  A table is a list of pairs with distinct keys, in the order in which the
  keys first appeared.  Giving a key a new value leaves it in its place.

      ofList  — the last value of each key
      group   — all values of each key, in order
-/

namespace ComponentGraph.Table

variable {κ ν : Type} [DecidableEq κ]

/-- Give a key a value: in its place if it is there, else at the end. -/
def set (key : κ) (value : ν) : List (κ × ν) → List (κ × ν)
  | [] => [(key, value)]
  | (k, v) :: rest => if k = key then (key, value) :: rest else (k, v) :: set key value rest

/-- The table of these pairs; a later value of a key replaces an earlier one. -/
def ofList (pairs : List (κ × ν)) : List (κ × ν) :=
  pairs.foldl (fun table p => set p.1 p.2 table) []

/-- Add a value to the group of a key. -/
def add (key : κ) (value : ν) : List (κ × List ν) → List (κ × List ν)
  | [] => [(key, [value])]
  | (k, vs) :: rest =>
    if k = key then (k, vs ++ [value]) :: rest else (k, vs) :: add key value rest

/-- The values of these pairs, grouped by key. -/
def group (pairs : List (κ × ν)) : List (κ × List ν) :=
  pairs.foldl (fun table p => add p.1 p.2 table) []

def find? (key : κ) : List (κ × ν) → Option ν
  | [] => none
  | (k, v) :: rest => if k = key then some v else find? key rest

end ComponentGraph.Table
