/-
  ComponentGraph.Package.Forest
  ────────────────────────────────
  **THE DEPENDENCY FOREST OF A RESULT.**

  The packages of one result form a forest: every key becomes at most one
  component, shared by all that depend on it.  The forest numbers what the
  builder registered, in order of registration; a key that could not be
  converted is skipped.
-/
import ComponentGraph.Graph.Basic
import ComponentGraph.Package.Builder

namespace ComponentGraph

/-- A package that was left out, with the reason. -/
structure Skip where
  key : Json
  error : ConversionError
  target : Field
  deriving Repr, DecidableEq

namespace Result

def built (r : Result) : Builder := Builder.run r.entries (.start r.candidates)

/-- The packages that were left out, in order. -/
def skipped (r : Result) : List Skip := r.built.left.map fun (key, error) => ⟨key, error, r.target⟩

/-- The numbers of keys among those that are registered. -/
def numbers {n : Nat} (registered : Vector Json n) (keys : List Json) : List (Fin n) :=
  keys.filterMap fun key => registered.finIdxOf? key

def forestOf (drafts : List Draft) (roots : List Json) : Forest :=
  let vec : Vector Draft drafts.length := ⟨drafts.toArray, by simp⟩
  let keys := vec.map (·.key)
  { size := drafts.length
    graph := ⟨vec.map fun d => ⟨d.component, numbers keys d.children⟩⟩
    roots := numbers keys roots }

/-- The forest: drafts numbered in order of registration. -/
def forest (r : Result) : Forest :=
  let b := r.built
  forestOf b.drafts b.roots

end Result

end ComponentGraph
