/-
  ComponentGraph.Graph.Walk
  ────────────────────────────────
  **DEPTH-FIRST WALKS.**

  A walk goes through places.  Each place stands for a key; the places below
  it are entered when its key is met for the first time, in order and before
  anything that was already waiting.  So each key is entered at most once,
  and the walk ends on every graph, cyclic or not, as long as the keys come
  from a finite list.

  The stops of a walk are all that its users see: the package builder, the
  tree, the summary and the numbering of a graph are read off them.
-/

namespace ComponentGraph

/-- A stop of a walk: a key met for the first time, or met again. -/
inductive Stop (α : Type) where
  | first (place : α)
  | again (place : α)
  deriving Repr, DecidableEq

namespace Stop

variable {α : Type}

/-- The place of a first stop. -/
def first? : Stop α → Option α
  | .first place => some place
  | .again _ => none

/-- The places met for the first time, in order. -/
def firsts (stops : List (Stop α)) : List α := stops.filterMap first?

end Stop

namespace Walk

variable {α κ : Type} [DecidableEq κ]

/-- The known keys that have not been seen. -/
def unseen (known seen : List κ) : List κ := known.filter fun k => k ∉ seen

theorem mem_unseen {known seen : List κ} {k : κ} :
    k ∈ unseen known seen ↔ k ∈ known ∧ k ∉ seen := by
  simp [unseen]

/-- Who sees a known key for the first time has fewer of them unseen. -/
theorem length_unseen_lt {known seen more : List κ} {k : κ} (hsub : ∀ x ∈ seen, x ∈ more)
    (hk : k ∈ known) (hs : k ∉ seen) (hm : k ∈ more) :
    (unseen known more).length < (unseen known seen).length := by
  have h : unseen known more = (unseen known seen).filter fun x => x ∉ more := by
    simp only [unseen, List.filter_filter]
    congr 1
    funext x
    by_cases hx : x ∈ seen
    · simp [hx, hsub x hx]
    · simp [hx]
  rw [h, List.length_filter_lt_length_iff_exists]
  exact ⟨k, mem_unseen.2 ⟨hk, hs⟩, by simp [hm]⟩

theorem length_unseen_cons {known seen : List κ} {k : κ} (hk : k ∈ known) (hs : k ∉ seen) :
    (unseen known (k :: seen)).length < (unseen known seen).length :=
  length_unseen_lt (fun _ hx => List.mem_cons_of_mem k hx) hk hs List.mem_cons_self

/-- The stops of a walk that has seen some keys and still has some places to
go to.  A place whose key is not a known one is passed over. -/
def stops (key : α → κ) (below : α → List α) (known seen : List κ) :
    List α → List (Stop α)
  | [] => []
  | place :: waiting =>
    if key place ∈ seen then .again place :: stops key below known seen waiting
    else if key place ∈ known then
      .first place :: stops key below known (key place :: seen) (below place ++ waiting)
    else stops key below known seen waiting
termination_by waiting => ((unseen known seen).length, waiting.length)
decreasing_by
  · exact Prod.Lex.right _ (by simp)
  · rename_i hs hk
    exact Prod.Lex.left _ _ (length_unseen_cons hk hs)
  · exact Prod.Lex.right _ (by simp)

end Walk

end ComponentGraph
