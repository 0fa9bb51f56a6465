/-
  ComponentGraph.Package.Builder
  ────────────────────────────────
  **BUILDING COMPONENTS, EACH ONCE.**

  The components of a result are built depth first.  A component is
  registered under its key before its dependencies are followed, so a cycle
  ends at a component that is still under construction; it is handed out as
  it is, and its children go on arriving.

      drafts  — the components registered so far, with the children that
                have arrived so far
      left    — the keys that could not be converted, with the reasons
      roots   — the components that came back for the candidates
      stack   — the components under construction, each with the
                dependencies that it has still to follow

  The frame at the bottom of the stack is the list of candidates.  A
  component that is complete goes to the frame below its own.
-/
import ComponentGraph.Graph.Walk
import ComponentGraph.Package.Result

namespace ComponentGraph

/-! ## §1. What has been built. -/

/-- A registered component, with the keys of the children that have arrived. -/
structure Draft where
  key : Json
  component : Component
  children : List Json
  deriving Repr, DecidableEq

/-- A component under construction, or the list of roots, with the keys that
it has still to follow. -/
structure Frame where
  owner : Option Json
  pending : List Json
  deriving Repr, DecidableEq

/-- The state of the building. -/
structure Builder where
  drafts : List Draft
  left : List (Json × ConversionError)
  roots : List Json
  stack : List Frame
  deriving Repr, DecidableEq

namespace Builder

/-- One more key arrives; one that is there already is not added again. -/
def arrive (keys : List Json) (key : Json) : List Json :=
  if key ∈ keys then keys else keys ++ [key]

def start (candidates : List Json) : Builder := ⟨[], [], [], [⟨none, candidates⟩]⟩

def registered (b : Builder) : List Json := b.drafts.map (·.key)

/-- The keys that could not be converted. -/
def refused (b : Builder) : List Json := b.left.map (·.1)

/-- The keys that need not be looked at again. -/
def known (b : Builder) : List Json := b.registered ++ b.refused

/-! ## §2. One step. -/

def withStack (b : Builder) (stack : List Frame) : Builder := { b with stack }

/-- Register a component, without children as yet, and follow its
dependencies next. -/
def register (b : Builder) (key : Json) (component : Component) (dependsOn : List Json) :
    Builder :=
  { b with
    drafts := b.drafts ++ [⟨key, component, []⟩]
    stack := ⟨some key, dependsOn⟩ :: b.stack }

/-- Leave a key out. -/
def leave (b : Builder) (key : Json) (error : ConversionError) : Builder :=
  { b with left := b.left ++ [(key, error)] }

/-- A component arrives below the one that asked for it, or among the roots. -/
def attach (b : Builder) (owner : Option Json) (child : Json) : Builder :=
  match owner with
  | none => { b with roots := b.roots ++ [child] }
  | some key =>
    { b with
      drafts := b.drafts.map fun d =>
        if d.key = key then { d with children := arrive d.children child } else d }

/-- The top frame is done: what it built goes to the frame below. -/
def hand (b : Builder) (owner : Option Json) : Builder :=
  match owner, b.stack with
  | some key, below :: _ => b.attach below.owner key
  | _, _ => b

def ask (entries : List Result.Entry) (b : Builder) (owner : Option Json) (key : Json) : Builder :=
  match Result.entryOf? entries key with
  | none => b
  | some e =>
    -- complete or not: on a cycle it is handed out while it is being built
    if key ∈ b.registered then b.attach owner key
    else if key ∈ b.refused then b
    else
      match e.outcome with
      | .error error => b.leave key error
      | .ok component => b.register key component e.package.dependsOn

def step (entries : List Result.Entry) (b : Builder) : Builder :=
  match b.stack with
  | [] => b
  | ⟨owner, []⟩ :: stack => (b.withStack stack).hand owner
  -- the key leaves its frame before it is asked for, so a new frame goes on top
  | ⟨owner, key :: pending⟩ :: stack =>
    (b.withStack (⟨owner, pending⟩ :: stack)).ask entries owner key

/-! ## §3. Why building ends. -/

/-- How much the frames have still to do. -/
def work : List Frame → Nat
  | [] => 0
  | f :: stack => f.pending.length + 1 + work stack

/-- The keys of entries about which nothing is known. -/
def unknown (entries : List Result.Entry) (b : Builder) : List Json :=
  Walk.unseen (entries.map (·.key)) b.known

@[simp] theorem registered_attach (b : Builder) (owner : Option Json) (child : Json) :
    (b.attach owner child).registered = b.registered := by
  cases owner with
  | none => rfl
  | some key =>
    simp only [registered, attach, List.map_map]
    apply List.map_congr_left
    intro d _
    simp only [Function.comp_apply]
    split <;> rfl

@[simp] theorem left_attach (b : Builder) (owner : Option Json) (child : Json) :
    (b.attach owner child).left = b.left := by
  cases owner <;> rfl

@[simp] theorem stack_attach (b : Builder) (owner : Option Json) (child : Json) :
    (b.attach owner child).stack = b.stack := by
  cases owner <;> rfl

@[simp] theorem known_attach (b : Builder) (owner : Option Json) (child : Json) :
    (b.attach owner child).known = b.known := by
  simp [known, refused]

@[simp] theorem known_hand (b : Builder) (owner : Option Json) :
    (b.hand owner).known = b.known := by
  unfold hand
  split
  · exact known_attach ..
  · rfl

@[simp] theorem stack_hand (b : Builder) (owner : Option Json) :
    (b.hand owner).stack = b.stack := by
  unfold hand
  split
  · exact stack_attach ..
  · rfl

theorem known_register (b : Builder) (key : Json) (component : Component)
    (dependsOn : List Json) :
    (b.register key component dependsOn).known = b.registered ++ [key] ++ b.refused := by
  simp [known, registered, refused, register]

theorem known_leave (b : Builder) (key : Json) (error : ConversionError) :
    (b.leave key error).known = b.known ++ [key] := by
  simp [known, registered, refused, leave]

/-- A key that an entry has, and about which nothing was known, is known now. -/
theorem length_unknown_lt {entries : List Result.Entry} {b b' : Builder} {key : Json}
    {e : Result.Entry} (he : Result.entryOf? entries key = some e) (hn : key ∉ b.known)
    (hk : key ∈ b'.known) (hsub : ∀ x ∈ b.known, x ∈ b'.known) :
    (unknown entries b').length < (unknown entries b).length := by
  refine Walk.length_unseen_lt hsub (List.mem_map.2 ⟨e, ?_, ?_⟩) hn hk
  · exact List.mem_of_find?_eq_some he
  · simpa using List.find?_some he

/-- A key that is asked for leaves the stack as it is, or becomes known. -/
theorem ask_cases (entries : List Result.Entry) (b : Builder) (owner : Option Json)
    (key : Json) :
    (unknown entries (b.ask entries owner key)).length < (unknown entries b).length
      ∨ (b.ask entries owner key).known = b.known
        ∧ (b.ask entries owner key).stack = b.stack := by
  unfold ask
  split
  · exact .inr ⟨rfl, rfl⟩
  · rename_i e he
    split
    · exact .inr ⟨known_attach .., stack_attach ..⟩
    · split
      · exact .inr ⟨rfl, rfl⟩
      · rename_i hr hf
        have hn : key ∉ b.known := by simp [known, hr, hf]
        left
        split
        · refine length_unknown_lt he hn ?_ ?_ <;> simp +contextual [known_leave]
        · refine length_unknown_lt he hn ?_ ?_ <;> rw [known_register]
          · simp
          · simp +contextual [known, or_imp]

/-- **A step makes less unknown, or leaves less to do.** -/
theorem step_decreases (entries : List Result.Entry) (b : Builder) (h : b.stack ≠ []) :
    Prod.Lex (· < ·) (· < ·)
      ((unknown entries (b.step entries)).length, work (b.step entries).stack)
      ((unknown entries b).length, work b.stack) := by
  unfold step
  split
  · contradiction
  · -- a frame goes, and nothing becomes known
    rename_i owner stack hs
    have hk : unknown entries ((b.withStack stack).hand owner) = unknown entries b := by
      rw [unknown, known_hand]
      rfl
    rw [hk, stack_hand]
    refine Prod.Lex.right _ ?_
    rw [hs]
    show work stack < 0 + 1 + work stack
    omega
  · -- a new frame comes only with a key that becomes known
    rename_i owner key pending stack hs
    rcases ask_cases entries (b.withStack (⟨owner, pending⟩ :: stack)) owner key with
      hlt | ⟨hk, hst⟩
    · exact Prod.Lex.left _ _ hlt
    · rw [unknown, hk, hst]
      refine Prod.Lex.right _ ?_
      rw [hs]
      show pending.length + 1 + work stack < pending.length + 1 + 1 + work stack
      omega

/-- Building goes on until no frame is left. -/
def run (entries : List Result.Entry) (b : Builder) : Builder :=
  if _h : b.stack = [] then b else run entries (b.step entries)
termination_by ((unknown entries b).length, work b.stack)
decreasing_by exact step_decreases entries b _h

end Builder

end ComponentGraph
