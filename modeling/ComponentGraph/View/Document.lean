/-
  ComponentGraph.View.Document
  ────────────────────────────────
  **THE GRAPH AS A JSON DOCUMENT.**

  The document nests components as the graph does.  A component is written in
  full where it is met first; where it is met again stands only its
  reference.  The document is made in two steps:

      write    — the sequence of what stands in the document, in order, each
                 full component with the number of entries below it
      nest     — the tree that this sequence spells, read from its end

  Writing a component settles its package URL, and the settled graph is part
  of the result.  A component counts as met again when its reference shows: a
  component whose reference is empty or absent is written again, and then
  gets a reference that shows, since an empty one is no longer free.  Hence
  writing ends on every graph.
-/
import ComponentGraph.Graph.Basic
import ComponentGraph.Graph.Walk
import ComponentGraph.View.Refs

namespace ComponentGraph

/-! ## §1. Entries. -/

/-- A component as it is written in full. -/
structure Written where
  ref : Field
  component : Component
  /-- The written form of its package URL. -/
  purl : Option String
  deriving Repr, DecidableEq

inductive Entry where
  /-- A component in full, with the entries of its children. -/
  | full (written : Written) (below : List Entry)
  /-- A reference to a component that was written before. -/
  | ref (ref : Field)
  deriving Repr, Inhabited

inductive Mark where
  /-- A component in full, with the number of its children. -/
  | full (written : Written) (arity : Nat)
  | ref (ref : Field)
  deriving Repr, DecidableEq

namespace Mark

/-- Put a mark before the entries that follow it: a component takes as many
of them below itself as it has children. -/
def place (mark : Mark) (entries : List Entry) : List Entry :=
  match mark with
  | .full written arity => .full written (entries.take arity) :: entries.drop arity
  | .ref r => .ref r :: entries

def nest (marks : List Mark) : List Entry := marks.foldr place []

end Mark

/-! ## §2. The pen. -/

/-- The state of the writing: the graph as far as it is settled, the
references given, and those in use. -/
structure Pen (n : Nat) where
  graph : Graph n
  refs : Vector Field n
  used : List Field
  deriving Repr

namespace Pen

variable {n : Nat}

def start (g : Graph n) : Pen n := ⟨g, Vector.replicate n none, []⟩

/-- The reference of a component, if it was given one. -/
def refOf (pen : Pen n) (i : Fin n) : Field := pen.refs.get i

/-- The components without a reference that shows. -/
def unshown (pen : Pen n) : List (Fin n) :=
  (List.finRange n).filter fun i => !(pen.refOf i).isFilled

/-- The written form of an optional package URL. -/
def purlText (p : Option Purl) : Except PurlError (Option String) :=
  match p with
  | none => .ok none
  | some p => p.text?.map some

/-- The component of this number and its reference.  Its package URL is
written twice, once for the reference and once for itself. -/
def compose (pen : Pen n) (i : Fin n) : Except PurlError Written := do
  let c := pen.graph.component i
  -- the first writing settles the name, and the second one starts from there
  let first ← purlText c.purl
  let second ← purlText c.settled.purl
  return ⟨Refs.choose c.nameAtVersion first pen.used, c.settled.settled, second⟩

def record (pen : Pen n) (i : Fin n) (w : Written) : Pen n :=
  ⟨pen.graph.update i fun _ => w.component, pen.refs.set i.val w.ref i.isLt, w.ref :: pen.used⟩

/-! ## §3. Why writing ends. -/

theorem compose_ref_not_mem {pen : Pen n} {i : Fin n} {w : Written}
    (h : pen.compose i = .ok w) : w.ref ∉ pen.used := by
  unfold compose at h
  cases hf : purlText (pen.graph.component i).purl with
  | error e => simp [hf, bind, Except.bind] at h
  | ok first =>
    cases hs : purlText (pen.graph.component i).settled.purl with
    | error e => simp [hf, hs, bind, Except.bind] at h
    | ok second =>
      simp only [hf, hs, bind, Except.bind, pure, Except.pure, Except.ok.injEq] at h
      subst h
      exact Refs.choose_not_mem _ _ _

/-- What keeps less keeps the same of what was kept before. -/
private theorem filter_filter_of_imp {α : Type} {p q : α → Bool} {l : List α}
    (h : ∀ x, q x = true → p x = true) : (l.filter p).filter q = l.filter q := by
  rw [List.filter_filter]
  apply List.filter_congr
  intro x _
  cases hx : q x with
  | false => simp
  | true => simp [h x hx]

/-- A filter that keeps less, and misses a member, gives a shorter list. -/
private theorem length_filter_lt_of_imp {α : Type} {p q : α → Bool} {l : List α} {a : α}
    (h : ∀ x, q x = true → p x = true) (hm : a ∈ l) (hp : p a = true) (hq : q a = false) :
    (l.filter q).length < (l.filter p).length := by
  rw [← filter_filter_of_imp h, List.length_filter_lt_length_iff_exists]
  exact ⟨a, by simp [hm, hp], by simp [hq]⟩

private theorem length_filter_le_of_imp {α : Type} {p q : α → Bool} {l : List α}
    (h : ∀ x, q x = true → p x = true) : (l.filter q).length ≤ (l.filter p).length := by
  rw [← filter_filter_of_imp h]
  exact List.length_filter_le _ _

theorem refOf_record (pen : Pen n) (i j : Fin n) (w : Written) :
    (pen.record i w).refOf j = if j = i then w.ref else pen.refOf j := by
  show (pen.refs.set i.val w.ref i.isLt)[j.val] = if j = i then w.ref else pen.refs[j.val]
  rw [Vector.getElem_set]
  by_cases h : i = j
  · simp [h]
  · have hv : i.val ≠ j.val := fun hv => h (Fin.ext hv)
    simp [hv, Ne.symm h]

theorem length_unshown_lt {pen : Pen n} {i : Fin n} {w : Written}
    (hi : (pen.refOf i).isFilled = false) (hw : w.ref.isFilled = true) :
    (pen.record i w).unshown.length < pen.unshown.length := by
  refine length_filter_lt_of_imp (a := i) (fun j hj => ?_) (List.mem_finRange i) (by simp [hi]) ?_
  · rw [refOf_record] at hj
    by_cases h : j = i
    · simp [h, hi]
    · simpa [h] using hj
  · simp [refOf_record, hw]

theorem length_unshown_le {pen : Pen n} {i : Fin n} {w : Written}
    (hi : (pen.refOf i).isFilled = false) :
    (pen.record i w).unshown.length ≤ pen.unshown.length := by
  refine length_filter_le_of_imp (fun j hj => ?_)
  rw [refOf_record] at hj
  by_cases h : j = i
  · simp [h, hi]
  · simpa [h] using hj

theorem freeBlanks_lt {pen : Pen n} {i : Fin n} {w : Written}
    (hw : w.ref.isFilled = false) (hu : w.ref ∉ pen.used) :
    Refs.freeBlanks (pen.record i w).used < Refs.freeBlanks pen.used := by
  refine length_filter_lt_of_imp (a := w.ref) (fun f hf => ?_) (Refs.mem_blanks hw)
    (by simp [hu]) (by simp [record])
  simp only [record, List.mem_cons, not_or, decide_eq_true_eq] at hf ⊢
  exact hf.2

/-! ## §4. Writing. -/

/-- What was written: the marks, or why it could not go on, and the graph as
far as it is settled. -/
structure Outcome (n : Nat) where
  marks : Except PurlError (List Mark)
  graph : Graph n
  deriving Repr

/-- The outcome with one more mark in front. -/
def Outcome.prepend (mark : Mark) (o : Outcome n) : Outcome n :=
  ⟨o.marks.map (mark :: ·), o.graph⟩

/-- Write the components that are waiting, each with all below it before the
next one. -/
def write (pen : Pen n) : List (Fin n) → Outcome n
  | [] => ⟨.ok [], pen.graph⟩
  | i :: waiting =>
    if (pen.refOf i).isFilled then (write pen waiting).prepend (.ref (pen.refOf i))
    else
      match _hc : pen.compose i with
      -- the name was settled before its package URL could not be written
      | .error e => ⟨.error e, pen.graph.update i Component.settled⟩
      | .ok w =>
        let below := pen.graph.children i
        (write (pen.record i w) (below ++ waiting)).prepend (.full w below.length)
termination_by waiting => (pen.unshown.length, Refs.freeBlanks pen.used, waiting.length)
decreasing_by
  · exact Prod.Lex.right _ (Prod.Lex.right _ (by simp))
  · rename_i hi
    have hi : (pen.refOf i).isFilled = false := by simpa using hi
    by_cases hf : w.ref.isFilled = true
    · exact Prod.Lex.left _ _ (length_unshown_lt hi hf)
    · -- a reference that does not show is met again, but there are few of them
      have hf : w.ref.isFilled = false := by simpa using hf
      rcases Nat.lt_or_eq_of_le (length_unshown_le (w := w) hi) with hlt | heq
      · exact Prod.Lex.left _ _ hlt
      · rw [heq]
        exact Prod.Lex.right _ (Prod.Lex.left _ _ (freeBlanks_lt hf (compose_ref_not_mem _hc)))

end Pen

/-- The sequence of a graph's document, and the settled graph. -/
def Graph.marks {n : Nat} (g : Graph n) (root : Fin n) : Pen.Outcome n :=
  (Pen.start g).write [root]

def Pen.Outcome.entry {n : Nat} (o : Pen.Outcome n) : Except PurlError Entry :=
  o.marks.map fun marks => ((Mark.nest marks).head?).getD default

/-- The entry that a graph's document consists of. -/
def Graph.entry {n : Nat} (g : Graph n) (root : Fin n) : Except PurlError Entry :=
  (g.marks root).entry

/-! ## §5. JSON. -/

def Property.toJson (p : Property) : Json :=
  .ofFields [("name", some (.text p.fullName)), ("value", p.value)]

/-- A list that is written only if there is something in it. -/
def Json.nonempty (items : List Json) : Field := if items = [] then none else some (.array items)

/-- The identifier of a vulnerability in the document; null if it has none. -/
def Vulnerability.idJson (v : Vulnerability) : Json := v.id.getD .null

/-- The members of a component that is written in full, before its children. -/
def Written.fields (w : Written) : List (String × Field) :=
  let c := w.component
  [("bom-ref", w.ref),
    ("type", c.type.map .text),
    ("name", c.name),
    ("group", c.group),
    ("version", c.version),
    ("purl", w.purl.map .text),
    ("supplier", c.supplier),
    ("licenses", c.licenses.map .array),
    ("hashes", c.hashes.map .array),
    ("properties", Json.nonempty (c.properties.map Property.toJson)),
    ("vulnerabilities",
      Json.nonempty (c.vulnerabilityList.map Vulnerability.idJson))]

mutual

def Entry.toJson : Entry → Json
  | .ref r => .ofFields [("ref", r)]
  | .full w below =>
    .ofFields (w.fields ++ [("components", Json.nonempty (Entry.listToJson below))])

def Entry.listToJson : List Entry → List Json
  | [] => []
  | e :: es => e.toJson :: Entry.listToJson es

end

/-- The name and the version of this tool. -/
def toolName : String := "bomgraph"

def toolVersion : String := "0.1.0"

/-- A document with this time and this entry. -/
def document (timestamp : String) (entry : Entry) : Json :=
  .object [
    ("metadata", .object [
      ("timestamp", .text timestamp),
      ("tool", .object [("name", .text toolName), ("version", .text toolVersion)])]),
    ("component", entry.toJson)]

def Graph.document {n : Nat} (g : Graph n) (root : Fin n) (timestamp : String) :
    Except PurlError Json :=
  (g.entry root).map (ComponentGraph.document timestamp)

end ComponentGraph
