/-
  ComponentGraph.Session
  ────────────────────────────────
  **WORKING ON GRAPHS STEP BY STEP.**

  A session holds one growing graph, in which some components have names, and
  some named reports.  A step adds components, changes them, or looks at
  them; it either has a reply or fails.  A step that fails leaves the session
  as it was, with one exception: writing package URLs settles their names,
  and what was settled before the failure remains so.
-/
import ComponentGraph.Graph.Reach
import ComponentGraph.Graph.Record
import ComponentGraph.Report.Assembly
import ComponentGraph.Report.Load
import ComponentGraph.View.Document
import ComponentGraph.View.Summary

namespace ComponentGraph

/-! ## §1. Steps and replies. -/

inductive Step where
  | make (id : String) (record : Json)
  /-- Make the component that a bill of materials declares for itself. -/
  | declare (id : String) (declaration : Field)
  /-- Keep a report, whatever is wrong with it. -/
  | keep (id : String) (report : Field)
  | load (id : String) (files : FileTree) (path : String)
  /-- Assemble the graph of a report and name its root. -/
  | assemble (id report : String)
  /-- Name a component below another one, by the positions of children. -/
  | select (id start : String) (path : List Nat)
  /-- Add a child behind the others. -/
  | link (parent child : String)
  /-- Remove the child at a position. -/
  | unlink (parent : String) (position : Nat)
  | change (id field : String) (value : Field)
  | look (id : String)
  | same (a b : String)
  /-- List what can be reached from a component. -/
  | list (id : String)
  | writePurl (id : String)
  /-- Write a component and all below it as a document. -/
  | write (id : String)
  | draw (id : String)
  | count (id : String)
  deriving Repr

inductive Reply where
  | component (c : Component)
  | problem (p : Option Problem)
  | report (j : Json)
  /-- The keys of the packages left out, and the number of the root's children. -/
  | assembled (skipped : List Json) (children : Nat)
  | names (fields : List Field)
  | truth (b : Bool)
  | listing (l : Listing)
  | text (s : Option String)
  | entry (e : Entry)
  | lines (ls : List String)
  | summary (s : Summary)
  deriving Repr

inductive StepError where
  | unknown (id : String)
  | load (error : LoadError)
  | assembly (error : AssemblyError)
  /-- A field cannot be read as a package URL. -/
  | purl (error : PackageUrlError)
  /-- A package URL has no written form. -/
  | writing (error : PurlError)
  /-- A declaration is not as it should be. -/
  | shape (fault : ShapeFault)
  deriving Repr, DecidableEq

/-! ## §2. Sessions. -/

structure Session where
  size : Nat
  graph : Graph size
  names : List (String × Fin size)
  reports : List (String × Json)
  deriving Repr

namespace Session

def start : Session := ⟨0, Graph.empty, [], []⟩

def find (s : Session) (id : String) : Except StepError (Fin s.size) :=
  match Table.find? id s.names with
  | some i => .ok i
  | none => .error (.unknown id)

def findReport (s : Session) (id : String) : Except StepError Json :=
  match Table.find? id s.reports with
  | some j => .ok j
  | none => .error (.unknown id)

def name (s : Session) (id : String) (i : Fin s.size) : Session :=
  { s with names := Table.set id i s.names }

def keepReport (s : Session) (id : String) (j : Json) : Session :=
  { s with reports := Table.set id j s.reports }

/-- Take up a graph and name its root. -/
def adopt (s : Session) (id : String) (r : Rooted) : Session where
  size := s.size + r.size
  graph := s.graph.append r.graph
  names := Table.set id (Fin.natAdd s.size r.root)
    (s.names.map fun (name, i) => (name, i.castAdd r.size))
  reports := s.reports

def adoptComponent (s : Session) (id : String) (c : Component) : Session :=
  s.adopt id (Rooted.above c .empty)

def withGraph (s : Session) (g : Graph s.size) : Session := { s with graph := g }

def childNames (s : Session) (i : Fin s.size) : List Field :=
  (s.graph.children i).map fun child => (s.graph.component child).name

def follow (s : Session) (start : Fin s.size) (path : List Nat) : Option (Fin s.size) :=
  path.foldlM (fun i position => (s.graph.children i)[position]?) start

/-! ## §3. Steps that add. -/

/-- Take up a component, if there is one. -/
def adoptRead (s : Session) (id : String) :
    Except StepError Component → Session × Except StepError Reply
  | .ok c => (s.adoptComponent id c, .ok (.component c))
  | .error e => (s, .error e)

def declared (declaration : Field) : Except StepError Component := do
  let d ← (Declaration.ofField declaration).mapError .shape
  d.component.mapError .purl

def loadStep (s : Session) (id : String) (files : FileTree) (path : String) :
    Session × Except StepError Reply :=
  match Report.load files.look? path with
  | .ok j => (s.keepReport id j, .ok (.report j))
  | .error e => (s, .error (.load e))

def assembleStep (s : Session) (id report : String) : Session × Except StepError Reply :=
  match s.findReport report with
  | .error e => (s, .error e)
  | .ok j =>
    match assembleJson j with
    | .error e => (s, .error (.assembly e))
    | .ok (_, a) =>
      (s.adopt id a.graph,
        .ok (.assembled (a.skipped.map Skip.key) (a.graph.graph.children a.graph.root).length))

/-- Name a component by the way to it. -/
def selectStep (s : Session) (id start : String) (path : List Nat) :
    Session × Except StepError Reply :=
  match s.find start with
  | .error e => (s, .error e)
  | .ok i =>
    match s.follow i path with
    | some j => (s.name id j, .ok (.component (s.graph.component j)))
    | none => (s, .error (.unknown id))

/-! ## §4. Steps that change. -/

/-- Change the children of a component and reply with their names. -/
def changeChildren (s : Session) (i : Fin s.size)
    (f : List (Fin s.size) → List (Fin s.size)) : Session × Except StepError Reply :=
  let changed := s.withGraph (s.graph.modify i fun node => ⟨node.component, f node.children⟩)
  (changed, .ok (.names (changed.childNames i)))

def linkStep (s : Session) (parent child : String) : Session × Except StepError Reply :=
  match s.find parent, s.find child with
  | .error e, _ | _, .error e => (s, .error e)
  | .ok i, .ok j => s.changeChildren i (· ++ [j])

def unlinkStep (s : Session) (parent : String) (position : Nat) :
    Session × Except StepError Reply :=
  match s.find parent with
  | .error e => (s, .error e)
  | .ok i => s.changeChildren i (·.eraseIdx position)

def changeStep (s : Session) (id field : String) (value : Field) :
    Session × Except StepError Reply :=
  match s.find id with
  | .error e => (s, .error e)
  | .ok i =>
    match (s.graph.component i).withField field value with
    | .error e => (s, .error (.purl e))
    | .ok c => (s.withGraph (s.graph.update i fun _ => c), .ok (.component c))

/-! ## §5. Steps that look. -/

/-- Look at a component; the session stays as it is. -/
def view (s : Session) (id : String) (reply : Fin s.size → Reply) :
    Session × Except StepError Reply :=
  (s, (s.find id).map reply)

def sameStep (s : Session) (a b : String) : Session × Except StepError Reply :=
  match s.find a, s.find b with
  | .error e, _ | _, .error e => (s, .error e)
  | .ok i, .ok j => (s, .ok (.truth (i = j)))

/-- Write a package URL, which settles its name. -/
def writePurlStep (s : Session) (id : String) : Session × Except StepError Reply :=
  match s.find id with
  | .error e => (s, .error e)
  | .ok i =>
    (s.withGraph (s.graph.update i Component.settled),
      match Pen.purlText (s.graph.component i).purl with
      | .ok written => .ok (.text written)
      | .error e => .error (.writing e))

/-- Write a document, which settles names as far as it is written. -/
def writeStep (s : Session) (id : String) : Session × Except StepError Reply :=
  match s.find id with
  | .error e => (s, .error e)
  | .ok i =>
    let outcome := s.graph.marks i
    (s.withGraph outcome.graph,
      match outcome.entry with
      | .ok entry => .ok (.entry entry)
      | .error e => .error (.writing e))

/-! ## §6. Running. -/

def step (s : Session) : Step → Session × Except StepError Reply
  | .make id record => s.adoptRead id ((Component.ofRecord record).mapError .purl)
  | .declare id declaration => s.adoptRead id (declared declaration)
  | .keep id report =>
    (s.keepReport id (report.getD .null), .ok (.problem (Report.check report)))
  | .load id files path => s.loadStep id files path
  | .assemble id report => s.assembleStep id report
  | .select id start path => s.selectStep id start path
  | .link parent child => s.linkStep parent child
  | .unlink parent position => s.unlinkStep parent position
  | .change id field value => s.changeStep id field value
  | .look id => s.view id fun i => .component (s.graph.component i)
  | .same a b => s.sameStep a b
  | .list id => s.view id fun i => .listing (Forest.listing ⟨s.size, s.graph, [i]⟩)
  | .writePurl id => s.writePurlStep id
  | .write id => s.writeStep id
  | .draw id => s.view id fun i => .lines (s.graph.tree false i)
  | .count id => s.view id fun i => .summary (s.graph.summary i)

/-- Do steps in order; each has its answer. -/
def run (s : Session) : List Step → List (Except StepError Reply)
  | [] => []
  | next :: rest =>
    let (after, answer) := s.step next
    answer :: after.run rest

end Session

end ComponentGraph
