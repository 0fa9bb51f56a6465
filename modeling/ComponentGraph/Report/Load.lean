/-
  ComponentGraph.Report.Load
  ────────────────────────────────
  **LOADING A REPORT FROM A FILE.**

  A file tree is a list of names with contents, below one working directory.
  Loading looks a path up, decodes the file, reads it as JSON and checks it.
  What it returns is the document as it was read, with a schema version of
  zero and empty metadata where there are none.
-/
import ComponentGraph.Json.Reader
import ComponentGraph.Report.Check
import ComponentGraph.Text.Utf8

namespace ComponentGraph

/-! ## §1. File trees. -/

/-- What a name stands for. -/
inductive FileContent where
  | file (bytes : List Nat)
  | directory
  deriving Repr, DecidableEq

/-- Names below the working directory, with slashes, and what they stand for. -/
abbrev FileTree := List (String × FileContent)

namespace FileTree

/-- What is at this place below the working directory.  A name above another
one is a directory even if the tree does not list it. -/
def at? (tree : FileTree) (names : List String) : Option FileContent :=
  if names = [] then some .directory
  else
    let name := String.intercalate "/" names
    match Table.find? name tree with
    | some content => some content
    | none =>
      let above := (name ++ "/").toList
      if tree.any fun entry => above.isPrefixOf entry.1.toList then some .directory else none

/-- Go from a directory to the next name of a path. -/
def descend (tree : FileTree) (names : List String) (next : String) : Option (List String) :=
  if tree.at? names ≠ some .directory then none
  else if next = "" ∨ next = "." then some names
  else if next = ".." then (if names = [] then none else some names.dropLast)
  else some (names ++ [next])

def look? (tree : FileTree) (path : String) : Option FileContent :=
  if path = "" ∨ path.toList.head? = some '/' then none
  else ((path.splitOn "/").foldlM tree.descend []).bind tree.at?

end FileTree

/-! ## §2. Errors. -/

/-- Why a file's content could not be read as JSON. -/
inductive ReadFault where
  /-- There is a directory instead of a file. -/
  | directory
  /-- The text is no JSON document. -/
  | malformed
  deriving Repr, DecidableEq

inductive LoadFault where
  | notFound
  | notJson (cause : ReadFault)
  | invalid (problem : Problem)
  deriving Repr, DecidableEq

/-- A fault, and the path where it occurred. -/
structure LoadError where
  path : String
  fault : LoadFault
  deriving Repr, DecidableEq

namespace LoadError

def message (e : LoadError) : String :=
  (match e.fault with
    | .notFound => "Report file not found"
    | .notJson _ => "Report is not valid JSON"
    | .invalid problem => "Invalid report (" ++ problem.message ++ ")") ++ ": " ++ e.path

end LoadError

/-! ## §3. Loading. -/

namespace Report

def decodeFile (bytes : List Nat) : List Char := Text.Utf8.decodeLossy bytes

/-- A member with this value, where it is absent or null. -/
def withDefault (name : String) (value : Json) (j : Json) : Json :=
  match j, (j.get? name).value? with
  | .object members, none => .object (Table.set name value members)
  | _, _ => j

def withDefaults (j : Json) : Json :=
  withDefault "Metadata" (.object []) (withDefault "SchemaVersion" (.number .zero) j)

/-- The report in what a path leads to. -/
def ofContent : Option FileContent → Except LoadFault Json
  | none => .error .notFound
  | some .directory => .error (.notJson .directory)
  | some (.file bytes) =>
    match Json.read? (decodeFile bytes) with
    | none => .error (.notJson .malformed)
    | some j =>
      match checkJson j with
      | some problem => .error (.invalid problem)
      | none => .ok (withDefaults j)

/-- Load the report at a path, given what paths lead to. -/
def load (look? : String → Option FileContent) (path : String) : Except LoadError Json :=
  (ofContent (look? path)).mapError (⟨path, ·⟩)

def resultCount (j : Json) : Nat := (arrayItems (j.get? "Results")).length

end Report

end ComponentGraph
