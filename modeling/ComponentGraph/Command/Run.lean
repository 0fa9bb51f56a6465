/-
  ComponentGraph.Command.Run
  ────────────────────────────────
  **A RUN OF THE PROGRAM.**

  A run reads the command line, loads the report, assembles its graph and
  shows it, as a document or as a tree.  Packages that were left out are
  named in a notice; they do not make the run fail.  Everything that can go
  wrong is one of the failures.
-/
import ComponentGraph.Command.Arguments
import ComponentGraph.View.Document
import ComponentGraph.View.Summary

namespace ComponentGraph.Command

/-! ## §1. Outcomes of a run. -/

/-- What a run shows: texts of the result, notices beside it, and what it
has to log. -/
structure Display where
  texts : List String
  notices : List String := []
  records : List LogRecord := []
  deriving Repr, DecidableEq

/-- The texts as they are printed, each with a line break behind it. -/
def Display.printed (d : Display) : String := String.join (d.texts.map (· ++ "\n"))

/-- Why a run fails. -/
inductive Failure where
  | usage (error : UsageError)
  /-- More than one threshold was given; together they name none. -/
  | level (names : List String)
  | load (error : LoadError)
  | assembly (error : AssemblyError)
  | document (error : PurlError)
  deriving Repr, DecidableEq

namespace Failure

/-- The wording for names that together are no threshold. -/
def levelMessage (names : List String) : String := "unknown level " ++ ",".intercalate names

/-- The kind and the wording of a failure inside the program; a wrong usage
has no kind, and some failures have no wording. -/
def title : Failure → Option (String × String)
  | .usage _ => none
  | .level names => some ("Error", levelMessage names)
  | .load error => some ("ReportLoadError", error.message)
  | .assembly error => error.message.map ("MarshalError", ·)
  | .document error => error.message.map ("Error", ·)

def firstLine (s : String) : String := String.ofList (s.toList.takeWhile (· ≠ '\n'))

/-- The line that heads the report of a failure inside the program. -/
def headline (f : Failure) : Option String :=
  f.title.map fun (kind, message) => firstLine (kind ++ ": " ++ message)

def notice (f : Failure) : String :=
  match f, f.headline with
  | .usage error, _ => error.message
  | _, some line => line
  | _, none => "Error"

end Failure

/-! ## §2. Showing a graph. -/

/-- The indent of a document. -/
def Settings.indent (s : Settings) : String := if s.pretty then Json.spaces 2 else ""

def texts (s : Settings) (colour : Bool) (timestamp : String) (r : Rooted) :
    Except Failure (List String) :=
  if s.asDocument then
    match r.graph.document r.root timestamp with
    | .ok j => .ok [Json.pretty s.indent j]
    | .error e => .error (.document e)
  else .ok (r.graph.overview colour r.root)

/-- The notice about packages that were left out, if there are any. -/
def skipNotices (colour : Bool) (skipped : List Skip) : List String :=
  if skipped = [] then []
  else
    let count := toString skipped.length ++ (if skipped.length = 1 then " package" else " packages")
    let keys := ", ".intercalate (Json.itemTexts (skipped.map Skip.key))
    [Style.yellow.paint colour ("Skipped " ++ count ++ ": " ++ keys)]

/-! ## §3. Running. -/

/-- The surroundings of a run. -/
structure Surroundings where
  look? : String → Option FileContent
  colour : Bool
  timestamp : String

/-- What a run logs: the report it loaded, the packages that were left out,
the graph. -/
def logRecords (path : String) (j : Json) (r : Report) (a : Assembly) : List LogRecord :=
  Report.loadRecord path j
    :: a.skipped.map (fun skip => Skip.record { skip with target := none }) ++ [a.record r]

def build (around : Surroundings) (s : Settings) : Except Failure Display := do
  if s.levels.length > 1 then .error (.level s.levels)
  let j ← (Report.load around.look? s.report).mapError .load
  let (report, assembly) ← (assembleJson j).mapError .assembly
  return {
    texts := ← texts s around.colour around.timestamp assembly.graph
    notices := skipNotices around.colour assembly.skipped
    records := logRecords s.report j report assembly }

def helpTexts : List String :=
  ["bomgraph [report]",
    "",
    "Build the SBOM component graph of a scan report",
    "",
    "  --output     console or json",
    "  --pretty     indent JSON output",
    "  --log-level  fatal, error, warn, info, debug, trace or silent",
    "  --help",
    "  --version"]

def answer (around : Surroundings) : Request → Except Failure Display
  | .help => .ok { texts := helpTexts }
  | .version => .ok { texts := [toolVersion] }
  | .build s => build around s

def run (around : Surroundings) (args : List String) : Except Failure Display := do
  answer around (← (parse args).mapError .usage)

def status : Except Failure Display → Nat
  | .ok _ => 0
  | .error _ => 1

end ComponentGraph.Command
