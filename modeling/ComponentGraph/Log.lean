/-
  ComponentGraph.Log
  ────────────────────────────────
  **LOG RECORDS.**

  The program keeps a log of what it does.  A record has a level, some named
  values and a message; a logger writes the records of its own level and
  above.  Values under the names of secrets are never written.
-/
import ComponentGraph.Report.Assembly
import ComponentGraph.Report.Load

namespace ComponentGraph

/-! ## §1. Levels. -/

inductive LogLevel where
  | trace
  | debug
  | info
  | warn
  | error
  | fatal
  deriving Repr, DecidableEq

namespace LogLevel

/-- All levels, from the most severe to the least. -/
def all : List LogLevel := [.fatal, .error, .warn, .info, .debug, .trace]

def name : LogLevel → String
  | .trace => "trace"
  | .debug => "debug"
  | .info => "info"
  | .warn => "warn"
  | .error => "error"
  | .fatal => "fatal"

def severity : LogLevel → Nat
  | .trace => 10
  | .debug => 20
  | .info => 30
  | .warn => 40
  | .error => 50
  | .fatal => 60

def ofName? (s : String) : Option LogLevel := all.find? (·.name = s)

end LogLevel

/-! ## §2. Loggers. -/

/-- From which level on records are written; a silent logger writes none. -/
inductive Threshold where
  | level (l : LogLevel)
  | silent
  deriving Repr, DecidableEq

namespace Threshold

def name : Threshold → String
  | .level l => l.name
  | .silent => "silent"

def allows : Threshold → LogLevel → Bool
  | .level own, l => own.severity ≤ l.severity
  | .silent, _ => false

def enabled (t : Threshold) : List LogLevel := LogLevel.all.filter t.allows

def ofName? (s : String) : Option Threshold :=
  if s = Threshold.silent.name then some .silent else (LogLevel.ofName? s).map .level

/-- The threshold that a setting names; levels are named in any case. -/
def ofSetting? (s : String) : Option Threshold :=
  match ofName? s with
  | some t => some t
  | none => (LogLevel.ofName? s.toLower).map .level

structure Settings where
  /-- What the program asks for. -/
  option : Option String
  /-- What the environment asks for. -/
  environment : Option String
  /-- The mode that the program runs in. -/
  mode : Option String
  deriving Repr

def given (s : Option String) : Option String := s.filter (· ≠ "")

/-- The name of the threshold: the program's wish, else the environment's,
else `info` in production and `debug` elsewhere. -/
def Settings.name (s : Settings) : String :=
  ((given s.option).or (given s.environment)).getD
    (if s.mode = some "production" then LogLevel.info.name else LogLevel.debug.name)

/-- The wording for a name that is no threshold. -/
def unknownMessage (name : String) : String :=
  "default level:" ++ name ++ " must be included in custom levels"

/-- The threshold that the settings lead to, or the name that is none. -/
def choose (s : Settings) : Except String Threshold :=
  match ofSetting? s.name with
  | some t => .ok t
  | none => .error s.name

end Threshold

/-! ## §3. Records. -/

structure LogRecord where
  level : LogLevel
  fields : List (String × Json)
  message : Option String
  deriving Repr, DecidableEq

namespace LogRecord

/-- Names whose values are never written. -/
def secrets : List String :=
  ["token", "password", "authorization", "auth", "key", "secret", "apiKey"]

/-- What is written in place of a secret. -/
def censored : Json := .text "[REDACTED]"

/-- The value as it is written under this name. -/
def redact (name : String) (value : Json) : Json := if name ∈ secrets then censored else value

/-- A record as an object: the severity, the values, the message. -/
def toJson (r : LogRecord) : Json :=
  Json.ofMembers (
    ("level", .number (.ofNat r.level.severity))
      :: r.fields.map (fun (name, value) => (name, redact name value))
      ++ (r.message.map fun m => ("msg", .text m)).toList)

/-- The records that a logger writes, as objects. -/
def written (t : Threshold) (records : List LogRecord) : List Json :=
  (records.filter fun r => t.allows r.level).map toJson

end LogRecord

/-! ## §4. What the program logs. -/

namespace Skip

def record (s : Skip) : LogRecord where
  level := .warn
  fields :=
    [("err", .object [("type", .text s.error.kind)]), ("pkgId", s.key)]
      ++ (s.target.map fun t => ("target", t)).toList
  message := some "Skipping package that cannot be converted to a component"

end Skip

namespace Assembly

def record (a : Assembly) (r : Report) : LogRecord where
  level := .debug
  fields :=
    (r.artifact.name.map fun n => ("artifact", n)).toList
      ++ [("results", .number (.ofNat r.results.length)),
        ("components", .number (.ofNat (a.graph.graph.children a.graph.root).length))]
  message := some "Built component graph"

def records (a : Assembly) (r : Report) : List LogRecord :=
  a.skipped.map Skip.record ++ [a.record r]

end Assembly

namespace Report

def loadRecord (path : String) (j : Json) : LogRecord where
  level := .debug
  fields := [("path", .text path), ("results", .number (.ofNat (resultCount j)))]
  message := some "Loaded scan report"

end Report

end ComponentGraph
