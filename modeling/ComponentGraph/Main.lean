/-
  ComponentGraph.Main
  ────────────────────────────────
  **THE PROGRAM.**

  Reads the file that the command line names, does the run, and prints what
  it shows.  Everything else is decided by `Command.run`.
-/
import ComponentGraph.Command.Run
import Std.Time.DateTime
import Std.Time.Format

namespace ComponentGraph

/-- What a path leads to.  What is there but cannot be read is taken for a
directory, which cannot be read either. -/
def contentAt (path : String) : IO (Option FileContent) := do
  try
    return some (.file ((← IO.FS.readBinFile path).toList.map UInt8.toNat))
  catch
    | .noFileOrDirectory .. => return none
    | _ => return some .directory

def pathOf (args : List String) : Option String :=
  match Command.parse args with
  | .ok (.build settings) => some settings.report
  | _ => none

/-- The time, in milliseconds and without an offset. -/
def now : IO String := do
  let wall := Std.Time.WallTime.ofTimestamp (← Std.Time.Timestamp.now) .zero
  return (Std.Time.PlainDateTime.ofWallTime wall).format "uuuu-MM-dd'T'HH:mm:ss.SSS'Z'"

def threshold (args : List String) : IO (Except String Threshold) := do
  let option := match Command.parse args with
    | .ok (.build settings) => settings.levels.head?
    | _ => none
  return Threshold.choose ⟨option, ← IO.getEnv "LOG_LEVEL", ← IO.getEnv "NODE_ENV"⟩

def report (t : Threshold) : Except Command.Failure Command.Display → IO Unit
  | .error failure => IO.eprintln failure.notice
  | .ok display => do
    for record in LogRecord.written t display.records do
      IO.eprintln record.compact
    IO.print display.printed
    for notice in display.notices do
      IO.eprintln notice

/-- Do a run and print what it shows. -/
def perform (args : List String) : IO UInt32 := do
  match ← threshold args with
  | .error name =>
    IO.eprintln ("Error: " ++ Threshold.unknownMessage name)
    return 1
  | .ok t =>
    let content ← match pathOf args with
      | some path => contentAt path
      | none => pure none
    let outcome := Command.run ⟨fun _ => content, ← (← IO.getStdout).isTty, ← now⟩ args
    report t outcome
    return (Command.status outcome).toUInt32

end ComponentGraph

def main (args : List String) : IO UInt32 := ComponentGraph.perform args
