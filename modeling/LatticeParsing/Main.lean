/-
The program: reading, timing and writing around `outcome`.

Files and standard input are read only when the arguments call for them. The
passes are run one by one, so that each can be timed.
-/
import LatticeParsing.Console.Program
import LatticeParsing.Console.Duration

namespace LatticeParsing

/-- The text of bytes that should be UTF-8. -/
def decodeText (bytes : ByteArray) : Except String String :=
  match String.fromUTF8? bytes with
  | some s => .ok s
  | none => .error "stream did not contain valid UTF-8"

/-- The reason for which a file cannot be read. -/
def readFailure : IO.Error → String
  | .noFileOrDirectory .. => "No such file or directory (os error 2)"
  | .permissionDenied .. => "Permission denied (os error 13)"
  | e => toString e

/-- Reads a file. -/
def readText (path : String) : IO (Except String String) := do
  try
    return decodeText (← IO.FS.readBinFile path)
  catch e => return .error (readFailure e)

/-- Reads standard input to its end. -/
def readInput : IO (Except String String) := do
  try
    return decodeText (← (← IO.getStdin).readBinToEnd)
  catch e => return .error (readFailure e)

/-- What a command reads: the files of its grammars, and standard input if
it has no input. -/
def readEnvironment (terminal : Bool) : Command → IO Environment
  | .parse r => do
    let files ← r.grammarFiles.mapM fun path => return (path, ← readText path)
    let stdin ← if r.input.isNone then readInput else pure (.ok "")
    return {
      fileText := fun path => (files.lookup path).getD (.error "unread file")
      stdin, terminal }
  | _ => return ⟨fun _ => .error "unread file", .ok "", terminal⟩

/-- Does something and measures how long it takes. -/
def timed {α : Type} (act : IO α) : IO (α × Nat) := do
  let before ← IO.monoNanosNow
  let result ← act
  return (result, (← IO.monoNanosNow) - before)

/-- Takes the spans of each width in turn and measures each pass. -/
def runPasses (l : Lattice) : List Nat → Parse →
    IO (Parse × List (PassCounts × Nat))
  | [], p => return (p, [])
  | width :: rest, p => do
    let ((p, counts), nanos) ← timed (return Parse.takeWidth l width p)
    let (p, more) ← runPasses l rest p
    return (p, (counts, nanos) :: more)

/-- Does a job and writes the report on it. -/
def runJob (j : Job) : IO (Except Failure String) := do
  match Parse.begin j.lattice j.grammars with
  | .error e => return .error (.chart e)
  | .ok start =>
    let ((final, passes), nanos) ←
      timed (runPasses j.lattice (Parse.widths j.lattice) start)
    let result := Parse.result j.lattice j.goalSymbol start final
      (passes.map (·.1))
    let times := passes.map fun (counts, nanos) => (counts.width, nanos)
    let timing : Timing := {
      pass := fun width => durationText ((times.lookup width).getD 0)
      total := durationText nanos }
    return .ok (j.report timing result)

/-- Runs a command. -/
def runCommand (terminal : Bool) (command : Command) :
    IO (Except Failure String) := do
  let env ← readEnvironment terminal command
  match command with
  | .parse r =>
    match r.prepare env with
    | .error e => return .error e
    | .ok job => runJob job
  | other => return other.run env ⟨fun _ => "", ""⟩

end LatticeParsing

open LatticeParsing in
/-- Runs the program on its arguments. -/
def main (args : List String) : IO UInt32 := do
  let terminal ← (← IO.getStdout).isTty
  let result ← match Command.ofArguments terminal args with
    | .error e => pure (.error (.usage e))
    | .ok command => runCommand terminal command
  match result with
  | .ok text =>
    IO.print text
    return 0
  | .error f =>
    IO.eprint f.outcome.stderr
    return UInt32.ofNat f.code
