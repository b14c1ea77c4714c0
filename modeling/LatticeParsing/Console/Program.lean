/-
The program, apart from reading and writing.

Given its arguments and what it can read, the program comes to an outcome:
an exit code and the texts that it writes. A request is prepared first: the
input is found, the grammars are read in order, and the input becomes a
lattice. The first thing that fails ends the program.
-/
import LatticeParsing.Console.Arguments
import LatticeParsing.Lattice.Text
import LatticeParsing.Report.Text

namespace LatticeParsing

/-- What the program can read. A file or standard input that cannot be read
has the reason instead of its text. -/
structure Environment where
  fileText : String → Except String String
  stdin : Except String String
  terminal : Bool

/-- Why the program fails. -/
inductive Failure where
  | usage (e : UsageError)
  | unreadableGrammar (path reason : String)
  | grammar (path : String) (e : RuleError)
  | lattice (e : LatticeError)
  | chart (e : ChartError)
  deriving DecidableEq, Repr

/-- The exit code of a failure. -/
def Failure.code : Failure → Nat
  | usage _ => 2
  | _ => 1

/-- The wording of a failure. -/
def Failure.message : Failure → String
  | usage e => e.message
  | unreadableGrammar path reason =>
    "error: failed to read grammar '" ++ path ++ "': " ++ reason
  | grammar path e => "error: " ++ path ++ ": " ++ e.message
  | lattice e => "error: " ++ e.message
  | chart e => "error: " ++ e.message

/-- How the program ends. -/
structure Outcome where
  code : Nat
  stdout : String
  stderr : String
  deriving DecidableEq, Repr

/-- The outcome of a failure. -/
def Failure.outcome (f : Failure) : Outcome :=
  ⟨f.code, "", f.message ++ "\n"⟩

-- ================================================================ jobs

/-- A parse that is ready to begin. -/
structure Job where
  input : String
  goal : String
  palette : Palette
  vocabulary : Vocabulary
  goalSymbol : Symbol
  grammars : List GrammarView
  lattice : Lattice

namespace Request

/-- The text to parse: that of the arguments, or else standard input. -/
def findInput (stdin : Except String String) (r : Request) :
    Except Failure String := do
  let input ← match r.input with
    | some s => pure s
    | none => stdin.mapError fun e => .usage (.unreadableInput e)
  if Text.isAllBlank input.toList then throw (.usage .noInput)
  return input

/-- Reads grammars in order. Their numbers follow on `number`. -/
def loadGrammars (fileText : String → Except String String)
    (options : GrammarOptions) (number : Nat) (v : Vocabulary) :
    List String → Except Failure (Vocabulary × List Grammar)
  | [] => .ok (v, [])
  | path :: paths => do
    let text ← (fileText path).mapError fun e => .unreadableGrammar path e
    let (v, g) := Grammar.ofText number options v text
    let g ← g.mapError fun e => .grammar path e
    let (v, gs) ← loadGrammars fileText options (number + 1) v paths
    return (v, g :: gs)

/-- The lattice of an input. -/
def readLattice (latticeInput : Bool) (v : Vocabulary) (input : String) :
    Except Failure (Vocabulary × Lattice) :=
  if latticeInput then
    let (v, l) := Lattice.ofText v (String.ofList (Text.trim input.toList))
    (l.mapError .lattice).map fun l => (v, l)
  else
    let (v, words) := v.internWords (Text.stringWords input)
    .ok (v, .ofSentence words)

/-- Prepares a request. -/
def prepare (env : Environment) (r : Request) : Except Failure Job := do
  let input ← r.findInput env.stdin
  let (v, grammars) ← loadGrammars env.fileText r.options 0 {} r.grammarFiles
  let (v, lattice) ← readLattice r.latticeInput v input
  let (v, goalSymbol) := v.intern r.goal
  return {
    input, lattice, goalSymbol
    goal := r.goal
    palette := ⟨r.color⟩
    vocabulary := v
    grammars := grammars.map (·.view v) }

end Request

/-- The report on a job that has been done. -/
def Job.report (t : Timing) (j : Job) (r : ParseResult) : String :=
  (r.summary j.vocabulary).report j.palette t j.input j.goal

/-- Does a job. -/
def Job.run (j : Job) : Except Failure ParseResult :=
  (j.lattice.parse j.grammars j.goalSymbol).mapError .chart

-- ============================================================= program

/-- The outcome of a command. -/
def Command.run (env : Environment) (t : Timing) : Command →
    Except Failure String
  | help => .ok (helpText ++ "\n")
  | version => .ok (versionText ++ "\n")
  | parse r => do
    let job ← r.prepare env
    return job.report t (← job.run)

/-- The outcome of the program. -/
def outcome (env : Environment) (t : Timing) (args : List String) : Outcome :=
  let text := do
    let command ←
      (Command.ofArguments env.terminal args).mapError Failure.usage
    command.run env t
  match text with
  | .ok stdout => ⟨0, stdout, ""⟩
  | .error f => f.outcome

end LatticeParsing
