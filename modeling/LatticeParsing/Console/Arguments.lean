/-
The arguments of the program.

Options come first and the words of the input after them. An option with a
value takes it from the next argument, or from its own after an equals
sign. The first argument that is no option, or a lone pair of hyphens, ends
the options.
-/
import LatticeParsing.Grammar.Basic

namespace LatticeParsing

-- ============================================================= request

/-- What the arguments ask to parse. -/
structure Request where
  /-- The input, unless it is to be read from standard input. -/
  input : Option String := none
  grammarFiles : List String := []
  goal : String := "[S]"
  /-- Whether the input is the text of a lattice. -/
  latticeInput : Bool := false
  options : GrammarOptions := {}
  color : Bool
  deriving DecidableEq, Repr

/-- What the arguments ask for. -/
inductive Command where
  | help
  | version
  | parse (r : Request)
  deriving DecidableEq, Repr

/-- Why arguments are refused. -/
inductive UsageError where
  | missingFile
  | missingGoal
  | missingLimit
  | unknownOption (arg : String)
  | invalidLimit (value : String)
  | noGrammar
  | invalidGoal (goal : String)
  | unreadableInput (reason : String)
  | noInput
  deriving DecidableEq, Repr

-- =============================================================== texts

/-- The version of the program. -/
def programVersion : String := "0.1.0"

/-- The line that tells the version. -/
def versionText : String := "dotchart " ++ programVersion

/-- The help text. -/
def helpText : String :=
  String.join ([
    versionText,
    "",
    "Chart parser with on-the-fly rule binarization.",
    "",
    "Usage:",
    "  dotchart --grammar <file> [OPTIONS] [--] <sentence...>",
    "  echo '<plf>' | dotchart --grammar <file> --plf",
    "",
    "Options:",
    "  -g, --grammar <file>       Rule file (`[LHS] ||| source ||| target` per "
      ++ "line).",
    "                             Repeat to parse with several grammars.",
    "  --goal <symbol>            Symbol that must cover the input. Default: "
      ++ "[S]",
    "  --plf                      Read the input as a lattice in PLF.",
    "  --span-limit <n|none>      Longest path a rule may cover. Default: "
      ++ toString defaultSpanLimit,
    "  --regex                    Match terminal rule labels as regular "
      ++ "expressions.",
    "  --color                    Force ANSI color output.",
    "  --no-color                 Disable ANSI color output.",
    "  -h, --help                 Show this help message.",
    "  -V, --version              Print version information.",
    "",
    "Input is taken from the remaining args, or stdin when none are given.",
    "Set RUST_LOG=dotchart=debug to trace chart expansion.",
    "",
    "Exit codes:",
    "  0  Success.",
    "  1  Grammar, lattice or parse error.",
    "  2  Invalid arguments or missing input."].map fun line => line ++ "\n")

/-- The wording of a refusal. -/
def UsageError.message : UsageError → String
  | missingFile => "error: --grammar expects a file"
  | missingGoal => "error: --goal expects a symbol"
  | missingLimit => "error: --span-limit expects a value"
  | unknownOption arg => "error: unknown option '" ++ arg ++ "'"
  | invalidLimit value =>
    "error: invalid --span-limit '" ++ value
      ++ "' (expected a number or 'none')"
  | noGrammar => "error: at least one --grammar is required\n\n" ++ helpText
  | invalidGoal goal =>
    "error: invalid --goal '" ++ goal
      ++ "' (expected a bracketed nonterminal like [S])"
  | unreadableInput reason => "error: failed to read stdin: " ++ reason
  | noInput => "error: no input provided\n\n" ++ helpText

-- ============================================================= reading

namespace Request

/-- Reads a span limit. -/
def spanLimit (value : String) : Except UsageError (Option Nat) :=
  if value == "none" then .ok none
  else match Text.signedCount? value.toList with
    | some n => .ok (some n)
    | none => .error (.invalidLimit value)

/-- Takes a mark off the start of a text, as often as it stands there;
`fuel` bounds how often. -/
def dropMarks (mark : List Char) : Nat → List Char → List Char
  | 0, cs => cs
  | fuel + 1, cs =>
    if mark.isPrefixOf cs then dropMarks mark fuel (cs.drop mark.length)
    else cs

/-- The value that an argument carries after a mark. The mark is taken off
as often as it stands there. -/
def valueAfter? (mark arg : String) : Option String :=
  if mark.toList.isPrefixOf arg.toList then
    some (String.ofList (dropMarks mark.toList arg.length arg.toList))
  else none

/-- The request with one more grammar. -/
def addGrammar (r : Request) (file : String) : Request :=
  { r with grammarFiles := r.grammarFiles ++ [file] }

/-- The request with a span limit. -/
def withLimit (r : Request) (value : String) : Except UsageError Request :=
  (spanLimit value).map fun limit =>
    { r with options := { r.options with spanLimit := limit } }

/-- The request with an input, words being set off by spaces. -/
def withInput (r : Request) (words : List String) : Request :=
  { r with input := some (String.intercalate " " words) }

/-- What an argument is that is no option without a value. -/
inductive Argument where
  | grammar (file : String)
  | goal (symbol : String)
  | limit (value : String)
  | unknown
  | word
  deriving DecidableEq, Repr

/-- Tells options with a value from other options and from words. -/
def argument (arg : String) : Argument :=
  match valueAfter? "--grammar=" arg, valueAfter? "--goal=" arg,
      valueAfter? "--span-limit=" arg with
  | some file, _, _ => .grammar file
  | none, some symbol, _ => .goal symbol
  | none, none, some value => .limit value
  | none, none, none =>
    if arg.toList.head? == some '-' then .unknown else .word

/-- Reads arguments from left to right. -/
def ofArguments (r : Request) : List String → Except UsageError Command
  | [] => .ok (.parse r)
  | "-h" :: _ => .ok .help
  | "--help" :: _ => .ok .help
  | "-V" :: _ => .ok .version
  | "--version" :: _ => .ok .version
  | "--color" :: rest => ofArguments { r with color := true } rest
  | "--no-color" :: rest => ofArguments { r with color := false } rest
  | "--plf" :: rest => ofArguments { r with latticeInput := true } rest
  | "--regex" :: rest =>
    ofArguments { r with options := { r.options with labelPatterns := true } }
      rest
  | ["--grammar"] => .error .missingFile
  | "--grammar" :: file :: rest => ofArguments (r.addGrammar file) rest
  | ["-g"] => .error .missingFile
  | "-g" :: file :: rest => ofArguments (r.addGrammar file) rest
  | ["--goal"] => .error .missingGoal
  | "--goal" :: symbol :: rest => ofArguments { r with goal := symbol } rest
  | ["--span-limit"] => .error .missingLimit
  | "--span-limit" :: value :: rest => do
    ofArguments (← r.withLimit value) rest
  | "--" :: rest =>
    let words := r.withInput rest
    .ok (.parse (if Text.isAllBlank (words.input.getD "").toList then r
      else words))
  | arg :: rest =>
    match argument arg with
    | .grammar file => ofArguments (r.addGrammar file) rest
    | .goal symbol => ofArguments { r with goal := symbol } rest
    | .limit value => do ofArguments (← r.withLimit value) rest
    | .unknown => .error (.unknownOption arg)
    | .word => .ok (.parse (r.withInput (arg :: rest)))

/-- What is wrong with a request whatever the input. -/
def error? (r : Request) : Option UsageError :=
  if r.grammarFiles.isEmpty then some .noGrammar
  else if !Label.isNonterminal r.goal then some (.invalidGoal r.goal)
  else none

end Request

/-- Reads the arguments of the program; `terminal` tells whether the output
goes to a terminal. -/
def Command.ofArguments (terminal : Bool) (args : List String) :
    Except UsageError Command := do
  let command ← Request.ofArguments { color := terminal } args
  match command with
  | .parse r =>
    match r.error? with
    | some e => throw e
    | none => return .parse r
  | other => return other

end LatticeParsing
