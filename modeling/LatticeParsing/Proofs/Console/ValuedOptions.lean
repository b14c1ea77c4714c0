/-
Options with a value, in one argument or in two.

An option takes its value from the next argument, or from behind an equals sign
in its own. Reading goes through arguments from left to right and carries
nothing along but the request, so what follows some options is read in the same
way whatever they are (`Options.ofArguments_congr`), and the two spellings of
an option mean the same if they do in front of the rest.

They do unless the value starts with the mark of the option itself, its name
and an equals sign: behind an equals sign further marks are taken off, in an
argument of its own they are not (`repeated_mark_is_dropped`).
-/
import LatticeParsing.Console.Program
import Mathlib.Data.List.Basic

namespace LatticeParsing

namespace Request

variable {mark cs : List Char} {fuel more : Nat} {r : Request} {arg : String}
  {rest : List String}

-- ================================================================ marks

/-- Enough fuel takes all marks off. -/
theorem dropMarks_of_length_le (hmark : mark ≠ []) (h : cs.length ≤ fuel)
    (hmore : cs.length ≤ more) :
    dropMarks mark fuel cs = dropMarks mark more cs := by
  have hpos := List.length_pos_iff.2 hmark
  induction fuel generalizing cs more with
  | zero =>
      obtain rfl := List.length_eq_zero_iff.1 (Nat.le_zero.1 h)
      cases more with
      | zero => rfl
      | succ more =>
          unfold dropMarks
          rw [if_neg (by simpa using hmark)]
  | succ fuel ih =>
      cases more with
      | zero =>
          obtain rfl := List.length_eq_zero_iff.1 (Nat.le_zero.1 hmore)
          unfold dropMarks
          rw [if_neg (by simpa using hmark)]
      | succ more =>
          unfold dropMarks
          split
          case isFalse => rfl
          case isTrue =>
            refine ih ?_ ?_ <;> rw [List.length_drop] <;> omega

/-- A text that does not start with the mark is kept. -/
theorem dropMarks_of_unmarked (h : ¬ mark <+: cs) :
    dropMarks mark fuel cs = cs := by
  cases fuel with
  | zero => rfl
  | succ fuel =>
      unfold dropMarks
      rw [if_neg (by simpa using h)]

-- ============================================================= arguments

/-- An argument with an equals sign in it is no option without a value, nor
the name of one with a value. -/
theorem ofArguments_of_equals (h : '=' ∈ arg.toList) :
    ofArguments r (arg :: rest)
      = match argument arg with
        | .grammar file => ofArguments (r.addGrammar file) rest
        | .goal symbol => ofArguments { r with goal := symbol } rest
        | .limit value => do ofArguments (← r.withLimit value) rest
        | .unknown => .error (.unknownOption arg)
        | .word => .ok (.parse (r.withInput (arg :: rest))) := by
  have hne : ∀ s : String, '=' ∉ s.toList → arg = s → False := by
    rintro s hs rfl
    exact hs h
  rewrite [ofArguments]
  -- all but one of the goals are that no earlier pattern is the argument
  any_goals
    intros
    refine hne _ ?_ (by assumption)
    decide
  rfl

end Request

-- ============================================================== options

/-- An option that has a value. -/
inductive ValuedOption where
  | grammar
  | goal
  | limit
  deriving DecidableEq, Repr

namespace ValuedOption

open Request

variable {o : ValuedOption} {r : Request} {value : String}
  {rest : List String}

/-- How the option is spelled. -/
def name : ValuedOption → String
  | grammar => "--grammar"
  | goal => "--goal"
  | limit => "--span-limit"

/-- What stands before the value in an argument of both. -/
def mark (o : ValuedOption) : String := o.name ++ "="

/-- The request with a value for the option. -/
def set (r : Request) (value : String) :
    ValuedOption → Except UsageError Request
  | grammar => .ok (r.addGrammar value)
  | goal => .ok { r with goal := value }
  | limit => r.withLimit value

/-- What is taken for the value where it stands behind the mark. -/
def valueBehind (o : ValuedOption) (value : String) : String :=
  String.ofList (dropMarks o.mark.toList value.length value.toList)

theorem valueBehind_of_unmarked (h : ¬ o.mark.toList <+: value.toList) :
    o.valueBehind value = value := by
  unfold valueBehind
  rw [dropMarks_of_unmarked h, String.ofList_toList]

theorem valueAfter?_mark (o : ValuedOption) (value : String) :
    valueAfter? o.mark (o.mark ++ value) = some (o.valueBehind value) := by
  have hmark : o.mark.toList ≠ [] := by cases o <;> decide
  have hpos := List.length_pos_iff.2 hmark
  have hfuel : (o.mark ++ value).length
      = (o.mark.toList.length - 1 + value.toList.length) + 1 := by
    rw [← String.length_toList, String.toList_append, List.length_append]
    omega
  unfold valueAfter? valueBehind
  rw [String.toList_append, if_pos (by simp), hfuel, dropMarks,
    if_pos (by simp), List.drop_left,
    dropMarks_of_length_le hmark (Nat.le_add_left ..)
      (Nat.le_of_eq String.length_toList)]

/-- No mark starts like another. -/
theorem valueAfter?_other {o' : ValuedOption} (h : o ≠ o') (value : String) :
    valueAfter? o.mark (o'.mark ++ value) = none := by
  unfold valueAfter?
  rw [String.toList_append]
  cases o <;> cases o' <;> simp at h <;> rfl

/-- An option is read with the value in the next argument. -/
theorem ofArguments_name (o : ValuedOption) :
    ofArguments r (o.name :: value :: rest)
      = (o.set r value).bind fun r => ofArguments r rest := by
  cases o <;> exact ofArguments.eq_def ..

/-- An option is read with the value in its own argument. -/
theorem ofArguments_mark (o : ValuedOption) :
    ofArguments r ((o.mark ++ value) :: rest)
      = (o.set r (o.valueBehind value)).bind fun r => ofArguments r rest := by
  have hequals : '=' ∈ (o.mark ++ value).toList := by
    cases o <;> simp [mark, name]
  have hself := o.valueAfter?_mark value
  rw [ofArguments_of_equals hequals]
  unfold argument
  cases o with
  | grammar =>
      rw [show "--grammar=" = mark grammar from rfl, hself]
      rfl
  | goal =>
      rw [show "--grammar=" = mark grammar from rfl,
        show "--goal=" = mark goal from rfl, hself,
        valueAfter?_other (by decide)]
      rfl
  | limit =>
      rw [show "--grammar=" = mark grammar from rfl,
        show "--goal=" = mark goal from rfl,
        show "--span-limit=" = mark limit from rfl, hself,
        valueAfter?_other (by decide), valueAfter?_other (by decide)]
      rfl

end ValuedOption

/-- Arguments that are read as options, and as nothing else, from the first to
the last. -/
inductive Options : List String → Prop
  | nil : Options []
  | flag {arg : String} {rest : List String} :
      arg ∈ ["-h", "--help", "-V", "--version", "--color", "--no-color",
        "--plf", "--regex"] →
      Options rest → Options (arg :: rest)
  | apart {arg : String} {rest : List String} (value : String) :
      arg ∈ ["--grammar", "-g", "--goal", "--span-limit"] →
      Options rest → Options (arg :: value :: rest)
  | joined {rest : List String} (o : ValuedOption) (value : String) :
      Options rest → Options ((o.mark ++ value) :: rest)

open Request

/-- What follows options is all that the options let matter of it. -/
theorem Options.ofArguments_congr {before after after' : List String}
    (h : Options before)
    (hafter : ∀ r, ofArguments r after = ofArguments r after') (r : Request) :
    ofArguments r (before ++ after) = ofArguments r (before ++ after') := by
  induction h generalizing r with
  | nil => exact hafter r
  | flag harg _ ih =>
      simp only [List.mem_cons, List.not_mem_nil, or_false] at harg
      rcases harg with rfl | rfl | rfl | rfl | rfl | rfl | rfl | rfl
      · rfl
      · rfl
      · rfl
      · rfl
      · exact ih { r with color := true }
      · exact ih { r with color := false }
      · exact ih { r with latticeInput := true }
      · exact ih { r with options := { r.options with labelPatterns := true } }
  | apart value harg _ ih =>
      simp only [List.mem_cons, List.not_mem_nil, or_false] at harg
      rcases harg with rfl | rfl | rfl | rfl
      · exact ih (r.addGrammar value)
      · exact ih (r.addGrammar value)
      · exact ih { r with goal := value }
      · exact congrArg (r.withLimit value).bind (funext ih)
  | joined o value _ ih =>
      rw [List.cons_append, List.cons_append, o.ofArguments_mark,
        o.ofArguments_mark]
      exact congrArg (o.set r _).bind (funext ih)

/-- The two spellings of an option with a value mean the same. The value may
stand behind an equals sign in the argument of the option, or in an argument of
its own: whatever the value is, as long as it does not start with the mark of
the option itself, whatever options stand before it and whatever arguments
behind it, and whatever can be read, the program ends in the same way, with the
same exit code and the same texts. -/
theorem both_spellings_mean_the_same (env : Environment) (t : Timing)
    (o : ValuedOption) {value : String}
    (hvalue : ¬ o.mark.toList <+: value.toList) {before : List String}
    (hbefore : Options before) (after : List String) :
    outcome env t (before ++ (o.mark ++ value) :: after)
      = outcome env t (before ++ o.name :: value :: after) := by
  have hread : ∀ r, ofArguments r ((o.mark ++ value) :: after)
      = ofArguments r (o.name :: value :: after) := by
    intro r
    rw [o.ofArguments_mark, o.ofArguments_name,
      ValuedOption.valueBehind_of_unmarked hvalue]
  unfold outcome Command.ofArguments
  rw [hbefore.ofArguments_congr hread]

/-- A goal that starts like another option, among options and words. -/
theorem both_spellings_of_a_goal_mean_the_same :
    ¬ (ValuedOption.mark .goal).toList <+: "--grammar=[S]".toList
      ∧ Options ["--color", "-g", "--", "--span-limit=none"]
      ∧ outcome ⟨fun _ => .ok "[S] ||| a ||| b", .ok "", false⟩
          ⟨fun _ => "", ""⟩ ["--color", "-g", "--", "--span-limit=none",
            "--goal=--grammar=[S]", "--goal", "[S]", "a"]
        = outcome ⟨fun _ => .ok "[S] ||| a ||| b", .ok "", false⟩
          ⟨fun _ => "", ""⟩ ["--color", "-g", "--", "--span-limit=none",
            "--goal", "--grammar=[S]", "--goal", "[S]", "a"] := by
  have hvalue : ¬ (ValuedOption.mark .goal).toList
      <+: "--grammar=[S]".toList := by decide
  have hbefore : Options ["--color", "-g", "--", "--span-limit=none"] :=
    .flag (by decide) (.apart "--" (by decide) (.joined .limit "none" .nil))
  exact ⟨hvalue, hbefore, both_spellings_mean_the_same _ _ .goal hvalue hbefore
    ["--goal", "[S]", "a"]⟩

/-- Behind the equals sign the goal loses its own mark and is a nonterminal, so
reading goes on to the grammars; in an argument of its own it is refused. -/
theorem repeated_mark_is_dropped :
    (outcome ⟨fun _ => .error "no such file", .ok "", false⟩
        ⟨fun _ => "", ""⟩ ["-g", "rules", "--goal=--goal=[S]", "a"]).code = 1
      ∧ (outcome ⟨fun _ => .error "no such file", .ok "", false⟩
        ⟨fun _ => "", ""⟩ ["-g", "rules", "--goal", "--goal=[S]", "a"]).code
          = 2 := by
  decide +kernel

end LatticeParsing
