/-
Rule texts, line by line.

A line that has the form of a rule is accepted, and which lines have it does
not depend on the vocabulary. A line is refused before any of its symbols is
interned, so reading one comes to looking at its form and interning what it
says (`readLine_eq`). A text is read up to the first line that is refused
(`outcome_ofLines`): the vocabulary afterwards is what the accepted lines
before have made of it. The symbols of the rules that are read have spellings
that tell their kinds from then on (`isGrammarSymbol_ofText`).
-/
import LatticeParsing.Proofs.Symbol.Spellings
import LatticeParsing.Rule.Text

namespace LatticeParsing

/-- The number of the line that is refused. -/
def RuleError.line : RuleError → Nat
  | fieldCount line _ => line
  | lhsNotNonterminal line _ => line
  | emptySource line => line

namespace Rule

open Text

variable {v v' : Vocabulary} {line : List Char} {rs : List Rule}

-- ================================================================ form

/-- What a rule line says. -/
structure Form where
  lhs : List Char
  source : List (List Char)
  target : List (List Char)

/-- What a line says if it has the form of a rule, and else why it is
refused, but for its number. -/
def formOf (line : List Char) : Except (Nat → RuleError) Form :=
  let fields := (splitBars line).map trim
  match fields with
  | lhs :: source :: target :: rest =>
    if 1 < rest.length then .error (.fieldCount · fields.length)
    else if !isLhs lhs then .error (.lhsNotNonterminal · (String.ofList lhs))
    else if (words source).isEmpty then .error .emptySource
    else .ok ⟨lhs, words source, words target⟩
  | _ => .error (.fieldCount · fields.length)

/-- The rule that a form stands for, interned. -/
def Form.intern (v : Vocabulary) (f : Form) : Vocabulary × Rule :=
  let (v, symbols) := v.internAll (f.source.map String.ofList)
  let (v, lhs) := v.intern (String.ofList f.lhs)
  (v, ⟨lhs, symbols, String.intercalate " " (f.target.map String.ofList)⟩)

/-- There are as many symbols as words. -/
theorem isEmpty_internAll (v : Vocabulary) (ws : List String) :
    (v.internAll ws).2.isEmpty = ws.isEmpty := by
  cases ws with
  | nil => rfl
  | cons w ws => rfl

/-- Reading a line comes to looking at its form and interning what it
says. -/
theorem readLine_eq (v : Vocabulary) (line : List Char) (n : Nat) :
    readLine v line n
      = match formOf line with
        | .error e => (v, .error (e n))
        | .ok f => ((f.intern v).1, .ok (f.intern v).2) := by
  unfold readLine formOf
  cases (splitBars line).map trim with
  | nil => rfl
  | cons lhs fields =>
  cases fields with
  | nil => rfl
  | cons source fields =>
  cases fields with
  | nil => rfl
  | cons target rest =>
  simp only [isEmpty_internAll, List.isEmpty_map]
  by_cases hfields : 1 < rest.length
  · simp only [if_pos hfields]
  by_cases hlhs : isLhs lhs = true
  · cases hsource : (words source).isEmpty with
    | true =>
        simp only [if_neg hfields, hlhs, Bool.not_true, Bool.false_eq_true,
          if_false, if_true]
        rw [List.isEmpty_iff.1 hsource]
        rfl
    | false =>
        simp only [if_neg hfields, hlhs, Bool.not_true, Bool.false_eq_true,
          if_false, Form.intern]
  · simp only [if_neg hfields, hlhs, Bool.not_false, if_true]

/-- A line that is read has a form, which is interned. -/
theorem exists_form {n : Nat} {r : Rule}
    (h : readLine v line n = (v', .ok r)) :
    ∃ f, formOf line = .ok f ∧ f.intern v = (v', r) := by
  rw [readLine_eq] at h
  cases hform : formOf line with
  | error e =>
      rw [hform] at h
      injection h with _ h
      cases h
  | ok f =>
      rw [hform] at h
      injection h with hv hr
      injection hr with hr
      exact ⟨f, rfl, Prod.ext hv hr⟩

/-- A refusal names the line. -/
theorem line_of_formOf {e : Nat → RuleError} (h : formOf line = .error e)
    (n : Nat) : (e n).line = n := by
  unfold formOf at h
  simp only at h
  split at h
  case h_2 =>
    injection h with h
    subst h
    rfl
  case h_1 =>
    split at h
    · injection h with h
      subst h
      rfl
    split at h
    · injection h with h
      subst h
      rfl
    split at h
    · injection h with h
      subst h
      rfl
    · cases h

-- ============================================================ one line

/-- Whether a line is accepted: whatever the vocabulary, it gives a rule. -/
def Accepted (line : List Char) : Prop :=
  ∀ v n, ∃ v' r, readLine v line n = (v', .ok r)

/-- Whether a line is refused: whatever the vocabulary, that stays as it is,
and the error names the line. -/
def Refused (line : List Char) : Prop :=
  ∀ v n, ∃ e, readLine v line n = (v, .error e) ∧ e.line = n

theorem accepted_of_formOf {f : Form} (h : formOf line = .ok f) :
    Accepted line := by
  intro v n
  rw [readLine_eq, h]
  exact ⟨_, _, rfl⟩

/-- Every line is accepted or refused. -/
theorem accepted_or_refused (line : List Char) :
    Accepted line ∨ Refused line := by
  cases h : formOf line with
  | ok f => exact Or.inl (accepted_of_formOf h)
  | error e =>
      right
      intro v n
      rw [readLine_eq, h]
      exact ⟨_, rfl, line_of_formOf h n⟩

theorem Refused.not_accepted (h : Refused line) : ¬ Accepted line := by
  intro haccepted
  obtain ⟨_, _, hread⟩ := haccepted {} 0
  obtain ⟨_, hread', -⟩ := h {} 0
  rw [hread] at hread'
  injection hread' with _ hread'
  cases hread'

/-- The number of a line does not matter for what it is read as. -/
theorem readLine_ok_number {n : Nat} {r : Rule}
    (h : readLine v line n = (v', .ok r)) (m : Nat) :
    readLine v line m = (v', .ok r) := by
  obtain ⟨f, hform, hintern⟩ := exists_form h
  rw [readLine_eq, hform]
  simp only [hintern]

-- ========================================================== many lines

/-- Whether lines are read, from first to last and without a refusal, as the
rules `rs`, while the vocabulary `v` becomes `v'`. -/
inductive Reads : Vocabulary → List (List Char) → Vocabulary → List Rule → Prop
  | nil {v : Vocabulary} : Reads v [] v []
  | cons {v u v' : Vocabulary} {line : List Char} {r : Rule}
      {lines : List (List Char)} {rs : List Rule} :
      (∀ n, readLine v line n = (u, .ok r)) → Reads u lines v' rs →
      Reads v (line :: lines) v' (r :: rs)

/-- The lines that hold rules. -/
def content (lines : List (List Char)) : List (List Char) :=
  lines.filter (!isSkipped ·)

theorem Reads.accepted {lines : List (List Char)} (h : Reads v lines v' rs) :
    ∀ line ∈ lines, Accepted line := by
  induction h with
  | nil => simp
  | cons hline _ ih =>
      obtain ⟨f, hform, -⟩ := exists_form (hline 0)
      exact List.forall_mem_cons.2 ⟨accepted_of_formOf hform, ih⟩

/-- What comes of reading lines that are numbered from `k` on: all are
accepted, or one is the first that is refused. -/
inductive Outcome (v : Vocabulary) (lines : List (List Char)) (k : Nat) :
    Vocabulary × Except RuleError (List Rule) → Prop
  | accepted {v' : Vocabulary} {rs : List Rule} :
      Reads v (content lines) v' rs → Outcome v lines k (v', .ok rs)
  | refused {v' : Vocabulary} {rs : List Rule} {line : List Char}
      {e : RuleError} (i : Nat) : lines[i]? = some line →
      isSkipped line = false → Refused line →
      Reads v (content (lines.take i)) v' rs →
      readLine v' line (k + i) = (v', .error e) →
      Outcome v lines k (v', .error e)

theorem numbered_cons (k : Nat) (line : List Char)
    (lines : List (List Char)) :
    numbered k (line :: lines)
      = if isSkipped line then numbered (k + 1) lines
        else (k, line) :: numbered (k + 1) lines := by
  unfold numbered
  rw [List.zipIdx_cons, List.filterMap_cons]
  by_cases h : isSkipped line = true
  · simp only [if_pos h]
  · simp only [if_neg h]

theorem content_skipped (h : isSkipped line = true)
    (lines : List (List Char)) : content (line :: lines) = content lines :=
  List.filter_cons_of_neg (by simp [h])

theorem content_cons (h : isSkipped line = false)
    (lines : List (List Char)) :
    content (line :: lines) = line :: content lines :=
  List.filter_cons_of_pos (by simp [h])

section Step

variable {lines : List (List Char)} {k : Nat}
  {result : Vocabulary × Except RuleError (List Rule)}

/-- A line that holds no rule only counts. -/
theorem Outcome.skip (h : Outcome v lines (k + 1) result)
    (hskipped : isSkipped line = true) :
    Outcome v (line :: lines) k result := by
  cases h with
  | accepted hreads =>
      rw [← content_skipped hskipped] at hreads
      exact .accepted hreads
  | refused i hget hcontent hrefused hreads hline =>
      rw [← content_skipped hskipped, ← List.take_succ_cons] at hreads
      rw [Nat.add_right_comm] at hline
      exact .refused (i + 1) hget hcontent hrefused hreads hline

/-- A line that is accepted puts its rule in front. -/
theorem Outcome.cons {u : Vocabulary} {r : Rule}
    (h : Outcome u lines (k + 1) result)
    (hcontent : isSkipped line = false)
    (hline : readLine v line k = (u, .ok r)) :
    Outcome v (line :: lines) k (result.1, result.2.map (r :: ·)) := by
  have hhead := fun n => readLine_ok_number hline n
  cases h with
  | accepted hreads =>
      apply Outcome.accepted
      rw [content_cons hcontent]
      exact .cons hhead hreads
  | refused i hget hcontent' hrefused hreads hline' =>
      have hreads := Reads.cons hhead hreads
      rw [← content_cons hcontent, ← List.take_succ_cons] at hreads
      rw [Nat.add_right_comm] at hline'
      exact .refused (i + 1) hget hcontent' hrefused hreads hline'

end Step

/-- Lines are read up to the first that is refused. -/
theorem outcome_ofLines (v : Vocabulary) (lines : List (List Char))
    (k : Nat) : Outcome v lines k (ofLines v (numbered k lines)) := by
  -- each line changes the number of the next, and a line that is accepted
  -- changes the vocabulary that the rest is read into
  induction lines generalizing v k with
  | nil => exact .accepted .nil
  | cons line lines ih =>
      rw [numbered_cons]
      cases hcontent : isSkipped line with
      | true => exact (ih v (k + 1)).skip hcontent
      | false =>
          rw [if_neg Bool.false_ne_true]
          unfold ofLines
          rcases accepted_or_refused line with hline | hline
          · obtain ⟨u, r, hread⟩ := hline v k
            rw [hread]
            exact (ih u (k + 1)).cons hcontent hread
          · obtain ⟨e, hread, -⟩ := hline v k
            rw [hread]
            exact .refused 0 rfl hcontent hline .nil hread

theorem outcome_ofText (v : Vocabulary) (text : String) :
    Outcome v (lines text.toList) 1 (ofText v text) :=
  outcome_ofLines v (lines text.toList) 1

/-- The lines of a text that is accepted are read one after the other. -/
theorem reads_of_ofText {text : String} (h : ofText v text = (v', .ok rs)) :
    Reads v (content (lines text.toList)) v' rs := by
  have houtcome := outcome_ofText v text
  rw [h] at houtcome
  cases houtcome with
  | accepted hreads => exact hreads

/-- A text that is refused is read up to the first line that is. -/
theorem refused_of_ofText {text : String} {e : RuleError}
    (h : ofText v text = (v', .error e)) :
    ∃ i line rs, (lines text.toList)[i]? = some line
      ∧ isSkipped line = false ∧ Refused line
      ∧ Reads v (content ((lines text.toList).take i)) v' rs
      ∧ readLine v' line (i + 1) = (v', .error e) ∧ e.line = i + 1 := by
  have houtcome := outcome_ofText v text
  rw [h] at houtcome
  cases houtcome with
  | refused i hget hcontent hrefused hreads hline =>
      rw [Nat.add_comm] at hline
      obtain ⟨e', hline', he⟩ := hrefused v' (i + 1)
      rw [hline] at hline'
      injection hline' with _ heq
      injection heq with heq
      subst heq
      exact ⟨i, _, _, hget, hcontent, hrefused, hreads, hline, he⟩

/-- A text is accepted just if all of its lines that hold rules are. -/
theorem isOk_ofText (v : Vocabulary) (text : String) :
    (ofText v text).2.isOk = true
      ↔ ∀ line ∈ lines text.toList, isSkipped line = false →
          Accepted line := by
  rcases h : ofText v text with ⟨v', e | rs⟩
  · obtain ⟨i, line, rs, hget, hcontent, hrefused, -⟩ := refused_of_ofText h
    refine iff_of_false Bool.false_ne_true fun haccepted => ?_
    apply hrefused.not_accepted
    exact haccepted line (List.mem_of_getElem? hget) hcontent
  · have haccepted := (reads_of_ofText h).accepted
    refine iff_of_true rfl fun line hline hcontent => ?_
    apply haccepted
    rw [content, List.mem_filter, hcontent]
    exact ⟨hline, rfl⟩

/-- What lines are read as is fixed. -/
theorem Reads.unique {lines : List (List Char)} {u : Vocabulary}
    {rs' : List Rule} (h : Reads v lines v' rs) (h' : Reads v lines u rs') :
    u = v' ∧ rs' = rs := by
  induction h generalizing u rs' with
  | nil =>
      cases h'
      exact ⟨rfl, rfl⟩
  | cons hline _ ih =>
      cases h' with
      | cons hline' hrest =>
          have heq := (hline 0).symm.trans (hline' 0)
          injection heq with hv hr
          injection hr with hr
          subst hv hr
          obtain ⟨hv, hrs⟩ := ih hrest
          exact ⟨hv, congrArg _ hrs⟩

/-- A text whose lines are read one after the other is accepted. -/
theorem ofText_of_reads {text : String}
    (h : Reads v (content (lines text.toList)) v' rs) :
    ofText v text = (v', .ok rs) := by
  have hok : (ofText v text).2.isOk = true := by
    rw [isOk_ofText]
    intro line hline hcontent
    apply h.accepted
    rw [content, List.mem_filter, hcontent]
    exact ⟨hline, rfl⟩
  rcases hread : ofText v text with ⟨u, e | rs'⟩
  · rw [hread] at hok
    cases hok
  · obtain ⟨rfl, rfl⟩ := h.unique (reads_of_ofText hread)
    rfl

-- =========================================================== interning

/-- What a line says is interned. -/
theorem Form.grows_intern (v : Vocabulary) (f : Form) :
    v.Grows (f.intern v).1
      ∧ ∀ s ∈ (f.intern v).2.lhs :: (f.intern v).2.source,
          (f.intern v).1.IsGrammarSymbol s := by
  have hsource := v.grows_internAll (f.source.map String.ofList)
  have hlhs := Vocabulary.Grows.refl.intern
    (v := (v.internAll (f.source.map String.ofList)).1) (String.ofList f.lhs)
  refine ⟨hsource.trans hlhs, List.forall_mem_cons.2 ⟨?_, ?_⟩⟩
  · exact Vocabulary.isGrammarSymbol_intern _ _
  · intro s hs
    exact hlhs.isGrammarSymbol (v.isGrammarSymbol_internAll _ s hs)

/-- A line that is read is interned. -/
theorem grows_readLine {n : Nat} {r : Rule}
    (h : readLine v line n = (v', .ok r)) :
    v.Grows v' ∧ ∀ s ∈ r.lhs :: r.source, v'.IsGrammarSymbol s := by
  obtain ⟨f, -, hintern⟩ := exists_form h
  have hgrows := f.grows_intern v
  rwa [hintern] at hgrows

/-- Lines that are read are interned. -/
theorem Reads.grows {lines : List (List Char)} (h : Reads v lines v' rs) :
    v.Grows v' ∧ ∀ r ∈ rs, ∀ s ∈ r.lhs :: r.source, v'.IsGrammarSymbol s := by
  induction h with
  | nil => exact ⟨.refl, fun _ hr => by cases hr⟩
  | cons hline _ ih =>
      obtain ⟨hgrows, hsymbols⟩ := grows_readLine (hline 0)
      obtain ⟨hgrows', hsymbols'⟩ := ih
      refine ⟨hgrows.trans hgrows', List.forall_mem_cons.2
        ⟨fun s hs => hgrows'.isGrammarSymbol (hsymbols s hs), hsymbols'⟩⟩

theorem grows_ofText {text : String} (h : ofText v text = (v', .ok rs)) :
    v.Grows v' :=
  (reads_of_ofText h).grows.1

/-- The rules of a text are made of grammar symbols once it is read. -/
theorem isGrammarSymbol_ofText {text : String} {r : Rule} {s : Symbol}
    (h : ofText v text = (v', .ok rs)) (hr : r ∈ rs)
    (hs : s ∈ r.lhs :: r.source) : v'.IsGrammarSymbol s :=
  (reads_of_ofText h).grows.2 r hr s hs

end Rule

end LatticeParsing
