/-
Rules that are printed and read again.

A rule is printed on a line of its own: its left-hand side, its source side
and its target side, as the vocabulary spells them, set off by three bars.
What a line says is made of words that hold neither a blank nor three bars
(`Form.proper_of_formOf`), and a form of such words is found again in its
text (`Form.formOf_text`). The spelling of a symbol is a word of the line
that it was read from, but for an index, which is no part of it
(`Form.Names.base`). So the printed rules are read as they are, and nothing
is interned, since all their symbols have been (`reads_printed`).
-/
import LatticeParsing.Proofs.Rule.Lines
import LatticeParsing.Proofs.Symbol.Calls
import LatticeParsing.Proofs.Text.Cutting

namespace LatticeParsing

open Text

variable {v v' u : Vocabulary} {r : Rule} {rs : List Rule} {w : List Char}
  {s : Symbol}

-- ============================================================ printing

/-- A rule, printed on a line of its own. -/
def Rule.line (v : Vocabulary) (r : Rule) : String :=
  v.display r.lhs ++ " ||| " ++ r.display v

/-- Rules, printed line by line. -/
def Rule.print (v : Vocabulary) (rs : List Rule) : String :=
  String.intercalate "\n" (rs.map (Rule.line v))

-- =============================================================== words

/-- A word of a rule line. -/
structure IsWord (w : List Char) : Prop where
  ne_nil : w ≠ []
  blankFree : BlankFree w
  barFree : BarFree w

/-- A word without its index is a word. -/
theorem IsWord.base (h : IsWord w) :
    IsWord (Label.base (String.ofList w)).toList := by
  rcases Label.base_cases (String.ofList w) with hbase | hbase
  · rwa [hbase, String.toList_ofList]
  obtain ⟨body, stem, hbody, hstem, hbase⟩ := hbase
  rw [String.toList_ofList] at hbody
  obtain ⟨-, rfl⟩ := Label.inside?_eq_some.1 hbody
  obtain ⟨rest, rfl⟩ := Label.prefix_of_stem?_eq_some hstem
  rw [hbase, String.toList_ofList]
  refine ⟨List.cons_ne_nil _ _, fun c hc => h.blankFree c ?_, ?_⟩
  · simp only [List.mem_cons, List.mem_append, List.not_mem_nil] at hc ⊢
    tauto
  · have hfree : BarFree stem := h.barFree.within
      ⟨['['], rest ++ [']'], by simp⟩
    exact barFree_nil.append_cons (by decide)
      (hfree.append_cons (by decide) barFree_nil)

-- =============================================================== forms

namespace Rule.Form

variable {f : Form} {line : List Char}

/-- Whether a form is made of words, with a nonterminal on its left-hand side
and some word on its source side. -/
structure Proper (f : Form) : Prop where
  lhs : IsWord f.lhs
  isNonterminal : Label.isNonterminal (String.ofList f.lhs) = true
  source_ne_nil : f.source ≠ []
  source : ∀ w ∈ f.source, IsWord w
  target : ∀ w ∈ f.target, IsWord w

/-- The text of a form. -/
def text (f : Form) : List Char :=
  f.lhs ++ " ||| ".toList ++ [' '].intercalate f.source ++ " ||| ".toList
    ++ [' '].intercalate f.target

/-- A form without indices on its labels. -/
def base (f : Form) : Form :=
  ⟨(Label.base (String.ofList f.lhs)).toList,
    f.source.map fun w => (Label.base (String.ofList w)).toList, f.target⟩

theorem Proper.base (h : f.Proper) : f.base.Proper where
  lhs := h.lhs.base
  isNonterminal := by
    show Label.isNonterminal (String.ofList (Label.base _).toList) = true
    rw [String.ofList_toList, Label.isNonterminal_base]
    exact h.isNonterminal
  source_ne_nil := by simpa [Form.base] using h.source_ne_nil
  source := List.forall_mem_map.2 fun w hw => (h.source w hw).base
  target := h.target

/-- What a line says is a proper form. -/
theorem proper_of_formOf (h : formOf line = .ok f) : f.Proper := by
  have hfields : ∀ field ∈ (splitBars line).map trim, BarFree field :=
    List.forall_mem_map.2 fun part hpart =>
      (barFree_of_mem_splitBars hpart).within (trim_within part)
  have hwords : ∀ {field : List Char}, BarFree field →
      ∀ w ∈ words field, IsWord w := fun hfield w hw =>
    have hword := mem_words hw
    ⟨hword.1, hword.2.1, hfield.within hword.2.2⟩
  unfold formOf at h
  simp only at h
  split at h
  case h_2 => cases h
  case h_1 lhs source target rest heq =>
    rw [heq] at hfields
    split at h
    · cases h
    split at h
    · cases h
    rename_i hlhs
    split at h
    · cases h
    rename_i hsource
    injection h with h
    subst h
    unfold isLhs at hlhs
    simp only [Bool.not_eq_true', Bool.not_eq_false, Bool.and_eq_true,
      List.any_eq_false, Bool.not_eq_true] at hlhs
    obtain ⟨hlabel, hblank⟩ := hlhs
    refine ⟨⟨?_, hblank, hfields lhs (by simp)⟩, hlabel, ?_,
      hwords (hfields source (by simp)), hwords (hfields target (by simp))⟩
    · intro hnil
      subst hnil
      cases hlabel
    · intro hnil
      exact hsource (List.isEmpty_iff.2 hnil)

/-- The fields of the text of a proper form. -/
theorem Proper.splitBars_text (h : f.Proper) :
    splitBars f.text = [f.lhs ++ [' '],
      ' ' :: ([' '].intercalate f.source ++ [' ']),
      ' ' :: [' '].intercalate f.target] := by
  have hsource : BarFree (' ' :: [' '].intercalate f.source) :=
    barFree_nil.append_cons (by decide)
      (barFree_joined fun w hw => (h.source w hw).barFree)
  have htarget : BarFree (' ' :: [' '].intercalate f.target) :=
    barFree_nil.append_cons (by decide)
      (barFree_joined fun w hw => (h.target w hw).barFree)
  have hfront := splitBars_append_field h.lhs.barFree
    ([' '].intercalate f.source ++ " ||| ".toList
      ++ [' '].intercalate f.target)
  have hback := splitBars_append_field hsource ([' '].intercalate f.target)
  rw [splitBars_of_barFree htarget, List.cons_append, List.cons_append]
    at hback
  unfold text
  rw [List.append_assoc, List.append_assoc (f.lhs ++ _),
    ← List.append_assoc ([' '].intercalate f.source), hfront, hback,
    List.cons_append]

/-- A proper form is found again in its text. -/
theorem Proper.formOf_text (h : f.Proper) : formOf f.text = .ok f := by
  have hlhs : trim (f.lhs ++ [' ']) = f.lhs :=
    trim_append_blank h.lhs.blankFree h.lhs.ne_nil rfl
  have hsource : words (trim (' ' :: ([' '].intercalate f.source ++ [' '])))
      = f.source := by
    rw [words_trim, words_cons_blank rfl, words_append_blank rfl,
      words_joined fun w hw => ⟨(h.source w hw).ne_nil,
        (h.source w hw).blankFree⟩]
    exact List.append_nil _
  have htarget : words (trim (' ' :: [' '].intercalate f.target))
      = f.target := by
    rw [words_trim, words_cons_blank rfl,
      words_joined fun w hw => ⟨(h.target w hw).ne_nil,
        (h.target w hw).blankFree⟩]
  have hlabel : isLhs f.lhs = true := by
    unfold isLhs
    rw [h.isNonterminal, List.any_eq_false.2 fun c hc => by
      rw [h.lhs.blankFree c hc]
      exact Bool.false_ne_true]
    rfl
  have hne : f.source.isEmpty = false :=
    List.isEmpty_eq_false_iff.2 h.source_ne_nil
  unfold formOf
  rw [h.splitBars_text]
  simp only [List.map_cons, List.map_nil, hlhs, hsource, htarget, hlabel, hne,
    List.length_nil, Nat.not_lt_zero, if_false, Bool.not_true,
    Bool.false_eq_true]

/-- The text of a proper form starts with a bracket, so it is no comment. -/
theorem Proper.isSkipped_text (h : f.Proper) : isSkipped f.text = false := by
  have hinside := h.isNonterminal
  unfold Label.isNonterminal at hinside
  rw [String.toList_ofList] at hinside
  obtain ⟨body, hbody⟩ := Option.isSome_iff_exists.1 hinside
  obtain ⟨-, hlhs⟩ := Label.inside?_eq_some.1 hbody
  obtain ⟨rest, hrest⟩ : ∃ rest, f.text = '[' :: rest := by
    unfold text
    rw [hlhs]
    exact ⟨_, rfl⟩
  obtain ⟨rest', htrim⟩ := trim_cons (c := '[') rfl rest
  unfold isSkipped
  rw [hrest, htrim]
  rfl

/-- The text of a proper form has no blanks but spaces. -/
theorem Proper.not_mem_text (h : f.Proper) {c : Char}
    (hc : isBlank c = true) (hspace : c ≠ ' ') : c ∉ f.text := by
  have hword : ∀ w, IsWord w → c ∉ w := by
    intro w hw hmem
    rw [hw.blankFree c hmem] at hc
    cases hc
  have hjoined : ∀ ws : List (List Char), (∀ w ∈ ws, IsWord w) →
      c ∉ [' '].intercalate ws := by
    intro ws hws hmem
    rcases mem_joined hmem with heq | hmem
    · exact hspace heq
    · obtain ⟨w, hw, hmem⟩ := hmem
      exact hword w (hws w hw) hmem
  have hbars : c ∉ " ||| ".toList := by
    have hbar : c ≠ '|' := by
      intro heq
      subst heq
      cases hc
    simp [hspace, hbar]
  unfold text
  simp only [List.mem_append, not_or]
  exact ⟨⟨⟨⟨hword _ h.lhs, hbars⟩, hjoined _ h.source⟩, hbars⟩,
    hjoined _ h.target⟩

end Rule.Form

-- ============================================================== symbols

namespace Vocabulary

/-- The symbols of words that have been interned are given out again, and
nothing changes. -/
theorem forall₂_intern (hv : v.Distinct) (ws : List String)
    (h : (v.internAll ws).1.Grows u) :
    List.Forall₂ (fun w s => u.intern w = (u, s)) ws (v.internAll ws).2 := by
  induction ws generalizing v with
  | nil => exact .nil
  | cons w ws ih =>
      have hgrows := ((v.intern w).1.grows_internAll ws).trans h
      exact .cons (hv.intern_again hgrows) (ih (hv.intern w) h)

theorem internAll_of_forall₂ {ws : List String} {ss : List Symbol}
    (h : List.Forall₂ (fun w s => v.intern w = (v, s)) ws ss) :
    v.internAll ws = (v, ss) := by
  induction h with
  | nil => rfl
  | cons hw _ ih =>
      unfold internAll
      rw [hw]
      simp only [ih]

/-- A symbol is given out for its spelling, too. -/
theorem Distinct.intern_base (h : v.Distinct) {w : String}
    (hw : v.intern w = (v, s)) : v.intern (Label.base w) = (v, s) := by
  rw [intern_eq_iff h] at hw ⊢
  rwa [Label.isNonterminal_base, Label.base_base]

/-- A symbol is displayed as it is spelled. -/
theorem Distinct.display_of_intern (h : v.Distinct) {w : String}
    (hw : v.intern w = (v, s)) : v.display s = Label.base w := by
  unfold display
  rw [((intern_eq_iff h).1 hw).2]
  rfl

end Vocabulary

namespace Rule.Form

variable {f : Form}

/-- Whether a form has been interned as a rule. -/
structure Names (f : Form) (v : Vocabulary) (r : Rule) : Prop where
  lhs : v.intern (String.ofList f.lhs) = (v, r.lhs)
  source : List.Forall₂ (fun w s => v.intern (String.ofList w) = (v, s))
    f.source r.source
  target : r.target = String.intercalate " " (f.target.map String.ofList)

/-- A form that is interned names its rule from then on. -/
theorem names_intern (hv : v.Distinct) (h : (f.intern v).1.Grows u) :
    f.Names u (f.intern v).2 := by
  have hsource := v.grows_internAll (f.source.map String.ofList)
  have hdistinct := hsource.distinct hv
  -- the left-hand side is interned last, when the source side has been
  refine ⟨hdistinct.intern_again h, ?_, rfl⟩
  have hsymbols := Vocabulary.forall₂_intern hv (f.source.map String.ofList)
    ((Vocabulary.Grows.refl.intern _).trans h)
  exact List.forall₂_map_left_iff.1 hsymbols

/-- A form that names a rule is interned as that. -/
theorem Names.intern_eq (h : f.Names v r) : f.intern v = (v, r) := by
  have hsource := Vocabulary.internAll_of_forall₂
    (List.forall₂_map_left_iff.2 h.source)
  unfold Form.intern
  simp only [hsource, h.lhs, ← h.target]

/-- The indices of labels do not matter. -/
theorem Names.base (h : f.Names v r) (hv : v.Distinct) :
    f.base.Names v r where
  lhs := by
    show v.intern (String.ofList (Label.base _).toList) = _
    rw [String.ofList_toList]
    exact hv.intern_base h.lhs
  source := by
    apply List.forall₂_map_left_iff.2
    refine h.source.imp fun w s hw => ?_
    rw [String.ofList_toList]
    exact hv.intern_base hw
  target := h.target

/-- A rule is printed as the form that names it, without the indices. -/
theorem Names.toList_line (h : f.Names v r) (hv : v.Distinct) :
    (r.line v).toList = f.base.text := by
  have hsource : r.source.map v.display
      = f.source.map fun w => Label.base (String.ofList w) := by
    rw [← List.forall₂_eq_eq_eq]
    apply List.forall₂_map_left_iff.2
    apply List.forall₂_map_right_iff.2
    exact h.source.flip.imp fun s w hw => hv.display_of_intern hw
  unfold Rule.line Rule.display text Form.base
  rw [hv.display_of_intern h.lhs, hsource, h.target]
  simp only [String.toList_append, String.toList_intercalate, List.map_map,
    Function.comp_def, String.toList_ofList, List.map_id',
    List.append_assoc]
  rfl

/-- The printed form of a rule is read as the rule, without a change to the
vocabulary. -/
theorem Names.readLine_line (h : f.Names v r) (hproper : f.Proper)
    (hv : v.Distinct) (n : Nat) :
    readLine v (r.line v).toList n = (v, .ok r) := by
  rw [readLine_eq, h.toList_line hv, hproper.base.formOf_text]
  simp only [(h.base hv).intern_eq]

end Rule.Form

-- =========================================================== round trip

namespace Rule

/-- Every rule that is read from lines is named by a proper form from then
on. -/
theorem Reads.exists_names {lines : List (List Char)}
    (h : Reads v lines v' rs) (hv : v.Distinct) (hgrows : v'.Grows u) :
    ∀ r ∈ rs, ∃ f : Form, f.Proper ∧ f.Names u r := by
  induction h with
  | nil => exact fun _ hr => by cases hr
  | cons hline hrest ih =>
      obtain ⟨f, hform, hintern⟩ := exists_form (hline 0)
      have hv' := (grows_readLine (hline 0)).1.distinct hv
      refine List.forall_mem_cons.2 ⟨⟨f, Form.proper_of_formOf hform, ?_⟩,
        ih hv' hgrows⟩
      have hnames := Form.names_intern (f := f) hv
        (by rw [hintern]; exact hrest.grows.1.trans hgrows)
      rwa [hintern] at hnames

/-- Rules that are named by proper forms are read from their printed
lines. -/
theorem reads_lines (hv : v.Distinct)
    (h : ∀ r ∈ rs, ∃ f : Form, f.Proper ∧ f.Names v r) :
    Reads v (rs.map fun r => (r.line v).toList) v rs := by
  induction rs with
  | nil => exact .nil
  | cons r rs ih =>
      obtain ⟨⟨f, hproper, hnames⟩, hrs⟩ := List.forall_mem_cons.1 h
      exact .cons (hnames.readLine_line hproper hv) (ih hrs)

/-- The lines of printed rules are the printed rules. -/
theorem content_print (hv : v.Distinct)
    (h : ∀ r ∈ rs, ∃ f : Form, f.Proper ∧ f.Names v r) :
    content (lines (print v rs).toList)
      = rs.map fun r => (r.line v).toList := by
  have hline : ∀ r ∈ rs, isSkipped (r.line v).toList = false
      ∧ (r.line v).toList ≠ [] ∧ '\n' ∉ (r.line v).toList
      ∧ '\r' ∉ (r.line v).toList := by
    intro r hr
    obtain ⟨f, hproper, hnames⟩ := h r hr
    have hskipped := hproper.base.isSkipped_text
    rw [hnames.toList_line hv]
    refine ⟨hskipped, ?_, hproper.base.not_mem_text rfl (by decide),
      hproper.base.not_mem_text rfl (by decide)⟩
    intro hnil
    rw [hnil] at hskipped
    cases hskipped
  have hlines : lines (print v rs).toList
      = rs.map fun r => (r.line v).toList := by
    unfold print
    rw [String.toList_intercalate, List.map_map]
    exact lines_joined (List.forall_mem_map.2 fun r hr => (hline r hr).2)
  rw [hlines]
  apply List.filter_eq_self.2
  exact List.forall_mem_map.2 fun r hr => by rw [(hline r hr).1]; rfl

end Rule

/-- Rules that have been read from a text are read from their printed lines
again. Let the text be read into any vocabulary that calls have made, and
let each rule be printed as the vocabulary then displays it, one rule a
line. Reading what is printed gives exactly these rules, and the vocabulary
stays as it is. -/
theorem printed_rules_are_read_again {calls : List VocabularyCall}
    {text : String} {v : Vocabulary} {rs : List Rule}
    (h : Rule.ofText (Vocabulary.ofCalls calls) text = (v, .ok rs)) :
    Rule.ofText v (Rule.print v rs) = (v, .ok rs) := by
  have hstart := VocabularyCall.distinct_ofCalls calls
  have hv := (Rule.grows_ofText h).distinct hstart
  have hnames := (Rule.reads_of_ofText h).exists_names hstart .refl
  apply Rule.ofText_of_reads
  rw [Rule.content_print hv hnames]
  exact Rule.reads_lines hv hnames

/-- Bars and number signs inside words do no harm, nor does an input word that
is spelled like a nonterminal. -/
theorem printed_rules_are_read_again_with_signs :
    Rule.ofText (.ofCalls [.internWord "[X]", .intern "a"])
        "# rules\n\n[X] ||| #a b|| ||| A   |B ||| 0.5\n[S] ||| [X] a |||"
      = (⟨#["[X]", "a", "#a", "b||"], #["[X]", "[S]"]⟩,
          .ok [⟨-1, [3, 4], "A |B"⟩, ⟨-2, [-1, 2], ""⟩])
      ∧ Rule.ofText ⟨#["[X]", "a", "#a", "b||"], #["[X]", "[S]"]⟩
          (Rule.print ⟨#["[X]", "a", "#a", "b||"], #["[X]", "[S]"]⟩
            [⟨-1, [3, 4], "A |B"⟩, ⟨-2, [-1, 2], ""⟩])
        = (⟨#["[X]", "a", "#a", "b||"], #["[X]", "[S]"]⟩,
          .ok [⟨-1, [3, 4], "A |B"⟩, ⟨-2, [-1, 2], ""⟩]) := by
  have hread : Rule.ofText (.ofCalls [.internWord "[X]", .intern "a"])
        "# rules\n\n[X] ||| #a b|| ||| A   |B ||| 0.5\n[S] ||| [X] a |||"
      = (⟨#["[X]", "a", "#a", "b||"], #["[X]", "[S]"]⟩,
          .ok [⟨-1, [3, 4], "A |B"⟩, ⟨-2, [-1, 2], ""⟩]) := by
    decide +kernel
  exact ⟨hread, printed_rules_are_read_again hread⟩

end LatticeParsing
