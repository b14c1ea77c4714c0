/-
The tokens of a lattice text.

An arc is written as a label in quotes, a cost and an offset, with commas
between them and blanks around all. For each kind of token this file says
which texts it has and that the reader takes just these: labels
(`quotedLabel?_eq_some`), what stands between separators (`token?_eq_some`),
and offsets (`count?_eq_some`). Costs are whatever the reader of costs
accepts; all that matters of them here is that they have no parentheses and
quotes (`plain_of_costForm`).

The reader of offsets first asks for decimal digits of any script. That those
of ASCII are among them is read off the first runs of the category table.
-/
import LatticeParsing.Lattice.Text
import Mathlib.Data.List.DropRight

namespace LatticeParsing

-- =============================================================== digits

namespace Unicode

/-- How many code points runs take up. -/
def CategoryRuns.size (runs : CategoryRuns) : Nat :=
  runs.foldr (fun r n => r.1 + n) 0

/-- The category of a code point that lies behind some runs. -/
theorem CategoryRuns.at_append (runs rest : CategoryRuns) {n : Nat}
    (h : runs.size ≤ n) :
    CategoryRuns.at n (runs ++ rest)
      = CategoryRuns.at (n - runs.size) rest := by
  induction runs generalizing n with
  | nil => rfl
  | cons r runs ih =>
      obtain ⟨len, cat⟩ := r
      have hsize : CategoryRuns.size ((len, cat) :: runs)
          = len + CategoryRuns.size runs := rfl
      rw [hsize] at h ⊢
      rw [List.cons_append, CategoryRuns.at, if_neg (by omega), ih (by omega),
        Nat.sub_sub]

/-- The table up to the run of the ASCII digits. -/
theorem categoryText_eq : ∃ rest, categoryText.toList
    = ['3', '2', 'Z', 'W', '3', 'R', 'T', '3', 'R', 'N', 'O', 'R', 'S', 'R',
        'M', '2', 'R', '1', '0', 'I'] ++ rest := by
  unfold categoryText
  simp only [String.toList_append, List.append_assoc]
  exact ⟨_, rfl⟩

/-- The ten digits of ASCII make a run, which starts at the first of
them. -/
theorem categoryRuns_eq : ∃ runs rest : CategoryRuns,
    runs.size = 48 ∧ categoryRuns = runs ++ (10, .decimalNumber) :: rest := by
  obtain ⟨rest, h⟩ := categoryText_eq
  unfold categoryRuns
  rw [h]
  exact ⟨[(32, .control), (1, .spaceSeparator), (3, .otherPunctuation),
    (1, .currencySymbol), (3, .otherPunctuation), (1, .openPunctuation),
    (1, .closePunctuation), (1, .otherPunctuation), (1, .mathSymbol),
    (1, .otherPunctuation), (1, .dashPunctuation), (2, .otherPunctuation)],
    _, rfl, rfl⟩

theorem toNat_of_isDigit {c : Char} (h : c.isDigit = true) :
    48 ≤ c.toNat ∧ c.toNat ≤ 57 := by
  simpa [Char.isDigit, UInt32.le_iff_toNat_le] using h

theorem isDecimalDigit_of_isDigit {c : Char} (h : c.isDigit = true) :
    isDecimalDigit c = true := by
  obtain ⟨runs, rest, hsum, hruns⟩ := categoryRuns_eq
  obtain ⟨hlow, hhigh⟩ := toNat_of_isDigit h
  have hcat : category c = .decimalNumber := by
    unfold category
    rw [hruns, CategoryRuns.at_append _ _ (hsum ▸ hlow), CategoryRuns.at,
      if_pos (by omega)]
  exact beq_iff_eq.2 hcat

end Unicode

namespace Text

/-- A digit string is read if it has nothing but ASCII digits, from left to
right. -/
theorem digitsValueFrom?_eq_some {cs : List Char} {acc n : Nat} :
    digitsValueFrom? acc cs = some n
      ↔ (∀ c ∈ cs, c.isDigit = true) ∧ Nat.ofDigitChars 10 cs acc = n := by
  induction cs generalizing acc with
  | nil => simp [digitsValueFrom?]
  | cons c cs ih =>
      unfold digitsValueFrom? digit?
      by_cases hc : c.isDigit = true
      · simp [hc, ih, Nat.ofDigitChars_cons]
      · simp [hc]

/-- An offset as it is written: at least one ASCII digit, nothing else, and
not worth too much. -/
structure OffsetForm (text : List Char) (n : Nat) : Prop where
  ne_nil : text ≠ []
  digits : ∀ c ∈ text, c.isDigit = true
  value : Nat.ofDigitChars 10 text 0 = n
  le_max : n ≤ maxCount

theorem count?_eq_some {cs : List Char} {n : Nat} :
    count? cs = some n ↔ OffsetForm cs n := by
  unfold count? digitsValue?
  simp only [Option.filter_eq_some_iff, List.isEmpty_iff,
    Option.ite_none_left_eq_some, digitsValueFrom?_eq_some, decide_eq_true_eq]
  constructor
  · intro h
    obtain ⟨⟨hne, hdigits, hvalue⟩, hmax⟩ := h
    exact ⟨hne, hdigits, hvalue, hmax⟩
  · intro h
    exact ⟨⟨h.ne_nil, h.digits, h.value⟩, h.le_max⟩

end Text

-- ================================================================ costs

namespace Cost

open Text

/-- Whether a character may stand in a decimal number. -/
def isNumeral (c : Char) : Bool :=
  c.isDigit || ['.', 'e', 'E', '+', '-'].contains c

theorem isNumeral_of_isDigit {c : Char} (h : c.isDigit = true) :
    isNumeral c = true := by
  simp [isNumeral, h]

theorem isNumeral_of_exponent? {cs : List Char} {e : Int}
    (h : exponent? cs = some e) : ∀ c ∈ cs, isNumeral c = true := by
  have hdigits : ∀ {cs n}, digitsValue? cs = some n →
      ∀ c ∈ cs, isNumeral c = true := by
    intro cs n h c hc
    unfold digitsValue? at h
    rw [Option.ite_none_left_eq_some] at h
    exact isNumeral_of_isDigit ((digitsValueFrom?_eq_some.1 h.2).1 c hc)
  unfold exponent? at h
  split at h <;> obtain ⟨n, hn, -⟩ := Option.map_eq_some_iff.1 h
  case h_1 => exact List.forall_mem_cons.2 ⟨by decide, hdigits hn⟩
  case h_2 => exact List.forall_mem_cons.2 ⟨by decide, hdigits hn⟩
  case h_3 => exact hdigits hn

theorem isNumeral_of_exponentPart? {cs : List Char} {e : Int}
    (h : exponentPart? cs = some e) : ∀ c ∈ cs, isNumeral c = true := by
  cases cs with
  | nil => exact fun _ hc => absurd hc List.not_mem_nil
  | cons c cs =>
      unfold exponentPart? at h
      rw [Option.ite_none_right_eq_some, Bool.or_eq_true, beq_iff_eq,
        beq_iff_eq] at h
      refine List.forall_mem_cons.2 ⟨?_, isNumeral_of_exponent? h.2⟩
      rcases h.1 with rfl | rfl <;> decide

/-- Digits at the start of a text may be left out of account. -/
theorem forall_isNumeral {cs : List Char}
    (h : ∀ c ∈ cs.dropWhile Char.isDigit, isNumeral c = true) :
    ∀ c ∈ cs, isNumeral c = true := by
  intro c hc
  rw [← List.takeWhile_append_dropWhile (p := Char.isDigit) (l := cs)] at hc
  rcases List.mem_append.1 hc with hc | hc
  · exact isNumeral_of_isDigit (List.mem_takeWhile_imp hc)
  · exact h c hc

theorem isNumeral_of_decimal? {cs : List Char} {d : Decimal}
    (h : decimal? cs = some d) : ∀ c ∈ cs, isNumeral c = true := by
  obtain ⟨e, he, -⟩ := Option.bind_eq_some_iff.1 h
  have htail := isNumeral_of_exponentPart? he
  refine forall_isNumeral ?_
  split at htail
  case h_1 more hmore =>
    rw [hmore]
    exact List.forall_mem_cons.2 ⟨by decide, forall_isNumeral htail⟩
  case h_2 => exact htail

theorem isAlpha_of_named? {cs : List Char} {m : Cost}
    (h : named? cs = some m) : ∀ c ∈ cs, c.toLower.isAlpha = true := by
  have hletters : ∀ {name : String},
      String.ofList (cs.map Char.toLower) = name →
      name.toList.all Char.isAlpha = true →
      ∀ c ∈ cs, c.toLower.isAlpha = true := by
    intro name hname hall c hc
    rw [← hname, String.toList_ofList, List.all_eq_true] at hall
    exact hall _ (List.mem_map_of_mem hc)
  unfold named? at h
  split at h
  case h_1 hname => exact hletters hname (by decide)
  case h_2 hname => exact hletters hname (by decide)
  case h_3 hname => exact hletters hname (by decide)
  case h_4 => cases h

/-- A cost is written with digits, letters, a point and signs. -/
theorem chars_of_ofText? {cs : List Char} {m : Cost}
    (h : ofText? cs = some m) :
    ∀ c ∈ cs, isNumeral c = true ∨ c.toLower.isAlpha = true := by
  have hunsigned : ∀ {cs n}, unsigned? cs = some n →
      ∀ c ∈ cs, isNumeral c = true ∨ c.toLower.isAlpha = true := by
    intro cs n h c hc
    rcases Option.or_eq_some_iff.1 h with hnamed | ⟨-, hdecimal⟩
    · exact Or.inr (isAlpha_of_named? hnamed c hc)
    · obtain ⟨d, hd, -⟩ := Option.map_eq_some_iff.1 hdecimal
      exact Or.inl (isNumeral_of_decimal? hd c hc)
  unfold ofText? at h
  split at h
  case h_1 =>
    obtain ⟨n, hn, -⟩ := Option.map_eq_some_iff.1 h
    exact List.forall_mem_cons.2 ⟨Or.inl (by decide), hunsigned hn⟩
  case h_2 =>
    exact List.forall_mem_cons.2 ⟨Or.inl (by decide), hunsigned h⟩
  case h_3 => exact hunsigned h

end Cost

namespace LatticeText

open Text

variable {cs rest b : List Char} {c : Char}

-- =============================================================== blanks

/-- A text of blanks, perhaps empty. -/
def Blanks (cs : List Char) : Prop := ∀ c ∈ cs, isBlank c = true

/-- A text of blanks and commas, perhaps empty. -/
def Separators (cs : List Char) : Prop := ∀ c ∈ cs, isSeparator c = true

theorem blanks_nil : Blanks [] := fun _ h => absurd h List.not_mem_nil

theorem isSeparator_of_isBlank (h : isBlank c = true) :
    isSeparator c = true := by
  simp [isSeparator, h]

theorem skipBlanks_append (hb : Blanks b) (cs : List Char) :
    skipBlanks (b ++ cs) = skipBlanks cs :=
  List.dropWhile_append_of_pos hb

theorem skipBlanks_cons (hc : isBlank c = false) (cs : List Char) :
    skipBlanks (c :: cs) = c :: cs :=
  List.dropWhile_cons_of_neg (by simp [hc])

theorem skipBlanks_eq_nil : skipBlanks cs = [] ↔ Blanks cs :=
  List.dropWhile_eq_nil_iff

theorem skipBlanks_skipBlanks (cs : List Char) :
    skipBlanks (skipBlanks cs) = skipBlanks cs :=
  List.dropWhile_idempotent ..

/-- A text is the blanks that are passed over and what is left. -/
theorem exists_blanks (cs : List Char) :
    ∃ b, Blanks b ∧ cs = b ++ skipBlanks cs :=
  ⟨cs.takeWhile isBlank, fun _ => List.mem_takeWhile_imp,
    List.takeWhile_append_dropWhile.symm⟩

-- =============================================================== commas

theorem comma?_eq_some : comma? cs = some rest
    ↔ ∃ b b', Blanks b ∧ Blanks b' ∧ cs = b ++ ',' :: (b' ++ rest)
        ∧ skipBlanks rest = rest := by
  constructor
  · intro h
    obtain ⟨b, hb, hcs⟩ := exists_blanks cs
    unfold comma? at h
    split at h
    case h_2 => cases h
    case h_1 more hmore =>
      injection h with h
      subst h
      obtain ⟨b', hb', hrest⟩ := exists_blanks more
      refine ⟨b, b', hb, hb', ?_, skipBlanks_skipBlanks more⟩
      rw [← hrest, ← hmore, ← hcs]
  · intro h
    obtain ⟨b, b', hb, hb', rfl, hrest⟩ := h
    unfold comma?
    rw [skipBlanks_append hb, skipBlanks_cons (by decide)]
    simp only
    rw [skipBlanks_append hb', hrest]

/-- Nothing is left behind a last comma if there are only blanks around
it. -/
theorem skipComma_eq_nil : skipComma cs = []
    ↔ ∃ b comma b', Blanks b ∧ Blanks b' ∧ (comma = [] ∨ comma = [','])
        ∧ cs = b ++ comma ++ b' := by
  unfold skipComma
  constructor
  · intro h
    cases hcomma : comma? cs with
    | none =>
        rw [hcomma] at h
        exact ⟨cs, [], [], skipBlanks_eq_nil.1 h, blanks_nil, Or.inl rfl,
          by simp⟩
    | some rest =>
        rw [hcomma] at h
        obtain rfl : rest = [] := h
        obtain ⟨b, b', hb, hb', rfl, -⟩ := comma?_eq_some.1 hcomma
        exact ⟨b, [','], b', hb, hb', Or.inr rfl, by simp⟩
  · intro h
    obtain ⟨b, comma, b', hb, hb', rfl | rfl, rfl⟩ := h
    · have hskip : skipBlanks (b ++ [] ++ b') = [] := by
        rw [List.append_nil, skipBlanks_append hb, skipBlanks_eq_nil.2 hb']
      unfold comma?
      rw [hskip]
      rfl
    · have hcomma : comma? (b ++ [','] ++ b') = some [] :=
        comma?_eq_some.2 ⟨b, b', hb, hb', by simp, rfl⟩
      rw [hcomma]
      rfl

-- =============================================================== tokens

/-- At least one character, and no separator. -/
structure Token (cs : List Char) : Prop where
  ne_nil : cs ≠ []
  bare : ∀ c ∈ cs, isSeparator c = false

/-- A token is read up to the next separator. -/
theorem token?_eq_some {tok : List Char} : token? cs = some (tok, rest)
    ↔ Token tok ∧ (∀ c ∈ rest.head?, isSeparator c = true)
      ∧ cs = tok ++ rest := by
  unfold token?
  simp only [Option.ite_none_left_eq_some, List.isEmpty_iff, Option.some.injEq,
    Prod.mk.injEq]
  constructor
  · intro h
    obtain ⟨hne, rfl, rfl⟩ := h
    refine ⟨⟨hne, fun c hc => ?_⟩, fun c hc => ?_,
      List.takeWhile_append_dropWhile.symm⟩
    · simpa using List.mem_takeWhile_imp hc
    · have hnot := List.head?_dropWhile_not (!isSeparator ·) cs
      rw [Option.mem_def.1 hc] at hnot
      simpa using hnot
  · intro h
    obtain ⟨htok, hrest, rfl⟩ := h
    have hbare : ∀ c ∈ tok, (!isSeparator c) = true := fun c hc => by
      simp [htok.bare c hc]
    have hstop : rest.takeWhile (!isSeparator ·) = []
        ∧ rest.dropWhile (!isSeparator ·) = rest := by
      cases rest with
      | nil => exact ⟨rfl, rfl⟩
      | cons c rest => simp [hrest c rfl]
    rw [List.takeWhile_append_of_pos hbare, List.dropWhile_append_of_pos hbare,
      hstop.1, hstop.2, List.append_nil]
    exact ⟨htok.ne_nil, rfl, rfl⟩

/-- A token is not passed over as blank. -/
theorem Token.skipBlanks (h : Token cs) (rest : List Char) :
    skipBlanks (cs ++ rest) = cs ++ rest := by
  cases cs with
  | nil => exact absurd rfl h.ne_nil
  | cons c cs =>
      have hc := h.bare c (List.mem_cons_self ..)
      simp only [isSeparator, Bool.or_eq_false_iff] at hc
      exact skipBlanks_cons hc.1 _

theorem not_isSeparator_of_isDigit (h : c.isDigit = true) :
    isSeparator c = false := by
  have hc := Unicode.toNat_of_isDigit h
  have hcomma : c ≠ ',' := fun heq => by simp [heq] at h
  unfold isSeparator isBlank
  simp only [Bool.or_eq_false_iff, Bool.and_eq_false_iff, beq_eq_false_iff_ne,
    decide_eq_false_iff_not]
  refine ⟨by omega, hcomma⟩

theorem token_of_offsetForm {n : Nat} (h : OffsetForm cs n) : Token cs :=
  ⟨h.ne_nil, fun c hc => not_isSeparator_of_isDigit (h.digits c hc)⟩

/-- A cost as it is written: a token that is read as a cost. -/
structure CostForm (text : List Char) (c : Cost) : Prop where
  token : Token text
  value : Cost.ofText? text = some c

-- ===================================================== plain characters

/-- True of the characters that neither open nor close anything. -/
def Plain (c : Char) : Prop := c ∉ ['(', ')', '\'', '"']

theorem plain_of {p : Char → Bool}
    (hp : ['(', ')', '\'', '"'].any p = false) (h : p c = true) : Plain c := by
  intro hc
  rw [List.any_eq_false] at hp
  exact hp c hc h

theorem plain_of_isSeparator (h : isSeparator c = true) : Plain c :=
  plain_of (by decide) h

theorem plain_of_offsetForm {n : Nat} (h : OffsetForm cs n) :
    ∀ c ∈ cs, Plain c :=
  fun c hc => plain_of (by decide) (h.digits c hc)

theorem plain_of_costForm {m : Cost} (h : CostForm cs m) :
    ∀ c ∈ cs, Plain c := by
  intro c hc
  rcases Cost.chars_of_ofText? h.value c hc with hc | hc
  · exact plain_of (by decide) hc
  · exact plain_of (p := fun c => c.toLower.isAlpha) (by decide) hc

-- =============================================================== labels

/-- What stands between the quotes of a label: characters that are neither
the quote nor a backslash, and escapes, which are a backslash and any
character but a line feed. The label has the escaped characters in place of
the escapes. -/
inductive LabelForm (mark : Char) : List Char → List Char → Prop
  | nil : LabelForm mark [] []
  | plain {c text label} : c ≠ mark → c ≠ '\\' → LabelForm mark text label →
      LabelForm mark (c :: text) (c :: label)
  | escaped {c text label} : c ≠ '\n' → LabelForm mark text label →
      LabelForm mark ('\\' :: c :: text) (c :: label)

/-- A label as it is written, in single or in double quotes. -/
inductive QuotedForm : List Char → List Char → Prop
  | single {text label} : LabelForm '\'' text label →
      QuotedForm ('\'' :: (text ++ ['\''])) label
  | double {text label} : LabelForm '"' text label →
      QuotedForm ('"' :: (text ++ ['"'])) label

/-- A label is read up to the quote that ends it. -/
theorem label?_eq_some {mark : Char} {label : List Char}
    (hmark : mark ≠ '\\') : label? mark cs = some (label, rest)
      ↔ ∃ text, LabelForm mark text label ∧ cs = text ++ mark :: rest := by
  constructor
  · intro h
    fun_induction label? mark cs generalizing label with
    | case1 => cases h
    | case2 => cases h
    | case3 c cs hc ih =>
        obtain ⟨⟨l, r⟩, hl, heq⟩ := Option.map_eq_some_iff.1 h
        cases heq
        obtain ⟨text, htext, rfl⟩ := ih hl
        exact ⟨_, .escaped (by simpa using hc) htext, rfl⟩
    | case4 c cs _ hc =>
        cases h
        exact ⟨[], .nil, by rw [eq_of_beq hc]; rfl⟩
    | case5 => cases h
    | case6 c cs _ hc hslash ih =>
        obtain ⟨⟨l, r⟩, hl, heq⟩ := Option.map_eq_some_iff.1 h
        cases heq
        obtain ⟨text, htext, rfl⟩ := ih hl
        exact ⟨_, .plain (by simpa using hc) (by simpa using hslash) htext,
          rfl⟩
  · intro h
    obtain ⟨text, htext, rfl⟩ := h
    induction htext with
    | nil =>
        rw [List.nil_append, label?, if_pos BEq.rfl]
        exact fun _ _ heq => absurd heq hmark
    | plain hc hslash _ ih =>
        rw [List.cons_append, label?, if_neg (by simpa using hc),
          if_neg (by simpa using hslash), ih]
        · rfl
        · exact fun _ _ heq => absurd heq hslash
    | escaped hc _ ih =>
        rw [List.cons_append, List.cons_append, label?,
          if_neg (by simpa using hc), ih]
        rfl

theorem quotedLabel?_eq_some {label : List Char} :
    quotedLabel? cs = some (label, rest)
      ↔ ∃ b text, Blanks b ∧ QuotedForm text label
          ∧ cs = b ++ (text ++ rest) := by
  constructor
  · intro h
    obtain ⟨b, hb, hcs⟩ := exists_blanks cs
    unfold quotedLabel? at h
    split at h
    case h_1 more hmore =>
      obtain ⟨text, htext, rfl⟩ := (label?_eq_some (by decide)).1 h
      exact ⟨b, _, hb, .single htext, by rw [hcs, hmore]; simp⟩
    case h_2 more hmore =>
      obtain ⟨text, htext, rfl⟩ := (label?_eq_some (by decide)).1 h
      exact ⟨b, _, hb, .double htext, by rw [hcs, hmore]; simp⟩
    case h_3 => cases h
  · intro h
    obtain ⟨b, text, hb, htext, rfl⟩ := h
    unfold quotedLabel?
    cases htext with
    | single htext =>
        rw [skipBlanks_append hb, List.cons_append,
          skipBlanks_cons (by decide)]
        exact (label?_eq_some (by decide)).2 ⟨_, htext, by simp⟩
    | double htext =>
        rw [skipBlanks_append hb, List.cons_append,
          skipBlanks_cons (by decide)]
        exact (label?_eq_some (by decide)).2 ⟨_, htext, by simp⟩

end LatticeText

end LatticeParsing
