/-
Going through the text of a lattice by its parentheses and quotes.

How many parentheses are open, and whether quotes are, is followed by `scan`.
A cut follows them from one level further out, so inside of a tuple it does
what the scan of its inside does (`tuplesFrom_scan`): a tuple ends where the
scan of what stands behind its opening parenthesis would close one that is not
open, and what is cut out is balanced (`Balanced`).

A text is therefore a row of tuples, each with the position where it stands
(`Row`), or it goes wrong behind a row of them (`CutFault`): at a character
that may not stand outside of parentheses, or at a parenthesis that nothing
closes (`tuples_cases`). A text that is balanced itself can only go wrong at a
character (`CutFault.stray`), so of the three cuts only the first one finds
parentheses that do not match.
-/
import LatticeParsing.Proofs.Lattice.Tokens

namespace LatticeParsing

-- ================================================================ bytes

namespace Text

theorem byteLength_cons (c : Char) (cs : List Char) :
    byteLength (c :: cs) = c.utf8Size + byteLength cs := rfl

theorem byteLength_append (cs ds : List Char) :
    byteLength (cs ++ ds) = byteLength cs + byteLength ds := by
  induction cs with
  | nil => exact (Nat.zero_add _).symm
  | cons c cs ih =>
      rw [List.cons_append, byteLength_cons, byteLength_cons, ih,
        Nat.add_assoc]

/-- The byte length of a text is that of its encoding. -/
theorem byteLength_toList (s : String) :
    byteLength s.toList = s.utf8ByteSize := by
  obtain ⟨cs, rfl⟩ : ∃ cs, s = String.ofList cs := ⟨s.toList, by simp⟩
  rw [String.toList_ofList]
  induction cs with
  | nil => rfl
  | cons c cs ih =>
      rw [byteLength_cons, ih, ← List.singleton_append, String.ofList_append,
        String.utf8ByteSize_append]
      simp

/-- A parenthesis takes one byte. -/
theorem byteLength_open (cs cs' : List Char) :
    byteLength (cs ++ '(' :: cs') = byteLength cs + 1 + byteLength cs' := by
  have hopen : '('.utf8Size = 1 := rfl
  rw [byteLength_append, byteLength_cons, hopen, Nat.add_assoc]

theorem byteLength_group (body cs : List Char) :
    byteLength ('(' :: (body ++ ')' :: cs))
      = byteLength body + 2 + byteLength cs := by
  have hopen : '('.utf8Size = 1 := rfl
  have hclose : ')'.utf8Size = 1 := rfl
  rw [byteLength_cons, byteLength_append, byteLength_cons, hopen, hclose]
  omega

end Text

namespace LatticeText

open Text

variable {cs cs' rest text text' : List Char} {c mark : Char}
  {pos depth depth' start : Nat} {quoting quoting' : Quoting}
  {body : List Char} {t : Tuple} {ts ts' : List Tuple} {e : LatticeError}

-- ================================================================ steps

theorem tuplesFrom_quoted : tuplesFrom pos depth (.quoted mark) start body
      (c :: cs)
    = tuplesFrom (pos + c.utf8Size) depth (.next mark c) start (c :: body) cs :=
  rfl

theorem tuplesFrom_escaped : tuplesFrom pos depth (.escaped mark) start body
      (c :: cs)
    = tuplesFrom (pos + c.utf8Size) depth (.quoted mark) start (c :: body) cs :=
  rfl

theorem tuplesFrom_outer_open : tuplesFrom pos 0 .bare start body ('(' :: cs)
    = tuplesFrom (pos + 1) 1 .bare (pos + 1) [] cs := rfl

theorem tuplesFrom_open : tuplesFrom pos (depth + 1) .bare start body
      ('(' :: cs)
    = tuplesFrom (pos + 1) (depth + 2) .bare start ('(' :: body) cs := rfl

theorem tuplesFrom_close : tuplesFrom pos (depth + 2) .bare start body
      (')' :: cs)
    = tuplesFrom (pos + 1) (depth + 1) .bare start (')' :: body) cs := rfl

theorem tuplesFrom_outer_close : tuplesFrom pos 1 .bare start body (')' :: cs)
    = (tuplesFrom (pos + 1) 0 .bare start [] cs).map
        (⟨start, body.reverse⟩ :: ·) := rfl

theorem tuplesFrom_plain (hc : Plain c) :
    tuplesFrom pos (depth + 1) .bare start body (c :: cs)
      = tuplesFrom (pos + c.utf8Size) (depth + 1) .bare start (c :: body)
          cs := by
  simp only [Plain, List.mem_cons, List.not_mem_nil, or_false, not_or] at hc
  obtain ⟨hopen, hclose, hsingle, hdouble⟩ := hc
  rw [tuplesFrom.eq_def]
  simp [hopen, hclose, hsingle, hdouble]

theorem tuplesFrom_mark (hc : c = '\'' ∨ c = '"') :
    tuplesFrom pos (depth + 1) .bare start body (c :: cs)
      = tuplesFrom (pos + c.utf8Size) (depth + 1) (.quoted c) start (c :: body)
          cs := by
  rcases hc with rfl | rfl <;> rfl

/-- Outside of parentheses there are only separators. -/
theorem tuplesFrom_outer (hopen : c ≠ '(') (hclose : c ≠ ')') :
    tuplesFrom pos 0 .bare start body (c :: cs)
      = if isSeparator c then
          tuplesFrom (pos + c.utf8Size) 0 .bare start [] cs
        else .error (.malformed pos (.unexpected c)) := by
  rw [tuplesFrom.eq_def]
  simp [hopen, hclose]

-- ============================================================= scanning

/-- One character further: how many parentheses are open, and whether quotes
are. None if the character closes a parenthesis and none is open. -/
def scanStep (depth : Nat) (quoting : Quoting) (c : Char) :
    Option (Nat × Quoting) :=
  match quoting with
  | .escaped mark => some (depth, .quoted mark)
  | .quoted mark => some (depth, .next mark c)
  | .bare =>
    if c = '(' then some (depth + 1, .bare)
    else if c = ')' then
      if depth = 0 then none else some (depth - 1, .bare)
    else if c = '\'' ∨ c = '"' then some (depth, .quoted c)
    else some (depth, .bare)

/-- How many parentheses are open behind a text, and whether quotes are. None
if the text closes more than are open before it. -/
def scan (depth : Nat) (quoting : Quoting) :
    List Char → Option (Nat × Quoting)
  | [] => some (depth, quoting)
  | c :: cs => do
    let (depth, quoting) ← scanStep depth quoting c
    scan depth quoting cs

theorem scan_cons : scan depth quoting (c :: cs)
    = (scanStep depth quoting c).bind fun s => scan s.1 s.2 cs := rfl

theorem scan_quoted : scan depth (.quoted mark) (c :: cs)
    = scan depth (.next mark c) cs := rfl

theorem scan_append : scan depth quoting (cs ++ cs')
    = (scan depth quoting cs).bind fun s => scan s.1 s.2 cs' := by
  induction cs generalizing depth quoting with
  | nil => rfl
  | cons c cs ih =>
      rw [List.cons_append, scan_cons, scan_cons, Option.bind_assoc]
      exact congrArg _ (funext fun s => ih)

/-- Nothing but a closing parenthesis closes one. -/
theorem scanStep_eq_none (h : scanStep depth quoting c = none) :
    depth = 0 ∧ quoting = .bare ∧ c = ')' := by
  unfold scanStep at h
  cases quoting with
  | escaped mark => cases h
  | quoted mark => cases h
  | bare =>
      simp only at h
      split_ifs at h with hopen hclose hdepth
      exact ⟨hdepth, rfl, hclose⟩

/-- One more parenthesis that is open all the time makes no difference. -/
theorem scanStep_succ (h : scanStep depth quoting c = some (depth', quoting')) :
    scanStep (depth + 1) quoting c = some (depth' + 1, quoting') := by
  unfold scanStep at h ⊢
  cases quoting with
  | escaped mark =>
      cases h
      rfl
  | quoted mark =>
      cases h
      rfl
  | bare =>
      simp only [Nat.succ_ne_zero, if_false] at h ⊢
      split_ifs at h ⊢ with hopen hclose hdepth hmark
      · cases h
        rfl
      · cases h
        rw [Nat.add_sub_cancel, Nat.sub_add_cancel (Nat.pos_of_ne_zero hdepth)]
      · cases h
        rfl
      · cases h
        rfl

theorem scan_succ (h : scan depth quoting cs = some (depth', quoting')) :
    scan (depth + 1) quoting cs = some (depth' + 1, quoting') := by
  induction cs generalizing depth quoting with
  | nil =>
      cases h
      rfl
  | cons c cs ih =>
      rw [scan_cons] at h
      obtain ⟨⟨d, q⟩, hstep, hrest⟩ := Option.bind_eq_some_iff.1 h
      rw [scan_cons, scanStep_succ hstep]
      exact ih hrest

/-- A text that closes more than is open does so at some closing parenthesis
first. -/
theorem exists_of_scan_eq_none (h : scan depth quoting cs = none) :
    ∃ inner rest, cs = inner ++ ')' :: rest
      ∧ scan depth quoting inner = some (0, .bare) := by
  induction cs generalizing depth quoting with
  | nil => cases h
  | cons c cs ih =>
      cases hstep : scanStep depth quoting c with
      | none =>
          obtain ⟨rfl, rfl, rfl⟩ := scanStep_eq_none hstep
          exact ⟨[], cs, rfl, rfl⟩
      | some s =>
          rw [scan_cons, hstep] at h
          obtain ⟨inner, rest, rfl, hinner⟩ := ih h
          refine ⟨c :: inner, rest, rfl, ?_⟩
          rw [scan_cons, hstep]
          exact hinner

/-- A cut that is inside of a tuple takes a character as the scan does from
one level further in. -/
theorem tuplesFrom_scanStep
    (h : scanStep depth quoting c = some (depth', quoting')) :
    tuplesFrom pos (depth + 1) quoting start body (c :: cs)
      = tuplesFrom (pos + c.utf8Size) (depth' + 1) quoting' start (c :: body)
          cs := by
  unfold scanStep at h
  cases quoting with
  | escaped mark =>
      cases h
      exact tuplesFrom_escaped
  | quoted mark =>
      cases h
      exact tuplesFrom_quoted
  | bare =>
      simp only at h
      split_ifs at h with hopen hclose hdepth hmark
      · cases h
        subst hopen
        exact tuplesFrom_open
      · cases h
        subst hclose
        obtain ⟨d, rfl⟩ := Nat.exists_eq_succ_of_ne_zero hdepth
        exact tuplesFrom_close
      · cases h
        exact tuplesFrom_mark hmark
      · cases h
        rw [not_or] at hmark
        exact tuplesFrom_plain (by simp [Plain, hopen, hclose, hmark])

theorem tuplesFrom_scan (h : scan depth quoting cs = some (depth', quoting'))
    (pos start : Nat) (body rest : List Char) :
    tuplesFrom pos (depth + 1) quoting start body (cs ++ rest)
      = tuplesFrom (pos + byteLength cs) (depth' + 1) quoting' start
          (cs.reverse ++ body) rest := by
  induction cs generalizing depth quoting pos body with
  | nil =>
      cases h
      rfl
  | cons c cs ih =>
      rw [scan_cons] at h
      obtain ⟨⟨d, q⟩, hstep, hrest⟩ := Option.bind_eq_some_iff.1 h
      rw [List.cons_append, tuplesFrom_scanStep hstep, ih hrest,
        byteLength_cons, List.reverse_cons, List.append_assoc, Nat.add_assoc]
      rfl

-- ============================================================= balanced

/-- Whether parentheses and quotes in a text match. -/
def Balanced (cs : List Char) : Prop := scan 0 .bare cs = some (0, .bare)

theorem balanced_nil : Balanced [] := rfl

theorem Balanced.append (h : Balanced cs) (h' : Balanced cs') :
    Balanced (cs ++ cs') := by
  unfold Balanced at h h' ⊢
  rw [scan_append, h]
  exact h'

/-- A balanced text in parentheses is balanced. -/
theorem Balanced.group (h : Balanced cs) :
    Balanced ('(' :: (cs ++ [')'])) := by
  have hinner : scan 1 .bare cs = some (1, .bare) := scan_succ h
  have hopen : scan 0 .bare ('(' :: (cs ++ [')']))
      = scan 1 .bare (cs ++ [')']) := rfl
  unfold Balanced
  rw [hopen, scan_append, hinner]
  rfl

theorem scan_plain (hc : Plain c) :
    scan depth .bare (c :: cs) = scan depth .bare cs := by
  simp only [Plain, List.mem_cons, List.not_mem_nil, or_false, not_or] at hc
  obtain ⟨hopen, hclose, hsingle, hdouble⟩ := hc
  rw [scan_cons]
  simp [scanStep, hopen, hclose, hsingle, hdouble]

theorem balanced_of_plain (h : ∀ c ∈ cs, Plain c) : Balanced cs := by
  induction cs with
  | nil => exact balanced_nil
  | cons c cs ih =>
      obtain ⟨hc, hcs⟩ := List.forall_mem_cons.1 h
      unfold Balanced
      rw [scan_plain hc]
      exact ih hcs

/-- A balanced text in the outermost parentheses is cut out. -/
theorem Balanced.tuplesFrom (h : Balanced cs) (pos start : Nat)
    (body rest : List Char) :
    tuplesFrom pos 0 .bare start body ('(' :: (cs ++ ')' :: rest))
      = (tuplesFrom (pos + (byteLength cs + 2)) 0 .bare (pos + 1) [] rest).map
          (⟨pos + 1, cs⟩ :: ·) := by
  have hpos : pos + 1 + byteLength cs + 1 = pos + (byteLength cs + 2) := by
    omega
  rw [tuplesFrom_outer_open, tuplesFrom_scan h, tuplesFrom_outer_close, hpos,
    List.append_nil, List.reverse_reverse]

/-- A parenthesis that nothing closes goes on to the end of the text. -/
theorem tuplesFrom_unclosed (h : (scan 0 .bare cs).isSome) (pos start : Nat)
    (body : List Char) :
    tuplesFrom pos 0 .bare start body ('(' :: cs)
      = .error (.malformed (pos + (1 + byteLength cs)) .unterminated) := by
  obtain ⟨⟨depth, quoting⟩, hscan⟩ := Option.isSome_iff_exists.1 h
  have hend := tuplesFrom_scan hscan (pos + 1) (pos + 1) [] []
  rw [List.append_nil] at hend
  rw [tuplesFrom_outer_open, hend, Nat.add_assoc]
  rfl

-- ================================================================= rows

/-- A text that stands at a position is a row of tuples, with blanks and
commas before, between and after them. Each has the position behind its
opening parenthesis, and what stands in it is balanced. -/
inductive Row : Nat → List Char → List Tuple → Prop
  | nil {pos : Nat} : Row pos [] []
  | separator {pos : Nat} {c : Char} {text : List Char} {ts : List Tuple} :
      isSeparator c = true → Row (pos + c.utf8Size) text ts →
      Row pos (c :: text) ts
  | group {pos : Nat} {body text : List Char} {ts : List Tuple} :
      Balanced body → Row (pos + (byteLength body + 2)) text ts →
      Row pos ('(' :: (body ++ ')' :: text)) (⟨pos + 1, body⟩ :: ts)

namespace Row

theorem balanced (h : Row pos text ts) : Balanced text := by
  induction h with
  | nil => exact balanced_nil
  | @separator pos c text ts hc _ ih =>
      exact (balanced_of_plain (List.forall_mem_singleton.2
        (plain_of_isSeparator hc))).append ih
  | @group pos body text ts hbody _ ih =>
      have htext := hbody.group.append ih
      rwa [List.cons_append, List.append_assoc, List.singleton_append] at htext

theorem append (h : Row pos text ts)
    (h' : Row (pos + byteLength text) text' ts') :
    Row pos (text ++ text') (ts ++ ts') := by
  induction h with
  | nil => exact h'
  | separator hc _ ih =>
      rw [byteLength_cons, ← Nat.add_assoc] at h'
      exact .separator hc (ih h')
  | @group pos body text ts hbody _ ih =>
      have hpos : pos + byteLength ('(' :: (body ++ ')' :: text))
          = pos + (byteLength body + 2) + byteLength text := by
        rw [byteLength_group]
        omega
      rw [hpos] at h'
      have hgroup := group hbody (ih h')
      simpa using hgroup

theorem of_separators (h : Separators text) : Row pos text [] := by
  induction text generalizing pos with
  | nil => exact .nil
  | cons c cs ih =>
      obtain ⟨hc, hcs⟩ := List.forall_mem_cons.1 h
      exact .separator hc (ih hcs)

/-- Where a tuple of a row stands. -/
theorem exists_of_mem (h : Row pos text ts) (ht : t ∈ ts) :
    ∃ front back, text = front ++ '(' :: (t.body ++ ')' :: back)
      ∧ t.offset = pos + byteLength front + 1 ∧ Balanced t.body := by
  induction h with
  | nil => cases ht
  | @separator pos c text ts hc _ ih =>
      obtain ⟨front, back, rfl, hoffset, hbody⟩ := ih ht
      refine ⟨c :: front, back, rfl, ?_, hbody⟩
      rw [hoffset, byteLength_cons, Nat.add_assoc pos]
  | @group pos body text ts hbody _ ih =>
      rcases List.mem_cons.1 ht with rfl | ht
      · exact ⟨[], text, rfl, rfl, hbody⟩
      · obtain ⟨front, back, rfl, hoffset, hinner⟩ := ih ht
        refine ⟨'(' :: (body ++ ')' :: front), back, by simp, ?_, hinner⟩
        rw [hoffset, byteLength_group]
        omega

theorem balanced_of_mem (h : Row pos text ts) (ht : t ∈ ts) :
    Balanced t.body := by
  obtain ⟨front, back, -, -, hbody⟩ := h.exists_of_mem ht
  exact hbody

/-- A row of tuples is cut into them. -/
theorem tuplesFrom (h : Row pos text ts) (start : Nat) (body : List Char) :
    tuplesFrom pos 0 .bare start body text = .ok ts := by
  induction h generalizing start body with
  | nil => rfl
  | @separator pos c text ts hc _ ih =>
      have hplain := plain_of_isSeparator hc
      simp only [Plain, List.mem_cons, not_or] at hplain
      rw [tuplesFrom_outer hplain.1 hplain.2.1, if_pos hc, ih]
  | group hbody _ ih =>
      rw [hbody.tuplesFrom, ih]
      rfl

end Row

-- =============================================================== faults

/-- A character that may not stand outside of parentheses, behind a row of
tuples. -/
def Stray (pos : Nat) (text : List Char) (offset : Nat) (c : Char) : Prop :=
  ∃ front back ts, text = front ++ c :: back ∧ Row pos front ts
    ∧ c ≠ '(' ∧ c ≠ ')' ∧ isSeparator c = false
    ∧ offset = pos + byteLength front

/-- How the cut of a text that stands at a position can go wrong. -/
inductive CutFault (pos : Nat) (text : List Char) : LatticeError → Prop
  | unbalanced {front back : List Char} {ts : List Tuple} :
      text = front ++ ')' :: back → Row pos front ts →
      CutFault pos text (.malformed (pos + byteLength front) .unbalanced)
  | unexpected {offset : Nat} {c : Char} : Stray pos text offset c →
      CutFault pos text (.malformed offset (.unexpected c))
  | unterminated {front back : List Char} {ts : List Tuple} :
      text = front ++ '(' :: back → Row pos front ts →
      (scan 0 .bare back).isSome →
      CutFault pos text (.malformed (pos + byteLength text) .unterminated)

/-- What goes wrong behind a row of tuples. -/
theorem CutFault.behind (hrow : Row pos text ts)
    (h : CutFault (pos + byteLength text) text' e) :
    CutFault pos (text ++ text') e := by
  cases h with
  | @unbalanced front back _ htext hfront =>
      rw [Nat.add_assoc, ← byteLength_append]
      have hsplit : text ++ text' = text ++ front ++ ')' :: back := by
        rw [htext, List.append_assoc]
      exact .unbalanced hsplit (hrow.append hfront)
  | unexpected h =>
      obtain ⟨front, back, ts', htext, hfront, hopen, hclose, hseparator,
        rfl⟩ := h
      rw [Nat.add_assoc, ← byteLength_append]
      refine .unexpected ⟨_, back, _, ?_, hrow.append hfront, hopen, hclose,
        hseparator, rfl⟩
      rw [htext, List.append_assoc]
  | @unterminated front back _ htext hfront hscan =>
      rw [Nat.add_assoc, ← byteLength_append]
      have hsplit : text ++ text' = text ++ front ++ '(' :: back := by
        rw [htext, List.append_assoc]
      exact .unterminated hsplit (hrow.append hfront) hscan

/-- What goes wrong behind a tuple. -/
theorem CutFault.behind_group {inner rest : List Char}
    (hinner : Balanced inner)
    (h : CutFault (pos + (byteLength inner + 2)) rest e) :
    CutFault pos ('(' :: (inner ++ ')' :: rest)) e := by
  have hsplit : '(' :: (inner ++ ')' :: rest)
      = '(' :: (inner ++ [')']) ++ rest := by simp
  have hgroup : Row pos ('(' :: (inner ++ [')'])) [⟨pos + 1, inner⟩] :=
    .group hinner .nil
  rw [hsplit]
  refine .behind hgroup ?_
  rw [byteLength_group inner []]
  exact h

/-- In a balanced text, a cut can only go wrong at a character. -/
theorem CutFault.stray (htext : Balanced text) (h : CutFault pos text e) :
    ∃ offset c, e = .malformed offset (.unexpected c)
      ∧ Stray pos text offset c := by
  unfold Balanced at htext
  cases h with
  | unbalanced heq hfront =>
      have hrow : scan 0 .bare _ = some (0, .bare) := hfront.balanced
      rw [heq, scan_append, hrow] at htext
      cases htext
  | unexpected h => exact ⟨_, _, rfl, h⟩
  | @unterminated _ back _ heq hfront hscan =>
      -- the scan would end with the parenthesis open
      have hrow : scan 0 .bare _ = some (0, .bare) := hfront.balanced
      obtain ⟨⟨depth, quoting⟩, hback⟩ := Option.isSome_iff_exists.1 hscan
      have hopen : scan 0 .bare ('(' :: back) = some (depth + 1, quoting) :=
        scan_succ hback
      rw [heq, scan_append, hrow, Option.bind_some, hopen] at htext
      cases htext

/-- A text is cut into the tuples of which it is a row, or it goes wrong
behind a row of tuples. -/
theorem tuplesFrom_cases (pos start : Nat) (body text : List Char) :
    (∃ ts, tuplesFrom pos 0 .bare start body text = .ok ts ∧ Row pos text ts)
      ∨ ∃ e, tuplesFrom pos 0 .bare start body text = .error e
          ∧ CutFault pos text e := by
  induction hlength : text.length using Nat.strongRecOn
    generalizing pos start body text with
  | ind n ih =>
  match text with
  | [] => exact Or.inl ⟨[], rfl, .nil⟩
  | c :: cs =>
  by_cases hopen : c = '('
  · subst hopen
    cases hscan : scan 0 .bare cs with
    | some s =>
        have hclosed : (scan 0 .bare cs).isSome := by rw [hscan]; rfl
        refine Or.inr ⟨_, tuplesFrom_unclosed hclosed pos start body, ?_⟩
        exact .unterminated (List.nil_append _).symm .nil hclosed
    | none =>
        obtain ⟨inner, rest, rfl, hinner⟩ := exists_of_scan_eq_none hscan
        have hbody : Balanced inner := hinner
        have hless : rest.length < n := by
          rw [← hlength]
          simp
          omega
        rw [hbody.tuplesFrom]
        rcases ih _ hless (pos + (byteLength inner + 2)) (pos + 1) [] rest rfl
          with ⟨ts, hts, hrow⟩ | ⟨e, he, hfault⟩
        · exact Or.inl ⟨_, by rw [hts]; rfl, .group hbody hrow⟩
        · exact Or.inr ⟨e, by rw [he]; rfl, hfault.behind_group hbody⟩
  by_cases hclose : c = ')'
  · subst hclose
    exact Or.inr ⟨_, rfl, .unbalanced (List.nil_append _).symm .nil⟩
  rw [tuplesFrom_outer hopen hclose]
  by_cases hseparator : isSeparator c = true
  · rw [if_pos hseparator]
    have hless : cs.length < n := by
      rw [← hlength]
      simp
    rcases ih _ hless (pos + c.utf8Size) start [] cs rfl
      with ⟨ts, hts, hrow⟩ | ⟨e, he, hfault⟩
    · exact Or.inl ⟨ts, hts, .separator hseparator hrow⟩
    · exact Or.inr ⟨e, he,
        .behind (.separator hseparator .nil : Row pos [c] []) hfault⟩
  · rw [if_neg hseparator]
    exact Or.inr ⟨_, rfl, .unexpected ⟨[], cs, [], rfl, .nil, hopen, hclose,
      eq_false_of_ne_true hseparator, rfl⟩⟩

theorem tuples_cases (t : Tuple) :
    (∃ ts, tuples t = .ok ts ∧ Row t.offset t.body ts)
      ∨ ∃ e, tuples t = .error e ∧ CutFault t.offset t.body e :=
  tuplesFrom_cases ..

end LatticeText

end LatticeParsing
