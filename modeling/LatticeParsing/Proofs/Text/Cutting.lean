/-
Texts cut into parts.

Text is cut into words at blanks, into fields at every three bars and into
lines at line feeds. What comes of a cut is free of what the cut is made at
(`mem_words`, `barFree_of_mem_splitBars`), and where parts are free of it,
joining them is undone by cutting again (`words_joined`,
`splitBars_append_bars`, `lines_joined`).
-/
import LatticeParsing.Rule.Text
import Mathlib.Data.List.Infix
import Mathlib.Data.List.TakeWhile

namespace LatticeParsing.Text

variable {c : Char} {cs xs ys w : List Char}

-- ================================================================ words

/-- Whether no blank stands in a text. -/
def BlankFree (cs : List Char) : Prop := ∀ c ∈ cs, isBlank c = false

/-- The parts of a text that is cut at some characters are free of these and
stand in it, and the first one stands at its start. -/
theorem splitOnP_parts (p : Char → Bool) (cs : List Char) :
    ∃ part parts, cs.splitOnP p = part :: parts ∧ part <+: cs
      ∧ ∀ q ∈ part :: parts, q <:+: cs ∧ ∀ c ∈ q, p c = false := by
  induction cs with
  | nil =>
      refine ⟨[], [], List.splitOnP_nil, List.prefix_refl [], ?_⟩
      simp
  | cons c cs ih =>
      obtain ⟨part, parts, hsplit, hprefix, hparts⟩ := ih
      obtain ⟨hpart, hrest⟩ := List.forall_mem_cons.1 hparts
      have hrest : ∀ q ∈ parts, q <:+: c :: cs ∧ ∀ c ∈ q, p c = false := by
        intro q hq
        obtain ⟨hwithin, hfree⟩ := hrest q hq
        exact ⟨hwithin.trans (List.suffix_cons c cs).isInfix, hfree⟩
      rw [List.splitOnP_cons_eq_if_modifyHead, hsplit]
      by_cases hc : p c = true
      · rw [if_pos hc]
        have hpart : part <:+: c :: cs ∧ ∀ c ∈ part, p c = false :=
          ⟨hpart.1.trans (List.suffix_cons c cs).isInfix, hpart.2⟩
        refine ⟨[], part :: parts, rfl, List.nil_prefix, ?_⟩
        rw [List.forall_mem_cons, List.forall_mem_cons]
        exact ⟨⟨List.nil_prefix.isInfix, by simp⟩, hpart, hrest⟩
      · rw [if_neg hc]
        have hhead : c :: part <+: c :: cs := (List.cons_prefix_cons).2
          ⟨rfl, hprefix⟩
        refine ⟨c :: part, parts, rfl, hhead,
          List.forall_mem_cons.2 ⟨⟨hhead.isInfix, ?_⟩, hrest⟩⟩
        exact List.forall_mem_cons.2 ⟨Bool.eq_false_iff.2 hc, hpart.2⟩

/-- Words stand in the text, are not empty and hold no blank. -/
theorem mem_words (h : w ∈ words cs) : w ≠ [] ∧ BlankFree w ∧ w <:+: cs := by
  obtain ⟨hw, hne⟩ := List.mem_filter.1 h
  obtain ⟨part, parts, hsplit, -, hparts⟩ := splitOnP_parts isBlank cs
  rw [hsplit] at hw
  obtain ⟨hwithin, hfree⟩ := hparts w hw
  refine ⟨?_, hfree, hwithin⟩
  intro hnil
  rw [hnil] at hne
  cases hne

/-- A blank parts the words before it from those behind. -/
theorem words_append_blank (hc : isBlank c = true) (xs ys : List Char) :
    words (xs ++ c :: ys) = words xs ++ words ys := by
  unfold words
  rw [List.splitOnP_append_cons xs ys hc, List.filter_append]

theorem words_cons_blank (hc : isBlank c = true) (cs : List Char) :
    words (c :: cs) = words cs :=
  words_append_blank hc [] cs

theorem words_of_blankFree (hw : BlankFree w) (hne : w ≠ []) :
    words w = [w] := by
  unfold words
  rw [List.splitOnP_eq_singleton hw]
  exact List.filter_cons_of_pos (by simp [hne])

/-- Words that are joined by blanks are found again. -/
theorem words_joined {ws : List (List Char)}
    (h : ∀ w ∈ ws, w ≠ [] ∧ BlankFree w) :
    words ([' '].intercalate ws) = ws := by
  induction ws with
  | nil => rfl
  | cons w ws ih =>
      obtain ⟨⟨hne, hw⟩, hws⟩ := List.forall_mem_cons.1 h
      cases ws with
      | nil =>
          rw [List.intercalate_singleton]
          exact words_of_blankFree hw hne
      | cons u ws =>
          rw [List.intercalate_cons_cons, List.append_assoc,
            List.singleton_append, words_append_blank rfl, ih hws,
            words_of_blankFree hw hne]
          rfl

/-- Joined words have the characters of the words, and spaces. -/
theorem mem_joined {ws : List (List Char)}
    (h : c ∈ [' '].intercalate ws) : c = ' ' ∨ ∃ w ∈ ws, c ∈ w := by
  induction ws with
  | nil => cases h
  | cons w ws ih =>
      cases ws with
      | nil =>
          rw [List.intercalate_singleton] at h
          exact Or.inr ⟨w, List.mem_cons_self .., h⟩
      | cons u ws =>
          rw [List.intercalate_cons_cons, List.append_assoc,
            List.singleton_append] at h
          rcases List.mem_append.1 h with hw | hrest
          · exact Or.inr ⟨w, List.mem_cons_self .., hw⟩
          rcases List.mem_cons.1 hrest with hspace | hrest
          · exact Or.inl hspace
          rcases ih hrest with hspace | hws
          · exact Or.inl hspace
          · obtain ⟨x, hx, hc⟩ := hws
            exact Or.inr ⟨x, List.mem_cons_of_mem _ hx, hc⟩

-- ================================================================= ends

/-- A text is what trimming leaves of it, between blanks. -/
theorem trim_cut (cs : List Char) :
    ∃ as bs, cs = as ++ trim cs ++ bs ∧ (∀ c ∈ as, isBlank c = true)
      ∧ ∀ c ∈ bs, isBlank c = true := by
  have hfront := List.takeWhile_append_dropWhile (p := isBlank) (l := cs)
  have hback := congrArg List.reverse (List.takeWhile_append_dropWhile
    (p := isBlank) (l := (cs.dropWhile isBlank).reverse))
  rw [List.reverse_append, List.reverse_reverse] at hback
  refine ⟨cs.takeWhile isBlank,
    ((cs.dropWhile isBlank).reverse.takeWhile isBlank).reverse, ?_,
    fun c hc => List.mem_takeWhile_imp hc,
    fun c hc => List.mem_takeWhile_imp (List.mem_reverse.1 hc)⟩
  rw [List.append_assoc]
  exact (hfront.symm).trans (congrArg _ hback.symm)

theorem trim_within (cs : List Char) : trim cs <:+: cs := by
  obtain ⟨as, bs, h, -⟩ := trim_cut cs
  exact ⟨as, bs, h.symm⟩

/-- Trimming takes nothing from a text that starts with no blank but at its
end. -/
theorem trim_cons (hc : isBlank c = false) (cs : List Char) :
    ∃ rest, trim (c :: cs) = c :: rest := by
  obtain ⟨as, bs, h, has, hbs⟩ := trim_cut (c :: cs)
  cases as with
  | cons a as =>
      injection h with h _
      rw [h, has a (List.mem_cons_self ..)] at hc
      cases hc
  | nil =>
      rw [List.nil_append] at h
      cases htrim : trim (c :: cs) with
      | cons d rest =>
          rw [htrim] at h
          injection h with h _
          exact ⟨rest, by rw [h]⟩
      | nil =>
          rw [htrim, List.nil_append] at h
          rw [hbs c (h ▸ List.mem_cons_self ..)] at hc
          cases hc

theorem dropWhile_of_blankFree (hw : BlankFree w) :
    w.dropWhile isBlank = w := by
  cases w with
  | nil => rfl
  | cons c w =>
      rw [List.dropWhile_cons_of_neg]
      simp [hw c (List.mem_cons_self ..)]

/-- A word is what trimming leaves of it and a blank. -/
theorem trim_append_blank (hw : BlankFree w) (hne : w ≠ [])
    (hc : isBlank c = true) : trim (w ++ [c]) = w := by
  have hfront : (w ++ [c]).dropWhile isBlank = w ++ [c] := by
    cases w with
    | nil => exact absurd rfl hne
    | cons d w =>
        rw [List.cons_append, List.dropWhile_cons_of_neg]
        simp [hw d (List.mem_cons_self ..)]
  have hback : BlankFree w.reverse := fun d hd => hw d (List.mem_reverse.1 hd)
  unfold trim
  rw [hfront, List.reverse_append, List.reverse_singleton,
    List.singleton_append, List.dropWhile_cons_of_pos hc,
    dropWhile_of_blankFree hback, List.reverse_reverse]

theorem words_blanks_append (h : ∀ c ∈ xs, isBlank c = true)
    (ys : List Char) : words (xs ++ ys) = words ys := by
  induction xs with
  | nil => rfl
  | cons c xs ih =>
      obtain ⟨hc, hxs⟩ := List.forall_mem_cons.1 h
      rw [List.cons_append, words_cons_blank hc, ih hxs]

theorem words_append_blanks (h : ∀ c ∈ ys, isBlank c = true)
    (xs : List Char) : words (xs ++ ys) = words xs := by
  cases ys with
  | nil => rw [List.append_nil]
  | cons c ys =>
      obtain ⟨hc, hys⟩ := List.forall_mem_cons.1 h
      have hnone : words ys = [] := by
        rw [← List.append_nil ys]
        exact words_blanks_append hys []
      rw [words_append_blank hc, hnone, List.append_nil]

/-- Trimming leaves the words of a text. -/
theorem words_trim (cs : List Char) : words (trim cs) = words cs := by
  obtain ⟨as, bs, h, has, hbs⟩ := trim_cut cs
  calc words (trim cs) = words (as ++ trim cs) :=
        (words_blanks_append has _).symm
    _ = words (as ++ trim cs ++ bs) := (words_append_blanks hbs _).symm
    _ = words cs := congrArg words h.symm

-- ================================================================= bars

/-- Whether three bars never stand in a row. -/
def BarFree (cs : List Char) : Prop := ¬ ['|', '|', '|'] <:+: cs

theorem BarFree.within (h : BarFree cs) (hwithin : w <:+: cs) : BarFree w :=
  fun hbars => h (hbars.trans hwithin)

theorem barFree_nil : BarFree [] := by
  intro h
  cases List.infix_nil.1 h

/-- A text that lies across a character lies on one side of it, unless it
holds that. -/
theorem infix_append_cons {sep : List Char} (hc : c ∉ sep) :
    sep <:+: xs ++ c :: ys → sep <:+: xs ∨ sep <:+: ys := by
  induction xs with
  | nil =>
      intro h
      rcases List.infix_cons_iff.1 h with hprefix | hwithin
      · cases sep with
        | nil => exact Or.inl List.nil_prefix.isInfix
        | cons d sep =>
            obtain ⟨rfl, -⟩ := List.cons_prefix_cons.1 hprefix
            exact absurd (List.mem_cons_self ..) hc
      · exact Or.inr hwithin
  | cons d xs ih =>
      intro h
      rcases List.infix_cons_iff.1 h with hprefix | hwithin
      -- what starts here ends before `c`, or else it holds `c`
      · left
        have hwhole : d :: xs ++ [c] <+: d :: (xs ++ c :: ys) :=
          ⟨ys, by simp⟩
        rcases List.prefix_or_prefix_of_prefix hprefix hwhole with hsep | hsep
        · rcases List.prefix_concat_iff.1 hsep with rfl | hsep
          · simp at hc
          · exact hsep.isInfix
        · exact absurd (hsep.subset (by simp)) hc
      · rcases ih hwithin with hleft | hright
        · exact Or.inl (hleft.trans (List.suffix_cons d xs).isInfix)
        · exact Or.inr hright

/-- No bars come about where another character stands between. -/
theorem BarFree.append_cons (hxs : BarFree xs) (hc : c ≠ '|')
    (hys : BarFree ys) : BarFree (xs ++ c :: ys) := by
  intro h
  rcases infix_append_cons (by simp [hc]) h with h | h
  · exact hxs h
  · exact hys h

theorem barFree_joined {ws : List (List Char)} (h : ∀ w ∈ ws, BarFree w) :
    BarFree ([' '].intercalate ws) := by
  induction ws with
  | nil => exact barFree_nil
  | cons w ws ih =>
      obtain ⟨hw, hws⟩ := List.forall_mem_cons.1 h
      cases ws with
      | nil => rwa [List.intercalate_singleton]
      | cons u ws =>
          rw [List.intercalate_cons_cons, List.append_assoc,
            List.singleton_append]
          exact hw.append_cons (by decide) (ih hws)

/-- Where a text does not start with three bars, its first character belongs
to the first part. -/
theorem splitBars_cons (h : ¬ ['|', '|', '|'] <+: c :: cs) :
    splitBars (c :: cs) = consFirst c (splitBars cs) := by
  rw [splitBars]
  intro rest hc hcs
  apply h
  rw [hc, hcs]
  exact ⟨rest, rfl⟩

/-- The parts between bars are free of them, and the first one stands at the
start. -/
theorem splitBars_parts (cs : List Char) :
    ∃ part parts, splitBars cs = part :: parts ∧ part <+: cs
      ∧ ∀ q ∈ part :: parts, BarFree q := by
  fun_induction splitBars cs with
  | case1 =>
      refine ⟨[], [], rfl, List.prefix_refl [], ?_⟩
      exact List.forall_mem_singleton.2 barFree_nil
  | case2 rest ih =>
      obtain ⟨part, parts, hsplit, -, hparts⟩ := ih
      refine ⟨[], splitBars rest, rfl, List.nil_prefix, ?_⟩
      rw [hsplit]
      exact List.forall_mem_cons.2 ⟨barFree_nil, hparts⟩
  | case3 c rest hbars ih =>
      obtain ⟨part, parts, hsplit, hprefix, hparts⟩ := ih
      obtain ⟨hpart, hparts⟩ := List.forall_mem_cons.1 hparts
      have hhead : c :: part <+: c :: rest :=
        List.cons_prefix_cons.2 ⟨rfl, hprefix⟩
      refine ⟨c :: part, parts, by rw [hsplit]; rfl, hhead,
        List.forall_mem_cons.2 ⟨fun h => ?_, hparts⟩⟩
      -- new bars could only start with `c`, and then so would the text
      rcases List.infix_cons_iff.1 h with hstart | hwithin
      · obtain ⟨after, h⟩ := hstart.trans hhead
        injection h with hc hrest
        exact hbars after hc.symm hrest.symm
      · exact hpart hwithin

theorem barFree_of_mem_splitBars (h : w ∈ splitBars cs) : BarFree w := by
  obtain ⟨part, parts, hsplit, -, hparts⟩ := splitBars_parts cs
  rw [hsplit] at h
  exact hparts w h

theorem splitBars_of_barFree (h : BarFree cs) : splitBars cs = [cs] := by
  induction cs with
  | nil => rfl
  | cons c cs ih =>
      rw [splitBars_cons fun hprefix => h hprefix.isInfix,
        ih (h.within (List.suffix_cons c cs).isInfix)]
      rfl

/-- A text is cut at the first three bars. -/
theorem splitBars_append_bars (h : BarFree (xs ++ ['|', '|']))
    (ys : List Char) :
    splitBars (xs ++ '|' :: '|' :: '|' :: ys) = xs :: splitBars ys := by
  induction xs with
  | nil => rfl
  | cons c xs ih =>
      -- bars at the start would end before those at which the text is cut
      have hstart : ¬ ['|', '|', '|'] <+:
          c :: (xs ++ '|' :: '|' :: '|' :: ys) := by
        intro hprefix
        have hwhole : c :: xs ++ ['|', '|']
            <+: c :: (xs ++ '|' :: '|' :: '|' :: ys) := ⟨'|' :: ys, by simp⟩
        apply h
        exact (List.prefix_of_prefix_length_le hprefix hwhole
          (by simp)).isInfix
      rw [List.cons_append, splitBars_cons hstart,
        ih (h.within (List.suffix_cons c _).isInfix)]
      rfl

/-- Bars between blanks cut a text behind what has none. -/
theorem splitBars_append_field (h : BarFree xs) (ys : List Char) :
    splitBars (xs ++ " ||| ".toList ++ ys)
      = (xs ++ [' ']) :: splitBars (' ' :: ys) := by
  have htwo : BarFree ['|', '|'] := fun hbars => by
    simpa using hbars.length_le
  have hfree : BarFree (xs ++ [' '] ++ ['|', '|']) := by
    rw [List.append_assoc, List.singleton_append]
    exact h.append_cons (by decide) htwo
  have hcut := splitBars_append_bars hfree (' ' :: ys)
  simpa using hcut

-- ================================================================ lines

/-- Lines that are joined by line feeds are found again, if none is empty and
none ends with a return. -/
theorem lines_joined {ls : List (List Char)}
    (h : ∀ l ∈ ls, l ≠ [] ∧ '\n' ∉ l ∧ '\r' ∉ l) :
    lines (['\n'].intercalate ls) = ls := by
  cases ls with
  | nil => rfl
  | cons l ls =>
      have hsplit := List.splitOn_intercalate '\n'
        (fun l hl => (h l hl).2.1) (List.cons_ne_nil l ls)
      rw [List.splitOn_eq_splitOnP] at hsplit
      have hreturn : ∀ l' ∈ (l :: ls).dropLast, dropFinalReturn l' = l' := by
        intro l' hl'
        have hr := (h l' (List.mem_of_mem_dropLast hl')).2.2
        unfold dropFinalReturn
        rw [if_neg fun hlast => hr (List.mem_of_getLast? hlast)]
      have hlast := h _ (List.getLast_mem (List.cons_ne_nil l ls))
      unfold lines
      simp only [hsplit, List.getLast?_eq_getLast_of_ne_nil
        (List.cons_ne_nil l ls), Option.getD_some]
      rw [List.map_congr_left hreturn, List.map_id',
        if_neg (by simpa using hlast.1)]
      exact List.dropLast_append_getLast (List.cons_ne_nil l ls)

end LatticeParsing.Text
