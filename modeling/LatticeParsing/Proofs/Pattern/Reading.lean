/-
Reading a pattern in front of a closing parenthesis.

The reader makes the same steps on a text on its own and on the text with what
follows it, inside a further group (`carries_step?`, `readFrom?_closed`). At
the end of the shorter text the longer one goes on with the parenthesis, which
closes that group.
-/
import LatticeParsing.Proofs.Pattern.Brackets

namespace LatticeParsing.Pattern

variable {cs cs' rest rest' : List Char} {c : Char} {f : Flags}
  {s : ReaderState} {g : OpenGroup}

-- =============================================================== prefixes

/-- A sign without the parenthesis is found in both texts or in neither. -/
theorem rel_isPrefixOf? (sign : List Char) (hsign : ')' ∉ sign)
    (h : Closed cs cs') :
    Option.Rel Closed (sign.isPrefixOf? cs) (sign.isPrefixOf? cs') := by
  induction sign generalizing cs cs' with
  | nil =>
      rw [List.isPrefixOf?, List.isPrefixOf?]
      exact .some h
  | cons d sign ih =>
      rw [List.mem_cons, not_or] at hsign
      cases cs with
      | nil =>
          rcases h.nil_cases with rfl | rfl
          · have hnone : (d :: sign).isPrefixOf? closing = none :=
              if_neg fun heq => hsign.1 (beq_iff_eq.1 heq).symm
            rw [hnone]
            exact .none
          · exact .none
      | cons c rest =>
          obtain ⟨rest', rfl, hrest⟩ := h.exists_cons
          rw [List.isPrefixOf?, List.isPrefixOf?]
          split
          · exact ih hsign.2 hrest
          · exact .none

-- ================================================================= groups

theorem carries_groupName? (h : Closed cs cs') :
    Carries Alike (groupName? cs) (groupName? cs') := by
  unfold groupName?
  cases hdrop : cs.dropWhile (· != '>') with
  | nil => exact .of_none
  | cons c rest =>
      obtain ⟨hname, rest', hdrop', hrest⟩ := h.until hdrop
      rw [hdrop', hname]
      dsimp only
      split
      · exact .of_some ⟨rfl, hrest⟩
      · exact .of_none

theorem carries_readFlags? (h : Closed cs cs') (seen : List Char)
    (f : Flags) :
    Carries (fun x x' => x.1 = x'.1 ∧ x.2.1 = x'.2.1 ∧ Alike x.2.2 x'.2.2)
      (readFlags? seen f cs) (readFlags? seen f cs') := by
  induction cs generalizing cs' seen f with
  | nil => exact .of_none
  | cons c rest ih =>
      obtain ⟨rest', rfl, hrest⟩ := h.exists_cons
      unfold readFlags?
      split
      · split
        · exact .of_none
        · exact .of_some ⟨rfl, rfl, rfl, hrest⟩
      · split
        · exact .of_none
        · split
          · exact ih hrest (c :: seen) f
          · exact .bind_same fun f => ih hrest (c :: seen) f

theorem startsLookAround_eq (h : Closed cs cs') :
    startsLookAround cs' = startsLookAround cs := by
  have hsign : ∀ sign : List Char, ')' ∉ sign →
      (sign.isPrefixOf? cs').isSome = (sign.isPrefixOf? cs).isSome := by
    intro sign hmem
    have hrel := rel_isPrefixOf? sign hmem h
    generalize sign.isPrefixOf? cs = o, sign.isPrefixOf? cs' = o' at hrel ⊢
    cases hrel <;> rfl
  unfold startsLookAround
  simp only [List.any_cons, List.any_nil]
  rw [hsign _ (by decide), hsign _ (by decide), hsign _ (by decide),
    hsign _ (by decide)]

theorem rel_nameStart? (h : Closed cs cs') :
    Option.Rel Closed (nameStart? cs) (nameStart? cs') := by
  have hlong := rel_isPrefixOf? ['P', '<'] (by decide) h
  have hshort := rel_isPrefixOf? ['<'] (by decide) h
  unfold nameStart?
  generalize ['P', '<'].isPrefixOf? cs = o,
    ['P', '<'].isPrefixOf? cs' = o' at hlong ⊢
  cases hlong with
  | none => exact hshort
  | some h => exact .some h

-- ================================================================= states

/-- A state with a further group around all others. -/
def ReaderState.under (s : ReaderState) (g : OpenGroup) : ReaderState :=
  { s with outer := s.outer ++ [g] }

/-- Two readers at the same place, of which the second is inside a further
group. -/
def Beneath (g : OpenGroup) (x x' : ReaderState × List Char) : Prop :=
  x'.1 = x.1.under g ∧ Closed x.2 x'.2

theorem carries_openNamed? (h : Closed cs cs') (s : ReaderState) :
    Carries (Beneath g) (s.openNamed? cs) ((s.under g).openNamed? cs') := by
  refine (carries_groupName? h).bind ?_
  rintro ⟨name, r⟩ ⟨_, r'⟩ ⟨rfl, hr⟩
  have hnames : (s.under g).names = s.names := rfl
  dsimp only
  rw [hnames]
  split
  · exact .of_none
  · exact .of_some ⟨rfl, hr⟩

theorem carries_openFlags? (h : Closed cs cs') (s : ReaderState) :
    Carries (Beneath g) (s.openFlags? cs) ((s.under g).openFlags? cs') := by
  refine (carries_readFlags? h [] s.current.flags).bind ?_
  rintro ⟨inner, isBare, stop, r⟩ ⟨_, _, _, r'⟩ ⟨rfl, rfl, rfl, hr⟩
  dsimp only
  split
  · exact .of_some ⟨rfl, hr⟩
  · split
    · exact .of_none
    · exact .of_some ⟨rfl, hr⟩

theorem carries_parenthesis? (h : Closed cs cs') (s : ReaderState) :
    Carries (Beneath g) (s.parenthesis? cs)
      ((s.under g).parenthesis? cs') := by
  have hmark := alike_takeMark '?' (by decide) (h.skip s.current.flags)
  unfold ReaderState.parenthesis?
  dsimp only [ReaderState.under]
  generalize takeMark '?' (s.current.flags.skip cs) = x,
    takeMark '?' (s.current.flags.skip cs') = x' at hmark ⊢
  obtain ⟨marked, r⟩ := x
  obtain ⟨marked', r'⟩ := x'
  obtain ⟨rfl, hr⟩ : marked = marked' ∧ Closed r r' := hmark
  cases marked with
  | false => exact .of_some ⟨rfl, hr⟩
  | true =>
      dsimp only
      rw [startsLookAround_eq hr]
      split
      · exact .of_none
      · have hname := rel_nameStart? hr
        generalize nameStart? r = o, nameStart? r' = o' at hname ⊢
        cases hname with
        | none => exact carries_openFlags? hr s
        | some hr => exact carries_openNamed? hr s

theorem carries_closeGroup? (h : Closed rest rest') (s : ReaderState) :
    Carries (Beneath g) (s.closeGroup?.map fun s => (s, rest))
      ((s.under g).closeGroup?.map fun s => (s, rest')) := by
  unfold ReaderState.closeGroup? ReaderState.under
  cases s.outer with
  | nil => exact .of_none
  | cons o os => exact .of_some ⟨rfl, h⟩

-- ============================================================ repetitions

theorem carries_repeat? (h : Closed cs cs') (s : ReaderState) (min : Nat)
    (max : Option Nat) :
    Carries (Beneath g) (s.repeat? min max cs)
      ((s.under g).repeat? min max cs') := by
  obtain ⟨hmark, hrest⟩ := alike_takeMark '?' (by decide) h
  unfold ReaderState.repeat?
  dsimp only [ReaderState.under]
  cases s.current.parts with
  | nil => exact .of_none
  | cons p ps =>
      dsimp only
      split
      · exact .of_some ⟨by rw [hmark]; rfl, hrest⟩
      · exact .of_none

theorem carries_bound? (h : Closed cs cs') :
    Carries Alike (bound? f cs) (bound? f cs') := by
  have hdrop := h.dropWhile (p := Text.isBlank) (by decide)
  have hrun := alike_takeRun (f := f) Char.isDigit (by decide) hdrop
    (Nat.le_succ _) (Nat.le_succ _)
  unfold bound?
  dsimp only
  rw [← hrun.1]
  refine .bind_same fun n => ?_
  split
  · exact .of_some
      ⟨rfl, (hrun.2.dropWhile (p := Text.isBlank) (by decide)).skip f⟩
  · exact .of_none

theorem carries_upperBound? (h : Closed cs cs') :
    Carries Alike (upperBound? f cs) (upperBound? f cs') := by
  have hbrace := rel_isPrefixOf? ['\x7d'] (by decide) (h.skip f)
  unfold upperBound?
  generalize List.isPrefixOf? _ (f.skip cs) = o,
    List.isPrefixOf? _ (f.skip cs') = o' at hbrace ⊢
  cases hbrace with
  | some h => exact .of_some ⟨rfl, h⟩
  | none =>
      refine (carries_bound? (h.skip f)).bind ?_
      rintro ⟨max, r⟩ ⟨_, r'⟩ ⟨rfl, hr⟩
      refine (Carries.of_rel (rel_isPrefixOf? _ (by decide) hr)).bind ?_
      exact fun r r' hr => .of_some ⟨rfl, hr⟩

theorem carries_bounds? (h : Closed cs cs') :
    Carries (fun x x' => x.1 = x'.1 ∧ Alike x.2 x'.2)
      (bounds? f cs) (bounds? f cs') := by
  refine (carries_bound? (h.skip f)).bind ?_
  rintro ⟨min, r⟩ ⟨_, r'⟩ ⟨rfl, hr⟩
  have hbrace := rel_isPrefixOf? ['\x7d'] (by decide) hr
  dsimp only at hbrace ⊢
  generalize ['\x7d'].isPrefixOf? r = o,
    ['\x7d'].isPrefixOf? r' = o' at hbrace ⊢
  cases hbrace with
  | some h => exact .of_some ⟨rfl, rfl, h⟩
  | none =>
      refine (Carries.of_rel (rel_isPrefixOf? _ (by decide) hr)).bind ?_
      refine fun r r' hr => (carries_upperBound? hr).bind ?_
      rintro ⟨max, r⟩ ⟨_, r'⟩ ⟨rfl, hr⟩
      dsimp only
      split
      · exact .of_some ⟨rfl, rfl, hr⟩
      · exact .of_none

-- ================================================================ reading

/-- A step on the longer text is the step on the shorter one, and leads to a
state with the same further group around it. -/
theorem carries_step? (h : Closed rest rest') (s : ReaderState) (c : Char) :
    Carries (Beneath g) (s.step? c rest) ((s.under g).step? c rest') := by
  unfold ReaderState.step?
  dsimp only [ReaderState.under]
  split
  case h_1 => exact carries_parenthesis? h s
  case h_2 => exact carries_closeGroup? h s
  case h_3 => exact .of_some ⟨rfl, h⟩
  case h_4 =>
    refine (carries_bracket? h).bind ?_
    rintro ⟨m, r⟩ ⟨_, r'⟩ ⟨rfl, hr⟩
    exact .of_some ⟨rfl, hr⟩
  case h_5 => exact carries_repeat? h s 0 (some 1)
  case h_6 => exact carries_repeat? h s 0 none
  case h_7 => exact carries_repeat? h s 1 none
  case h_8 =>
    refine (carries_bounds? h).bind ?_
    rintro ⟨min, max, r⟩ ⟨_, _, r'⟩ ⟨rfl, rfl, hr⟩
    exact carries_repeat? (hr.skip _) s min max
  case h_9 =>
    refine (carries_escape? h).bind ?_
    rintro ⟨a, r⟩ ⟨_, r'⟩ ⟨rfl, hr⟩
    exact .bind_same fun p => .of_some ⟨rfl, hr⟩
  case h_10 => exact .bind_same fun _ => .of_some ⟨rfl, h⟩
  case h_11 => exact .of_some ⟨rfl, h⟩
  case h_12 => exact .of_some ⟨rfl, h⟩
  case h_13 => exact .bind_same fun _ => .of_some ⟨rfl, h⟩

theorem readFrom?_nil {fuel : Nat} {p : Pattern}
    (hskip : s.current.flags.skip cs = [])
    (h : readFrom? fuel s cs = some p) : s.finish? = some p := by
  cases fuel with
  | zero => cases h
  | succ fuel =>
      unfold readFrom? at h
      rw [hskip] at h
      exact h

theorem readFrom?_cons {fuel : Nat} {p : Pattern}
    (hskip : s.current.flags.skip cs = c :: rest)
    (h : readFrom? fuel s cs = some p) :
    ∃ n x, fuel = n + 1 ∧ s.step? c rest = some x
      ∧ readFrom? n x.1 x.2 = some p := by
  cases fuel with
  | zero => cases h
  | succ n =>
      unfold readFrom? at h
      rw [hskip] at h
      obtain ⟨x, hx, h⟩ := Option.bind_eq_some_iff.1 h
      exact ⟨n, x, rfl, hx, h⟩

theorem finish?_eq_some {p : Pattern} (h : s.finish? = some p) :
    s.outer = [] ∧ p = s.current.inside.pattern := by
  unfold ReaderState.finish? at h
  split at h
  case h_1 => cases h
  case h_2 houter =>
    dsimp only at h
    split at h
    · exact ⟨houter, (Option.some.inj h).symm⟩
    · cases h

/-- At the parenthesis the group that is around all others closes. -/
theorem step?_closing (houter : s.outer = []) :
    (s.under g).step? ')' ['$']
      = some ({ s with current := g.add s.current.close }, ['$']) := by
  obtain ⟨current, outer, groups, names⟩ := s
  obtain rfl : outer = [] := houter
  rfl

/-- Where a text is read as a pattern on its own, and with what follows it
inside a group as well, the reader of the longer text closes the group with
the pattern inside that the shorter text gives. -/
theorem readFrom?_closed {fuel fuel' : Nat} {p q : Pattern}
    (hcs : Closed cs cs') (h : readFrom? fuel s cs = some p)
    (h' : readFrom? fuel' (s.under g) cs' = some q) :
    ∃ (t : ReaderState) (n : Nat), t.outer = []
      ∧ t.current.inside.pattern = p
      ∧ readFrom? n { t with current := g.add t.current.close } ['$']
        = some q := by
  induction fuel generalizing s cs cs' fuel' with
  | zero => cases h
  | succ fuel ih =>
      have hskip := hcs.skip s.current.flags
      cases hshort : s.current.flags.skip cs with
      | nil =>
          obtain ⟨houter, hp⟩ := finish?_eq_some (readFrom?_nil hshort h)
          rw [hshort] at hskip
          rcases hskip.nil_cases with hlong | hlong
          · obtain ⟨n, x, -, hx, h'⟩ := readFrom?_cons (s := s.under g) hlong h'
            rw [step?_closing houter] at hx
            obtain rfl := Option.some.inj hx
            exact ⟨s, n, houter, hp.symm, h'⟩
          · -- the parenthesis is lost in a comment, and the group stays open
            obtain ⟨hopen, -⟩ :=
              finish?_eq_some (readFrom?_nil (s := s.under g) hlong h')
            exact absurd hopen (List.append_ne_nil_of_right_ne_nil _ (by simp))
      | cons c rest =>
          rw [hshort] at hskip
          obtain ⟨rest', hlong, hrest⟩ := hskip.exists_cons
          obtain ⟨n, x, hn, hx, h⟩ := readFrom?_cons hshort h
          obtain rfl : fuel = n := Nat.succ.inj hn
          obtain ⟨n', y, -, hy, h'⟩ := readFrom?_cons (s := s.under g) hlong h'
          obtain ⟨z, hz, hunder, hclosed⟩ := carries_step? hrest s c x hx
          obtain rfl : z = y := Option.some.inj (hz.symm.trans hy)
          rw [hunder] at h'
          exact ih hclosed h h'

end LatticeParsing.Pattern
