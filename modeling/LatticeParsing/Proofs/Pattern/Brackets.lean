/-
Reading bracket expressions in front of a closing parenthesis.

A bracket expression that ends before the text does is read alike in the
longer text. What makes this more than a walk along the reader are the places
where it looks ahead: the name of a class, which runs to a colon, and the sign
behind a hyphen, which is looked for past blanks. Neither is found behind the
end of the shorter text (`Closed.until_nil`, `peek_eq_some_iff`).
-/
import LatticeParsing.Proofs.Pattern.Enclosed
import Mathlib.Data.List.TakeWhile

namespace LatticeParsing.Pattern

variable {cs cs' rest rest' : List Char} {c : Char} {f : Flags}
  {b : OpenBracket}

-- =============================================================== opening

theorem carries_bracketMember? (h : Closed cs cs') (b : OpenBracket) :
    Carries Alike (bracketMember? f b cs) (bracketMember? f b cs') := by
  unfold bracketMember?
  generalize b.members = ms
  split
  case h_1 => exact .of_none
  case h_2 rest =>
    obtain ⟨rest', rfl, hrest⟩ := h.exists_cons
    have hskip := hrest.skip f
    conv => arg 3; whnf
    generalize f.skip rest = t, f.skip rest' = t' at hskip ⊢
    cases t with
    | nil => exact .of_none
    | cons c more =>
        obtain ⟨more', rfl, hmore⟩ := hskip.exists_cons
        exact .of_some ⟨rfl, hmore.cons c⟩
  case h_3 hnil hbracket =>
    split
    case h_1 => exact absurd h.eq_nil hnil
    case h_2 rest' =>
      obtain ⟨rest, rfl, -⟩ := h.exists_cons_of_ne (by decide)
      exact absurd rfl (hbracket rest rfl)
    case h_3 => exact .of_some ⟨rfl, h⟩

theorem carries_openBracket? (h : Closed cs cs') :
    Carries Alike (openBracket? f cs) (openBracket? f cs') := by
  obtain ⟨hcaret, hrest⟩ := alike_takeMark '^' (by decide) (h.skip f)
  have hhyphens := alike_takeRun (f := f) (· == '-') (by decide)
    (hrest.skip f) (Nat.le_succ _) (Nat.le_succ _)
  unfold openBracket?
  dsimp only
  rw [← hcaret, ← hhyphens.1]
  exact carries_bracketMember? hhyphens.2 _

-- ================================================================ names

/-- A name up to a sign that is not part of what follows is the same in the
longer text. -/
theorem Closed.until (h : Closed cs cs') {stop : Char}
    (hcs : cs.dropWhile (· != stop) = c :: rest) :
    cs'.takeWhile (· != stop) = cs.takeWhile (· != stop)
      ∧ ∃ rest', cs'.dropWhile (· != stop) = c :: rest'
        ∧ Closed rest rest' := by
  rcases h with rfl | rfl
  · have hlen : (cs.takeWhile (· != stop)).length ≠ cs.length := by
      intro hlen
      have hsplit := congrArg List.length
        (List.takeWhile_append_dropWhile (p := (· != stop)) (l := cs))
      rw [List.length_append, hcs, List.length_cons] at hsplit
      omega
    rw [List.takeWhile_append, if_neg hlen, List.dropWhile_append, hcs]
    exact ⟨rfl, rest ++ closing, rfl, Or.inl rfl⟩
  · exact ⟨rfl, rest, hcs, Or.inr rfl⟩

/-- The sign is not found behind the end of the shorter text. -/
theorem Closed.until_nil (h : Closed cs cs') {stop : Char}
    (hstop : stop ∉ closing) (hcs : cs.dropWhile (· != stop) = []) :
    cs'.dropWhile (· != stop) = [] := by
  rcases h with rfl | rfl
  · rw [List.dropWhile_append, hcs]
    refine List.dropWhile_eq_nil_iff.2 fun d hd => ?_
    exact bne_iff_ne.2 fun heq => hstop (heq ▸ hd)
  · exact hcs

/-- The name of a class is found in both texts or in neither. -/
theorem rel_asciiName? (h : Closed cs cs') :
    Option.Rel Alike (asciiName? cs) (asciiName? cs') := by
  unfold asciiName?
  cases hdrop : cs.dropWhile (· != ':') with
  | nil =>
      rw [h.until_nil (by decide) hdrop]
      exact .none
  | cons c rest =>
      obtain ⟨hname, rest', hdrop', hrest⟩ := h.until hdrop
      rw [hdrop', hname]
      generalize CharSet.asciiClass? _ = o
      split
      case h_1 more heq =>
        obtain ⟨rfl, rfl⟩ := List.cons.inj heq
        obtain ⟨more', rfl, hmore⟩ := hrest.exists_cons
        cases o with
        | none => exact .none
        | some s => exact .some ⟨rfl, hmore⟩
      case h_2 hne =>
        split
        case h_1 more heq =>
          obtain ⟨rfl, rfl⟩ := List.cons.inj heq
          obtain ⟨more, rfl, -⟩ := hrest.exists_cons_of_ne (by decide)
          exact absurd rfl (hne more)
        case h_2 => exact .none

theorem namedClass?_of_ne (hc : c ≠ ':') (rest : List Char) :
    namedClass? (c :: rest) = none := by
  unfold namedClass?
  split
  case h_1 heq =>
    injection heq with hcolon
    exact absurd hcolon hc
  case h_2 => rfl

theorem namedClass?_colon (rest : List Char) :
    namedClass? (':' :: rest) = (asciiName? (takeMark '^' rest).2).map
      fun x => ((takeMark '^' rest).1, x.1, x.2) := rfl

/-- A class is named in both texts, and it is the same one, or in neither. -/
theorem rel_namedClass? (h : Closed cs cs') :
    Option.Rel (fun x x' => x.1 = x'.1 ∧ Alike x.2 x'.2)
      (namedClass? cs) (namedClass? cs') := by
  cases cs with
  | nil => rcases h.nil_cases with rfl | rfl <;> exact .none
  | cons c rest =>
      obtain ⟨rest', rfl, hrest⟩ := h.exists_cons
      by_cases hc : c = ':'
      · subst hc
        obtain ⟨hsign, hname⟩ := alike_takeMark '^' (by decide) hrest
        have hrel := rel_asciiName? hname
        rw [namedClass?_colon, namedClass?_colon, ← hsign]
        generalize asciiName? (takeMark '^' rest).2 = o,
          asciiName? (takeMark '^' rest').2 = o' at hrel ⊢
        cases hrel with
        | none => exact .none
        | some hs => exact .some ⟨rfl, hs⟩
      · rw [namedClass?_of_ne hc, namedClass?_of_ne hc]
        exact .none

-- ============================================================= members

theorem carries_bracketAtom? (h : Closed cs cs') :
    Carries Alike (bracketAtom? f cs) (bracketAtom? f cs') := by
  cases cs with
  | nil => exact .of_none
  | cons c rest =>
      obtain ⟨rest', rfl, hrest⟩ := h.exists_cons
      by_cases hc : c = '\\'
      · subst hc
        exact carries_escape? hrest
      · have hatom : ∀ r,
            bracketAtom? f (c :: r) = some (.char c false, r) := by
          intro r
          unfold bracketAtom?
          split
          case h_1 heq => cases heq
          case h_2 heq =>
            injection heq with hback
            exact absurd hback hc
          case h_3 heq =>
            injection heq with hc hr
            rw [hc, hr]
        rw [hatom, hatom]
        exact .of_some ⟨rfl, hrest⟩

theorem peekFrom_closing (inComment : Bool) (cs : List Char) :
    Flags.peekFrom inComment (cs ++ closing)
      = (Flags.peekFrom inComment cs).or (some ')') := by
  induction cs generalizing inComment with
  | nil => cases inComment <;> rfl
  | cons c cs ih =>
      rw [List.cons_append]
      unfold Flags.peekFrom
      split
      · exact ih inComment
      · split
        · exact ih true
        · rfl

theorem peekFrom_of_ne {inComment : Bool} (hblank : Text.isBlank c = false)
    (hsign : c ≠ '#') (rest : List Char) :
    Flags.peekFrom inComment (c :: rest) = some c := by
  unfold Flags.peekFrom
  rw [if_neg (by rw [hblank]; decide), if_neg]
  rw [Bool.and_eq_true, beq_iff_eq]
  exact fun h => hsign h.2

/-- A hyphen finds the same sign in both texts. What it finds behind the end
of the shorter text, and what it finds where only ignored text follows, is no
such sign. -/
theorem peek_eq_some_iff (h : Closed cs cs')
    (hblank : Text.isBlank c = false) (hsign : c ≠ '#') (hc : c ≠ ')') :
    f.peek cs' = some c ↔ f.peek cs = some c := by
  rcases h with rfl | rfl
  case inr => rfl
  unfold Flags.peek
  split
  case isFalse =>
    cases cs with
    | nil => exact ⟨fun h => absurd (Option.some.inj h).symm hc, nofun⟩
    | cons d rest => rfl
  case isTrue =>
    rw [peekFrom_closing]
    cases hpeek : Flags.peekFrom false cs with
    | some d => rfl
    | none =>
        constructor
        · exact fun h => absurd (Option.some.inj h).symm hc
        · intro hhead
          obtain ⟨rest, rfl⟩ := List.head?_eq_some_iff.1 hhead
          rw [peekFrom_of_ne hblank hsign] at hpeek
          cases hpeek

theorem carries_rangeTo? (h : Closed cs cs') (first : Atom) :
    Carries Alike (rangeTo? f first cs) (rangeTo? f first cs') := by
  refine (carries_bracketAtom? (h.skip f)).bind ?_
  rintro ⟨last, rest⟩ ⟨_, rest'⟩ ⟨rfl, hrest⟩
  refine .bind_same fun lo => .bind_same fun hi => ?_
  split
  · exact .of_some ⟨rfl, hrest⟩
  · exact .of_none

theorem carries_afterHyphen? (h : Closed cs cs') (first : Atom) :
    Carries Alike (afterHyphen? f first cs) (afterHyphen? f first cs') := by
  have hpeek : (f.peek cs' == some ']' || f.peek cs' == some '-')
      = (f.peek cs == some ']' || f.peek cs == some '-') := by
    rw [Bool.eq_iff_iff, Bool.or_eq_true, Bool.or_eq_true, beq_iff_eq,
      beq_iff_eq, beq_iff_eq, beq_iff_eq,
      peek_eq_some_iff h (by decide) (by decide) (by decide),
      peek_eq_some_iff h (by decide) (by decide) (by decide)]
  unfold afterHyphen?
  rw [hpeek]
  split
  · exact .bind_same fun _ => .of_some ⟨rfl, h.cons '-'⟩
  · exact carries_rangeTo? h first

theorem carries_bracketRange? (h : Closed cs cs') :
    Carries Alike (bracketRange? f cs) (bracketRange? f cs') := by
  refine (carries_bracketAtom? h).bind ?_
  rintro ⟨first, rest⟩ ⟨_, rest'⟩ ⟨rfl, hrest⟩
  have hskip := hrest.skip f
  dsimp only at hskip ⊢
  generalize f.skip rest = t, f.skip rest' = t' at hskip ⊢
  split
  case h_1 => exact .of_none
  case h_2 more =>
    obtain ⟨more', rfl, hmore⟩ := hskip.exists_cons
    exact carries_afterHyphen? hmore first
  case h_3 hnil hhyphen =>
    split
    case h_1 => exact absurd hskip.eq_nil hnil
    case h_2 more' =>
      obtain ⟨more, rfl, -⟩ := hskip.exists_cons_of_ne (by decide)
      exact absurd rfl (hhyphen more)
    case h_3 => exact .bind_same fun _ => .of_some ⟨rfl, hskip⟩

-- ========================================================= expressions

theorem carries_innerBracket? (h : Closed cs cs') (current : OpenBracket)
    (outer : List OpenBracket) :
    Carries (fun x x' => x.1 = x'.1 ∧ Alike x.2 x'.2)
      (innerBracket? f current outer cs)
      (innerBracket? f current outer cs') := by
  have hnamed := rel_namedClass? h
  unfold innerBracket?
  generalize namedClass? cs = o, namedClass? cs' = o' at hnamed ⊢
  cases hnamed with
  | none =>
      refine (carries_openBracket? h).bind ?_
      rintro ⟨inner, r⟩ ⟨_, r'⟩ ⟨rfl, hr⟩
      exact .of_some ⟨rfl, rfl, hr⟩
  | @some x x' hx =>
      obtain ⟨n, s, r⟩ := x
      obtain ⟨n', s', r'⟩ := x'
      obtain ⟨rfl, rfl, hr⟩ : n = n' ∧ s = s' ∧ Closed r r' := hx
      exact .bind_same fun s => .of_some ⟨rfl, rfl, hr⟩

theorem carries_bracketFrom? (h : Closed cs cs') {fuel fuel' : Nat}
    (hfuel : fuel ≤ fuel') (current : OpenBracket) (outer : List OpenBracket) :
    Carries Alike (bracketFrom? f fuel current outer cs)
      (bracketFrom? f fuel' current outer cs') := by
  induction fuel generalizing fuel' cs cs' current outer with
  | zero => exact .of_none
  | succ fuel ih =>
      obtain ⟨fuel', rfl⟩ := Nat.exists_eq_add_of_lt hfuel
      have hle : fuel ≤ fuel + fuel' := Nat.le_add_right ..
      have hskip := h.skip f
      unfold bracketFrom?
      generalize f.skip cs = t, f.skip cs' = t' at hskip ⊢
      split
      case h_1 => exact .of_none
      case h_2 rest =>
        obtain ⟨rest', rfl, hrest⟩ := hskip.exists_cons
        refine (carries_innerBracket? hrest current outer).bind ?_
        rintro ⟨inner, around, r⟩ ⟨_, _, r'⟩ ⟨rfl, rfl, hr⟩
        exact ih hr hle inner around
      case h_3 rest =>
        obtain ⟨rest', rfl, hrest⟩ := hskip.exists_cons
        refine .bind_same fun s => ?_
        cases outer with
        | nil => exact .of_some ⟨rfl, hrest⟩
        | cons o os => exact ih hrest hle (o.add s) os
      case h_4 rest =>
        obtain ⟨tail', rfl, htail⟩ := hskip.exists_cons
        obtain ⟨rest', rfl, hrest⟩ := htail.exists_cons
        exact ih hrest hle (current.join f .inter) outer
      case h_5 rest =>
        obtain ⟨tail', rfl, htail⟩ := hskip.exists_cons
        obtain ⟨rest', rfl, hrest⟩ := htail.exists_cons
        exact ih hrest hle (current.join f .diff) outer
      case h_6 rest =>
        obtain ⟨tail', rfl, htail⟩ := hskip.exists_cons
        obtain ⟨rest', rfl, hrest⟩ := htail.exists_cons
        exact ih hrest hle (current.join f .symmDiff) outer
      case h_7 hnil hopen hclose hinter hdiff hsymm =>
        split
        case h_1 => exact absurd hskip.eq_nil hnil
        case h_2 =>
          obtain ⟨r, rfl, -⟩ := hskip.exists_cons_of_ne (by decide)
          exact absurd rfl (hopen r)
        case h_3 =>
          obtain ⟨r, rfl, -⟩ := hskip.exists_cons_of_ne (by decide)
          exact absurd rfl (hclose r)
        case h_4 =>
          obtain ⟨r, rfl⟩ :=
            hskip.exists_cons_cons_of_ne (by decide) (by decide)
          exact absurd rfl (hinter r)
        case h_5 =>
          obtain ⟨r, rfl⟩ :=
            hskip.exists_cons_cons_of_ne (by decide) (by decide)
          exact absurd rfl (hdiff r)
        case h_6 =>
          obtain ⟨r, rfl⟩ :=
            hskip.exists_cons_cons_of_ne (by decide) (by decide)
          exact absurd rfl (hsymm r)
        case h_7 =>
          refine (carries_bracketRange? hskip).bind ?_
          rintro ⟨s, r⟩ ⟨_, r'⟩ ⟨rfl, hr⟩
          exact ih hr hle (current.addSet s) outer

theorem carries_bracket? (h : Closed cs cs') :
    Carries Alike (bracket? f cs) (bracket? f cs') := by
  refine (carries_openBracket? h).bind ?_
  rintro ⟨b, rest⟩ ⟨_, rest'⟩ ⟨rfl, hrest⟩
  exact carries_bracketFrom? hrest (Nat.succ_le_succ h.length_le) b []

end LatticeParsing.Pattern
