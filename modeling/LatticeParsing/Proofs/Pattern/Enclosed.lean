/-
Reading a text in front of a closing parenthesis.

A text that is read as a pattern on its own is read alike where a closing
parenthesis and a dollar sign follow it inside a group: each part of the
reader takes from the longer text what it takes from the shorter one, and
leaves the rest, followed by what follows the text (`Closed`). The only
exception is a comment. One that runs to the end of the text runs on to the
end of the longer one, and what follows is lost; the group then stays open,
and the longer text is no pattern at all.

Every part of the reader has one lemma. Where it is bounded by the length of
the text, the longer text has the greater bound, so the lemmas are about any
two bounds of which the second is the greater one. This module has the parts
that all others are made of: ignored text, signs, runs of characters and
escapes.
-/
import LatticeParsing.Pattern.Reader
import Mathlib.Data.List.Basic

namespace LatticeParsing.Pattern

-- ============================================================ what follows

/-- What follows a text inside a group at the end of a pattern. -/
def closing : List Char := [')', '$']

/-- Whether a text is another one with what follows it, or without that since
a comment has swallowed it. -/
def Closed (cs cs' : List Char) : Prop := cs' = cs ++ closing ∨ cs' = cs

variable {cs cs' rest rest' : List Char} {c : Char} {f : Flags}

namespace Closed

theorem cons (h : Closed rest rest') (c : Char) :
    Closed (c :: rest) (c :: rest') := by
  rcases h with rfl | rfl
  · exact Or.inl rfl
  · exact Or.inr rfl

theorem exists_cons (h : Closed (c :: rest) cs') :
    ∃ rest', cs' = c :: rest' ∧ Closed rest rest' := by
  rcases h with rfl | rfl
  · exact ⟨rest ++ closing, rfl, Or.inl rfl⟩
  · exact ⟨rest, rfl, Or.inr rfl⟩

/-- The longer text begins like the shorter one, unless that is at its end. -/
theorem exists_cons_of_ne (h : Closed cs (c :: rest')) (hc : c ≠ ')') :
    ∃ rest, cs = c :: rest ∧ Closed rest rest' := by
  rcases h with h | h
  · cases cs with
    | nil =>
        injection h with h
        exact absurd h hc
    | cons d rest =>
        injection h with hd hrest
        subst hd
        exact ⟨rest, rfl, Or.inl hrest⟩
  · exact ⟨rest', h.symm, Or.inr rfl⟩

theorem exists_cons_cons_of_ne {d : Char} (h : Closed cs (c :: d :: rest'))
    (hc : c ≠ ')') (hd : d ≠ ')') : ∃ rest, cs = c :: d :: rest := by
  obtain ⟨tail, rfl, htail⟩ := h.exists_cons_of_ne hc
  obtain ⟨rest, rfl, -⟩ := htail.exists_cons_of_ne hd
  exact ⟨rest, rfl⟩

theorem nil_cases (h : Closed [] cs') : cs' = closing ∨ cs' = [] := h

theorem eq_nil (h : Closed cs []) : cs = [] := by
  rcases h with h | h
  · exact (List.append_eq_nil_iff.1 h.symm).1
  · exact h.symm

/-- Taking what has a property that the closing parenthesis does not have. -/
theorem dropWhile {p : Char → Bool} (h : Closed cs cs') (hp : p ')' = false) :
    Closed (cs.dropWhile p) (cs'.dropWhile p) := by
  rcases h with rfl | rfl
  · refine Or.inl ?_
    induction cs with
    | nil => simp [closing, hp]
    | cons c cs ih =>
        cases hc : p c with
        | true => simp [hc, ih]
        | false => simp [hc]
  · exact Or.inr rfl

-- ========================================================== ignored text

theorem skipFrom (inComment : Bool) (cs : List Char) :
    Closed (Flags.skipFrom inComment cs)
      (Flags.skipFrom inComment (cs ++ closing)) := by
  induction cs generalizing inComment with
  | nil =>
      cases inComment with
      | true => exact Or.inr rfl
      | false => exact Or.inl (by decide)
  | cons c cs ih =>
      rw [List.cons_append]
      unfold Flags.skipFrom
      split
      · exact ih _
      · split
        · exact ih _
        · split
          · exact ih _
          · exact Or.inl rfl

theorem skip (h : Closed cs cs') (f : Flags) :
    Closed (f.skip cs) (f.skip cs') := by
  rcases h with rfl | rfl
  · unfold Flags.skip
    split
    · exact skipFrom false cs
    · exact Or.inl rfl
  · exact Or.inr rfl

end Closed

theorem length_skipFrom_le (inComment : Bool) (cs : List Char) :
    (Flags.skipFrom inComment cs).length ≤ cs.length := by
  induction cs generalizing inComment with
  | nil => exact Nat.le_refl 0
  | cons c cs ih =>
      unfold Flags.skipFrom
      split
      · exact Nat.le_succ_of_le (ih _)
      · split
        · exact Nat.le_succ_of_le (ih _)
        · split
          · exact Nat.le_succ_of_le (ih _)
          · exact Nat.le_refl _

theorem length_skip_le (f : Flags) (cs : List Char) :
    (f.skip cs).length ≤ cs.length := by
  unfold Flags.skip
  split
  · exact length_skipFrom_le false cs
  · exact Nat.le_refl _

-- =============================================================== results

variable {α β γ δ : Type}

/-- Whether the second of two optional results is there if the first is, and
is related to it. -/
def Carries (R : α → β → Prop) (x : Option α) (x' : Option β) : Prop :=
  ∀ a, x = some a → ∃ b, x' = some b ∧ R a b

/-- Two results that are the same but for what is left of the text. -/
def Alike (x x' : α × List Char) : Prop := x.1 = x'.1 ∧ Closed x.2 x'.2

namespace Carries

variable {R : α → β → Prop} {S : γ → δ → Prop} {x : Option α} {x' : Option β}

theorem of_none : Carries R none x' := nofun

theorem of_some {a : α} {b : β} (h : R a b) : Carries R (some a) (some b) := by
  intro a' ha
  injection ha with ha
  exact ⟨b, rfl, ha ▸ h⟩

theorem bind {next : α → Option γ} {next' : β → Option δ}
    (h : Carries R x x') (hnext : ∀ a b, R a b → Carries S (next a) (next' b)) :
    Carries S (x >>= next) (x' >>= next') := by
  intro c hc
  obtain ⟨a, ha, hc⟩ := Option.bind_eq_some_iff.1 hc
  obtain ⟨b, hb, hab⟩ := h a ha
  obtain ⟨d, hd, hcd⟩ := hnext a b hab c hc
  exact ⟨d, Option.bind_eq_some_iff.2 ⟨b, hb, hd⟩, hcd⟩

theorem map {g : α → γ} {g' : β → δ} (h : Carries R x x')
    (hg : ∀ a b, R a b → S (g a) (g' b)) : Carries S (x.map g) (x'.map g') := by
  intro c hc
  obtain ⟨a, ha, rfl⟩ := Option.map_eq_some_iff.1 hc
  obtain ⟨b, hb, hab⟩ := h a ha
  exact ⟨g' b, by rw [hb]; rfl, hg a b hab⟩

/-- What has been read is changed, and what is left of the text stays. -/
theorem map_fst {y y' : Option (α × List Char)} (h : Carries Alike y y')
    (g : α → γ) :
    Carries Alike (y.map fun z => (g z.1, z.2))
      (y'.map fun z => (g z.1, z.2)) :=
  h.map fun _ _ hz => ⟨congrArg g hz.1, hz.2⟩

/-- What has nothing to do with the text comes first. -/
theorem bind_same {o : Option α} {next : α → Option γ} {next' : α → Option δ}
    (hnext : ∀ a, Carries S (next a) (next' a)) :
    Carries S (o >>= next) (o >>= next') := by
  refine bind (R := Eq) (fun a ha => ⟨a, ha, rfl⟩) ?_
  rintro a _ rfl
  exact hnext a

/-- What is found in both texts or in neither is there in the second if it is
in the first. -/
theorem of_rel (h : Option.Rel R x x') : Carries R x x' := by
  cases h with
  | none => exact .of_none
  | some h => exact .of_some h

end Carries

-- ======================================================= signs and runs

variable {keep : Char → Bool}

theorem alike_takeMark (sign : Char) (hsign : sign ≠ ')')
    (h : Closed cs cs') :
    Alike (takeMark sign cs) (takeMark sign cs') := by
  cases cs with
  | nil =>
      rcases h.nil_cases with rfl | rfl
      · have hmark : takeMark sign closing = (false, closing) :=
          if_neg fun heq => hsign (beq_iff_eq.1 heq).symm
        rw [hmark]
        exact ⟨rfl, h⟩
      · exact ⟨rfl, h⟩
  | cons c rest =>
      obtain ⟨rest', rfl, hrest⟩ := h.exists_cons
      unfold takeMark
      dsimp only
      split
      · exact ⟨rfl, hrest⟩
      · exact ⟨rfl, h⟩

/-- What follows a text is no part of a run. -/
theorem takeRun_of_nil (hkeep : keep ')' = false) (h : Closed [] cs')
    (fuel : Nat) : takeRun f keep fuel cs' = ([], cs') := by
  cases fuel with
  | zero => rfl
  | succ fuel =>
      rcases h.nil_cases with rfl | rfl
      · exact if_neg (by rw [hkeep]; decide)
      · rfl

theorem alike_takeRun (keep : Char → Bool) (hkeep : keep ')' = false)
    (h : Closed cs cs') {fuel fuel' : Nat} (hfuel : cs.length ≤ fuel)
    (hfuel' : cs'.length ≤ fuel') :
    Alike (takeRun f keep fuel cs) (takeRun f keep fuel' cs') := by
  induction fuel generalizing fuel' cs cs' with
  | zero =>
      obtain rfl := List.eq_nil_of_length_eq_zero (Nat.le_zero.1 hfuel)
      rw [takeRun_of_nil hkeep h]
      exact ⟨rfl, h⟩
  | succ fuel ih =>
      cases cs with
      | nil =>
          rw [takeRun_of_nil hkeep h]
          exact ⟨rfl, h⟩
      | cons c rest =>
          obtain ⟨rest', rfl, hrest⟩ := h.exists_cons
          cases fuel' with
          | zero => exact absurd hfuel' (Nat.not_succ_le_zero _)
          | succ fuel' =>
              unfold takeRun
              split
              · have hle := length_skip_le f rest
                have hle' := length_skip_le f rest'
                rw [List.length_cons] at hfuel hfuel'
                obtain ⟨hrun, hmore⟩ := ih (hrest.skip f)
                  (show (f.skip rest).length ≤ fuel by omega)
                  (show (f.skip rest').length ≤ fuel' by omega)
                exact ⟨congrArg (c :: ·) hrun, hmore⟩
              · exact ⟨rfl, h⟩

-- =============================================================== escapes

theorem carries_takeChars (h : Closed cs cs') (n : Nat) :
    Carries Alike (takeChars f n cs) (takeChars f n cs') := by
  induction n generalizing cs cs' with
  | zero => exact .of_some ⟨rfl, h⟩
  | succ n ih =>
      have hskip := h.skip f
      unfold takeChars
      generalize f.skip cs = t, f.skip cs' = t' at hskip ⊢
      cases t with
      | nil => exact .of_none
      | cons c rest =>
          obtain ⟨rest', rfl, hrest⟩ := hskip.exists_cons
          exact (ih hrest).map_fst (c :: ·)

theorem carries_untilBrace (h : Closed cs cs') {fuel fuel' : Nat}
    (hfuel : fuel ≤ fuel') :
    Carries Alike (untilBrace f fuel cs) (untilBrace f fuel' cs') := by
  induction fuel generalizing fuel' cs cs' with
  | zero => exact .of_none
  | succ fuel ih =>
      obtain ⟨fuel', rfl⟩ := Nat.exists_eq_add_of_lt hfuel
      have hskip := h.skip f
      unfold untilBrace
      generalize f.skip cs = t, f.skip cs' = t' at hskip ⊢
      cases t with
      | nil => exact .of_none
      | cons c rest =>
          obtain ⟨rest', rfl, hrest⟩ := hskip.exists_cons
          dsimp only
          split
          · exact .of_some ⟨rfl, hrest⟩
          · exact (ih hrest (Nat.le_add_right ..)).map_fst (c :: ·)

/-- A longer text leaves more to take. -/
theorem Closed.length_le (h : Closed cs cs') : cs.length ≤ cs'.length := by
  rcases h with rfl | rfl
  · rw [List.length_append]
    exact Nat.le_add_right ..
  · exact Nat.le_refl _

theorem carries_codeChar? (h : Closed cs cs') (width : Nat) :
    Carries Alike (codeChar? f width cs) (codeChar? f width cs') := by
  have hskip := h.skip f
  unfold codeChar?
  generalize f.skip cs = t, f.skip cs' = t' at hskip ⊢
  split
  case h_1 rest =>
    obtain ⟨rest', rfl, hrest⟩ := hskip.exists_cons
    refine (carries_untilBrace hrest
      (Nat.succ_le_succ hrest.length_le)).bind ?_
    rintro ⟨digits, r⟩ ⟨_, r'⟩ ⟨rfl, hr⟩
    exact .bind_same fun c => .of_some ⟨rfl, hr⟩
  case h_2 hne =>
    split
    case h_1 rest' =>
      obtain ⟨rest, rfl, -⟩ := hskip.exists_cons_of_ne (by decide)
      exact absurd rfl (hne rest)
    case h_2 =>
      refine (carries_takeChars hskip width).bind ?_
      rintro ⟨digits, r⟩ ⟨_, r'⟩ ⟨rfl, hr⟩
      exact .bind_same fun c => .of_some ⟨rfl, hr⟩

theorem carries_property? (h : Closed cs cs') :
    Carries (fun x x' => x.1 = x'.1 ∧ Alike x.2 x'.2)
      (property? f cs) (property? f cs') := by
  have hskip := h.skip f
  unfold property?
  generalize f.skip cs = t, f.skip cs' = t' at hskip ⊢
  split
  case h_1 => exact .of_none
  case h_2 rest =>
    obtain ⟨rest', rfl, hrest⟩ := hskip.exists_cons
    refine (carries_untilBrace hrest
      (Nat.succ_le_succ hrest.length_le)).bind ?_
    rintro ⟨name, r⟩ ⟨_, r'⟩ ⟨rfl, hr⟩
    exact .bind_same fun _ => .of_some ⟨rfl, rfl, hr⟩
  case h_3 c rest hne =>
    obtain ⟨rest', rfl, hrest⟩ := hskip.exists_cons
    by_cases hback : (c == '\\') = true
    · rw [if_pos hback]
      exact .of_none
    rw [if_neg hback]
    split
    case h_1 heq => cases heq
    case h_2 heq =>
      injection heq with hc
      exact (hne hc).elim
    case h_3 heq =>
      injection heq with hc hr
      subst hc hr
      rw [if_neg hback]
      refine Carries.map (fun s hs => ⟨s, hs, rfl⟩) ?_
      rintro s _ rfl
      exact ⟨rfl, rfl, hrest⟩

theorem carries_propertySet? (h : Closed cs cs') (negated : Bool) :
    Carries Alike (propertySet? f negated cs)
      (propertySet? f negated cs') := by
  refine (carries_property? h).bind ?_
  rintro ⟨complement, s, r⟩ ⟨_, _, r'⟩ ⟨rfl, rfl, hr⟩
  dsimp only
  split
  · exact .of_none
  · exact .bind_same fun _ => .of_some ⟨rfl, hr⟩

/-- A name in braces is known, or there is none. -/
theorem carries_wordEdge? (h : Closed cs cs') :
    Carries Alike (wordEdge? f cs) (wordEdge? f cs') := by
  unfold wordEdge?
  split
  case h_1 rest =>
    obtain ⟨rest', rfl, hrest⟩ := h.exists_cons
    have hskip := hrest.skip f
    conv => arg 3; whnf
    generalize f.skip rest = t, f.skip rest' = t' at hskip ⊢
    cases t with
    | nil => exact .of_none
    | cons c more =>
        obtain ⟨more', rfl, hmore⟩ := hskip.exists_cons
        dsimp only
        have hedge := alike_takeRun (f := f) namesEdge (by decide)
          (hmore.cons c) (Nat.le_refl _) (Nat.le_refl _)
        rw [List.length_cons, List.length_cons] at hedge
        generalize takeRun f namesEdge (more.length + 1) (c :: more) = x,
          takeRun f namesEdge (more'.length + 1) (c :: more') = x' at hedge ⊢
        obtain ⟨name, t⟩ := x
        obtain ⟨name', t'⟩ := x'
        obtain ⟨rfl, ht⟩ : name = name' ∧ Closed t t' := hedge
        split
        · split
          case h_1 name rest heq =>
            obtain ⟨rfl, rfl⟩ := Prod.mk.inj heq
            obtain ⟨r', rfl, hr⟩ := ht.exists_cons
            conv => arg 3; whnf
            generalize String.ofList _ = named
            split
            all_goals first | exact .of_some ⟨rfl, hr⟩ | exact .of_none
          case h_2 => exact .of_none
        · exact .of_some ⟨rfl, h⟩
  case h_2 hne =>
    split
    case h_1 rest' =>
      obtain ⟨rest, rfl, -⟩ := h.exists_cons_of_ne (by decide)
      exact absurd rfl (hne rest)
    case h_2 => exact .of_some ⟨rfl, h⟩

theorem carries_escape? (h : Closed cs cs') :
    Carries Alike (escape? f cs) (escape? f cs') := by
  cases cs with
  | nil => exact .of_none
  | cons c rest =>
      obtain ⟨rest', rfl, hrest⟩ := h.exists_cons
      unfold escape?
      dsimp only
      split
      · exact carries_codeChar? hrest 2
      · exact carries_codeChar? hrest 4
      · exact carries_codeChar? hrest 8
      · exact (carries_propertySet? hrest false).map_fst _
      · exact (carries_propertySet? hrest true).map_fst _
      · exact .of_some ⟨rfl, hrest⟩
      · exact .of_some ⟨rfl, hrest⟩
      · exact (carries_wordEdge? hrest).map_fst
          fun e => Atom.anchor (.word e !f.unicode)
      · exact .of_some ⟨rfl, hrest⟩
      · exact .of_some ⟨rfl, hrest⟩
      · exact .of_some ⟨rfl, hrest⟩
      · split
        · exact .of_some ⟨rfl, hrest⟩
        · split
          · exact .of_some ⟨rfl, hrest⟩
          · exact .bind_same fun _ => .bind_same fun _ => .of_some ⟨rfl, hrest⟩

end LatticeParsing.Pattern
