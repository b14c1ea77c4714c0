/-
What recording does to the forest.

A forest is sound when its cells list each constituent once, in the cell of
its span, by ascending left-hand side (`Forest.Sound`). What recording
completions over a span does to a sound forest is said once, by
`Forest.Records`, and the parts are read off it:

- other cells and the constituents that they list stay as they are;
- the cell of the span keeps what it lists and also lists what was made;
- a left-hand side is listed over the span if it was or if a rule with that
  left-hand side has been recorded, and its derivations are those that it
  had and those recorded, in order (`entry`).

The relation composes (`Records.trans`), so a list of completions needs no
induction of its own beyond `recordAll`.
-/
import LatticeParsing.Chart.Run
import LatticeParsing.Proofs.Chart.Recording
import LatticeParsing.Proofs.Chart.Triangle

namespace LatticeParsing

-- =============================================================== cells

namespace Cell

variable {c : Cell} {lhs s : Symbol} {id k : Nat}

/-- Listing a constituent lists one more. -/
theorem insert_perm (lhs : Symbol) (id : Nat) (c : Cell) :
    (insert lhs id c).Perm ((lhs, id) :: c) := by
  induction c with
  | nil => exact .refl _
  | cons e c ih =>
      obtain ⟨s, k⟩ := e
      unfold insert
      split
      · exact .refl _
      · exact (ih.cons _).trans (.swap ..)

theorem mem_insert :
    (s, k) ∈ insert lhs id c ↔ (s, k) = (lhs, id) ∨ (s, k) ∈ c :=
  (insert_perm lhs id c).mem_iff.trans List.mem_cons

/-- Listing a new left-hand side keeps the order. -/
theorem ascending_insert (h : c.Pairwise (·.1 < ·.1))
    (hnew : ∀ k, (lhs, k) ∉ c) :
    (insert lhs id c).Pairwise (·.1 < ·.1) := by
  induction c with
  | nil => exact List.pairwise_singleton ..
  | cons e c ih =>
      obtain ⟨s, k⟩ := e
      obtain ⟨hs, hc⟩ := List.pairwise_cons.1 h
      have hne : lhs ≠ s := fun heq => hnew k (heq ▸ List.mem_cons_self ..)
      unfold insert
      split
      case isTrue hlt =>
        refine List.pairwise_cons.2 ⟨fun e he => ?_, h⟩
        rcases List.mem_cons.1 he with rfl | he
        · exact hlt
        · exact lt_trans hlt (hs e he)
      case isFalse hlt =>
        refine List.pairwise_cons.2 ⟨fun e he => ?_, ?_⟩
        · obtain ⟨t, m⟩ := e
          rcases mem_insert.1 he with heq | he
          · injection heq with ht hm
            subst ht
            exact lt_of_le_of_ne (not_lt.1 hlt) (Ne.symm hne)
          · exact hs _ he
        · exact ih hc fun m hm => hnew m (List.mem_cons_of_mem _ hm)

theorem mem_of_find? (h : c.find? lhs = some id) : (lhs, id) ∈ c := by
  obtain ⟨c₁, c₂, rfl, -⟩ := List.lookup_eq_some_iff.1 h
  exact List.mem_append_right _ (List.mem_cons_self ..)

theorem find?_eq_none : c.find? lhs = none ↔ ∀ id, (lhs, id) ∉ c := by
  unfold find?
  rw [List.lookup_eq_none_iff]
  constructor
  · intro h id hmem
    simpa using h _ hmem
  · intro h e hmem
    obtain ⟨s, k⟩ := e
    simp only [bne_iff_ne]
    intro heq
    subst heq
    exact h k hmem

/-- Where left-hand sides ascend, each is listed at most once. -/
theorem eq_of_mem {m : Nat} (h : c.Pairwise (·.1 < ·.1)) (hk : (s, k) ∈ c)
    (hm : (s, m) ∈ c) : k = m := by
  induction c with
  | nil => cases hk
  | cons e c ih =>
      obtain ⟨he, hc⟩ := List.pairwise_cons.1 h
      rcases List.mem_cons.1 hk with rfl | hk'
      · rcases List.mem_cons.1 hm with heq | hm'
        · injection heq with _ heq
          exact heq.symm
        · exact absurd (he _ hm') (lt_irrefl s)
      · rcases List.mem_cons.1 hm with rfl | hm'
        · exact absurd (he _ hk') (lt_irrefl s)
        · exact ih hc hk' hm'

theorem find?_eq_some (h : c.Pairwise (·.1 < ·.1)) :
    c.find? lhs = some id ↔ (lhs, id) ∈ c := by
  refine ⟨mem_of_find?, fun hmem => ?_⟩
  cases hf : c.find? lhs with
  | none => exact absurd hmem (find?_eq_none.1 hf id)
  | some k => rw [eq_of_mem h (mem_of_find? hf) hmem]

end Cell

-- =========================================================== soundness

namespace Forest

variable {f f' f'' : Forest} {i j a b : Nat}

/-- The constituents know their numbers, and the cells list them by their
spans and left-hand sides. -/
structure Sound (f : Forest) : Prop where
  numbered : ∀ {id : Nat} {c : Constituent}, f.constituents[id]? = some c →
    c.id = id
  listed : ∀ {i j lhs id}, (lhs, id) ∈ f.cellAt i j
    ↔ ∃ c, f.constituents[id]? = some c
        ∧ c.lhs = lhs ∧ c.start = i ∧ c.stop = j
  ascending : ∀ i j, (f.cellAt i j).Pairwise (·.1 < ·.1)

@[simp]
theorem cellAt_empty (n i j : Nat) : (empty n).cellAt i j = [] := by
  unfold cellAt empty
  rw [Triangle.get?_replicate]
  split <;> rfl

theorem sound_empty (n : Nat) : (empty n).Sound where
  numbered := by simp [empty]
  listed := by
    intro i j lhs id
    rw [cellAt_empty]
    simp [empty]
  ascending := by simp

/-- The constituent with a left-hand side over a span. -/
def entry? (f : Forest) (i j : Nat) (lhs : Symbol) : Option Constituent :=
  (f.find? i j lhs).bind fun id => f.constituents[id]?

theorem Sound.find?_eq_some (h : f.Sound) {lhs : Symbol} {id : Nat} :
    f.find? i j lhs = some id ↔ (lhs, id) ∈ f.cellAt i j :=
  Cell.find?_eq_some (h.ascending i j)

/-- The number of a constituent leads to its entry. -/
theorem Sound.entry?_of_mem (h : f.Sound) {lhs : Symbol} {id : Nat}
    (hmem : (lhs, id) ∈ f.cellAt i j) :
    f.entry? i j lhs = f.constituents[id]? := by
  unfold entry?
  rw [h.find?_eq_some.2 hmem]
  rfl

theorem entry?_of_not_mem {lhs : Symbol}
    (hnew : ∀ id, (lhs, id) ∉ f.cellAt i j) : f.entry? i j lhs = none := by
  unfold entry? find?
  rw [Cell.find?_eq_none.2 hnew]
  rfl

theorem Sound.entry?_eq_none (h : f.Sound) {lhs : Symbol} :
    f.entry? i j lhs = none ↔ ¬ ∃ id, (lhs, id) ∈ f.cellAt i j := by
  constructor
  · intro hnone hlisted
    obtain ⟨id, hid⟩ := hlisted
    obtain ⟨c, hc, -⟩ := h.listed.1 hid
    rw [h.entry?_of_mem hid, hc] at hnone
    cases hnone
  · exact fun hno => entry?_of_not_mem fun id hid => hno ⟨id, hid⟩

/-- Where a left-hand side keeps its number and the constituent of that
number stays, the entry stays. -/
theorem entry?_congr {lhs : Symbol} (hfind : f'.find? i j lhs = f.find? i j lhs)
    (hid : ∀ id, (lhs, id) ∈ f.cellAt i j →
      f'.constituents[id]? = f.constituents[id]?) :
    f'.entry? i j lhs = f.entry? i j lhs := by
  unfold entry?
  rw [hfind]
  cases hf : f.find? i j lhs with
  | none => rfl
  | some id => exact hid id (Cell.mem_of_find? hf)

theorem Sound.mem_of_constituent (h : f.Sound) {id : Nat} {c : Constituent}
    (hc : f.constituents[id]? = some c) :
    (c.lhs, id) ∈ f.cellAt c.start c.stop :=
  h.listed.2 ⟨c, hc, rfl, rfl, rfl⟩

/-- What the cells list is there. -/
theorem Sound.lt_size (h : f.Sound) {e : Symbol × Nat}
    (hmem : e ∈ f.cellAt i j) : e.2 < f.constituents.size := by
  obtain ⟨c, hc, -⟩ := h.listed.1 hmem
  exact (Array.getElem?_eq_some_iff.1 hc).1

/-- A constituent is listed in one cell. -/
theorem Sound.span_eq (h : f.Sound) {lhs s : Symbol} {id : Nat}
    (hmem : (lhs, id) ∈ f.cellAt i j) (hmem' : (s, id) ∈ f.cellAt a b) :
    lhs = s ∧ i = a ∧ j = b := by
  obtain ⟨c, hc, rfl, rfl, rfl⟩ := h.listed.1 hmem
  obtain ⟨c', hc', rfl, rfl, rfl⟩ := h.listed.1 hmem'
  rw [hc] at hc'
  injection hc' with hc'
  subst hc'
  exact ⟨rfl, rfl, rfl⟩

-- =========================================================== recording

/-- Adds derivations to a constituent. If it is missing, it is made under the
number `id`. -/
def gather (id i j : Nat) (lhs : Symbol) (o : Option Constituent)
    (ds : List Derivation) : Option Constituent :=
  ds.foldl (fun o d => some ((o.getD ⟨id, lhs, i, j, #[]⟩).record d).1) o

theorem gather_append (id : Nat) (lhs : Symbol) (o : Option Constituent)
    (ds es : List Derivation) :
    gather id i j lhs o (ds ++ es)
      = gather id i j lhs (gather id i j lhs o ds) es :=
  List.foldl_append

theorem gather_some (id : Nat) (lhs : Symbol) (c : Constituent)
    (ds : List Derivation) :
    gather id i j lhs (some c) ds = some (c.recordAll ds) := by
  induction ds generalizing c with
  | nil => rfl
  | cons d ds ih => exact ih _

theorem gather_cons (id : Nat) (lhs : Symbol) (d : Derivation)
    (ds : List Derivation) :
    gather id i j lhs none (d :: ds)
      = some (Constituent.recordAll ⟨id, lhs, i, j, #[]⟩ (d :: ds)) :=
  gather_some ..

/-- Only where nothing is recorded, nothing is made. -/
theorem gather_eq_none {id : Nat} {lhs : Symbol} {ds : List Derivation} :
    gather id i j lhs none ds = none ↔ ds = [] := by
  cases ds with
  | nil => exact iff_of_true rfl rfl
  | cons d ds =>
      rw [gather_cons]
      simp

/-- Adding derivations twice is adding them in a row, under the number of
the first time if something was added then. -/
theorem exists_gather_append (id id' : Nat) (lhs : Symbol)
    (o : Option Constituent) (ds es : List Derivation) :
    ∃ n, gather id' i j lhs (gather id i j lhs o ds) es
      = gather n i j lhs o (ds ++ es) := by
  cases hfirst : gather id i j lhs o ds with
  | some c =>
      refine ⟨id, ?_⟩
      rw [gather_append, hfirst, gather_some, gather_some]
  | none =>
      cases o with
      | some c =>
          rw [gather_some] at hfirst
          cases hfirst
      | none =>
          rw [gather_eq_none.1 hfirst]
          exact ⟨id', rfl⟩

/-- The completions of rules with a left-hand side. -/
def withLhs (lhs : Symbol) (ds : List Derivation) : List Derivation :=
  ds.filter fun d => d.rule.rule.lhs = lhs

theorem withLhs_append (lhs : Symbol) (ds es : List Derivation) :
    withLhs lhs (ds ++ es) = withLhs lhs ds ++ withLhs lhs es :=
  List.filter_append ..

theorem mem_withLhs {lhs : Symbol} {ds : List Derivation} {d : Derivation} :
    d ∈ withLhs lhs ds ↔ d ∈ ds ∧ d.rule.rule.lhs = lhs := by
  simp [withLhs]

/-- The forest `f'` arises from `f` by recording `ds` over the span from `i`
to `j`; the constituents `made` are new, in order. -/
structure Records (i j : Nat) (ds : List Derivation) (made : List Nat)
    (f f' : Forest) : Prop where
  max_eq : f'.cells.max = f.cells.max
  sound : f'.Sound
  cellAt_of_ne : ∀ a b, ¬ (a = i ∧ b = j) → f'.cellAt a b = f.cellAt a b
  constituent_of_ne : ∀ a b, ¬ (a = i ∧ b = j) →
    ∀ lhs id, (lhs, id) ∈ f.cellAt a b →
      f'.constituents[id]? = f.constituents[id]?
  size_le : f.constituents.size ≤ f'.constituents.size
  cell : ∃ es : List (Symbol × Nat), made = es.map (·.2)
    ∧ (f'.cellAt i j).Perm (f.cellAt i j ++ es)
    ∧ ∀ e ∈ es, ∃ d ∈ ds, d.rule.rule.lhs = e.1
  entry : ∀ lhs, ∃ id, f'.entry? i j lhs
    = gather id i j lhs (f.entry? i j lhs) (withLhs lhs ds)

namespace Records

variable {ds es : List Derivation} {made made' : List Nat}

theorem refl (h : f.Sound) : Records i j [] [] f f :=
  ⟨rfl, h, fun _ _ _ => rfl, fun _ _ _ _ _ _ => rfl, Nat.le_refl _,
    ⟨[], rfl, by simp, by simp⟩, fun _ => ⟨0, rfl⟩⟩

/-- Recording one list and then another is recording both in a row. -/
theorem trans (h : Records i j ds made f f')
    (h' : Records i j es made' f' f'') :
    Records i j (ds ++ es) (made ++ made') f f'' where
  max_eq := h'.max_eq.trans h.max_eq
  sound := h'.sound
  cellAt_of_ne := fun a b hne =>
    (h'.cellAt_of_ne a b hne).trans (h.cellAt_of_ne a b hne)
  constituent_of_ne := fun a b hne lhs id hmem =>
    (h'.constituent_of_ne a b hne lhs id
        ((h.cellAt_of_ne a b hne).symm ▸ hmem)).trans
      (h.constituent_of_ne a b hne lhs id hmem)
  size_le := Nat.le_trans h.size_le h'.size_le
  cell := by
    obtain ⟨es₁, rfl, hperm, hds⟩ := h.cell
    obtain ⟨es₂, rfl, hperm', hes⟩ := h'.cell
    refine ⟨es₁ ++ es₂, List.map_append.symm, ?_, ?_⟩
    · refine hperm'.trans ?_
      rw [← List.append_assoc]
      exact hperm.append_right _
    · intro e he
      rcases List.mem_append.1 he with he | he
      · obtain ⟨d, hd, hlhs⟩ := hds e he
        exact ⟨d, List.mem_append_left _ hd, hlhs⟩
      · obtain ⟨d, hd, hlhs⟩ := hes e he
        exact ⟨d, List.mem_append_right _ hd, hlhs⟩
  entry := by
    intro lhs
    obtain ⟨id, hid⟩ := h.entry lhs
    obtain ⟨id', hid'⟩ := h'.entry lhs
    rw [hid', hid, withLhs_append]
    exact exists_gather_append ..

variable {c : Constituent} {id : Nat}

/-- What is listed stays listed. -/
theorem mem_cellAt (h : Records i j ds made f f') {e : Symbol × Nat}
    (he : e ∈ f.cellAt a b) : e ∈ f'.cellAt a b := by
  by_cases hspan : a = i ∧ b = j
  · obtain ⟨rfl, rfl⟩ := hspan
    obtain ⟨es, -, hperm, -⟩ := h.cell
    exact hperm.mem_iff.2 (List.mem_append_left _ he)
  · rwa [h.cellAt_of_ne a b hspan]

/-- What has been recorded has its left-hand side listed. -/
theorem exists_mem (h : Records i j ds made f f') {d : Derivation}
    (hd : d ∈ ds) : ∃ id, (d.rule.rule.lhs, id) ∈ f'.cellAt i j := by
  by_contra hno
  obtain ⟨id, hnone⟩ := h.entry d.rule.rule.lhs
  have hmem : d ∈ withLhs d.rule.rule.lhs ds := mem_withLhs.2 ⟨hd, rfl⟩
  rw [h.sound.entry?_eq_none.2 hno] at hnone
  cases ho : f.entry? i j d.rule.rule.lhs with
  | none =>
      rw [ho] at hnone
      rw [gather_eq_none.1 hnone.symm] at hmem
      cases hmem
  | some c =>
      rw [ho, gather_some] at hnone
      cases hnone

/-- Constituents over other spans stay as they are, and those over the span
gather what has been recorded with their left-hand side. -/
theorem constituent_cases (h : Records i j ds made f f') (hf : f.Sound)
    (hc : f'.constituents[id]? = some c) :
    (c.start = i ∧ c.stop = j ∧ ∃ n,
        some c = gather n i j c.lhs f.constituents[id]? (withLhs c.lhs ds))
      ∨ (¬ (c.start = i ∧ c.stop = j) ∧ f.constituents[id]? = some c) := by
  have hmem := h.sound.mem_of_constituent hc
  by_cases hspan : c.start = i ∧ c.stop = j
  · refine Or.inl ⟨hspan.1, hspan.2, ?_⟩
    rw [hspan.1, hspan.2] at hmem
    obtain ⟨n, hentry⟩ := h.entry c.lhs
    rw [h.sound.entry?_of_mem hmem, hc] at hentry
    refine ⟨n, ?_⟩
    rw [hentry]
    congr 1
    by_cases hlisted : ∃ k, (c.lhs, k) ∈ f.cellAt i j
    · obtain ⟨k, hk⟩ := hlisted
      obtain rfl :=
        Cell.eq_of_mem (h.sound.ascending i j) (h.mem_cellAt hk) hmem
      exact hf.entry?_of_mem hk
    · rw [hf.entry?_eq_none.2 hlisted]
      cases hold : f.constituents[id]? with
      | none => rfl
      | some b =>
          have hb := hf.mem_of_constituent hold
          obtain ⟨hlhs, hstart, hstop⟩ :=
            h.sound.span_eq (h.mem_cellAt hb) hmem
          rw [hlhs, hstart, hstop] at hb
          exact absurd ⟨id, hb⟩ hlisted
  · refine Or.inr ⟨hspan, ?_⟩
    rw [h.cellAt_of_ne _ _ hspan] at hmem
    rw [← h.constituent_of_ne _ _ hspan _ _ hmem, hc]

end Records

/-- A constituent that is made collects its derivations. -/
theorem collects_of_gather {id : Nat} {lhs : Symbol} {c : Constituent}
    {ds : List Derivation} (h : some c = gather id i j lhs none ds) :
    Collects ds c.derivations.toList := by
  cases ds with
  | nil => cases h
  | cons d ds =>
      rw [gather_cons] at h
      injection h with h
      rw [h]
      simpa using Constituent.collects_recordAll
        (c := ⟨id, lhs, i, j, #[]⟩) Collects.nil (d :: ds)

-- ====================================================== one completion

variable {d : Derivation}

/-- The forest in which constituent `id` has been replaced. -/
def replace (f : Forest) (id : Nat) (c : Constituent) (count : Nat) : Forest :=
  { f with
    constituents := f.constituents.setIfInBounds id c
    derivationCount := count }

/-- The forest in which a constituent has been listed over a span. -/
def listNew (f : Forest) (c : Constituent) (count : Nat) : Forest where
  cells := f.cells.set c.start c.stop
    ((f.cellAt c.start c.stop).insert c.lhs f.constituents.size)
  constituents := f.constituents.push c
  derivationCount := count

@[simp]
theorem cellAt_replace (f : Forest) (id : Nat) (c : Constituent)
    (count a b : Nat) : (f.replace id c count).cellAt a b = f.cellAt a b := rfl

theorem getElem?_replace (f : Forest) {id : Nat} {c : Constituent}
    (count k : Nat) (hid : id < f.constituents.size) :
    (f.replace id c count).constituents[k]?
      = if k = id then some c else f.constituents[k]? := by
  show (f.constituents.setIfInBounds id c)[k]? = _
  rw [Array.getElem?_setIfInBounds]
  by_cases hk : id = k
  · subst hk
    simp [hid]
  · rw [if_neg hk, if_neg fun h => hk h.symm]

/-- Replacing a constituent by one with the same number, span and left-hand
side keeps the forest sound. -/
theorem Sound.replace (h : f.Sound) {id : Nat} {c c' : Constituent}
    (hc : f.constituents[id]? = some c) (hnumber : c'.id = c.id)
    (hlhs : c'.lhs = c.lhs) (hstart : c'.start = c.start)
    (hstop : c'.stop = c.stop) (count : Nat) :
    (f.replace id c' count).Sound where
  numbered := by
    intro k b hb
    rw [getElem?_replace f count k (Array.getElem?_eq_some_iff.1 hc).1] at hb
    split at hb
    case isTrue hk =>
      injection hb with hb
      rw [← hb, hnumber, hk, h.numbered hc]
    case isFalse => exact h.numbered hb
  ascending := h.ascending
  listed := by
    intro i j lhs k
    have hid := (Array.getElem?_eq_some_iff.1 hc).1
    rw [cellAt_replace, h.listed, getElem?_replace f count k hid]
    by_cases hk : k = id
    · subst hk
      simp [hc, hlhs, hstart, hstop]
    · rw [if_neg hk]

/-- Replacing a constituent changes its own entry and no other. -/
theorem Sound.entry?_replace (h : f.Sound) {id : Nat} {c c' : Constituent}
    (hc : f.constituents[id]? = some c) (hnumber : c'.id = c.id)
    (hlhs : c'.lhs = c.lhs) (hstart : c'.start = c.start)
    (hstop : c'.stop = c.stop) (count : Nat) (lhs : Symbol) :
    entry? (f.replace id c' count) c.start c.stop lhs
      = if lhs = c.lhs then some c' else f.entry? c.start c.stop lhs := by
  have hid := (Array.getElem?_eq_some_iff.1 hc).1
  have hmem := h.mem_of_constituent hc
  by_cases hsame : lhs = c.lhs
  · subst hsame
    rw [(h.replace hc hnumber hlhs hstart hstop count).entry?_of_mem hmem,
      getElem?_replace f count id hid, if_pos rfl, if_pos rfl]
  · rw [if_neg hsame]
    refine entry?_congr rfl fun k hk => ?_
    rw [getElem?_replace f count k hid, if_neg]
    intro heq
    subst heq
    exact hsame (h.span_eq hk hmem).1

/-- Recording another derivation of a constituent. -/
theorem Sound.records_replace (h : f.Sound) {id : Nat} {c : Constituent}
    (hmem : (d.rule.rule.lhs, id) ∈ f.cellAt i j)
    (hc : f.constituents[id]? = some c) (count : Nat) :
    Records i j [d] [] f (f.replace id (c.record d).1 count) := by
  have hid := (Array.getElem?_eq_some_iff.1 hc).1
  obtain ⟨hlhs, rfl, rfl⟩ := h.span_eq hmem (h.mem_of_constituent hc)
  refine ⟨rfl, h.replace hc (by simp) (by simp) (by simp) (by simp) count,
    fun _ _ _ => rfl, ?_, ?_, ⟨[], rfl, by simp, by simp⟩, ?_⟩
  · intro a b hne lhs k hk
    rw [getElem?_replace f count k hid, if_neg]
    intro heq
    subst heq
    obtain ⟨-, rfl, rfl⟩ := h.span_eq hk hmem
    exact hne ⟨rfl, rfl⟩
  · exact Nat.le_of_eq Array.size_setIfInBounds.symm
  · intro lhs
    refine ⟨id, ?_⟩
    rw [h.entry?_replace hc (by simp) (by simp) (by simp) (by simp)]
    by_cases hsame : lhs = c.lhs
    · subst hsame
      rw [if_pos rfl, h.entry?_of_mem (h.mem_of_constituent hc), hc]
      simp [withLhs, gather, hlhs]
    · rw [if_neg hsame]
      have hnone : withLhs lhs [d] = [] := by
        simp [withLhs, hlhs, Ne.symm hsame]
      rw [hnone]
      rfl

theorem cellAt_listNew (f : Forest) (c : Constituent) (count a b : Nat)
    (hspan : c.start ≤ c.stop) (hmax : c.stop ≤ f.cells.max) :
    (f.listNew c count).cellAt a b
      = if a = c.start ∧ b = c.stop
        then (f.cellAt a b).insert c.lhs f.constituents.size
        else f.cellAt a b := by
  show ((f.cells.set c.start c.stop _).get? a b).getD [] = _
  rw [Triangle.get?_set]
  split
  case isFalse => rfl
  case isTrue hab =>
    obtain ⟨rfl, rfl⟩ := hab
    obtain ⟨cell, hcell⟩ := f.cells.exists_get?_eq hspan hmax
    rw [hcell]
    rfl

theorem getElem?_listNew (f : Forest) (c : Constituent) (count k : Nat) :
    (f.listNew c count).constituents[k]?
      = if k = f.constituents.size then some c else f.constituents[k]? :=
  Array.getElem?_push

/-- Listing a constituent whose left-hand side the cell does not have keeps
the forest sound. -/
theorem Sound.listNew (h : f.Sound) {c : Constituent}
    (hnumber : c.id = f.constituents.size) (hspan : c.start ≤ c.stop)
    (hmax : c.stop ≤ f.cells.max)
    (hnew : ∀ k, (c.lhs, k) ∉ f.cellAt c.start c.stop) (count : Nat) :
    (f.listNew c count).Sound where
  numbered := by
    intro k b hb
    rw [getElem?_listNew] at hb
    split at hb
    case isTrue hk =>
      injection hb with hb
      rw [← hb, hnumber, hk]
    case isFalse => exact h.numbered hb
  ascending := by
    intro a b
    rw [cellAt_listNew f c count a b hspan hmax]
    split
    case isFalse => exact h.ascending a b
    case isTrue hab =>
      obtain ⟨rfl, rfl⟩ := hab
      exact Cell.ascending_insert (h.ascending _ _) hnew
  listed := by
    intro a b lhs k
    have hold : (lhs, k) ∈ f.cellAt a b → k ≠ f.constituents.size :=
      fun hk => Nat.ne_of_lt (h.lt_size hk)
    rw [cellAt_listNew f c count a b hspan hmax, getElem?_listNew]
    by_cases hab : a = c.start ∧ b = c.stop
    · obtain ⟨rfl, rfl⟩ := hab
      rw [if_pos ⟨rfl, rfl⟩, Cell.mem_insert]
      by_cases hk : k = f.constituents.size
      · subst hk
        simp only [Prod.mk.injEq, and_true, if_true, Option.some.injEq,
          exists_eq_left', and_self, or_iff_left fun hm => hold hm rfl]
        exact eq_comm
      · rw [if_neg hk, ← h.listed]
        simp [hk]
    · rw [if_neg hab]
      by_cases hk : k = f.constituents.size
      · subst hk
        rw [if_pos rfl]
        constructor
        · exact fun hm => absurd rfl (hold hm)
        · intro h'
          obtain ⟨c', hc', -, rfl, rfl⟩ := h'
          injection hc' with hc'
          subst hc'
          exact absurd ⟨rfl, rfl⟩ hab
      · rw [if_neg hk, h.listed]

/-- Listing a constituent adds its own entry and changes no other. -/
theorem Sound.entry?_listNew (h : f.Sound) {c : Constituent}
    (hnumber : c.id = f.constituents.size) (hspan : c.start ≤ c.stop)
    (hmax : c.stop ≤ f.cells.max)
    (hnew : ∀ k, (c.lhs, k) ∉ f.cellAt c.start c.stop) (count : Nat)
    (lhs : Symbol) :
    entry? (f.listNew c count) c.start c.stop lhs
      = if lhs = c.lhs then some c else f.entry? c.start c.stop lhs := by
  have hsound := h.listNew hnumber hspan hmax hnew count
  have hmem : ∀ s k, (s, k) ∈ (f.listNew c count).cellAt c.start c.stop
      ↔ (s, k) = (c.lhs, f.constituents.size)
        ∨ (s, k) ∈ f.cellAt c.start c.stop := by
    intro s k
    rw [cellAt_listNew f c count _ _ hspan hmax, if_pos ⟨rfl, rfl⟩,
      Cell.mem_insert]
  by_cases hsame : lhs = c.lhs
  · subst hsame
    rw [hsound.entry?_of_mem ((hmem _ _).2 (Or.inl rfl)), getElem?_listNew,
      if_pos rfl, if_pos rfl]
  · rw [if_neg hsame]
    refine entry?_congr (Option.ext fun k => ?_) fun k hk => ?_
    · rw [hsound.find?_eq_some, h.find?_eq_some, hmem, or_iff_right]
      exact fun heq => hsame (congrArg Prod.fst heq)
    · rw [getElem?_listNew, if_neg (Nat.ne_of_lt (h.lt_size hk))]

/-- Recording the first derivation of a constituent. -/
theorem Sound.records_listNew (h : f.Sound) (hij : i ≤ j)
    (hj : j ≤ f.cells.max) (hnew : ∀ k, (d.rule.rule.lhs, k) ∉ f.cellAt i j)
    (count : Nat) :
    Records i j [d] [f.constituents.size] f
      (f.listNew ⟨f.constituents.size, d.rule.rule.lhs, i, j, #[d]⟩ count) := by
  have hcell :=
    cellAt_listNew f ⟨f.constituents.size, d.rule.rule.lhs, i, j, #[d]⟩ count
  refine ⟨Triangle.max_set .., h.listNew rfl hij hj hnew count, ?_, ?_, ?_,
    ?_, ?_⟩
  · intro a b hne
    rw [hcell a b hij hj, if_neg hne]
  · intro a b hne lhs k hk
    rw [getElem?_listNew, if_neg (Nat.ne_of_lt (h.lt_size hk))]
  · exact Nat.le_of_lt (by simp [Forest.listNew])
  · refine ⟨[(d.rule.rule.lhs, f.constituents.size)], rfl, ?_, ?_⟩
    · rw [hcell i j hij hj, if_pos ⟨rfl, rfl⟩]
      exact (Cell.insert_perm ..).trans (List.perm_append_singleton ..).symm
    · intro e he
      rw [List.mem_singleton] at he
      subst he
      exact ⟨d, List.mem_singleton_self _, rfl⟩
  · intro lhs
    have hentry := h.entry?_listNew
      (c := ⟨f.constituents.size, d.rule.rule.lhs, i, j, #[d]⟩) rfl hij hj hnew
      count lhs
    refine ⟨f.constituents.size, ?_⟩
    rw [hentry]
    by_cases hsame : lhs = d.rule.rule.lhs
    · subst hsame
      rw [if_pos rfl, entry?_of_not_mem hnew]
      simp [withLhs, gather, Constituent.record]
    · have hnone : withLhs lhs [d] = [] := by simp [withLhs, Ne.symm hsame]
      rw [if_neg hsame, hnone]
      rfl

-- ============================================================== answers

variable {c : Constituent} {lhs : Symbol} {id : Nat}

/-- There is nothing to make outside the table. -/
theorem ensure?_eq_none :
    f.ensure? i j lhs = none ↔ ¬ (i ≤ j ∧ j ≤ f.cells.max) := by
  rw [← f.cells.get?_eq_none]
  unfold ensure?
  cases f.cells.get? i j with
  | none => simp
  | some cell => cases hfind : cell.find? lhs <;> simp [hfind]

/-- A constituent that is listed is not made again. -/
theorem Sound.ensure?_of_mem (h : f.Sound) (hmem : (lhs, id) ∈ f.cellAt i j) :
    f.ensure? i j lhs = some (f, id, false) := by
  have hfind := h.find?_eq_some.2 hmem
  unfold find? cellAt at hfind
  unfold cellAt at hmem
  unfold ensure?
  cases hcell : f.cells.get? i j with
  | none =>
      rw [hcell] at hmem
      cases hmem
  | some cell =>
      rw [hcell] at hfind
      have hfind : cell.find? lhs = some id := hfind
      simp only [hfind]

/-- A constituent that is not listed is made without derivations. -/
theorem ensure?_of_not_mem (hij : i ≤ j) (hj : j ≤ f.cells.max)
    (hnew : ∀ k, (lhs, k) ∉ f.cellAt i j) :
    f.ensure? i j lhs
      = some (f.listNew ⟨f.constituents.size, lhs, i, j, #[]⟩
          f.derivationCount, f.constituents.size, true) := by
  obtain ⟨cell, hcell⟩ := f.cells.exists_get?_eq hij hj
  have hat : f.cellAt i j = cell := by
    unfold cellAt
    rw [hcell]
    rfl
  have hfind : cell.find? lhs = none :=
    Cell.find?_eq_none.2 fun k hk => hnew k (hat ▸ hk)
  unfold ensure?
  simp only [hcell, hfind]
  unfold listNew
  rw [hat]

/-- Recording a derivation of a constituent that there is. -/
theorem record_of_some (hc : f.constituents[id]? = some c)
    (d : Derivation) :
    f.record id d
      = (f.replace id (c.record d).1
          (f.derivationCount + if (c.record d).2 then 1 else 0),
        (c.record d).2) := by
  unfold record
  rw [hc]
  rfl

theorem record_of_none (hc : f.constituents[id]? = none)
    (d : Derivation) : f.record id d = (f, false) := by
  unfold record
  rw [hc]

/-- Neither kind of call changes which spans there are. -/
theorem max_ensure? {made : Bool}
    (h : f.ensure? i j lhs = some (f', id, made)) :
    f'.cells.max = f.cells.max := by
  unfold ensure? at h
  split at h
  case h_1 => cases h
  case h_2 cell hcell =>
    split at h
    case h_1 => cases h; rfl
    case h_2 => cases h; exact Triangle.max_set ..

theorem max_record (f : Forest) (id : Nat) (d : Derivation) :
    (f.record id d).1.cells.max = f.cells.max := by
  cases hc : f.constituents[id]? with
  | none => rw [record_of_none hc]
  | some c => rw [record_of_some hc]; rfl

end Forest

end LatticeParsing
