/-
Reading the text of a lattice.

The reader cuts a text at its parentheses and interns labels as it goes, and
stops at the first fault. Main statement (`texts_are_read_as_written`): it
takes just the texts that have the form of a lattice and whose arcs lead ahead
to nodes that there are, and the lattice then has just the arcs that are
written, in their order.

The symbol of a label is that of the vocabulary at the time of its arc. No
label that is read later changes it (`Vocabulary.Keeps`), so all labels can
be looked up in the vocabulary of the end.
-/
import LatticeParsing.Proofs.Lattice.Building
import LatticeParsing.Proofs.Lattice.Cutting
import LatticeParsing.Proofs.Symbol.Interning

namespace LatticeParsing

open Text

theorem except_bind_eq_ok {ε α β : Type} {o : Except ε α}
    {f : α → Except ε β} {y : β} :
    o >>= f = .ok y ↔ ∃ x, o = .ok x ∧ f x = .ok y := by
  cases o <;> simp [bind, Except.bind]

namespace LatticeText

variable {v v' v'' : Vocabulary} {tail k : Nat} {t : Tuple} {ts : List Tuple}
  {a : WrittenArc} {as : List WrittenArc} {nodes : List (List WrittenArc)}

-- ================================================================ arcs

/-- The spelling of the label of an arc. -/
def WrittenArc.word (a : WrittenArc) : String := String.ofList a.label

/-- The arc at node `tail` of a lattice, with the symbol that the label has
in a vocabulary. -/
def WrittenArc.at (v : Vocabulary) (tail : Nat) (a : WrittenArc) : Arc :=
  ⟨tail, tail + a.offset, a.cost, (v.internWord a.word).2⟩

/-- Reading an arc that is written as it should be. -/
theorem arc_eq_of_form (h : ArcForm t.body a)
    (hcount : tail + a.offset ≤ maxCount) :
    arc v tail t = .ok ((v.internWord a.word).1, a.at v tail) := by
  obtain ⟨text, htext, hlabel, hcost, hoffset⟩ := arcForm_iff.1 h
  unfold arc WrittenArc.at WrittenArc.word
  simp only [htext, hcost, hoffset, if_neg (Nat.not_lt.2 hcount), hlabel]
  rfl

theorem exists_form_of_arc {r : Vocabulary × Arc} (h : arc v tail t = .ok r) :
    ∃ a, ArcForm t.body a ∧ tail + a.offset ≤ maxCount := by
  unfold arc at h
  cases htext : arcText? t.body with
  | none =>
      simp only [htext] at h
      cases h
  | some text =>
  cases hcost : Cost.ofText? text.cost with
  | none =>
      simp only [htext, hcost] at h
      cases h
  | some cost =>
  cases hoffset : count? text.offset with
  | none =>
      simp only [htext, hcost, hoffset] at h
      cases h
  | some offset =>
      refine ⟨⟨text.label, cost, offset⟩,
        arcForm_iff.2 ⟨text, htext, rfl, hcost, hoffset⟩, ?_⟩
      by_contra hcount
      simp only [htext, hcost, hoffset, if_pos (Nat.not_le.1 hcount)] at h
      cases h

/-- Reading arcs that are written as they should be. Their symbols are those
that the labels have in the end. -/
theorem arcs_of_forms
    (h : List.Forall₂ (fun t a => ArcForm t.body a) ts as)
    (hcount : ∀ a ∈ as, tail + a.offset ≤ maxCount) :
    ∃ here, arcs v tail ts
        = ((v.internWords (as.map WrittenArc.word)).1, .ok here)
      ∧ ∀ v', (v.internWords (as.map WrittenArc.word)).1.Keeps v' →
          here = as.map (WrittenArc.at v' tail) := by
  induction h generalizing v with
  | nil => exact ⟨[], rfl, fun _ _ => rfl⟩
  | @cons t a ts as ha _ ih =>
      obtain ⟨hfirst, hcount⟩ := List.forall_mem_cons.1 hcount
      obtain ⟨here, hread, hhere⟩ := ih (v := (v.internWord a.word).1) hcount
      refine ⟨a.at v tail :: here, ?_, fun v' hkeeps => ?_⟩
      · unfold arcs
        simp only [arc_eq_of_form ha hfirst, hread]
        rfl
      · have hsymbol := Vocabulary.snd_internWord_of_keeps
          ((Vocabulary.keeps_internWords _ _).trans hkeeps)
        rw [List.map_cons, hhere v' hkeeps]
        unfold WrittenArc.at
        rw [hsymbol]

theorem exists_forms_of_arcs {here : List Arc}
    (h : (arcs v tail ts).2 = .ok here) :
    ∃ as, List.Forall₂ (fun t a => ArcForm t.body a) ts as
      ∧ ∀ a ∈ as, tail + a.offset ≤ maxCount := by
  induction ts generalizing v here with
  | nil => exact ⟨[], .nil, by simp⟩
  | cons t ts ih =>
      unfold arcs at h
      cases harc : arc v tail t with
      | error e => simp [harc] at h
      | ok r =>
          simp only [harc] at h
          obtain ⟨rest, hrest, -⟩ := map_eq_ok.1 h
          obtain ⟨a, ha, hcount⟩ := exists_form_of_arc harc
          obtain ⟨as, has, hcounts⟩ := ih hrest
          exact ⟨a :: as, .cons ha has,
            List.forall_mem_cons.2 ⟨hcount, hcounts⟩⟩

-- =============================================================== nodes

/-- The arcs of nodes from `tail` on. -/
def arcsAt (v : Vocabulary) : Nat → List (List WrittenArc) → List Arc
  | _, [] => []
  | tail, as :: nodes =>
    as.map (WrittenArc.at v tail) ++ arcsAt v (tail + 1) nodes

/-- Whether no arc of nodes from `tail` on leads beyond `limit`. -/
def Within (limit tail : Nat) (nodes : List (List WrittenArc)) : Prop :=
  ∀ k as, nodes[k]? = some as → ∀ a ∈ as, tail + k + a.offset ≤ limit

theorem within_cons {limit : Nat} : Within limit tail (as :: nodes)
    ↔ (∀ a ∈ as, tail + a.offset ≤ limit) ∧ Within limit (tail + 1) nodes := by
  constructor
  · intro h
    refine ⟨h 0 as rfl, fun k bs hbs a ha => ?_⟩
    have hle := h (k + 1) bs hbs a ha
    omega
  · intro h k bs hbs a ha
    cases k with
    | zero =>
        cases hbs
        exact h.1 a ha
    | succ k =>
        have hle := h.2 k bs hbs a ha
        omega

/-- The spellings of all labels, in the order in which they are read. -/
def words (nodes : List (List WrittenArc)) : List String :=
  nodes.flatten.map WrittenArc.word

/-- Reading nodes that are written as they should be. -/
theorem nodes_of_forms
    (h : List.Forall₂ (fun t as => Series ArcForm t.body as) ts nodes)
    (hcount : Within maxCount tail nodes) :
    ∃ all, LatticeText.nodes v tail ts
        = ((v.internWords (words nodes)).1, .ok all)
      ∧ ∀ v', (v.internWords (words nodes)).1.Keeps v' →
          all = arcsAt v' tail nodes := by
  induction h generalizing v tail with
  | nil => exact ⟨[], rfl, fun _ _ => rfl⟩
  | @cons t as ts nodes ht _ ih =>
      obtain ⟨hfirst, hcount⟩ := within_cons.1 hcount
      obtain ⟨arcTuples, hcut, hforms⟩ :=
        (Series.iff_tuples ArcForm.balanced).1 ht
      obtain ⟨here, hread, hhere⟩ := arcs_of_forms (v := v) hforms hfirst
      obtain ⟨rest, hrest, hall⟩ :=
        ih (v := (v.internWords (as.map WrittenArc.word)).1) hcount
      have hwords : (v.internWords (words (as :: nodes))).1
          = ((v.internWords (as.map WrittenArc.word)).1.internWords
              (words nodes)).1 := by
        rw [← Vocabulary.fst_internWords_append]
        simp [words]
      refine ⟨here ++ rest, ?_, fun v' hkeeps => ?_⟩
      · unfold LatticeText.nodes
        simp only [hcut, hread, hrest, hwords]
        rfl
      · rw [hwords] at hkeeps
        have hkeeps' := (Vocabulary.keeps_internWords _ _).trans hkeeps
        rw [hhere v' hkeeps', hall v' hkeeps]
        rfl

theorem exists_forms_of_nodes {all : List Arc}
    (h : (LatticeText.nodes v tail ts).2 = .ok all) :
    ∃ nodes, List.Forall₂ (fun t as => Series ArcForm t.body as) ts nodes
      ∧ Within maxCount tail nodes := by
  induction ts generalizing v tail all with
  | nil => exact ⟨[], .nil, by simp [Within]⟩
  | cons t ts ih =>
      unfold LatticeText.nodes at h
      cases hcut : tuples t with
      | error e => simp [hcut] at h
      | ok arcTuples =>
      rcases hread : arcs v tail arcTuples with ⟨v₁, e | here⟩
      · simp [hcut, hread] at h
      · simp only [hcut, hread] at h
        obtain ⟨rest, hrest, -⟩ := map_eq_ok.1 h
        obtain ⟨as, has, hfirst⟩ := exists_forms_of_arcs (congrArg _ hread)
        obtain ⟨nodes, hnodes, hcount⟩ := ih hrest
        exact ⟨as :: nodes,
          .cons ((Series.iff_tuples ArcForm.balanced).2
            ⟨arcTuples, hcut, has⟩) hnodes,
          within_cons.2 ⟨hfirst, hcount⟩⟩

theorem mem_arcsAt {b : Arc} : b ∈ arcsAt v tail nodes
    ↔ ∃ (k : Nat) (as : List WrittenArc), nodes[k]? = some as
        ∧ ∃ a ∈ as, b = a.at v (tail + k) := by
  induction nodes generalizing tail with
  | nil => simp [arcsAt]
  | cons as nodes ih =>
      unfold arcsAt
      rw [List.mem_append, List.mem_map, ih]
      constructor
      · intro h
        rcases h with ⟨a, ha, rfl⟩ | ⟨k, bs, hbs, a, ha, rfl⟩
        · exact ⟨0, as, rfl, a, ha, rfl⟩
        · exact ⟨k + 1, bs, hbs, a, ha, by rw [Nat.add_assoc, Nat.add_comm 1]⟩
      · intro h
        obtain ⟨k, bs, hbs, a, ha, rfl⟩ := h
        cases k with
        | zero =>
            cases hbs
            exact Or.inl ⟨a, ha, rfl⟩
        | succ k =>
            exact Or.inr ⟨k, bs, hbs, a, ha, by
              rw [Nat.add_assoc, Nat.add_comm 1]⟩

/-- The arcs that leave a node are those written there, in their order. -/
theorem arcsWithTail_arcsAt (v : Vocabulary) (tail : Nat)
    (nodes : List (List WrittenArc)) (t : Nat) :
    Lattice.arcsWithTail (arcsAt v tail nodes) t
      = if tail ≤ t then
          (nodes[t - tail]?.getD []).map (WrittenArc.at v t)
        else [] := by
  unfold Lattice.arcsWithTail
  induction nodes generalizing tail with
  | nil => simp [arcsAt]
  | cons as nodes ih =>
      unfold arcsAt
      rw [List.filter_append, ih]
      by_cases ht : tail = t
      · subst ht
        have hall : ∀ b ∈ as.map (WrittenArc.at v tail),
            (b.tail == tail) = true := by
          simp [WrittenArc.at]
        rw [List.filter_eq_self.2 hall, if_neg (by omega), if_pos (by omega)]
        simp
      · have hnone : (as.map (WrittenArc.at v tail)).filter (·.tail == t)
            = [] := by
          simp [WrittenArc.at, ht]
        rw [hnone, List.nil_append]
        by_cases hlt : tail + 1 ≤ t
        · obtain ⟨k, rfl⟩ := Nat.exists_eq_add_of_le hlt
          rw [if_pos hlt, if_pos (by omega), Nat.add_sub_cancel_left,
            show tail + 1 + k - tail = k + 1 by omega]
          rfl
        · rw [if_neg hlt, if_neg (by omega)]

end LatticeText

-- ============================================================= lattices

namespace LatticeText

variable {v : Vocabulary} {cs : List Char} {nodes : List (List WrittenArc)}

/-- Whether every arc leads at least one node ahead, and to a node that there
is: the last one is not written. -/
def LeadAhead (nodes : List (List WrittenArc)) : Prop :=
  ∀ t as, nodes[t]? = some as → ∀ a ∈ as,
    1 ≤ a.offset ∧ t + a.offset ≤ nodes.length

theorem leadAhead_iff (v : Vocabulary) : LeadAhead nodes
    ↔ ∀ b ∈ arcsAt v 0 nodes, b.tail < b.head ∧ b.head < nodes.length + 1 := by
  constructor
  · intro h b hb
    obtain ⟨k, as, has, a, ha, rfl⟩ := mem_arcsAt.1 hb
    obtain ⟨hforward, hle⟩ := h k as has a ha
    simp only [WrittenArc.at]
    omega
  · intro h t as has a ha
    have hb := h _ (mem_arcsAt.2 ⟨t, as, has, a, ha, rfl⟩)
    simp only [WrittenArc.at] at hb
    omega

/-- A text has the form of a lattice just if it is cut into nodes of that
form. -/
theorem latticeForm_iff_nodeTuples : LatticeForm cs nodes
    ↔ ∃ ts, nodeTuples cs = .ok ts
        ∧ List.Forall₂ (fun t as => Series ArcForm t.body as) ts nodes := by
  have harcs : ∀ {body as}, Series ArcForm body as → Balanced body :=
    fun h => h.balanced ArcForm.balanced
  rw [latticeForm_iff, show cs = (Tuple.mk 0 cs).body from rfl,
    Series.iff_tuples fun h => h.balanced harcs]
  constructor
  · intro h
    obtain ⟨_, hcut, hone⟩ := h
    obtain _ | ⟨houter, _ | _⟩ := hone
    rename_i outer
    obtain ⟨ts, hts, hnodes⟩ := (Series.iff_tuples harcs).1 houter
    refine ⟨ts, ?_, hnodes⟩
    unfold nodeTuples
    rw [hcut]
    exact hts
  · intro h
    obtain ⟨ts, hts, hnodes⟩ := h
    unfold nodeTuples at hts
    cases hcut : tuples ⟨0, cs⟩ with
    | error e =>
        rw [hcut] at hts
        cases hts
    | ok outers =>
        rw [hcut] at hts
        match outers with
        | [outer] =>
            exact ⟨[outer], rfl,
              .cons ((Series.iff_tuples harcs).2 ⟨ts, hts, hnodes⟩) .nil⟩
        | [] => cases hts
        | _ :: _ :: _ => cases hts

theorem LatticeForm.length_le (h : LatticeForm cs nodes) :
    nodes.length ≤ cs.length := by
  obtain ⟨s, body, s', -, hbody, -, rfl⟩ := h
  have hle := hbody.length_le
  simp only [List.length_append, List.length_cons]
  omega

theorem LeadAhead.within (h : LeadAhead nodes)
    (hlength : nodes.length ≤ maxCount) : Within maxCount 0 nodes := by
  intro k as has a ha
  have hle := (h k as has a ha).2
  omega

/-- A text that has the form of a lattice is read. -/
theorem ofText_of_form {text : String}
    (hform : LatticeForm text.toList nodes) (hlead : LeadAhead nodes)
    (hlength : text.length ≤ maxCount) :
    let v' := (v.internWords (words nodes)).1
    ∃ l, Lattice.ofText v text = (v', .ok l)
      ∧ l.nodeCount = nodes.length + 1
      ∧ ∀ t, l.arcsFrom t
          = (nodes[t]?.getD []).map (WrittenArc.at v' t) := by
  intro v'
  have hcount := hlead.within (Nat.le_trans hform.length_le hlength)
  obtain ⟨ts, hts, hforms⟩ := latticeForm_iff_nodeTuples.1 hform
  obtain ⟨all, hread, hall⟩ := nodes_of_forms (v := v) hforms hcount
  obtain rfl := hall v' (.refl v')
  obtain ⟨l, hl, hnodes, harcs⟩ := Lattice.ofArcs_of_forall
    (Nat.succ_pos _) ((leadAhead_iff v').1 hlead)
  refine ⟨l, ?_, hnodes, fun t => ?_⟩
  · unfold Lattice.ofText
    simp only [hts, hread, hforms.length_eq]
    exact Prod.ext rfl hl
  · rw [harcs, arcsWithTail_arcsAt, if_pos (Nat.zero_le t), Nat.sub_zero]

/-- A text that is read has the form of a lattice. -/
theorem exists_form_of_ofText {text : String} {l : Lattice}
    (h : (Lattice.ofText v text).2 = .ok l) :
    ∃ nodes, LatticeForm text.toList nodes ∧ LeadAhead nodes := by
  unfold Lattice.ofText at h
  cases hts : nodeTuples text.toList with
  | error e => simp [hts] at h
  | ok ts =>
      simp only [hts] at h
      obtain ⟨all, hread, hl⟩ := except_bind_eq_ok.1 h
      obtain ⟨nodes, hforms, hcount⟩ := exists_forms_of_nodes hread
      obtain ⟨all', hread', hall⟩ := nodes_of_forms (v := v) hforms hcount
      have hsame : all = all' := by
        rw [hread'] at hread
        injection hread with hread
        exact hread.symm
      subst hsame
      refine ⟨nodes, latticeForm_iff_nodeTuples.2 ⟨ts, hts, hforms⟩, ?_⟩
      rw [leadAhead_iff (v.internWords (words nodes)).1, ← hforms.length_eq,
        ← hall _ (.refl _)]
      exact (Lattice.forall_of_ofArcs hl).2

end LatticeText

open LatticeText

/-- A text is read as a lattice just if it has the form of one and its arcs
lead ahead to nodes that there are. The lattice then has one node more than
are written. What leaves a node are the arcs that are written there, in their
order: each leads as many nodes ahead as its offset says, has the cost that is
written, and is labelled by the terminal of its label, in which escapes have
been replaced. The vocabulary has got the labels as the text goes on. A text
is never longer than what can be counted. -/
theorem texts_are_read_as_written (v : Vocabulary) (text : String)
    (hlength : text.length ≤ maxCount) :
    ((∃ l, (Lattice.ofText v text).2 = .ok l)
        ↔ ∃ nodes, LatticeForm text.toList nodes ∧ LeadAhead nodes)
      ∧ ∀ nodes, LatticeForm text.toList nodes → LeadAhead nodes →
          let v' := (v.internWords (words nodes)).1
          ∃ l, Lattice.ofText v text = (v', .ok l)
            ∧ l.nodeCount = nodes.length + 1
            ∧ ∀ t, l.arcsFrom t
                = (nodes[t]?.getD []).map fun a =>
                    ⟨t, t + a.offset, a.cost, (v'.internWord a.word).2⟩ := by
  refine ⟨⟨?_, ?_⟩, fun nodes hform hlead =>
    ofText_of_form hform hlead hlength⟩
  · intro h
    obtain ⟨l, hl⟩ := h
    exact exists_form_of_ofText hl
  · intro h
    obtain ⟨nodes, hform, hlead⟩ := h
    obtain ⟨l, hl, -⟩ := ofText_of_form (v := v) hform hlead hlength
    exact ⟨l, congrArg Prod.snd hl⟩

/-- A label of parentheses, one of them escaped. -/
theorem parentheses_in_quotes_are_read_as_written :
    "((('(\\)',0,1),),)".length ≤ maxCount
      ∧ ∃ l, Lattice.ofText {} "((('(\\)',0,1),),)" = (⟨#["()"], #[]⟩, .ok l)
          ∧ l.nodeCount = 2 ∧ l.arcsFrom 0 = [⟨0, 1, .zero, 1⟩] := by
  have hlength : "((('(\\)',0,1),),)".length ≤ maxCount := by decide
  have hcomma : Separators [','] := by simp [Separators, isSeparator]
  have hlabel : QuotedForm ['\'', '(', '\\', ')', '\''] ['(', ')'] :=
    .single (.plain (by decide) (by decide) (.escaped (by decide) .nil))
  have hcost : CostForm ['0'] .zero :=
    ⟨⟨by decide, List.forall_mem_singleton.2 rfl⟩, rfl⟩
  have hoffset : OffsetForm ['1'] 1 :=
    ⟨by decide, List.forall_mem_singleton.2 rfl, rfl, by decide⟩
  have harc : ArcForm ['\'', '(', '\\', ')', '\'', ',', '0', ',', '1']
      ⟨['(', ')'], .zero, 1⟩ :=
    ⟨_, _, _, [], [], ⟨[], _, [], blanks_nil, hlabel, blanks_nil, rfl⟩,
      ⟨[], _, [], blanks_nil, hcost, blanks_nil, rfl⟩,
      ⟨[], _, [], blanks_nil, hoffset, blanks_nil, rfl⟩, Or.inl rfl,
      blanks_nil, rfl⟩
  have hseries := Series.cons_group (Series.cons_group harc (.nil hcomma))
    (.nil hcomma)
  have hform : LatticeForm "((('(\\)',0,1),),)".toList
      [[⟨['(', ')'], .zero, 1⟩]] :=
    ⟨[], _, [], by simp [Separators], hseries, by simp [Separators], rfl⟩
  have hlead : LeadAhead [[⟨['(', ')'], .zero, 1⟩]] := by
    intro t as has a ha
    obtain ⟨rfl, rfl⟩ : t = 0 ∧ as = [⟨['(', ')'], .zero, 1⟩] := by
      cases t with
      | zero =>
          cases has
          exact ⟨rfl, rfl⟩
      | succ t => cases has
    rw [List.mem_singleton] at ha
    subst ha
    decide
  obtain ⟨l, hl, hcount, harcs⟩ :=
    (texts_are_read_as_written {} _ hlength).2 _ hform hlead
  have hnew : Vocabulary.internWord {} "()" = (⟨#["()"], #[]⟩, 1) :=
    Vocabulary.internWord_new (by simp [Vocabulary.terminal?])
  have hold : Vocabulary.internWord ⟨#["()"], #[]⟩ "()"
      = (⟨#["()"], #[]⟩, 1) :=
    Vocabulary.internWord_old (by simp [Vocabulary.terminal?])
  refine ⟨hlength, l, ?_, hcount, ?_⟩
  · rw [hl]
    show ((Vocabulary.internWord {} "()").1, _) = _
    rw [hnew]
  · rw [harcs]
    show [Arc.mk 0 1 .zero
      ((Vocabulary.internWord {} "()").1.internWord "()").2] = _
    rw [hnew, hold]

end LatticeParsing
