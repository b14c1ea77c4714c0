/-
Where the text of a lattice goes wrong.

A text is refused for the first thing that is wrong with it in the order in
which it is read: it is cut into the tuple of the lattice, this one into those
of all nodes, and then one node after the other is cut into arcs and its arcs
are read. `Stops` says which texts these are, for every way to go wrong, and
which arcs have been read before.

All tuples stand in the text with their positions (`Stands`), at whatever level
they have been cut out, so a fault that is found in one of them is reported
where it is in the whole text (`Stops.exists_marks`).
-/
import LatticeParsing.Proofs.Lattice.Reading

namespace LatticeParsing

open Text

namespace LatticeText

variable {v : Vocabulary} {tail offset pos : Nat} {t u : Tuple}
  {ts us : List Tuple} {e : LatticeError} {as : List WrittenArc}
  {nodes : List (List WrittenArc)} {text : List Char}
  {fault : LatticeTextFault}

-- ================================================================ arcs

/-- What is wrong with the text of an arc that would leave node `tail`. -/
inductive ArcFault (tail : Nat) (body : List Char) : LatticeTextFault → Prop
  | form : arcText? body = none →
      ArcFault tail body (.arcForm (String.ofList body))
  | cost {parts : ArcText} : arcText? body = some parts →
      Cost.ofText? parts.cost = none →
      ArcFault tail body (.arcCost (String.ofList parts.cost))
  | offset {parts : ArcText} : arcText? body = some parts →
      (Cost.ofText? parts.cost).isSome → count? parts.offset = none →
      ArcFault tail body (.arcOffset (String.ofList parts.offset))
  | range {parts : ArcText} {offset : Nat} : arcText? body = some parts →
      (Cost.ofText? parts.cost).isSome → count? parts.offset = some offset →
      maxCount < tail + offset → ArcFault tail body .offsetRange

/-- An arc that is refused is refused for what is wrong with its text, at the
position of the text. -/
theorem exists_of_arc_error (h : arc v tail t = .error e) :
    ∃ fault, e = .malformed t.offset fault ∧ ArcFault tail t.body fault := by
  unfold arc at h
  cases htext : arcText? t.body with
  | none =>
      simp only [htext] at h
      cases h
      exact ⟨_, rfl, .form htext⟩
  | some parts =>
  cases hcost : Cost.ofText? parts.cost with
  | none =>
      simp only [htext, hcost] at h
      cases h
      exact ⟨_, rfl, .cost htext hcost⟩
  | some cost =>
  have hsome : (Cost.ofText? parts.cost).isSome := by rw [hcost]; rfl
  cases hoffset : count? parts.offset with
  | none =>
      simp only [htext, hcost, hoffset] at h
      cases h
      exact ⟨_, rfl, .offset htext hsome hoffset⟩
  | some offset =>
      by_cases hcount : maxCount < tail + offset
      · simp only [htext, hcost, hoffset, if_pos hcount] at h
        cases h
        exact ⟨_, rfl, .range htext hsome hoffset hcount⟩
      · simp only [htext, hcost, hoffset, if_neg hcount] at h
        cases h

/-- Tuples that are read as arcs at node `tail`. -/
structure ArcsRead (tail : Nat) (ts : List Tuple) (as : List WrittenArc) :
    Prop where
  forms : List.Forall₂ (fun t a => ArcForm t.body a) ts as
  counts : ∀ a ∈ as, tail + a.offset ≤ maxCount

theorem arcsRead_nil (tail : Nat) : ArcsRead tail [] [] :=
  ⟨.nil, fun _ h => absurd h List.not_mem_nil⟩

/-- Arcs are read up to one with a fault, and so are their labels. -/
theorem exists_of_arcs_error (h : (arcs v tail ts).2 = .error e) :
    ∃ before t after as fault, ts = before ++ t :: after
      ∧ ArcsRead tail before as ∧ ArcFault tail t.body fault
      ∧ e = .malformed t.offset fault
      ∧ (arcs v tail ts).1
        = (v.internWords (as.map WrittenArc.word)).1 := by
  induction ts generalizing v with
  | nil => cases h
  | cons t ts ih =>
      unfold arcs at h ⊢
      cases harc : arc v tail t with
      | error e' =>
          simp only [harc] at h ⊢
          cases h
          obtain ⟨fault, rfl, hfault⟩ := exists_of_arc_error harc
          exact ⟨[], t, ts, [], fault, rfl, arcsRead_nil tail, hfault, rfl, rfl⟩
      | ok r =>
          obtain ⟨a, ha, hcount⟩ := exists_form_of_arc harc
          rw [arc_eq_of_form ha hcount] at harc
          cases harc
          simp only [arc_eq_of_form ha hcount] at h ⊢
          cases hrest : (arcs (v.internWord a.word).1 tail ts).2 with
          | ok rest =>
              rw [hrest] at h
              cases h
          | error e' =>
              rw [hrest] at h
              cases h
              obtain ⟨before, u, after, as, fault, rfl, hread, hfault, rfl,
                hlabels⟩ := ih hrest
              exact ⟨t :: before, u, after, a :: as, fault, rfl,
                ⟨.cons ha hread.forms,
                  List.forall_mem_cons.2 ⟨hcount, hread.counts⟩⟩,
                hfault, rfl, hlabels⟩

-- =============================================================== nodes

/-- Tuples that are read as nodes from `tail` on. -/
structure NodesRead (tail : Nat) (ts : List Tuple)
    (nodes : List (List WrittenArc)) : Prop where
  forms : List.Forall₂ (fun t as => Series ArcForm t.body as) ts nodes
  counts : Within maxCount tail nodes

theorem nodesRead_nil (tail : Nat) : NodesRead tail [] [] :=
  ⟨.nil, by simp [Within]⟩

/-- Where the reading of a node stops, and the arcs of the node that have been
read before: it is not cut into arcs and none is read, or it is and one of them
has a fault. -/
inductive NodeStops (tail : Nat) (t : Tuple) :
    List WrittenArc → LatticeError → Prop
  | cut {offset : Nat} {c : Char} : Stray t.offset t.body offset c →
      NodeStops tail t [] (.malformed offset (.unexpected c))
  | arc {before after : List Tuple} {u : Tuple} {as : List WrittenArc}
      {fault : LatticeTextFault} :
      Row t.offset t.body (before ++ u :: after) → ArcsRead tail before as →
      ArcFault tail u.body fault →
      NodeStops tail t as (.malformed u.offset fault)

/-- Nodes are read up to one at which the reading stops, and so are their
labels. -/
theorem exists_of_nodes_error (hts : ∀ t ∈ ts, Balanced t.body)
    (h : (LatticeText.nodes v tail ts).2 = .error e) :
    ∃ done t later nodes as, ts = done ++ t :: later
      ∧ NodesRead tail done nodes ∧ NodeStops (tail + nodes.length) t as e
      ∧ (LatticeText.nodes v tail ts).1
        = (v.internWords ((nodes.flatten ++ as).map WrittenArc.word)).1 := by
  induction ts generalizing v tail with
  | nil => cases h
  | cons t ts ih =>
      obtain ⟨ht, hts⟩ := List.forall_mem_cons.1 hts
      unfold LatticeText.nodes at h ⊢
      rcases tuples_cases t with ⟨arcTuples, hcut, hrow⟩ | ⟨e', hcut, hfault⟩
      · rcases hread : arcs v tail arcTuples with ⟨v', e' | here⟩
        · simp only [hcut, hread] at h ⊢
          cases h
          obtain ⟨before, u, after, as, fault, rfl, has, hfault, rfl,
            hlabels⟩ := exists_of_arcs_error (congrArg Prod.snd hread)
          rw [hread] at hlabels
          exact ⟨[], t, ts, [], as, rfl, nodesRead_nil tail,
            .arc hrow has hfault, hlabels⟩
        · obtain ⟨as, has, hcount⟩ :=
            exists_forms_of_arcs (congrArg Prod.snd hread)
          obtain ⟨here', hread', -⟩ := arcs_of_forms (v := v) has hcount
          simp only [hcut, hread'] at h ⊢
          cases hrest : (LatticeText.nodes
              (v.internWords (as.map WrittenArc.word)).1 (tail + 1) ts).2 with
          | ok rest =>
              rw [hrest] at h
              cases h
          | error e' =>
              rw [hrest] at h
              cases h
              obtain ⟨done, u, later, nodes, bs, rfl, hnodes, hstops,
                hlabels⟩ := ih hts hrest
              refine ⟨t :: done, u, later, as :: nodes, bs, rfl,
                ⟨.cons (hrow.series has) hnodes.forms,
                  within_cons.2 ⟨hcount, hnodes.counts⟩⟩, ?_, ?_⟩
              · rwa [List.length_cons, Nat.add_comm nodes.length,
                  ← Nat.add_assoc]
              · rw [List.flatten_cons, List.append_assoc, List.map_append,
                  Vocabulary.fst_internWords_append]
                exact hlabels
      · obtain ⟨offset, c, rfl, hstray⟩ := hfault.stray ht
        simp only [hcut] at h ⊢
        cases h
        exact ⟨[], t, ts, [], [], rfl, nodesRead_nil tail, .cut hstray, rfl⟩

-- =============================================================== texts

/-- Where the reading of a text stops, and the arcs that have been read
before. -/
inductive Stops (text : List Char) : List WrittenArc → LatticeError → Prop
  /-- The text is not cut into tuples. -/
  | cut {e : LatticeError} : CutFault 0 text e → Stops text [] e
  /-- It is not a single tuple. -/
  | outerTuples {ts : List Tuple} : Row 0 text ts → ts.length ≠ 1 →
      Stops text [] (.malformed 0 (.outerTuples ts.length))
  /-- The tuple of the lattice is not cut into nodes. -/
  | outer {outer : Tuple} {offset : Nat} {c : Char} : Row 0 text [outer] →
      Stray outer.offset outer.body offset c →
      Stops text [] (.malformed offset (.unexpected c))
  /-- A node is not read, but all nodes before it are. -/
  | node {outer t : Tuple} {done later : List Tuple}
      {nodes : List (List WrittenArc)} {as : List WrittenArc}
      {e : LatticeError} : Row 0 text [outer] →
      Row outer.offset outer.body (done ++ t :: later) →
      NodesRead 0 done nodes → NodeStops nodes.length t as e →
      Stops text (nodes.flatten ++ as) e
  /-- All arcs are read, but one of them leads back or out of the lattice. -/
  | refused {v : Vocabulary} {nodes : List (List WrittenArc)}
      {e : LatticeError} : LatticeForm text nodes → Within maxCount 0 nodes →
      Lattice.FirstRefused (nodes.length + 1) (arcsAt v 0 nodes) e →
      Stops text nodes.flatten e

/-- A text is cut into the tuples of nodes, or it is refused before any of
them is read. -/
theorem nodeTuples_cases (text : List Char) :
    (∃ ts outer, nodeTuples text = .ok ts ∧ Row 0 text [outer]
        ∧ Row outer.offset outer.body ts)
      ∨ ∃ e, nodeTuples text = .error e ∧ Stops text [] e := by
  unfold nodeTuples
  rcases tuples_cases ⟨0, text⟩ with ⟨outers, hcut, hrow⟩ | ⟨e, hcut, hfault⟩
  · rw [hcut]
    match outers with
    | [] => exact Or.inr ⟨_, rfl, .outerTuples hrow (by decide)⟩
    | [outer] =>
        have hbody := hrow.balanced_of_mem (List.mem_singleton_self outer)
        rcases tuples_cases outer with ⟨ts, hts, hinner⟩ | ⟨e, he, hfault⟩
        · exact Or.inl ⟨ts, outer, hts, hrow, hinner⟩
        · obtain ⟨offset, c, rfl, hstray⟩ := hfault.stray hbody
          exact Or.inr ⟨_, he, .outer hrow hstray⟩
    | t :: u :: ts => exact Or.inr ⟨_, rfl, .outerTuples hrow (by simp)⟩
  · rw [hcut]
    exact Or.inr ⟨e, rfl, .cut hfault⟩

/-- A text that is refused is one at which the reading stops, and its labels
are those of the arcs that have been read before. -/
theorem exists_stops_of_ofText {text : String}
    (h : (Lattice.ofText v text).2 = .error e) :
    ∃ read, Stops text.toList read e
      ∧ (Lattice.ofText v text).1
        = (v.internWords (read.map WrittenArc.word)).1 := by
  unfold Lattice.ofText at h ⊢
  rcases nodeTuples_cases text.toList with
    ⟨ts, outer, hcut, houter, hrow⟩ | ⟨e', hcut, hstops⟩
  · simp only [hcut] at h ⊢
    cases hread : (LatticeText.nodes v 0 ts).2 with
    | error e' =>
        rw [hread] at h
        cases h
        obtain ⟨done, t, later, nodes, as, rfl, hnodes, hstops, hlabels⟩ :=
          exists_of_nodes_error (fun _ => hrow.balanced_of_mem) hread
        rw [Nat.zero_add] at hstops
        exact ⟨_, .node houter hrow hnodes hstops, hlabels⟩
    | ok all =>
        obtain ⟨nodes, hforms, hcount⟩ := exists_forms_of_nodes hread
        obtain ⟨all', hread', hall⟩ := nodes_of_forms (v := v) hforms hcount
        obtain rfl := hall _ (.refl _)
        have hform : LatticeForm text.toList nodes :=
          latticeForm_iff_nodeTuples.2 ⟨ts, hcut, hforms⟩
        have hfirst : Lattice.FirstRefused (nodes.length + 1)
            (arcsAt (v.internWords (words nodes)).1 0 nodes) e := by
          rw [hread', hforms.length_eq] at h
          have h : Lattice.ofArcs (nodes.length + 1) _ = .error e := h
          rcases Lattice.ofArcs_eq_error.1 h with ⟨hnone, -⟩ | ⟨-, hfirst⟩
          · exact absurd hnone (Nat.succ_ne_zero _)
          · exact hfirst
        exact ⟨nodes.flatten, .refused hform hcount hfirst,
          congrArg Prod.fst hread'⟩
  · simp only [hcut] at h ⊢
    cases h
    exact ⟨[], hstops, rfl⟩

-- ============================================================ positions

/-- Whether a tuple stands in a text at its position, between parentheses that
match. -/
def Stands (text : List Char) (t : Tuple) : Prop :=
  ∃ front back, text = front ++ '(' :: (t.body ++ ')' :: back)
    ∧ t.offset = byteLength front + 1 ∧ Balanced t.body

/-- The tuples of a part of a text stand in the text. -/
theorem Row.stands {part : List Char} (h : Row pos part ts) (ht : t ∈ ts)
    (front back : List Char) (hpos : pos = byteLength front) :
    Stands (front ++ (part ++ back)) t := by
  obtain ⟨before, after, rfl, hoffset, hbody⟩ := h.exists_of_mem ht
  refine ⟨front ++ before, after ++ back, by simp, ?_, hbody⟩
  rw [hoffset, hpos, byteLength_append]

theorem Stands.of_row (h : Row 0 text ts) (ht : t ∈ ts) : Stands text t := by
  have hstands := h.stands ht [] [] rfl
  rwa [List.nil_append, List.append_nil] at hstands

/-- What a tuple is cut into stands in the text as well. -/
theorem Stands.inner (h : Stands text t) (hrow : Row t.offset t.body us)
    (hu : u ∈ us) : Stands text u := by
  obtain ⟨front, back, rfl, hoffset, -⟩ := h
  have hpos : t.offset = byteLength (front ++ ['(']) :=
    hoffset.trans (byteLength_open front []).symm
  have hstands := hrow.stands hu (front ++ ['(']) (')' :: back) hpos
  rwa [List.append_assoc] at hstands

/-- Whether the inside of a pair of matching parentheses stands behind a
position and has a fault of an arc. -/
def MarksArc (front back : List Char) (fault : LatticeTextFault) : Prop :=
  ∃ before body after tail, front = before ++ ['(']
    ∧ back = body ++ ')' :: after ∧ Balanced body ∧ ArcFault tail body fault

/-- What a fault says of the text before and behind the position at which it
is reported. Only the number of outer tuples is not a matter of a position,
and is reported at the start. -/
def Marks (front back : List Char) : LatticeTextFault → Prop
  | .unbalanced => back.head? = some ')'
  | .unexpected c => back.head? = some c
  | .unterminated => back = []
  | .outerTuples _ => front = []
  | fault => MarksArc front back fault

/-- A fault that is found in a tuple is reported where it is in the text. -/
theorem Stray.exists_marks {c : Char} (h : Stray t.offset t.body offset c)
    (ht : Stands text t) :
    ∃ front back, text = front ++ back ∧ byteLength front = offset
      ∧ Marks front back (.unexpected c) := by
  obtain ⟨before, after, -, hbody, -, -, -, -, rfl⟩ := h
  obtain ⟨front, back, rfl, hoffset, -⟩ := ht
  refine ⟨front ++ '(' :: before, c :: (after ++ ')' :: back), ?_, ?_, rfl⟩
  · simp [hbody]
  · rw [hoffset, byteLength_open]

theorem ArcFault.exists_marks (h : ArcFault tail t.body fault)
    (ht : Stands text t) :
    ∃ front back, text = front ++ back ∧ byteLength front = t.offset
      ∧ Marks front back fault := by
  obtain ⟨front, back, rfl, hoffset, hbody⟩ := ht
  refine ⟨front ++ ['('], t.body ++ ')' :: back, by simp, ?_, ?_⟩
  · exact (byteLength_open front []).trans hoffset.symm
  · have hmarks : MarksArc (front ++ ['(']) (t.body ++ ')' :: back) fault :=
      ⟨front, t.body, back, tail, rfl, rfl, hbody, h⟩
    cases h with
    | form _ => exact hmarks
    | cost _ _ => exact hmarks
    | offset _ _ _ => exact hmarks
    | range _ _ _ _ => exact hmarks

/-- Every fault is reported where it is in the text. -/
theorem Stops.exists_marks {read : List WrittenArc}
    (h : Stops text read (.malformed offset fault)) :
    ∃ front back, text = front ++ back ∧ byteLength front = offset
      ∧ Marks front back fault := by
  cases h with
  | cut h =>
      cases h with
      | @unbalanced front back _ htext _ =>
          exact ⟨front, ')' :: back, htext, (Nat.zero_add _).symm, rfl⟩
      | unexpected h =>
          obtain ⟨front, back, -, htext, -, -, -, -, rfl⟩ := h
          exact ⟨front, _, htext, (Nat.zero_add _).symm, rfl⟩
      | unterminated _ _ _ =>
          exact ⟨text, [], (List.append_nil _).symm, (Nat.zero_add _).symm, rfl⟩
  | outerTuples _ _ => exact ⟨[], text, rfl, rfl, rfl⟩
  | outer hrow h =>
      exact h.exists_marks (.of_row hrow (List.mem_singleton_self _))
  | @node outer t _ _ _ _ _ houter hrow _ h =>
      have ht : Stands text t :=
        (Stands.of_row houter (List.mem_singleton_self outer)).inner hrow
          (by simp)
      cases h with
      | cut h => exact h.exists_marks ht
      | arc hinner _ h => exact h.exists_marks (ht.inner hinner (by simp))
  | refused _ _ h =>
      obtain ⟨_, _, _, -, -, ⟨-, he⟩ | ⟨-, -, he⟩⟩ := h
      · cases he
      · cases he

end LatticeText

open LatticeText

/-- A text that is not a lattice is refused where it goes wrong.

A fault of the text is reported at a position between two characters of it,
given in bytes. A character that closes nothing or that may not stand outside
of parentheses stands there; behind a tuple that is not closed there is nothing
left; and for a fault of an arc, the text in the parentheses of the arc, which
has this fault, stands there. Only that there is not one outer tuple is
reported at the start.

The vocabulary has got the labels of the arcs that are read before the reading
stops, and no others, in the order of the text. These are the arcs of all nodes
before the one in which it stops, and where that has been cut into arcs, those
of its arcs before the one with the fault. Where an arc leads back or out of
the lattice, they are all arcs. -/
theorem texts_are_refused_where_they_go_wrong (v : Vocabulary) (text : String)
    (e : LatticeError) (h : (Lattice.ofText v text).2 = .error e) :
    (∀ offset fault, e = .malformed offset fault →
        offset ≤ text.utf8ByteSize
          ∧ ∃ front back, text.toList = front ++ back
              ∧ byteLength front = offset ∧ Marks front back fault)
      ∧ ∃ read, Stops text.toList read e
          ∧ (Lattice.ofText v text).1
            = (v.internWords (read.map WrittenArc.word)).1 := by
  obtain ⟨read, hstops, hlabels⟩ := exists_stops_of_ofText h
  refine ⟨fun offset fault he => ?_, read, hstops, hlabels⟩
  subst he
  obtain ⟨front, back, htext, hoffset, hmarks⟩ := hstops.exists_marks
  refine ⟨?_, front, back, htext, hoffset, hmarks⟩
  rw [← byteLength_toList, htext, byteLength_append, hoffset]
  exact Nat.le_add_right ..

/-- A text of one node with two arcs, of which the second one is refused. -/
theorem ofText_of_two_arcs {v v' : Vocabulary} {text : String}
    {node t u : Tuple} {a : Arc} {e : LatticeError}
    (hnode : nodeTuples text.toList = .ok [node])
    (harcs : tuples node = .ok [t, u]) (ht : arc v 0 t = .ok (v', a))
    (hu : arc v' 0 u = .error e) :
    Lattice.ofText v text = (v', .error e) := by
  unfold Lattice.ofText
  simp only [hnode]
  unfold nodes
  simp only [harcs]
  unfold arcs
  simp only [ht]
  unfold arcs
  simp only [hu]
  rfl

/-- A node with two arcs, the second of them a mere name. The label of the
first, which takes two bytes, has been interned. -/
theorem faulty_arc_is_refused_where_it_stands :
    Lattice.ofText {} "((('é',0,1),(b)))"
        = (⟨#["é"], #[]⟩, .error (.malformed 14 (.arcForm "b")))
      ∧ (∃ front back, "((('é',0,1),(b)))".toList = front ++ back
          ∧ byteLength front = 14 ∧ MarksArc front back (.arcForm "b"))
      ∧ ∃ read, Stops "((('é',0,1),(b)))".toList read
            (.malformed 14 (.arcForm "b"))
          ∧ ⟨#["é"], #[]⟩
            = (Vocabulary.internWords {} (read.map WrittenArc.word)).1 := by
  have hlabel : QuotedForm ['\'', 'é', '\''] ['é'] :=
    .single (.plain (by decide) (by decide) .nil)
  have hcost : CostForm ['0'] .zero :=
    ⟨⟨by decide, List.forall_mem_singleton.2 rfl⟩, rfl⟩
  have hoffset : OffsetForm ['1'] 1 :=
    ⟨by decide, List.forall_mem_singleton.2 rfl, rfl, by decide⟩
  have harc : ArcForm ['\'', 'é', '\'', ',', '0', ',', '1']
      ⟨['é'], .zero, 1⟩ :=
    ⟨_, _, _, [], [], ⟨[], _, [], blanks_nil, hlabel, blanks_nil, rfl⟩,
      ⟨[], _, [], blanks_nil, hcost, blanks_nil, rfl⟩,
      ⟨[], _, [], blanks_nil, hoffset, blanks_nil, rfl⟩, Or.inl rfl,
      blanks_nil, rfl⟩
  have hfirst : arc {} 0 ⟨3, ['\'', 'é', '\'', ',', '0', ',', '1']⟩ = .ok _ :=
    arc_eq_of_form harc (by decide)
  have hsecond : ∀ v, arc v 0 ⟨14, ['b']⟩
      = .error (.malformed 14 (.arcForm "b")) := by
    intro v
    have hform : arcText? ['b'] = none := rfl
    unfold arc
    simp only [hform]
    rfl
  have hnode : nodeTuples "((('é',0,1),(b)))".toList
      = .ok [⟨2, "('é',0,1),(b)".toList⟩] := by
    decide +kernel
  have harcs : tuples ⟨2, "('é',0,1),(b)".toList⟩
      = .ok [⟨3, ['\'', 'é', '\'', ',', '0', ',', '1']⟩, ⟨14, ['b']⟩] := by
    decide +kernel
  have hread := ofText_of_two_arcs hnode harcs hfirst (hsecond _)
  have hnew : Vocabulary.internWord {} "é" = (⟨#["é"], #[]⟩, 1) :=
    Vocabulary.internWord_new (by simp [Vocabulary.terminal?])
  rw [show (⟨['é'], .zero, 1⟩ : WrittenArc).word = "é" from rfl, hnew] at hread
  obtain ⟨hmarks, read, hstops, hlabels⟩ :=
    texts_are_refused_where_they_go_wrong {} _ _ (congrArg Prod.snd hread)
  obtain ⟨-, front, back, htext, hfront, hmarks⟩ := hmarks _ _ rfl
  rw [hread] at hlabels
  exact ⟨hread, ⟨front, back, htext, hfront, hmarks⟩, read, hstops, hlabels⟩

end LatticeParsing
