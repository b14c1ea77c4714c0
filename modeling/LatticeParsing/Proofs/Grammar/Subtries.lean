/-
What inserting rules does to a prefix tree.

A tree is known by its subtrees, each behind a list of labels
(`Trie.at?`). Edges stay in ascending order (`Ordered`), so an edge is found
by its label wherever it stands, and insertion is described by what it does
behind every list of labels: one more rule at the source side
(`rulesAt_insert`), and nodes on the way to it (`isSome_at?_insert`).
-/
import LatticeParsing.Grammar.Position
import Mathlib.Data.Int.Order.Basic
import Mathlib.Data.List.Basic

namespace LatticeParsing

-- ====================================================== sorted symbols

namespace Symbol

variable {s t : Symbol} {xs : List Symbol} {n : Nat}

theorem mem_insertSorted : t ∈ insertSorted s xs ↔ t = s ∨ t ∈ xs := by
  induction xs with
  | nil => simp [insertSorted]
  | cons x xs ih =>
      unfold insertSorted
      split
      · exact List.mem_cons
      · split
        case isTrue heq =>
          subst heq
          simp
        case isFalse =>
          rw [List.mem_cons, List.mem_cons, ih]
          exact or_left_comm

/-- Inserting keeps the order and repeats nothing. -/
theorem ascending_insertSorted (h : xs.Pairwise (· < ·)) (s : Symbol) :
    (insertSorted s xs).Pairwise (· < ·) := by
  induction xs with
  | nil => exact List.pairwise_singleton ..
  | cons x xs ih =>
      obtain ⟨hx, hxs⟩ := List.pairwise_cons.1 h
      unfold insertSorted
      split
      case isTrue hlt =>
        refine List.pairwise_cons.2 ⟨fun y hy => ?_, h⟩
        rcases List.mem_cons.1 hy with rfl | hy
        · exact hlt
        · exact lt_trans hlt (hx y hy)
      case isFalse hlt =>
        split
        case isTrue => exact h
        case isFalse hne =>
          refine List.pairwise_cons.2 ⟨fun y hy => ?_, ih hxs⟩
          rcases mem_insertSorted.1 hy with rfl | hy
          · exact lt_of_le_of_ne (not_lt.1 hlt) (Ne.symm hne)
          · exact hx y hy

theorem mem_sorted : s ∈ sorted xs ↔ s ∈ xs := by
  unfold sorted
  induction xs with
  | nil => rfl
  | cons x xs ih =>
      rw [List.foldr_cons, mem_insertSorted, ih, List.mem_cons]

theorem ascending_sorted (xs : List Symbol) :
    (sorted xs).Pairwise (· < ·) := by
  unfold sorted
  induction xs with
  | nil => exact List.Pairwise.nil
  | cons x xs ih => exact ascending_insertSorted ih x

theorem ascending_sortedNonterminals (xs : List Symbol) :
    (sortedNonterminals xs).Pairwise (· < ·) :=
  ascending_sorted _

theorem mem_sortedNonterminals :
    s ∈ sortedNonterminals xs ↔ s ∈ xs ∧ s.isNonterminal = true := by
  unfold sortedNonterminals
  rw [mem_sorted, List.mem_filter]

/-- In an ascending list the nonterminals stand before the terminals. -/
theorem mem_takeWhile_isNonterminal (h : xs.Pairwise (· < ·)) :
    s ∈ xs.takeWhile isNonterminal ↔ s ∈ xs ∧ s.isNonterminal = true := by
  induction xs with
  | nil => simp
  | cons x xs ih =>
      obtain ⟨hx, hxs⟩ := List.pairwise_cons.1 h
      rw [List.takeWhile_cons]
      split
      case isTrue hneg =>
        rw [List.mem_cons, ih hxs, List.mem_cons]
        constructor
        · intro h'
          rcases h' with rfl | ⟨hs, hneg⟩
          · exact ⟨Or.inl rfl, hneg⟩
          · exact ⟨Or.inr hs, hneg⟩
        · intro h'
          obtain ⟨rfl | hs, hneg⟩ := h'
          · exact Or.inl rfl
          · exact Or.inr ⟨hs, hneg⟩
      case isFalse hpos =>
        rw [isNonterminal_eq_true] at hpos
        constructor
        · exact fun hs => absurd hs List.not_mem_nil
        · intro h'
          obtain ⟨hs, hneg⟩ := h'
          rw [isNonterminal_eq_true] at hneg
          rcases List.mem_cons.1 hs with rfl | hs
          · exact absurd hneg hpos
          · exact absurd (lt_trans (hx s hs) hneg) hpos

/-- In an ascending list, what is less than an element stands before it, and
what is greater behind it. -/
theorem mem_take_or_drop (h : xs.Pairwise (· < ·)) (hn : n < xs.length)
    (hs : s ∈ xs) :
    s = xs[n] ∨ s < xs[n] ∧ s ∈ xs.take n
      ∨ xs[n] < s ∧ s ∈ xs.drop (n + 1) := by
  have hsplit : xs.take n ++ xs[n] :: xs.drop (n + 1) = xs := by
    rw [← List.drop_eq_getElem_cons hn, List.take_append_drop]
  rw [← hsplit] at h hs
  obtain ⟨-, hback, hfront⟩ := List.pairwise_append.mp h
  rcases List.mem_append.mp hs with hs | hs
  · exact Or.inr (Or.inl ⟨hfront s hs _ (List.mem_cons_self ..), hs⟩)
  · rcases List.mem_cons.mp hs with hs | hs
    · exact Or.inl hs
    · exact Or.inr (Or.inr ⟨List.rel_of_pairwise_cons hback hs, hs⟩)

/-- What is found in a list stands there, in whatever order the list is. -/
theorem mem_of_containsSorted (h : containsSorted xs s = true) : s ∈ xs := by
  fun_induction containsSorted xs s with
  | case1 xs half hhalf heq => exact heq ▸ List.getElem_mem hhalf
  | case2 xs half hhalf hne hlt ih => exact List.mem_of_mem_take (ih h)
  | case3 xs half hhalf hne hlt ih => exact List.mem_of_mem_drop (ih h)
  | case4 => cases h

/-- What stands in an ascending list is found. -/
theorem containsSorted_iff (h : xs.Pairwise (· < ·)) :
    containsSorted xs s = true ↔ s ∈ xs := by
  refine ⟨mem_of_containsSorted, fun hs => ?_⟩
  fun_induction containsSorted xs s with
  | case1 => rfl
  | case2 xs half hhalf hne hlt ih =>
      apply ih (h.sublist (List.take_sublist ..))
      rcases mem_take_or_drop h hhalf hs with heq | ⟨-, hs⟩ | ⟨hgt, -⟩
      · exact absurd heq hne
      · exact hs
      · exact absurd hlt (lt_asymm hgt)
  | case3 xs half hhalf hne hlt ih =>
      apply ih (h.sublist (List.drop_sublist ..))
      rcases mem_take_or_drop h hhalf hs with heq | ⟨hless, -⟩ | ⟨-, hs⟩
      · exact absurd heq hne
      · exact absurd hless hlt
      · exact hs
  | case4 xs half hhalf =>
      have hpos := List.length_pos_of_mem hs
      omega

end Symbol

-- ============================================================ subtrees

namespace Trie

variable {t u : Trie} {r : ListedRule} {s : Symbol} {path source : List Symbol}
  {es : List (Symbol × Trie)}

/-- The node to which labels lead. -/
def at? : List Symbol → Trie → Option Trie
  | [], t => some t
  | s :: path, t => (t.edges.lookup s).bind (at? path)

/-- The rules at the node to which labels lead; none where there is no
node. -/
def rulesAt (path : List Symbol) (t : Trie) : List ListedRule :=
  match t.at? path with
  | none => []
  | some u => u.rules

/-- The edges of all nodes have ascending labels. -/
def Ordered (t : Trie) : Prop :=
  ∀ path u, t.at? path = some u → u.labels.Pairwise (· < ·)

theorem at?_append (path rest : List Symbol) (t : Trie) :
    t.at? (path ++ rest) = (t.at? path).bind (at? rest) := by
  induction path generalizing t with
  | nil => rfl
  | cons s path ih =>
      show (t.edges.lookup s).bind (at? (path ++ rest))
        = ((t.edges.lookup s).bind (at? path)).bind (at? rest)
      cases t.edges.lookup s with
      | none => rfl
      | some u => exact ih u

theorem ordered_iff : t.Ordered
    ↔ t.labels.Pairwise (· < ·)
      ∧ ∀ s u, t.edges.lookup s = some u → u.Ordered := by
  constructor
  · intro h
    refine ⟨h [] t rfl, fun s u hu path v hv => h (s :: path) v ?_⟩
    show (t.edges.lookup s).bind (at? path) = some v
    rw [hu]
    exact hv
  · intro hboth path u hu
    obtain ⟨hlabels, hedges⟩ := hboth
    cases path with
    | nil =>
        injection hu with hu
        exact hu ▸ hlabels
    | cons s path =>
        obtain ⟨v, hv, hu⟩ := Option.bind_eq_some_iff.1 hu
        exact hedges s v hv path u hu

theorem ordered_empty : empty.Ordered := by
  rw [ordered_iff]
  exact ⟨List.Pairwise.nil, fun _ _ h => by cases h⟩

/-- Where labels ascend, an edge is found by its label. -/
theorem lookup_eq_some_iff (h : (es.map (·.1)).Pairwise (· < ·)) :
    es.lookup s = some u ↔ (s, u) ∈ es := by
  constructor
  · intro hu
    obtain ⟨es₁, es₂, rfl, -⟩ := List.lookup_eq_some_iff.1 hu
    exact List.mem_append_right _ (List.mem_cons_self ..)
  · intro hmem
    obtain ⟨es₁, es₂, rfl⟩ := List.append_of_mem hmem
    refine List.lookup_eq_some_iff.2 ⟨es₁, es₂, rfl, fun e he => ?_⟩
    rw [List.map_append, List.pairwise_append] at h
    have hlt := h.2.2 e.1 (List.mem_map_of_mem he) s (by simp)
    simpa using (ne_of_lt hlt).symm

/-- A node is reached along an edge of the node before it. -/
theorem Ordered.at?_concat (h : t.Ordered) :
    t.at? (path ++ [s]) = some u
      ↔ ∃ w, t.at? path = some w ∧ (s, u) ∈ w.edges := by
  rw [at?_append, Option.bind_eq_some_iff]
  refine exists_congr fun w => and_congr_right fun hw => ?_
  rw [← lookup_eq_some_iff (h path w hw)]
  show (w.edges.lookup s).bind some = some u ↔ _
  rw [Option.bind_fun_some]

theorem lookup_cons (s t : Symbol) (u : Trie) (es : List (Symbol × Trie)) :
    ((t, u) :: es).lookup s = if s = t then some u else es.lookup s := by
  rw [List.lookup_cons]
  by_cases hs : s = t
  · simp [hs]
  · simp [hs, beq_eq_false_iff_ne.2 hs]

-- =========================================================== insertion

theorem labels_growEdge (s : Symbol) (grow : Trie → Trie)
    (es : List (Symbol × Trie)) :
    (growEdge s grow es).map (·.1) = Symbol.insertSorted s (es.map (·.1)) := by
  induction es with
  | nil => rfl
  | cons e es ih =>
      obtain ⟨t, child⟩ := e
      unfold growEdge
      rw [List.map_cons]
      unfold Symbol.insertSorted
      split
      · rfl
      · split
        · rfl
        · rw [List.map_cons, ih]

/-- Only the node behind the edge changes. -/
theorem lookup_growEdge (h : (es.map (·.1)).Pairwise (· < ·)) (s s' : Symbol)
    (grow : Trie → Trie) :
    (growEdge s grow es).lookup s'
      = if s' = s then some (grow ((es.lookup s).getD empty))
        else es.lookup s' := by
  induction es with
  | nil => exact lookup_cons s' s _ []
  | cons e es ih =>
      obtain ⟨t, child⟩ := e
      obtain ⟨ht, hes⟩ := List.pairwise_cons.1 h
      unfold growEdge
      split
      case isTrue hlt =>
        have hnone : ((t, child) :: es).lookup s = none := by
          rw [List.lookup_eq_none_iff]
          intro e he
          rw [bne_iff_ne]
          rcases List.mem_cons.1 he with rfl | he
          · exact ne_of_lt hlt
          · exact ne_of_lt (lt_trans hlt (ht e.1 (List.mem_map_of_mem he)))
        rw [hnone, lookup_cons]
        rfl
      case isFalse hlt =>
        split
        case isTrue heq =>
          subst heq
          rw [lookup_cons, lookup_cons, lookup_cons, if_pos rfl]
          split <;> rfl
        case isFalse hne =>
          rw [lookup_cons, lookup_cons, lookup_cons, if_neg hne, ih hes]
          by_cases hs : s' = t
          · rw [if_pos hs, if_pos hs, if_neg fun h => hne (h.symm.trans hs)]
          · rw [if_neg hs, if_neg hs]

theorem Ordered.insertAt (h : t.Ordered) (r : ListedRule)
    (source : List Symbol) : (insertAt r source t).Ordered := by
  induction source generalizing t with
  | nil =>
      obtain ⟨rs, es⟩ := t
      have hparts := ordered_iff.1 h
      exact ordered_iff.2 hparts
  | cons s source ih =>
      obtain ⟨rs, es⟩ := t
      obtain ⟨hlabels, hedges⟩ := ordered_iff.1 h
      have hlabels : (es.map (·.1)).Pairwise (· < ·) := hlabels
      refine ordered_iff.2 ⟨?_, fun s' u hu => ?_⟩
      · show ((growEdge s _ es).map (·.1)).Pairwise (· < ·)
        rw [labels_growEdge]
        exact Symbol.ascending_insertSorted hlabels s
      · have hu : (growEdge s _ es).lookup s' = some u := hu
        rw [lookup_growEdge hlabels] at hu
        split at hu
        case isFalse => exact hedges s' u hu
        case isTrue =>
          injection hu with hu
          subst hu
          cases hc : es.lookup s with
          | none => exact ih ordered_empty
          | some c => exact ih (hedges s c hc)

/-- What insertion does behind the first label of the source side. -/
theorem at?_insertAt_cons (h : t.Ordered) (r : ListedRule) (s s' : Symbol)
    (source path : List Symbol) :
    (insertAt r (s :: source) t).at? (s' :: path)
      = if s' = s
        then (Trie.insertAt r source ((t.edges.lookup s).getD empty)).at? path
        else t.at? (s' :: path) := by
  obtain ⟨rs, es⟩ := t
  have hlabels : (es.map (·.1)).Pairwise (· < ·) := (ordered_iff.1 h).1
  show ((growEdge s (Trie.insertAt r source) es).lookup s').bind _ = _
  rw [lookup_growEdge hlabels]
  split
  · rfl
  · rfl

theorem Ordered.child (h : t.Ordered) (s : Symbol) :
    ((t.edges.lookup s).getD empty).Ordered := by
  cases hc : t.edges.lookup s with
  | none => exact ordered_empty
  | some c => exact (ordered_iff.1 h).2 s c hc

theorem rulesAt_cons (s : Symbol) (path : List Symbol) (t : Trie) :
    t.rulesAt (s :: path)
      = ((t.edges.lookup s).getD empty).rulesAt path := by
  unfold rulesAt
  show (match (t.edges.lookup s).bind (at? path) with
    | none => []
    | some u => u.rules) = _
  cases t.edges.lookup s with
  | none =>
      cases path with
      | nil => rfl
      | cons s path => rfl
  | some c => rfl

/-- Insertion puts the rule behind its source side and leaves all other
rules alone. -/
theorem rulesAt_insertAt (h : t.Ordered) (r : ListedRule)
    (source path : List Symbol) :
    (insertAt r source t).rulesAt path
      = t.rulesAt path ++ if path = source then [r] else [] := by
  induction source generalizing t path with
  | nil =>
      obtain ⟨rs, es⟩ := t
      cases path with
      | nil => rfl
      | cons s path => exact (List.append_nil _).symm
  | cons s source ih =>
      cases path with
      | nil =>
          obtain ⟨rs, es⟩ := t
          exact (List.append_nil _).symm
      | cons s' path =>
          by_cases hs : s' = s
          · subst hs
            have hat : (insertAt r (s' :: source) t).rulesAt (s' :: path)
                = (insertAt r source ((t.edges.lookup s').getD empty)).rulesAt
                    path := by
              unfold rulesAt
              rw [at?_insertAt_cons h, if_pos rfl]
            rw [hat, ih (h.child s'), rulesAt_cons]
            simp
          -- another edge is left alone
          · have hat : (insertAt r (s :: source) t).rulesAt (s' :: path)
                = t.rulesAt (s' :: path) := by
              unfold rulesAt
              rw [at?_insertAt_cons h, if_neg hs]
            rw [hat, if_neg fun heq => hs (List.cons.inj heq).1,
              List.append_nil]

/-- Insertion makes the nodes on the way along the source side. -/
theorem isSome_at?_insertAt (h : t.Ordered) (r : ListedRule)
    (source path : List Symbol) :
    ((insertAt r source t).at? path).isSome
      ↔ (t.at? path).isSome ∨ path <+: source := by
  induction source generalizing t path with
  | nil =>
      obtain ⟨rs, es⟩ := t
      cases path with
      | nil => simp [at?]
      | cons s path =>
          rw [List.prefix_nil]
          exact (or_iff_left (List.cons_ne_nil s path)).symm
  | cons s source ih =>
      cases path with
      | nil => simp [at?]
      | cons s' path =>
          rw [at?_insertAt_cons h]
          by_cases hs : s' = s
          · subst hs
            have hat : (t.at? (s' :: path)).isSome ↔
                (((t.edges.lookup s').getD empty).at? path).isSome
                  ∧ (t.edges.lookup s').isSome := by
              show ((t.edges.lookup s').bind (at? path)).isSome ↔ _
              cases t.edges.lookup s' with
              | none => simp
              | some c => simp
            rw [if_pos rfl, ih (h.child s'), hat,
              List.cons_prefix_cons]
            cases hc : t.edges.lookup s' with
            | some c => simp
            | none =>
                cases path with
                | nil => simp
                | cons s path => simp [at?, empty, edges]
          · rw [if_neg hs, List.cons_prefix_cons]
            simp [hs]

theorem edgesRuleCount_growEdge {grow : Trie → Trie}
    (hgrow : ∀ t, (grow t).ruleCount = t.ruleCount + 1) (s : Symbol)
    (es : List (Symbol × Trie)) :
    edgesRuleCount (growEdge s grow es) = edgesRuleCount es + 1 := by
  have hempty : (grow empty).ruleCount = 1 := hgrow empty
  induction es with
  | nil => simp [growEdge, edgesRuleCount, hempty]
  | cons e es ih =>
      obtain ⟨t, child⟩ := e
      unfold growEdge
      split
      · simp only [edgesRuleCount, hempty]
        omega
      · split
        · simp only [edgesRuleCount, hgrow]
          omega
        · simp only [edgesRuleCount, ih]
          omega

theorem ruleCount_insertAt (r : ListedRule) (source : List Symbol) (t : Trie) :
    (insertAt r source t).ruleCount = t.ruleCount + 1 := by
  induction source generalizing t with
  | nil =>
      obtain ⟨rs, es⟩ := t
      simp only [insertAt, ruleCount, List.length_append, List.length_singleton]
      omega
  | cons s source ih =>
      obtain ⟨rs, es⟩ := t
      simp only [insertAt, ruleCount, edgesRuleCount_growEdge ih]
      omega

-- ======================================================== many insertions

theorem Ordered.insert (h : t.Ordered) (r : ListedRule) :
    (t.insert r).Ordered :=
  h.insertAt r _

theorem insertAll_ordered (h : t.Ordered) (rs : List ListedRule) :
    (rs.foldl insert t).Ordered := by
  induction rs generalizing t with
  | nil => exact h
  | cons r rs ih => exact ih (h.insert r)

/-- The rules that have been inserted stand behind their source sides, in
the order of insertion. -/
theorem rulesAt_insertAll (h : t.Ordered) (rs : List ListedRule)
    (path : List Symbol) :
    (rs.foldl insert t).rulesAt path
      = t.rulesAt path ++ rs.filter fun r => r.rule.source = path := by
  induction rs generalizing t with
  | nil => exact (List.append_nil _).symm
  | cons r rs ih =>
      rw [List.foldl_cons, ih (h.insert r)]
      unfold Trie.insert
      rw [rulesAt_insertAt h, List.append_assoc, List.filter_cons]
      congr 1
      by_cases hr : path = r.rule.source
      · simp [hr]
      · rw [if_neg hr, if_neg (by simpa using fun h => hr h.symm)]
        rfl

theorem isSome_at?_insertAll (h : t.Ordered) (rs : List ListedRule)
    (path : List Symbol) :
    ((rs.foldl insert t).at? path).isSome
      ↔ (t.at? path).isSome ∨ ∃ r ∈ rs, path <+: r.rule.source := by
  induction rs generalizing t with
  | nil => simp
  | cons r rs ih =>
      rw [List.foldl_cons, ih (h.insert r), Trie.insert,
        isSome_at?_insertAt h, or_assoc]
      simp only [List.mem_cons, exists_eq_or_imp]

theorem ruleCount_insertAll (rs : List ListedRule) (t : Trie) :
    (rs.foldl insert t).ruleCount = t.ruleCount + rs.length := by
  induction rs generalizing t with
  | nil => rfl
  | cons r rs ih =>
      rw [List.foldl_cons, ih, insert, ruleCount_insertAt, List.length_cons]
      omega

-- ============================================================== labels

theorem mem_edgesLabels (hmem : (s, u) ∈ es) :
    s ∈ edgesLabels es ∧ ∀ a ∈ u.allLabels, a ∈ edgesLabels es := by
  induction es with
  | nil => cases hmem
  | cons e es ih =>
      obtain ⟨t, child⟩ := e
      unfold edgesLabels
      rcases List.mem_cons.1 hmem with heq | hmem
      · injection heq with hs hu
        subst hs hu
        exact ⟨List.mem_cons_self .., fun a ha =>
          List.mem_cons_of_mem _ (List.mem_append_left _ ha)⟩
      · obtain ⟨hs, hu⟩ := ih hmem
        exact ⟨List.mem_cons_of_mem _ (List.mem_append_right _ hs),
          fun a ha => List.mem_cons_of_mem _
            (List.mem_append_right _ (hu a ha))⟩

/-- The labels that lead to a node are among all labels. -/
theorem mem_allLabels (hu : t.at? path = some u) :
    ∀ s ∈ path, s ∈ t.allLabels := by
  induction path generalizing t with
  | nil => exact fun s hs => absurd hs List.not_mem_nil
  | cons s path ih =>
      obtain ⟨v, hv, hvu⟩ := Option.bind_eq_some_iff.1 hu
      obtain ⟨rs, es⟩ := t
      obtain ⟨es₁, es₂, hes, -⟩ := List.lookup_eq_some_iff.1 hv
      have hmem : (s, v) ∈ es := by
        rw [show es = _ from hes]
        exact List.mem_append_right _ (List.mem_cons_self ..)
      obtain ⟨hs, hbelow⟩ := mem_edgesLabels hmem
      intro a ha
      rcases List.mem_cons.1 ha with rfl | ha
      · exact hs
      · exact hbelow a (ih hvu a ha)

end Trie

end LatticeParsing
