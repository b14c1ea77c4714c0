/-
The written form of lattices.

A lattice is written in three levels of parentheses: nodes, the arcs of a
node, and what an arc is made of. The definitions below say which texts these
are and what they stand for, without a reader.
-/
import LatticeParsing.Proofs.Lattice.Tokens
import Mathlib.Data.List.Forall2

namespace LatticeParsing.LatticeText

open Text

variable {α : Type} {cs rest : List Char}

-- ================================================================ arcs

/-- An arc as it is written: its label without escapes, its cost, and how
many nodes ahead it leads. -/
structure WrittenArc where
  label : List Char
  cost : Cost
  offset : Nat

/-- A token with blanks around it. -/
def Padded (Form : List Char → α → Prop) (text : List Char) (x : α) : Prop :=
  ∃ b token b', Blanks b ∧ Form token x ∧ Blanks b'
    ∧ text = b ++ (token ++ b')

/-- What stands in the parentheses of an arc: its label, its cost and its
offset, with commas between them and perhaps one after them. -/
def ArcForm (text : List Char) (a : WrittenArc) : Prop :=
  ∃ label cost offset comma b,
    Padded QuotedForm label a.label ∧ Padded CostForm cost a.cost
      ∧ Padded OffsetForm offset a.offset ∧ (comma = [] ∨ comma = [','])
      ∧ Blanks b
      ∧ text = label ++ ',' :: (cost ++ ',' :: (offset ++ (comma ++ b)))

/-- A comma with blanks around it and a token, which `rest` follows. -/
def FollowedBy (cs token rest : List Char) : Prop :=
  ∃ b b', Blanks b ∧ Blanks b' ∧ Token token
    ∧ (∀ c ∈ rest.head?, isSeparator c = true)
    ∧ cs = b ++ ',' :: (b' ++ (token ++ rest))

theorem followedBy_iff {token : List Char} : FollowedBy cs token rest
    ↔ ∃ r, comma? cs = some r ∧ token? r = some (token, rest) := by
  constructor
  · intro h
    obtain ⟨b, b', hb, hb', htoken, hrest, rfl⟩ := h
    exact ⟨_, comma?_eq_some.2 ⟨b, b', hb, hb', rfl, htoken.skipBlanks rest⟩,
      token?_eq_some.2 ⟨htoken, hrest, rfl⟩⟩
  · intro h
    obtain ⟨r, hcomma, hread⟩ := h
    obtain ⟨b, b', hb, hb', rfl, -⟩ := comma?_eq_some.1 hcomma
    obtain ⟨htoken, hrest, rfl⟩ := token?_eq_some.1 hread
    exact ⟨b, b', hb, hb', htoken, hrest, rfl⟩

theorem arcText?_eq_some {t : ArcText} : arcText? cs = some t
    ↔ ∃ r₁ r₂ r₃, quotedLabel? cs = some (t.label, r₁)
        ∧ FollowedBy r₁ t.cost r₂ ∧ FollowedBy r₂ t.offset r₃
        ∧ t.offset.all Unicode.isDecimalDigit = true
        ∧ skipComma r₃ = [] := by
  unfold arcText?
  simp only [Option.bind_eq_bind, Option.bind_eq_some_iff, Prod.exists,
    Option.ite_none_right_eq_some, Bool.and_eq_true, List.isEmpty_iff,
    followedBy_iff]
  constructor
  · intro h
    obtain ⟨label, r₁, hlabel, s₁, hs₁, cost, r₂, hcost, s₂, hs₂, offset, r₃,
      hoffset, ⟨hdigits, hend⟩, ht⟩ := h
    cases ht
    exact ⟨r₁, r₂, r₃, hlabel, ⟨s₁, hs₁, hcost⟩, ⟨s₂, hs₂, hoffset⟩, hdigits,
      hend⟩
  · intro h
    obtain ⟨r₁, r₂, r₃, hlabel, ⟨s₁, hs₁, hcost⟩, ⟨s₂, hs₂, hoffset⟩, hdigits,
      hend⟩ := h
    exact ⟨_, r₁, hlabel, s₁, hs₁, _, r₂, hcost, s₂, hs₂, _, r₃, hoffset,
      ⟨hdigits, hend⟩, rfl⟩

/-- Blanks before a separator leave a separator in front. -/
theorem head?_blanks_append {b : List Char} (hb : Blanks b)
    (h : ∀ c ∈ rest.head?, isSeparator c = true) :
    ∀ c ∈ (b ++ rest).head?, isSeparator c = true := by
  cases b with
  | nil => exact h
  | cons d b =>
      intro c hc
      cases hc
      exact isSeparator_of_isBlank (hb d (List.mem_cons_self ..))

theorem head?_close {comma b : List Char} (hb : Blanks b)
    (hcomma : comma = [] ∨ comma = [',']) :
    ∀ c ∈ (comma ++ b).head?, isSeparator c = true := by
  rcases hcomma with rfl | rfl
  · have hnil : ∀ c ∈ ([] : List Char).head?, isSeparator c = true := by simp
    simpa using head?_blanks_append hb hnil
  · simp [isSeparator]

/-- An arc is read if it is written as it should be and in no other case. -/
theorem arcForm_iff {a : WrittenArc} : ArcForm cs a
    ↔ ∃ t, arcText? cs = some t ∧ t.label = a.label
        ∧ Cost.ofText? t.cost = some a.cost
        ∧ count? t.offset = some a.offset := by
  constructor
  · intro h
    obtain ⟨_, _, _, comma, b, ⟨b₁, label, b₂, hb₁, hlabel, hb₂, rfl⟩,
      ⟨b₃, cost, b₄, hb₃, hcost, hb₄, rfl⟩,
      ⟨b₅, offset, b₆, hb₅, hoffset, hb₆, rfl⟩, hcomma, hb, rfl⟩ := h
    have hdigits : offset.all Unicode.isDecimalDigit = true :=
      List.all_eq_true.2 fun c hc =>
        Unicode.isDecimalDigit_of_isDigit (hoffset.digits c hc)
    -- from the last token to the first, what is left behind each
    have hend : skipComma (b₆ ++ (comma ++ b)) = [] :=
      skipComma_eq_nil.2 ⟨b₆, comma, b, hb₆, hb, hcomma, by simp⟩
    have hsecond : FollowedBy
        (b₄ ++ ',' :: (b₅ ++ (offset ++ (b₆ ++ (comma ++ b))))) offset
        (b₆ ++ (comma ++ b)) :=
      ⟨b₄, b₅, hb₄, hb₅, token_of_offsetForm hoffset,
        head?_blanks_append hb₆ (head?_close hb hcomma), rfl⟩
    have hfirst : FollowedBy (b₂ ++ ',' :: (b₃ ++ (cost ++
          (b₄ ++ ',' :: (b₅ ++ (offset ++ (b₆ ++ (comma ++ b)))))))) cost
        (b₄ ++ ',' :: (b₅ ++ (offset ++ (b₆ ++ (comma ++ b))))) :=
      ⟨b₂, b₃, hb₂, hb₃, hcost.token,
        head?_blanks_append hb₄ (by simp [isSeparator]), rfl⟩
    exact ⟨⟨a.label, cost, offset⟩, arcText?_eq_some.2 ⟨_, _, _,
      quotedLabel?_eq_some.2 ⟨b₁, label, hb₁, hlabel, by simp⟩, hfirst,
      hsecond, hdigits, hend⟩, rfl, hcost.value, count?_eq_some.2 hoffset⟩
  · intro h
    obtain ⟨t, ht, hlabel, hcost, hoffset⟩ := h
    obtain ⟨r₁, r₂, r₃, hread, hfirst, hsecond, -, hend⟩ :=
      arcText?_eq_some.1 ht
    obtain ⟨b₁, label, hb₁, hquoted, rfl⟩ := quotedLabel?_eq_some.1 hread
    obtain ⟨b₂, b₃, hb₂, hb₃, htoken, -, rfl⟩ := hfirst
    obtain ⟨b₄, b₅, hb₄, hb₅, -, -, rfl⟩ := hsecond
    obtain ⟨b₆, comma, b, hb₆, hb, hcomma, rfl⟩ := skipComma_eq_nil.1 hend
    exact ⟨_, _, _, comma, b,
      ⟨b₁, label, b₂, hb₁, hlabel ▸ hquoted, hb₂, rfl⟩,
      ⟨b₃, _, b₄, hb₃, ⟨htoken, hcost⟩, hb₄, rfl⟩,
      ⟨b₅, _, b₆, hb₅, count?_eq_some.1 hoffset, hb₆, rfl⟩, hcomma, hb,
      by simp⟩

-- ============================================================= lattices

/-- Items in parentheses, in a row, with blanks and commas before, between
and after them. -/
inductive Series (Item : List Char → α → Prop) : List Char → List α → Prop
  | nil {s} : Separators s → Series Item s []
  | cons {s body text x xs} : Separators s → Item body x →
      Series Item text xs →
      Series Item (s ++ '(' :: (body ++ ')' :: text)) (x :: xs)

/-- The text of a lattice: one pair of parentheses, in it those of the nodes,
and in these those of the arcs. -/
def LatticeForm (text : List Char) (nodes : List (List WrittenArc)) : Prop :=
  ∃ s body s', Separators s ∧ Series (Series ArcForm) body nodes
    ∧ Separators s' ∧ text = s ++ '(' :: (body ++ ')' :: s')

namespace Series

variable {Item : List Char → α → Prop} {text : List Char} {x : α}
  {xs : List α} {c : Char}

theorem cons_separator (hc : isSeparator c = true)
    (h : Series Item text xs) : Series Item (c :: text) xs := by
  cases h with
  | nil hs => exact .nil (List.forall_mem_cons.2 ⟨hc, hs⟩)
  | cons hs hitem hrest =>
      exact .cons (s := c :: _) (List.forall_mem_cons.2 ⟨hc, hs⟩) hitem hrest

theorem cons_group (hitem : Item cs x) (h : Series Item text xs) :
    Series Item ('(' :: (cs ++ ')' :: text)) (x :: xs) :=
  .cons (s := []) (fun _ h => absurd h List.not_mem_nil) hitem h

/-- A text is longer than what stands in a row in it. -/
theorem length_le (h : Series Item text xs) : xs.length ≤ text.length := by
  induction h with
  | nil => exact Nat.zero_le _
  | cons _ _ _ ih =>
      simp only [List.length_append, List.length_cons]
      omega

end Series

theorem latticeForm_iff {nodes : List (List WrittenArc)} :
    LatticeForm cs nodes ↔ Series (Series (Series ArcForm)) cs [nodes] := by
  constructor
  · intro h
    obtain ⟨s, body, s', hs, hbody, hs', rfl⟩ := h
    exact .cons hs hbody (.nil hs')
  · intro h
    cases h with
    | cons hs hbody hrest =>
        cases hrest with
        | nil hs' => exact ⟨_, _, _, hs, hbody, hs', rfl⟩

end LatticeParsing.LatticeText
