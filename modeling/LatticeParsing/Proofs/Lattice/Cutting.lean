/-
Cutting a text at its outermost parentheses.

The text is cut once for each level of parentheses, and every cut follows
quotes and inner parentheses of its own. They agree because what stands in
parentheses is balanced. Labels are, whatever they hold, and so is all that is
put together from balanced texts.

Main statement: a series of balanced items is cut into just these items
(`Series.iff_tuples`).
-/
import LatticeParsing.Proofs.Lattice.Form
import LatticeParsing.Proofs.Lattice.Scanning

namespace LatticeParsing.LatticeText

open Text

variable {α : Type} {text label : List Char} {mark : Char} {pos depth : Nat}
  {ts : List Tuple}

theorem map_eq_ok {ε β : Type} {f : α → β} {o : Except ε α} {y : β} :
    o.map f = .ok y ↔ ∃ x, o = .ok x ∧ f x = y := by
  cases o <;> simp [Except.map]

-- =============================================================== labels

theorem Separators.balanced (h : Separators text) : Balanced text :=
  balanced_of_plain fun c hc => plain_of_isSeparator (h c hc)

theorem Blanks.balanced (h : Blanks text) : Balanced text :=
  Separators.balanced fun c hc => isSeparator_of_isBlank (h c hc)

/-- What stands between quotes is passed over up to the quote that ends
it. -/
theorem LabelForm.scan (h : LabelForm mark text label) (hmark : mark ≠ '\\') :
    scan depth (.quoted mark) (text ++ [mark]) = some (depth, .bare) := by
  induction h with
  | nil =>
      have hnext : Quoting.next mark mark = .bare := by
        simp [Quoting.next, hmark]
      exact congrArg (fun q => some (depth, q)) hnext
  | @plain c text label hc hslash _ ih =>
      have hnext : Quoting.next mark c = .quoted mark := by
        simp [Quoting.next, hc, hslash]
      rw [List.cons_append, scan_quoted, hnext, ih]
  | escaped _ _ ih => exact ih

theorem LabelForm.balanced (h : LabelForm mark text label)
    (hmark : mark = '\'' ∨ mark = '"') :
    Balanced (mark :: (text ++ [mark])) := by
  rcases hmark with rfl | rfl
  · exact h.scan (by decide)
  · exact h.scan (by decide)

theorem QuotedForm.balanced (h : QuotedForm text label) : Balanced text := by
  cases h with
  | single h => exact h.balanced (Or.inl rfl)
  | double h => exact h.balanced (Or.inr rfl)

-- ================================================================ arcs

theorem Padded.balanced {Form : List Char → α → Prop} {x : α}
    (h : Padded Form text x)
    (hform : ∀ {token}, Form token x → Balanced token) :
    Balanced text := by
  obtain ⟨b, token, b', hb, htoken, hb', rfl⟩ := h
  exact hb.balanced.append ((hform htoken).append hb'.balanced)

theorem ArcForm.balanced {a : WrittenArc} (h : ArcForm text a) :
    Balanced text := by
  obtain ⟨_, _, _, comma, b, hlabel, hcost, hoffset, hcomma, hb, rfl⟩ := h
  have hseparator : Balanced [','] :=
    Separators.balanced (by simp [Separators, isSeparator])
  have hlast : Balanced comma := by
    rcases hcomma with rfl | rfl
    · exact balanced_nil
    · exact hseparator
  have hlabel := hlabel.balanced QuotedForm.balanced
  have hcost := hcost.balanced fun h => balanced_of_plain (plain_of_costForm h)
  have hoffset := hoffset.balanced fun h =>
    balanced_of_plain (plain_of_offsetForm h)
  exact hlabel.append (hseparator.append (hcost.append (hseparator.append
    (hoffset.append (hlast.append hb.balanced)))))

-- ============================================================== series

/-- A row of tuples is a series of what stands in them. -/
theorem Row.series {Item : List Char → α → Prop} {xs : List α}
    (h : Row pos text ts)
    (hitems : List.Forall₂ (fun t x => Item t.body x) ts xs) :
    Series Item text xs := by
  induction h generalizing xs with
  | nil =>
      cases hitems
      exact .nil fun _ h => absurd h List.not_mem_nil
  | separator hc _ ih => exact (ih hitems).cons_separator hc
  | group _ _ ih =>
      obtain _ | ⟨hx, hxs⟩ := hitems
      exact (ih hxs).cons_group hx

namespace Series

variable {Item : List Char → α → Prop} {xs : List α}

/-- A row of items in parentheses is balanced if the items are. -/
theorem balanced (h : Series Item text xs)
    (hitem : ∀ {body x}, Item body x → Balanced body) : Balanced text := by
  induction h with
  | nil hs => exact hs.balanced
  | @cons s body text x xs hs hx _ ih =>
      have hgroup := hs.balanced.append ((hitem hx).group.append ih)
      simpa using hgroup

/-- A series of balanced items is a row of tuples. -/
theorem exists_row (h : Series Item text xs)
    (hitem : ∀ {body x}, Item body x → Balanced body) (pos : Nat) :
    ∃ ts, Row pos text ts
      ∧ List.Forall₂ (fun t x => Item t.body x) ts xs := by
  induction h generalizing pos with
  | nil hs => exact ⟨[], .of_separators hs, .nil⟩
  | @cons s body text x xs hs hx _ ih =>
      obtain ⟨ts, hrow, hxs⟩ :=
        ih (pos + byteLength s + (byteLength body + 2))
      exact ⟨_, (Row.of_separators hs).append (.group (hitem hx) hrow),
        .cons hx hxs⟩

/-- A text is a row of items just if it is cut into tuples that are these
items. -/
theorem iff_tuples (hitem : ∀ {body x}, Item body x → Balanced body)
    {t : Tuple} : Series Item t.body xs
      ↔ ∃ ts, tuples t = .ok ts
          ∧ List.Forall₂ (fun t x => Item t.body x) ts xs := by
  constructor
  · intro h
    obtain ⟨ts, hrow, hitems⟩ := h.exists_row hitem t.offset
    exact ⟨ts, hrow.tuplesFrom t.offset [], hitems⟩
  · intro h
    obtain ⟨ts, hts, hitems⟩ := h
    rcases tuples_cases t with ⟨ts', hts', hrow⟩ | ⟨e, he, -⟩
    · rw [hts'] at hts
      cases hts
      exact hrow.series hitems
    · rw [he] at hts
      cases hts

end Series

end LatticeParsing.LatticeText
