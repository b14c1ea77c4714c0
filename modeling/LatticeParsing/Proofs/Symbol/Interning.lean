/-
Words keep their numbers.

Interning a word either finds it or makes it the next terminal, behind all
that there are, so whatever is interned later, it is found under the number
that it has been given (`Vocabulary.Keeps`).
-/
import LatticeParsing.Symbol.Vocabulary

namespace LatticeParsing.Vocabulary

variable {v v' v'' : Vocabulary} {w u : String} {ws : List String}

/-- Whether a vocabulary has the words of another under their numbers. -/
def Keeps (v v' : Vocabulary) : Prop :=
  ∀ w s, v.terminal? w = some s → v'.terminal? w = some s

theorem Keeps.refl (v : Vocabulary) : v.Keeps v := fun _ _ h => h

theorem Keeps.trans (h : v.Keeps v') (h' : v'.Keeps v'') : v.Keeps v'' :=
  fun w s hw => h' w s (h w s hw)

theorem idxOf?_push (words : Array String) (w u : String) :
    (words.push w).idxOf? u
      = (words.idxOf? u).or (if w = u then some words.size else none) := by
  obtain ⟨words⟩ := words
  simp only [List.push_toArray, List.idxOf?_toArray, List.idxOf?,
    List.findIdx?_append, List.size_toArray]
  by_cases h : w = u <;> simp [h]

theorem terminal?_eq_some {s : Symbol} : v.terminal? w = some s
    ↔ ∃ n : Nat, v.terminals.idxOf? w = some n ∧ (n : Int) + 1 = s := by
  unfold terminal?
  cases v.terminals.idxOf? w <;> simp

/-- A new word becomes the next terminal. -/
theorem internWord_new (h : v.terminal? w = none) :
    v.internWord w
      = ({ v with terminals := v.terminals.push w },
          (v.terminals.size : Int) + 1) := by
  unfold internWord
  rw [h]

theorem internWord_old {s : Symbol} (h : v.terminal? w = some s) :
    v.internWord w = (v, s) := by
  unfold internWord
  rw [h]

/-- A word that has been interned is found under its number. -/
theorem terminal?_internWord (v : Vocabulary) (w : String) :
    (v.internWord w).1.terminal? w = some (v.internWord w).2 := by
  cases h : v.terminal? w with
  | some s =>
      rw [internWord_old h]
      exact h
  | none =>
      have hnone : v.terminals.idxOf? w = none := by
        cases hidx : v.terminals.idxOf? w with
        | none => rfl
        | some n =>
            rw [terminal?_eq_some.2 ⟨n, hidx, rfl⟩] at h
            cases h
      rw [internWord_new h, terminal?_eq_some]
      exact ⟨v.terminals.size, by simp [idxOf?_push, hnone], rfl⟩

theorem keeps_internWord (v : Vocabulary) (w : String) :
    v.Keeps (v.internWord w).1 := by
  intro u s hu
  cases h : v.terminal? w with
  | some s => rwa [internWord_old h]
  | none =>
      obtain ⟨n, hn, rfl⟩ := terminal?_eq_some.1 hu
      rw [internWord_new h, terminal?_eq_some]
      exact ⟨n, by simp [idxOf?_push, hn], rfl⟩

theorem keeps_internWords (v : Vocabulary) (ws : List String) :
    v.Keeps (v.internWords ws).1 := by
  induction ws generalizing v with
  | nil => exact .refl v
  | cons w ws ih => exact (v.keeps_internWord w).trans (ih _)

/-- A word keeps its number whatever is interned later. -/
theorem snd_internWord_of_keeps (h : (v.internWord w).1.Keeps v') :
    (v'.internWord w).2 = (v.internWord w).2 := by
  rw [internWord_old (h w _ (v.terminal?_internWord w))]

theorem fst_internWords_append (v : Vocabulary) (ws us : List String) :
    (v.internWords (ws ++ us)).1 = ((v.internWords ws).1.internWords us).1 := by
  induction ws generalizing v with
  | nil => rfl
  | cons w ws ih => exact ih _

end LatticeParsing.Vocabulary
