import Mathlib.Tactic

/-!
# The heaviest element of a list

A loop that keeps the best element so far and replaces it by a strictly heavier one ends with an
element of the highest weight, the first one of equal weights.
-/

namespace SrtGo

variable {α : Type*} (w : α → ℕ)

def heavier (best : Option α) (a : α) : Option α :=
  match best with
  | none => some a
  | some b => if w b < w a then some a else some b

def heaviest (l : List α) : Option α := l.foldl (heavier w) none

variable {w} {l : List α}

theorem foldl_heavier_some (l : List α) (b : α) :
    ∃ a, l.foldl (heavier w) (some b) = some a ∧ (a = b ∨ a ∈ l) := by
  induction l generalizing b with
  | nil => exact ⟨b, rfl, Or.inl rfl⟩
  | cons x l ih =>
    rw [List.foldl_cons, heavier]
    split_ifs
    · obtain ⟨a, ha, rfl | hmem⟩ := ih x
      · exact ⟨a, ha, Or.inr List.mem_cons_self⟩
      · exact ⟨a, ha, Or.inr (List.mem_cons_of_mem x hmem)⟩
    · obtain ⟨a, ha, hmem⟩ := ih b
      exact ⟨a, ha, hmem.imp_right (List.mem_cons_of_mem x)⟩

theorem mem_of_heaviest_eq_some {a : α} (h : heaviest w l = some a) : a ∈ l := by
  cases l with
  | nil => cases h
  | cons x l =>
    obtain ⟨b, hb, hmem⟩ := foldl_heavier_some (w := w) l x
    have hab : a = b := Option.some.inj (h.symm.trans hb)
    rw [hab, List.mem_cons]
    exact hmem

theorem heaviest_eq_none_iff : heaviest w l = none ↔ l = [] := by
  cases l with
  | nil => simp [heaviest]
  | cons x l =>
    obtain ⟨b, hb, -⟩ := foldl_heavier_some (w := w) l x
    have hsome : heaviest w (x :: l) = some b := hb
    simp [hsome]

end SrtGo
