import Mathlib.Data.List.Infix

/-!
# Groups that end with a mark

A list of groups can be read back from its concatenation when each group ends with its
only marked element.
-/

namespace SrtGo.Delimited

variable {α : Type*} {stop : α → Bool} {g h : List α} {gs hs : List (List α)}

/-- The last element of the group is its only marked one. -/
def EndsAt (stop : α → Bool) (g : List α) : Prop :=
  ∃ front x, g = front ++ [x] ∧ stop x = true ∧ ∀ y ∈ front, stop y = false

theorem EndsAt.ne_nil (hg : EndsAt stop g) : g ≠ [] := by
  obtain ⟨front, x, rfl, -⟩ := hg
  simp

theorem EndsAt.stop_iff (hg : EndsAt stop g) {i : ℕ} {x : α} (hx : g[i]? = some x) :
    stop x = true ↔ i + 1 = g.length := by
  obtain ⟨front, y, rfl, hy, hfront⟩ := hg
  have hi := (List.getElem?_eq_some_iff.mp hx).1
  rw [List.length_append, List.length_singleton] at hi ⊢
  rcases Nat.lt_or_ge i front.length with hlt | hge
  · rw [List.getElem?_append_left hlt] at hx
    simp [hfront x (List.mem_of_getElem? hx)]
    omega
  · obtain rfl : i = front.length := by omega
    rw [List.getElem?_concat_length] at hx
    obtain rfl := Option.some.inj hx
    simp [hy]

theorem EndsAt.of_stop_iff (hne : g ≠ [])
    (hstop : ∀ i x, g[i]? = some x → (stop x = true ↔ i + 1 = g.length)) : EndsAt stop g := by
  have hlast : g = g.dropLast ++ [g.getLast hne] := (List.dropLast_append_getLast hne).symm
  refine ⟨g.dropLast, g.getLast hne, hlast, ?_, fun y hy => ?_⟩
  · have hpos := List.length_pos_iff.mpr hne
    refine (hstop (g.length - 1) _ ?_).mpr (by omega)
    rw [← List.getLast?_eq_getElem?, List.getLast?_eq_some_getLast hne]
  · obtain ⟨i, hi⟩ := List.mem_iff_getElem?.mp hy
    have hlt := (List.getElem?_eq_some_iff.mp hi).1
    have hy' : g[i]? = some y := by
      rw [hlast, List.getElem?_append_left hlt]
      exact hi
    rw [List.length_dropLast] at hlt
    have hnot := (hstop i y hy').not.mpr (by omega)
    simpa using hnot

theorem EndsAt.eq_of_prefix (hg : EndsAt stop g) (hh : EndsAt stop h) (hfirst : g <+: h) :
    g = h := by
  obtain ⟨t, rfl⟩ := hfirst
  obtain ⟨x, hx⟩ : ∃ x, g[g.length - 1]? = some x :=
    ⟨_, List.getElem?_eq_getElem (Nat.sub_lt (List.length_pos_iff.mpr hg.ne_nil) Nat.one_pos)⟩
  have hlt := (List.getElem?_eq_some_iff.mp hx).1
  have hx' : (g ++ t)[g.length - 1]? = some x := by
    rw [List.getElem?_append_left hlt]
    exact hx
  -- the mark of the first group ends the second one as well
  have hend := (hh.stop_iff hx').mp ((hg.stop_iff hx).mpr (by omega))
  rw [List.length_append] at hend
  obtain rfl : t = [] := List.length_eq_zero_iff.mp (by omega)
  rw [List.append_nil]

/-- **A first part of the concatenation that consists of groups consists of the first
groups.** -/
theorem prefix_of_flatten (hgs : ∀ g ∈ gs, EndsAt stop g) (hhs : ∀ h ∈ hs, EndsAt stop h)
    (hfirst : gs.flatten <+: hs.flatten) : gs <+: hs := by
  induction gs generalizing hs with
  | nil => exact List.nil_prefix
  | cons g gs ih =>
    have hg := hgs g List.mem_cons_self
    cases hs with
    | nil => exact absurd (List.append_eq_nil_iff.mp (List.prefix_nil.mp hfirst)).1 hg.ne_nil
    | cons h hs =>
      have hh := hhs h List.mem_cons_self
      rw [List.flatten_cons, List.flatten_cons] at hfirst
      have heq : g = h := by
        rcases List.prefix_or_prefix_of_prefix ((List.prefix_append g _).trans hfirst)
          (List.prefix_append h _) with hle | hle
        · exact hg.eq_of_prefix hh hle
        · exact (hh.eq_of_prefix hg hle).symm
      subst heq
      rw [List.prefix_append_right_inj] at hfirst
      rw [List.prefix_cons_inj]
      exact ih (fun x hx => hgs x (List.mem_cons_of_mem _ hx))
        (fun x hx => hhs x (List.mem_cons_of_mem _ hx)) hfirst

end SrtGo.Delimited
