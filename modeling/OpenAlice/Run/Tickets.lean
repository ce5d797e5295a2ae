import Mathlib.Logic.Function.Basic

/-!
# Tickets

Whoever joins a line draws the next number, and leaves it when it is served; those that
are in the line have the numbers after the last that was served, one each, when they are
served in the order of their numbers.
-/

namespace OpenAlice.Run

/-- The numbers from `served + 1` to `issued` are held by one each, and no other number is. -/
structure Tickets (served issued : Nat) (holds : Nat → Option Nat) : Prop where
  le : served ≤ issued
  range : ∀ j n, holds j = some n → served < n ∧ n ≤ issued
  pending : ∀ n, served < n → n ≤ issued → ∃ j, holds j = some n
  distinct : ∀ j j' n, holds j = some n → holds j' = some n → j = j'

namespace Tickets

variable {served issued i n : Nat} {holds : Nat → Option Nat}

theorem empty (h : ∀ j, holds j = none) : Tickets n n holds where
  le := Nat.le_refl _
  range j m hj := by
    rw [h j] at hj
    cases hj
  pending m hlt hle := absurd hlt (Nat.not_lt_of_le hle)
  distinct j _ m hj _ := by
    rw [h j] at hj
    cases hj

theorem all_served (h : Tickets served issued holds) (hnone : ∀ j, holds j = none) :
    served = issued := by
  by_contra hne
  obtain ⟨j, hj⟩ := h.pending issued (Nat.lt_of_le_of_ne h.le hne) (Nat.le_refl _)
  rw [hnone j] at hj
  cases hj

theorem eq_next (h : Tickets served issued holds) (hi : holds i = some n)
    (hleast : ∀ j m, holds j = some m → n ≤ m) : n = served + 1 := by
  obtain ⟨hlt, hle⟩ := h.range i n hi
  obtain ⟨j, hj⟩ := h.pending (served + 1) (Nat.lt_succ_self _) (Nat.le_trans hlt hle)
  exact Nat.le_antisymm (hleast j _ hj) hlt

theorem issue (h : Tickets served issued holds) (hi : holds i = none) :
    Tickets served (issued + 1) (Function.update holds i (some (issued + 1))) where
  le := Nat.le_succ_of_le h.le
  range j n hj := by
    by_cases hji : j = i
    · rw [hji, Function.update_self] at hj
      cases hj
      exact ⟨Nat.lt_succ_of_le h.le, Nat.le_refl _⟩
    · rw [Function.update_of_ne hji] at hj
      exact ⟨(h.range j n hj).1, Nat.le_succ_of_le (h.range j n hj).2⟩
  pending n hlt hle := by
    rcases Nat.lt_or_eq_of_le hle with hle | rfl
    · obtain ⟨j, hj⟩ := h.pending n hlt (Nat.le_of_lt_succ hle)
      have hji : j ≠ i := by
        rintro rfl
        rw [hi] at hj
        cases hj
      exact ⟨j, (Function.update_of_ne hji ..).trans hj⟩
    · exact ⟨i, Function.update_self ..⟩
  distinct j j' n hj hj' := by
    have hnew : ∀ j, holds j ≠ some (issued + 1) :=
      fun j hj ↦ absurd (h.range j _ hj).2 (Nat.not_succ_le_self _)
    by_cases hji : j = i <;> by_cases hji' : j' = i
    · exact hji.trans hji'.symm
    · rw [hji, Function.update_self] at hj
      rw [Function.update_of_ne hji', ← hj] at hj'
      exact absurd hj' (hnew j')
    · rw [hji', Function.update_self] at hj'
      rw [Function.update_of_ne hji, ← hj'] at hj
      exact absurd hj (hnew j)
    · rw [Function.update_of_ne hji] at hj
      rw [Function.update_of_ne hji'] at hj'
      exact h.distinct j j' n hj hj'

theorem serve (h : Tickets served issued holds) (hi : holds i = some (served + 1)) :
    Tickets (served + 1) issued (Function.update holds i none) where
  le := (h.range i _ hi).2
  range j n hj := by
    have hji : j ≠ i := by
      rintro rfl
      rw [Function.update_self] at hj
      cases hj
    rw [Function.update_of_ne hji] at hj
    refine ⟨Nat.lt_of_le_of_ne (h.range j n hj).1 ?_, (h.range j n hj).2⟩
    rintro rfl
    exact hji (h.distinct j i _ hj hi)
  pending n hlt hle := by
    obtain ⟨j, hj⟩ := h.pending n (Nat.lt_of_succ_lt hlt) hle
    have hji : j ≠ i := by
      rintro rfl
      rw [hi] at hj
      cases hj
      exact Nat.lt_irrefl _ hlt
    exact ⟨j, (Function.update_of_ne hji ..).trans hj⟩
  distinct j j' n hj hj' := by
    have hother : ∀ j, Function.update holds i none j = some n → holds j = some n := by
      intro j hj
      have hji : j ≠ i := by
        rintro rfl
        rw [Function.update_self] at hj
        cases hj
      rwa [Function.update_of_ne hji] at hj
    exact h.distinct j j' n (hother j hj) (hother j' hj')

end Tickets

end OpenAlice.Run
