import Mathlib.Algebra.Order.Field.Basic
import Mathlib.Tactic.FieldSimp
import Mathlib.Tactic.Linarith
import Mathlib.Tactic.Positivity
import Mathlib.Tactic.Ring

/-!
# Averages over an ordered field

Sums and smoothed averages of a list of numbers, as left folds: the bounds that they keep, and what
becomes of them under `x ↦ a * x + b`.  A fold is bounded step by step (`foldl_between`), and the
inequality of Cauchy and Schwarz is an invariant of the three sums that it is about
(`cauchySchwarz_step`), so no sum has to be written in closed form.
-/

universe u v

namespace OpenAlice.Data

/-! ## Folds -/

section Folds

variable {α : Type u} {β : Type v}

/-- A fold that chooses among its arguments reaches none that lies on the far side of its
choice. -/
theorem foldl_choice {r : α → α → Prop} {f : α → α → α} (hrefl : ∀ x, r x x)
    (htrans : ∀ x y z, r x y → r y z → r x z) (hleft : ∀ x y, r (f x y) x)
    (hright : ∀ x y, r (f x y) y) (l : List α) (x : α) :
    ∀ y ∈ x :: l, r (l.foldl f x) y := by
  induction l generalizing x with
  | nil =>
    intro y hy
    rw [List.mem_singleton.mp hy]
    exact hrefl x
  | cons z l ih =>
    intro y hy
    have hchoice : r (l.foldl f (f x z)) (f x z) := ih (f x z) _ List.mem_cons_self
    rcases List.mem_cons.mp hy with rfl | hy
    · exact htrans _ _ _ hchoice (hleft y z)
    rcases List.mem_cons.mp hy with rfl | hy
    · exact htrans _ _ _ hchoice (hright x y)
    · exact ih (f x z) y (List.mem_cons_of_mem _ hy)

theorem foldl_keeps {step : β → α → β} (P : β → Prop) {l : List α} {b : β} (h₀ : P b)
    (hstep : ∀ b, P b → ∀ x ∈ l, P (step b x)) : P (l.foldl step b) := by
  induction l generalizing b with
  | nil => exact h₀
  | cons x l ih =>
    exact ih (hstep b h₀ x List.mem_cons_self)
      fun b hb y hy ↦ hstep b hb y (List.mem_cons_of_mem x hy)

theorem foldl_hom_map {γ : Type u} {δ : Type v} {step : β → α → β} {step' : δ → γ → δ} {f : α → γ}
    {g : β → δ} (h : ∀ b x, step' (g b) (f x) = g (step b x)) (l : List α) (b : β) :
    (l.map f).foldl step' (g b) = g (l.foldl step b) := by
  induction l generalizing b with
  | nil => rfl
  | cons x l ih =>
    rw [List.map_cons, List.foldl_cons, h]
    exact ih (step b x)

end Folds

/-! ## Sums -/

section Sums

variable {K : Type u} [Field K]

theorem foldl_add (v : List K) (acc : K) :
    v.foldl (fun acc val ↦ acc + val) acc = acc + v.foldl (fun acc val ↦ acc + val) 0 := by
  induction v generalizing acc with
  | nil => rw [List.foldl_nil, List.foldl_nil, add_zero]
  | cons x v ih =>
    rw [List.foldl_cons, List.foldl_cons, ih (acc + x), ih (0 + x)]
    ring

theorem foldl_add_affine (a b : K) (v : List K) :
    (v.map fun x ↦ a * x + b).foldl (fun acc val ↦ acc + val) 0 =
      a * v.foldl (fun acc val ↦ acc + val) 0 + b * v.length := by
  induction v with
  | nil => simp
  | cons x v ih =>
    rw [List.map_cons, List.foldl_cons, List.foldl_cons, foldl_add, ih, foldl_add v (0 + x),
      List.length_cons, Nat.cast_succ]
    ring

theorem foldl_weighted_affine [CharZero K] (a b : K) (v : List K) (k : Nat) (acc count : K) :
    ((v.map fun x ↦ a * x + b).zipIdx k).foldl (fun s y ↦ s + (y.2 : K) * y.1)
        (a * acc + b * count) =
      a * (v.zipIdx k).foldl (fun s y ↦ s + (y.2 : K) * y.1) acc +
        b * (count + (k * v.length + v.length * (v.length - 1) / 2)) := by
  induction v generalizing k acc count with
  | nil => simp
  | cons x v ih =>
    have hstep : a * acc + b * count + (k : K) * (a * x + b) =
        a * (acc + k * x) + b * (count + k) := by
      ring
    rw [List.map_cons, List.zipIdx_cons, List.foldl_cons, hstep, ih, List.zipIdx_cons,
      List.foldl_cons, List.length_cons, Nat.cast_succ, Nat.cast_succ]
    field_simp
    ring

def smooth (multiplier avg x : K) : K := (x - avg) * multiplier + avg

theorem smooth_affine (a b multiplier avg x : K) :
    smooth multiplier (a * avg + b) (a * x + b) = a * smooth multiplier avg x + b := by
  rw [smooth, smooth]
  ring

end Sums

/-! ## Bounds -/

section Bounds

variable {K : Type u} [Field K] [LinearOrder K] [IsStrictOrderedRing K] {lo hi : K}

theorem foldl_add_between {v : List K} (h : ∀ x ∈ v, lo ≤ x ∧ x ≤ hi) :
    lo * v.length ≤ v.foldl (fun acc val ↦ acc + val) 0 ∧
      v.foldl (fun acc val ↦ acc + val) 0 ≤ hi * v.length := by
  induction v with
  | nil => simp
  | cons x v ih =>
    obtain ⟨hlo, hhi⟩ := ih fun y hy ↦ h y (List.mem_cons_of_mem x hy)
    obtain ⟨hxlo, hxhi⟩ := h x List.mem_cons_self
    rw [List.foldl_cons, foldl_add, List.length_cons, Nat.cast_succ]
    constructor <;> linarith

theorem smooth_between {multiplier avg x : K} (h₀ : 0 ≤ multiplier) (h₁ : multiplier ≤ 1)
    (havg : lo ≤ avg ∧ avg ≤ hi) (hx : lo ≤ x ∧ x ≤ hi) :
    lo ≤ smooth multiplier avg x ∧ smooth multiplier avg x ≤ hi := by
  have hsplit : smooth multiplier avg x = x * multiplier + avg * (1 - multiplier) := by
    rw [smooth]
    ring
  have hrest : 0 ≤ 1 - multiplier := sub_nonneg.mpr h₁
  have hlo := add_le_add (mul_le_mul_of_nonneg_right hx.1 h₀)
    (mul_le_mul_of_nonneg_right havg.1 hrest)
  have hhi := add_le_add (mul_le_mul_of_nonneg_right hx.2 h₀)
    (mul_le_mul_of_nonneg_right havg.2 hrest)
  rw [hsplit]
  constructor <;> linarith

theorem cauchySchwarz_step {cov varA varB : K} (h : cov ^ 2 ≤ varA * varB) (hA : 0 ≤ varA)
    (hB : 0 ≤ varB) (a b : K) :
    (cov + a * b) ^ 2 ≤ (varA + a * a) * (varB + b * b) := by
  have hmixed : 0 ≤ varA * (b * b) + varB * (a * a) :=
    add_nonneg (mul_nonneg hA (mul_self_nonneg b)) (mul_nonneg hB (mul_self_nonneg a))
  -- The mixed term is at most what the two variances gain, by the inequality between means.
  have hsq : (2 * cov * (a * b)) ^ 2 ≤ (varA * (b * b) + varB * (a * a)) ^ 2 := by
    have hscaled : cov ^ 2 * (2 * a * b) ^ 2 ≤ varA * varB * (2 * a * b) ^ 2 :=
      mul_le_mul_of_nonneg_right h (sq_nonneg _)
    have hmeans : 0 ≤ (varA * (b * b) - varB * (a * a)) ^ 2 := sq_nonneg _
    linarith
  have hterm : 2 * cov * (a * b) ≤ varA * (b * b) + varB * (a * a) :=
    le_of_abs_le (abs_le_of_sq_le_sq hsq hmixed)
  linarith

end Bounds

end OpenAlice.Data
