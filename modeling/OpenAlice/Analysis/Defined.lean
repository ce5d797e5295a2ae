import OpenAlice.Analysis.Indicators
import OpenAlice.Data.Results
import Mathlib.Algebra.Order.BigOperators.Group.List
import Mathlib.Data.List.GetD
import Mathlib.Tactic.FieldSimp
import Mathlib.Tactic.Linarith
import Mathlib.Tactic.Ring

/-!
# When an indicator has a value

For each indicator, the exact condition on its arguments under which it computes a number: no
division by zero, no element outside of an array, no `Error`.  Most of them ask for a period that
is a positive whole number (`WholePeriod`), where a loop goes through the bars, or for one that
is not zero, where only slices are taken.

The computations are taken apart by `ok_bind_iff`, their loops by `loop_rule`: a loop has a value
when its body has one wherever an invariant of the state holds.
-/

namespace OpenAlice.Analysis

open Data

set_option linter.unusedSectionVars false

variable {K : Type} [Field K] [LinearOrder K] {v : List K} {x y period : K}

/-! ## Arithmetic -/

theorem ok_div_iff : Ok (div x y) ↔ y ≠ 0 := by
  rw [div, ok_if_error]
  exact and_iff_left (ok_ok _)

theorem div_eq (h : y ≠ 0) : div x y = .ok (x / y) := if_neg h

theorem div_eq_ok_iff {z : K} : div x y = .ok z ↔ y ≠ 0 ∧ z = x / y := by
  constructor
  · intro h
    have hy : y ≠ 0 := ok_div_iff.mp ⟨z, h⟩
    rw [div_eq hy] at h
    exact ⟨hy, (Except.ok.inj h).symm⟩
  · rintro ⟨hy, rfl⟩
    exact div_eq hy

theorem ok_root_iff (sqrt : K → K) : Ok (root sqrt x) ↔ 0 ≤ x := by
  rw [root, ok_if_error, not_lt]
  exact and_iff_left (ok_ok _)

theorem nth_eq {i : Nat} (h : i < v.length) : nth v i = .ok (v[i]) := by
  rw [nth, List.getElem?_eq_getElem h]

theorem ok_nth_iff {i : Nat} : Ok (nth v i) ↔ i < v.length := by
  constructor
  · rintro ⟨a, h⟩
    by_contra hlt
    rw [nth, List.getElem?_eq_none (Nat.le_of_not_lt hlt)] at h
    cases h
  · exact fun h ↦ ⟨v[i], nth_eq h⟩

theorem ok_largest_iff : Ok (largest v) ↔ v ≠ [] := by
  cases v with
  | nil => exact ⟨fun h ↦ absurd h (not_ok_error _), fun h ↦ absurd rfl h⟩
  | cons x v => exact ⟨fun _ ↦ List.cons_ne_nil x v, fun _ ↦ ok_ok _⟩

theorem ok_smallest_iff : Ok (smallest v) ↔ v ≠ [] := by
  cases v with
  | nil => exact ⟨fun h ↦ absurd h (not_ok_error _), fun h ↦ absurd rfl h⟩
  | cons x v => exact ⟨fun _ ↦ List.cons_ne_nil x v, fun _ ↦ ok_ok _⟩

variable [IsStrictOrderedRing K]

theorem length_ne_zero (h : v ≠ []) : (v.length : K) ≠ 0 :=
  Nat.cast_ne_zero.mpr (List.length_pos_iff.mpr h).ne'

theorem squares_nonneg (mean : K) (v : List K) : 0 ≤ squares mean v := by
  have hfold (v : List K) (acc : K) (hacc : 0 ≤ acc) :
      0 ≤ v.foldl (fun acc val ↦ acc + (val - mean) ^ 2) acc := by
    induction v generalizing acc with
    | nil => exact hacc
    | cons x v ih => exact ih _ (add_nonneg hacc (sq_nonneg _))
  exact hfold v 0 le_rfl

variable {sqrt : K → K}

theorem ok_variance {mean : K} (h : v ≠ []) :
    ∃ variance, div (squares mean v) v.length = .ok variance ∧ Ok (root sqrt variance) :=
  ⟨_, div_eq (length_ne_zero h),
    (ok_root_iff sqrt).mpr (div_nonneg (squares_nonneg mean v) (Nat.cast_nonneg _))⟩

variable [FloorRing K]

theorem elem_natCast (i : Nat) : elem v (i : K) = nth v i := by
  rw [elem, if_pos ⟨Nat.cast_nonneg i, by rw [Int.floor_natCast, Int.cast_natCast]⟩,
    Int.floor_natCast, Int.toNat_natCast]

theorem ok_elem_iff : Ok (elem v x) ↔ ∃ i : Nat, x = i ∧ i < v.length := by
  constructor
  · intro h
    rw [elem] at h
    split_ifs at h with hx
    · obtain ⟨hnonneg, hfloor⟩ := hx
      refine ⟨⌊x⌋.toNat, ?_, ok_nth_iff.mp h⟩
      have hcast : ((⌊x⌋.toNat : Int) : K) = (⌊x⌋ : K) := by
        rw [Int.toNat_of_nonneg (Int.floor_nonneg.mpr hnonneg)]
      rw [← Int.cast_natCast, hcast]
      exact hfloor
    · exact absurd h (not_ok_error _)
  · rintro ⟨i, rfl, hi⟩
    rw [elem_natCast]
    exact ok_nth_iff.mpr hi

/-! ## Loops over whole numbers -/

def WholePeriod (period : K) : Prop := ∃ n : Nat, 0 < n ∧ period = n

theorem mem_loop_iff {first : K} {stop j : Nat} :
    j ∈ List.range ⌈(stop : K) - first⌉.toNat ↔ first + j < stop := by
  rw [List.mem_range, Int.lt_toNat, Int.lt_ceil, Int.cast_natCast, lt_sub_iff_add_lt']

variable {β : Type} {body : β → K → Except Fault β} {b : β}

theorem loop_rule {first : K} {stop : Nat} (P : β → Prop) (h₀ : P b)
    (hbody : ∀ b, P b → ∀ j : Nat, first + j < stop → ∃ b', body b (first + j) = .ok b' ∧ P b') :
    ∃ b', loop first stop body b = .ok b' ∧ P b' :=
  foldlM_rule P h₀ fun b hb j hj ↦ hbody b hb j (mem_loop_iff.mp hj)

theorem not_ok_loop {first : K} {stop : Nat} (hlt : first < stop) (hbody : ¬ Ok (body b first)) :
    ¬ Ok (loop first stop body b) := by
  have hpos : 0 < ⌈(stop : K) - first⌉.toNat := by
    rw [Int.lt_toNat, Int.lt_ceil]
    simpa using hlt
  obtain ⟨m, hm⟩ := Nat.exists_eq_succ_of_ne_zero hpos.ne'
  rw [loop, hm, List.range_succ_eq_map, List.foldlM_cons, ok_bind_iff]
  rintro ⟨b', hb', -⟩
  rw [Nat.cast_zero, add_zero] at hb'
  exact hbody ⟨b', hb'⟩

theorem ok_loop_elem {w : List K} (hperiod : WholePeriod period) (P : β → Prop) (h₀ : P b)
    (hbody : ∀ b, P b → ∀ i : Nat, i < w.length → ∃ b', body b (i : K) = .ok b' ∧ P b') :
    ∃ b', loop period w.length body b = .ok b' ∧ P b' := by
  obtain ⟨n, -, rfl⟩ := hperiod
  refine loop_rule P h₀ fun b hb j hj ↦ ?_
  rw [← Nat.cast_add] at hj ⊢
  exact hbody b hb (n + j) (Nat.cast_lt.mp hj)

theorem ok_loop_bind {γ : Type} {f : β → Except Fault γ} {w : List K} (P : β → Prop)
    (hperiod : WholePeriod period) (h₀ : P b)
    (hbody : ∀ b, P b → ∀ i : Nat, i < w.length → ∃ b', body b (i : K) = .ok b' ∧ P b')
    (hrest : ∀ b, P b → Ok (f b)) : Ok (loop period w.length body b >>= f) := by
  obtain ⟨b', hb', hP⟩ := ok_loop_elem hperiod P h₀ hbody
  exact ok_bind_iff.mpr ⟨b', hb', hrest b' hP⟩

theorem ok_loop {w : List K} (hperiod : WholePeriod period)
    (hbody : ∀ b, ∀ i : Nat, i < w.length → Ok (body b (i : K))) :
    Ok (loop period w.length body b) := by
  obtain ⟨b', hb', -⟩ := ok_loop_elem (w := w) (b := b) hperiod (fun _ ↦ True) trivial
    fun b _ i hi ↦ (hbody b i hi).imp fun _ h ↦ ⟨h, trivial⟩
  exact ⟨b', hb'⟩

theorem wholePeriod_of_elem {n : Nat} (hne : period ≠ 0) (hle : period ≤ n)
    (hread : period < n → Ok (elem v period)) : WholePeriod period := by
  rcases lt_or_eq_of_le hle with hlt | rfl
  · obtain ⟨i, rfl, -⟩ := ok_elem_iff.mp (hread hlt)
    exact ⟨i, Nat.pos_of_ne_zero fun h ↦ hne (by rw [h, Nat.cast_zero]), rfl⟩
  · exact ⟨n, Nat.pos_of_ne_zero fun h ↦ hne (by rw [h, Nat.cast_zero]), rfl⟩

/-! ## The last elements and the first -/

theorem bound_natCast (length i : Nat) : bound length (i : K) = min i length := by
  rw [bound, truncate, if_pos (Nat.cast_nonneg i), Int.floor_natCast,
    if_neg (Int.natCast_nonneg i).not_gt, Int.toNat_natCast]

theorem sliceTo_natCast (i : Nat) : sliceTo v (i : K) = v.take i := by
  rw [sliceTo, bound_natCast]
  exact (List.take_eq_take_min (l := v) (i := i)).symm

theorem length_sliceFrom {i : Nat} (hpos : 0 < i) (hle : i ≤ v.length) :
    (sliceFrom v (-(i : K))).length = i := by
  have hneg : ¬ (0 : K) ≤ -(i : K) := by
    rw [not_le]
    exact neg_lt_zero.mpr (Nat.cast_pos.mpr hpos)
  have htruncate : truncate (-(i : K)) = -(i : Int) := by
    rw [truncate, if_neg hneg, Int.ceil_neg, Int.floor_natCast]
  rw [sliceFrom, bound, htruncate, if_pos (by omega), List.length_drop]
  omega

/-! ## `statistics.ts` -/

theorem ok_SMA_iff : Ok (SMA v period) ↔ period ≤ v.length ∧ period ≠ 0 := by
  rw [SMA, ok_if_error, not_lt, ok_div_iff]

theorem ok_EMA_iff : Ok (EMA v period) ↔ period ≤ v.length ∧ WholePeriod period := by
  rw [EMA, ok_if_error, not_lt]
  refine and_congr_right fun hle ↦ ⟨fun h ↦ ?_, fun hwhole ↦ ?_⟩
  · obtain ⟨multiplier, -, h⟩ := ok_bind_iff.mp h
    obtain ⟨ema, hema, h⟩ := ok_bind_iff.mp h
    refine wholePeriod_of_elem (v := v) (div_eq_ok_iff.mp hema).1 hle fun hlt ↦ ?_
    by_contra hread
    exact not_ok_loop hlt (fun hbody ↦ hread ((ok_bind_of_forall fun a ↦ ok_ok _).mp hbody)) h
  · obtain ⟨n, hpos, rfl⟩ := hwhole
    have hne : (n : K) ≠ 0 := Nat.cast_ne_zero.mpr hpos.ne'
    refine ok_bind_iff.mpr ⟨_, div_eq (Nat.cast_add_one_ne_zero n), ?_⟩
    refine ok_bind_iff.mpr ⟨_, div_eq hne, ?_⟩
    refine ok_loop ⟨n, hpos, rfl⟩ fun ema i hi ↦ ?_
    rw [elem_natCast]
    exact ok_bind_iff.mpr ⟨_, nth_eq hi, ok_ok _⟩

theorem ok_STDEV_iff : Ok (STDEV sqrt v) ↔ v ≠ [] := by
  rw [STDEV, ok_if_error]
  refine and_iff_left_of_imp fun h ↦ ?_
  refine ok_bind_iff.mpr ⟨_, div_eq (length_ne_zero h), ?_⟩
  obtain ⟨variance, hvariance, hroot⟩ := ok_variance h
  exact ok_bind_iff.mpr ⟨variance, hvariance, hroot⟩

theorem ok_MAX_iff : Ok (MAX v) ↔ v ≠ [] := by
  rw [MAX, ok_if_error, ok_largest_iff]
  exact and_self_iff

theorem ok_MIN_iff : Ok (MIN v) ↔ v ≠ [] := by
  rw [MIN, ok_if_error, ok_smallest_iff]
  exact and_self_iff

theorem ok_SUM : Ok (SUM v) := ok_ok _

theorem ok_AVERAGE_iff : Ok (AVERAGE v) ↔ v ≠ [] := by
  rw [AVERAGE, ok_if_error, ok_div_iff]
  exact and_iff_left_of_imp length_ne_zero

theorem ok_MEDIAN_iff : Ok (MEDIAN v) ↔ v ≠ [] := by
  have hlength : (v.insertionSort (· ≤ ·)).length = v.length := List.length_insertionSort _ v
  have hnil : v.insertionSort (· ≤ ·) = [] ↔ v = [] := by
    rw [← List.length_eq_zero_iff, hlength, List.length_eq_zero_iff]
  rw [MEDIAN, ok_if_error, hnil]
  refine and_iff_left_of_imp fun h ↦ ?_
  have hpos : 0 < (v.insertionSort (· ≤ ·)).length := hlength ▸ List.length_pos_iff.mpr h
  refine ok_if.mpr ⟨fun _ ↦ ok_nth_iff.mpr (by omega), fun _ ↦ ?_⟩
  refine ok_bind_iff.mpr ⟨_, nth_eq (by omega), ?_⟩
  exact ok_bind_iff.mpr ⟨_, nth_eq (by omega), ok_ok _⟩

/-- The earlier element is there for a whole number of steps back. -/
theorem ok_ROC_iff : Ok (ROC v period) ↔ period + 1 ≤ v.length ∧ ∃ m : Nat, period = m := by
  rw [ROC, ok_if_error, not_lt]
  refine and_congr_right fun hle ↦ ⟨fun h ↦ ?_, ?_⟩
  · obtain ⟨cur, -, h⟩ := ok_bind_iff.mp h
    obtain ⟨prior, hprior, -⟩ := ok_bind_iff.mp h
    obtain ⟨i, hi, hlt⟩ := ok_elem_iff.mp ⟨prior, hprior⟩
    refine ⟨v.length - 1 - i, ?_⟩
    rw [Nat.cast_sub (by omega), Nat.cast_sub (by omega), Nat.cast_one]
    linarith
  · rintro ⟨m, rfl⟩
    have hm : m + 1 ≤ v.length := by exact_mod_cast hle
    have hcur : Ok (elem v ((v.length : K) - 1)) :=
      ok_elem_iff.mpr ⟨v.length - 1, by rw [Nat.cast_sub (by omega), Nat.cast_one], by omega⟩
    have hprior : Ok (elem v ((v.length : K) - 1 - m)) :=
      ok_elem_iff.mpr ⟨v.length - 1 - m,
        by rw [Nat.cast_sub (by omega), Nat.cast_sub (by omega), Nat.cast_one], by omega⟩
    obtain ⟨cur, hcur⟩ := hcur
    obtain ⟨prior, hprior⟩ := hprior
    refine ok_bind_iff.mpr ⟨cur, hcur, ok_bind_iff.mpr ⟨prior, hprior, ok_if.mpr ⟨?_, ?_⟩⟩⟩
    · exact fun _ ↦ ok_ok _
    · exact fun hne ↦ ok_bind_iff.mpr ⟨_, div_eq hne, ok_ok _⟩

/-- The elements that `ZSCORE` compares the last one with. -/
def window (all : List K) (period : Option K) : List K :=
  match period with
  | some p => if p = 0 then all else sliceFrom all (-p)
  | none => all

theorem ok_ZSCORE_iff {all : List K} {period : Option K} :
    Ok (ZSCORE sqrt all period) ↔ all ≠ [] ∧ window all period ≠ [] := by
  rw [ZSCORE.eq_def, ok_if_error]
  refine and_congr_right fun hall ↦ ⟨fun h hnil ↦ ?_, fun h ↦ ?_⟩
  · obtain ⟨mean, hmean, -⟩ := ok_bind_iff.mp h
    refine (div_eq_ok_iff.mp hmean).1 ?_
    change ((window all period).length : K) = 0
    rw [hnil, List.length_nil, Nat.cast_zero]
  refine ok_bind_iff.mpr ⟨_, div_eq (length_ne_zero h), ?_⟩
  obtain ⟨variance, hvariance, sd, hsd⟩ := ok_variance h
  refine ok_bind_iff.mpr ⟨variance, hvariance, ok_bind_iff.mpr ⟨sd, hsd, ?_⟩⟩
  have hlast : all.length - 1 < all.length :=
    Nat.sub_lt (List.length_pos_iff.mpr hall) Nat.one_pos
  refine ok_bind_iff.mpr ⟨_, nth_eq hlast, ok_if.mpr ⟨fun _ ↦ ok_ok _, ?_⟩⟩
  exact fun hne ↦ ok_div_iff.mpr hne

theorem ok_SLOPE_iff : Ok (SLOPE v period) ↔ 2 ≤ (sliceFrom v (-period)).length := by
  rw [SLOPE, ok_if_error, not_lt, Nat.ofNat_le_cast]
  exact and_iff_left (ok_if.mpr ⟨fun _ ↦ ok_ok _, fun hne ↦ ok_div_iff.mpr hne⟩)

theorem ok_CORRELATION_iff {av bv : List K} :
    Ok (CORRELATION sqrt av bv) ↔ 2 ≤ min av.length bv.length := by
  rw [CORRELATION, ok_if_error, not_lt]
  refine and_iff_left_of_imp fun hn ↦ ?_
  have hne : ((min av.length bv.length : Nat) : K) ≠ 0 := Nat.cast_ne_zero.mpr (by omega)
  have hA := length_sliceFrom (K := K) (v := av) (i := min av.length bv.length) (by omega) (by omega)
  have hB := length_sliceFrom (K := K) (v := bv) (i := min av.length bv.length) (by omega) (by omega)
  refine ok_bind_iff.mpr ⟨_, div_eq hne, ok_bind_iff.mpr ⟨_, div_eq hne, ?_⟩⟩
  -- The variances are sums of squares.
  refine ok_foldlM_bind (fun s ↦ 0 ≤ s.2.1 ∧ 0 ≤ s.2.2) ⟨le_rfl, le_rfl⟩ ?_ ?_
  · intro s hs i hi
    rw [List.mem_range] at hi
    have hi₁ : i < (sliceFrom av (-((min av.length bv.length : Nat) : K))).length := by rwa [hA]
    have hi₂ : i < (sliceFrom bv (-((min av.length bv.length : Nat) : K))).length := by rwa [hB]
    refine ⟨_, bind_eq_ok (nth_eq hi₁) (bind_eq_ok (nth_eq hi₂) rfl), ?_, ?_⟩
    · exact add_nonneg hs.1 (mul_self_nonneg _)
    · exact add_nonneg hs.2 (mul_self_nonneg _)
  · intro s hs
    obtain ⟨denom, hdenom⟩ := (ok_root_iff sqrt).mpr (mul_nonneg hs.1 hs.2)
    refine ok_bind_iff.mpr ⟨denom, hdenom, ok_if.mpr ⟨?_, ?_⟩⟩
    · exact fun _ ↦ ok_ok _
    · exact fun h ↦ ok_div_iff.mpr h

theorem ok_HIGHEST_iff : Ok (HIGHEST v period) ↔ sliceFrom v (-period) ≠ [] := by
  rw [HIGHEST, ok_if_error, ok_largest_iff]
  exact and_self_iff

theorem ok_LOWEST_iff : Ok (LOWEST v period) ↔ sliceFrom v (-period) ≠ [] := by
  rw [LOWEST, ok_if_error, ok_smallest_iff]
  exact and_self_iff

/-! ## `technical.ts` -/

theorem length_changesOf : (changesOf v).length = v.length - 1 := by
  rw [changesOf, List.length_zipWith, List.length_tail]
  omega

theorem le_pred_of_add_one_le {n : Nat} (h : period + 1 ≤ n) : period ≤ (n - 1 : Nat) := by
  cases n with
  | zero =>
    rw [Nat.cast_zero] at h ⊢
    linarith
  | succ n =>
    rw [Nat.cast_succ] at h
    rw [Nat.add_sub_cancel]
    linarith

theorem total_nonneg (h : ∀ x ∈ v, 0 ≤ x) : 0 ≤ total v := by
  have hfold (acc : K) (hacc : 0 ≤ acc) : 0 ≤ v.foldl (fun acc val ↦ acc + val) acc := by
    induction v generalizing acc with
    | nil => exact hacc
    | cons x v ih =>
      exact ih (fun y hy ↦ h y (List.mem_cons_of_mem x hy)) _
        (add_nonneg hacc (h x List.mem_cons_self))
  exact hfold 0 le_rfl

theorem smoothed_nonneg {n : Nat} (hpos : 0 < n) {avg x : K} (havg : 0 ≤ avg) (hx : 0 ≤ x) :
    0 ≤ (avg * ((n : K) - 1) + x) / n := by
  have hone : (0 : K) ≤ (n : K) - 1 := by
    rw [sub_nonneg]
    exact_mod_cast hpos
  exact div_nonneg (add_nonneg (mul_nonneg havg hone) hx) (Nat.cast_nonneg n)

/-- The last step of `RSI` and `MFI`. -/
theorem ok_ratio_iff {up down : K} (h : down ≠ 0) : Ok (do
      let ratio ← div up down
      return 100 - (← div 100 (1 + ratio))) ↔ up + down ≠ 0 := by
  have hsum : 1 + up / down = (up + down) / down := by
    rw [add_div, div_self h, add_comm]
  rw [ok_bind_iff]
  constructor
  · rintro ⟨ratio, hratio, hok⟩
    obtain ⟨-, rfl⟩ := div_eq_ok_iff.mp hratio
    have hne := ok_div_iff.mp ((ok_bind_of_forall fun a ↦ ok_ok _).mp hok)
    rw [hsum] at hne
    exact fun hzero ↦ hne (by rw [hzero, zero_div])
  · intro hne
    refine ⟨_, div_eq h, ok_bind_iff.mpr ⟨_, div_eq ?_, ok_ok _⟩⟩
    rw [hsum]
    exact div_ne_zero hne h

theorem ok_RSI_iff : Ok (RSI v period) ↔ period + 1 ≤ v.length ∧ WholePeriod period := by
  rw [RSI, ok_if_error, not_lt]
  refine and_congr_right fun hle ↦ ⟨fun h ↦ ?_, fun hwhole ↦ ?_⟩
  · obtain ⟨avgGain, hGain, h⟩ := ok_bind_iff.mp h
    obtain ⟨avgLoss, -, h⟩ := ok_bind_iff.mp h
    obtain ⟨averages, haverages, -⟩ := ok_bind_iff.mp h
    have hlength := (le_pred_of_add_one_le hle).trans_eq
      (congrArg Nat.cast (length_changesOf (v := v)).symm)
    refine wholePeriod_of_elem (v := (changesOf v).map fun c ↦ if 0 < c then c else 0)
      (div_eq_ok_iff.mp hGain).1 hlength fun hlt ↦ ?_
    by_contra hread
    refine not_ok_loop (by rwa [List.length_map]) (fun hbody ↦ hread ?_) ⟨averages, haverages⟩
    obtain ⟨gain, hgain, -⟩ := ok_bind_iff.mp hbody
    exact ⟨gain, hgain⟩
  · obtain ⟨n, hpos, rfl⟩ := hwhole
    have hne : (n : K) ≠ 0 := Nat.cast_ne_zero.mpr hpos.ne'
    have hGains : ∀ x ∈ (changesOf v).map fun c ↦ if 0 < c then c else 0, 0 ≤ x :=
      List.forall_mem_map.mpr fun c _ ↦ by split_ifs with hc <;> [exact hc.le; exact le_rfl]
    have hLosses : ∀ x ∈ (changesOf v).map fun c ↦ if c < 0 then -c else 0, 0 ≤ x :=
      List.forall_mem_map.mpr fun c _ ↦ by
        split_ifs with hc <;> [exact neg_nonneg.mpr hc.le; exact le_rfl]
    refine ok_bind_iff.mpr ⟨_, div_eq hne, ok_bind_iff.mpr ⟨_, div_eq hne, ?_⟩⟩
    -- Neither average is ever negative.
    refine ok_loop_bind (fun averages ↦ 0 ≤ averages.1 ∧ 0 ≤ averages.2) ⟨n, hpos, rfl⟩ ⟨?_, ?_⟩
      ?_ ?_
    · exact div_nonneg (total_nonneg fun x hx ↦ hGains x (List.mem_of_mem_take hx))
        (Nat.cast_nonneg n)
    · exact div_nonneg (total_nonneg fun x hx ↦ hLosses x (List.mem_of_mem_take hx))
        (Nat.cast_nonneg n)
    · intro averages hnonneg i hi
      have hi' : i < ((changesOf v).map fun c ↦ if c < 0 then -c else 0).length := by
        rwa [List.length_map] at hi ⊢
      refine ⟨_, bind_eq_ok ((elem_natCast i).trans (nth_eq hi)) (bind_eq_ok (div_eq hne)
        (bind_eq_ok ((elem_natCast i).trans (nth_eq hi')) (bind_eq_ok (div_eq hne) rfl))), ?_, ?_⟩
      · exact smoothed_nonneg hpos hnonneg.1 (hGains _ (List.getElem_mem hi))
      · exact smoothed_nonneg hpos hnonneg.2 (hLosses _ (List.getElem_mem hi'))
    · intro averages hnonneg
      refine ok_if.mpr ⟨fun _ ↦ ok_ok _, fun hloss ↦ (ok_ratio_iff hloss).mpr ?_⟩
      exact (add_pos_of_nonneg_of_pos hnonneg.1 (lt_of_le_of_ne hnonneg.2 (Ne.symm hloss))).ne'

theorem foldl_squares_eq_zero_iff {mean acc : K} (hacc : 0 ≤ acc) :
    v.foldl (fun acc val ↦ acc + (val - mean) ^ 2) acc = 0 ↔ acc = 0 ∧ ∀ x ∈ v, x = mean := by
  induction v generalizing acc with
  | nil => simp
  | cons x v ih =>
    rw [List.foldl_cons, ih (add_nonneg hacc (sq_nonneg _)), List.forall_mem_cons,
      add_eq_zero_iff_of_nonneg hacc (sq_nonneg _), sq_eq_zero_iff, sub_eq_zero, and_assoc]

theorem squares_eq_zero_iff {mean : K} : squares mean v = 0 ↔ ∀ x ∈ v, x = mean :=
  (foldl_squares_eq_zero_iff le_rfl).trans (and_iff_right rfl)

theorem total_const {a : K} (h : ∀ x ∈ v, x = a) : total v = v.length * a := by
  have hfold (acc : K) : v.foldl (fun acc val ↦ acc + val) acc = acc + v.length * a := by
    induction v generalizing acc with
    | nil => simp
    | cons x v ih =>
      rw [List.foldl_cons, ih fun y hy ↦ h y (List.mem_cons_of_mem x hy), h x List.mem_cons_self,
        List.length_cons, Nat.cast_succ]
      ring
  rw [total, hfold, zero_add]

theorem ok_BBANDS_iff {multiplier : K} : Ok (BBANDS sqrt v period multiplier) ↔ period ≤ v.length ∧
        (0 < period ∨ period < 0 ∧ ∀ x ∈ sliceFrom v (-period), x = 0) := by
  rw [BBANDS, ok_if_error, not_lt]
  refine and_congr_right fun hle ↦ ?_
  constructor
  · intro h
    obtain ⟨middle, hmiddle, h⟩ := ok_bind_iff.mp h
    obtain ⟨variance, hvariance, h⟩ := ok_bind_iff.mp h
    obtain ⟨hne, rfl⟩ := div_eq_ok_iff.mp hmiddle
    obtain ⟨-, rfl⟩ := div_eq_ok_iff.mp hvariance
    have hroot := (ok_root_iff sqrt).mp ((ok_bind_of_forall fun a ↦ ok_ok _).mp h)
    refine (lt_or_gt_of_ne hne).symm.imp id fun hneg ↦ ⟨hneg, ?_⟩
    have hzero : squares (total (sliceFrom v (-period)) / period) (sliceFrom v (-period)) = 0 := by
      refine le_antisymm ?_ (squares_nonneg _ _)
      by_contra hpos
      exact (div_neg_of_pos_of_neg (not_le.mp hpos) hneg).not_ge hroot
    have hall := squares_eq_zero_iff.mp hzero
    have htotal := total_const hall
    -- Numbers that all are their own sum, divided by a negative number.
    have hsum : total (sliceFrom v (-period)) = 0 := by
      have hmul : total (sliceFrom v (-period)) *
          (period - ((sliceFrom v (-period)).length : K)) = 0 := by
        field_simp at htotal
        linarith
      refine (mul_eq_zero.mp hmul).resolve_right (ne_of_lt ?_)
      linarith [(Nat.cast_nonneg (sliceFrom v (-period)).length : (0 : K) ≤ _)]
    rwa [hsum, zero_div] at hall
  · intro h
    have hne : period ≠ 0 := h.elim (fun hpos ↦ hpos.ne') fun hneg ↦ hneg.1.ne
    refine ok_bind_iff.mpr ⟨_, div_eq hne, ok_bind_iff.mpr ⟨_, div_eq hne, ?_⟩⟩
    refine (ok_bind_of_forall fun a ↦ ok_ok _).mpr ((ok_root_iff sqrt).mpr ?_)
    rcases h with hpos | ⟨hneg, hall⟩
    · exact div_nonneg (squares_nonneg _ _) hpos.le
    have htotal := total_const hall
    rw [mul_zero] at htotal
    rw [htotal, zero_div, squares_eq_zero_iff.mpr hall, zero_div]

theorem ok_MACD_iff {fastPeriod slowPeriod signalPeriod : K} :
    Ok (MACD v fastPeriod slowPeriod signalPeriod) ↔
      slowPeriod + signalPeriod ≤ v.length ∧ WholePeriod fastPeriod ∧ WholePeriod slowPeriod ∧
        WholePeriod signalPeriod ∧ fastPeriod ≤ slowPeriod := by
  rw [MACD, ok_if_error, not_lt]
  refine and_congr_right fun hle ↦ ⟨fun h ↦ ?_, ?_⟩
  · obtain ⟨fastEMA, hfast, h⟩ := ok_bind_iff.mp h
    obtain ⟨slowEMA, hslow, h⟩ := ok_bind_iff.mp h
    obtain ⟨macdHistory, hhistory, h⟩ := ok_bind_iff.mp h
    obtain ⟨signalValue, hsignal, -⟩ := ok_bind_iff.mp h
    obtain ⟨hslowLe, hslow⟩ := ok_EMA_iff.mp ⟨_, hslow⟩
    obtain ⟨-, hfastWhole⟩ := ok_EMA_iff.mp ⟨_, hfast⟩
    refine ⟨hfastWhole, hslow, (ok_EMA_iff.mp ⟨_, hsignal⟩).2, ?_⟩
    obtain ⟨m, hpos, rfl⟩ := hslow
    have hmem : 0 ∈ List.range (⌊(v.length : K) - m⌋ + 1).toNat := by
      have hfloor : 0 ≤ ⌊(v.length : K) - m⌋ := Int.floor_nonneg.mpr (sub_nonneg.mpr hslowLe)
      rw [List.mem_range]
      omega
    obtain ⟨fast, hfast, -⟩ := ok_bind_iff.mp (ok_mapM_iff.mp ⟨_, hhistory⟩ 0 hmem)
    have hfastLe := (ok_EMA_iff.mp ⟨_, hfast⟩).1
    rw [Nat.cast_zero, add_zero, sliceTo_natCast, List.length_take] at hfastLe
    exact hfastLe.trans (Nat.cast_le.mpr (Nat.min_le_left _ _))
  · rintro ⟨⟨k, hk, rfl⟩, ⟨m, hm, rfl⟩, ⟨s, hs, rfl⟩, hkm⟩
    have hkm' : k ≤ m := Nat.cast_le.mp hkm
    have hms : m + s ≤ v.length := by exact_mod_cast hle
    have hfloor : (⌊(v.length : K) - m⌋ + 1).toNat = v.length - m + 1 := by
      rw [← Nat.cast_sub (by omega), Int.floor_natCast]
      omega
    obtain ⟨fastEMA, hfast⟩ := (ok_EMA_iff (v := v)).mpr
      ⟨Nat.cast_le.mpr (hkm'.trans (by omega)), k, hk, rfl⟩
    obtain ⟨slowEMA, hslow⟩ := (ok_EMA_iff (v := v)).mpr
      ⟨Nat.cast_le.mpr (by omega : m ≤ v.length), m, hm, rfl⟩
    have hhistory : Ok ((List.range (⌊(v.length : K) - m⌋ + 1).toNat).mapM fun (j : Nat) ↦ do
        let slice := sliceTo v (m + j)
        let fast ← EMA slice k
        let slow ← EMA slice m
        return fast - slow) := by
      refine ok_mapM_iff.mpr fun j hj ↦ ?_
      rw [List.mem_range, hfloor] at hj
      have hlength : (sliceTo v ((m : K) + j)).length = m + j := by
        rw [← Nat.cast_add, sliceTo_natCast, List.length_take]
        omega
      obtain ⟨fast, hfast⟩ := (ok_EMA_iff (v := sliceTo v ((m : K) + j))).mpr
        ⟨Nat.cast_le.mpr (hlength ▸ (by omega : k ≤ m + j)), k, hk, rfl⟩
      obtain ⟨slow, hslow⟩ := (ok_EMA_iff (v := sliceTo v ((m : K) + j))).mpr
        ⟨Nat.cast_le.mpr (hlength ▸ (by omega : m ≤ m + j)), m, hm, rfl⟩
      exact ok_bind_iff.mpr ⟨fast, hfast, ok_bind_iff.mpr ⟨slow, hslow, ok_ok _⟩⟩
    obtain ⟨macdHistory, hhistory⟩ := hhistory
    have hlength := length_of_mapM hhistory
    rw [List.length_range, hfloor] at hlength
    obtain ⟨signalValue, hsignal⟩ := (ok_EMA_iff (v := macdHistory)).mpr
      ⟨Nat.cast_le.mpr (hlength ▸ (by omega : s ≤ v.length - m + 1)), s, hs, rfl⟩
    exact ok_bind_iff.mpr ⟨_, hfast, ok_bind_iff.mpr ⟨_, hslow, ok_bind_iff.mpr
      ⟨_, hhistory, ok_bind_iff.mpr ⟨_, hsignal, ok_ok _⟩⟩⟩⟩

section Columns

variable {h l c vol : List K}

theorem trueRanges_ok (hl : h.length = l.length) (hc : l.length = c.length) :
    ∃ ranges, trueRanges h l c = .ok ranges ∧ ranges.length = h.length - 1 := by
  have hok : Ok (trueRanges h l c) := by
    refine ok_mapM_iff.mpr fun j hj ↦ ?_
    rw [List.mem_range] at hj
    exact ok_bind_iff.mpr ⟨_, nth_eq (by omega), ok_bind_iff.mpr ⟨_, nth_eq (by omega),
      ok_bind_iff.mpr ⟨_, nth_eq (by omega), ok_ok _⟩⟩⟩
  obtain ⟨ranges, hranges⟩ := hok
  exact ⟨ranges, hranges, (length_of_mapM hranges).trans List.length_range⟩

theorem ok_ATR_iff : Ok (ATR h l c period) ↔
      h.length = l.length ∧ l.length = c.length ∧ period + 1 ≤ h.length ∧ WholePeriod period := by
  rw [ATR, ok_if_error, not_or, not_or, not_ne_iff, not_ne_iff, not_lt, and_assoc, and_assoc]
  refine and_congr_right fun hl ↦ and_congr_right fun hc ↦ and_congr_right fun hle ↦ ?_
  obtain ⟨ranges, hranges, hlength⟩ := trueRanges_ok hl hc
  have hle' : period ≤ (ranges.length : K) := hlength ▸ le_pred_of_add_one_le hle
  rw [ok_bind_of_eq hranges]
  constructor
  · intro hok
    obtain ⟨atr, hatr, hok⟩ := ok_bind_iff.mp hok
    refine wholePeriod_of_elem (v := ranges) (div_eq_ok_iff.mp hatr).1 hle' fun hlt ↦ ?_
    by_contra hread
    refine not_ok_loop hlt (fun hbody ↦ hread ?_) hok
    obtain ⟨range, hrange, -⟩ := ok_bind_iff.mp hbody
    exact ⟨range, hrange⟩
  · rintro ⟨n, hpos, rfl⟩
    have hne : (n : K) ≠ 0 := Nat.cast_ne_zero.mpr hpos.ne'
    refine ok_bind_iff.mpr ⟨_, div_eq hne, ok_loop ⟨n, hpos, rfl⟩ fun atr i hi ↦ ?_⟩
    rw [elem_natCast]
    exact ok_bind_iff.mpr ⟨_, nth_eq hi, ok_div_iff.mpr hne⟩

theorem ok_RVOL_iff : Ok (RVOL v period) ↔
      period + 1 ≤ v.length ∧ v ≠ [] ∧ period ≠ 0 ∧ total (slice v (-period - 1) (-1)) ≠ 0 := by
  rw [RVOL, ok_if_error, not_lt]
  refine and_congr_right fun hle ↦ ⟨fun h ↦ ?_, ?_⟩
  · obtain ⟨latest, hlatest, h⟩ := ok_bind_iff.mp h
    obtain ⟨avg, havg, h⟩ := ok_bind_iff.mp h
    obtain ⟨hne, rfl⟩ := div_eq_ok_iff.mp havg
    refine ⟨?_, hne, fun hzero ↦ ?_⟩
    · rintro rfl
      exact absurd (ok_nth_iff.mp ⟨latest, hlatest⟩) (Nat.not_lt_zero _)
    · exact (ok_if_error.mp h).1 (by rw [hzero, zero_div])
  · rintro ⟨hv, hne, htotal⟩
    have hlast : v.length - 1 < v.length := Nat.sub_lt (List.length_pos_iff.mpr hv) Nat.one_pos
    have havg := div_ne_zero htotal hne
    exact ok_bind_iff.mpr ⟨_, nth_eq hlast, ok_bind_iff.mpr ⟨_, div_eq hne,
      ok_if_error.mpr ⟨havg, ok_div_iff.mpr havg⟩⟩⟩

theorem ok_OBV_iff : Ok (OBV c vol) ↔ c.length = vol.length ∧ 2 ≤ c.length := by
  rw [OBV, ok_if_error, not_or, not_ne_iff, not_lt]
  refine and_iff_left_of_imp fun ⟨hvol, _⟩ ↦ ok_foldlM fun obv j hj ↦ ?_
  rw [List.mem_range] at hj
  refine ok_bind_iff.mpr ⟨_, nth_eq (by omega), ok_bind_iff.mpr ⟨_, nth_eq (by omega), ?_⟩⟩
  refine ok_if.mpr ⟨fun _ ↦ ok_bind_iff.mpr ⟨_, nth_eq (by omega), ok_ok _⟩, fun _ ↦ ?_⟩
  exact ok_if.mpr ⟨fun _ ↦ ok_bind_iff.mpr ⟨_, nth_eq (by omega), ok_ok _⟩, fun _ ↦ ok_ok _⟩

/-! ### Money that flows -/

def typicalPrices (h l c : List K) : List K :=
  (List.range h.length).map fun i ↦ (h.getD i 0 + l.getD i 0 + c.getD i 0) / 3

/-- The money that flows in the last bars with a typical price above the one before. -/
def risingFlow (prices vol : List K) (period : Nat) : K :=
  total ((List.range period).map fun j ↦
    let i := prices.length - period + j
    if prices.getD (i - 1) 0 < prices.getD i 0 then prices.getD i 0 * vol.getD i 0 else 0)

/-- The money that flows in the last bars with a typical price below the one before. -/
def fallingFlow (prices vol : List K) (period : Nat) : K :=
  total ((List.range period).map fun j ↦
    let i := prices.length - period + j
    if prices.getD i 0 < prices.getD (i - 1) 0 then prices.getD i 0 * vol.getD i 0 else 0)

def FlowsCancel (h l c vol : List K) (period : Nat) : Prop :=
  fallingFlow (typicalPrices h l c) vol period ≠ 0 ∧
    risingFlow (typicalPrices h l c) vol period + fallingFlow (typicalPrices h l c) vol period = 0

theorem nth_eq_getD {i : Nat} (h : i < v.length) : nth v i = .ok (v.getD i 0) := by
  rw [nth_eq h, List.getD_eq_getElem v 0 h]

theorem typical_eq (hl : h.length = l.length) (hc : l.length = c.length) :
    typical h l c = .ok (typicalPrices h l c) := by
  refine mapM_eq_map fun i hi ↦ ?_
  rw [List.mem_range] at hi
  exact bind_eq_ok (nth_eq_getD hi) (bind_eq_ok (nth_eq_getD (by omega))
    (bind_eq_ok (nth_eq_getD (by omega)) rfl))

theorem length_typicalPrices : (typicalPrices h l c).length = h.length := by
  rw [typicalPrices, List.length_map, List.length_range]

theorem add_flow {before price rawFlow positiveFlow negativeFlow : K} :
    (if before < price then (.ok (positiveFlow + rawFlow, negativeFlow) : Except Fault (K × K))
      else if price < before then .ok (positiveFlow, negativeFlow + rawFlow)
      else .ok (positiveFlow, negativeFlow)) =
    .ok (positiveFlow + (if before < price then rawFlow else 0),
      negativeFlow + (if price < before then rawFlow else 0)) := by
  rcases lt_trichotomy before price with h | h | h
  · rw [if_pos h, if_pos h, if_neg h.le.not_gt, add_zero]
  · rw [if_neg h.not_lt, if_neg h.not_gt, if_neg h.not_lt, if_neg h.not_gt, add_zero, add_zero]
  · rw [if_neg h.le.not_gt, if_pos h, if_neg h.le.not_gt, if_pos h, add_zero]

theorem moneyFlow_eq {prices : List K} {n : Nat} (hvol : vol.length = prices.length)
    (hn : n + 1 ≤ prices.length) :
    moneyFlow prices vol n = .ok (risingFlow prices vol n, fallingFlow prices vol n) := by
  have hcount : ⌈(prices.length : K) - ((prices.length : K) - n)⌉.toNat = n := by
    rw [sub_sub_cancel, Int.ceil_natCast, Int.toNat_natCast]
  rw [moneyFlow, loop, hcount]
  refine (foldlM_eq_foldl (g := fun s j ↦
    let i := prices.length - n + j
    (s.1 + if prices.getD (i - 1) 0 < prices.getD i 0 then prices.getD i 0 * vol.getD i 0 else 0,
      s.2 + if prices.getD i 0 < prices.getD (i - 1) 0 then prices.getD i 0 * vol.getD i 0
        else 0)) fun s j hj ↦ ?_).trans (congrArg Except.ok (foldl_pair _ _ 0 0))
  rw [List.mem_range] at hj
  have hat : (prices.length : K) - n + j = (prices.length - n + j : Nat) := by
    rw [Nat.cast_add, Nat.cast_sub (by omega)]
  have hbefore : ((prices.length - n + j : Nat) : K) - 1 = (prices.length - n + j - 1 : Nat) := by
    rw [Nat.cast_sub (by omega : 1 ≤ prices.length - n + j), Nat.cast_one]
  rw [hat, hbefore, elem_natCast, elem_natCast, elem_natCast, nth_eq_getD (by omega),
    nth_eq_getD (by omega), nth_eq_getD (by omega)]
  exact add_flow

theorem ok_MFI_iff : Ok (MFI h l c vol period) ↔
      h.length = l.length ∧ l.length = c.length ∧ c.length = vol.length ∧ period + 1 ≤ h.length ∧
          (period ≤ 0 ∨ ∃ n : Nat, 0 < n ∧ period = n ∧ ¬ FlowsCancel h l c vol n) := by
  rw [MFI, ok_if_error, not_or, not_or, not_or, not_ne_iff, not_ne_iff, not_ne_iff, not_lt,
    and_assoc, and_assoc, and_assoc]
  refine and_congr_right fun hl ↦ and_congr_right fun hc ↦ and_congr_right fun hvol ↦
    and_congr_right fun hle ↦ ?_
  rw [ok_bind_of_eq (typical_eq hl hc)]
  have hlength : (typicalPrices h l c).length = h.length := length_typicalPrices
  constructor
  · intro hok
    rcases le_or_gt period 0 with hneg | hpos
    · exact .inl hneg
    obtain ⟨flows, hflows, hok⟩ := ok_bind_iff.mp hok
    have hlt : (((typicalPrices h l c).length : Nat) : K) - period <
        ((typicalPrices h l c).length : Nat) := sub_lt_self _ hpos
    have hread : Ok (elem (typicalPrices h l c) ((typicalPrices h l c).length - period)) := by
      by_contra hread
      refine not_ok_loop hlt (fun hbody ↦ hread ?_) ⟨flows, hflows⟩
      obtain ⟨price, hprice, -⟩ := ok_bind_iff.mp hbody
      exact ⟨price, hprice⟩
    obtain ⟨i, hi, hilt⟩ := ok_elem_iff.mp hread
    have hperiod : period = (h.length - i : Nat) := by
      rw [Nat.cast_sub (by omega), ← hlength]
      linarith
    rw [hperiod] at hflows hle hpos ⊢
    refine .inr ⟨h.length - i, Nat.cast_pos.mp hpos, rfl, ?_⟩
    rw [moneyFlow_eq (by omega) (by rw [hlength]; exact_mod_cast hle)] at hflows
    cases hflows
    rintro ⟨hfalling, hcancel⟩
    exact (ok_ratio_iff hfalling).mp ((ok_if.mp hok).2 hfalling) hcancel
  · rintro (hneg | ⟨n, hpos, rfl, hflows⟩)
    · have hflows : moneyFlow (typicalPrices h l c) vol period = .ok (0, 0) := by
        have hcount : ⌈((typicalPrices h l c).length : K) -
            (((typicalPrices h l c).length : K) - period)⌉.toNat = 0 := by
          rw [sub_sub_cancel, Int.toNat_eq_zero]
          exact Int.ceil_le.mpr (by rwa [Int.cast_zero])
        rw [moneyFlow, loop, hcount]
        rfl
      rw [ok_bind_of_eq hflows]
      exact ok_if.mpr ⟨fun _ ↦ ok_ok _, fun hne ↦ absurd rfl hne⟩
    · rw [ok_bind_of_eq (moneyFlow_eq (by omega) (by rw [hlength]; exact_mod_cast hle))]
      exact ok_if.mpr ⟨fun _ ↦ ok_ok _, fun hfalling ↦ (ok_ratio_iff hfalling).mpr
        fun hcancel ↦ hflows ⟨hfalling, hcancel⟩⟩

theorem map_getD_range : (List.range v.length).map (fun i ↦ v.getD i 0) = v := by
  refine List.ext_getElem (by rw [List.length_map, List.length_range]) fun i hi hi' ↦ ?_
  rw [List.getElem_map, List.getElem_range, List.getD_eq_getElem v 0 hi']

theorem ok_VWAP_iff : Ok (VWAP h l c vol) ↔
      h.length = l.length ∧ l.length = c.length ∧ c.length = vol.length ∧ 1 ≤ h.length ∧
        total vol ≠ 0 := by
  rw [VWAP, ok_if_error, not_or, not_or, not_or, not_ne_iff, not_ne_iff, not_ne_iff, not_lt,
    and_assoc, and_assoc, and_assoc]
  refine and_congr_right fun hl ↦ and_congr_right fun hc ↦ and_congr_right fun hvol ↦
    and_congr_right fun hle ↦ ?_
  rw [ok_bind_of_eq ((foldlM_eq_foldl (g := fun s i ↦
    (s.1 + (h.getD i 0 + l.getD i 0 + c.getD i 0) / 3 * vol.getD i 0, s.2 + vol.getD i 0))
    fun s i hi ↦ ?_).trans (congrArg Except.ok (foldl_pair _ _ 0 0)))]
  · have htotal : ((List.range h.length).map fun i ↦ vol.getD i 0).foldl HAdd.hAdd 0 =
        total vol := by
      rw [hl, hc, hvol, map_getD_range]
      rfl
    rw [htotal]
    exact ok_if_error.trans (and_iff_left_of_imp ok_div_iff.mpr)
  · rw [List.mem_range] at hi
    exact bind_eq_ok (nth_eq_getD hi) (bind_eq_ok (nth_eq_getD (by omega))
      (bind_eq_ok (nth_eq_getD (by omega)) (bind_eq_ok (nth_eq_getD (by omega)) rfl)))

end Columns

end OpenAlice.Analysis
