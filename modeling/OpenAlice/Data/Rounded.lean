import Mathlib.Algebra.Order.Field.Basic
import Mathlib.Algebra.Order.Floor.Ring
import Mathlib.Data.Int.Log
import Mathlib.Data.Rat.Floor
import Mathlib.Tactic.FieldSimp
import Mathlib.Tactic.Linarith
import Mathlib.Tactic.Positivity

/-!
# Rounded arithmetic

A rounding is a function that is off by at most a share of its argument.  It keeps signs and zeros,
and every result that is computed with it lies between bounds that the share gives.  What is exact is
a rounding by nothing, so a fact about every rounding holds of exact arithmetic, too.

`Rounding.significant` rounds to a number of significant digits, half away from zero.
-/

universe u

namespace OpenAlice.Data

/-- A function that rounds by at most a share `unit` of its argument. -/
structure Rounding (K : Type u) [Field K] [LinearOrder K] where
  round : K → K
  unit : K
  unit_nonneg : 0 ≤ unit
  unit_lt_one : unit < 1
  error : ∀ x, |round x - x| ≤ unit * |x|

namespace Rounding

variable {K : Type u} [Field K] [LinearOrder K] [IsStrictOrderedRing K]

def exact : Rounding K where
  round := id
  unit := 0
  unit_nonneg := le_rfl
  unit_lt_one := zero_lt_one
  error x := by rw [id, sub_self, abs_zero, zero_mul]

variable (R : Rounding K) {x y : K}

theorem one_sub_pos : 0 < 1 - R.unit := sub_pos.mpr R.unit_lt_one

theorem one_add_pos : 0 < 1 + R.unit := add_pos_of_pos_of_nonneg zero_lt_one R.unit_nonneg

theorem round_between (h : 0 ≤ x) : (1 - R.unit) * x ≤ R.round x ∧ R.round x ≤
    (1 + R.unit) * x := by
  have herror := R.error x
  rw [abs_of_nonneg h] at herror
  obtain ⟨hlo, hhi⟩ := abs_le.mp herror
  constructor <;> linarith

theorem round_nonneg (h : 0 ≤ x) : 0 ≤ R.round x :=
  le_trans (mul_nonneg R.one_sub_pos.le h) (R.round_between h).1

theorem round_pos (h : 0 < x) : 0 < R.round x :=
  lt_of_lt_of_le (mul_pos R.one_sub_pos h) (R.round_between h.le).1

theorem round_nonpos (h : x ≤ 0) : R.round x ≤ 0 := by
  have herror := R.error x
  rw [abs_of_nonpos h] at herror
  have hshare : R.unit * -x ≤ -x := mul_le_of_le_one_left (neg_nonneg.mpr h) R.unit_lt_one.le
  linarith [(abs_le.mp herror).2]

theorem round_eq_zero_iff : R.round x = 0 ↔ x = 0 := by
  constructor
  · intro h
    have herror := R.error x
    rw [h, zero_sub, abs_neg] at herror
    by_contra hne
    have hlt : R.unit * |x| < |x| := mul_lt_of_lt_one_left (abs_pos.mpr hne) R.unit_lt_one
    exact absurd herror (not_le.mpr hlt)
  · rintro rfl
    have herror := R.error 0
    rw [abs_zero, mul_zero, sub_zero] at herror
    exact abs_nonpos_iff.mp herror

/-! ## Weighted averages -/

/-- How far a rounded average may fall below what is averaged. -/
def shrink : K := (1 - R.unit) * (1 - R.unit) * (1 - R.unit) / (1 + R.unit)

/-- How far it may rise above. -/
def grow : K := (1 + R.unit) * (1 + R.unit) * (1 + R.unit) / (1 - R.unit)

theorem shrink_nonneg : 0 ≤ R.shrink := by
  have hsub := R.one_sub_pos
  have hadd := R.one_add_pos
  rw [shrink]
  positivity

theorem shrink_le_one : R.shrink ≤ 1 := by
  have hle : 1 - R.unit ≤ 1 := sub_le_self 1 R.unit_nonneg
  have hsub := R.one_sub_pos.le
  rw [shrink, div_le_one R.one_add_pos]
  calc (1 - R.unit) * (1 - R.unit) * (1 - R.unit) ≤ 1 * 1 * 1 := by gcongr
    _ ≤ 1 + R.unit := by linarith [R.unit_nonneg]

theorem one_le_grow : 1 ≤ R.grow := by
  have hle : 1 ≤ 1 + R.unit := le_add_of_nonneg_right R.unit_nonneg
  rw [grow, one_le_div R.one_sub_pos]
  calc 1 - R.unit ≤ 1 * 1 * 1 := by linarith [R.unit_nonneg]
    _ ≤ (1 + R.unit) * (1 + R.unit) * (1 + R.unit) := by gcongr

/-- The average of two weighted numbers, every operation rounded. -/
def mean (avg weight price added : K) : K :=
  R.round (R.round (R.round (avg * weight) + R.round (price * added)) / R.round (weight + added))

section Mean

variable {avg weight price added lo hi : K}

theorem mean_nonneg (havg : 0 ≤ avg) (hweight : 0 ≤ weight) (hprice : 0 ≤ price)
    (hadded : 0 < added) : 0 ≤ R.mean avg weight price added := by
  refine R.round_nonneg (div_nonneg (R.round_nonneg (add_nonneg ?_ ?_)) ?_)
  · exact R.round_nonneg (mul_nonneg havg hweight)
  · exact R.round_nonneg (mul_nonneg hprice hadded.le)
  · exact R.round_nonneg (add_nonneg hweight hadded.le)

theorem mean_eq_zero_iff (havg : 0 ≤ avg) (hweight : 0 ≤ weight) (hprice : 0 ≤ price)
    (hadded : 0 < added) : R.mean avg weight price added = 0 ↔ avg * weight = 0 ∧ price = 0 := by
  have hdivisor : R.round (weight + added) ≠ 0 :=
    (R.round_pos (add_pos_of_nonneg_of_pos hweight hadded)).ne'
  rw [mean, R.round_eq_zero_iff, div_eq_zero_iff, or_iff_left hdivisor, R.round_eq_zero_iff,
    add_eq_zero_iff_of_nonneg (R.round_nonneg (mul_nonneg havg hweight))
      (R.round_nonneg (mul_nonneg hprice hadded.le)),
    R.round_eq_zero_iff, R.round_eq_zero_iff, mul_eq_zero (a := price), or_iff_left hadded.ne']

/-- **A rounded average** lies between what is averaged, up to its rounding. -/
theorem mean_between (hweight : 0 ≤ weight) (hadded : 0 < added) (h₀ : 0 ≤ lo)
    (havg : lo * weight ≤ avg * weight ∧ avg * weight ≤ hi * weight)
    (hprice : lo ≤ price ∧ price ≤ hi) :
    lo * R.shrink ≤ R.mean avg weight price added ∧
      R.mean avg weight price added ≤ hi * R.grow := by
  have htotal : 0 < weight + added := add_pos_of_nonneg_of_pos hweight hadded
  have hsub := R.one_sub_pos
  have hadd := R.one_add_pos
  have hfirst : 0 ≤ avg * weight := le_trans (mul_nonneg h₀ hweight) havg.1
  have hsecond : 0 ≤ price * added := mul_nonneg (h₀.trans hprice.1) hadded.le
  obtain ⟨hfirstLo, hfirstHi⟩ := R.round_between hfirst
  obtain ⟨hsecondLo, hsecondHi⟩ := R.round_between hsecond
  have haddedLo : lo * added ≤ price * added := mul_le_mul_of_nonneg_right hprice.1 hadded.le
  have haddedHi : price * added ≤ hi * added := mul_le_mul_of_nonneg_right hprice.2 hadded.le
  obtain ⟨hsumLo, hsumHi⟩ :=
    R.round_between (add_nonneg (R.round_nonneg hfirst) (R.round_nonneg hsecond))
  obtain ⟨htotalLo, htotalHi⟩ := R.round_between htotal.le
  have hdivisor : 0 < R.round (weight + added) := R.round_pos htotal
  have hshare : 0 ≤ lo * ((1 - R.unit) * (1 - R.unit)) := by positivity
  have hhi : 0 ≤ hi := h₀.trans (hprice.1.trans hprice.2)
  rw [mean]
  generalize R.round (R.round (avg * weight) + R.round (price * added)) = sum at hsumLo hsumHi ⊢
  generalize R.round (weight + added) = divisor at htotalLo htotalHi hdivisor ⊢
  have hlow : lo * ((1 - R.unit) * (1 - R.unit)) * (weight + added) ≤ sum := calc
    lo * ((1 - R.unit) * (1 - R.unit)) * (weight + added) =
        (1 - R.unit) * ((1 - R.unit) * (lo * weight) + (1 - R.unit) * (lo * added)) := by ring
    _ ≤ (1 - R.unit) * ((1 - R.unit) * (avg * weight) + (1 - R.unit) * (price * added)) := by
        exact mul_le_mul_of_nonneg_left (add_le_add (mul_le_mul_of_nonneg_left havg.1 hsub.le)
          (mul_le_mul_of_nonneg_left haddedLo hsub.le)) hsub.le
    _ ≤ (1 - R.unit) * (R.round (avg * weight) + R.round (price * added)) := by gcongr
    _ ≤ sum := hsumLo
  have hhigh : sum ≤ hi * ((1 + R.unit) * (1 + R.unit)) * (weight + added) := calc
    sum ≤ (1 + R.unit) * (R.round (avg * weight) + R.round (price * added)) := hsumHi
    _ ≤ (1 + R.unit) * ((1 + R.unit) * (avg * weight) + (1 + R.unit) * (price * added)) := by
        gcongr
    _ ≤ (1 + R.unit) * ((1 + R.unit) * (hi * weight) + (1 + R.unit) * (hi * added)) := by
        exact mul_le_mul_of_nonneg_left (add_le_add (mul_le_mul_of_nonneg_left havg.2 hadd.le)
          (mul_le_mul_of_nonneg_left haddedHi hadd.le)) hadd.le
    _ = hi * ((1 + R.unit) * (1 + R.unit)) * (weight + added) := by ring
  have hquotientLo : lo * ((1 - R.unit) * (1 - R.unit)) / (1 + R.unit) ≤ sum / divisor := by
    rw [div_le_div_iff₀ hadd hdivisor]
    calc lo * ((1 - R.unit) * (1 - R.unit)) * divisor ≤
          lo * ((1 - R.unit) * (1 - R.unit)) * ((1 + R.unit) * (weight + added)) := by gcongr
      _ = lo * ((1 - R.unit) * (1 - R.unit)) * (weight + added) * (1 + R.unit) := by ring
      _ ≤ sum * (1 + R.unit) := by gcongr
  have hquotientHi : sum / divisor ≤ hi * ((1 + R.unit) * (1 + R.unit)) / (1 - R.unit) := by
    rw [div_le_div_iff₀ hdivisor hsub]
    calc sum * (1 - R.unit) ≤
          hi * ((1 + R.unit) * (1 + R.unit)) * (weight + added) * (1 - R.unit) := by gcongr
      _ = hi * ((1 + R.unit) * (1 + R.unit)) * ((1 - R.unit) * (weight + added)) := by ring
      _ ≤ hi * ((1 + R.unit) * (1 + R.unit)) * divisor := by gcongr
  have hquotient : 0 ≤ sum / divisor := (div_nonneg hshare hadd.le).trans hquotientLo
  obtain ⟨hroundLo, hroundHi⟩ := R.round_between hquotient
  constructor
  · calc lo * R.shrink = (1 - R.unit) * (lo * ((1 - R.unit) * (1 - R.unit)) / (1 + R.unit)) := by
            rw [shrink]
            ring
      _ ≤ (1 - R.unit) * (sum / divisor) := by gcongr
      _ ≤ R.round (sum / divisor) := hroundLo
  · calc R.round (sum / divisor) ≤ (1 + R.unit) * (sum / divisor) := hroundHi
      _ ≤ (1 + R.unit) * (hi * ((1 + R.unit) * (1 + R.unit)) / (1 - R.unit)) := by gcongr
      _ = hi * R.grow := by
            rw [grow]
            ring

end Mean

end Rounding

/-! ## Significant digits -/

def powerOfTen : ℤ → ℚ
  | .ofNat n => (Nat.pow 10 n : ℕ)
  | .negSucc n => 1 / (Nat.pow 10 (n + 1) : ℕ)

def roundHalfUp (x : ℚ) : ℤ := if 0 ≤ x then ⌊x + 1 / 2⌋ else -⌊-x + 1 / 2⌋

/-- A number with no more significant digits than given. -/
def toSignificant (digits : ℕ) (x : ℚ) : ℚ :=
  let last := powerOfTen (Int.log 10 |x| + 1 - digits)
  roundHalfUp (x / last) * last

theorem powerOfTen_pos (e : ℤ) : 0 < powerOfTen e := by
  cases e with
  | ofNat n => exact Nat.cast_pos.mpr (Nat.pow_pos (by decide))
  | negSucc n => exact one_div_pos.mpr (Nat.cast_pos.mpr (Nat.pow_pos (by decide)))

theorem roundHalfUp_error (x : ℚ) : |(roundHalfUp x : ℚ) - x| ≤ 1 / 2 := by
  have hfloor : ∀ y : ℚ, |(⌊y + 1 / 2⌋ : ℚ) - y| ≤ 1 / 2 := by
    intro y
    have hle := Int.floor_le (y + 1 / 2)
    have hlt := Int.lt_floor_add_one (y + 1 / 2)
    rw [abs_le]
    constructor <;> linarith
  rw [roundHalfUp]
  split_ifs
  · exact hfloor x
  have heq : ((-⌊-x + 1 / 2⌋ : ℤ) : ℚ) - x = -(⌊-x + 1 / 2⌋ - -x) := by
    push_cast
    ring
  rw [heq, abs_neg]
  exact hfloor (-x)

theorem powerOfTen_eq (e : ℤ) : powerOfTen e = (10 : ℚ) ^ e := by
  cases e with
  | ofNat n =>
    rw [powerOfTen, Int.ofNat_eq_natCast, zpow_natCast]
    exact Nat.cast_pow 10 n
  | negSucc n =>
    rw [powerOfTen, zpow_negSucc, ← one_div]
    congr 1
    exact Nat.cast_pow 10 (n + 1)

theorem powerOfTen_add (a b : ℤ) : powerOfTen (a + b) = powerOfTen a * powerOfTen b := by
  rw [powerOfTen_eq, powerOfTen_eq, powerOfTen_eq]
  exact zpow_add₀ (by norm_num) a b

theorem powerOfTen_le_one {e : ℤ} (h : e ≤ 0) : powerOfTen e ≤ 1 := by
  rw [powerOfTen_eq]
  exact zpow_le_one_of_nonpos₀ (by norm_num) h

/-- **Significant digits** are off by at most half a unit of the last. -/
theorem toSignificant_error (digits : ℕ) (x : ℚ) :
    |toSignificant digits x - x| ≤ powerOfTen (1 - digits) / 2 * |x| := by
  have hlast := powerOfTen_pos (Int.log 10 |x| + 1 - digits)
  have herror : |toSignificant digits x - x| ≤ powerOfTen (Int.log 10 |x| + 1 - digits) / 2 := by
    rw [toSignificant]
    generalize powerOfTen (Int.log 10 |x| + 1 - digits) = last at hlast ⊢
    have heq : (roundHalfUp (x / last) : ℚ) * last - x = (roundHalfUp (x / last) - x / last) * last := by
      rw [sub_mul, div_mul_cancel₀ x hlast.ne']
    rw [heq, abs_mul, abs_of_pos hlast]
    calc |(roundHalfUp (x / last) : ℚ) - x / last| * last ≤ 1 / 2 * last := by
          gcongr
          exact roundHalfUp_error _
      _ = last / 2 := by ring
  rcases eq_or_ne x 0 with rfl | hne
  · have hround : roundHalfUp 0 = 0 := by decide +kernel
    have hzero : toSignificant digits 0 = 0 := by
      rw [toSignificant, zero_div, hround, Int.cast_zero, zero_mul]
    rw [hzero, sub_zero, abs_zero, mul_zero]
  have hpos : 0 < |x| := abs_pos.mpr hne
  have hlog : powerOfTen (Int.log 10 |x|) ≤ |x| := by
    rw [powerOfTen_eq]
    exact Int.zpow_log_le_self (by decide) hpos
  have hunit := powerOfTen_pos (1 - digits)
  refine herror.trans ?_
  rw [add_sub_assoc, powerOfTen_add]
  calc powerOfTen (Int.log 10 |x|) * powerOfTen (1 - digits) / 2 ≤
        |x| * powerOfTen (1 - digits) / 2 := by gcongr
    _ = powerOfTen (1 - digits) / 2 * |x| := by ring

def Rounding.significant (digits : ℕ) (h : 1 ≤ digits) : Rounding ℚ where
  round := toSignificant digits
  unit := powerOfTen (1 - digits) / 2
  unit_nonneg := (half_pos (powerOfTen_pos _)).le
  unit_lt_one := by
    have hle : powerOfTen (1 - digits) ≤ 1 := powerOfTen_le_one (by omega)
    linarith
  error := toSignificant_error digits

example : toSignificant 3 (2 / 3) = 667 / 1000 := by decide +kernel

end OpenAlice.Data
