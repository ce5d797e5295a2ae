import OpenAlice.Analysis.Defined
import OpenAlice.Data.Averages
import Mathlib.Analysis.Real.Sqrt
import Mathlib.Algebra.Order.Archimedean.Real.Basic

/-!
# The laws of the indicators

What an indicator computes for a series that is long enough and a period that counts bars.  Every
function is first brought to one fold: over the elements after the first `period` ones, from the
average of those (`EMA_eq`, `RSI_eq`, `ATR_eq`), or over the last elements (`SMA_eq`).  The bounds
and the affine laws are then facts about one step of the fold.

The square root is a parameter.  That it is one is used for the correlation alone.
-/

namespace OpenAlice.Analysis

open Data

set_option linter.unusedSectionVars false

scoped instance atLeastTwo_hundred : Nat.AtLeastTwo 100 := ⟨by decide⟩

variable {K : Type} [Field K] [LinearOrder K] [IsStrictOrderedRing K]
variable {v w : List K} {n : Nat} {x y lo hi : K}

/-! ## Between the smallest and the largest -/

/-- The number lies between the smallest and the largest of some. -/
def Within (v : List K) (y : K) : Prop :=
  ∃ lo hi, smallest v = .ok lo ∧ largest v = .ok hi ∧ lo ≤ y ∧ y ≤ hi

theorem within_of_bounds (hne : v ≠ [])
    (h : ∀ lo hi, (∀ x ∈ v, lo ≤ x ∧ x ≤ hi) → lo ≤ y ∧ y ≤ hi) : Within v y := by
  obtain ⟨x, v, rfl⟩ := List.exists_cons_of_ne_nil hne
  refine ⟨v.foldl min x, v.foldl max x, rfl, rfl, h _ _ fun z hz ↦ ⟨?_, ?_⟩⟩
  · exact foldl_choice (r := (· ≤ ·)) le_refl (fun _ _ _ ↦ le_trans) min_le_left min_le_right
      v x z hz
  · exact foldl_choice (r := (· ≥ ·)) le_refl (fun _ _ _ h h' ↦ le_trans h' h) le_max_left
      le_max_right v x z hz

theorem total_between (h : ∀ x ∈ v, lo ≤ x ∧ x ≤ hi) :
    lo * v.length ≤ total v ∧ total v ≤ hi * v.length :=
  foldl_add_between h

theorem average_between (hpos : 0 < n) (hlength : v.length = n) (h : ∀ x ∈ v, lo ≤ x ∧ x ≤ hi) :
    lo ≤ total v / n ∧ total v / n ≤ hi := by
  have hn : (0 : K) < n := Nat.cast_pos.mpr hpos
  have hbounds := total_between h
  rw [hlength] at hbounds
  exact ⟨(le_div_iff₀ hn).mpr hbounds.1, (div_le_iff₀ hn).mpr hbounds.2⟩

theorem within_average (hpos : 0 < n) (hlength : v.length = n) : Within v (total v / n) :=
  within_of_bounds (List.length_pos_iff.mp (hlength ▸ hpos)) fun _ _ h ↦
    average_between hpos hlength h

/-! ## Loops over the rest of a series -/

/-- The average of the first elements, from which a smoothed average starts. -/
def seed (v : List K) (n : Nat) : K := total (v.take n) / n

theorem seed_between (hpos : 0 < n) (hle : n ≤ v.length) (h : ∀ x ∈ v, lo ≤ x ∧ x ≤ hi) :
    lo ≤ seed v n ∧ seed v n ≤ hi :=
  average_between hpos (List.length_take_of_le hle) fun x hx ↦ h x (List.mem_of_mem_take hx)

variable [FloorRing K]

def recent (v : List K) (n : Nat) : List K := v.drop (v.length - n)

theorem length_recent (hle : n ≤ v.length) : (recent v n).length = n := by
  rw [recent, List.length_drop]
  omega

theorem sliceFrom_natCast (hpos : 0 < n) : sliceFrom v (-(n : K)) = recent v n := by
  have hneg : ¬ (0 : K) ≤ -(n : K) := by
    rw [not_le]
    exact neg_lt_zero.mpr (Nat.cast_pos.mpr hpos)
  have htruncate : truncate (-(n : K)) = -(n : Int) := by
    rw [truncate, if_neg hneg, Int.ceil_neg, Int.floor_natCast]
  rw [sliceFrom, bound, htruncate, if_pos (by omega), recent]
  congr 1
  omega

theorem loop_eq_foldl {α β : Type} {l : List α} {body : β → K → Except Fault β} {g : β → α → β}
    {b : β} (hbody : ∀ b i, (h : i < l.length) → body b (i : K) = .ok (g b (l[i]))) :
    loop (n : K) l.length body b = .ok ((l.drop n).foldl g b) := by
  have hcount : ⌈(l.length : K) - n⌉.toNat = l.length - n := by
    rw [← Int.cast_natCast, ← Int.cast_natCast (n := n), ← Int.cast_sub, Int.ceil_intCast]
    omega
  rw [loop, hcount]
  have hsteps (m : Nat) (hm : m ≤ l.length - n) :
      (List.range m).foldlM (fun b (j : Nat) ↦ body b ((n : K) + j)) b =
        .ok (((l.drop n).take m).foldl g b) := by
    induction m with
    | zero => rfl
    | succ m ih =>
      have hlt : n + m < l.length := by omega
      have hnext : (l.drop n).take (m + 1) = (l.drop n).take m ++ [l[n + m]] := by
        rw [List.take_add_one, List.getElem?_drop, List.getElem?_eq_getElem hlt]
        rfl
      rw [List.range_succ, List.foldlM_append, hnext, List.foldl_append]
      refine bind_eq_ok (ih (by omega)) ?_
      rw [List.foldlM_cons, ← Nat.cast_add, hbody _ _ hlt]
      rfl
  rw [hsteps _ le_rfl, List.take_of_length_le (by rw [List.length_drop])]

/-! ## Averages -/

theorem SMA_eq (hpos : 0 < n) (hle : n ≤ v.length) : SMA v n = .ok (total (recent v n) / n) := by
  rw [SMA, if_neg (not_lt.mpr (Nat.cast_le.mpr hle)), sliceFrom_natCast hpos,
    div_eq (Nat.cast_ne_zero.mpr hpos.ne')]

def multiplier (n : Nat) : K := 2 / ((n : K) + 1)

theorem multiplier_bounds (hpos : 0 < n) : (0 : K) ≤ multiplier n ∧ (multiplier n : K) ≤ 1 := by
  have hn : (1 : K) ≤ n := Nat.one_le_cast.mpr hpos
  have hsum : (0 : K) < (n : K) + 1 := by linarith
  exact ⟨div_nonneg (by norm_num) hsum.le, (div_le_one hsum).mpr (by linarith)⟩

theorem EMA_eq (hpos : 0 < n) (hle : n ≤ v.length) :
    EMA v n = .ok ((v.drop n).foldl (smooth (multiplier n)) (seed v n)) := by
  rw [EMA, if_neg (not_lt.mpr (Nat.cast_le.mpr hle))]
  refine bind_eq_ok (div_eq (Nat.cast_add_one_ne_zero n)) ?_
  refine bind_eq_ok (div_eq (Nat.cast_ne_zero.mpr hpos.ne')) ?_
  rw [sliceTo_natCast]
  refine loop_eq_foldl fun ema i hi ↦ ?_
  exact bind_eq_ok ((elem_natCast i).trans (nth_eq hi)) rfl

theorem BBANDS_eq (sqrt : K → K) (spread : K) (hpos : 0 < n) (hle : n ≤ v.length) :
    ∃ deviation, BBANDS sqrt v n spread =
      .ok (total (recent v n) / n + deviation, total (recent v n) / n,
        total (recent v n) / n - deviation) := by
  have hne : (n : K) ≠ 0 := Nat.cast_ne_zero.mpr hpos.ne'
  have hvariance : 0 ≤ squares (total (recent v n) / n) (recent v n) / n :=
    div_nonneg (squares_nonneg _ _) (Nat.cast_nonneg n)
  refine ⟨sqrt (squares (total (recent v n) / n) (recent v n) / n) * spread, ?_⟩
  rw [BBANDS, if_neg (not_lt.mpr (Nat.cast_le.mpr hle)), sliceFrom_natCast hpos]
  refine bind_eq_ok (div_eq hne) (bind_eq_ok (div_eq hne) ?_)
  exact bind_eq_ok (if_neg (not_lt.mpr hvariance)) rfl

theorem EMA_within (hpos : 0 < n) (hle : n ≤ v.length) :
    ∃ ema, EMA v n = .ok ema ∧ Within v ema := by
  refine ⟨_, EMA_eq hpos hle, within_of_bounds ?_ fun lo hi h ↦ ?_⟩
  · exact List.length_pos_iff.mp (lt_of_lt_of_le hpos hle)
  refine foldl_keeps (fun ema ↦ lo ≤ ema ∧ ema ≤ hi) (seed_between hpos hle h) ?_
  intro ema hema x hx
  obtain ⟨h₀, h₁⟩ := multiplier_bounds (K := K) hpos
  exact smooth_between h₀ h₁ hema (h x (List.mem_of_mem_drop hx))

/-! ## Wilder's averages -/

def wilder (n : Nat) (avg x : K) : K := (avg * ((n : K) - 1) + x) / n

def smoothed (n : Nat) (w : List K) : K := (w.drop n).foldl (wilder n) (seed w n)

theorem smoothed_series_nonneg (hpos : 0 < n) (h : ∀ x ∈ w, 0 ≤ x) : 0 ≤ smoothed n w := by
  have hseed : 0 ≤ seed w n :=
    div_nonneg (total_nonneg fun x hx ↦ h x (List.mem_of_mem_take hx)) (Nat.cast_nonneg n)
  refine foldl_keeps (0 ≤ ·) hseed fun avg havg x hx ↦ ?_
  exact smoothed_nonneg hpos havg (h x (List.mem_of_mem_drop hx))

def gain (c : K) : K := if 0 < c then c else 0

def loss (c : K) : K := if c < 0 then -c else 0

theorem gain_nonneg (c : K) : 0 ≤ gain c := by
  rw [gain]
  split_ifs with hc
  · exact hc.le
  · exact le_rfl

theorem loss_nonneg (c : K) : 0 ≤ loss c := by
  rw [loss]
  split_ifs with hc
  · exact neg_nonneg.mpr hc.le
  · exact le_rfl

/-- What `RSI` and `MFI` make of the gains and the losses. -/
def strength (up down : K) : K := if down = 0 then 100 else 100 - 100 / (1 + up / down)

theorem strength_eq {up down : K} (hup : 0 ≤ up) (hdown : 0 ≤ down) : (if down = 0 then return 100
      else do
        let ratio ← div up down
        return 100 - (← div 100 (1 + ratio)) : Except Fault K) = .ok (strength up down) := by
  rw [strength]
  split_ifs with h
  · rfl
  · have hsum : 1 + up / down ≠ 0 := (add_pos_of_pos_of_nonneg one_pos (div_nonneg hup hdown)).ne'
    exact bind_eq_ok (div_eq h) (bind_eq_ok (div_eq hsum) rfl)

theorem strength_bounds {up down : K} (hup : 0 ≤ up) (hdown : 0 ≤ down) :
    0 ≤ strength up down ∧ strength up down ≤ 100 := by
  rw [strength]
  split_ifs with h
  · exact ⟨by norm_num, le_rfl⟩
  have hsum : (1 : K) ≤ 1 + up / down := le_add_of_nonneg_right (div_nonneg hup hdown)
  have hpos : (0 : K) < 1 + up / down := lt_of_lt_of_le one_pos hsum
  refine ⟨sub_nonneg.mpr ?_, sub_le_self _ (div_nonneg (by norm_num) hpos.le)⟩
  exact div_le_self (by norm_num) hsum

theorem RSI_eq (hpos : 0 < n) (hle : n + 1 ≤ v.length) :
    RSI v n = .ok (strength (smoothed n ((changesOf v).map gain))
      (smoothed n ((changesOf v).map loss))) := by
  have hne : (n : K) ≠ 0 := Nat.cast_ne_zero.mpr hpos.ne'
  rw [RSI, if_neg (not_lt.mpr (by exact_mod_cast hle))]
  refine bind_eq_ok (div_eq hne) (bind_eq_ok (div_eq hne) ?_)
  have hloop : loop (n : K) ((changesOf v).map fun c ↦ if 0 < c then c else 0).length
      (fun (s : K × K) i ↦ do
        let avgGain ← div (s.1 * ((n : K) - 1) +
          (← elem ((changesOf v).map fun c ↦ if 0 < c then c else 0) i)) n
        let avgLoss ← div (s.2 * ((n : K) - 1) +
          (← elem ((changesOf v).map fun c ↦ if c < 0 then -c else 0) i)) n
        return (avgGain, avgLoss))
      (seed ((changesOf v).map gain) n, seed ((changesOf v).map loss) n) =
      .ok (smoothed n ((changesOf v).map gain), smoothed n ((changesOf v).map loss)) := by
    rw [List.length_map, loop_eq_foldl (l := changesOf v)
      (g := fun s c ↦ (wilder n s.1 (gain c), wilder n s.2 (loss c)))]
    · rw [foldl_pair, List.map_drop, List.map_drop]
      rfl
    intro s i hi
    have hgain : elem ((changesOf v).map fun c ↦ if 0 < c then c else 0) (i : K) =
        .ok (gain (changesOf v)[i]) := by
      rw [elem_natCast, nth_eq (by rwa [List.length_map]), List.getElem_map]
      rfl
    have hloss : elem ((changesOf v).map fun c ↦ if c < 0 then -c else 0) (i : K) =
        .ok (loss (changesOf v)[i]) := by
      rw [elem_natCast, nth_eq (by rwa [List.length_map]), List.getElem_map]
      rfl
    exact bind_eq_ok hgain (bind_eq_ok (div_eq hne) (bind_eq_ok hloss
      (bind_eq_ok (div_eq hne) rfl)))
  rw [sliceTo_natCast, sliceTo_natCast]
  refine bind_eq_ok hloop (strength_eq ?_ ?_)
  · exact smoothed_series_nonneg hpos (List.forall_mem_map.mpr fun c _ ↦ gain_nonneg c)
  · exact smoothed_series_nonneg hpos (List.forall_mem_map.mpr fun c _ ↦ loss_nonneg c)

/-! ## Columns -/

section Columns

variable {h l c vol : List K}

theorem ATR_nonneg (hl : h.length = l.length) (hc : l.length = c.length) (hpos : 0 < n)
    (hle : n + 1 ≤ h.length) : ∃ atr, ATR h l c n = .ok atr ∧ 0 ≤ atr := by
  have hne : (n : K) ≠ 0 := Nat.cast_ne_zero.mpr hpos.ne'
  have hranges : trueRanges h l c = .ok ((List.range (h.length - 1)).map fun j ↦
      max (h.getD (j + 1) 0 - l.getD (j + 1) 0)
        (max |h.getD (j + 1) 0 - c.getD j 0| |l.getD (j + 1) 0 - c.getD j 0|)) := by
    refine mapM_eq_map fun j hj ↦ ?_
    rw [List.mem_range] at hj
    exact bind_eq_ok (nth_eq_getD (by omega)) (bind_eq_ok (nth_eq_getD (by omega))
      (bind_eq_ok (nth_eq_getD (by omega)) rfl))
  generalize hmap : (List.range (h.length - 1)).map (fun j ↦
      max (h.getD (j + 1) 0 - l.getD (j + 1) 0)
        (max |h.getD (j + 1) 0 - c.getD j 0| |l.getD (j + 1) 0 - c.getD j 0|)) = ranges at hranges
  have hnonneg : ∀ x ∈ ranges, 0 ≤ x := by
    rw [← hmap]
    exact List.forall_mem_map.mpr fun j _ ↦ le_max_of_le_right (le_max_of_le_left (abs_nonneg _))
  refine ⟨smoothed n ranges, ?_, smoothed_series_nonneg hpos hnonneg⟩
  rw [ATR, if_neg (by
    rw [not_or, not_or, not_ne_iff, not_ne_iff, not_lt]
    exact ⟨hl, hc, by exact_mod_cast hle⟩)]
  refine bind_eq_ok hranges (bind_eq_ok (div_eq hne) ?_)
  rw [sliceTo_natCast]
  refine loop_eq_foldl (g := wilder n) fun atr i hi ↦ ?_
  exact bind_eq_ok ((elem_natCast i).trans (nth_eq hi)) (div_eq hne)

theorem getD_nonneg (h : ∀ x ∈ v, 0 ≤ x) (i : Nat) : 0 ≤ v.getD i 0 := by
  rw [List.getD_eq_getElem?_getD]
  cases hi : v[i]? with
  | none => exact le_rfl
  | some x => exact h x (List.mem_of_getElem? hi)

theorem flow_nonneg {prices : List K} (hprices : ∀ x ∈ prices, 0 ≤ x) (hvol : ∀ x ∈ vol, 0 ≤ x) :
    0 ≤ risingFlow prices vol n ∧ 0 ≤ fallingFlow prices vol n := by
  have hmoney (i : Nat) : 0 ≤ prices.getD i 0 * vol.getD i 0 :=
    mul_nonneg (getD_nonneg hprices i) (getD_nonneg hvol i)
  constructor
  · refine total_nonneg (List.forall_mem_map.mpr fun j _ ↦ ?_)
    dsimp only
    split_ifs
    · exact hmoney _
    · exact le_rfl
  · refine total_nonneg (List.forall_mem_map.mpr fun j _ ↦ ?_)
    dsimp only
    split_ifs
    · exact hmoney _
    · exact le_rfl

theorem typicalPrices_nonneg (hh : ∀ x ∈ h, 0 ≤ x) (hl : ∀ x ∈ l, 0 ≤ x) (hc : ∀ x ∈ c, 0 ≤ x) :
    ∀ x ∈ typicalPrices h l c, 0 ≤ x :=
  List.forall_mem_map.mpr fun i _ ↦ div_nonneg
    (add_nonneg (add_nonneg (getD_nonneg hh i) (getD_nonneg hl i)) (getD_nonneg hc i))
    (by norm_num)

theorem MFI_bounds (hl : h.length = l.length) (hc : l.length = c.length)
    (hvol : c.length = vol.length) (hle : n + 1 ≤ h.length) (hh₀ : ∀ x ∈ h, 0 ≤ x)
    (hl₀ : ∀ x ∈ l, 0 ≤ x) (hc₀ : ∀ x ∈ c, 0 ≤ x) (hvol₀ : ∀ x ∈ vol, 0 ≤ x) :
    ∃ mfi, MFI h l c vol n = .ok mfi ∧ 0 ≤ mfi ∧ mfi ≤ 100 := by
  have hlength : (typicalPrices h l c).length = h.length := length_typicalPrices
  obtain ⟨hrising, hfalling⟩ := flow_nonneg (n := n) (typicalPrices_nonneg hh₀ hl₀ hc₀) hvol₀
  refine ⟨_, ?_, strength_bounds hrising hfalling⟩
  rw [MFI, if_neg (by
    rw [not_or, not_or, not_or, not_ne_iff, not_ne_iff, not_ne_iff, not_lt]
    exact ⟨hl, hc, hvol, by exact_mod_cast hle⟩)]
  refine bind_eq_ok (typical_eq hl hc) ?_
  exact bind_eq_ok (moneyFlow_eq (by omega) (by omega)) (strength_eq hrising hfalling)

theorem weighted_between {prices : List K} (hprices : ∀ x ∈ prices, lo ≤ x ∧ x ≤ hi)
    (hvol : ∀ x ∈ vol, 0 ≤ x) (m : Nat) (hm : m ≤ prices.length) (hmv : m ≤ vol.length) :
    lo * ((List.range m).map fun i ↦ vol.getD i 0).foldl (· + ·) 0 ≤
        ((List.range m).map fun i ↦ prices.getD i 0 * vol.getD i 0).foldl (· + ·) 0 ∧
      ((List.range m).map fun i ↦ prices.getD i 0 * vol.getD i 0).foldl (· + ·) 0 ≤
        hi * ((List.range m).map fun i ↦ vol.getD i 0).foldl (· + ·) 0 := by
  induction m with
  | zero => simp
  | succ m ih =>
    obtain ⟨hlo, hhi⟩ := ih (by omega) (by omega)
    have hprice := hprices (prices.getD m 0) (by
      rw [List.getD_eq_getElem prices 0 (by omega)]
      exact List.getElem_mem _)
    have hweight : 0 ≤ vol.getD m 0 := getD_nonneg hvol m
    have hlo' := mul_le_mul_of_nonneg_right hprice.1 hweight
    have hhi' := mul_le_mul_of_nonneg_right hprice.2 hweight
    rw [List.range_succ, List.map_append, List.map_append, List.foldl_append, List.foldl_append]
    simp only [List.map_cons, List.map_nil, List.foldl_cons, List.foldl_nil]
    constructor <;> linarith

theorem total_pos (h : ∀ x ∈ v, 0 ≤ x) (hex : ∃ x ∈ v, x ≠ 0) : 0 < total v := by
  induction v with
  | nil =>
    obtain ⟨x, hx, -⟩ := hex
    exact absurd hx List.not_mem_nil
  | cons x v ih =>
    have hrest : ∀ y ∈ v, 0 ≤ y := fun y hy ↦ h y (List.mem_cons_of_mem x hy)
    rw [total, List.foldl_cons, zero_add, foldl_add]
    obtain ⟨y, hy, hne⟩ := hex
    rcases List.mem_cons.mp hy with rfl | hy
    · exact add_pos_of_pos_of_nonneg (lt_of_le_of_ne (h y List.mem_cons_self) (Ne.symm hne))
        (total_nonneg hrest)
    · exact add_pos_of_nonneg_of_pos (h x List.mem_cons_self) (ih hrest ⟨y, hy, hne⟩)

theorem VWAP_within (hl : h.length = l.length) (hc : l.length = c.length)
    (hvol : c.length = vol.length) (hle : 1 ≤ h.length) (hvol₀ : ∀ x ∈ vol, 0 ≤ x)
    (hex : ∃ x ∈ vol, x ≠ 0) :
    ∃ vwap, VWAP h l c vol = .ok vwap ∧ Within (typicalPrices h l c) vwap := by
  have hpos := total_pos hvol₀ hex
  have hlength : (typicalPrices h l c).length = h.length := length_typicalPrices
  have htotal : ((List.range h.length).map fun i ↦ vol.getD i 0).foldl (· + ·) 0 = total vol := by
    rw [hl, hc, hvol, map_getD_range]
    rfl
  have hsums : (List.range h.length).foldlM (fun (s : K × K) i ↦ do
      let typical := ((← nth h i) + (← nth l i) + (← nth c i)) / 3
      let volume ← nth vol i
      return (s.1 + typical * volume, s.2 + volume)) ((0, 0) : K × K) =
      .ok (((List.range h.length).map fun i ↦ (typicalPrices h l c).getD i 0 *
        vol.getD i 0).foldl (· + ·) 0, total vol) := by
    rw [← htotal, ← foldl_pair]
    refine foldlM_eq_foldl fun s i hi ↦ ?_
    rw [List.mem_range] at hi
    have hprice : (typicalPrices h l c).getD i 0 = (h.getD i 0 + l.getD i 0 + c.getD i 0) / 3 := by
      rw [List.getD_eq_getElem (typicalPrices h l c) 0 (by omega)]
      simp only [typicalPrices, List.getElem_map, List.getElem_range]
    rw [hprice]
    exact bind_eq_ok (nth_eq_getD hi) (bind_eq_ok (nth_eq_getD (by omega))
      (bind_eq_ok (nth_eq_getD (by omega)) (bind_eq_ok (nth_eq_getD (by omega)) rfl)))
  refine ⟨((List.range h.length).map fun i ↦ (typicalPrices h l c).getD i 0 *
    vol.getD i 0).foldl (· + ·) 0 / total vol, ?_, within_of_bounds ?_ fun lo hi hbounds ↦ ?_⟩
  · rw [VWAP, if_neg (by
      rw [not_or, not_or, not_or, not_ne_iff, not_ne_iff, not_ne_iff, not_lt]
      exact ⟨hl, hc, hvol, hle⟩)]
    exact bind_eq_ok hsums ((if_neg hpos.ne').trans (div_eq hpos.ne'))
  · exact List.length_pos_iff.mp (by omega)
  · obtain ⟨hlo, hhi⟩ := weighted_between hbounds hvol₀ h.length (by omega) (by omega)
    rw [htotal] at hlo hhi
    exact ⟨(le_div_iff₀ hpos).mpr hlo, (div_le_iff₀ hpos).mpr hhi⟩

end Columns

/-! ## The correlation -/

def Bounded (s : K × K × K) : Prop := s.1 ^ 2 ≤ s.2.1 * s.2.2 ∧ 0 ≤ s.2.1 ∧ 0 ≤ s.2.2

theorem CORRELATION_bounds {sqrt : K → K} (hsqrt : ∀ x, 0 ≤ x → sqrt x * sqrt x = x)
    {av bv : List K} (hn : 2 ≤ min av.length bv.length) :
    ∃ r, CORRELATION sqrt av bv = .ok r ∧ r ^ 2 ≤ 1 := by
  have hne : ((min av.length bv.length : Nat) : K) ≠ 0 := Nat.cast_ne_zero.mpr (by omega)
  have hA := length_sliceFrom (K := K) (v := av) (i := min av.length bv.length) (by omega) (by omega)
  have hB := length_sliceFrom (K := K) (v := bv) (i := min av.length bv.length) (by omega) (by omega)
  have hloop (A B : List K) (a b : K) (hA : A.length = min av.length bv.length)
      (hB : B.length = min av.length bv.length) :
      ∃ s, (List.range (min av.length bv.length)).foldlM (fun (s : K × K × K) i ↦ do
        let da := (← nth A i) - a
        let db := (← nth B i) - b
        return (s.1 + da * db, s.2.1 + da * da, s.2.2 + db * db)) (0, 0, 0) = .ok s ∧
        Bounded s := by
    refine foldlM_rule Bounded ⟨by simp, le_rfl, le_rfl⟩ fun s hs i hi ↦ ?_
    rw [List.mem_range] at hi
    refine ⟨_, bind_eq_ok (nth_eq (by omega)) (bind_eq_ok (nth_eq (by omega)) rfl), ?_, ?_, ?_⟩
    · exact cauchySchwarz_step hs.1 hs.2.1 hs.2.2 _ _
    · exact add_nonneg hs.2.1 (mul_self_nonneg _)
    · exact add_nonneg hs.2.2 (mul_self_nonneg _)
  obtain ⟨⟨cov, varA, varB⟩, hsums, hcov, hvarA, hvarB⟩ :=
    hloop _ _ (total _ / _) (total _ / _) hA hB
  have hproduct : 0 ≤ varA * varB := mul_nonneg hvarA hvarB
  have hroot : root sqrt (varA * varB) = .ok (sqrt (varA * varB)) := if_neg (not_lt.mpr hproduct)
  rw [CORRELATION, if_neg (not_lt.mpr hn)]
  by_cases hzero : sqrt (varA * varB) = 0
  · refine ⟨0, ?_, by simp⟩
    exact bind_eq_ok (div_eq hne) (bind_eq_ok (div_eq hne) (bind_eq_ok hsums
      (bind_eq_ok hroot (if_pos hzero))))
  refine ⟨cov / sqrt (varA * varB), ?_, ?_⟩
  · exact bind_eq_ok (div_eq hne) (bind_eq_ok (div_eq hne) (bind_eq_ok hsums
      (bind_eq_ok hroot ((if_neg hzero).trans (div_eq hzero)))))
  have hsq : sqrt (varA * varB) ^ 2 = varA * varB := by
    rw [sq, hsqrt _ hproduct]
  have hpos : 0 < sqrt (varA * varB) ^ 2 := sq_pos_of_ne_zero hzero
  rw [div_pow, div_le_one hpos, hsq]
  exact hcov

/-! ## `MACD` -/

/-- The exponential averages of a series after each of its elements, in one pass. -/
def runningEMA (v : List K) (n : Nat) : List K :=
  (v.drop n).scanl (smooth (multiplier n)) (seed v n)

/-- The differences of the two averages, from the first element on after which both are there. -/
def runningDifference (v : List K) (fast slow : Nat) : List K :=
  ((runningEMA v fast).drop (slow - fast)).zipWith (· - ·) (runningEMA v slow)

theorem length_runningEMA : (runningEMA v n).length = v.length - n + 1 := by
  rw [runningEMA, List.length_scanl, List.length_drop]

theorem EMA_take (hpos : 0 < n) {m : Nat} (hn : n ≤ m) (hm : m ≤ v.length) :
    EMA (v.take m) n = .ok ((runningEMA v n).getD (m - n) 0) := by
  have hlength : (v.take m).length = m := List.length_take_of_le hm
  have hlt : m - n < (runningEMA v n).length := by
    rw [length_runningEMA]
    omega
  have hseed : seed (v.take m) n = seed v n := by
    rw [seed, seed, List.take_take, Nat.min_eq_left hn]
  rw [EMA_eq hpos (by omega), List.getD_eq_getElem _ 0 hlt, hseed]
  simp only [runningEMA]
  rw [List.getElem_scanl, List.drop_take]

theorem MACD_signal {fast slow signal : Nat} (hfast : 0 < fast) (hle : fast ≤ slow)
    (hsignal : 0 < signal) (hlength : slow + signal ≤ v.length) :
    ∃ macd average, EMA (runningDifference v fast slow) signal = .ok average ∧
      MACD v fast slow signal = .ok (macd, average, macd - average) := by
  have hslow : 0 < slow := lt_of_lt_of_le hfast hle
  have hfloor : (⌊(v.length : K) - slow⌋ + 1).toNat = v.length - slow + 1 := by
    rw [← Nat.cast_sub (by omega), Int.floor_natCast]
    omega
  have hhistory : (List.range (⌊(v.length : K) - slow⌋ + 1).toNat).mapM (fun (j : Nat) ↦ do
      let slice := sliceTo v ((slow : K) + j)
      let fast ← EMA slice fast
      let slow ← EMA slice slow
      return fast - slow) = .ok (runningDifference v fast slow) := by
    rw [hfloor]
    refine (mapM_eq_map (f := fun j ↦ (runningEMA v fast).getD (slow + j - fast) 0 -
      (runningEMA v slow).getD (slow + j - slow) 0) fun j hj ↦ ?_).trans (congrArg Except.ok ?_)
    · rw [List.mem_range] at hj
      rw [← Nat.cast_add, sliceTo_natCast]
      exact bind_eq_ok (EMA_take hfast (by omega) (by omega))
        (bind_eq_ok (EMA_take hslow (by omega) (by omega)) rfl)
    · have hcount : (runningDifference v fast slow).length = v.length - slow + 1 := by
        rw [runningDifference, List.length_zipWith, List.length_drop, length_runningEMA,
          length_runningEMA]
        omega
      refine List.ext_getElem (by rw [List.length_map, List.length_range, hcount]) fun j hj hj' ↦ ?_
      have hlt : j < v.length - slow + 1 := hcount ▸ hj'
      have hfastLt : slow + j - fast < (runningEMA v fast).length := by
        rw [length_runningEMA]
        omega
      have hslowLt : slow + j - slow < (runningEMA v slow).length := by
        rw [length_runningEMA]
        omega
      rw [List.getElem_map, List.getElem_range, List.getD_eq_getElem _ 0 hfastLt,
        List.getD_eq_getElem _ 0 hslowLt]
      simp only [runningDifference, List.getElem_zipWith, List.getElem_drop]
      congr 2 <;> omega
  have hcount : signal ≤ (runningDifference v fast slow).length := by
    rw [runningDifference, List.length_zipWith, List.length_drop, length_runningEMA,
      length_runningEMA]
    omega
  obtain ⟨fastEMA, hfastEMA, -⟩ := EMA_within (v := v) hfast (by omega)
  obtain ⟨slowEMA, hslowEMA, -⟩ := EMA_within (v := v) hslow (by omega)
  refine ⟨fastEMA - slowEMA, _, EMA_eq hsignal hcount, ?_⟩
  rw [MACD, if_neg (not_lt.mpr (by exact_mod_cast hlength))]
  exact bind_eq_ok hfastEMA (bind_eq_ok hslowEMA (bind_eq_ok hhistory
    (bind_eq_ok (EMA_eq hsignal hcount) rfl)))

/-! ## Scaling and shifting -/

/-- `a * x + b` -/
def affine (a b x : K) : K := a * x + b

theorem total_affine (a b : K) (v : List K) :
    total (v.map (affine a b)) = a * total v + b * v.length := foldl_add_affine a b v

theorem average_affine (a b : K) (hpos : 0 < n) (hlength : v.length = n) :
    total (v.map (affine a b)) / n = affine a b (total v / n) := by
  have hne : (n : K) ≠ 0 := Nat.cast_ne_zero.mpr hpos.ne'
  rw [total_affine, hlength, affine]
  field_simp

theorem recent_map (f : K → K) : recent (v.map f) n = (recent v n).map f := by
  rw [recent, recent, List.length_map, List.map_drop]

theorem seed_affine (a b : K) (hpos : 0 < n) (hle : n ≤ v.length) :
    seed (v.map (affine a b)) n = affine a b (seed v n) := by
  rw [seed, ← List.map_take]
  exact average_affine a b hpos (List.length_take_of_le hle)

theorem SMA_affine (a b : K) (hpos : 0 < n) (hle : n ≤ v.length) :
    ∃ sma, SMA v n = .ok sma ∧ SMA (v.map (affine a b)) n = .ok (affine a b sma) := by
  refine ⟨_, SMA_eq hpos hle, ?_⟩
  rw [SMA_eq hpos (by rwa [List.length_map]), recent_map,
    average_affine a b hpos (length_recent hle)]

theorem EMA_affine (a b : K) (hpos : 0 < n) (hle : n ≤ v.length) :
    ∃ ema, EMA v n = .ok ema ∧ EMA (v.map (affine a b)) n = .ok (affine a b ema) := by
  refine ⟨_, EMA_eq hpos hle, ?_⟩
  have hfold := foldl_hom_map (f := affine a b) (g := affine a b)
    (fun ema x ↦ smooth_affine a b (multiplier n) ema x) (v.drop n) (seed v n)
  rw [EMA_eq hpos (by rwa [List.length_map]), seed_affine a b hpos hle, ← List.map_drop, hfold]

theorem weighted_affine (a b : K) (v : List K) :
    (v.map (affine a b)).zipIdx.foldl (fun s y ↦ s + (y.2 : K) * y.1) 0 =
      a * v.zipIdx.foldl (fun s y ↦ s + (y.2 : K) * y.1) 0 +
        b * (v.length * (v.length - 1) / 2) := by
  have h := foldl_weighted_affine a b v 0 0 0
  rw [mul_zero, mul_zero, add_zero, Nat.cast_zero, zero_mul, zero_add, zero_add] at h
  exact h

def slopeOf (w : List K) : K :=
  let n : K := w.length
  let sumX := n * (n - 1) / 2
  let sumXX := (n - 1) * n * (2 * n - 1) / ((6 : Nat) : K)
  let sumXY := w.zipIdx.foldl (fun s y ↦ s + (y.2 : K) * y.1) 0
  let denom := n * sumXX - sumX * sumX
  if denom = 0 then 0 else (n * sumXY - sumX * total w) / denom

theorem SLOPE_eq (hpos : 0 < n) (hle : 2 ≤ min n v.length) :
    SLOPE v n = .ok (slopeOf (recent v n)) := by
  have hlength : 2 ≤ (recent v n).length := by
    rw [recent, List.length_drop]
    omega
  rw [SLOPE, sliceFrom_natCast hpos, if_neg (not_lt.mpr (Nat.ofNat_le_cast.mpr hlength)), slopeOf]
  dsimp only
  rw [Nat.cast_ofNat]
  split_ifs with hzero
  · rfl
  · exact div_eq hzero

theorem slopeOf_affine (a b : K) (w : List K) : slopeOf (w.map (affine a b)) = a * slopeOf w := by
  rw [slopeOf, slopeOf, List.length_map, weighted_affine, total_affine]
  split_ifs with hzero
  · rw [mul_zero]
  · ring

theorem SLOPE_affine (a b : K) (hpos : 0 < n) (hle : 2 ≤ min n v.length) :
    ∃ slope, SLOPE v n = .ok slope ∧ SLOPE (v.map (affine a b)) n = .ok (a * slope) := by
  refine ⟨_, SLOPE_eq hpos hle, ?_⟩
  rw [SLOPE_eq hpos (by rwa [List.length_map]), recent_map, slopeOf_affine]

theorem changesOf_affine (a b : K) (v : List K) :
    changesOf (v.map (affine a b)) = (changesOf v).map (a * ·) := by
  rw [changesOf, changesOf, ← List.map_tail, List.zipWith_map, List.map_zipWith]
  congr 1
  funext x y
  rw [affine, affine]
  ring

theorem gain_scale {a : K} (ha : 0 < a) (c : K) : gain (a * c) = a * gain c := by
  rcases lt_or_ge 0 c with hc | hc
  · rw [gain, gain, if_pos hc, if_pos (mul_pos ha hc)]
  · rw [gain, gain, if_neg hc.not_gt, if_neg (mul_nonpos_of_nonneg_of_nonpos ha.le hc).not_gt,
      mul_zero]

theorem loss_scale {a : K} (ha : 0 < a) (c : K) : loss (a * c) = a * loss c := by
  rcases lt_or_ge c 0 with hc | hc
  · rw [loss, loss, if_pos hc, if_pos (mul_neg_of_pos_of_neg ha hc), mul_neg]
  · rw [loss, loss, if_neg hc.not_gt, if_neg (mul_nonneg ha.le hc).not_gt, mul_zero]

theorem smoothed_scale (a : K) (w : List K) : smoothed n (w.map (a * ·)) = a * smoothed n w := by
  have hseed : seed (w.map (a * ·)) n = a * seed w n := by
    have haffine : affine a 0 = (a * ·) := by
      funext x
      rw [affine, add_zero]
    have htotal := total_affine a 0 (w.take n)
    rw [zero_mul, add_zero, haffine] at htotal
    rw [seed, seed, ← List.map_take, ← mul_div_assoc, ← htotal]
  have hstep (avg x : K) : wilder n (a * avg) (a * x) = a * wilder n avg x := by
    rw [wilder, wilder, ← mul_div_assoc]
    ring
  rw [smoothed, hseed, ← List.map_drop, foldl_hom_map hstep]
  rfl

theorem strength_scale {a : K} (ha : 0 < a) (up down : K) :
    strength (a * up) (a * down) = strength up down := by
  rcases eq_or_ne down 0 with rfl | hdown
  · rw [mul_zero, strength, strength, if_pos rfl, if_pos rfl]
  · rw [strength, strength, if_neg hdown, if_neg (mul_ne_zero ha.ne' hdown),
      mul_div_mul_left _ _ ha.ne']

theorem RSI_affine {a : K} (b : K) (ha : 0 < a) (hpos : 0 < n) (hle : n + 1 ≤ v.length) :
    RSI (v.map (affine a b)) n = RSI v n := by
  have hup (f : K → K) (hf : ∀ c, f (a * c) = a * f c) :
      smoothed n ((changesOf (v.map (affine a b))).map f) =
        a * smoothed n ((changesOf v).map f) := by
    rw [changesOf_affine, ← smoothed_scale, List.map_map, List.map_map]
    congr 2
    funext c
    exact hf c
  rw [RSI_eq hpos hle, RSI_eq hpos (by rwa [List.length_map]), hup gain (gain_scale ha),
    hup loss (loss_scale ha), strength_scale ha]

/-! ## All laws -/

/-- The laws of the indicators, for every series that is long enough and every period that counts
bars. -/
structure IndicatorLaws (sqrt : K → K) : Prop where
  /-- `SMA` is over the last elements. -/
  sma : ∀ (v : List K) (n : Nat), 0 < n → n ≤ v.length →
    ∃ sma, SMA v n = .ok sma ∧ Within (recent v n) sma
  /-- `EMA` is over the whole series. -/
  ema : ∀ (v : List K) (n : Nat), 0 < n → n ≤ v.length → ∃ ema, EMA v n = .ok ema ∧ Within v ema
  /-- The middle band is over the last elements. -/
  bbands : ∀ (v : List K) (n : Nat) (spread : K), 0 < n → n ≤ v.length →
    ∃ upper middle lower, BBANDS sqrt v n spread = .ok (upper, middle, lower) ∧
      Within (recent v n) middle
  /-- `VWAP` is over the typical prices. -/
  vwap : ∀ h l c vol : List K, h.length = l.length → l.length = c.length →
    c.length = vol.length → 1 ≤ h.length → (∀ x ∈ vol, 0 ≤ x) → (∃ x ∈ vol, x ≠ 0) →
      ∃ prices vwap, typical h l c = .ok prices ∧ VWAP h l c vol = .ok vwap ∧ Within prices vwap
  rsi : ∀ (v : List K) (n : Nat), 0 < n → n + 1 ≤ v.length →
    ∃ rsi, RSI v n = .ok rsi ∧ 0 ≤ rsi ∧ rsi ≤ 100
  mfi : ∀ (h l c vol : List K) (n : Nat), h.length = l.length → l.length = c.length →
    c.length = vol.length → 0 < n → n + 1 ≤ h.length → (∀ x ∈ h, 0 < x) → (∀ x ∈ l, 0 < x) →
      (∀ x ∈ c, 0 < x) → (∀ x ∈ vol, 0 ≤ x) → ∃ mfi, MFI h l c vol n = .ok mfi ∧ 0 ≤ mfi ∧ mfi ≤ 100
  correlation : ∀ av bv : List K, 2 ≤ min av.length bv.length →
    ∃ r, CORRELATION sqrt av bv = .ok r ∧ r ^ 2 ≤ 1
  /-- The signal is one pass over the difference of two averages, each of which is one pass over
  the series. -/
  macd : ∀ (v : List K) (fast slow signal : Nat), 0 < fast → fast ≤ slow → 0 < signal →
    slow + signal ≤ v.length →
      ∃ macd average, EMA (runningDifference v fast slow) signal = .ok average ∧
        MACD v fast slow signal = .ok (macd, average, macd - average)
  atr : ∀ (h l c : List K) (n : Nat), h.length = l.length → l.length = c.length → 0 < n →
    n + 1 ≤ h.length → ∃ atr, ATR h l c n = .ok atr ∧ 0 ≤ atr
  rsiAffine : ∀ (a b : K) (v : List K) (n : Nat), 0 < a → 0 < n → n + 1 ≤ v.length →
    RSI (v.map (affine a b)) n = RSI v n
  smaAffine : ∀ (a b : K) (v : List K) (n : Nat), 0 < a → 0 < n → n ≤ v.length →
    ∃ sma, SMA v n = .ok sma ∧ SMA (v.map (affine a b)) n = .ok (affine a b sma)
  emaAffine : ∀ (a b : K) (v : List K) (n : Nat), 0 < a → 0 < n → n ≤ v.length →
    ∃ ema, EMA v n = .ok ema ∧ EMA (v.map (affine a b)) n = .ok (affine a b ema)
  slopeAffine : ∀ (a b : K) (v : List K) (n : Nat), 0 < a → 2 ≤ min n v.length →
    ∃ slope, SLOPE v n = .ok slope ∧ SLOPE (v.map (affine a b)) n = .ok (a * slope)

/-- **The indicators keep their laws.** -/
theorem indicator_laws {sqrt : K → K} (hsqrt : ∀ x, 0 ≤ x → sqrt x * sqrt x = x) :
    IndicatorLaws sqrt where
  sma _ _ hpos hle := ⟨_, SMA_eq hpos hle, within_average hpos (length_recent hle)⟩
  ema _ _ hpos hle := EMA_within hpos hle
  bbands _ _ spread hpos hle := by
    obtain ⟨deviation, h⟩ := BBANDS_eq sqrt spread hpos hle
    exact ⟨_, _, _, h, within_average hpos (length_recent hle)⟩
  vwap _ _ _ _ hl hc hvol hle hvol₀ hex := by
    obtain ⟨vwap, h, hwithin⟩ := VWAP_within hl hc hvol hle hvol₀ hex
    exact ⟨_, vwap, typical_eq hl hc, h, hwithin⟩
  rsi _ _ hpos hle := by
    refine ⟨_, RSI_eq hpos hle, strength_bounds ?_ ?_⟩
    · exact smoothed_series_nonneg hpos (List.forall_mem_map.mpr fun c _ ↦ gain_nonneg c)
    · exact smoothed_series_nonneg hpos (List.forall_mem_map.mpr fun c _ ↦ loss_nonneg c)
  mfi _ _ _ _ _ hl hc hvol _ hle hh₀ hl₀ hc₀ hvol₀ :=
    MFI_bounds hl hc hvol hle (fun x hx ↦ (hh₀ x hx).le) (fun x hx ↦ (hl₀ x hx).le)
      (fun x hx ↦ (hc₀ x hx).le) hvol₀
  correlation _ _ hn := CORRELATION_bounds hsqrt hn
  macd _ _ _ _ hfast hle hsignal hlength := MACD_signal hfast hle hsignal hlength
  atr _ _ _ _ hl hc hpos hle := ATR_nonneg hl hc hpos hle
  rsiAffine _ b _ _ ha hpos hle := RSI_affine b ha hpos hle
  smaAffine a b _ _ _ hpos hle := SMA_affine a b hpos hle
  emaAffine a b _ _ _ hpos hle := EMA_affine a b hpos hle
  slopeAffine a b _ _ _ hle := SLOPE_affine a b (by omega) hle

/-- With the square roots of the real numbers. -/
theorem real_indicator_laws : IndicatorLaws Real.sqrt :=
  indicator_laws fun _ hx ↦ Real.mul_self_sqrt hx

end OpenAlice.Analysis
