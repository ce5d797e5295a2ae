import OpenAlice.Analysis.Defined
import OpenAlice.Analysis.Evaluator
import Mathlib.Data.Rat.Floor

/-!
# When the calculator answers

`runScript` answers a script with a value or with a diagnostic exactly when each call of the
registry that the evaluation comes to meets the condition of its function (`answers_iff`).
The guards of the registry let periods through for which an indicator divides by zero, reads
outside of an array or throws an `Error` itself, and names that are no functions of the registry;
`Call.Meets` says for each function what its guard leaves to the script.

Nothing else of a script is in the way: the parser comes to an end, and the evaluator stops with
diagnostics only.
-/

namespace OpenAlice.Analysis

open Data

set_option linter.unusedSectionVars false

variable {K : Type} [Field K] [LinearOrder K] [FloorRing K]

/-! ## The conditions -/

def Given (a : Option (V K)) (p : Option K) : Prop :=
  match a with
  | none | some (.foreign false) => p = none
  | some (.num x) => p = some x
  | some _ => False

/-- A condition on a column and a period for which there are the bars that are `needed`. -/
def OnWindow (args : List (V K)) (needed : K → K) (P : List K → K → Prop) : Prop :=
  ∀ c p, args.length = 2 → args[0]? = some (.col c) → args[1]? = some (.num p) →
    needed p ≤ c.values.length → P c.values p

def OnRecent (args : List (V K)) (default : K) (P : List K → K → Prop) : Prop :=
  ∀ c p, 1 ≤ args.length → args.length ≤ 2 → args[0]? = some (.col c) → Given args[1]? p →
    p.getD default + 1 ≤ c.values.length → P c.values (p.getD default)

/-- The condition of each function on arguments that pass its checks. -/
def Indicator.Meets (indicator : Indicator) (args : List (V K)) : Prop :=
  match indicator with
  | .stdev | .max | .min | .sum | .average | .median => True
  | .sma => OnWindow args id fun _ p ↦ p ≠ 0
  | .ema => OnWindow args id fun _ p ↦ WholePeriod p
  | .roc => OnWindow args (· + 1) fun _ p ↦ ∃ m : Nat, p = m
  | .slope => OnWindow args id fun v p ↦ 2 ≤ (sliceFrom v (-p)).length
  | .highest | .lowest => OnWindow args id fun v p ↦ sliceFrom v (-p) ≠ []
  | .rsi => OnRecent args 14 fun _ p ↦ WholePeriod p
  | .rvol => OnRecent args 20 fun v p ↦ p ≠ 0 ∧ total (slice v (-p - 1) (-1)) ≠ 0
  | .zscore => ∀ (c : Col K) (p : Option K), 1 ≤ args.length → args.length ≤ 2 →
      args[0]? = some (.col c) → Given args[1]? p →
        ∀ q, p = some q → q ≠ 0 → q ≤ c.values.length → sliceFrom c.values (-q) ≠ []
  | .bbands => ∀ (c : Col K) (p : K) (s : Option K), 2 ≤ args.length → args.length ≤ 3 →
      args[0]? = some (.col c) → args[1]? = some (.num p) → Given args[2]? s →
      p ≤ c.values.length →
        0 < p ∨ p < 0 ∧ ∀ x ∈ sliceFrom c.values (-p), x = 0
  | .macd => ∀ (c : Col K) (fa sl si : K), args.length = 4 → args[0]? = some (.col c) →
      args[1]? = some (.num fa) → args[2]? = some (.num sl) → args[3]? = some (.num si) →
      sl + si ≤ c.values.length →
        WholePeriod fa ∧ WholePeriod sl ∧ WholePeriod si ∧ fa ≤ sl
  | .atr => ∀ (h lo c : Col K) (p : K), args.length = 4 → args[0]? = some (.col h) →
      args[1]? = some (.col lo) → args[2]? = some (.col c) → args[3]? = some (.num p) →
      p ≤ c.values.length →
        h.values.length = lo.values.length ∧ lo.values.length = c.values.length ∧
          p + 1 ≤ h.values.length ∧ WholePeriod p
  | .obv => ∀ (c v : Col K), args.length = 2 → args[0]? = some (.col c) → args[1]? = some (.col v) →
      c.values.length = v.values.length ∧ 2 ≤ c.values.length
  | .correlation => ∀ (c d : Col K), args.length = 2 → args[0]? = some (.col c) →
      args[1]? = some (.col d) → 2 ≤ c.values.length ∧ 2 ≤ d.values.length
  | .mfi => ∀ (h lo c v : Col K) (p : Option K), 4 ≤ args.length → args.length ≤ 5 →
      args[0]? = some (.col h) → args[1]? = some (.col lo) →
      args[2]? = some (.col c) → args[3]? = some (.col v) → Given args[4]? p →
      p.getD 14 + 1 ≤ c.values.length →
        h.values.length = lo.values.length ∧ lo.values.length = c.values.length ∧
          c.values.length = v.values.length ∧
          (p.getD 14 ≤ 0 ∨ ∃ n : Nat, 0 < n ∧ p.getD 14 = n ∧
            ¬ FlowsCancel h.values lo.values c.values v.values n)
  | .vwap => ∀ (h lo c v : Col K), args.length = 4 → args[0]? = some (.col h) →
      args[1]? = some (.col lo) → args[2]? = some (.col c) → args[3]? = some (.col v) →
        h.values.length = lo.values.length ∧ lo.values.length = c.values.length ∧
          c.values.length = v.values.length ∧ total v.values ≠ 0

def Property.Meets (property : Property) (args : List (V K)) : Prop :=
  match property with
  | .own indicator => indicator.Meets args
  | .inherited property => property ≠ .throws

def Call.Meets (call : Call K) : Prop := call.property.Meets call.args

/-! ## The checks -/

section Checks

variable {α β : Type} {args : List (V K)} {a : Option (V K)} {fn : String} {i line : Nat}

theorem answered_arity_bind {least most : Nat} {k : Unit → Except Stop β} :
    Answered (arity args least most fn line >>= k) ↔
      (least ≤ args.length → args.length ≤ most → Answered (k ())) := by
  rw [arity]
  by_cases h : args.length < least ∨ most < args.length
  · rw [if_pos h]
    exact ⟨fun _ h₁ h₂ ↦ absurd h (by omega), fun _ ↦ trivial⟩
  · rw [if_neg h]
    exact ⟨fun hk _ _ ↦ hk, fun hk ↦ hk (by omega) (by omega)⟩

theorem answered_col_bind {k : Col K → Except Stop β} :
    Answered (col a fn i line >>= k) ↔ ∀ c, a = some (.col c) → Answered (k c) := by
  rw [col.eq_def]
  split
  next c =>
    refine ⟨fun hk c' hc' ↦ ?_, fun hk ↦ hk c rfl⟩
    cases hc'
    exact hk
  next hne => exact ⟨fun _ c hc ↦ absurd hc (hne c), fun _ ↦ trivial⟩

theorem answered_num_bind {k : K → Except Stop β} :
    Answered (num a fn i line >>= k) ↔ ∀ p, a = some (.num p) → Answered (k p) := by
  rw [num.eq_def]
  split
  next p =>
    refine ⟨fun hk p' hp' ↦ ?_, fun hk ↦ hk p rfl⟩
    cases hp'
    exact hk
  next hne => exact ⟨fun _ p hp ↦ absurd hp (hne p), fun _ ↦ trivial⟩

theorem answered_optional_bind {k : Option K → Except Stop β} :
    Answered (optional a fn i line >>= k) ↔ ∀ p, Given a p → Answered (k p) := by
  rcases a with - | v
  · exact ⟨fun hk p hp ↦ by rwa [hp], fun hk ↦ hk none rfl⟩
  · cases v with
    | num x => exact ⟨fun hk p hp ↦ by rwa [hp], fun hk ↦ hk (some x) rfl⟩
    | foreign truthy =>
      cases truthy with
      | false => exact ⟨fun hk p hp ↦ by rwa [hp], fun hk ↦ hk none rfl⟩
      | true => exact ⟨fun _ p hp ↦ hp.elim, fun _ ↦ trivial⟩
    | str _ => exact ⟨fun _ p hp ↦ hp.elim, fun _ ↦ trivial⟩
    | col _ => exact ⟨fun _ p hp ↦ hp.elim, fun _ ↦ trivial⟩
    | series _ => exact ⟨fun _ p hp ↦ hp.elim, fun _ ↦ trivial⟩
    | record _ => exact ⟨fun _ p hp ↦ hp.elim, fun _ ↦ trivial⟩
    | list _ => exact ⟨fun _ p hp ↦ hp.elim, fun _ ↦ trivial⟩
    | dict _ => exact ⟨fun _ p hp ↦ hp.elim, fun _ ↦ trivial⟩

theorem answered_needBars_bind {text : K → String} {c : Col K} {period : K}
    {k : Unit → Except Stop β} :
    Answered (needBars text c period fn line >>= k) ↔
      (period ≤ c.values.length → Answered (k ())) := by
  rw [needBars]
  split_ifs with h
  · exact ⟨fun _ hle ↦ absurd h hle.not_gt, fun _ ↦ trivial⟩
  · exact ⟨fun hk _ ↦ hk, fun hk ↦ hk (not_lt.mp h)⟩

theorem answered_calculate_bind {x : Except Fault α} {k : α → Except Stop β}
    (hk : ∀ a, Answered (k a)) : Answered (calculate x >>= k) ↔ Ok x := by
  cases x with
  | ok a => exact ⟨fun _ ↦ ok_ok a, fun _ ↦ hk a⟩
  | error e => exact ⟨fun h ↦ h.elim, fun h ↦ absurd h (not_ok_error e)⟩

theorem answered_calculate_num {x : Except Fault K} :
    Answered (calculate x >>= fun v ↦ pure (V.num v)) ↔ Ok x :=
  answered_calculate_bind fun _ ↦ trivial

theorem answered_ofColumn {indicator : List K → Except Fault K} {l : Nat}
    (hall : ∀ v : List K, v ≠ [] → Ok (indicator v)) : Answered (ofColumn indicator fn args l) := by
  rw [ofColumn, answered_arity_bind]
  intro _ _
  rw [answered_col_bind]
  intro c _
  rw [answered_calculate_num]
  exact hall c.values c.nonempty

theorem answered_ofWindow_iff {text : K → String} {needed : K → K}
    {indicator : List K → K → Except Fault K} {l : Nat} :
    Answered (ofWindow text needed indicator fn args l) ↔
      OnWindow args needed fun v p ↦ Ok (indicator v p) := by
  simp only [ofWindow, answered_arity_bind, answered_col_bind, answered_num_bind,
    answered_needBars_bind, answered_calculate_num]
  exact ⟨fun h c p hlength hc hp hneeded ↦ h hlength.ge hlength.le c hc p hp hneeded,
    fun h hge hle c hc p hp hneeded ↦ h c p (le_antisymm hle hge) hc hp hneeded⟩

theorem answered_ofRecent_iff {text : K → String} {default : K}
    {indicator : List K → K → Except Fault K} {l : Nat} :
    Answered (ofRecent text default indicator fn args l) ↔
      OnRecent args default fun v p ↦ Ok (indicator v p) := by
  simp only [ofRecent, answered_arity_bind, answered_col_bind, answered_optional_bind,
    answered_needBars_bind, answered_calculate_num]
  exact ⟨fun h c p hge hle hc hp hneeded ↦ h hge hle c hc p hp hneeded,
    fun h hge hle c hc p hp hneeded ↦ h c p hge hle hc hp hneeded⟩

theorem onWindow_congr {needed : K → K} {P Q : List K → K → Prop}
    (h : ∀ v p, v ≠ [] → needed p ≤ v.length → (P v p ↔ Q v p)) :
    OnWindow args needed P ↔ OnWindow args needed Q := by
  constructor <;> intro hP c p hlength hc hp hneeded
  · exact (h c.values p c.nonempty hneeded).mp (hP c p hlength hc hp hneeded)
  · exact (h c.values p c.nonempty hneeded).mpr (hP c p hlength hc hp hneeded)

theorem onRecent_congr {default : K} {P Q : List K → K → Prop}
    (h : ∀ (v : List K) (p : K), v ≠ [] → p + 1 ≤ v.length → (P v p ↔ Q v p)) :
    OnRecent args default P ↔ OnRecent args default Q := by
  constructor <;> intro hP c p hge hle hc hp hneeded
  · exact (h c.values (p.getD default) c.nonempty hneeded).mp (hP c p hge hle hc hp hneeded)
  · exact (h c.values (p.getD default) c.nonempty hneeded).mpr (hP c p hge hle hc hp hneeded)

end Checks

/-! ## Each function -/

variable [IsStrictOrderedRing K]

theorem answered_apply_iff (lang : Language K) (indicator : Indicator) (args : List (V K))
    (l : Nat) : Answered (indicator.apply lang args l) ↔ indicator.Meets args := by
  cases indicator with
  | stdev => exact iff_of_true (answered_ofColumn fun v hv ↦ ok_STDEV_iff.mpr hv) trivial
  | max => exact iff_of_true (answered_ofColumn fun v hv ↦ ok_MAX_iff.mpr hv) trivial
  | min => exact iff_of_true (answered_ofColumn fun v hv ↦ ok_MIN_iff.mpr hv) trivial
  | sum => exact iff_of_true (answered_ofColumn fun v _ ↦ ok_SUM) trivial
  | average => exact iff_of_true (answered_ofColumn fun v hv ↦ ok_AVERAGE_iff.mpr hv) trivial
  | median => exact iff_of_true (answered_ofColumn fun v hv ↦ ok_MEDIAN_iff.mpr hv) trivial
  | sma =>
    rw [Indicator.apply, answered_ofWindow_iff, Indicator.Meets]
    refine onWindow_congr fun v p _ hle ↦ ?_
    exact ok_SMA_iff.trans (and_iff_right hle)
  | ema =>
    rw [Indicator.apply, answered_ofWindow_iff, Indicator.Meets]
    refine onWindow_congr fun v p _ hle ↦ ?_
    exact ok_EMA_iff.trans (and_iff_right hle)
  | roc =>
    rw [Indicator.apply, answered_ofWindow_iff, Indicator.Meets]
    refine onWindow_congr fun v p _ hle ↦ ?_
    exact ok_ROC_iff.trans (and_iff_right hle)
  | slope =>
    rw [Indicator.apply, answered_ofWindow_iff, Indicator.Meets]
    exact onWindow_congr fun v p _ _ ↦ ok_SLOPE_iff
  | highest =>
    rw [Indicator.apply, answered_ofWindow_iff, Indicator.Meets]
    exact onWindow_congr fun v p _ _ ↦ ok_HIGHEST_iff
  | lowest =>
    rw [Indicator.apply, answered_ofWindow_iff, Indicator.Meets]
    exact onWindow_congr fun v p _ _ ↦ ok_LOWEST_iff
  | rsi =>
    rw [Indicator.apply, answered_ofRecent_iff, Indicator.Meets]
    refine onRecent_congr fun v p _ hle ↦ ?_
    exact ok_RSI_iff.trans (and_iff_right hle)
  | rvol =>
    rw [Indicator.apply, answered_ofRecent_iff, Indicator.Meets]
    refine onRecent_congr fun v p hv hle ↦ ?_
    exact ok_RVOL_iff.trans ((and_iff_right hle).trans (and_iff_right hv))
  | bbands =>
    simp only [Indicator.apply, Indicator.Meets, answered_arity_bind, answered_col_bind,
      answered_num_bind, answered_optional_bind, answered_needBars_bind]
    constructor
    · intro h c p s hge hle hc hp hs hneeded
      have hok := (answered_calculate_bind fun ⟨_, _, _⟩ ↦ trivial).mp (h hge hle c hc p hp s hs hneeded)
      exact (ok_BBANDS_iff.mp hok).2
    intro h hge hle c hc p hp s hs hneeded
    refine (answered_calculate_bind fun ⟨_, _, _⟩ ↦ trivial).mpr ?_
    exact ok_BBANDS_iff.mpr ⟨hneeded, h c p s hge hle hc hp hs hneeded⟩
  | macd =>
    simp only [Indicator.apply, Indicator.Meets, answered_arity_bind, answered_col_bind,
      answered_num_bind, answered_needBars_bind]
    constructor
    · intro h c fa sl si hlength hc hfa hsl hsi hneeded
      have hok := (answered_calculate_bind fun ⟨_, _, _⟩ ↦ trivial).mp
        (h hlength.ge hlength.le c hc fa hfa sl hsl si hsi hneeded)
      exact (ok_MACD_iff.mp hok).2
    intro h hge hle c hc fa hfa sl hsl si hsi hneeded
    refine (answered_calculate_bind fun ⟨_, _, _⟩ ↦ trivial).mpr ?_
    exact ok_MACD_iff.mpr ⟨hneeded, h c fa sl si (le_antisymm hle hge) hc hfa hsl hsi hneeded⟩
  | atr =>
    simp only [Indicator.apply, Indicator.Meets, answered_arity_bind, answered_col_bind,
      answered_num_bind, answered_needBars_bind, answered_calculate_num, ok_ATR_iff]
    exact ⟨fun h hi lo c p hlength hhi hlo hc hp hneeded ↦
        h hlength.ge hlength.le hi hhi lo hlo c hc p hp hneeded,
      fun h hge hle hi hhi lo hlo c hc p hp hneeded ↦
        h hi lo c p (le_antisymm hle hge) hhi hlo hc hp hneeded⟩
  | obv =>
    simp only [Indicator.apply, Indicator.Meets, answered_arity_bind, answered_col_bind,
      answered_calculate_num, ok_OBV_iff]
    exact ⟨fun h c v hlength hc hv ↦ h hlength.ge hlength.le c hc v hv,
      fun h hge hle c hc v hv ↦ h c v (le_antisymm hle hge) hc hv⟩
  | mfi =>
    simp only [Indicator.apply, Indicator.Meets, answered_arity_bind, answered_col_bind,
      answered_optional_bind, answered_needBars_bind, answered_calculate_num]
    constructor
    · intro h hi lo c v p hge hle hhi hlo hc hv hp hneeded
      obtain ⟨h₁, h₂, h₃, -, hflows⟩ :=
        ok_MFI_iff.mp (h hge hle hi hhi lo hlo c hc v hv p hp hneeded)
      exact ⟨h₁, h₂, h₃, hflows⟩
    intro h hge hle hi hhi lo hlo c hc v hv p hp hneeded
    obtain ⟨h₁, h₂, h₃, hflows⟩ := h hi lo c v p hge hle hhi hlo hc hv hp hneeded
    exact ok_MFI_iff.mpr ⟨h₁, h₂, h₃, by rwa [h₁, h₂], hflows⟩
  | vwap =>
    simp only [Indicator.apply, Indicator.Meets, answered_arity_bind, answered_col_bind,
      answered_calculate_num]
    constructor
    · intro h hi lo c v hlength hhi hlo hc hv
      obtain ⟨h₁, h₂, h₃, -, hvolume⟩ :=
        ok_VWAP_iff.mp (h hlength.ge hlength.le hi hhi lo hlo c hc v hv)
      exact ⟨h₁, h₂, h₃, hvolume⟩
    intro h hge hle hi hhi lo hlo c hc v hv
    obtain ⟨h₁, h₂, h₃, hvolume⟩ := h hi lo c v (le_antisymm hle hge) hhi hlo hc hv
    exact ok_VWAP_iff.mpr ⟨h₁, h₂, h₃, List.length_pos_iff.mpr hi.nonempty, hvolume⟩
  | zscore =>
    simp only [Indicator.apply, Indicator.Meets, answered_arity_bind, answered_col_bind,
      answered_optional_bind]
    constructor
    · intro h c p hge hle hc hp q hq hne hneeded
      subst hq
      have hok := h hge hle c hc (some q) hp
      simp only [if_neg hne, answered_needBars_bind, answered_calculate_num] at hok
      have hwindow := (ok_ZSCORE_iff.mp (hok hneeded)).2
      rwa [window, if_neg hne] at hwindow
    · intro h hge hle c hc p hp
      rcases p with - | q
      · exact answered_calculate_num.mpr (ok_ZSCORE_iff.mpr ⟨c.nonempty, c.nonempty⟩)
      rcases eq_or_ne q 0 with rfl | hne
      · simp only [if_true]
        refine answered_calculate_num.mpr (ok_ZSCORE_iff.mpr ⟨c.nonempty, ?_⟩)
        rw [window, if_pos rfl]
        exact c.nonempty
      simp only [if_neg hne, answered_needBars_bind, answered_calculate_num]
      refine fun hneeded ↦ ok_ZSCORE_iff.mpr ⟨c.nonempty, ?_⟩
      rw [window, if_neg hne]
      exact h c (some q) hge hle hc hp q rfl hne hneeded
  | correlation =>
    simp only [Indicator.apply, Indicator.Meets, answered_arity_bind, answered_col_bind,
      answered_calculate_num, ok_CORRELATION_iff, le_min_iff]
    exact ⟨fun h c d hlength hc hd ↦ h hlength.ge hlength.le c hc d hd,
      fun h hge hle c hc d hd ↦ h c d (le_antisymm hle hge) hc hd⟩

theorem answered_call_iff (lang : Language K) (property : Property) (args : List (V K))
    (line : Nat) : Answered (property.call lang args line) ↔ property.Meets args := by
  cases property with
  | own indicator => exact answered_apply_iff lang indicator args line
  | inherited property =>
    cases property with
    | throws => exact iff_of_false id fun h ↦ h rfl
    | returns truthy => exact iff_of_true trivial fun h ↦ by cases h

/-! ## The evaluator -/

def Sound {α : Type} (x : Run K α) : Prop := Answered x.result ↔ ∀ call ∈ x.calls, call.Meets

section Sound

variable {α β : Type}

theorem sound_pure (a : α) : Sound (pure a : Run K α) :=
  iff_of_true trivial fun _ h ↦ absurd h List.not_mem_nil

theorem sound_of {x : Except Stop α} (h : Answered x) : Sound (.of x : Run K α) :=
  iff_of_true h fun _ h ↦ absurd h List.not_mem_nil

theorem Sound.bind {x : Run K α} {f : α → Run K β} (hx : Sound x) (hf : ∀ a, Sound (f a)) :
    Sound (x >>= f) := by
  obtain ⟨calls, result⟩ := x
  rcases result with stop | a
  · have hstop : Answered (.error stop : Except Stop β) ↔ Answered (.error stop : Except Stop α) := by
      cases stop <;> exact Iff.rfl
    exact hstop.trans hx
  change Answered (f a).result ↔ ∀ call ∈ calls ++ (f a).calls, call.Meets
  rw [List.forall_mem_append, show Answered (f a).result ↔ _ from hf a]
  exact (and_iff_right (hx.mp trivial)).symm

theorem sound_inOrder {runs : List (Run K α)} (h : ∀ x ∈ runs, Sound x) :
    Sound (Run.inOrder runs) := by
  induction runs with
  | nil => exact sound_pure []
  | cons x runs ih =>
    refine (h x List.mem_cons_self).bind fun a ↦ ?_
    exact (ih fun y hy ↦ h y (List.mem_cons_of_mem x hy)).bind fun as ↦ sound_pure _

/-- Whichever argument fails first, the calls that count are those of its evaluation. -/
theorem sound_all {first : Nat} {runs : List (Run K α)} (h : ∀ x ∈ runs, Sound x) :
    Sound (Run.all first runs) := by
  rw [Run.all]
  split
  next x hx =>
    have hmem := List.mem_of_getElem? hx
    exact (h x (List.mem_of_mem_filter hmem)).bind fun a ↦ sound_pure _
  next => exact sound_inOrder h

theorem sound_callProperty (lang : Language K) (property : Property) (args : List (V K))
    (line : Nat) : Sound (callProperty lang property args line) := by
  rw [Sound, callProperty, answered_call_iff, List.forall_mem_singleton]
  exact Iff.rfl

end Sound

/-! ### The steps between the calls -/

section Steps

variable {v : V K} {pos : Pos} {line : Nat}

theorem answered_asLeaf : Answered (asLeaf v line) := by
  cases v <;> exact trivial

theorem answered_asNum {ctx : String} : Answered (asNum v ctx line) := by
  cases v <;> exact trivial

theorem answered_asStr {fn : String} {i : Nat} : Answered (asStr v fn i line) := by
  cases v <;> exact trivial

theorem answered_mapM {α : Type} {a : Option (V K)} {f : V K → Except Stop α}
    (h : ∀ v, Answered (f v)) : Answered (a.mapM f) := by
  cases a with
  | none => exact trivial
  | some v => exact (h v).bind fun _ _ ↦ trivial

theorem answered_lookupName {env : List (String × V K)} {id : String} :
    Answered (lookupName env id pos) := by
  rw [lookupName]
  split <;> exact trivial

theorem answered_operator {op : BinaryOp} {l r : K} : Answered (op.apply l r line) := by
  cases op with
  | div =>
    rw [BinaryOp.apply]
    split_ifs with h
    · exact trivial
    · rw [div_eq h]
      exact trivial
  | add => exact trivial
  | sub => exact trivial
  | mul => exact trivial

theorem answered_columnOf {name : String} : Answered (columnOf v name pos) := by
  cases v with
  | series r =>
    rw [columnOf]
    split_ifs <;> exact trivial
  | _ => exact trivial

theorem answered_elementAt {lang : Language K} {idx : K} : Answered (elementAt lang v idx pos) := by
  by_cases hint : idx = ⌊idx⌋
  · rw [elementAt.eq_def, if_neg (not_not_intro hint)]
    cases v with
    | col c =>
      dsimp only
      have hwhole (x : Int) : ((x : K) < 0 ∨ (c.values.length : K) ≤ x) ∨
          Answered (calculate (elem c.values (x : K))) := by
        by_cases hx : (x : K) < 0 ∨ (c.values.length : K) ≤ x
        · exact .inl hx
        rw [not_or, not_lt, not_le] at hx
        right
        have hnonneg : 0 ≤ x := Int.cast_nonneg_iff.mp hx.1
        have hcast : ((x.toNat : Nat) : K) = x := by
          rw [← Int.cast_natCast, Int.toNat_of_nonneg hnonneg]
        obtain ⟨y, hy⟩ := (ok_elem_iff (v := c.values) (x := (x : K))).mpr
          ⟨x.toNat, hcast.symm, by rw [← Nat.cast_lt (α := K), hcast]; exact hx.2⟩
        rw [hy]
        exact trivial
      have hat : (if idx < 0 then (c.values.length : K) + idx else idx) =
          ((if idx < 0 then (c.values.length : Int) + ⌊idx⌋ else ⌊idx⌋ : Int) : K) := by
        split_ifs
        · rw [Int.cast_add, Int.cast_natCast, ← hint]
        · exact hint
      rw [hat]
      generalize (if idx < 0 then (c.values.length : Int) + ⌊idx⌋ else ⌊idx⌋) = x
      by_cases h : (x : K) < 0 ∨ (c.values.length : K) ≤ x
      · rw [if_pos h]
        exact trivial
      · rw [if_neg h]
        exact (hwhole x).resolve_left h
    | _ => exact trivial
  · rw [elementAt.eq_def, if_pos hint]
    exact trivial

theorem answered_element {lang : Language K} {idx : V K} : Answered (element lang v idx pos) :=
  answered_asNum.bind fun _ _ ↦ answered_elementAt

theorem answered_panelSize {count : Nat} : Answered (panelSize count pos) := by
  rw [panelSize]
  split_ifs <;> exact trivial

theorem answered_fetchBars {deps : CalcDeps K} {barId : String} {assetClass : Option String}
    {opts : GetBarsOpts K} : Answered (fetchBars deps pos barId assetClass opts) := by
  rw [fetchBars]
  split
  · exact trivial
  · split_ifs <;> exact trivial

theorem answered_output {out : V K} : Answered (output out line) := by
  cases out <;> exact trivial

end Steps

/-! ### Expressions -/

section Expressions

variable (lang : Language K) (deps : CalcDeps K) (env : List (String × V K))

mutual

theorem sound_evalExpr : ∀ e : Expr K, Sound (evalExpr lang deps env e)
  | .num value _ => sound_pure (V.num value)
  | .str value _ => sound_pure (V.str value)
  | .name id pos => sound_of answered_lookupName
  | .unary operand pos => by
      rw [evalExpr]
      refine (sound_evalExpr operand).bind fun o ↦ ?_
      exact (sound_of answered_asNum).bind fun _ ↦ sound_pure _
  | .binary op left right pos => by
      rw [evalExpr]
      refine (sound_evalExpr left).bind fun l ↦ (sound_of answered_asNum).bind fun l ↦ ?_
      refine (sound_evalExpr right).bind fun r ↦ (sound_of answered_asNum).bind fun r ↦ ?_
      exact (sound_of answered_operator).bind fun _ ↦ sound_pure _
  | .attr obj name pos => by
      rw [evalExpr]
      exact (sound_evalExpr obj).bind fun obj ↦ sound_of answered_columnOf
  | .index obj index pos => by
      rw [evalExpr]
      refine (sound_evalExpr obj).bind fun obj ↦ (sound_evalExpr index).bind fun idx ↦ ?_
      exact (sound_of answered_element).bind fun _ ↦ sound_pure _
  | .list elements pos => by
      rw [evalExpr]
      refine (sound_of answered_panelSize).bind fun _ ↦ ?_
      exact (sound_evalElements elements).bind fun _ ↦ sound_pure _
  | .dict entries pos => by
      rw [evalExpr]
      refine (sound_of answered_panelSize).bind fun _ ↦ ?_
      exact (sound_evalEntries entries []).bind fun _ ↦ sound_pure _
  | .call callee args pos => by
      rw [evalExpr]
      by_cases hbars : callee = "bars"
      · rw [if_pos hbars]
        by_cases hpositional : args.positional < 2
        · rw [if_pos hpositional]
          exact sound_of trivial
        rw [if_neg hpositional]
        refine (sound_evalPositional args 0 (by omega)).bind fun barId ↦ ?_
        refine (sound_of answered_asStr).bind fun barId ↦ ?_
        refine (sound_evalPositional args 1 (by omega)).bind fun interval ↦ ?_
        refine (sound_of answered_asStr).bind fun interval ↦ ?_
        refine (sound_evalKeyword args "count").bind fun count ↦ ?_
        refine (sound_of (answered_mapM fun _ ↦ answered_asNum)).bind fun count ↦ ?_
        refine (sound_evalKeyword args "asOf").bind fun asOf ↦ ?_
        refine (sound_of (answered_mapM fun _ ↦ answered_asStr)).bind fun asOf ↦ ?_
        refine (sound_evalKeyword args "start").bind fun start ↦ ?_
        refine (sound_of (answered_mapM fun _ ↦ answered_asStr)).bind fun start ↦ ?_
        refine (sound_evalKeyword args "end").bind fun «end» ↦ ?_
        refine (sound_of (answered_mapM fun _ ↦ answered_asStr)).bind fun «end» ↦ ?_
        refine (sound_evalKeyword args "asset").bind fun asset ↦ ?_
        refine (sound_of (answered_mapM fun _ ↦ answered_asStr)).bind fun assetClass ↦ ?_
        exact sound_of answered_fetchBars
      · rw [if_neg hbars]
        split
        next => exact sound_of trivial
        next spec hspec =>
          split_ifs with hnamed
          · exact sound_of trivial
          · refine (sound_all (sound_evalArgs args)).bind fun args ↦ ?_
            exact sound_callProperty lang spec args pos.line

theorem sound_evalElements : ∀ items : Items K, Sound (evalElements lang deps env items)
  | .nil => sound_pure []
  | .cons _ value rest => by
      rw [evalElements]
      refine (sound_evalExpr value).bind fun v ↦ (sound_of answered_asLeaf).bind fun leaf ↦ ?_
      exact (sound_evalElements rest).bind fun _ ↦ sound_pure _

theorem sound_evalEntries : ∀ (items : Items K) (map : List (String × CalcValue K)),
    Sound (evalEntries lang deps env items map)
  | .nil, map => sound_pure map
  | .cons name value rest, map => by
      rw [evalEntries]
      refine (sound_evalExpr value).bind fun v ↦ (sound_of answered_asLeaf).bind fun leaf ↦ ?_
      exact sound_evalEntries rest _

theorem sound_evalArgs : ∀ items : Items K, ∀ x ∈ evalArgs lang deps env items, Sound x
  | .nil, x, hx => absurd hx List.not_mem_nil
  | .cons _ value rest, x, hx => by
      rw [evalArgs, List.mem_cons] at hx
      rcases hx with rfl | hx
      · exact sound_evalExpr value
      · exact sound_evalArgs rest x hx

theorem sound_evalPositional : ∀ (items : Items K) (i : Nat), i < items.positional →
    Sound (evalPositional lang deps env items i)
  | .nil, i, h => absurd h (Nat.not_lt_zero i)
  | .cons none value _, 0, _ => sound_evalExpr value
  | .cons none _ rest, i + 1, h => sound_evalPositional rest i (Nat.lt_of_succ_lt_succ h)
  | .cons (some _) _ rest, i, h => sound_evalPositional rest i h

theorem sound_evalKeyword : ∀ (items : Items K) (key : String),
    Sound (evalKeyword lang deps env items key)
  | .nil, key => sound_pure none
  | .cons name value rest, key => by
      rw [evalKeyword]
      split_ifs with h
      · exact (sound_evalExpr value).bind fun v ↦ sound_pure (some v)
      · exact sound_evalKeyword rest key

end

end Expressions

theorem sound_evalBindings (lang : Language K) (deps : CalcDeps K)
    (bindings : List (String × Expr K)) (env : List (String × V K)) :
    Sound (evalBindings lang deps bindings env) := by
  induction bindings generalizing env with
  | nil => exact sound_pure env
  | cons binding bindings ih =>
    exact (sound_evalExpr lang deps env binding.2).bind fun v ↦ ih (setKey env binding.1 v)

theorem sound_runOf (lang : Language K) (deps : CalcDeps K) (script : List Char) :
    Sound (runOf lang deps script) := by
  refine (sound_of (parse_finishes script)).bind fun program ↦ ?_
  refine (sound_evalBindings lang deps program.bindings []).bind fun env ↦ ?_
  exact (sound_evalExpr lang deps env program.result).bind fun out ↦ sound_of answered_output

/-- **The calculator answers** with a value or with a diagnostic exactly when each call of the
registry that the evaluation comes to meets the condition of its function. -/
theorem answers_iff (lang : Language K) (deps : CalcDeps K) (script : List Char) :
    ((∃ value, runScript lang deps script = .ok (.value value)) ∨
        ∃ d, runScript lang deps script = .ok (.error d)) ↔
      ∀ call ∈ (runOf lang deps script).calls, call.Meets := by
  refine Iff.trans ?_ (sound_runOf lang deps script)
  rw [runScript]
  rcases (runOf lang deps script).result with (d | fault | -) | value
  · exact iff_of_true (.inr ⟨d, rfl⟩) trivial
  · exact iff_of_false (by rintro (⟨_, h⟩ | ⟨_, h⟩) <;> cases h) id
  · exact iff_of_false (by rintro (⟨_, h⟩ | ⟨_, h⟩) <;> cases h) id
  · exact iff_of_true (.inl ⟨round lang value, rfl⟩) trivial

/-! ### A period of zero -/

def fractions : Language ℚ where
  sqrt x := x
  text x := toString x.num
  toFixed x := x

def oneBar : CalcDeps ℚ where
  getBars _ _ _ _ := .ok [⟨1, 1, 1, 1, none⟩]
  firstToFail _ := 0

def averageOf (period : String) : List Char :=
  ("sma(bars(\"a|b\",\"1d\").close," ++ period ++ ")").toList

def averageArgs (period : String) : List (V ℚ) :=
  [.col ⟨[1], List.cons_ne_nil _ _⟩, .num (numberOf period)]

theorem runOf_average {period : String} (h : period = "0" ∨ period = "1") :
    runOf fractions oneBar (averageOf period) =
      callProperty fractions (.own .sma) (averageArgs period) 1 >>= fun v ↦ .of (output v 1) := by
  have htokens : tokenize (averageOf period) = .ok
      ([⟨.name, "sma", 1, 1⟩, ⟨.lparen, "(", 1, 4⟩, ⟨.name, "bars", 1, 5⟩, ⟨.lparen, "(", 1, 9⟩,
        ⟨.str, "a|b", 1, 10⟩, ⟨.comma, ",", 1, 15⟩, ⟨.str, "1d", 1, 16⟩, ⟨.rparen, ")", 1, 20⟩,
        ⟨.dot, ".", 1, 21⟩, ⟨.name, "close", 1, 22⟩, ⟨.comma, ",", 1, 27⟩, ⟨.num, period, 1, 28⟩,
        ⟨.rparen, ")", 1, 29⟩], ⟨.eof, "", 1, 30⟩) := by
    rcases h with rfl | rfl <;> decide
  have hparse : (parse (averageOf period) : Except Stop (Program ℚ)) = .ok
      ⟨[], .call "sma" (.cons none (.attr (.call "bars" (.cons none (.str "a|b" ⟨1, 10⟩)
        (.cons none (.str "1d" ⟨1, 16⟩) .nil)) ⟨1, 5⟩) "close" ⟨1, 22⟩)
        (.cons none (.num (numberOf period) ⟨1, 28⟩) .nil)) ⟨1, 1⟩⟩ := by
    rw [parse, htokens]
    rfl
  rw [runOf, hparse]
  rfl

theorem numberOf_zero : numberOf "0" = (0 : ℚ) := by
  simp [numberOf, natOf]

theorem numberOf_one : numberOf "1" = (1 : ℚ) := by
  simp [numberOf, natOf]

/-- **A period of zero is divided by.** -/
theorem average_of_zero :
    ¬ ((∃ value, runScript fractions oneBar (averageOf "0") = .ok (.value value)) ∨
      ∃ d, runScript fractions oneBar (averageOf "0") = .ok (.error d)) := by
  have hcall : Property.call fractions (.own .sma) (averageArgs "0") 1 =
      .error (.exception .noNumber) := by
    rw [averageArgs, numberOf_zero]
    rfl
  have hrun : runScript fractions oneBar (averageOf "0") = .error (.exception .noNumber) := by
    rw [runScript, runOf_average (.inl rfl), callProperty, hcall]
    rfl
  rw [hrun]
  rintro (⟨_, h⟩ | ⟨_, h⟩) <;> cases h

/-- For a period of one there is an answer. -/
theorem average_of_one :
    (∃ value, runScript fractions oneBar (averageOf "1") = .ok (.value value)) ∨
      ∃ d, runScript fractions oneBar (averageOf "1") = .ok (.error d) := by
  refine (answers_iff fractions oneBar (averageOf "1")).mpr ?_
  have hcall : Property.call fractions (.own .sma) (averageArgs "1") 1 =
      .ok (.num (total (sliceFrom [1] (-1)) / 1)) := by
    rw [averageArgs, numberOf_one]
    rfl
  rw [runOf_average (.inr rfl), callProperty, hcall]
  intro call hmem
  obtain rfl : call = ⟨.own .sma, averageArgs "1"⟩ := List.mem_singleton.mp hmem
  intro c p _ _ hp _
  cases hp
  rw [numberOf_one]
  exact one_ne_zero

end OpenAlice.Analysis
