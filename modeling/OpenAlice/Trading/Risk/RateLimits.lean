import Mathlib.Data.List.Basic
import OpenAlice.Trading.Risk.Cases

/-!
# The rate limits of automatic orders

A check counts the slots of the list before it adds its own, so that the list never
grows beyond the limits.  The list is wiped when a check finds a new day: what it
held of the last hour is not counted any more, and a slot consumed behind midnight
by a check that began before it goes with the old day.  `rolloverStep` and
`sameDayStep` are the conditions that neither happens.
-/

namespace OpenAlice.Trading.Risk

open OpenAlice.Run

def consumed (history : List Note) : List Timestamp :=
  history.filterMap fun
    | .admitted now => some now
    | _ => none

@[simp] theorem consumed_append (h h' : List Note) :
    consumed (h ++ h') = consumed h ++ consumed h' := List.filterMap_append

/-- The slots of an hour that begins at `t`. -/
def inHour (t : Timestamp) (slots : List Timestamp) : List Timestamp :=
  slots.filter fun at₀ ↦ t ≤ at₀ ∧ at₀ ≤ t + hour

def onDay (day : Nat) (slots : List Timestamp) : List Timestamp :=
  slots.filter fun at₀ ↦ dayOf at₀ = day

/-- No hour and no day has more orders than its limit. -/
structure WithinLimits (cfg : RiskConfig) (history : List Note) : Prop where
  hourly : ∀ t, (inHour t (consumed history)).length ≤ cfg.policy.maxOrdersPerHour
  daily : ∀ day, (onDay day (consumed history)).length ≤ cfg.policy.maxOrdersPerDay

/-! ## The conditions on the steps -/

def checkStep : RiskEvent → Prop
  | .run _ (.call (.check _)) | .run _ (.resume ..) => True
  | _ => False

/-- No slot was consumed in the hour before a check finds a new day. -/
def rolloverStep (W : RiskWorld) : RiskEvent → Prop
  | .run now (.call (.check _)) => W.shared.state.day ≠ dayOf now →
      ∀ at₀ ∈ W.shared.state.orderTimestamps, at₀ + hour < now
  | _ => True

/-- A check gets its answers from the broker on the day of the controller's state. -/
def sameDayStep (W : RiskWorld) : RiskEvent → Prop
  | .run now (.resume i a) => ∀ contract order account positions quote,
      W.tasks[i]? = some (.reading contract order) → a = .market account positions quote →
        W.shared.state.day = dayOf now
  | _ => True

def limitedStep (W : RiskWorld) (e : RiskEvent) : Prop :=
  checkStep e ∧ rolloverStep W e ∧ sameDayStep W e

/-! ## What the list of slots stands for -/

variable {cfg : RiskConfig} {W W' : RiskWorld} {S S' : Shared}

/-- The slots consumed are those of the list and older ones, of earlier days and
more than an hour ago. -/
structure Counted (cfg : RiskConfig) (S : Shared) : Prop where
  slots : ∃ old, consumed S.history = old ++ S.state.orderTimestamps ∧
    ∀ at₀ ∈ old, at₀ + hour < S.clock ∧ dayOf at₀ < S.state.day
  today : ∀ at₀ ∈ S.state.orderTimestamps, dayOf at₀ = S.state.day
  day : S.state.day ≤ dayOf S.clock
  limits : WithinLimits cfg S.history

theorem counted_built (now : Timestamp) : Counted cfg (RiskWorld.built now).shared := by
  constructor
  · exact ⟨[], rfl, by simp⟩
  · simp [RiskWorld.built, newState]
  · exact Nat.le_refl _
  · constructor <;> simp [RiskWorld.built, consumed, inHour, onDay]

theorem Counted.tick (h : Counted cfg S) {now : Timestamp} (hnow : S.clock ≤ now) :
    Counted cfg { S with clock := now } := by
  obtain ⟨old, hslots, hold⟩ := h.slots
  exact ⟨⟨old, hslots, fun at₀ ha ↦ ⟨(hold at₀ ha).1.trans_le hnow, (hold at₀ ha).2⟩⟩, h.today,
    h.day.trans (dayOf_le hnow), h.limits⟩

theorem Counted.keep (h : Counted cfg S) (hclock : S'.clock = S.clock)
    (hhistory : consumed S'.history = consumed S.history)
    (hslots : S'.state.orderTimestamps = S.state.orderTimestamps)
    (hday : S'.state.day = S.state.day) :
    Counted cfg S' := by
  refine ⟨?_, ?_, ?_, ⟨?_, ?_⟩⟩
  · rw [hhistory, hslots, hclock, hday]
    exact h.slots
  · rw [hslots, hday]
    exact h.today
  · rw [hday, hclock]
    exact h.day
  · rw [hhistory]
    exact h.limits.hourly
  · rw [hhistory]
    exact h.limits.daily

theorem Counted.roll (h : Counted cfg S) (hday : S.state.day ≠ dayOf S.clock)
    (hold : ∀ at₀ ∈ S.state.orderTimestamps, at₀ + hour < S.clock) :
    Counted cfg { S with state := newDay S } := by
  have hlater : S.state.day < dayOf S.clock := Nat.lt_of_le_of_ne h.day hday
  obtain ⟨old, hslots, holder⟩ := h.slots
  refine ⟨⟨old ++ S.state.orderTimestamps, by simp [newDay, hslots], ?_⟩, by simp [newDay],
    Nat.le_refl _, h.limits⟩
  intro at₀ ha
  rcases List.mem_append.mp ha with ha | ha
  · exact ⟨(holder at₀ ha).1, (holder at₀ ha).2.trans hlater⟩
  · exact ⟨hold at₀ ha, (h.today at₀ ha).trans_lt hlater⟩

theorem Counted.inHour_le (h : Counted cfg S) {t : Timestamp} (ht : S.clock ≤ t + hour) :
    (inHour t (consumed S.history)).length ≤ (lastHour S.clock S.state.orderTimestamps).length := by
  obtain ⟨old, hslots, hold⟩ := h.slots
  have hnone : inHour t old = [] := by
    refine List.filter_eq_nil_iff.mpr fun at₀ ha ↦ ?_
    have hlong := (hold at₀ ha).1
    simp only [decide_eq_true_eq, not_and]
    intro hfrom
    exact absurd ((hlong.trans_le ht).trans_le (Nat.add_le_add_right hfrom hour)) (lt_irrefl _)
  have hsub : (inHour t S.state.orderTimestamps).Sublist
      (lastHour S.clock S.state.orderTimestamps) := by
    refine List.monotone_filter_right _ fun at₀ ha ↦ ?_
    simp only [decide_eq_true_eq] at ha ⊢
    exact ht.trans (Nat.add_le_add_right ha.1 hour)
  rw [hslots, inHour, List.filter_append]
  rw [inHour] at hnone
  rw [hnone, List.nil_append]
  exact hsub.length_le

theorem Counted.onDay_le (h : Counted cfg S) :
    (onDay S.state.day (consumed S.history)).length ≤ S.state.orderTimestamps.length := by
  obtain ⟨old, hslots, hold⟩ := h.slots
  have hnone : old.filter (fun at₀ ↦ dayOf at₀ = S.state.day) = [] := by
    refine List.filter_eq_nil_iff.mpr fun at₀ ha ↦ ?_
    simp only [decide_eq_true_eq]
    exact (hold at₀ ha).2.ne
  rw [hslots, onDay, List.filter_append, hnone, List.nil_append]
  exact List.length_filter_le _ _

theorem Counted.consume (h : Counted cfg S) (hday : S.state.day = dayOf S.clock)
    (hhour : (lastHour S.clock S.state.orderTimestamps).length < cfg.policy.maxOrdersPerHour)
    (hcount : S.state.orderTimestamps.length < cfg.policy.maxOrdersPerDay)
    (hclock : S'.clock = S.clock) (hhistory : consumed S'.history = consumed S.history ++ [S.clock])
    (hslots : S'.state.orderTimestamps = S.state.orderTimestamps ++ [S.clock])
    (hsame : S'.state.day = S.state.day) : Counted cfg S' := by
  refine ⟨?_, ?_, ?_, ⟨?_, ?_⟩⟩
  · obtain ⟨old, holds, hold⟩ := h.slots
    refine ⟨old, ?_, ?_⟩
    · rw [hhistory, hslots, holds, List.append_assoc]
    · rw [hclock, hsame]
      exact hold
  · rw [hslots, hsame]
    intro at₀ ha
    rcases List.mem_append.mp ha with ha | ha
    · exact h.today at₀ ha
    · rw [List.mem_singleton.mp ha, hday]
  · rw [hsame, hclock]
    exact h.day
  · intro t
    rw [hhistory, inHour, List.filter_append]
    by_cases ht : t ≤ S.clock ∧ S.clock ≤ t + hour
    · have hle := h.inHour_le ht.2
      rw [inHour] at hle
      simp only [List.length_append, List.filter_cons, decide_eq_true ht, if_true, List.filter_nil,
        List.length_singleton]
      omega
    · have hle := h.limits.hourly t
      rw [inHour] at hle
      simpa [ht] using hle
  · intro d
    rw [hhistory, onDay, List.filter_append]
    by_cases hd : dayOf S.clock = d
    · have hle := h.onDay_le
      rw [onDay, hday, hd] at hle
      simp only [List.length_append, List.filter_cons, decide_eq_true hd, if_true, List.filter_nil,
        List.length_singleton]
      omega
    · have hle := h.limits.daily d
      rw [onDay] at hle
      simpa [hd] using hle

/-! ## Every step -/

/-- No `load` is under way. -/
def Settled (W : RiskWorld) : Prop := ∀ i : Nat, W.tasks[i]? ≠ some .loading

theorem Counted.resumes (h : Counted cfg S) {k k' : RiskTask} {a : RiskAnswer} (hk : k ≠ .loading)
    (hday : ∀ contract order account positions quote, k = .reading contract order →
      a = .market account positions quote → S.state.day = dayOf S.clock)
    (hr : Resumes cfg S k a S' k') : Counted cfg S' ∧ k' ≠ .loading := by
  cases hr with
  | loads => exact absurd rfl hk
  | passes hp => exact ⟨h, by rintro rfl; cases hp⟩
  | passesLater hp => exact ⟨h.keep rfl rfl rfl rfl, by rintro rfl; cases hp⟩
  | denies hnotes =>
    refine ⟨h.keep rfl ?_ rfl rfl, by simp⟩
    rcases hnotes with rfl | ⟨rfl, _⟩ <;> simp [consumed]
  | admits hhour hcount =>
    exact ⟨h.consume (hday _ _ _ _ _ rfl rfl) hhour hcount rfl (by simp [consumed]) rfl rfl, by simp⟩
  | makes => exact ⟨h, by simp⟩
  | resumes => exact ⟨h.keep rfl (by simp [consumed]) rfl rfl, by simp⟩
  | writes => exact ⟨h.keep rfl rfl rfl rfl, by simp⟩
  | fails _ => exact ⟨h, by simp⟩

theorem step_counted {e : RiskEvent} (h : Counted cfg W.shared ∧ Settled W) (hok : limitedStep W e)
    (hst : riskStep cfg W e = some W') : Counted cfg W'.shared ∧ Settled W' := by
  obtain ⟨hcounted, hsettled⟩ := h
  obtain ⟨hcheck, hroll, hsame⟩ := hok
  cases e with
  | restart now => exact hcheck.elim
  | run now e =>
    simp only [riskStep] at hst
    split at hst
    · cases hst
    rename_i hnow
    have htick := hcounted.tick (Nat.le_of_not_lt hnow)
    cases e with
    | call c =>
      cases Prog.step_call hst
      have hs := opens_spec cfg (tick W now).shared W.tasks.length c
      simp only [riskProg]
      have hlen : (tick W now).tasks = W.tasks := rfl
      rw [hlen]
      generalize start cfg (tick W now).shared W.tasks.length c = q at hs ⊢
      obtain ⟨S', k'⟩ := q
      simp only at hs
      have hnew : k' ≠ .loading → Settled ⟨S', W.tasks ++ [k']⟩ := by
        intro hk' i hi
        rcases World.task_append hi with hi | ⟨_, he⟩
        · exact hsettled i hi
        · exact hk' he.symm
      cases hs with
      | rolls hday => exact ⟨htick.roll hday (hroll hday), hnew (by simp)⟩
      | waits hday => exact ⟨htick, hnew (by simp)⟩
      | pauses hc =>
        cases c with
        | check op => exact hc.elim
        | _ => exact hcheck.elim
      | resets => exact hcheck.elim
      | counts _ hc =>
        cases c with
        | check op => exact absurd rfl (hc op)
        | _ => exact hcheck.elim
    | resume i a =>
      obtain ⟨k, S', k', hi, hr, rfl⟩ := Prog.step_resume hst
      have hk : k ≠ .loading := by
        rintro rfl
        exact hsettled i hi
      obtain ⟨hcounted', hk'⟩ := htick.resumes hk
        (fun contract order account positions quote hread ha ↦
          hsame contract order account positions quote (hread ▸ hi) ha)
        (resumes_spec (i := i) hr)
      refine ⟨hcounted', ?_⟩
      intro j hj
      rcases World.task_set hj with ⟨_, he⟩ | ⟨_, hj⟩
      · exact hk' he.symm
      · exact hsettled j hj

/-- **The rate limits hold over real time**, in every run of checks in which no slot
was consumed in the hour before the day rolls over, and every check gets its answers
from the broker on the day of the state. -/
theorem rate_limits {now : Timestamp}
    (h : Reach (riskStep cfg) limitedStep (RiskWorld.built now) W) :
    WithinLimits cfg W.shared.history := by
  have hcounted := h.invariant (I := fun V ↦ Counted cfg V.shared ∧ Settled V)
    ⟨counted_built now, by simp [Settled, RiskWorld.built]⟩ fun V e V' hV hok hst ↦
      step_counted hV hok hst
  exact hcounted.1.limits

/-! ## Runs to evaluate -/

def sampleConfig : RiskConfig where
  policy :=
    { maxOrderNotional := 1000, maxSymbolExposurePercent := 50, maxDailyLoss := 100
      maxOrdersPerHour := 1, maxOrdersPerDay := 5, maxSlippageBps := 100, maxQuoteAgeMs := 5000
      allowedAliceIds := ["acct|AAPL"], pauseAfterConsecutiveErrors := 3 }
  round := id
  getNativeKey contract := contract.symbol

def sampleContract : Contract := { aliceId := some "acct|AAPL", symbol := "AAPL" }

def sampleOrder : Order where
  action := some "BUY"
  orderType := some "LMT"
  totalQuantity := some 1
  lmtPrice := some 100

def market (quotedAt : Int) : RiskAnswer :=
  .market { netLiquidation := 100000 } [] ⟨some quotedAt, some 99, some 100, some 100⟩

/-- Check number `i`, of a day that has begun. -/
def checked (i : Nat) (now : Timestamp) : List RiskEvent :=
  [.run now (.call (.check (.placeOrder sampleContract sampleOrder none))),
    .run now (.resume i .resumed), .run now (.resume i (market now))]

/-- Check number `i`, the first of its day. -/
def checkedFirst (i : Nat) (now : Timestamp) : List RiskEvent :=
  [.run now (.call (.check (.placeOrder sampleContract sampleOrder none))),
    .run now (.resume i .made), .run now (.resume i .wrote), .run now (.resume i (market now))]

def sampleAfter (W : RiskWorld) (events : List RiskEvent) : RiskWorld :=
  after (riskStep sampleConfig) W events

theorem limitedStep_today {now : Timestamp} {e : Event RiskCall RiskAnswer}
    (hcheck : checkStep (.run now e)) (hday : W.shared.state.day = dayOf now) :
    limitedStep W (.run now e) := by
  refine ⟨hcheck, ?_, ?_⟩
  · cases e with
    | call c =>
      cases c with
      | check op => exact fun hne ↦ absurd hday hne
      | _ => exact hcheck.elim
    | resume i a => trivial
  · cases e with
    | call c => trivial
    | resume i a => exact fun _ _ _ _ _ _ _ ↦ hday

def hourApart : List RiskEvent := checked 0 1000 ++ checked 1 3601001

/-- Two orders more than an hour apart are within the limits. -/
theorem rate_limits_hourApart : ∃ W : RiskWorld,
    Reach (riskStep sampleConfig) limitedStep (RiskWorld.built 0) W ∧
      consumed W.shared.history = [1000, 3601001] ∧ WithinLimits sampleConfig W.shared.history := by
  have hr : Reach (riskStep sampleConfig) limitedStep (RiskWorld.built 0)
      (sampleAfter (RiskWorld.built 0) hourApart) := by
    refine .of_after hourApart (by decide +kernel) ?_
    intro n e he
    match n with
    | 0 | 1 | 2 | 3 | 4 | 5 =>
      cases he
      exact limitedStep_today trivial (by decide +kernel)
    | n + 6 => cases he
  exact ⟨_, hr, by decide +kernel, rate_limits hr⟩

def acrossMidnight : List RiskEvent := checked 0 86399999 ++ checkedFirst 1 86400000

/-- The order before midnight is forgotten behind it. -/
theorem not_rate_limits : ¬ ∀ (cfg : RiskConfig) (now : Timestamp) (W : RiskWorld),
    Reach (riskStep cfg) (fun _ e ↦ checkStep e) (RiskWorld.built now) W →
      WithinLimits cfg W.shared.history := by
  intro h
  have hr : Reach (riskStep sampleConfig) (fun _ e ↦ checkStep e) (RiskWorld.built 0)
      (sampleAfter (RiskWorld.built 0) acrossMidnight) := by
    refine .of_after acrossMidnight (by decide +kernel) ?_
    intro n e he
    match n with
    | 0 | 1 | 2 | 3 | 4 | 5 | 6 =>
      cases he
      exact trivial
    | n + 7 => cases he
  have hhour := (h sampleConfig 0 _ hr).hourly 86399999
  revert hhour
  decide +kernel

end OpenAlice.Trading.Risk
