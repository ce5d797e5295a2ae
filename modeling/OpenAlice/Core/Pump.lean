import OpenAlice.Run.Basic

/-!
# The pump

`createPump` of `src/core/pump.ts`: a chain of timers that calls `onTick` every interval, and later
after failures.  The timers of the host and the calls of `onTick` that have not settled are part of
the state, next to the variables of the closure.  A call of `onTick` settles at a later event, or
throws before it returns a promise.

The amended law is about calls that return.  When `onTick` throws, the `finally` of the run comes
before `thisRun` has a value; it throws in turn, and nothing arms the next timer.
-/

namespace OpenAlice.Core

open Run

/-! ## The closure -/

/-- `PumpOpts`, with the interval that `every` is parsed to. -/
structure PumpOpts where
  intervalMs : Nat
  enabled : Bool := true
  serial : Bool := true
  errorBackoffMs : List Nat := [30000, 60000, 300000, 900000, 3600000]

/-- A timer of the host.  Its delay is `undefined` for a back-off list that is empty. -/
structure ArmedTimer where
  id : Nat
  delay : Option Nat
deriving DecidableEq

/-- The variables of the pump, the armed timers, and the calls of `onTick` under way. -/
structure Pump where
  enabled : Bool
  stopped : Bool := false
  started : Bool := false
  processing : Bool := false
  consecutiveErrors : Nat := 0
  timer : Option Nat := none
  inFlight : Option Nat := none
  armed : List ArmedTimer := []
  running : List Nat := []
  nextTimer : Nat := 0
  nextRun : Nat := 0

variable (opts : PumpOpts)

def delayAfter (consecutiveErrors : Nat) : Option Nat :=
  if consecutiveErrors = 0 then some opts.intervalMs
  else opts.errorBackoffMs[min (consecutiveErrors - 1) (opts.errorBackoffMs.length - 1)]?

namespace Pump

def nextDelayMs (s : Pump) : Option Nat := delayAfter opts s.consecutiveErrors

def armNext (s : Pump) : Pump :=
  if s.stopped || !s.enabled then s
  else if s.timer.isSome then s
  else
    { s with
      timer := some s.nextTimer
      armed := s.armed ++ [⟨s.nextTimer, s.nextDelayMs opts⟩]
      nextTimer := s.nextTimer + 1 }

def clearTimer (s : Pump) : Pump :=
  match s.timer with
  | none => s
  | some id => { s with timer := none, armed := s.armed.filter (·.id ≠ id) }

/-- `tick`, up to the suspension of its run. -/
def tick (throws : Bool) (s : Pump) : Pump :=
  if s.stopped then s
  else if opts.serial && s.processing then s
  else if throws then
    -- The error is counted; the `finally` then throws at `inFlight === thisRun`.
    { s with
      processing := false
      consecutiveErrors := s.consecutiveErrors + 1
      inFlight := some s.nextRun
      nextRun := s.nextRun + 1 }
  else
    { s with
      processing := true
      inFlight := some s.nextRun
      running := s.running ++ [s.nextRun]
      nextRun := s.nextRun + 1 }

def settle (run : Nat) (ok : Bool) (s : Pump) : Pump :=
  armNext opts { s with
    consecutiveErrors := if ok then 0 else s.consecutiveErrors + 1
    processing := false
    inFlight := if s.inFlight = some run then none else s.inFlight
    running := s.running.filter (· ≠ run) }

end Pump

/-- What happens to a pump.  Where `onTick` may be called, it comes with whether it throws before it
returns; a call that has returned settles with success or failure. -/
inductive PumpEvent where
  | start
  | stop
  | setEnabled (next : Bool)
  | runNow (throws : Bool)
  | expire (id : Nat) (throws : Bool)
  | settle (run : Nat) (ok : Bool)

def createPump : Pump := { enabled := opts.enabled }

def pumpStep (s : Pump) : PumpEvent → Option Pump
  | .start =>
    some (if s.started || s.stopped then s else ({ s with started := true } : Pump).armNext opts)
  | .stop => some ({ s with stopped := true } : Pump).clearTimer
  | .setEnabled next =>
    some (if s.stopped || s.enabled = next then s
      else if next then ({ s with enabled := true } : Pump).armNext opts
      else ({ s with enabled := false } : Pump).clearTimer)
  | .runNow throws =>
    some (if s.stopped || s.processing && s.inFlight.isSome then s else s.tick opts throws)
  | .expire id throws =>
    if s.armed.any (·.id = id) then
      some (({ s with timer := none, armed := s.armed.filter (·.id ≠ id) } : Pump).tick opts throws)
    else none
  | .settle run ok => if run ∈ s.running then some (s.settle opts run ok) else none

/-! ## What should hold -/

/-- `onTick` throws before it returns. -/
def PumpEvent.throws : PumpEvent → Bool
  | .runNow throws | .expire _ throws => throws
  | _ => false

def countFailure (failures : Nat) : PumpEvent → Nat
  | .settle _ true => 0
  | .settle _ false => failures + 1
  | _ => failures

def failuresIn (events : List PumpEvent) : Nat := events.foldl countFailure 0

/-- The event turns the pump on, or calls `onTick` out of schedule. -/
def PumpEvent.outside : PumpEvent → Bool
  | .setEnabled true | .runNow _ => true
  | _ => false

def ArmedBy (timer : ArmedTimer) (events : List PumpEvent) : Prop :=
  ∃ before event s s', events = before ++ [event] ∧
    exec (pumpStep opts) (createPump opts) before = some s ∧ pumpStep opts s event = some s' ∧
      timer ∉ s.armed ∧ timer ∈ s'.armed ∧ timer.delay = delayAfter opts (failuresIn events)

/-- **A pump neither stalls nor double-fires.** -/
structure PumpSound (events : List PumpEvent) (s : Pump) : Prop where
  /-- One call of `onTick` is under way at most. -/
  single : s.running.length ≤ 1
  /-- A pump that is on has a timer, or a call under way. -/
  live : s.started = true → s.enabled = true → s.stopped = false → s.armed ≠ [] ∨ s.running ≠ []
  oneTimer : s.armed.length ≤ 1
  /-- None is after `stop`. -/
  silent : s.stopped = true → s.armed = []
  /-- None is before `start`, unless the pump was turned on or run by hand. -/
  waiting : s.started = false → s.armed ≠ [] → ∃ event ∈ events, event.outside = true
  /-- A timer has the delay for the failures in a row up to its arming. -/
  delay : ∀ timer ∈ s.armed, ∃ before after, events = before ++ after ∧ ArmedBy opts timer before

/-! ## The invariant -/

inductive Timers : Option Nat → List ArmedTimer → Prop
  | unarmed : Timers none []
  | armed (timer : ArmedTimer) : Timers (some timer.id) [timer]

/-- The call that is under way is the one in flight. -/
inductive Runs : Bool → Option Nat → List Nat → Prop
  | idle (inFlight : Option Nat) : Runs false inFlight []
  | busy (run : Nat) : Runs true (some run) [run]

structure PumpInv (events : List PumpEvent) (s : Pump) : Prop where
  timers : Timers s.timer s.armed
  runs : Runs s.processing s.inFlight s.running
  live : s.started = true → s.enabled = true → s.stopped = false → s.armed ≠ [] ∨ s.running ≠ []
  silent : s.stopped = true → s.timer = none
  errors : s.consecutiveErrors = failuresIn events
  waiting : s.started = false → s.armed ≠ [] ∨ s.running ≠ [] →
    ∃ event ∈ events, event.outside = true
  delay : ∀ timer ∈ s.armed, ∃ before after, events = before ++ after ∧ ArmedBy opts timer before

variable {opts} {s m : Pump} {events : List PumpEvent} {event : PumpEvent}

theorem failuresIn_concat : failuresIn (events ++ [event]) = countFailure
    (failuresIn events) event := by
  rw [failuresIn, List.foldl_append]
  rfl

theorem delay_mono {timer : ArmedTimer}
    (h : ∃ before after, events = before ++ after ∧ ArmedBy opts timer before) :
    ∃ before after, events ++ [event] = before ++ after ∧ ArmedBy opts timer before := by
  obtain ⟨before, after, rfl, harmed⟩ := h
  exact ⟨before, after ++ [event], List.append_assoc _ _ _, harmed⟩

theorem outside_mono (h : ∃ event ∈ events, event.outside = true) :
    ∃ event' ∈ events ++ [event], event'.outside = true := by
  obtain ⟨event', hmem, houtside⟩ := h
  exact ⟨event', List.mem_append_left _ hmem, houtside⟩

theorem outside_last (h : event.outside = true) :
    ∃ event' ∈ events ++ [event], event'.outside = true :=
  ⟨event, List.mem_append_right _ (List.mem_singleton_self _), h⟩

variable {armed : List ArmedTimer}

theorem Timers.armed_eq_nil (h : Timers none armed) : armed = [] := by
  cases h
  rfl

theorem Timers.nil_of {timer : Option Nat} (h : Timers timer armed)
    (hnone : timer = none) : armed = [] := by
  subst hnone
  exact h.armed_eq_nil

theorem Timers.length_le {timer : Option Nat} (h : Timers timer armed) : armed.length ≤ 1 := by
  cases h with
  | unarmed => exact Nat.zero_le 1
  | armed timer => exact Nat.le_refl 1

theorem Timers.of_any {timer : Option Nat} {p : ArmedTimer → Bool}
    (h : Timers timer armed) (hany : armed.any p = true) :
    ∃ t : ArmedTimer, timer = some t.id ∧ armed = [t] := by
  cases h with
  | unarmed => cases hany
  | armed t => exact ⟨t, rfl, rfl⟩

section Runs

variable {processing : Bool} {inFlight : Option Nat} {running : List Nat}

theorem Runs.length_le (h : Runs processing inFlight running) : running.length ≤ 1 := by
  cases h with
  | idle => exact Nat.zero_le 1
  | busy => exact Nat.le_refl 1

theorem Runs.ne_nil (h : Runs processing inFlight running) (hbusy : processing = true) :
    running ≠ [] := by
  cases h with
  | idle => cases hbusy
  | busy run => exact List.cons_ne_nil _ _

theorem Runs.idle_of (h : Runs processing inFlight running)
    (hidle : (processing && inFlight.isSome) = false) : processing = false ∧ running = [] := by
  cases h with
  | idle => exact ⟨rfl, rfl⟩
  | busy => cases hidle

theorem Runs.filter_of_mem {run : Nat} (h : Runs processing inFlight running)
    (hmem : run ∈ running) : running.filter (· ≠ run) = [] := by
  cases h with
  | idle => cases hmem
  | busy run' =>
    obtain rfl := List.mem_singleton.mp hmem
    rw [List.filter_cons_of_neg (by simp), List.filter_nil]

end Runs

theorem clearTimer_eq (h : Timers s.timer s.armed) :
    s.clearTimer = { s with timer := none, armed := [] } := by
  obtain ⟨enabled, stopped, started, processing, errors, timer, inFlight, armed, running, _, _⟩ := s
  cases h with
  | unarmed => rfl
  | armed timer =>
    rw [Pump.clearTimer]
    simp only [List.filter_cons_of_neg, List.filter_nil, ne_eq, not_true_eq_false, decide_false,
      Bool.false_eq_true, not_false_eq_true]

/-- What `armNext` does. -/
inductive Arms (opts : PumpOpts) (s : Pump) : Pump → Prop
  | kept (h : s.stopped = true ∨ s.enabled = false ∨ s.timer ≠ none) : Arms opts s s
  | armed (hstopped : s.stopped = false) (henabled : s.enabled = true) (htimer : s.timer = none) :
      Arms opts s { s with
        timer := some s.nextTimer
        armed := s.armed ++ [⟨s.nextTimer, s.nextDelayMs opts⟩]
        nextTimer := s.nextTimer + 1 }

theorem armNext_arms (s : Pump) : Arms opts s (s.armNext opts) := by
  rw [Pump.armNext]
  split_ifs with hoff htimer
  · rw [Bool.or_eq_true, Bool.not_eq_true'] at hoff
    exact .kept (hoff.imp_right .inl)
  · exact .kept (.inr (.inr fun hnone ↦ by rw [hnone] at htimer; cases htimer))
  · rw [Bool.or_eq_true, Bool.not_eq_true', not_or, Bool.not_eq_true, Bool.not_eq_false] at hoff
    exact .armed hoff.1 hoff.2 (Option.not_isSome_iff_eq_none.mp htimer)

/-- A step that ends with `armNext`. -/
theorem PumpInv.arm (hexec : exec (pumpStep opts) (createPump opts) events = some s)
    (h : PumpInv opts events s) (hstep : pumpStep opts s event = some (m.armNext opts))
    (htimer : m.timer = s.timer) (harmed : m.armed = s.armed)
    (hruns : Runs m.processing m.inFlight m.running)
    (hsilent : m.stopped = true → m.timer = none)
    (herrors : m.consecutiveErrors = failuresIn (events ++ [event]))
    (hwaiting : m.started = false → ∃ event' ∈ events ++ [event], event'.outside = true) :
    PumpInv opts (events ++ [event]) (m.armNext opts) := by
  have htimers : Timers m.timer m.armed := htimer.symm ▸ harmed.symm ▸ h.timers
  have hdelay : ∀ timer ∈ m.armed, ∃ before after, events ++ [event] = before ++ after ∧
      ArmedBy opts timer before := fun timer hmem ↦ delay_mono (h.delay timer (harmed ▸ hmem))
  have harms : Arms opts m (m.armNext opts) := armNext_arms m
  generalize hnext : m.armNext opts = next at harms hstep ⊢
  cases harms with
  | kept hkept =>
    refine ⟨htimers, hruns, fun _ henabled hstopped ↦ ?_, hsilent, herrors,
      fun hstarted _ ↦ hwaiting hstarted, hdelay⟩
    rcases hkept with hkept | hkept | hkept
    · rw [hstopped] at hkept
      cases hkept
    · rw [henabled] at hkept
      cases hkept
    · refine .inl fun hnil ↦ hkept ?_
      rw [hnil] at htimers
      generalize m.timer = timer at htimers
      cases htimers
      rfl
  | armed hstopped henabled hnone =>
    have hnil : m.armed = [] := Timers.armed_eq_nil (hnone ▸ htimers)
    refine ⟨?_, hruns, fun _ _ _ ↦ .inl (by simp), fun hstop ↦ ?_, herrors,
      fun hstarted _ ↦ hwaiting hstarted, ?_⟩
    · rw [hnil]
      exact Timers.armed ⟨m.nextTimer, m.nextDelayMs opts⟩
    · rw [hstopped] at hstop
      cases hstop
    · intro timer hmem
      rw [hnil, List.nil_append, List.mem_singleton] at hmem
      subst hmem
      refine ⟨events ++ [event], [], (List.append_nil _).symm, events, event, s, _, rfl, hexec,
        hstep, ?_, ?_, ?_⟩
      · rw [← harmed, hnil]
        exact List.not_mem_nil
      · exact List.mem_append_right _ (List.mem_singleton_self _)
      · rw [Pump.nextDelayMs, herrors]

theorem PumpInv.keep (h : PumpInv opts events s)
    (hsub : ∀ timer ∈ m.armed, timer ∈ s.armed) (htimers : Timers m.timer m.armed)
    (hruns : Runs m.processing m.inFlight m.running)
    (hlive : m.started = true → m.enabled = true → m.stopped = false →
      m.armed ≠ [] ∨ m.running ≠ [])
    (hsilent : m.stopped = true → m.timer = none)
    (herrors : m.consecutiveErrors = failuresIn (events ++ [event]))
    (hwaiting : m.started = false → m.armed ≠ [] ∨ m.running ≠ [] →
      ∃ event' ∈ events ++ [event], event'.outside = true) :
    PumpInv opts (events ++ [event]) m :=
  ⟨htimers, hruns, hlive, hsilent, herrors, hwaiting,
    fun timer hmem ↦ delay_mono (h.delay timer (hsub timer hmem))⟩

theorem PumpInv.same (h : PumpInv opts events s)
    (hcount : countFailure (failuresIn events) event = failuresIn events) :
    PumpInv opts (events ++ [event]) s :=
  h.keep (fun _ hmem ↦ hmem) h.timers h.runs h.live h.silent
    (by rw [failuresIn_concat, hcount, h.errors])
    fun hstarted hsome ↦ outside_mono (h.waiting hstarted hsome)

theorem PumpInv.step {t : Pump} (hserial : opts.serial = true)
    (hexec : exec (pumpStep opts) (createPump opts) events = some s) (h : PumpInv opts events s)
    (hthrows : event.throws = false) (hstep : pumpStep opts s event = some t) :
    PumpInv opts (events ++ [event]) t := by
  have herrors := h.errors
  cases event with
  | start =>
    have hstep' := hstep
    rw [pumpStep] at hstep
    split_ifs at hstep with hdone
    · cases hstep
      exact h.same rfl
    rw [← Option.some.inj hstep] at hstep' ⊢
    exact h.arm hexec hstep' rfl rfl h.runs h.silent (by rw [failuresIn_concat]; exact herrors)
      fun hstarted ↦ by cases hstarted
  | stop =>
    rw [pumpStep, clearTimer_eq (s := { s with stopped := true }) h.timers] at hstep
    cases hstep
    refine h.keep (fun _ hmem ↦ by cases hmem) .unarmed h.runs (fun _ _ hstopped ↦ by cases hstopped)
      (fun _ ↦ rfl) (by rw [failuresIn_concat]; exact herrors) fun hstarted hsome ↦ ?_
    exact outside_mono (h.waiting hstarted (.inr (hsome.resolve_left fun hne ↦ hne rfl)))
  | setEnabled next =>
    have hstep' := hstep
    rw [pumpStep] at hstep
    split_ifs at hstep with hsame hnext
    · cases hstep
      exact h.same rfl
    · subst hnext
      rw [← Option.some.inj hstep] at hstep' ⊢
      exact h.arm hexec hstep' rfl rfl h.runs h.silent (by rw [failuresIn_concat]; exact herrors)
        fun _ ↦ outside_last rfl
    · rw [clearTimer_eq (s := { s with enabled := false }) h.timers] at hstep
      cases hstep
      refine h.keep (fun _ hmem ↦ by cases hmem) .unarmed h.runs
        (fun _ henabled ↦ by cases henabled) (fun _ ↦ rfl)
        (by rw [failuresIn_concat]; exact herrors) fun hstarted hsome ↦ ?_
      exact outside_mono (h.waiting hstarted (.inr (hsome.resolve_left fun hne ↦ hne rfl)))
  | runNow throws =>
    obtain rfl : throws = false := hthrows
    rw [pumpStep] at hstep
    split_ifs at hstep with hbusy
    · cases hstep
      exact h.same rfl
    rw [Bool.or_eq_true, not_or, Bool.not_eq_true, Bool.not_eq_true] at hbusy
    have hidle : s.processing = false ∧ s.running = [] := h.runs.idle_of hbusy.2
    rw [Pump.tick, if_neg (by rw [hbusy.1]; exact Bool.false_ne_true), hidle.1, Bool.and_false,
      if_neg Bool.false_ne_true, if_neg Bool.false_ne_true, hidle.2] at hstep
    cases hstep
    exact h.keep (fun _ hmem ↦ hmem) h.timers (.busy _)
      (fun _ _ _ ↦ .inr (List.cons_ne_nil _ _)) h.silent
      (by rw [failuresIn_concat]; exact herrors) fun _ _ ↦ outside_last rfl
  | expire id throws =>
    obtain rfl : throws = false := hthrows
    rw [pumpStep] at hstep
    split_ifs at hstep with hany
    obtain ⟨timer, htimer, harmed⟩ := h.timers.of_any hany
    have hid : timer.id = id := by
      rw [harmed] at hany
      simpa using hany
    subst hid
    have hon : s.stopped = false := by
      refine Bool.eq_false_iff.mpr fun hstopped ↦ ?_
      rw [h.silent hstopped] at htimer
      cases htimer
    have hfilter : s.armed.filter (·.id ≠ timer.id) = [] := by
      rw [harmed, List.filter_cons_of_neg (by simp), List.filter_nil]
    have hwait : s.started = false → ∃ event' ∈ events ++ [.expire timer.id false],
        event'.outside = true := fun hstarted ↦
      outside_mono (h.waiting hstarted (.inl (by rw [harmed]; exact List.cons_ne_nil _ _)))
    rw [hfilter, Pump.tick, if_neg (by rw [hon]; exact Bool.false_ne_true), hserial,
      Bool.true_and, if_neg Bool.false_ne_true] at hstep
    have hruns := h.runs
    split_ifs at hstep with hbusy
    · -- The fire is dropped: the call under way will arm the next timer.
      cases hstep
      exact h.keep (fun _ hmem ↦ by cases hmem) .unarmed hruns
        (fun _ _ _ ↦ .inr (hruns.ne_nil hbusy)) (fun _ ↦ rfl)
        (by rw [failuresIn_concat]; exact herrors) fun hstarted _ ↦ hwait hstarted
    · have hnil := (hruns.idle_of (by rw [Bool.eq_false_iff.mpr hbusy, Bool.false_and])).2
      simp only [hnil] at hstep
      cases hstep
      exact h.keep (fun _ hmem ↦ by cases hmem) .unarmed (.busy _)
        (fun _ _ _ ↦ .inr (List.cons_ne_nil _ _)) (fun _ ↦ rfl)
        (by rw [failuresIn_concat]; exact herrors) fun hstarted _ ↦ hwait hstarted
  | settle run ok =>
    have hstep' := hstep
    rw [pumpStep] at hstep
    split_ifs at hstep with hmem
    rw [← Option.some.inj hstep] at hstep' ⊢
    refine h.arm hexec hstep' rfl rfl ?_ h.silent ?_ fun hstarted ↦ ?_
    · rw [h.runs.filter_of_mem hmem]
      exact .idle _
    · rw [failuresIn_concat, ← herrors]
      cases ok <;> rfl
    · exact outside_mono (h.waiting hstarted (.inr (List.ne_nil_of_mem hmem)))

theorem pumpInv_init : PumpInv opts [] (createPump opts) where
  timers := .unarmed
  runs := .idle _
  live hstarted := by cases hstarted
  silent hstopped := by cases hstopped
  errors := rfl
  waiting _ hsome := (hsome.elim (fun hne ↦ hne rfl) fun hne ↦ hne rfl).elim
  delay _ hmem := by cases hmem

def hourly : PumpOpts where
  intervalMs := 3600000

end OpenAlice.Core
