import Mathlib.Algebra.Group.Nat.Defs
import Mathlib.Data.List.Basic

/-!
# Health and recovery of an account

The part of `UnifiedTradingAccount` that connects to the broker, counts
failures and recovers (`services/uta/src/domain/trading/UnifiedTradingAccount.ts`):
`_connect`, `_attemptReach`, `_callBroker` with `_onSuccess` and `_onFailure`,
`_onBrokerConnectionState`, `nudgeRecovery`, `_startRecovery`,
`_scheduleRecoveryAttempt` and `close`.

The state holds the private fields these read and write, and with them what the
runtime holds: the timeouts that are neither fired nor cleared, and every
suspended call at the `await` it is suspended at.  A timeout may fire at any
time, whatever its delay.  What is only reported, such as the last error and the
emitted health changes, is left out.
-/

namespace OpenAlice.Trading.Recovery

/-! ## Tiers, reach and health -/

inductive UTATier where
  | data
  | account
  | trading

/-- `tier`. -/
def UTATier.of (keyless readOnly : Bool) : UTATier :=
  if keyless then .data else if readOnly then .account else .trading

/-- The rungs of the capability ladder. -/
inductive UTAReach where
  | down
  | connected
  | readable
deriving DecidableEq

/-- `REACH_RANK`. -/
def UTAReach.rank : UTAReach → Nat
  | .down => 0
  | .connected => 1
  | .readable => 2

/-- A data account is done at `connected`. -/
def UTATier.targetReach : UTATier → UTAReach
  | .data => .connected
  | .account | .trading => .readable

inductive BrokerHealth where
  | healthy
  | degraded
  | offline
deriving DecidableEq

def degradedThreshold : Nat := 3

def offlineThreshold : Nat := 6

/-- The delay before attempt number `attempt`, in milliseconds. -/
def recoveryDelay (attempt : Nat) : Nat := min (5000 * 2 ^ attempt) 60000

/-! ## The state -/

/-- The suspension points of `_attemptReach`, and its result before the caller
goes on. -/
inductive Probe where
  /-- Waiting for `broker.init`. -/
  | init
  /-- Waiting for `broker.getAccount`. -/
  | account
  | returned (reach : UTAReach)
deriving DecidableEq

inductive ProbeAnswer where
  | ok
  | failed (permanent : Bool)

/-- A timeout that has neither fired nor been cleared. -/
structure Timer where
  handle : Nat
  attempt : Nat
  delay : Nat
deriving DecidableEq

structure Attempt where
  attempt : Nat
  probe : Probe

/-- Where the initial `_connect` is. -/
inductive Connect where
  | probing (probe : Probe)
  /-- Waiting for `_ensureSubAccounts`. -/
  | warming
  | settled
deriving DecidableEq

/-- The health fields of the account and what the runtime holds for it. -/
structure State where
  currentReach : UTAReach
  consecutiveFailures : Nat := 0
  recovering : Bool := false
  disabled : Bool := false
  connecting : Bool := true
  recoveryTimer : Option Nat := none
  timers : List Timer := []
  created : Nat := 0
  attempts : List Attempt := []
  connect : Connect := .probing .init
  waiting : Nat := 0
  reads : Nat := 0
  /-- `close` was called. -/
  closed : Bool := false
  /-- The number of recovery attempts that called `broker.init` after `close`. -/
  lateInits : Nat := 0

namespace State

variable (tier : UTATier)

def initial : State := { currentReach := tier.targetReach }

def reachedTarget (s : State) : Bool := tier.targetReach.rank ≤ s.currentReach.rank

def health (s : State) : BrokerHealth :=
  if s.disabled then .offline
  else if s.currentReach = .down then .offline
  else if offlineThreshold ≤ s.consecutiveFailures then .offline
  else if !s.reachedTarget tier then .degraded
  else if degradedThreshold ≤ s.consecutiveFailures then .degraded
  else .healthy

/-! ## Timers -/

/-- The live timeouts after `clearTimeout` of the handle, if there is one. -/
def timersCleared (s : State) : List Timer :=
  match s.recoveryTimer with
  | some h => s.timers.filter (·.handle ≠ h)
  | none => s.timers

def clearRecoveryTimer (s : State) : State :=
  { s with timers := s.timersCleared, recoveryTimer := none }

def scheduleRecoveryAttempt (s : State) (attempt : Nat) (delayOverride : Option Nat) : State :=
  { s with
    timers := s.timers ++ [⟨s.created, attempt, delayOverride.getD (recoveryDelay attempt)⟩]
    recoveryTimer := some s.created
    created := s.created + 1 }

def startRecovery (s : State) : State :=
  if s.recovering then s
  else scheduleRecoveryAttempt { s with recovering := true } 0 none

def nudgeRecovery (s : State) : State :=
  if !s.recovering || s.disabled then s
  else scheduleRecoveryAttempt s.clearRecoveryTimer 0 (some 0)

/-! ## Successes, failures and connection events -/

def onSuccess (s : State) : State :=
  { s.clearRecoveryTimer with consecutiveFailures := 0, recovering := false }

def onFailure (s : State) : State :=
  let s := { s with consecutiveFailures := s.consecutiveFailures + 1 }
  if s.health tier = .offline ∧ s.recovering = false then s.startRecovery else s

/-- `_onBrokerConnectionState` for a dead transport. -/
def onDead (s : State) : State :=
  if s.disabled then s
  else
    let s := { s with currentReach := .down, consecutiveFailures := offlineThreshold }
    if s.connecting then s else s.startRecovery

/-- `close`, up to the broker's own. -/
def close (s : State) : State :=
  match s.recoveryTimer with
  | some _ => { s.clearRecoveryTimer with recovering := false, closed := true }
  | none => { s with closed := true }

/-! ## The probe -/

/-- `_attemptReach` goes on with an answer of the broker. -/
def probeStep (s : State) : Probe → ProbeAnswer → Option (State × Probe)
  | .init, .ok =>
    some (s, if tier.targetReach = .connected then .returned .connected else .account)
  | .init, .failed permanent =>
    some ({ s with disabled := s.disabled || permanent }, .returned .down)
  | .account, .ok => some (s, .returned .readable)
  | .account, .failed permanent =>
    some ({ s with disabled := s.disabled || permanent }, .returned .connected)
  | .returned _, _ => none

/-- The end of `_connect`, once the sub-accounts are known or will not be. -/
def finishConnect (s : State) : State :=
  let s := { s with connect := .settled }
  if s.disabled then s
  else if s.reachedTarget tier then s.onSuccess
  else
    let s := if s.currentReach = .down then { s with consecutiveFailures := offlineThreshold } else s
    s.startRecovery

/-- `_connect` after its probe. -/
def continueConnect (s : State) (reach : UTAReach) : State :=
  let s := { s with currentReach := reach, connecting := false }
  if !s.disabled && decide (reach ≠ .down) then { s with connect := .warming }
  else s.finishConnect tier

def fire (s : State) (t : Timer) : State :=
  { s with
    timers := s.timers.filter (·.handle ≠ t.handle)
    recoveryTimer := none
    attempts := s.attempts ++ [⟨t.attempt, .init⟩]
    lateInits := if s.closed then s.lateInits + 1 else s.lateInits }

def finishAttempt (s : State) (attempt : Nat) (reach : UTAReach) : State :=
  let s := { s with currentReach := reach }
  if s.disabled then { s with recovering := false }
  else if s.reachedTarget tier then s.onSuccess
  else s.scheduleRecoveryAttempt (attempt + 1) none

/-- `_callBroker` once the account is connected: call the broker, unless the
account is offline and recovering. -/
def beginRead (s : State) : State :=
  if s.health tier = .offline ∧ s.recovering = true then s else { s with reads := s.reads + 1 }

end State

/-! ## The machine -/

/-- What can happen to the account. -/
inductive Event where
  /-- The broker answers the probe of the initial connect. -/
  | connectAnswer (a : ProbeAnswer)
  | connected
  /-- `_ensureSubAccounts` settles. -/
  | warmed
  | fire (handle : Nat)
  | attemptAnswer (i : Nat) (a : ProbeAnswer)
  | attempted (i : Nat)
  /-- A read enters `_callBroker`. -/
  | read
  | waited
  | answered (ok : Bool)
  | dead
  | restored
  | alive
  | nudge
  | close

/-- The machine.  After `close` the broker reports nothing about its transport
any more. -/
def step (tier : UTATier) (s : State) : Event → Option State
  | .connectAnswer a =>
    match s.connect with
    | .probing p => (s.probeStep tier p a).map fun q ↦ { q.1 with connect := .probing q.2 }
    | _ => none
  | .connected =>
    match s.connect with
    | .probing (.returned reach) => some (s.continueConnect tier reach)
    | _ => none
  | .warmed => if s.connect = .warming then some (s.finishConnect tier) else none
  | .fire handle => (s.timers.find? (·.handle = handle)).map s.fire
  | .attemptAnswer i a =>
    (s.attempts[i]?).bind fun t ↦ (s.probeStep tier t.probe a).map fun q ↦
      { q.1 with attempts := q.1.attempts.set i ⟨t.attempt, q.2⟩ }
  | .attempted i =>
    match s.attempts[i]? with
    | some ⟨attempt, .returned reach⟩ =>
      some (State.finishAttempt tier { s with attempts := s.attempts.eraseIdx i } attempt
        reach)
    | _ => none
  | .read =>
    if s.disabled then some s
    else if s.connecting then some { s with waiting := s.waiting + 1 }
    else some (s.beginRead tier)
  | .waited =>
    if s.waiting = 0 then none
    else
      let s := { s with waiting := s.waiting - 1 }
      if s.connecting then some s else some (s.beginRead tier)
  | .answered ok =>
    if s.reads = 0 then none
    else
      let s := { s with reads := s.reads - 1 }
      some (if ok then s.onSuccess else s.onFailure tier)
  | .dead => if s.closed then none else some s.onDead
  | .restored => if s.closed then none else some s.nudgeRecovery
  | .alive => if s.closed then none else some s
  | .nudge => some s.nudgeRecovery
  | .close => some s.close

end OpenAlice.Trading.Recovery
