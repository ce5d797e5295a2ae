import OpenAlice.Run.Tasks
import OpenAlice.Trading.Git.TradingGit

/-!
# The risk controller of automatic trading

`AutoTradingRiskController` of
`services/uta/src/domain/trading/auto-trading-risk.ts` as cooperative tasks: a check
suspends behind `rollDay`, at its three reads of the broker, and at the two waits of
`persist`; `pause`, `resetPause` and `recordFailure` persist too, and `load` waits
for the file that `persist` writes.  The constructor's caller does not wait for
`load`.

The clock is part of the state: a stretch reads it, and an event may move it
forward.  A restart builds a new controller; what the calls of the old one were
waiting for never comes.  `history` is read by no step.
-/

namespace OpenAlice.Trading.Risk

open OpenAlice.Run

/-- The limits an account is given. -/
structure AutoTradingRiskPolicy where
  maxOrderNotional : Decimal
  maxSymbolExposurePercent : Decimal
  maxDailyLoss : Decimal
  maxOrdersPerHour : Nat
  maxOrdersPerDay : Nat
  maxSlippageBps : Decimal
  maxQuoteAgeMs : Nat
  allowedAliceIds : List String
  pauseAfterConsecutiveErrors : Nat

/-- What is fixed when the controller is built. -/
structure RiskConfig where
  policy : AutoTradingRiskPolicy
  /-- The rounding of `decimal.js`. -/
  round : Decimal → Decimal
  getNativeKey : Contract → String

def hour : Nat := 3600000

def dayOf (t : Timestamp) : Nat := t / 86400000

theorem dayOf_le {s t : Timestamp} (h : s ≤ t) : dayOf s ≤ dayOf t := Nat.div_le_div_right h

/-- What the controller keeps, in memory and on disk. -/
structure PersistedState where
  day : Nat
  openingNetLiquidation : Option Decimal := none
  openingRealizedPnL : Option Decimal := none
  orderTimestamps : List Timestamp := []
  consecutiveErrors : Nat := 0
  paused : Bool := false
  pauseReason : Option String := none
deriving DecidableEq

/-- What `getAccount` answers. -/
structure AccountInfo where
  netLiquidation : Decimal
  realizedPnL : Option Decimal := none
deriving DecidableEq

/-- What `getQuote` answers; `none` stands for a missing price, and for a time that is
no date. -/
structure Quote where
  timestamp : Option Int
  bid : Option Decimal
  ask : Option Decimal
  last : Option Decimal
deriving DecidableEq

/-- Why a check refuses. -/
inductive Refusal where
  | paused (reason : Option String)
  | needsApproval (action : OperationAction)
  | notLimitOrder
  | notAllowed (aliceId : Option String)
  | staleQuote
  | noReference
  | noLimitPrice
  | slippage (bps : Decimal)
  | noQuantity
  | badMultiplier
  | notional (orderNotional : Decimal)
  | noEquity
  | exposure (percent : Decimal)
  | dailyLoss (loss : Decimal)
  | hourlyLimit
  | dailyLimit
  | failed (message : String)
deriving DecidableEq

inductive Note where
  | paused
  /-- A `resetPause` completed. -/
  | resumed
  | counted (now : Timestamp) (slots : List Timestamp)
  | admitted (now : Timestamp)
deriving DecidableEq

/-- The controller, its file, the clock and the history. -/
structure Shared where
  state : PersistedState
  disk : Option PersistedState := none
  clock : Timestamp := 0
  history : List Note := []

inductive RiskCall where
  | check (op : Operation)
  | pause (reason : String)
  | resetPause
  | recordSuccess (op : Operation)
  | recordFailure (message : String)
deriving DecidableEq

inductive RiskAnswer where
  /-- The microtask behind `await this.rollDay()`. -/
  | resumed
  /-- `readFile` resolved, or threw, in `load`. -/
  | read
  /-- `mkdir` resolved. -/
  | made
  /-- `writeFile` resolved. -/
  | wrote
  | market (account : AccountInfo) (positions : List Position) (quote : Quote)
  | threw (message : String)
deriving DecidableEq

/-- What follows a `persist`. -/
inductive After where
  /-- The rest of a check, behind the `persist` of its `rollDay`. -/
  | gate (op : Operation)
  /-- The end of `resetPause`. -/
  | reset
  /-- The end of any other call. -/
  | settle
deriving DecidableEq

/-- A call, at the `await` it is suspended at. -/
inductive RiskTask where
  /-- `load`, waiting for its file. -/
  | loading
  /-- A check behind a `rollDay` that had nothing to do. -/
  | rolled (op : Operation)
  /-- A check waiting for the broker. -/
  | reading (contract : Contract) (order : Order)
  /-- `persist`, waiting for `mkdir`. -/
  | mkdir (k : After)
  /-- `persist`, waiting for `writeFile` of this content. -/
  | writing (content : PersistedState) (k : After)
  | settled (refusal : Option Refusal)
deriving DecidableEq

variable (cfg : RiskConfig)

/-! ## The checks -/

/-- `orderType.toUpperCase() === 'LMT'`. -/
def isLimitOrder (orderType : String) : Bool :=
  match orderType.toList with
  | [l, m, t] => ['L', 'l'].contains l && ['M', 'm'].contains m && ['T', 't'].contains t
  | _ => false

/-- `check` between its `rollDay` and its reads of the broker: nothing more to do for
an operation that closes, or the order to judge. -/
def gate (state : PersistedState) (op : Operation) : Except Refusal (Option (Contract × Order)) :=
  match op with
  | .cancelOrder _ | .closePosition .. => .ok none
  | op =>
    if state.paused then .error (.paused state.pauseReason)
    else
      match op with
      | .placeOrder contract order _ =>
        if !isLimitOrder (order.orderType.getD "") then .error .notLimitOrder
        else if (truthy contract.aliceId).any (· ∈ cfg.policy.allowedAliceIds) then
          .ok (some (contract, order))
        else .error (.notAllowed contract.aliceId)
      | op => .error (.needsApproval op.action)

def referencePrice (action : Option String) (quote : Quote) : Except Refusal Decimal :=
  let candidate := if action = some "BUY" then quote.ask else quote.bid
  match candidate.or quote.last with
  | some value => if 0 < value then .ok value else .error .noReference
  | none => .error .noReference

def required (value : Option Decimal) (refusal : Refusal) : Except Refusal Decimal :=
  match stripUnset value with
  | some d => if 0 < d then .ok d else .error refusal
  | none => .error refusal

def demand (holds : Bool) (refusal : Refusal) : Except Refusal Unit :=
  if holds then .ok () else .error refusal

/-- `check` between its reads of the broker and `ensureDailyLoss`. -/
def assess (now : Timestamp) (contract : Contract) (order : Order) (account : AccountInfo)
    (positions : List Position) (quote : Quote) : Except Refusal Unit := do
  let rnd := cfg.round
  let fresh := quote.timestamp.any fun at₀ ↦ 0 ≤ (now : Int) - at₀ && (now : Int) - at₀ ≤ cfg.policy.maxQuoteAgeMs
  demand fresh .staleQuote
  let reference ← referencePrice order.action quote
  let limit ← required order.lmtPrice .noLimitPrice
  let adverse := if order.action = some "BUY" then rnd (limit - reference) else rnd (reference - limit)
  let adverseBps := rnd (rnd (adverse / reference) * 10000)
  demand (adverseBps ≤ cfg.policy.maxSlippageBps) (.slippage adverseBps)
  let quantity ← required order.totalQuantity .noQuantity
  let multiplier := contract.multiplier.getD 1
  demand (0 < multiplier) .badMultiplier
  let orderNotional := rnd (rnd (quantity * reference) * multiplier)
  demand (orderNotional ≤ cfg.policy.maxOrderNotional) (.notional orderNotional)
  let nativeKey := cfg.getNativeKey contract
  let held := positions.filter fun p ↦ cfg.getNativeKey p.contract = nativeKey
  let positionValue := held.foldl (fun sum p ↦ rnd (sum + |p.marketValue|)) 0
  let projectedExposure := rnd (positionValue + orderNotional)
  demand (0 < account.netLiquidation) .noEquity
  let exposurePercent := rnd (rnd (projectedExposure / account.netLiquidation) * 100)
  demand (exposurePercent ≤ cfg.policy.maxSymbolExposurePercent) (.exposure exposurePercent)

/-- The day's opening values are fixed before the loss is judged. -/
def ensureDailyLoss (state : PersistedState) (account : AccountInfo) :
    PersistedState × Except Refusal Unit :=
  let realizedPnL := account.realizedPnL.getD 0
  let openingEquity := state.openingNetLiquidation.getD account.netLiquidation
  let openingRealized := state.openingRealizedPnL.getD realizedPnL
  let equityLoss := max (cfg.round (openingEquity - account.netLiquidation)) 0
  let realizedLoss := max (cfg.round (openingRealized - realizedPnL)) 0
  let loss := max equityLoss realizedLoss
  ({ state with
      openingNetLiquidation := some openingEquity
      openingRealizedPnL := some openingRealized },
    demand (loss ≤ cfg.policy.maxDailyLoss) (.dailyLoss loss))

def lastHour (now : Timestamp) (slots : List Timestamp) : List Timestamp :=
  slots.filter fun at₀ ↦ now ≤ at₀ + hour

def rollDay (state : PersistedState) (now : Timestamp) : Option PersistedState :=
  if state.day = dayOf now then none
  else some { day := dayOf now, paused := state.paused, pauseReason := state.pauseReason }

/-! ## The program -/

def refuse (S : Shared) (r : Refusal) : Shared × RiskTask := (S, .settled (some r))

/-- A check behind its `rollDay`. -/
def pass (S : Shared) (op : Operation) : Shared × RiskTask :=
  match gate cfg S.state op with
  | .error r => refuse S r
  | .ok none => (S, .settled none)
  | .ok (some (contract, order)) => (S, .reading contract order)

def reserve (S : Shared) : Shared × RiskTask :=
  let now := S.clock
  let slots := S.state.orderTimestamps
  let S := { S with history := S.history ++ [.counted now slots] }
  if cfg.policy.maxOrdersPerHour ≤ (lastHour now slots).length then refuse S .hourlyLimit
  else if cfg.policy.maxOrdersPerDay ≤ slots.length then refuse S .dailyLimit
  else
    ({ S with
        state := { S.state with orderTimestamps := slots ++ [now] }
        history := S.history ++ [.admitted now] }, .mkdir .settle)

def judge (S : Shared) (contract : Contract) (order : Order) (account : AccountInfo)
    (positions : List Position) (quote : Quote) : Shared × RiskTask :=
  match assess cfg S.clock contract order account positions quote with
  | .error r => refuse S r
  | .ok () =>
    let q := ensureDailyLoss cfg S.state account
    match q.2 with
    | .error r => refuse { S with state := q.1 } r
    | .ok () => reserve cfg { S with state := q.1 }

/-- `pause`, up to its `persist`. -/
def pauseWith (S : Shared) (consecutiveErrors : Nat) (reason : String) : Shared × RiskTask :=
  ({ S with
      state := { S.state with consecutiveErrors, paused := true, pauseReason := some reason }
      history := S.history ++ [.paused] }, .mkdir .settle)

def trips (S : Shared) : Bool :=
  cfg.policy.pauseAfterConsecutiveErrors ≤ S.state.consecutiveErrors + 1

/-- The reason `recordFailure` pauses for. -/
def breakerReason (S : Shared) (message : String) : String :=
  s!"Circuit breaker: {S.state.consecutiveErrors + 1} consecutive broker errors ({message})"

def start (S : Shared) (_ : Nat) : RiskCall → Shared × RiskTask
  | .check op =>
    match rollDay S.state S.clock with
    | some state => ({ S with state }, .mkdir (.gate op))
    | none => (S, .rolled op)
  | .pause reason => pauseWith S S.state.consecutiveErrors reason
  | .resetPause =>
    ({ S with state := { S.state with consecutiveErrors := 0, paused := false, pauseReason := none } },
      .mkdir .reset)
  | .recordSuccess op =>
    match op with
    | .placeOrder .. | .closePosition .. =>
      ({ S with state := { S.state with consecutiveErrors := 0 } }, .mkdir .settle)
    | _ => (S, .settled none)
  | .recordFailure message =>
    if trips cfg S then
      pauseWith S (S.state.consecutiveErrors + 1) (breakerReason S message)
    else
      ({ S with state := { S.state with consecutiveErrors := S.state.consecutiveErrors + 1 } },
        .mkdir .settle)

/-- The end of a `persist`. -/
def persisted (S : Shared) : After → Shared × RiskTask
  | .gate op => pass cfg S op
  | .reset => ({ S with history := S.history ++ [.resumed] }, .settled none)
  | .settle => (S, .settled none)

/-- `load` behind its read: a file that is not there leaves the state as it is. -/
def loaded (S : Shared) : Shared × RiskTask :=
  let state := S.disk.getD S.state
  match rollDay state S.clock with
  | some state => ({ S with state }, .mkdir .settle)
  | none => ({ S with state }, .settled none)

def resume (S : Shared) (_ : Nat) : RiskTask → RiskAnswer → Option (Shared × RiskTask)
  | .loading, .read => some (loaded S)
  | .rolled op, .resumed => some (pass cfg S op)
  | .reading contract order, .market account positions quote =>
    some (judge cfg S contract order account positions quote)
  | .reading .., .threw text => some (refuse S (.failed text))
  | .mkdir k, .made => some (S, .writing S.state k)
  | .writing content k, .wrote => some (persisted cfg { S with disk := some content } k)
  | .mkdir _, .threw text | .writing .., .threw text => some (refuse S (.failed text))
  | _, _ => none

def riskProg : Prog Shared RiskTask RiskCall RiskAnswer where
  start := start cfg
  resume := resume cfg

abbrev RiskWorld := World Shared RiskTask

/-- What can happen, and when. -/
inductive RiskEvent where
  | run (now : Timestamp) (e : Event RiskCall RiskAnswer)
  | restart (now : Timestamp)

def newState (now : Timestamp) : PersistedState := { day := dayOf now }

def tick (W : RiskWorld) (now : Timestamp) : RiskWorld := ⟨{ W.shared with clock := now }, W.tasks⟩

/-- A new controller next to the file of the old one, with its `load` under way. -/
def boot (S : Shared) : RiskWorld := ⟨{ S with state := newState S.clock }, [.loading]⟩

/-- The machine: an event happens at a time that is not past. -/
def riskStep (W : RiskWorld) : RiskEvent → Option RiskWorld
  | .run now e => if now < W.shared.clock then none else (riskProg cfg).step (tick W now) e
  | .restart now => if now < W.shared.clock then none else some (boot { W.shared with clock := now })

/-- A controller whose account has no file yet, with nothing under way. -/
def RiskWorld.built (now : Timestamp) : RiskWorld := ⟨{ state := newState now, clock := now }, []⟩

/-- A controller whose account has no file yet, as its constructor leaves it. -/
def RiskWorld.booted (now : Timestamp) : RiskWorld := boot { state := newState now, clock := now }

end OpenAlice.Trading.Risk
