import OpenAlice.Trading.Git.Cases
import OpenAlice.Trading.Ledger.CostBasis

/-!
# The passes of the order-sync poller, and the broker behind them

`UnifiedTradingAccount.sync` and `getPositions` with
`_reconcileWalletPositions`
(`services/uta/src/domain/trading/UnifiedTradingAccount.ts`), next to the calls
that stage, commit, push and reject.  A pass reads the ledger, waits for the
broker several times, and writes to the ledger at its end; everything else may
run in between.

The broker is part of the state: the orders it has accepted and what became of
them.  It accepts, fills and closes orders at any time, also between the moment
it computes the answer to a read and the moment the answer arrives: a read of
the positions suspends for each of the two.  What it answers is unrestricted
here; an honest broker is a condition on the steps.

`replies` is history: what every dispatch has answered so far.
-/

namespace OpenAlice.Trading.Passes

open OpenAlice.Run OpenAlice.Trading.Git TradingGit

/-- What is fixed when the account is built. -/
structure PassConfig extends Platform where
  /-- The rounding of `decimal.js`. -/
  round : Decimal → Decimal
  /-- The broker implements `getOpenOrders`. -/
  listsOpenOrders : Bool
  /-- The account's id and the broker's native key. -/
  stampAliceId : Contract → String

/-! ## The broker -/

inductive Fate where
  | working
  | filled (qty price : Decimal)
  | closed
deriving DecidableEq

structure BrokerOrder where
  id : String
  contract : Contract
  side : TradeSide
  fate : Fate := .working
deriving DecidableEq

inductive BrokerEvent where
  | accepts (id : String) (contract : Contract) (side : TradeSide)
  | fills (id : String) (qty price : Decimal)
  | closes (id : String)

def BrokerOrder.settle (id : String) (fate : Fate) (o : BrokerOrder) : BrokerOrder :=
  if o.id = id ∧ o.fate = .working then { o with fate } else o

def BrokerEvent.apply (orders : List BrokerOrder) : BrokerEvent → List BrokerOrder
  | .accepts id contract side => orders ++ [{ id, contract, side }]
  | .fills id qty price => orders.map (BrokerOrder.settle id (.filled qty price))
  | .closes id => orders.map (BrokerOrder.settle id .closed)

def filledIds (orders : List BrokerOrder) : List String :=
  (orders.filter fun o ↦ o.fate matches .filled ..).map BrokerOrder.id

/-! ## The state -/

/-- An entry of `_pollState`. -/
structure Poll where
  firstSeenAt : Timestamp
  lastPolledAt : Timestamp
deriving DecidableEq

/-- The account's ledger and poll state, and the broker. -/
structure Shared where
  ledger : Ledger
  /-- The latest entry of an order comes first. -/
  pollState : List (String × Poll) := []
  orders : List BrokerOrder := []
  replies : List (Operation × OperationResult) := []
deriving DecidableEq

abbrev Shared.commits (S : Shared) : List GitCommit := S.ledger.git.commits

inductive PassCall where
  | client (c : { c : Call // c.isClient = true })
  /-- `sync`, with or without a delay. -/
  | sync (delayed : Bool) (now : Timestamp)
  | getPositions
  | broker (e : BrokerEvent)

inductive PassAnswer where
  | git (a : Answer) (now : Timestamp)
  | elapsed (now : Timestamp)
  /-- `getOpenOrders` resolved. -/
  | openOrders (listing : List OpenOrder)
  /-- `getOrder` resolved. -/
  | order (brokerOrder : Option OpenOrder)
  /-- `_getState` resolved. -/
  | state (s : GitState) (hashedAt now : Timestamp)
  | looked (positions : List Position)
  | arrived (now : Timestamp)
  | threw (message : String)

/-- The locals of the loop over the wallet positions. -/
structure Walk where
  before : List Position
  inFlight : List String
  /-- The orders that had filled when the broker computed the positions. -/
  seen : List String
deriving DecidableEq

inductive PassOutcome where
  | git (o : Outcome)
  | positions (positions : List Position)
  | happened
deriving DecidableEq

/-- A call, at the `await` it is suspended at. -/
inductive PassTask where
  /-- A call of the ledger; a sync ends as one. -/
  | git (t : Task)
  | delaying (pendingOrders : List PendingOrder)
  /-- A sync waiting for `getOpenOrders`. -/
  | listing (pendingOrders : List PendingOrder)
  /-- A sync waiting for `getOrder`. -/
  | polling (order : PendingOrder) (candidates : List PendingOrder)
      (updates : List OrderStatusUpdate)
  /-- A sync waiting for `_getState`. -/
  | stating (updates : List OrderStatusUpdate)
  /-- `getPositions`, before the broker has looked. -/
  | reading
  /-- `getPositions`, with the broker's answer on its way. -/
  | arriving (positions : List Position) (seen : List String)
  /-- `getPositions`, waiting for `recordReconcile` of the position `p`. -/
  | reconciling (t : Task) (w : Walk) (p : Position) (aliceId : String) (rest : List Position)
  | done (o : PassOutcome)
deriving DecidableEq

variable (cfg : PassConfig)

/-! ## sync -/

/-- Fresh orders every time, then every minute, then every five
minutes. -/
def pollBackoffDue (now : Timestamp) (pollState : List (String × Poll)) (orderId : String) :
    List (String × Poll) × Bool :=
  match pollState.lookup orderId with
  | none => ((orderId, ⟨now, now⟩) :: pollState, true)
  | some s =>
    let age : Int := now - s.firstSeenAt
    let interval : Int := if age < 120000 then 0 else if age < 3600000 then 60000 else 300000
    if (now : Int) - s.lastPolledAt < interval then (pollState, false)
    else ((orderId, { s with lastPolledAt := now }) :: pollState, true)

def dueOrders (now : Timestamp) :
    List (String × Poll) → List PendingOrder → List (String × Poll) × List PendingOrder
  | pollState, [] => (pollState, [])
  | pollState, o :: rest =>
    let due := pollBackoffDue now pollState o.orderId
    let tail := dueOrders now due.1 rest
    (tail.1, if due.2 then o :: tail.2 else tail.2)

def updateOf (o : PendingOrder) (brokerOrder : OpenOrder) : Option OrderStatusUpdate :=
  let status := brokerOrder.orderState.status
  if status = "Submitted" ∨ status = "PreSubmitted" then none
  else
    let fee := brokerOrder.orderState.commissionAndFees
    some {
      orderId := o.orderId
      symbol := o.symbol
      currentStatus :=
        if status = "Filled" then .filled else if status = "Cancelled" then .cancelled else .rejected
      filledQty := stripUnset brokerOrder.order.filledQuantity
      filledPrice := brokerOrder.avgFillPrice
      fee
      feeCurrency :=
        if fee.isSome then truthy (some brokerOrder.orderState.commissionAndFeesCurrency)
        else none }

def nothingSynced : PassTask := .done (.git (.synced ⟨"", 0, []⟩))

def poll (S : Shared) (candidates : List PendingOrder) (updates : List OrderStatusUpdate) :
    Shared × PassTask :=
  match candidates with
  | o :: rest => (S, .polling o rest updates)
  | [] => if updates = [] then (S, nothingSynced) else (S, .stating updates)

/-- The middle of `sync`: the listing, or the backoff in its place. -/
def query (S : Shared) (pendingOrders : List PendingOrder) (now : Timestamp) : Shared × PassTask :=
  if cfg.listsOpenOrders then (S, .listing pendingOrders)
  else
    let due := dueOrders now S.pollState pendingOrders
    poll { S with pollState := due.1 } due.2 []

/-- The first stretch of `sync`. -/
def startSync (S : Shared) (delayed : Bool) (now : Timestamp) : Shared × PassTask :=
  let pendingOrders := getPendingOrderIds S.commits
  if pendingOrders = [] then (S, nothingSynced)
  else if delayed then (S, .delaying pendingOrders)
  else query cfg S pendingOrders now

def unlisted (pendingOrders : List PendingOrder) (listing : List OpenOrder) : List PendingOrder :=
  let openIds := listing.filterMap fun o ↦ truthy o.orderId
  pendingOrders.filter fun o ↦ o.orderId ∉ openIds

/-! ## getPositions -/

def costBasis (S : Shared) (aliceId : String) : Option CostBasis :=
  recomputeCostBasisFromCommits cfg.round S.ledger.git.exportState.commits aliceId

def drift (S : Shared) (aliceId : String) (p : Position) : Decimal :=
  cfg.round (p.quantity - ((costBasis cfg S aliceId).getD {}).qty)

def bootstrapPrice (p : Position) : Decimal :=
  let brokerAvgCost := p.avgCost.getD 0
  if 0 < brokerAvgCost then brokerAvgCost else p.marketPrice

def pnlOf (p : Position) (avgCost : Decimal) : Decimal :=
  let mult := p.multiplier.getD 1
  let mult := if mult = 0 then 1 else mult
  let sideSign : Decimal := if p.side = .long then 1 else -1
  cfg.round (cfg.round (cfg.round (p.quantity * cfg.round (p.marketPrice - avgCost)) * mult) *
    sideSign)

def reprice (S : Shared) (aliceId : String) (p : Position) : Position :=
  match costBasis cfg S aliceId with
  | none => p
  | some final => { p with avgCost := some final.avgCost, unrealizedPnL := pnlOf cfg p final.avgCost }

def walletId (p : Position) : Option String :=
  if p.avgCostSource = some .wallet then truthy p.contract.aliceId else none

/-- The loop does not leave this position to the orders in flight, and finds it
away from the log. -/
def driftsApart (S : Shared) (w : Walk) (aliceId : String) (p : Position) : Prop :=
  aliceId ∉ w.inFlight ∧ 1 / 100000000 < |drift cfg S aliceId p|

instance (S : Shared) (w : Walk) (aliceId : String) (p : Position) :
    Decidable (driftsApart cfg S w aliceId p) :=
  inferInstanceAs (Decidable (_ ∧ _))

def reconcileParams (S : Shared) (positions : List Position) (aliceId : String) (p : Position) :
    ReconcileParams where
  aliceId := aliceId
  quantityDelta := drift cfg S aliceId p
  markPrice := bootstrapPrice p
  stateAfter := { positions }

/-- `_reconcileWalletPositions` from some position on, up to its next
suspension. -/
def walk (S : Shared) (i : Nat) (now : Timestamp) : Walk → List Position → Shared × PassTask
  | w, [] => (S, .done (.positions w.before))
  | w, p :: rest =>
    match walletId p with
    | none => walk S i now { w with before := w.before ++ [p] } rest
    | some aliceId =>
      if driftsApart cfg S w aliceId p then
        let q := Git.start cfg.toPlatform S.ledger i
          (.recordReconcile (reconcileParams cfg S (w.before ++ p :: rest) aliceId p) now)
        ({ S with ledger := q.1 }, .reconciling q.2 w p aliceId rest)
      else walk S i now { w with before := w.before ++ [reprice cfg S aliceId p] } rest

/-- The stretch of `getPositions` after `recordReconcile` settled. -/
def reconciled (S : Shared) (i : Nat) (now : Timestamp) (w : Walk) (p : Position)
    (aliceId : String) (rest : List Position) : Task → Shared × PassTask
  | .done (.threw e) => (S, .done (.git (.threw e)))
  | _ => walk cfg S i now { w with before := w.before ++ [reprice cfg S aliceId p] } rest

def inFlightIds (S : Shared) : List String :=
  (getPendingOrderIds S.commits).filterMap fun o ↦ (truthy o.aliceId)

def stamped (positions : List Position) : List Position :=
  positions.map fun p ↦
    { p with contract := { p.contract with aliceId := some (cfg.stampAliceId p.contract) } }

/-- The stretch of `getPositions` after its read arrived. -/
def arrive (S : Shared) (i : Nat) (now : Timestamp) (positions : List Position)
    (seen : List String) : Shared × PassTask :=
  walk cfg S i now ⟨[], inFlightIds S, seen⟩ (stamped cfg positions)

/-! ## The program -/

def start (S : Shared) (i : Nat) : PassCall → Shared × PassTask
  | .client c =>
    let q := Git.start cfg.toPlatform S.ledger i c.1
    ({ S with ledger := q.1 }, .git q.2)
  | .sync delayed now => startSync cfg S delayed now
  | .getPositions => (S, .reading)
  | .broker e => ({ S with orders := e.apply S.orders }, .done .happened)

def repliesOf (t : Task) (a : Answer) : List (Operation × OperationResult) :=
  match t, a with
  | .executing operations _ _ results, .reply raw =>
    (operations[results.length]?.map fun op ↦ (op, parseOperationResult op raw)).toList
  | _, _ => []

def failed (S : Shared) (message : String) : Shared × PassTask :=
  (S, .done (.git (.threw (.error message))))

def resume (S : Shared) (i : Nat) : PassTask → PassAnswer → Option (Shared × PassTask)
  | .git t, .git a _ =>
    (Git.resume S.ledger i t a).map fun q ↦
      ({ S with ledger := q.1, replies := S.replies ++ repliesOf t a }, .git q.2)
  | .delaying pendingOrders, .elapsed now => some (query cfg S pendingOrders now)
  | .listing pendingOrders, .openOrders listing => some (poll S (unlisted pendingOrders listing) [])
  | .polling _ candidates updates, .order none => some (poll S candidates updates)
  | .polling o candidates updates, .order (some brokerOrder) =>
    some (poll S candidates (updates ++ (updateOf o brokerOrder).toList))
  | .stating updates, .state s hashedAt now =>
    let q := Git.start cfg.toPlatform S.ledger i (.sync updates s hashedAt now)
    some ({ S with ledger := q.1 }, .git q.2)
  | .reading, .looked positions => some (S, .arriving positions (filledIds S.orders))
  | .arriving positions seen, .arrived now => some (arrive cfg S i now positions seen)
  | .reconciling (.recording o) w p aliceId rest, .git a now =>
    (Git.resume S.ledger i (.recording o) a).map fun q ↦
      reconciled cfg { S with ledger := q.1 } i now w p aliceId rest q.2
  | .listing _, .threw text | .polling _ _ _, .threw text | .stating _, .threw text
  | .reading, .threw text | .arriving _ _, .threw text => some (failed S text)
  | _, _ => none

def passProg : Prog Shared PassTask PassCall PassAnswer where
  start := start cfg
  resume := resume cfg

abbrev PassWorld := World Shared PassTask

abbrev PassEvent := Event PassCall PassAnswer

/-- A new account at a broker without orders. -/
def PassWorld.initial : PassWorld := ⟨{ ledger := ⟨{}, []⟩ }, []⟩

end OpenAlice.Trading.Passes
