import OpenAlice.Trading.Account.PassCases

/-!
# The slow lane of the order-sync poller

`UnifiedTradingAccount.observeExternalOrders`
(`services/uta/src/domain/trading/UnifiedTradingAccount.ts`) as the ticks of
`createOrderSyncPoller` (`order-sync-poller.ts`) run it, next to the calls of the
ledger.  A pass lists the open orders of the broker, keeps those the log has never
seen, waits for the account's state, and records them in one commit.

The broker accepts an order for the operation that a push is dispatching, or for
somebody else; from then on it may list it, whether the push has heard of it or
not.
-/

namespace OpenAlice.Trading.Observe

open OpenAlice.Run OpenAlice.Trading.Git TradingGit

/-- What is fixed when the account and its poller are built. -/
structure ObserveConfig extends Platform where
  /-- The broker implements `getOpenOrders`. -/
  listsOpenOrders : Bool
  /-- The account's id and the broker's native key. -/
  stampAliceId : Contract → String
  /-- `observeIntervalMs` in ticks, zero when the slow lane is off. -/
  observeEveryTicks : Nat
  keyless : Bool

structure AcceptedOrder where
  id : String
  origin : Option Nat
deriving DecidableEq

/-- The account's ledger, the poller, and the broker. -/
structure Shared where
  ledger : Ledger
  /-- `running`, the poller's guard against a second tick. -/
  running : Bool := false
  tickCount : Nat := 0
  orders : List AcceptedOrder := []
  replies : List (Operation × OperationResult) := []

abbrev Shared.commits (S : Shared) : List GitCommit := S.ledger.git.commits

def recordsObserved : Call → Bool
  | .recordObservedOrders .. => true
  | _ => false

/-- A call of the ledger, a tick of the poller, or an order the broker accepts. -/
inductive ObserveCall where
  | ledger (c : { c : Call // recordsObserved c = false })
  | tick
  | accepts (o : AcceptedOrder)

inductive ObserveAnswer where
  | ledger (a : Answer)
  | turn (healthy : Bool)
  /-- `getOpenOrders` resolved. -/
  | listed (listing : List OpenOrder)
  /-- `_getState` resolved. -/
  | state (s : GitState) (now : Timestamp)
  | threw (message : String)
  | finished
deriving DecidableEq

/-- A call, at the `await` it is suspended at. -/
inductive ObserveTask where
  | ledger (t : Task)
  /-- A tick, before its turn of this account. -/
  | waiting (observePass : Bool)
  /-- A pass waiting for `getOpenOrders`. -/
  | listing
  /-- A pass waiting for `_getState`, with what it is going to record. -/
  | stating (unknown : List ObservedOrder)
  /-- A pass waiting for `recordObservedOrders`. -/
  | recording (t : Task)
  /-- A tick behind its pass. -/
  | rest
  | settled
deriving DecidableEq

variable (cfg : ObserveConfig)

def unknownOrders (S : Shared) (listing : List OpenOrder) : List ObservedOrder :=
  listing.filterMap fun o ↦ (truthy o.orderId).bind fun id ↦
    if id ∈ getKnownOrderIds S.commits then none
    else some ⟨{ o.contract with aliceId := some (cfg.stampAliceId o.contract) }, o.order, id⟩

def startTick (S : Shared) : Shared × ObserveTask :=
  if S.running then (S, .settled)
  else
    let n := S.tickCount + 1
    let every := cfg.observeEveryTicks
    ({ S with running := true, tickCount := n },
      .waiting (0 < every && n % every == 1 % every))

/-- The stretch of a tick that ends with the listing asked for. -/
def turn (observePass healthy : Bool) : ObserveTask :=
  if !cfg.keyless && healthy && observePass && cfg.listsOpenOrders then .listing else .rest

def compare (S : Shared) (listing : List OpenOrder) : ObserveTask :=
  let unknown := unknownOrders cfg S listing
  if unknown = [] then .rest else .stating unknown

def dispatches : Operation → Bool
  | .placeOrder .. | .modifyOrder .. | .closePosition .. | .cancelOrder .. => true
  | _ => false

def dispatched : Task → Option Operation
  | .executing operations _ _ results => operations[results.length]?
  | _ => none

def Unanswerable (t : Task) (a : Answer) : Bool :=
  match a with
  | .reply _ => (dispatched t).any fun op ↦ !dispatches op
  | _ => false

def start (S : Shared) (i : Nat) : ObserveCall → Shared × ObserveTask
  | .ledger c =>
    let q := Git.start cfg.toPlatform S.ledger i c.1
    ({ S with ledger := q.1 }, .ledger q.2)
  | .tick => startTick cfg S
  | .accepts o => ({ S with orders := S.orders ++ [o] }, .settled)

def resume (S : Shared) (i : Nat) : ObserveTask → ObserveAnswer → Option (Shared × ObserveTask)
  | .ledger t, .ledger a =>
    if Unanswerable t a then none
    else
      (Git.resume S.ledger i t a).map fun q ↦
        ({ S with ledger := q.1, replies := S.replies ++ Passes.repliesOf t a }, .ledger q.2)
  | .waiting observePass, .turn healthy => some (S, turn cfg observePass healthy)
  | .listing, .listed listing => some (S, compare cfg S listing)
  | .stating unknown, .state s now =>
    let q := Git.start cfg.toPlatform S.ledger i (.recordObservedOrders unknown s now)
    some ({ S with ledger := q.1 }, .recording q.2)
  | .recording (.recording o), .ledger a =>
    (Git.resume S.ledger i (.recording o) a).map fun q ↦ ({ S with ledger := q.1 }, .rest)
  | .listing, .threw _ | .stating _, .threw _ => some (S, .rest)
  | .rest, .finished => some ({ S with running := false }, .settled)
  | _, _ => none

def observeProg : Prog Shared ObserveTask ObserveCall ObserveAnswer where
  start := start cfg
  resume := resume cfg

abbrev ObserveWorld := World Shared ObserveTask

abbrev ObserveEvent := Event ObserveCall ObserveAnswer

/-- A new account at a broker without orders. -/
def ObserveWorld.initial : ObserveWorld := ⟨{ ledger := ⟨{}, []⟩ }, []⟩

end OpenAlice.Trading.Observe
