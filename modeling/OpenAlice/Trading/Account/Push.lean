import OpenAlice.Trading.Git.Cases

/-!
# Pushing through the account

`UnifiedTradingAccount.push` and the dispatcher it gives to its ledger
(`services/uta/src/domain/trading/UnifiedTradingAccount.ts`).  A push is
automated or manual; whether the dispatcher asks the risk controller about an
operation is decided by one shared boolean, which an automated push sets before
its last checks and which the `finally` of any push clears.

An operation of a push suspends up to four times: in the guard pipeline, in
`AutoTradingRiskController.check`, in the position read of a partial close, and
in the broker.  The rest of a push, and every other method of the ledger, is the
program of `OpenAlice.Trading.Git.Step`.

The shared state carries the history of what the dispatcher did for each call.
-/

namespace OpenAlice.Trading.Push

open OpenAlice.Run OpenAlice.Trading.Git

/-- What is fixed when the account is built, and the broker's pure functions. -/
structure PushConfig extends Platform where
  label : String
  keyless : Bool
  readOnly : Bool
  /-- An `AutoTradingRiskController` was built. -/
  autoTrading : Bool
  automatedExecutionIsPaper : Bool
  /-- The account has guards. -/
  guarded : Bool
  getNativeKey : Contract → String
  /-- `Decimal.prototype.toString`. -/
  decimalText : Decimal → String

/-- What the dispatcher did for an operation. -/
inductive DispatchAct where
  /-- It called `AutoTradingRiskController.check`. -/
  | check (operation : Operation)
  /-- The check returned without an error. -/
  | passed (operation : Operation)
  | execute (operation : Operation)

structure Account where
  ledger : Ledger
  automatedPushActive : Bool := false
  disabled : Bool := false
  /-- `health` is `offline`. -/
  offline : Bool := false
  /-- What the dispatcher did, and for which call. -/
  history : List (Nat × DispatchAct) := []

/-- Add to the history of call number `i`. -/
def Account.note (A : Account) (i : Nat) (act : DispatchAct) : Account :=
  { A with history := A.history ++ [(i, act)] }

abbrev LedgerCall := { c : Call // ∀ expected, c ≠ .push expected }

inductive AccountCall where
  | push (expectedPendingHash : String) (automated : Bool)
  /-- A call that goes to the ledger: `stage…`, `commit`, `reject`, and what a
  sync or a reconciliation records. -/
  | ledger (c : LedgerCall)
  /-- The health of the account changes. -/
  | health (disabled offline : Bool)

/-- What an account's call waits for. -/
inductive PushAnswer where
  /-- Whether the emergency stop is on. -/
  | stop (on : Bool)
  | guards (rejection : Option (String × String))
  | position (size : Option Decimal)
  | settled
  /-- A callback of the ledger answered; `threw` is any error. -/
  | git (a : Answer)

/-- The locals of the ledger's push while it waits for `executeOperation`. -/
structure Loop where
  operations : List Operation
  message : String
  hash : CommitHash
  results : List OperationResult

def Loop.task (l : Loop) : Task := .executing l.operations l.message l.hash l.results

/-- A call, at the `await` it is suspended at. -/
inductive Stage where
  /-- Waiting for the emergency stop. -/
  | stopping (expectedPendingHash : String)
  | guarding (loop : Loop) (operation : Operation)
  | checking (loop : Loop) (operation : Operation)
  /-- Waiting for the position a partial close is compared with. -/
  | closing (loop : Loop) (contract : Contract) (quantity : Decimal)
  | executing (loop : Loop)
  /-- Waiting for the dispatcher's own error. -/
  | failing (loop : Loop) (message : String)
  /-- Past the dispatch loop, inside the ledger's push. -/
  | writing (task : Task)
  /-- The ledger's push settled, the `finally` is still to come. -/
  | settling (outcome : Outcome)
  /-- Waiting for `recordFailure`. -/
  | recordingFailure (outcome : Outcome)
  | ledger (task : Task)
  | done (outcome : Outcome)

structure PushTask where
  automated : Bool
  stage : Stage

variable (cfg : PushConfig)

/-! ## The dispatcher -/

/-- The text of `_assertCanMutateAccount`. -/
def readOnlyMessage (action : String) : String :=
  s!"Account \"{cfg.label}\" is read-only" ++
    (if cfg.keyless then " (keyless public-data account)" else "") ++
    s!" — {action} would mutate the external account, which is not allowed."

/-- The end of the dispatcher: call the broker, for a partial close after reading
the position. -/
def perform (A : Account) (i : Nat) (loop : Loop) (op : Operation) : Account × Stage :=
  match op with
  | .closePosition contract (some quantity) =>
    if quantity ≤ 0 then
      (A, .failing loop "closePosition: qty must be a positive finite number.")
    else (A, .closing loop contract quantity)
  | .placeOrder .. | .modifyOrder .. | .cancelOrder _ | .closePosition _ none =>
    (A.note i (.execute op), .executing loop)
  | _ => (A, .failing loop s!"Unknown operation action: {op.action.toText}")

def dispatcher (A : Account) (i : Nat) (loop : Loop) (op : Operation) : Account × Stage :=
  if cfg.readOnly then (A, .failing loop (readOnlyMessage cfg op.action.toText))
  else if A.automatedPushActive then (A.note i (.check op), .checking loop op)
  else perform A i loop op

/-- `createGuardPipeline`: without guards it is the dispatcher itself. -/
def guardPipeline (A : Account) (i : Nat) (loop : Loop) (op : Operation) : Account × Stage :=
  if cfg.guarded then (A, .guarding loop op) else dispatcher cfg A i loop op

/-- Go on with a push from the ledger's task: dispatch the operation it waits
for, if it waits for one. -/
def follow (A : Account) (i : Nat) (task : Task) : Account × Stage :=
  match task with
  | .executing operations message hash results =>
    match operations[results.length]? with
    | some op => guardPipeline cfg A i ⟨operations, message, hash, results⟩ op
    | none => (A, .writing task)
  | .done o => (A, .settling o)
  | task => (A, .writing task)

def answer (A : Account) (i : Nat) (task : Task) (a : Answer) : Option (Account × Stage) :=
  (Git.resume A.ledger i task a).map fun q ↦ follow cfg { A with ledger := q.1 } i q.2

def positionError (contract : Contract) (quantity : Decimal) (size : Option Decimal) :
    Option String :=
  let label := (truthy (some contract.symbol)).getD
    ((truthy (some contract.localSymbol)).getD (cfg.getNativeKey contract))
  match size with
  | none => some
      s!"closePosition: no open position found for {label}. Refresh positions before retrying."
  | some size =>
    if |size| < quantity then some (s!"closePosition: quantity {cfg.decimalText quantity} " ++
      s!"exceeds the open {label} position size {cfg.decimalText |size|}. " ++
      s!"Use a quantity no greater than {cfg.decimalText |size|}, " ++
      "or omit qty to close the full position.")
    else none

/-! ## push -/

/-- The checks of `push` after the automated ones, and the ledger's push. -/
def enterPush (A : Account) (i : Nat) (expectedPendingHash : String) : Account × Stage :=
  if cfg.readOnly then (A, .done (.threw (.error (readOnlyMessage cfg "push"))))
  else if A.disabled then
    (A, .done (.threw (.error
      s!"Account \"{cfg.label}\" is disabled due to configuration error.")))
  else if A.offline then
    (A, .done (.threw (.error s!"Account \"{cfg.label}\" is offline. Cannot execute trades.")))
  else
    let q := Git.start cfg.toPlatform A.ledger i (.push expectedPendingHash)
    follow cfg { A with ledger := q.1 } i q.2

def start (A : Account) (i : Nat) : AccountCall → Account × PushTask
  | .push expected true =>
    if !cfg.autoTrading then
      (A, ⟨true, .done (.threw (.error "Automatic trading is not enabled for this account."))⟩)
    else if !cfg.automatedExecutionIsPaper then
      (A, ⟨true, .done (.threw (.error
        "Automatic trading is restricted to paper/demo accounts."))⟩)
    else (A, ⟨true, .stopping expected⟩)
  | .push expected false =>
    let q := enterPush cfg A i expected
    (q.1, ⟨false, q.2⟩)
  | .ledger c =>
    let q := Git.start cfg.toPlatform A.ledger i c
    ({ A with ledger := q.1 }, ⟨false, .ledger q.2⟩)
  | .health disabled offline => ({ A with disabled, offline }, ⟨false, .done .roundSet⟩)

/-- The `finally` of `push`, and what follows it. -/
def settle (A : Account) (automated : Bool) (o : Outcome) : Account × Stage :=
  let A := { A with automatedPushActive := false }
  match o with
  | .pushed r => if automated && !r.rejected.isEmpty then (A, .recordingFailure o) else (A, .done o)
  | _ => (A, .done o)

def advance (A : Account) (i : Nat) (automated : Bool) : Stage → PushAnswer →
    Option (Account × Stage)
  | .stopping _, .stop true => some (A, .done (.threw (.error
      "Automatic trading is stopped by the global emergency stop.")))
  | .stopping expected, .stop false =>
    some (enterPush cfg { A with automatedPushActive := true } i expected)
  | .stopping _, .git (.threw text) => some (A, .done (.threw (.error text)))
  | .guarding loop op, .guards none => some (dispatcher cfg A i loop op)
  | .guarding loop _, .guards (some (name, rejection)) =>
    answer cfg A i loop.task
      (.reply (.object false (some s!"[guard:{name}] {rejection}") none none []))
  | .guarding loop _, .git (.threw text) => answer cfg A i loop.task (.threw text)
  | .checking loop op, .settled => some (perform (A.note i (.passed op)) i loop op)
  | .checking loop _, .git (.threw text) => answer cfg A i loop.task (.threw text)
  | .closing loop contract quantity, .position size =>
    match positionError cfg contract quantity size with
    | some text => answer cfg A i loop.task (.threw text)
    | none => some (A.note i (.execute (.closePosition contract (some quantity))),
        .executing loop)
  | .closing loop _ _, .git (.threw text) => answer cfg A i loop.task (.threw text)
  | .executing loop, .git a => answer cfg A i loop.task a
  | .failing loop message, .settled => answer cfg A i loop.task (.threw message)
  | .writing task, .git a => answer cfg A i task a
  | .settling o, .settled => some (settle A automated o)
  | .recordingFailure o, .settled => some (A, .done o)
  | .recordingFailure _, .git (.threw text) => some (A, .done (.threw (.error text)))
  | .ledger task, .git a =>
    (Git.resume A.ledger i task a).map fun q ↦ ({ A with ledger := q.1 }, .ledger q.2)
  | _, _ => none

def resume (A : Account) (i : Nat) (t : PushTask) (a : PushAnswer) : Option (Account × PushTask) :=
  (advance cfg A i t.automated t.stage a).map fun q ↦ (q.1, ⟨t.automated, q.2⟩)

def pushProg : Prog Account PushTask AccountCall PushAnswer where
  start := start cfg
  resume := resume cfg

abbrev PushWorld := World Account PushTask

abbrev PushEvent := Event AccountCall PushAnswer

/-- An account built over a ledger, before the first call. -/
def PushWorld.initial (g : TradingGit) : PushWorld := ⟨{ ledger := ⟨g, []⟩ }, []⟩

end OpenAlice.Trading.Push
