import OpenAlice.Trading.Types

/-!
# The class `TradingGit`

The state of the ledger and the code of its methods that runs between two
suspensions (`services/uta/src/domain/trading/git/TradingGit.ts`).  The methods
that suspend are cut at their `await`s here and put together again in
`OpenAlice.Trading.Git.Step`.

`Platform` collects what the class takes from outside the repository: the
SHA-256 digest of the JSON text of its content, cut to eight digits, and
`decimal.js`'s plain notation.
-/

namespace OpenAlice.Trading

/-- The library functions the ledger calls. -/
structure Platform where
  /-- Eight hex digits of SHA-256 of the content as JSON. -/
  generateCommitHash : HashContent → CommitHash
  toFixed : Decimal → String

/-- What the methods throw. -/
inductive GitError where
  /-- A `PendingHashConflictError`. -/
  | pendingHashConflict (message : String)
  | error (message : String)
deriving DecidableEq

/-! ## Results of the methods -/

structure AddResult where
  index : Nat
  operation : Operation
deriving DecidableEq

structure CommitPrepareResult where
  hash : CommitHash
  message : String
  operationCount : Nat
deriving DecidableEq

structure PushResult where
  hash : CommitHash
  message : String
  operationCount : Nat
  submitted : List OperationResult
  rejected : List OperationResult
deriving DecidableEq

structure RejectResult where
  hash : CommitHash
  message : String
  operationCount : Nat
deriving DecidableEq

structure SyncResult where
  hash : CommitHash
  updatedCount : Nat
  updates : List OrderStatusUpdate
deriving DecidableEq

/-! ## The state -/

/-- The private fields of the class, its configuration aside. -/
structure TradingGit where
  stagingArea : List Operation := []
  pendingMessage : Option String := none
  pendingHash : Option CommitHash := none
  inflightWrite : Bool := false
  commits : List GitCommit := []
  head : Option CommitHash := none
  currentRound : Option Nat := none
deriving DecidableEq

namespace TradingGit

variable (pf : Platform)

/-! ## add and commit -/

/-- Stage an operation, unless a write is running or a commit awaits
approval. -/
def add (g : TradingGit) (operation : Operation) : Except GitError (TradingGit × AddResult) :=
  if g.inflightWrite then
    .error (.pendingHashConflict "A wallet write is already in progress")
  else if g.pendingHash.isSome || g.pendingMessage.isSome then
    .error (.pendingHashConflict
      "A commit is awaiting approval. Push or reject it before staging more operations.")
  else
    .ok ({ g with stagingArea := g.stagingArea ++ [operation] },
      ⟨g.stagingArea.length, operation⟩)

/-- The content `commit` hashes. -/
def pendingContent (g : TradingGit) (message : String) (timestamp : Timestamp) : HashContent :=
  .operations message g.stagingArea timestamp g.head

/-- Fix the staged operations under a message and a hash.  A second
`commit` before the push replaces both. -/
def commit (g : TradingGit) (message : String) (timestamp : Timestamp) :
    Except GitError (TradingGit × CommitPrepareResult) :=
  if g.inflightWrite then
    .error (.pendingHashConflict "A wallet write is already in progress")
  else if g.stagingArea = [] then
    .error (.error "Nothing to commit: staging area is empty")
  else
    let hash := pf.generateCommitHash (g.pendingContent message timestamp)
    .ok ({ g with pendingHash := some hash, pendingMessage := some message },
      ⟨hash, message, g.stagingArea.length⟩)

/-! ## The gate of push and reject -/

/-- The two methods that write under the in-flight flag. -/
inductive WriteKind where
  | push
  | reject (reason : Option String)
deriving DecidableEq

def WriteKind.verb : WriteKind → String
  | .push => "push"
  | .reject _ => "reject"

/-- `assertPrepared`, also the first lines of `executePush` and
`executeReject`. -/
def assertPrepared (g : TradingGit) (action : String) :
    Except GitError (List Operation × String × CommitHash) :=
  if g.stagingArea = [] then
    .error (.error s!"Nothing to {action}: staging area is empty")
  else
    match g.pendingMessage, g.pendingHash with
    | some message, some hash => .ok (g.stagingArea, message, hash)
    | _, _ => .error (.error s!"Nothing to {action}: please commit first")

def beginWrite (g : TradingGit) (expectedPendingHash : String) : Except GitError TradingGit :=
  if g.inflightWrite then
    .error (.pendingHashConflict "A wallet write is already in progress")
  else if expectedPendingHash = "" ∨ g.pendingHash ≠ some expectedPendingHash then
    .error (.pendingHashConflict "Pending commit changed")
  else
    .ok { g with inflightWrite := true }

def openWrite (g : TradingGit) (kind : WriteKind) (expectedPendingHash : String) :
    Except GitError (TradingGit × List Operation × String × CommitHash) := do
  let _ ← g.assertPrepared kind.verb
  let g' ← g.beginWrite expectedPendingHash
  let prepared ← g'.assertPrepared kind.verb
  return (g', prepared)

/-- The `finally` of a write. -/
def endWrite (g : TradingGit) : TradingGit := { g with inflightWrite := false }

/-- "Clear staging", the last lines of a write that succeeded. -/
def clearStaging (g : TradingGit) : TradingGit :=
  { g with stagingArea := [], pendingMessage := none, pendingHash := none }

theorem add_ok {g g' : TradingGit} {op : Operation} {r : AddResult} (h : g.add op = .ok (g', r)) :
    g.inflightWrite = false ∧ g.pendingHash = none ∧ g.pendingMessage = none ∧
      g' = { g with stagingArea := g.stagingArea ++ [op] } := by
  simp only [add] at h
  split at h
  · cases h
  rename_i hf
  split at h
  · cases h
  rename_i hp
  simp only [Bool.or_eq_true, not_or, Option.not_isSome_iff_eq_none] at hp
  simp only [Except.ok.injEq, Prod.mk.injEq] at h
  exact ⟨by simpa using hf, hp.1, hp.2, h.1.symm⟩

variable {pf} in
theorem commit_ok {g g' : TradingGit} {message : String} {t : Timestamp} {r : CommitPrepareResult}
    (h : g.commit pf message t = .ok (g', r)) :
    g.inflightWrite = false ∧ g.stagingArea ≠ [] ∧
      r.hash = pf.generateCommitHash (g.pendingContent message t) ∧
      g' = { g with pendingHash := some r.hash, pendingMessage := some message } := by
  simp only [commit] at h
  split at h
  · cases h
  rename_i hf
  split at h
  · cases h
  rename_i hs
  simp only [Except.ok.injEq, Prod.mk.injEq] at h
  obtain ⟨rfl, rfl⟩ := h
  exact ⟨by simpa using hf, hs, rfl, rfl⟩

theorem openWrite_ok {g g' : TradingGit} {kind : WriteKind} {expected message : String}
    {operations : List Operation} {hash : CommitHash}
    (h : g.openWrite kind expected = .ok (g', operations, message, hash)) :
    g.inflightWrite = false ∧ operations ≠ [] ∧ g.stagingArea = operations ∧
      g.pendingMessage = some message ∧ g.pendingHash = some hash ∧ hash = expected ∧
      g' = { g with inflightWrite := true } := by
  simp only [openWrite, beginWrite, assertPrepared, bind, Except.bind, pure, Except.pure] at h
  split at h
  · cases h
  rename_i _ _ h₁
  split at h₁
  · cases h₁
  rename_i hs
  split at h
  · cases h
  rename_i _ _ h₂
  split at h₂
  · cases h₂
  rename_i hf
  split at h₂
  · cases h₂
  rename_i he
  cases h₂
  rw [not_or, not_not] at he
  simp only [if_neg hs] at h
  split at h
  · cases h
  rename_i _ _ h₃
  split at h₃
  · rename_i m hh hm hhash
    cases h₃
    cases h
    exact ⟨by simpa using hf, hs, rfl, hm, hhash,
      Option.some.inj (hhash.symm.trans he.2), rfl⟩
  · cases h₃

theorem openWrite_of {g : TradingGit} {operations : List Operation} {message : String}
    {hash : CommitHash} (kind : WriteKind) (hf : g.inflightWrite = false) (hne : operations ≠ [])
    (hs : g.stagingArea = operations) (hm : g.pendingMessage = some message)
    (hh : g.pendingHash = some hash) (he : hash ≠ "") :
    g.openWrite kind hash = .ok ({ g with inflightWrite := true }, operations, message, hash) := by
  subst hs
  simp [openWrite, assertPrepared, beginWrite, hf, hne, hm, hh, he, bind, Except.bind, pure,
    Except.pure]

/-! ## Reading the dispatcher's reply -/

/-- Any status but the three named ones counts as submitted. -/
def mapOrderStatus (orderState : Option OrderState) : OperationStatus :=
  match orderState.map OrderState.status with
  | some "Filled" => .filled
  | some "Cancelled" => .cancelled
  | some "Inactive" => .rejected
  | _ => .submitted

def parseOperationResult (op : Operation) (raw : RawReply) : OperationResult :=
  match raw with
  | .notObject =>
    { action := op.action, success := false, status := .rejected,
      error := some "Invalid response from trading engine", raw := some raw }
  | .object false error _ _ _ =>
    { action := op.action, success := false, status := .rejected,
      error := some (error.getD "Unknown error"), raw := some raw }
  | .object true _ orderId orderState legs =>
    { action := op.action, success := true, orderId, status := mapOrderStatus orderState,
      orderState, legs, raw := some raw }

def thrownResult (op : Operation) (message : String) : OperationResult :=
  { action := op.action, success := false, status := .rejected, error := some message }

def rejectResults (operations : List Operation) (reason : Option String) : List OperationResult :=
  operations.map fun op ↦
    { action := op.action, success := false, status := .userRejected,
      error := some ((truthy reason).getD "Rejected by user") }

def rejectMessage (message : String) (reason : Option String) : String :=
  "[rejected] " ++ message ++
    match truthy reason with
    | some r => " — " ++ r
    | none => ""

/-! ## Appending to the log -/

def append (g : TradingGit) (hash : CommitHash) (message : String) (operations : List Operation)
    (results : List OperationResult) (stateAfter : GitState) (timestamp : Timestamp) :
    TradingGit :=
  let commit : GitCommit :=
    ⟨hash, g.head, message, operations, results, stateAfter, timestamp, g.currentRound⟩
  { g with commits := g.commits ++ [commit], head := some hash }

/-- The arguments of `recordReconcile`. -/
structure ReconcileParams where
  aliceId : String
  quantityDelta : Decimal
  markPrice : Decimal
  stateAfter : GitState
  message : Option String := none

def ReconcileParams.operation (p : ReconcileParams) : Operation :=
  .reconcileBalance p.aliceId p.quantityDelta p.markPrice

def ReconcileParams.result (p : ReconcileParams) : OperationResult :=
  { action := .reconcileBalance, success := true, status := .filled,
    filledQty := some |p.quantityDelta|, filledPrice := some p.markPrice }

def ReconcileParams.text (p : ReconcileParams) : String :=
  p.message.getD
    ("reconcile: " ++ (if 0 ≤ p.quantityDelta then "observed" else "released") ++ " " ++
      pf.toFixed |p.quantityDelta| ++ " " ++ p.aliceId ++ " @ " ++ pf.toFixed p.markPrice)

/-- `recordReconcile` up to its persistence, with the commit's hash. -/
def recordReconcile (g : TradingGit) (p : ReconcileParams) (timestamp : Timestamp) :
    TradingGit × CommitHash :=
  let hash := pf.generateCommitHash
    (.operations (p.text pf) [p.operation] timestamp g.head)
  (g.append hash (p.text pf) [p.operation] [p.result] p.stateAfter timestamp, hash)

/-- An open order found on the broker that the ledger does not know. -/
structure ObservedOrder where
  contract : Contract
  order : Order
  orderId : String
deriving DecidableEq

def ObservedOrder.operation (o : ObservedOrder) : Operation :=
  .observeExternalOrder o.contract o.order

def ObservedOrder.result (o : ObservedOrder) : OperationResult :=
  { action := .observeExternalOrder, success := true, orderId := some o.orderId,
    status := .submitted }

/-- `recordObservedOrders` up to its persistence: one squashed commit. -/
def recordObservedOrders (g : TradingGit) (observed : List ObservedOrder) (stateAfter : GitState)
    (timestamp : Timestamp) : TradingGit × CommitHash :=
  let operations := observed.map ObservedOrder.operation
  let message := s!"[observed] {observed.length} external order(s) not placed through Alice"
  let hash := pf.generateCommitHash (.operations message operations timestamp g.head)
  (g.append hash message operations (observed.map ObservedOrder.result) stateAfter timestamp,
    hash)

def syncRow (u : OrderStatusUpdate) : OperationResult :=
  { action := .syncOrders, success := true, orderId := some u.orderId, status := u.currentStatus,
    filledQty := u.filledQty, filledPrice := u.filledPrice, fee := u.fee,
    feeCurrency := u.feeCurrency, symbol := some u.symbol }

def syncMessage (updates : List OrderStatusUpdate) : String :=
  "[sync] " ++
    ", ".intercalate ((updates.take 3).map fun u ↦ u.symbol ++ " " ++ u.currentStatus.toText) ++
    if 3 < updates.length then s!" +{updates.length - 3} more" else ""

/-- `sync` up to its persistence, for a non-empty list of updates.  The two
timestamps are the two `new Date()` of the source. -/
def sync (g : TradingGit) (updates : List OrderStatusUpdate) (currentState : GitState)
    (hashedAt timestamp : Timestamp) : TradingGit × CommitHash :=
  let hash := pf.generateCommitHash (.updates updates hashedAt g.head)
  (g.append hash (syncMessage updates) [.syncOrders] (updates.map syncRow) currentState timestamp,
    hash)

def setCurrentRound (g : TradingGit) (round : Nat) : TradingGit :=
  { g with currentRound := some round }

end TradingGit

/-! ## Serialization -/

def stripUnset : Option Decimal → Option Decimal
  | some d => if d = unsetDecimal then none else some d
  | none => none

def Order.toWire (o : Order) : Order :=
  { o with
    totalQuantity := stripUnset o.totalQuantity
    cashQty := stripUnset o.cashQty
    lmtPrice := stripUnset o.lmtPrice
    auxPrice := stripUnset o.auxPrice
    trailStopPrice := stripUnset o.trailStopPrice
    trailingPercent := stripUnset o.trailingPercent
    filledQuantity := stripUnset o.filledQuantity }

/-- `rehydrateOrder`: a fresh `Order` overlaid with the persisted fields, so a
missing field is back at its class default. -/
def Order.rehydrate (o : Order) : Order :=
  { action := some (o.action.getD "")
    orderType := some (o.orderType.getD "")
    tif := some (o.tif.getD "")
    totalQuantity := some (o.totalQuantity.getD unsetDecimal)
    cashQty := some (o.cashQty.getD unsetDecimal)
    lmtPrice := some (o.lmtPrice.getD unsetDecimal)
    auxPrice := some (o.auxPrice.getD unsetDecimal)
    trailStopPrice := some (o.trailStopPrice.getD unsetDecimal)
    trailingPercent := some (o.trailingPercent.getD unsetDecimal)
    filledQuantity := some (o.filledQuantity.getD unsetDecimal) }

/-- `projectOperation`: what leaves the class of an operation. -/
def Operation.project : Operation → Operation
  | .placeOrder contract order tpsl => .placeOrder contract order.toWire tpsl
  | .observeExternalOrder contract order => .observeExternalOrder contract order.toWire
  | .modifyOrder orderId changes => .modifyOrder orderId changes.toWire
  | op => op

/-- `rehydrateOperation`: the operation read back from disk. -/
def Operation.rehydrate : Operation → Operation
  | .placeOrder contract order tpsl => .placeOrder contract order.rehydrate tpsl
  | .observeExternalOrder contract order => .observeExternalOrder contract order.rehydrate
  | op => op

/-- `rehydrateGitState`: old files lack a position's multiplier. -/
def GitState.rehydrate (s : GitState) : GitState :=
  { s with positions := s.positions.map fun p ↦ { p with multiplier := some (p.multiplier.getD 1) } }

/-- `projectCommit`. -/
def GitCommit.project (c : GitCommit) : GitCommit :=
  { c with operations := c.operations.map Operation.project }

/-- `rehydrateCommit`. -/
def GitCommit.rehydrate (c : GitCommit) : GitCommit :=
  { c with operations := c.operations.map Operation.rehydrate, stateAfter := c.stateAfter.rehydrate }

namespace TradingGit

def exportState (g : TradingGit) : GitExportState :=
  { commits := g.commits.map GitCommit.project, head := g.head }

def restore (state : GitExportState) : TradingGit :=
  { commits := state.commits.map GitCommit.rehydrate, head := state.head }

end TradingGit

end OpenAlice.Trading
