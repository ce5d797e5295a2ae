import OpenAlice.Trading.Git.TradingGit

/-!
# What leaves a ledger, and what comes back

`projectOperation`, `exportState`, `show`, `status` and `restore` of `TradingGit`,
with `OrderHelper.toWire`, on the objects a running ledger holds.  There a numeric
property is a `Decimal` or what `JSON.parse` leaves in its place, and the sentinel
of an absent field is a `Decimal` like any other; both differences are gone from
the types of the exported file, `GitExportState` and below, where a property has a
value or is missing.

The properties of the IBKR classes that no function here looks at are plain data,
and leave and come back as they are.
-/

namespace OpenAlice.Trading.Live

inductive Numeric where
  /-- An instance of `Decimal`. -/
  | decimal (d : Decimal)
  | plain (d : Decimal)

def Numeric.value : Numeric → Decimal
  | .decimal d | .plain d => d

/-- `SENTINEL_DECIMAL_FIELDS`. -/
inductive DecimalField where
  | totalQuantity
  | cashQty
  | lmtPrice
  | auxPrice
  | trailStopPrice
  | trailingPercent
  | filledQuantity

/-! ## Objects of a running ledger -/

/-- An `Order`, or a part of one. -/
structure JsOrder where
  action : Option String := none
  orderType : Option String := none
  tif : Option String := none
  numbers : DecimalField → Option Numeric := fun _ ↦ none

/-- An `Order` in the place of a whole one: its texts are there, and its numbers are
`Decimal`s, but for the one that a restored ledger leaves as it found it. -/
structure WholeOrder extends JsOrder where
  complete : action.isSome = true ∧ orderType.isSome = true ∧ tif.isSome = true
  wrapped : ∀ f d, numbers f = some (.plain d) → f = .filledQuantity

inductive JsOperation where
  | placeOrder (contract : Contract) (order : WholeOrder) (tpsl : Option TpSlParams)
  | modifyOrder (orderId : String) (changes : JsOrder)
  | closePosition (contract : Contract) (quantity : Option Numeric)
  | cancelOrder (orderId : String)
  | syncOrders
  | observeExternalOrder (contract : Contract) (order : WholeOrder)
  | reconcileBalance (aliceId : String) (quantityDelta markPrice : Decimal)

structure JsOpenOrder where
  contract : Contract
  order : JsOrder
  orderState : OrderState
  orderId : Option String := none
  avgFillPrice : Option Decimal := none

/-- A position of a snapshot; `rest` is everything but its quantity and its
multiplier. -/
structure JsPosition where
  rest : Position
  quantity : Numeric
  multiplier : Decimal

structure JsState where
  netLiquidation : Decimal := 0
  totalCashValue : Decimal := 0
  unrealizedPnL : Decimal := 0
  realizedPnL : Decimal := 0
  positions : List JsPosition := []
  pendingOrders : List JsOpenOrder := []

structure JsCommit where
  hash : CommitHash
  parentHash : Option CommitHash
  message : String
  operations : List JsOperation
  results : List OperationResult
  stateAfter : JsState
  timestamp : Timestamp
  round : Option Nat

/-- A ledger, with the fields its observers read. -/
structure JsGit where
  stagingArea : List JsOperation := []
  pendingMessage : Option String := none
  pendingHash : Option CommitHash := none
  commits : List JsCommit := []
  head : Option CommitHash := none

/-! ## What leaves the ledger -/

/-- What `toWire` leaves of a property: nothing when it is the sentinel. -/
def wireNumber : Option Numeric → Option Numeric
  | some (.decimal d) => if d = unsetDecimal then none else some (.decimal d)
  | n => n

def JsOrder.toWire (o : JsOrder) : JsOrder := { o with numbers := fun f ↦ wireNumber (o.numbers f) }

theorem wireNumber_unset : wireNumber (some (.decimal unsetDecimal)) = none := by
  simp only [wireNumber, if_true]

theorem wireNumber_decimal {d : Decimal} (h : d ≠ unsetDecimal) :
    wireNumber (some (.decimal d)) = some (.decimal d) := by
  simp only [wireNumber, if_neg h]

theorem wireNumber_eq_plain {n : Option Numeric} {d : Decimal} :
    wireNumber n = some (.plain d) ↔ n = some (.plain d) := by
  unfold wireNumber
  split
  · split <;> simp
  · rfl

/-- `toWire` of a whole order. -/
def WholeOrder.toWire (o : WholeOrder) : WholeOrder where
  toJsOrder := o.toJsOrder.toWire
  complete := o.complete
  wrapped f d h := o.wrapped f d (wireNumber_eq_plain.mp h)

/-- `projectOperation`. -/
def JsOperation.project : JsOperation → JsOperation
  | .placeOrder contract order tpsl => .placeOrder contract order.toWire tpsl
  | .observeExternalOrder contract order => .observeExternalOrder contract order.toWire
  | .modifyOrder orderId changes => .modifyOrder orderId changes.toWire
  | op => op

/-- `projectCommit`. -/
def JsCommit.project (c : JsCommit) : JsCommit :=
  { c with operations := c.operations.map JsOperation.project }

/-- What `exportState` returns. -/
structure Exported where
  commits : List JsCommit
  head : Option CommitHash

def JsGit.exportState (g : JsGit) : Exported := ⟨g.commits.map JsCommit.project, g.head⟩

def JsGit.show (g : JsGit) (hash : CommitHash) : Option JsCommit :=
  (g.commits.find? fun c ↦ c.hash = hash).map JsCommit.project

/-- What `status` returns. -/
structure Status where
  staged : List JsOperation
  pendingMessage : Option String
  pendingHash : Option CommitHash
  head : Option CommitHash
  commitCount : Nat

def JsGit.status (g : JsGit) : Status where
  staged := g.stagingArea.map JsOperation.project
  pendingMessage := g.pendingMessage
  pendingHash := g.pendingHash
  head := g.head
  commitCount := g.commits.length

/-! ## JSON -/

def JsOrder.json (o : JsOrder) : Order where
  action := o.action
  orderType := o.orderType
  tif := o.tif
  totalQuantity := (o.numbers .totalQuantity).map Numeric.value
  cashQty := (o.numbers .cashQty).map Numeric.value
  lmtPrice := (o.numbers .lmtPrice).map Numeric.value
  auxPrice := (o.numbers .auxPrice).map Numeric.value
  trailStopPrice := (o.numbers .trailStopPrice).map Numeric.value
  trailingPercent := (o.numbers .trailingPercent).map Numeric.value
  filledQuantity := (o.numbers .filledQuantity).map Numeric.value

def JsOperation.json : JsOperation → Operation
  | .placeOrder contract order tpsl => .placeOrder contract order.json tpsl
  | .modifyOrder orderId changes => .modifyOrder orderId changes.json
  | .closePosition contract quantity => .closePosition contract (quantity.map Numeric.value)
  | .cancelOrder orderId => .cancelOrder orderId
  | .syncOrders => .syncOrders
  | .observeExternalOrder contract order => .observeExternalOrder contract order.json
  | .reconcileBalance aliceId quantityDelta markPrice =>
    .reconcileBalance aliceId quantityDelta markPrice

def JsOpenOrder.json (o : JsOpenOrder) : OpenOrder :=
  ⟨o.contract, o.order.json, o.orderState, o.orderId, o.avgFillPrice⟩

def JsPosition.json (p : JsPosition) : Position :=
  { p.rest with quantity := p.quantity.value, multiplier := some p.multiplier }

def JsState.json (s : JsState) : GitState :=
  ⟨s.netLiquidation, s.totalCashValue, s.unrealizedPnL, s.realizedPnL,
    s.positions.map JsPosition.json, s.pendingOrders.map JsOpenOrder.json⟩

def JsCommit.json (c : JsCommit) : GitCommit :=
  ⟨c.hash, c.parentHash, c.message, c.operations.map JsOperation.json, c.results,
    c.stateAfter.json, c.timestamp, c.round⟩

/-- `JSON.parse(JSON.stringify(·))` of an exported ledger. -/
def Exported.json (e : Exported) : GitExportState := ⟨e.commits.map JsCommit.json, e.head⟩

/-! ## What comes back -/

def number (o : Order) : DecimalField → Option Decimal
  | .totalQuantity => o.totalQuantity
  | .cashQty => o.cashQty
  | .lmtPrice => o.lmtPrice
  | .auxPrice => o.auxPrice
  | .trailStopPrice => o.trailStopPrice
  | .trailingPercent => o.trailingPercent
  | .filledQuantity => o.filledQuantity

/-- An order as `JSON.parse` leaves it. -/
def parsedOrder (o : Order) : JsOrder where
  action := o.action
  orderType := o.orderType
  tif := o.tif
  numbers f := (number o f).map .plain

/-- A property of a rehydrated order: a missing one is at its class default, and the
six that the code lists become `Decimal`s. -/
def rehydrateNumber : DecimalField → Option Decimal → Numeric
  | _, none => .decimal unsetDecimal
  | .filledQuantity, some d => .plain d
  | _, some d => .decimal d

theorem rehydrateNumber_plain {f : DecimalField} {n : Option Decimal} {d : Decimal}
    (h : rehydrateNumber f n = .plain d) : f = .filledQuantity := by
  cases n with
  | none => cases h
  | some n => cases f <;> first | rfl | cases h

/-- A new `Order`, overlaid with what the file has. -/
def rehydrateOrder (o : Order) : WholeOrder where
  action := some (o.action.getD "")
  orderType := some (o.orderType.getD "")
  tif := some (o.tif.getD "")
  numbers f := some (rehydrateNumber f (number o f))
  complete := ⟨rfl, rfl, rfl⟩
  wrapped _ _ h := rehydrateNumber_plain (Option.some.inj h)

def rehydrateOperation : Operation → JsOperation
  | .placeOrder contract order tpsl => .placeOrder contract (rehydrateOrder order) tpsl
  | .observeExternalOrder contract order => .observeExternalOrder contract (rehydrateOrder order)
  | .closePosition contract quantity => .closePosition contract (quantity.map .decimal)
  | .modifyOrder orderId changes => .modifyOrder orderId (parsedOrder changes)
  | .cancelOrder orderId => .cancelOrder orderId
  | .syncOrders => .syncOrders
  | .reconcileBalance aliceId quantityDelta markPrice =>
    .reconcileBalance aliceId quantityDelta markPrice

/-- An open order as `JSON.parse` leaves it. -/
def parsedOpenOrder (o : OpenOrder) : JsOpenOrder :=
  ⟨o.contract, parsedOrder o.order, o.orderState, o.orderId, o.avgFillPrice⟩

def rehydratePosition (p : Position) : JsPosition := ⟨p, .decimal p.quantity, p.multiplier.getD 1⟩

def rehydrateGitState (s : GitState) : JsState :=
  ⟨s.netLiquidation, s.totalCashValue, s.unrealizedPnL, s.realizedPnL,
    s.positions.map rehydratePosition, s.pendingOrders.map parsedOpenOrder⟩

def rehydrateCommit (c : GitCommit) : JsCommit :=
  ⟨c.hash, c.parentHash, c.message, c.operations.map rehydrateOperation, c.results,
    rehydrateGitState c.stateAfter, c.timestamp, c.round⟩

def restore (state : GitExportState) : JsGit :=
  { commits := state.commits.map rehydrateCommit, head := state.head }

/-- `restore(JSON.parse(JSON.stringify(g.exportState())))`. -/
def JsGit.reload (g : JsGit) : JsGit := restore g.exportState.json

/-! ## Ledgers -/

/-- `this.commits.push(commit)`, `this.head = hash`. -/
def JsGit.append (g : JsGit) (c : JsCommit) : JsGit :=
  { g with commits := g.commits ++ [c], head := some c.hash }

/-- The ledgers there are: a new one or one read back from a file, and then whatever
is staged, committed, and appended by a write. -/
inductive Reachable : JsGit → Prop
  | new : Reachable {}
  | restored (state : GitExportState) : Reachable (restore state)
  | added {g : JsGit} (op : JsOperation) (h : Reachable g) :
      Reachable { g with stagingArea := g.stagingArea ++ [op] }
  | prepared {g : JsGit} (message : String) (hash : CommitHash) (h : Reachable g) :
      Reachable { g with pendingMessage := some message, pendingHash := some hash }
  | appended {g : JsGit} (c : JsCommit) (h : Reachable g) : Reachable (g.append c)
  | cleared {g : JsGit} (h : Reachable g) :
      Reachable { g with stagingArea := [], pendingMessage := none, pendingHash := none }

end OpenAlice.Trading.Live
