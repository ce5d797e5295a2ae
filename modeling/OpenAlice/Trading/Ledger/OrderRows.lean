import OpenAlice.Trading.Ledger.CostBasis
import OpenAlice.Trading.Ledger.OrderHistory

/-!
# Order history

`projectOrderHistory` of
`services/uta/src/domain/trading/order-history.ts`: one row for every order of the
log, with what became of it.  A row is entered by the operation that introduced
the order, and rewritten by a cancellation or by a row of a sync.
-/

namespace OpenAlice.Trading

inductive OrderSource where
  | alice
  | external

structure OrderHistoryEntry where
  orderId : Option String := none
  timestamp : Timestamp
  contract : HistoryContract
  side : TradeSide
  orderType : Option String := none
  quantity : Option Decimal := none
  limitPrice : Option Decimal := none
  stopPrice : Option Decimal := none
  status : OperationStatus
  filledQty : Option Decimal := none
  avgFillPrice : Option Decimal := none
  fee : Option Decimal := none
  feeCurrency : Option String := none
  source : OrderSource
  commitHash : CommitHash
  message : String
  resolvedAt : Option Timestamp := none
  error : Option String := none

/-- The part of a row that `orderFields` reads off an order. -/
structure OrderTerms where
  side : TradeSide
  orderType : Option String := none
  quantity : Option Decimal := none
  limitPrice : Option Decimal := none
  stopPrice : Option Decimal := none

def orderFields (o : Order) : OrderTerms where
  side := Order.side o
  orderType := truthy o.orderType
  quantity := stripUnset o.totalQuantity
  limitPrice := stripUnset o.lmtPrice
  stopPrice := stripUnset o.auxPrice

def Operation.terms : Operation → OrderTerms
  | .placeOrder _ o _ | .observeExternalOrder _ o => orderFields o
  | .closePosition _ quantity => { side := .sell, orderType := some "MKT", quantity }
  | _ => { side := .buy }

def orderRow (c : GitCommit) (op : Operation) (contract : Contract) (r : Option OperationResult) :
    OrderHistoryEntry :=
  let terms := op.terms
  { orderId := r.bind resultId
    timestamp := c.timestamp
    contract := toHistoryContract contract
    side := terms.side
    orderType := terms.orderType
    quantity := terms.quantity
    limitPrice := terms.limitPrice
    stopPrice := terms.stopPrice
    status := (r.map OperationResult.status).getD .rejected
    filledQty := r.bind OperationResult.filledQty
    avgFillPrice := r.bind OperationResult.filledPrice
    source := if op.action = .observeExternalOrder then .external else .alice
    commitHash := c.hash
    message := c.message
    error := r.bind fun r ↦ truthy r.error }

structure OrderRows where
  byOrderId : List (String × OrderHistoryEntry) := []
  anonymous : List OrderHistoryEntry := []

def OrderRows.set (rows : OrderRows) (id : String) (entry : OrderHistoryEntry) : OrderRows :=
  if id ∈ rows.byOrderId.map Prod.fst then
    { rows with byOrderId := rows.byOrderId.map fun q ↦ if q.1 = id then (id, entry) else q }
  else { rows with byOrderId := rows.byOrderId ++ [(id, entry)] }

def OrderRows.resolve (rows : OrderRows) (id : String) (f : OrderHistoryEntry → OrderHistoryEntry) :
    OrderRows :=
  { rows with byOrderId := rows.byOrderId.map fun q ↦ if q.1 = id then (id, f q.2) else q }

def rowsOperation (c : GitCommit) (rows : OrderRows) (p : Operation × Option OperationResult) :
    OrderRows :=
  match p.1.contract? with
  | some contract =>
    let entry := orderRow c p.1 contract p.2
    match p.2.bind resultId with
    | some id => rows.set id entry
    | none => { rows with anonymous := rows.anonymous ++ [entry] }
  | none =>
    match p.1 with
    | .cancelOrder id =>
      if p.2.any OperationResult.success then
        rows.resolve id fun e ↦ { e with status := .cancelled, resolvedAt := some c.timestamp }
      else rows
    | _ => rows

def rowsSync (c : GitCommit) (rows : OrderRows) (r : OperationResult) : OrderRows :=
  match resultId r with
  | some id =>
    if r.success then
      rows.resolve id fun e ↦
        { e with
          status := r.status
          resolvedAt := some c.timestamp
          filledQty := r.filledQty.or e.filledQty
          avgFillPrice := r.filledPrice.or e.avgFillPrice
          fee := r.fee.or e.fee
          feeCurrency := (truthy r.feeCurrency).or e.feeCurrency }
    else rows
  | none => rows

def rowsCommit (rows : OrderRows) (c : GitCommit) : OrderRows :=
  let rows := c.pairs.foldl (rowsOperation c) rows
  if c.isSync then c.results.foldl (rowsSync c) rows else rows

def orderRows (commits : List GitCommit) : OrderRows := commits.foldl rowsCommit {}

def projectOrderHistory (commits : List GitCommit) (limit : Option Nat) : List OrderHistoryEntry :=
  let rows := orderRows commits
  let all := rows.byOrderId.map Prod.snd ++ rows.anonymous
  let sorted := all.reverse.mergeSort fun a b ↦ b.timestamp ≤ a.timestamp
  match limit with
  | some (n + 1) => sorted.take (n + 1)
  | _ => sorted

/-! ## The exported log -/

theorem stripUnset_stripUnset (d : Option Decimal) : stripUnset (stripUnset d) = stripUnset d := by
  cases d with
  | none => rfl
  | some d =>
    by_cases h : d = unsetDecimal
    · simp [stripUnset, h]
    · simp [stripUnset, h]

/-- A row shows the same terms of an order whether its sentinels are stripped or
not. -/
theorem orderFields_toWire (o : Order) : orderFields o.toWire = orderFields o := by
  simp only [orderFields, Order.toWire, stripUnset_stripUnset]
  rfl

theorem rowsOperation_project (c : GitCommit) (rows : OrderRows)
    (p : Operation × Option OperationResult) :
    rowsOperation c.project rows (projectPair p) = rowsOperation c rows p := by
  obtain ⟨op, r⟩ := p
  have hterms : op.project.terms = op.terms := by
    cases op with
    | placeOrder contract order tpsl => exact orderFields_toWire order
    | observeExternalOrder contract order => exact orderFields_toWire order
    | _ => rfl
  have hrow : ∀ contract, orderRow c.project op.project contract r = orderRow c op contract r := by
    intro contract
    have haction : op.project.action = op.action := by cases op <;> rfl
    simp only [orderRow, hterms, haction]
    rfl
  simp only [rowsOperation, projectPair, (project_reads "" op).1, hrow]
  cases op <;> rfl

theorem orderRows_project (commits : List GitCommit) :
    orderRows (commits.map GitCommit.project) = orderRows commits := by
  rw [orderRows, orderRows, List.foldl_map]
  refine List.foldl_ext _ _ _ fun rows c _ ↦ ?_
  have hpairs : c.project.pairs.foldl (rowsOperation c.project) rows =
      c.pairs.foldl (rowsOperation c) rows := by
    rw [pairs_project, List.foldl_map]
    exact List.foldl_ext _ _ _ fun rows p _ ↦ rowsOperation_project c rows p
  simp only [rowsCommit, hpairs, isSync_project]
  rfl

theorem projectOrderHistory_project (commits : List GitCommit) (limit : Option Nat) :
    projectOrderHistory (commits.map GitCommit.project) limit = projectOrderHistory commits limit := by
  simp only [projectOrderHistory, orderRows_project]

theorem getPendingOrderIds_project (commits : List GitCommit) :
    getPendingOrderIds (commits.map GitCommit.project) = getPendingOrderIds commits := by
  have hcandidates : ∀ c : GitCommit, c.project.candidates = c.candidates := by
    intro c
    simp only [GitCommit.candidates, GitCommit.project, candidatesOf, List.getElem?_map]
    refine List.flatMap_congr fun q _ ↦ ?_
    have hunder : ∀ op? : Option Operation,
        candidatesUnder (op?.map Operation.project) q.1 = candidatesUnder op? q.1 := by
      intro op?
      cases op? with
      | none => rfl
      | some op => cases op <;> rfl
    rw [← Option.map_or, hunder]
  have hstatus : ∀ id, orderStatus (commits.map GitCommit.project) id = orderStatus commits id := by
    intro id
    simp only [orderStatus, ← List.map_reverse, List.flatMap_map]
    rfl
  simp only [getPendingOrderIds, List.flatMap_map, hcandidates]
  refine List.foldl_ext _ _ _ fun pending o _ ↦ ?_
  simp only [addPending, hstatus]

theorem getKnownOrderIds_project (commits : List GitCommit) :
    getKnownOrderIds (commits.map GitCommit.project) = getKnownOrderIds commits := by
  rw [getKnownOrderIds, List.flatMap_map]
  rfl

end OpenAlice.Trading
