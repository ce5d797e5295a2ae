import Mathlib.Data.List.Sort
import OpenAlice.Trading.Ledger.Orders

/-!
# Trade history

`projectTradeHistory` of
`services/uta/src/domain/trading/order-history.ts`: the fills of the log, newest
first.  The comparator of its sort puts an equal element before its predecessor,
so that fills of one timestamp come out in reverse log order; `tradesOf` is the
list before the sort, in log order.
-/

namespace OpenAlice.Trading

variable (rnd : Decimal → Decimal)

inductive OptionRight where
  | call
  | put

structure HistoryContract where
  aliceId : Option String := none
  symbol : Option String := none
  localSymbol : Option String := none
  secType : Option String := none
  currency : Option String := none
  exchange : Option String := none
  expiry : Option String := none
  strike : Option ℚ := none
  right : Option OptionRight := none
  multiplier : Option Decimal := none

def optionRight (text : String) : Option OptionRight :=
  if text = "C" ∨ text = "CALL" then some .call
  else if text = "P" ∨ text = "PUT" then some .put
  else none

def toHistoryContract (c : Contract) : HistoryContract where
  aliceId := truthy c.aliceId
  symbol := truthy (some c.symbol)
  localSymbol := truthy (some c.localSymbol)
  secType := truthy (some c.secType)
  currency := truthy (some c.currency)
  exchange := truthy (some c.exchange)
  expiry := truthy (some c.lastTradeDateOrContractMonth)
  strike := c.strike.filter fun s ↦ 0 < s
  right := optionRight c.right
  multiplier := c.multiplier

inductive TradeHistorySource where
  | order
  | external
  | reconcile

structure TradeHistoryEntry where
  timestamp : Timestamp
  orderId : Option String := none
  contract : HistoryContract
  side : TradeSide
  quantity : Decimal
  price : Decimal
  value : Decimal
  fee : Option Decimal := none
  feeCurrency : Option String := none
  source : TradeHistorySource
  commitHash : CommitHash

/-- `quantity × price × multiplier`, with a missing multiplier read as 1. -/
def tradeValue (qty price : Decimal) (multiplier : Option Decimal) : Decimal :=
  rnd (rnd (qty * price) * multiplier.getD 1)

def Operation.tradeSide : Operation → TradeSide
  | .placeOrder _ o _ | .observeExternalOrder _ o => Order.side o
  | .closePosition .. => .sell
  | _ => .buy

def commitSourceIsExternal (commits : List GitCommit) (id : String) : Bool :=
  match (commits.flatMap GitCommit.pairs).find? (fun p ↦ (p.2.bind (·.orderId)) = some id) with
  | some (.observeExternalOrder .., _) => true
  | _ => false

/-- The variables of the projection: the trades so far, and the orders whose fill
has been counted. -/
structure TradeLog where
  trades : List TradeHistoryEntry := []
  counted : List String := []

def rowTrade (commits : List GitCommit) (c : GitCommit) (r : OperationResult) (id : String)
    (op : Operation) (contract : Contract) (qty price : Decimal) : TradeHistoryEntry where
  timestamp := c.timestamp
  orderId := some id
  contract := toHistoryContract contract
  side := op.tradeSide
  quantity := qty
  price
  value := tradeValue rnd qty price contract.multiplier
  fee := r.fee
  feeCurrency := truthy r.feeCurrency
  source := if commitSourceIsExternal commits id then .external else .order
  commitHash := c.hash

def tradeRow (commits : List GitCommit) (c : GitCommit) (s : TradeLog) (r : OperationResult) :
    TradeLog :=
  match resultId r, r.fill? with
  | some id, some (qty, price) =>
    if r.status ≠ .filled ∨ id ∈ s.counted then s
    else
      match (orderOrigin commits id).bind fun op ↦ op.contract?.map (op, ·) with
      | some (op, contract) =>
        ⟨s.trades ++ [rowTrade rnd commits c r id op contract qty price], id :: s.counted⟩
      | none => s
  | _, _ => s

def reconcileTrade (c : GitCommit) (aliceId : String) (quantityDelta qty price : Decimal) :
    TradeHistoryEntry where
  timestamp := c.timestamp
  contract := { aliceId := some aliceId }
  side := if 0 ≤ quantityDelta then .buy else .sell
  quantity := qty
  price
  value := tradeValue rnd qty price none
  source := .reconcile
  commitHash := c.hash

def ownTrade (c : GitCommit) (r : OperationResult) (op : Operation) (contract : Contract)
    (qty price : Decimal) : TradeHistoryEntry where
  timestamp := c.timestamp
  orderId := resultId r
  contract := toHistoryContract contract
  side := op.tradeSide
  quantity := qty
  price
  value := tradeValue rnd qty price contract.multiplier
  source := if op.action = .observeExternalOrder then .external else .order
  commitHash := c.hash

def tradeOperation (c : GitCommit) (s : TradeLog) (p : Operation × Option OperationResult) :
    TradeLog :=
  match p.2 with
  | none => s
  | some r =>
    if r.success = false then s
    else
      match p.1, r.fill? with
      | .reconcileBalance aliceId quantityDelta _, some (qty, price) =>
        { s with trades := s.trades ++ [reconcileTrade rnd c aliceId quantityDelta qty price] }
      | op, some (qty, price) =>
        match op.contract? with
        | some contract =>
          if r.status ≠ .filled ∨ (resultId r).any (· ∈ s.counted) then s
          else ⟨s.trades ++ [ownTrade rnd c r op contract qty price],
            (resultId r).toList ++ s.counted⟩
        | none => s
      | _, none => s

def tradeCommit (commits : List GitCommit) (s : TradeLog) (c : GitCommit) : TradeLog :=
  if c.isSync then c.results.foldl (tradeRow rnd commits c) s
  else c.pairs.foldl (tradeOperation rnd c) s

def tradeLog (commits : List GitCommit) : TradeLog :=
  commits.foldl (tradeCommit rnd commits) {}

def tradesOf (commits : List GitCommit) : List TradeHistoryEntry :=
  (tradeLog rnd commits).trades

def projectTradeHistory (commits : List GitCommit) (limit : Option Nat) :
    List TradeHistoryEntry :=
  let trades := (tradesOf rnd commits).reverse.mergeSort fun a b ↦ b.timestamp ≤ a.timestamp
  match limit with
  | some (n + 1) => trades.take (n + 1)
  | _ => trades

theorem projectTradeHistory_perm (commits : List GitCommit) :
    (projectTradeHistory rnd commits none).Perm (tradesOf rnd commits) :=
  (List.mergeSort_perm _ _).trans (List.reverse_perm _)

/-! ## The steps of the projection by what they read -/

variable {rnd} {commits : List GitCommit}

variable {t : TradeLog} {c : GitCommit} {r : OperationResult}

theorem tradeRow_none (h : rowFill commits r = none) : tradeRow rnd commits c t r = t := by
  simp only [tradeRow]
  split
  · rename_i id qty price hid hfill
    split
    · rfl
    rename_i hs
    rw [not_or, not_not] at hs
    simp only [rowFill, hs.1, if_true, hid, hfill, Option.bind_some, Option.map_eq_none_iff] at h
    rw [h]
    rfl
  · rfl

theorem tradeRow_some {f : RowFill} {contract : Contract} (h : rowFill commits r = some f)
    (hc : f.op.contract? = some contract) :
    tradeRow rnd commits c t r =
      if f.id ∈ t.counted then t
      else ⟨t.trades ++ [rowTrade rnd commits c r f.id f.op contract f.qty f.price],
        f.id :: t.counted⟩ := by
  obtain ⟨hs, hid, hfill, ho⟩ := rowFill_eq_some.mp h
  simp only [tradeRow, hs, hid, hfill, ho, hc, ne_eq, not_true_eq_false, false_or,
    Option.bind_some, Option.map_some]

theorem tradeOperation_quiet
    {p : Operation × Option OperationResult} (h : ∀ r, p.2 = some r → r.fill? = none) :
    tradeOperation rnd c t p = t := by
  cases hp : p.2 with
  | none => simp [tradeOperation, hp]
  | some r => simp [tradeOperation, hp, h r hp]

theorem tradeCommit_reconcile {p : TradingGit.ReconcileParams}
    (ho : c.operations = [p.operation]) (hr : c.results = [p.result]) :
    tradeCommit rnd commits t c =
      { t with trades := t.trades ++
        [reconcileTrade rnd c p.aliceId p.quantityDelta (|p.quantityDelta|) p.markPrice] } := by
  have hsync : c.isSync = false := by
    simp [GitCommit.isSync, ho, TradingGit.ReconcileParams.operation]
  have hfill : p.result.fill? = some (|p.quantityDelta|, p.markPrice) := rfl
  have hsuccess : p.result.success = true := rfl
  simp [tradeCommit, hsync, GitCommit.pairs, ho, hr, paired, tradeOperation, hfill, hsuccess,
    TradingGit.ReconcileParams.operation]

/-! ## Every order once -/

structure TradeLog.Once (t : TradeLog) : Prop where
  ids : t.trades.filterMap TradeHistoryEntry.orderId = t.counted.reverse
  nodup : t.counted.Nodup

theorem once_initial : TradeLog.Once {} := ⟨rfl, List.nodup_nil⟩

variable {id : String}

theorem TradeLog.Once.count (h : t.Once) {trade : TradeHistoryEntry}
    (hid : trade.orderId = some id) (hnew : id ∉ t.counted) :
    TradeLog.Once ⟨t.trades ++ [trade], id :: t.counted⟩ where
  ids := by simp [List.filterMap_append, h.ids, hid]
  nodup := List.nodup_cons.mpr ⟨hnew, h.nodup⟩

theorem TradeLog.Once.anonymous (h : t.Once) {trade : TradeHistoryEntry}
    (hid : trade.orderId = none) : TradeLog.Once { t with trades := t.trades ++ [trade] } where
  ids := by simp [List.filterMap_append, h.ids, hid]
  nodup := h.nodup

theorem once_tradeRow (h : t.Once) (r : OperationResult) : (tradeRow rnd commits c t r).Once := by
  cases hr : rowFill commits r with
  | none =>
    rw [tradeRow_none hr]
    exact h
  | some f =>
    obtain ⟨contract, hc⟩ := contract_of_originOf (rowFill_eq_some.mp hr).2.2.2
    rw [tradeRow_some hr hc]
    split
    · exact h
    · rename_i hnew
      exact h.count rfl hnew

theorem once_tradeOperation (h : t.Once)
    (p : Operation × Option OperationResult) : (tradeOperation rnd c t p).Once := by
  simp only [tradeOperation]
  repeat' split
  all_goals try exact h
  · exact h.anonymous rfl
  rename_i r _ _ _ _ qty price _ _ _ contract _ hno
  rw [not_or] at hno
  cases hid : resultId r with
  | none => exact h.anonymous hid
  | some id =>
    have hnew : id ∉ t.counted := by simpa [hid] using hno.2
    exact h.count hid hnew

theorem once_tradeCommit (h : t.Once) : (tradeCommit rnd commits t c).Once := by
  simp only [tradeCommit]
  split
  · exact List.foldlRecOn _ _ h fun _ h r _ ↦ once_tradeRow h r
  · exact List.foldlRecOn _ _ h fun _ h p _ ↦ once_tradeOperation h p

theorem once_tradeLog : (tradeLog rnd commits).Once :=
  List.foldlRecOn _ _ once_initial fun _ h _ _ ↦ once_tradeCommit h

def tradesOfOrder (rnd : Decimal → Decimal) (commits : List GitCommit) (id : String) :
    List TradeHistoryEntry :=
  (projectTradeHistory rnd commits none).filter fun t ↦ t.orderId = some id

theorem tradesOfOrder_of_counted (rnd : Decimal → Decimal)
    (h : id ∈ (tradeLog rnd commits).counted) :
    ∃ t ∈ tradesOf rnd commits, t.orderId = some id ∧ tradesOfOrder rnd commits id = [t] := by
  have honce : (tradeLog rnd commits).Once := once_tradeLog
  have hperm := (projectTradeHistory_perm rnd commits).filter fun t ↦ decide (t.orderId = some id)
  have hlength : (tradesOfOrder rnd commits id).length = 1 := by
    rw [tradesOfOrder, hperm.length_eq, ← List.countP_eq_length_filter]
    have hcount : (tradesOf rnd commits).countP (fun t ↦ decide (t.orderId = some id)) =
        ((tradesOf rnd commits).filterMap TradeHistoryEntry.orderId).count id := by
      rw [List.count, List.countP_filterMap]
      refine List.countP_congr fun t _ ↦ ?_
      cases t.orderId <;> simp
    rw [hcount, tradesOf, honce.ids, List.count_reverse]
    exact List.count_eq_one_of_mem honce.nodup h
  obtain ⟨t, ht⟩ := List.length_eq_one_iff.mp hlength
  have hmem : t ∈ tradesOfOrder rnd commits id := ht ▸ List.mem_singleton_self t
  obtain ⟨hmem, hid⟩ := List.mem_filter.mp hmem
  exact ⟨t, (projectTradeHistory_perm rnd commits).mem_iff.mp hmem, by simpa using hid, ht⟩

/-! ## Every reported fill is listed -/

theorem mem_tradeRow (h : id ∈ t.counted)
    (r : OperationResult) : id ∈ (tradeRow rnd commits c t r).counted := by
  cases hr : rowFill commits r with
  | none =>
    rw [tradeRow_none hr]
    exact h
  | some f =>
    obtain ⟨contract, hc⟩ := contract_of_originOf (rowFill_eq_some.mp hr).2.2.2
    rw [tradeRow_some hr hc]
    split
    · exact h
    · exact List.mem_cons_of_mem _ h

theorem mem_tradeOperation (h : id ∈ t.counted)
    (p : Operation × Option OperationResult) : id ∈ (tradeOperation rnd c t p).counted := by
  simp only [tradeOperation]
  repeat' split
  all_goals first | exact h | exact List.mem_append_right _ h

theorem mem_tradeCommit (h : id ∈ t.counted) : id ∈ (tradeCommit rnd commits t c).counted := by
  simp only [tradeCommit]
  split
  · exact List.foldlRecOn (motive := fun t' : TradeLog ↦ id ∈ t'.counted) _ _ h
      fun _ h r _ ↦ mem_tradeRow h r
  · exact List.foldlRecOn (motive := fun t' : TradeLog ↦ id ∈ t'.counted) _ _ h
      fun _ h p _ ↦ mem_tradeOperation h p

theorem counted_of_rowFill {f : RowFill} (hc : c ∈ commits)
    (hs : c.isSync = true) (hr : r ∈ c.results) (hf : rowFill commits r = some f) :
    f.id ∈ (tradeLog rnd commits).counted := by
  have hrow : ∀ t : TradeLog, f.id ∈ (tradeCommit rnd commits t c).counted := by
    intro t
    obtain ⟨l₁, l₂, he⟩ := List.append_of_mem hr
    obtain ⟨contract, hcontract⟩ := contract_of_originOf (rowFill_eq_some.mp hf).2.2.2
    simp only [tradeCommit, hs, if_true, he, List.foldl_append, List.foldl_cons]
    refine List.foldlRecOn (motive := fun t' : TradeLog ↦ f.id ∈ t'.counted) _ _ ?_
      fun _ h r _ ↦ mem_tradeRow h r
    rw [tradeRow_some hf hcontract]
    split
    · rename_i hin
      exact hin
    · exact List.mem_cons_self
  obtain ⟨l₁, l₂, he⟩ := List.append_of_mem hc
  have hlog : tradeLog rnd commits = l₂.foldl (tradeCommit rnd commits) (tradeCommit rnd commits
        (l₁.foldl (tradeCommit rnd commits) {}) c) := by
    rw [tradeLog, he, List.foldl_append, List.foldl_cons]
  rw [hlog]
  exact List.foldlRecOn (motive := fun t' : TradeLog ↦ f.id ∈ t'.counted) _ _ (hrow _)
    fun _ h _ _ ↦ mem_tradeCommit h

/-! ## Every trade of an order is a reported fill -/

def TradeHistoryEntry.Reported (commits : List GitCommit) (t : TradeHistoryEntry) : Prop :=
  ∀ id, t.orderId = some id → ∃ c ∈ commits, ∃ r ∈ c.results, resultId r = some id ∧
    r.status = .filled ∧ r.fill? = some (t.quantity, t.price)

theorem reported_tradeRow (hc : c ∈ commits)
    (hr : r ∈ c.results) (h : ∀ trade ∈ t.trades, trade.Reported commits) :
    ∀ trade ∈ (tradeRow rnd commits c t r).trades, trade.Reported commits := by
  cases hf : rowFill commits r with
  | none =>
    rw [tradeRow_none hf]
    exact h
  | some f =>
    obtain ⟨hs, hid, hfill, ho⟩ := rowFill_eq_some.mp hf
    obtain ⟨contract, hcontract⟩ := contract_of_originOf ho
    rw [tradeRow_some hf hcontract]
    split
    · exact h
    rw [List.forall_mem_append, List.forall_mem_singleton]
    refine ⟨h, ?_⟩
    rintro id ⟨⟩
    exact ⟨c, hc, r, hr, hid, hs, hfill⟩

theorem reported_tradeOperation (hc : c ∈ commits)
    {p : Operation × Option OperationResult} (hp : p ∈ c.pairs)
    (h : ∀ trade ∈ t.trades, trade.Reported commits) :
    ∀ trade ∈ (tradeOperation rnd c t p).trades, trade.Reported commits := by
  simp only [tradeOperation]
  repeat' split
  all_goals try exact h
  · rw [List.forall_mem_append, List.forall_mem_singleton]
    refine ⟨h, ?_⟩
    rintro id ⟨⟩
  rename_i r hr _ _ _ qty price hfill _ _ contract _ hno
  rw [not_or, not_not] at hno
  rw [List.forall_mem_append, List.forall_mem_singleton]
  refine ⟨h, ?_⟩
  intro id hid
  have hmem : (p.1, p.2) ∈ paired c.operations c.results := hp
  exact ⟨c, hc, r, (mem_of_mem_paired hmem).2 r hr, hid, hno.1, hfill⟩

theorem reported_tradesOf : ∀ trade ∈ tradesOf rnd commits, trade.Reported commits := by
  refine List.foldlRecOn (motive := fun t : TradeLog ↦ ∀ trade ∈ t.trades,
    trade.Reported commits) _ _ (by simp) ?_
  intro t h c hc
  simp only [tradeCommit]
  split
  · exact List.foldlRecOn (motive := fun t : TradeLog ↦ ∀ trade ∈ t.trades,
      trade.Reported commits) _ _ h fun _ h r hr ↦ reported_tradeRow hc hr h
  · exact List.foldlRecOn (motive := fun t : TradeLog ↦ ∀ trade ∈ t.trades,
      trade.Reported commits) _ _ h fun _ h p hp ↦ reported_tradeOperation hc hp h

end OpenAlice.Trading
