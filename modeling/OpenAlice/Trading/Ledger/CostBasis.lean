import Mathlib.Data.List.Basic
import OpenAlice.Trading.Ledger.Orders

/-!
# Cost basis

`services/uta/src/domain/trading/cost-basis.ts`: the replay of the log through
the weighted-average-cost rule, for one instrument.

`decimal.js` rounds the result of every operation to its precision.  The rounding
is the parameter `rnd`, and a result that holds for every `rnd` holds for exact
arithmetic too.
-/

namespace OpenAlice.Trading

variable (rnd : Decimal → Decimal)

/-- A running position: average cost, quantity, and the number of fills applied
to it. -/
structure CostBasis where
  avgCost : Decimal := 0
  qty : Decimal := 0
  fillCount : Nat := 0
deriving DecidableEq

/-- A buy moves the average, a sell leaves it, and a position sold
out, or sold beyond that, starts over from zero. -/
def CostBasis.applyFill (b : CostBasis) (fillQty fillPrice : Decimal) : TradeSide → CostBasis
  | .buy =>
    let newQty := rnd (b.qty + fillQty)
    if newQty = 0 then ⟨0, 0, b.fillCount + 1⟩
    else
      ⟨rnd (rnd (rnd (b.avgCost * b.qty) + rnd (fillPrice * fillQty)) / newQty), newQty,
        b.fillCount + 1⟩
  | .sell =>
    let newQty := rnd (b.qty - fillQty)
    if newQty ≤ 0 then ⟨0, 0, b.fillCount + 1⟩ else ⟨b.avgCost, newQty, b.fillCount + 1⟩

@[simp] theorem applyFill_fillCount (b : CostBasis) (qty price : Decimal) (side : TradeSide) :
    (b.applyFill rnd qty price side).fillCount = b.fillCount + 1 := by
  cases side <;> simp only [CostBasis.applyFill] <;> split <;> rfl

theorem applyFill_exact {rnd : Decimal → Decimal} {b : CostBasis} {qty price total : Decimal}
    {side : TradeSide}
    (ht : total = match side with | .buy => b.qty + qty | .sell => b.qty - qty)
    (h0 : 0 ≤ total) (hexact : rnd total = total) :
    (b.applyFill rnd qty price side).qty = total := by
  cases side with
  | buy =>
    simp only at ht
    simp only [CostBasis.applyFill, ← ht, hexact]
    split
    · rename_i hz
      exact hz.symm
    · rfl
  | sell =>
    simp only at ht
    simp only [CostBasis.applyFill, ← ht, hexact]
    split
    · rename_i hle
      exact le_antisymm h0 hle
    · rfl

namespace Operation

def matchesAliceId (op : Operation) (aliceId : String) : Bool :=
  match op with
  | .placeOrder c _ _ | .closePosition c _ | .observeExternalOrder c _ => c.aliceId = some aliceId
  | .reconcileBalance id _ _ => id = aliceId
  | _ => false

def fillDirection : Operation → TradeSide
  | .placeOrder _ o _ | .observeExternalOrder _ o => Order.side o
  | .closePosition .. => .sell
  | .reconcileBalance _ quantityDelta _ => if 0 ≤ quantityDelta then .buy else .sell
  | _ => .buy

end Operation

/-- The variables of the replay: the position, and the orders whose fill has
been counted. -/
structure Replay where
  basis : CostBasis := {}
  counted : List String := []

def costRow (commits : List GitCommit) (aliceId : String) (s : Replay) (r : OperationResult) :
    Replay :=
  if r.success = false ∨ r.status ≠ .filled then s
  else
    match resultId r, r.fill? with
    | some id, some (qty, price) =>
      if id ∈ s.counted then s
      else
        match orderOrigin commits id with
        | some op =>
          if op.matchesAliceId aliceId = false ∨ qty = 0 then s
          else ⟨s.basis.applyFill rnd qty price op.fillDirection, id :: s.counted⟩
        | none => s
    | _, _ => s

def costOperation (aliceId : String) (s : Replay) (p : Operation × Option OperationResult) :
    Replay :=
  if p.1.matchesAliceId aliceId = false then s
  else
    match p.2 with
    | none => s
    | some r =>
      if r.success = false then s
      else
        match r.fill? with
        | some (qty, price) =>
          if qty = 0 then s
          else ⟨s.basis.applyFill rnd qty price p.1.fillDirection,
            (resultId r).toList ++ s.counted⟩
        | none => s

def costCommit (commits : List GitCommit) (aliceId : String) (s : Replay) (c : GitCommit) :
    Replay :=
  if c.isSync then c.results.foldl (costRow rnd commits aliceId) s
  else c.pairs.foldl (costOperation rnd aliceId) s

def costReplay (commits : List GitCommit) (aliceId : String) : Replay :=
  commits.foldl (costCommit rnd commits aliceId) {}

def recomputeCostBasisFromCommits (commits : List GitCommit) (aliceId : String) :
    Option CostBasis :=
  let basis := (costReplay rnd commits aliceId).basis
  if basis.fillCount = 0 then none else some basis

/-! ## The steps of the replay by what they read -/

variable {rnd} {commits : List GitCommit} {aliceId : String}

theorem matchesAliceId_contract {op : Operation} {contract : Contract}
    (h : op.contract? = some contract) :
    op.matchesAliceId aliceId = true ↔ contract.aliceId = some aliceId := by
  cases op <;> cases h <;> simp [Operation.matchesAliceId]

variable {s : Replay}

theorem costRow_none {r : OperationResult} (h : rowFill commits r = none) :
    costRow rnd commits aliceId s r = s := by
  simp only [costRow]
  split
  · rfl
  rename_i hs
  rw [not_or, not_not] at hs
  simp only [rowFill, hs.2, if_true] at h
  split
  · rename_i id qty price hid hfill
    simp only [hid, hfill, Option.bind_some, Option.map_eq_none_iff] at h
    rw [h, ite_self]
  · rfl

theorem costRow_some {r : OperationResult} {f : RowFill} (hs : r.success = true)
    (h : rowFill commits r = some f) :
    costRow rnd commits aliceId s r =
      if f.id ∈ s.counted ∨ f.op.matchesAliceId aliceId = false ∨ f.qty = 0 then s
      else ⟨s.basis.applyFill rnd f.qty f.price f.op.fillDirection, f.id :: s.counted⟩ := by
  obtain ⟨hf, hid, hfill, ho⟩ := rowFill_eq_some.mp h
  by_cases hin : f.id ∈ s.counted <;> simp [costRow, hs, hf, hid, hfill, ho, hin]

theorem costOperation_quiet {p : Operation × Option OperationResult}
    (h : ∀ r, p.2 = some r → r.fill? = none) : costOperation rnd aliceId s p = s := by
  cases hp : p.2 with
  | none => simp [costOperation, hp]
  | some r => simp [costOperation, hp, h r hp]

theorem costCommit_quiet {c : GitCommit} (hq : ∀ r ∈ c.results, r.fill? = none) :
    costCommit rnd commits aliceId s c = s := by
  simp only [costCommit]
  split
  · refine List.foldlRecOn (motive := fun s' ↦ s' = s) _ _ rfl ?_
    rintro s' rfl r hr
    exact costRow_none (rowFill_of_fill _ (hq r hr))
  refine List.foldlRecOn (motive := fun s' ↦ s' = s) _ _ rfl ?_
  rintro s' rfl ⟨op, r?⟩ hp
  apply costOperation_quiet
  intro r hr
  exact hq r ((mem_of_mem_paired hp).2 r hr)

theorem costCommit_reconcile {c : GitCommit} {p : TradingGit.ReconcileParams}
    (hp : p.quantityDelta ≠ 0) (ho : c.operations = [p.operation]) (hr : c.results = [p.result]) :
    costCommit rnd commits aliceId s c =
      if p.aliceId = aliceId then
        { s with
          basis := s.basis.applyFill rnd |p.quantityDelta| p.markPrice
            (if 0 ≤ p.quantityDelta then .buy else .sell) }
      else s := by
  have hsync : c.isSync = false := by
    simp [GitCommit.isSync, ho, TradingGit.ReconcileParams.operation]
  have hfill : p.result.fill? = some (|p.quantityDelta|, p.markPrice) := rfl
  have hsuccess : p.result.success = true := rfl
  have hid : resultId p.result = none := rfl
  have hside : p.operation.fillDirection = if 0 ≤ p.quantityDelta then .buy else .sell := rfl
  have hmatch : p.operation.matchesAliceId aliceId = decide (p.aliceId = aliceId) := rfl
  by_cases ha : p.aliceId = aliceId <;>
    simp [costCommit, hsync, GitCommit.pairs, ho, hr, paired, costOperation, hfill, hsuccess, hp,
      hid, hside, hmatch, ha]

/-! ## A position without fills -/

def CostBasis.Genuine (b : CostBasis) : Prop := b.fillCount = 0 → b = {}

theorem genuine_applyFill (b : CostBasis) (qty price : Decimal) (side : TradeSide) :
    (b.applyFill rnd qty price side).Genuine := by
  intro h
  rw [applyFill_fillCount] at h
  cases h

theorem genuine_costRow (h : s.basis.Genuine) (r : OperationResult) :
    (costRow rnd commits aliceId s r).basis.Genuine := by
  simp only [costRow]
  repeat' split
  all_goals first | exact h | exact genuine_applyFill _ _ _ _

theorem genuine_costOperation (h : s.basis.Genuine) (p : Operation × Option OperationResult) :
    (costOperation rnd aliceId s p).basis.Genuine := by
  simp only [costOperation]
  repeat' split
  all_goals first | exact h | exact genuine_applyFill _ _ _ _

theorem genuine_costReplay : (costReplay rnd commits aliceId).basis.Genuine := by
  refine List.foldlRecOn (motive := fun s : Replay ↦ s.basis.Genuine) _ _ (fun _ ↦ rfl) ?_
  intro s h c _
  simp only [costCommit]
  split
  · exact List.foldlRecOn (motive := fun s : Replay ↦ s.basis.Genuine) _ _ h
      fun s h r _ ↦ genuine_costRow h r
  · exact List.foldlRecOn (motive := fun s : Replay ↦ s.basis.Genuine) _ _ h
      fun s h p _ ↦ genuine_costOperation h p

theorem recomputeCostBasisFromCommits_getD :
    (recomputeCostBasisFromCommits rnd commits aliceId).getD {} =
      (costReplay rnd commits aliceId).basis := by
  simp only [recomputeCostBasisFromCommits]
  split
  · rename_i h0
    rw [genuine_costReplay h0]
    rfl
  · rfl

/-! ## How the replay grows with the log -/

theorem costRow_congr {commits' : List GitCommit} {r : OperationResult}
    (h : ∀ id, r.status = .filled → resultId r = some id → r.fill?.isSome = true →
      ∃ op op', orderOrigin commits id = some op ∧ orderOrigin commits' id = some op' ∧
        op.matchesAliceId aliceId = op'.matchesAliceId aliceId ∧
          op.fillDirection = op'.fillDirection) (s : Replay) :
    costRow rnd commits' aliceId s r = costRow rnd commits aliceId s r := by
  simp only [costRow]
  split
  · rfl
  rename_i hs
  rw [not_or, not_not] at hs
  cases hid : resultId r with
  | none => rfl
  | some id =>
    cases hfill : r.fill? with
    | none => rfl
    | some fill =>
      obtain ⟨op, op', ho, ho', hm, hd⟩ := h id hs.2 hid (hfill ▸ rfl)
      simp only [ho, ho', hm, hd]

theorem costReplay_concat {c : GitCommit} (h : ∀ c' ∈ commits, ∀ r ∈ c'.results, ∀ s,
      costRow rnd (commits ++ [c]) aliceId s r = costRow rnd commits aliceId s r) :
    costReplay rnd (commits ++ [c]) aliceId =
      costCommit rnd (commits ++ [c]) aliceId (costReplay rnd commits aliceId) c := by
  have hold : commits.foldl (costCommit rnd (commits ++ [c]) aliceId) {} =
      commits.foldl (costCommit rnd commits aliceId) {} := by
    refine List.foldl_ext _ _ _ fun s c' hc' ↦ ?_
    simp only [costCommit]
    split
    · exact List.foldl_ext _ _ _ fun s r hr ↦ h c' hc' r hr s
    · rfl
  rw [costReplay, List.foldl_append, hold]
  rfl

/-! ## The exported log -/

theorem project_reads (aliceId : String) (op : Operation) : op.project.contract? = op.contract? ∧
      op.project.matchesAliceId aliceId = op.matchesAliceId aliceId ∧
        op.project.fillDirection = op.fillDirection := by
  cases op <;> exact ⟨rfl, rfl, rfl⟩

def projectPair (p : Operation × Option OperationResult) : Operation × Option OperationResult :=
  (p.1.project, p.2)

theorem paired_project (ops : List Operation) (rs : List OperationResult) :
    paired (ops.map Operation.project) rs = (paired ops rs).map projectPair := by
  induction ops generalizing rs with
  | nil => rfl
  | cons op ops ih =>
    cases rs with
    | nil => simp only [List.map_cons, paired, ih, projectPair]
    | cons r rs => simp only [List.map_cons, paired, ih, projectPair]

theorem pairs_project (c : GitCommit) : c.project.pairs = c.pairs.map projectPair :=
  paired_project _ _

theorem isSync_project (c : GitCommit) : c.project.isSync = c.isSync := by
  have hop : ∀ op : Operation, decide (op.project = .syncOrders) = decide (op = .syncOrders) := by
    intro op
    cases op <;> rfl
  simp only [GitCommit.isSync, GitCommit.project, List.any_map, Function.comp_def, hop]

theorem introduction_project (p : Operation × Option OperationResult) :
    introduction (projectPair p) = (introduction p).map fun q ↦ (q.1, q.2.project) := by
  obtain ⟨op, r⟩ := p
  simp only [introduction, projectPair, (project_reads "" op).1]
  cases op.contract? with
  | none => rfl
  | some contract => cases r.bind resultId <;> rfl

theorem orderOrigin_project (commits : List GitCommit) (id : String) :
    orderOrigin (commits.map GitCommit.project) id =
      (orderOrigin commits id).map Operation.project := by
  have hpairs : logPairs (commits.map GitCommit.project) = (logPairs commits).map projectPair := by
    simp only [logPairs, List.flatMap_map, List.map_flatMap, pairs_project]
  have hlookup : ∀ l : List (String × Operation),
      (l.map fun q ↦ (q.1, q.2.project)).lookup id = (l.lookup id).map Operation.project := by
    intro l
    induction l with
    | nil => rfl
    | cons q l ih =>
      obtain ⟨id', op⟩ := q
      simp only [List.map_cons, List.lookup_cons]
      split
      · rfl
      · exact ih
  rw [orderOrigin, orderOrigin, originOf, originOf, hpairs, List.filterMap_map, ← hlookup,
    List.map_reverse, List.map_filterMap]
  congr 2
  refine List.filterMap_congr fun p _ ↦ ?_
  exact introduction_project p

theorem costReplay_project (commits : List GitCommit) (aliceId : String) :
    costReplay rnd (commits.map GitCommit.project) aliceId = costReplay rnd commits aliceId := by
  rw [costReplay, costReplay, List.foldl_map]
  refine List.foldl_ext _ _ _ fun s c hc ↦ ?_
  simp only [costCommit, isSync_project, pairs_project, List.foldl_map]
  split
  · refine List.foldl_ext _ _ _ fun s r hr ↦ ?_
    simp only [costRow, orderOrigin_project]
    split
    · rfl
    split
    · rename_i id qty price _ _
      cases orderOrigin commits id with
      | none => rfl
      | some op =>
        obtain ⟨_, hm, hd⟩ := project_reads aliceId op
        simp only [Option.map_some, hm, hd]
    · rfl
  · refine List.foldl_ext _ _ _ fun s p hp ↦ ?_
    obtain ⟨_, hm, hd⟩ := project_reads aliceId p.1
    simp only [costOperation, projectPair, hm, hd]

end OpenAlice.Trading
