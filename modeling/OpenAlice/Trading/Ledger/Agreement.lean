import OpenAlice.Trading.Git.Logged
import OpenAlice.Trading.Ledger.CostBasis
import OpenAlice.Trading.Ledger.OrderHistory

/-!
# The two projections of the log count the same fills

The cost basis and the trade history join the rows of a sync with their orders in
two separate loops.  `Agree` is the simulation between them: after the same
commits, folding the trades of an instrument gives the position of the replay,
and the two have counted the same orders of that instrument.

The loops differ in one guard: the replay skips a quantity of zero, the history
lists it and counts its order.  So they agree as long as no such fill is
recorded.
-/

namespace OpenAlice.Trading

open OpenAlice.Run OpenAlice.Trading.Git TradingGit

variable (rnd : Decimal → Decimal)

def foldTrades (trades : List TradeHistoryEntry) (aliceId : String) : CostBasis :=
  (trades.filter fun t ↦ t.contract.aliceId = some aliceId).foldl
    (fun b t ↦ b.applyFill rnd t.quantity t.price t.side) {}

/-- The history lists exactly the trades of the log, and folding those of the
instrument in log order gives the quantity, the average cost and the fill count
of the cost basis; a missing cost basis is an empty one. -/
def HistoriesAgree (commits : List GitCommit) (aliceId : String) : Prop :=
  (projectTradeHistory rnd commits none).Perm (tradesOf rnd commits) ∧
    foldTrades rnd (tradesOf rnd commits) aliceId =
      (recomputeCostBasisFromCommits rnd commits aliceId).getD {}

/-! ## Operations that introduce an order -/

section Operations

variable {op : Operation} {contract : Contract} {aliceId : String}

theorem tradeSide_eq (h : op.contract? = some contract) : op.tradeSide = op.fillDirection := by
  cases op <;> first | rfl | cases h

theorem matchesAliceId_iff (h : op.contract? = some contract) (hne : aliceId ≠ "") :
    op.matchesAliceId aliceId = true ↔ (toHistoryContract contract).aliceId = some aliceId := by
  have hc : (toHistoryContract contract).aliceId = some aliceId ↔
      contract.aliceId = some aliceId := by
    simp [toHistoryContract, truthy_eq_some, hne]
  rw [hc]
  exact matchesAliceId_contract h

end Operations

/-! ## The simulation -/

variable {rnd} {commits : List GitCommit} {aliceId : String}

/-- The replay and the history, after the same part of the log: one position, and
the same orders of the instrument counted. -/
structure Agree (rnd : Decimal → Decimal) (commits : List GitCommit) (aliceId : String)
    (s : Replay) (t : TradeLog) : Prop where
  /-- Folding the trades gives the position. -/
  basis : s.basis = foldTrades rnd t.trades aliceId
  counted : ∀ id op, orderOrigin commits id = some op → op.matchesAliceId aliceId = true →
    (id ∈ s.counted ↔ id ∈ t.counted)

theorem agree_initial : Agree rnd commits aliceId {} {} := ⟨rfl, fun _ _ _ _ ↦ Iff.rfl⟩

theorem foldTrades_concat {trades : List TradeHistoryEntry} {t : TradeHistoryEntry}
    (h : t.contract.aliceId = some aliceId) :
    foldTrades rnd (trades ++ [t]) aliceId =
      (foldTrades rnd trades aliceId).applyFill rnd t.quantity t.price t.side := by
  simp [foldTrades, List.filter_append, h]

theorem foldTrades_concat_other {trades : List TradeHistoryEntry} {t : TradeHistoryEntry}
    (h : t.contract.aliceId ≠ some aliceId) :
    foldTrades rnd (trades ++ [t]) aliceId = foldTrades rnd trades aliceId := by
  simp [foldTrades, List.filter_append, h]

namespace Agree

variable {s : Replay} {t : TradeLog}

theorem count (h : Agree rnd commits aliceId s t) (id : String) (trade : TradeHistoryEntry)
    {side : TradeSide} (ha : trade.contract.aliceId = some aliceId) (hs : trade.side = side) :
    Agree rnd commits aliceId
      ⟨s.basis.applyFill rnd trade.quantity trade.price side, id :: s.counted⟩
      ⟨t.trades ++ [trade], id :: t.counted⟩ where
  basis := by rw [foldTrades_concat ha, ← h.basis, hs]
  counted id' op ho hm := by
    rw [List.mem_cons, List.mem_cons, h.counted id' op ho hm]

theorem countOther (h : Agree rnd commits aliceId s t) {id : String} {op : Operation}
    (trade : TradeHistoryEntry) (ha : trade.contract.aliceId ≠ some aliceId)
    (ho : orderOrigin commits id = some op) (hm : op.matchesAliceId aliceId = false) :
    Agree rnd commits aliceId s ⟨t.trades ++ [trade], id :: t.counted⟩ where
  basis := by rw [foldTrades_concat_other ha, ← h.basis]
  counted id' op' ho' hm' := by
    have hne : id' ≠ id := by
      rintro rfl
      rw [ho] at ho'
      cases ho'
      rw [hm] at hm'
      cases hm'
    rw [List.mem_cons, h.counted id' op' ho' hm']
    exact (or_iff_right hne).symm

end Agree

def OrderStatusUpdate.NonZero (u : OrderStatusUpdate) : Prop :=
  u.currentStatus = .filled → u.filledPrice.isSome = true → u.filledQty ≠ some 0

theorem OrderStatusUpdate.NonZero.qty_ne_zero {u : OrderStatusUpdate} (hu : u.NonZero)
    {f : RowFill} (h : rowFill commits (syncRow u) = some f) : f.qty ≠ 0 := by
  obtain ⟨hs, _, hfill, _⟩ := rowFill_eq_some.mp h
  intro h0
  rw [h0] at hfill
  simp only [OperationResult.fill?, syncRow] at hfill
  split at hfill
  · rename_i hq hp
    cases hfill
    exact hu hs (by rw [hp]; rfl) hq
  · cases hfill

theorem agree_row (hne : aliceId ≠ "") {c : GitCommit} {u : OrderStatusUpdate} (hu : u.NonZero)
    {s : Replay} {t : TradeLog} (h : Agree rnd commits aliceId s t) :
    Agree rnd commits aliceId (costRow rnd commits aliceId s (syncRow u))
      (tradeRow rnd commits c t (syncRow u)) := by
  cases hr : rowFill commits (syncRow u) with
  | none =>
    rw [costRow_none hr, tradeRow_none hr]
    exact h
  | some f =>
    have ho := (rowFill_eq_some.mp hr).2.2.2
    obtain ⟨contract, hc⟩ := contract_of_originOf ho
    have hmatch := matchesAliceId_iff hc hne
    rw [costRow_some rfl hr, tradeRow_some hr hc]
    by_cases hm : f.op.matchesAliceId aliceId = true
    · -- an order of the instrument is counted by both loops or by neither
      by_cases hin : f.id ∈ t.counted
      · rw [if_pos hin, if_pos (.inl ((h.counted f.id f.op ho hm).mpr hin))]
        exact h
      have hno : ¬(f.id ∈ s.counted ∨ f.op.matchesAliceId aliceId = false ∨ f.qty = 0) := by
        simp [h.counted f.id f.op ho hm, hin, hm, hu.qty_ne_zero hr]
      rw [if_neg hin, if_neg hno]
      exact h.count f.id (rowTrade rnd commits c (syncRow u) f.id f.op contract f.qty f.price)
        (hmatch.mp hm) (tradeSide_eq hc)
    · rw [Bool.not_eq_true] at hm
      rw [if_pos (.inr (.inl hm))]
      by_cases hin : f.id ∈ t.counted
      · rw [if_pos hin]
        exact h
      have hother : (toHistoryContract contract).aliceId ≠ some aliceId := by
        intro ha
        rw [hmatch.mpr ha] at hm
        cases hm
      rw [if_neg hin]
      exact h.countOther _ hother ho hm

/-- A commit whose fills the two loops read alike: one without execution data, a
reconciliation of some quantity, or a sync without fills of zero. -/
inductive Alike (c : GitCommit) : Prop
  | quiet (hq : Quiet c.results)
  | reconcile {p : ReconcileParams} (hp : p.quantityDelta ≠ 0) (ho : c.operations = [p.operation])
      (hr : c.results = [p.result])
  | sync {us : List OrderStatusUpdate} (hu : ∀ u ∈ us, u.NonZero)
      (ho : c.operations = [.syncOrders]) (hr : c.results = us.map syncRow)

theorem agree_quiet {c : GitCommit} (hq : Quiet c.results) {s : Replay} {t : TradeLog}
    (h : Agree rnd commits aliceId s t) :
    Agree rnd commits aliceId (costCommit rnd commits aliceId s c) (tradeCommit rnd commits t c) := by
  simp only [costCommit, tradeCommit]
  split
  · refine List.foldl_rel h ?_
    intro r hr s t h
    have hnone := rowFill_of_fill commits (hq r hr)
    rw [costRow_none hnone, tradeRow_none hnone]
    exact h
  · refine List.foldl_rel h ?_
    rintro ⟨op, r?⟩ hp s t h
    have hquiet : ∀ r, r? = some r → r.fill? = none := by
      intro r hr
      exact hq r ((mem_of_mem_paired hp).2 r hr)
    rw [costOperation_quiet hquiet, tradeOperation_quiet hquiet]
    exact h

theorem agree_reconcile {c : GitCommit} {p : ReconcileParams} (hp : p.quantityDelta ≠ 0)
    (ho : c.operations = [p.operation]) (hr : c.results = [p.result]) {s : Replay} {t : TradeLog}
    (h : Agree rnd commits aliceId s t) :
    Agree rnd commits aliceId (costCommit rnd commits aliceId s c) (tradeCommit rnd commits t c) := by
  rw [costCommit_reconcile hp ho hr, tradeCommit_reconcile ho hr]
  by_cases ha : p.aliceId = aliceId
  · rw [if_pos ha]
    refine ⟨?_, h.counted⟩
    rw [foldTrades_concat (congrArg some ha), ← h.basis]
    rfl
  rw [if_neg ha]
  refine ⟨?_, h.counted⟩
  rw [foldTrades_concat_other (mt Option.some.inj ha), ← h.basis]

theorem agree_sync (hne : aliceId ≠ "") {c : GitCommit} {us : List OrderStatusUpdate}
    (hu : ∀ u ∈ us, u.NonZero) (ho : c.operations = [.syncOrders])
    (hr : c.results = us.map syncRow) {s : Replay} {t : TradeLog}
    (h : Agree rnd commits aliceId s t) :
    Agree rnd commits aliceId (costCommit rnd commits aliceId s c) (tradeCommit rnd commits t c) := by
  have hsync : c.isSync = true := by simp [GitCommit.isSync, ho]
  simp only [costCommit, tradeCommit, hsync, if_true, hr, List.foldl_map]
  refine List.foldl_rel h ?_
  intro u hmem s t h
  exact agree_row hne (hu u hmem) h

theorem agree_log (hne : aliceId ≠ "") (hlog : ∀ c ∈ commits, Alike c) :
    Agree rnd commits aliceId (costReplay rnd commits aliceId) (tradeLog rnd commits) := by
  refine List.foldl_rel agree_initial ?_
  intro c hc s t h
  cases hlog c hc with
  | quiet hq => exact agree_quiet hq h
  | reconcile hp ho hr => exact agree_reconcile hp ho hr h
  | sync hu ho hr => exact agree_sync hne hu ho hr h

theorem historiesAgree_of_alike (hne : aliceId ≠ "") (hlog : ∀ c ∈ commits, Alike c) :
    HistoriesAgree rnd commits aliceId := by
  refine ⟨projectTradeHistory_perm rnd commits, ?_⟩
  rw [recomputeCostBasisFromCommits_getD]
  exact (agree_log hne hlog).basis.symm

/-! ## Runs -/

def nonZeroStep (_ : GitWorld) : GitEvent → Prop
  | .call (.sync updates _ _ _) => ∀ u ∈ updates, u.NonZero
  | .call (.recordReconcile p _) => p.quantityDelta ≠ 0
  | _ => True

/-- **The two projections count the same fills**, in every run that records no
fill of zero. -/
theorem histories_agree {pf : Platform} {W : GitWorld}
    (h : Reach (gitProg pf).step nonZeroStep (GitWorld.initial {}) W) (hne : aliceId ≠ "") :
    HistoriesAgree rnd W.shared.git.commits aliceId := by
  refine historiesAgree_of_alike hne ?_
  refine reach_log (I := fun commits ↦ ∀ c ∈ commits, Alike c) h (by simp) ?_
  intro V e c hok hc hV
  rw [List.forall_mem_append, List.forall_mem_singleton]
  refine ⟨hV, ?_⟩
  generalize hops : c.operations = ops at hc
  generalize hres : c.results = res at hc
  cases hc with
  | reconciled p now => exact .reconcile hok hops hres
  | observed os s now =>
    refine .quiet ?_
    rw [hres]
    intro r hr
    obtain ⟨o, _, rfl⟩ := List.mem_map.mp hr
    rfl
  | synced us s hashedAt now => exact .sync hok hops hres
  | written s now hp hq => exact .quiet (hres ▸ hq)

def pushedRun (qty price delta : Decimal) : List GitEvent :=
  samplePush [] ++
    [.call (.sync [sampleUpdate "1" .filled (some qty) (some price)] {} 3 3),
      .call (.recordReconcile ⟨"acct|AAPL", delta, price, {}, none⟩ 4)]

/-- Two shares bought through the ledger and half a share gone since. -/
theorem histories_agree_pushed : ∃ W : GitWorld,
    Reach (gitProg constPlatform).step nonZeroStep (GitWorld.initial {}) W ∧
      recomputeCostBasisFromCommits id W.shared.git.commits "acct|AAPL" = some ⟨100, 3 / 2, 2⟩ ∧
      HistoriesAgree id W.shared.git.commits "acct|AAPL" := by
  have hr : Reach (gitProg constPlatform).step nonZeroStep (GitWorld.initial {}) _ :=
    .of_exec_of_forall (pushedRun 2 100 (-1 / 2)) rfl
      (by simp [pushedRun, samplePush, sampleUpdate, nonZeroStep, OrderStatusUpdate.NonZero])
  refine ⟨_, hr, ?_, histories_agree hr (by decide)⟩
  decide +kernel

/-- The order is reported filled with a quantity of zero: the history lists a
trade, the cost basis has none. -/
theorem not_histories_agree : ¬ ∀ (rnd : Decimal → Decimal) (pf : Platform) (W : GitWorld),
    Reach (gitProg pf).step anyStep (GitWorld.initial {}) W →
      ∀ aliceId, HistoriesAgree rnd W.shared.git.commits aliceId := by
  intro h
  have hr : Reach (gitProg constPlatform).step anyStep (GitWorld.initial {}) _ :=
    .of_exec ((pushedRun 0 100 0).take 7) rfl
  have hbasis := (h id constPlatform _ hr "acct|AAPL").2
  revert hbasis
  decide +kernel

end OpenAlice.Trading
