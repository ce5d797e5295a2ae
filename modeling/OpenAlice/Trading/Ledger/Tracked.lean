import OpenAlice.Trading.Git.Logged
import OpenAlice.Trading.Ledger.CostBasis

/-!
# Executed quantity and cost basis

What the log says was executed on an instrument, and whether the cost basis
counts all of it.

`attributions` says which contract and side every order the ledger tracks trades
for: an order an operation introduced, the protective legs it brought along,
which trade the other way, and the order that a successful `modifyOrder` put in
the place of another.  `trackedQuantity` runs over the rows of the syncs under
these attributions, whatever terminal status a row reports.  Both are this
development's statement of what the log means, not code of the source.

The cost basis knows fewer attributions and fewer statuses; `executed_is_counted`
says under which condition on the steps that makes no difference.
-/

namespace OpenAlice.Trading

open OpenAlice.Run OpenAlice.Trading.Git TradingGit

/-! ## What the log says was executed -/

/-- What an order trades: its contract, and the side of its fills. -/
structure Attribution where
  contract : Contract
  side : TradeSide

/-- The orders an operation brings into the log, given what the orders before it
trade. -/
def attributed (known : List (String × Attribution)) (p : Operation × Option OperationResult) :
    List (String × Attribution) :=
  match p with
  | (_, none) => []
  | (.modifyOrder target _, some r) =>
    if r.success then
      ((resultId r).bind fun id ↦ (known.lookup target).map fun a ↦ (id, a)).toList
    else []
  | (op, some r) =>
    match op.contract? with
    | some contract =>
      ((resultId r).map fun id ↦ (id, ⟨contract, op.fillDirection⟩)).toList ++
        r.legs.map fun leg ↦ (leg.orderId, ⟨contract, op.fillDirection.opposite⟩)
    | none => []

/-- One more operation; what comes later is looked up first. -/
def learn (known : List (String × Attribution)) (p : Operation × Option OperationResult) :
    List (String × Attribution) :=
  attributed known p ++ known

def attributions (pairs : List (Operation × Option OperationResult)) :
    List (String × Attribution) :=
  pairs.foldl learn []

variable (rnd : Decimal → Decimal)

/-- The running sum of executed quantities: it never goes below zero. -/
def clampedSum (q qty : Decimal) : TradeSide → Decimal
  | .buy => max 0 (rnd (q + qty))
  | .sell => max 0 (rnd (q - qty))

/-- The variables of the running sum: the quantity, and the orders counted. -/
structure Tally where
  qty : Decimal := 0
  counted : List String := []

/-- One row of a sync: the quantity it reports as executed, for an order that
trades the instrument and has not been counted. -/
def tallyRow (known : List (String × Attribution)) (aliceId : String) (s : Tally)
    (r : OperationResult) : Tally :=
  match resultId r, r.fill? with
  | some id, some (qty, _) =>
    if r.status = .submitted ∨ qty = 0 ∨ id ∈ s.counted then s
    else
      match known.lookup id with
      | some a =>
        if a.contract.aliceId = some aliceId then
          ⟨clampedSum rnd s.qty qty a.side, id :: s.counted⟩
        else s
      | none => s
  | _, _ => s

def tallyCommit (known : List (String × Attribution)) (aliceId : String) (s : Tally)
    (c : GitCommit) : Tally :=
  if c.isSync then c.results.foldl (tallyRow rnd known aliceId) s else s

def tallyLog (commits : List GitCommit) (aliceId : String) : Tally :=
  commits.foldl (tallyCommit rnd (attributions (logPairs commits)) aliceId) {}

def trackedQuantity (commits : List GitCommit) (aliceId : String) : Decimal :=
  (tallyLog rnd commits aliceId).qty

/-- The quantity of the cost basis is the executed quantity; a missing cost basis is
an empty one. -/
def ExecutedIsCounted (commits : List GitCommit) (aliceId : String) : Prop :=
  ((recomputeCostBasisFromCommits rnd commits aliceId).getD {}).qty =
    trackedQuantity rnd commits aliceId

def WithoutReconcile (commits : List GitCommit) : Prop :=
  ∀ c ∈ commits, ∀ op ∈ c.operations, op.action ≠ .reconcileBalance

/-! ## The orders the cost basis knows -/

/-- The attributions of the cost basis are right: an order introduced under its
own id trades what the operation that introduced it last says.  It fails when a
later leg or replacement of another instrument or side has the same id. -/
def Faithful (pairs : List (Operation × Option OperationResult)) : Prop :=
  ∀ id op contract, originOf pairs id = some op → op.contract? = some contract →
    (attributions pairs).lookup id = some ⟨contract, op.fillDirection⟩

variable {pairs : List (Operation × Option OperationResult)}

theorem faithful_nil : Faithful [] := by
  intro id op contract ho
  cases ho

/-- An operation that brings no legs and replaces no order introduces at most its
own order. -/
structure Plain (p : Operation × Option OperationResult) : Prop where
  notModify : ∀ target changes, p.1 ≠ .modifyOrder target changes
  noLegs : ∀ r, p.2 = some r → r.legs = []

variable {known : List (String × Attribution)} {p : Operation × Option OperationResult}

theorem attributed_of_none (hp : Plain p) (h : introduction p = none) :
    attributed known p = [] := by
  obtain ⟨op, _ | r⟩ := p
  · simp [attributed]
  have hlegs : r.legs = [] := hp.noLegs r rfl
  cases op with
  | modifyOrder target changes => exact absurd rfl (hp.notModify target changes)
  | placeOrder _ _ _ | closePosition _ _ | observeExternalOrder _ _ =>
    have hid : resultId r = none := by simpa [introduction, Operation.contract?] using h
    simp [attributed, Operation.contract?, hid, hlegs]
  | cancelOrder _ | syncOrders | reconcileBalance _ _ _ =>
    simp [attributed, Operation.contract?]

theorem attributed_of_some {id : String} {op : Operation} {contract : Contract}
    (hp : Plain p) (h : introduction p = some (id, op)) (hc : op.contract? = some contract) :
    attributed known p = [(id, ⟨contract, op.fillDirection⟩)] := by
  obtain ⟨rfl, _, hid⟩ := introduction_eq_some.mp h
  obtain ⟨op, _ | r⟩ := p
  · cases hid
  have hlegs : r.legs = [] := hp.noLegs r rfl
  have hown : resultId r = some id := hid
  cases op <;> cases hc <;> simp [attributed, Operation.contract?, hown, hlegs]

theorem Faithful.concat (h : Faithful pairs) (hp : Plain p) : Faithful (pairs ++ [p]) := by
  intro id op contract ho hc
  have hlearn : attributions (pairs ++ [p]) =
      attributed (attributions pairs) p ++ attributions pairs := by
    rw [attributions, List.foldl_append]
    rfl
  rw [hlearn, List.lookup_append]
  rw [originOf_append] at ho
  cases hi : introduction p with
  | none =>
    have hnone : originOf [p] id = none := by simp [originOf, hi]
    rw [hnone, Option.none_or] at ho
    rw [attributed_of_none hp hi, List.lookup_nil, Option.none_or]
    exact h id op contract ho hc
  | some q =>
    obtain ⟨id', op'⟩ := q
    by_cases hid : id = id'
    · subst hid
      have hsome : originOf [p] id = some op' := by simp [originOf, hi]
      rw [hsome, Option.some_or] at ho
      cases ho
      rw [attributed_of_some hp hi hc, List.lookup_cons_self, Option.some_or]
    · have hbeq : (id == id') = false := beq_false_of_ne hid
      have hnone : originOf [p] id = none := by simp [originOf, hi, List.lookup_cons, hbeq]
      obtain ⟨contract', hc'⟩ := Option.isSome_iff_exists.mp (introduction_eq_some.mp hi).2.1
      rw [hnone, Option.none_or] at ho
      rw [attributed_of_some hp hi hc', List.lookup_cons, hbeq]
      exact h id op contract ho hc

theorem Faithful.append (h : Faithful pairs) {new : List (Operation × Option OperationResult)}
    (hnew : ∀ p ∈ new, Plain p) : Faithful (pairs ++ new) := by
  induction new generalizing pairs with
  | nil => simpa using h
  | cons p new ih =>
    rw [List.forall_mem_cons] at hnew
    rw [List.append_cons]
    exact ih (h.concat hnew.1) hnew.2

/-! ## The two sums row by row -/

/-- A result reports the execution of some quantity of an order that is no longer
open. -/
structure Executed (r : OperationResult) (id : String) (qty price : Decimal) : Prop where
  order : resultId r = some id
  fill : r.fill? = some (qty, price)
  terminal : r.status ≠ .submitted
  nonzero : qty ≠ 0

def RoundsNonneg : Prop := ∀ x : Decimal, 0 ≤ x → 0 ≤ rnd x

variable {rnd} {commits : List GitCommit} {aliceId : String}

theorem applyFill_qty (hrnd : RoundsNonneg rnd) {b : CostBasis} (hb : 0 ≤ b.qty) {qty : Decimal}
    (hq : 0 < qty) (price : Decimal) (side : TradeSide) :
    (b.applyFill rnd qty price side).qty = clampedSum rnd b.qty qty side := by
  cases side with
  | buy =>
    have hnonneg : 0 ≤ rnd (b.qty + qty) := hrnd _ (add_nonneg hb hq.le)
    simp only [CostBasis.applyFill, clampedSum, max_eq_right hnonneg]
    split
    · rename_i h0
      exact h0.symm
    · rfl
  | sell =>
    simp only [CostBasis.applyFill, clampedSum]
    split
    · rename_i hle
      exact (max_eq_left hle).symm
    · rename_i hgt
      exact (max_eq_right (le_of_not_ge hgt)).symm

theorem clampedSum_nonneg (q qty : Decimal) (side : TradeSide) : 0 ≤ clampedSum rnd q qty side := by
  cases side <;> exact le_max_left _ _

theorem tallyRow_none {t : Tally} {r : OperationResult}
    (h : ∀ id qty price, ¬Executed r id qty price) : tallyRow rnd known aliceId t r = t := by
  simp only [tallyRow]
  split
  · rename_i id qty price hid hfill
    split
    · rfl
    rename_i hno
    rw [not_or, not_or] at hno
    exact absurd ⟨hid, hfill, hno.1, hno.2.1⟩ (h id qty price)
  · rfl

theorem tallyRow_some {t : Tally} {r : OperationResult}
    {id : String} {qty price : Decimal} {a : Attribution} (h : Executed r id qty price)
    (ha : known.lookup id = some a) :
    tallyRow rnd known aliceId t r =
      if id ∈ t.counted ∨ a.contract.aliceId ≠ some aliceId then t
      else ⟨clampedSum rnd t.qty qty a.side, id :: t.counted⟩ := by
  simp only [tallyRow, h.order, h.fill, h.terminal, h.nonzero, false_or, ha]
  by_cases hin : id ∈ t.counted
  · simp [hin]
  · by_cases hal : a.contract.aliceId = some aliceId <;> simp [hin, hal]

theorem costRow_unexecuted {s : Replay} {r : OperationResult} (hs : r.success = true)
    (h : ∀ id qty price, ¬Executed r id qty price) : costRow rnd commits aliceId s r = s := by
  cases hr : rowFill commits r with
  | none => exact costRow_none hr
  | some f =>
    obtain ⟨hf, hid, hfill, _⟩ := rowFill_eq_some.mp hr
    have hzero : f.qty = 0 := by
      by_contra hne
      exact h f.id f.qty f.price ⟨hid, hfill, by simp [hf], hne⟩
    rw [costRow_some hs hr, if_pos (.inr (.inr hzero))]

/-! ## The simulation -/

structure Tallied (commits : List GitCommit) (aliceId : String) (s : Replay) (t : Tally) :
    Prop where
  qty : s.basis.qty = t.qty
  nonneg : 0 ≤ t.qty
  counted : ∀ id op, orderOrigin commits id = some op → op.matchesAliceId aliceId = true →
    (id ∈ s.counted ↔ id ∈ t.counted)

theorem tallied_initial : Tallied commits aliceId {} {} := ⟨rfl, le_rfl, fun _ _ _ _ ↦ Iff.rfl⟩

/-- An update whose row the cost basis counts for what it is, or that reports no
execution: it is filled, with a positive quantity, under an order's own id. -/
def OrderStatusUpdate.Countable (commits : List GitCommit) (u : OrderStatusUpdate) : Prop :=
  ∀ id qty price, Executed (syncRow u) id qty price →
    u.currentStatus = .filled ∧ 0 < qty ∧ (orderOrigin commits id).isSome = true

theorem tallied_row (hrnd : RoundsNonneg rnd) (hfaith : Faithful (logPairs commits))
    {u : OrderStatusUpdate} (hu : u.Countable commits) {s : Replay} {t : Tally}
    (h : Tallied commits aliceId s t) :
    Tallied commits aliceId (costRow rnd commits aliceId s (syncRow u))
      (tallyRow rnd (attributions (logPairs commits)) aliceId t (syncRow u)) := by
  by_cases hex : ∃ id qty price, Executed (syncRow u) id qty price
  · obtain ⟨id, qty, price, hex⟩ := hex
    obtain ⟨hf, hpos, horigin⟩ := hu id qty price hex
    obtain ⟨op, ho⟩ := Option.isSome_iff_exists.mp horigin
    obtain ⟨contract, hc⟩ := contract_of_originOf ho
    have hrow : rowFill commits (syncRow u) = some ⟨id, op, qty, price⟩ :=
      rowFill_eq_some.mpr ⟨hf, hex.order, hex.fill, ho⟩
    have hmatch : op.matchesAliceId aliceId = true ↔ contract.aliceId = some aliceId :=
      matchesAliceId_contract hc
    rw [costRow_some rfl hrow, tallyRow_some hex (hfaith id op contract ho hc)]
    by_cases hm : op.matchesAliceId aliceId = true
    · have hcounted := h.counted id op ho hm
      by_cases hin : id ∈ t.counted
      · rw [if_pos (.inl (hcounted.mpr hin)), if_pos (.inl hin)]
        exact h
      have hnew : ¬(id ∈ s.counted ∨ op.matchesAliceId aliceId = false ∨ qty = 0) := by
        simp [hcounted, hin, hm, hex.nonzero]
      have hnew' : ¬(id ∈ t.counted ∨ contract.aliceId ≠ some aliceId) := by
        simp [hin, hmatch.mp hm]
      rw [if_neg hnew, if_neg hnew']
      constructor
      · show (s.basis.applyFill rnd qty price op.fillDirection).qty = _
        rw [applyFill_qty hrnd (h.qty ▸ h.nonneg) hpos, h.qty]
      · exact clampedSum_nonneg _ _ _
      · intro id' op' ho' hm'
        rw [List.mem_cons, List.mem_cons, h.counted id' op' ho' hm']
    · have hother : contract.aliceId ≠ some aliceId := fun ha ↦ hm (hmatch.mpr ha)
      rw [if_pos (.inr (.inl (by simpa using hm))), if_pos (.inr hother)]
      exact h
  · have hno : ∀ id qty price, ¬Executed (syncRow u) id qty price :=
      fun id qty price h ↦ hex ⟨id, qty, price, h⟩
    rw [costRow_unexecuted rfl hno, tallyRow_none hno]
    exact h

/-- A commit the two sums read alike: one without execution data, or a sync of
countable rows. -/
inductive CountedAlike (commits : List GitCommit) (c : GitCommit) : Prop
  | quiet (hq : Quiet c.results)
  | sync {us : List OrderStatusUpdate} (hu : ∀ u ∈ us, u.Countable commits)
      (ho : c.operations = [.syncOrders]) (hr : c.results = us.map syncRow)

variable {c : GitCommit}

theorem tallied_quiet (hq : Quiet c.results)
    {s : Replay} {t : Tally} (h : Tallied commits aliceId s t) :
    Tallied commits aliceId (costCommit rnd commits aliceId s c)
      (tallyCommit rnd known aliceId t c) := by
  rw [costCommit_quiet hq]
  simp only [tallyCommit]
  split
  · refine List.foldlRecOn _ _ h ?_
    intro t h r hr
    have hno : ∀ id qty price, ¬Executed r id qty price := by
      intro id qty price hex
      have hfill := hex.fill
      rw [hq r hr] at hfill
      cases hfill
    rw [tallyRow_none hno]
    exact h
  · exact h

theorem tallied_sync (hrnd : RoundsNonneg rnd) (hfaith : Faithful (logPairs commits))
    {us : List OrderStatusUpdate} (hu : ∀ u ∈ us, u.Countable commits)
    (ho : c.operations = [.syncOrders]) (hr : c.results = us.map syncRow) {s : Replay} {t : Tally}
    (h : Tallied commits aliceId s t) :
    Tallied commits aliceId (costCommit rnd commits aliceId s c)
      (tallyCommit rnd (attributions (logPairs commits)) aliceId t c) := by
  have hsync : c.isSync = true := by simp [GitCommit.isSync, ho]
  simp only [costCommit, tallyCommit, hsync, if_true, hr, List.foldl_map]
  refine List.foldl_rel h ?_
  intro u hmem s t h
  exact tallied_row hrnd hfaith (hu u hmem) h

theorem executedIsCounted_of_alike (hrnd : RoundsNonneg rnd)
    (hfaith : Faithful (logPairs commits)) (hlog : ∀ c ∈ commits, CountedAlike commits c) :
    ExecutedIsCounted rnd commits aliceId := by
  have htallied : Tallied commits aliceId (costReplay rnd commits aliceId)
      (tallyLog rnd commits aliceId) := by
    refine List.foldl_rel tallied_initial ?_
    intro c hc s t h
    cases hlog c hc with
    | quiet hq => exact tallied_quiet hq h
    | sync hu ho hr => exact tallied_sync hrnd hfaith hu ho hr h
  rw [ExecutedIsCounted, recomputeCostBasisFromCommits_getD]
  exact htallied.qty

/-! ## Runs -/

/-- The condition on the steps: a sync reports executions only of orders that the
log introduced under their own id, as filled and with a positive quantity; and
the commit a write is about to append leaves the attributions right. -/
def countableStep (W : GitWorld) : GitEvent → Prop
  | .call (.sync updates _ _ _) => ∀ u ∈ updates, u.Countable W.shared.git.commits
  | .resume i (.state _ _) => ∀ p, W.tasks[i]? = some (.snapshotting p) →
      Faithful (logPairs W.shared.git.commits ++ paired p.operations p.results)
  | _ => True

theorem countable_append {u : OrderStatusUpdate} (h : u.Countable commits) :
    u.Countable (commits ++ [c]) := by
  intro id qty price hex
  obtain ⟨hf, hpos, ho⟩ := h id qty price hex
  refine ⟨hf, hpos, ?_⟩
  rw [orderOrigin, logPairs_append, originOf_append, Option.isSome_or]
  exact Bool.or_eq_true_iff.mpr (.inr ho)

/-- What a run keeps: the attributions are right, and every commit is read alike
or is a reconciliation. -/
structure Accounted (commits : List GitCommit) : Prop where
  faithful : Faithful (logPairs commits)
  alike : ∀ c ∈ commits, CountedAlike commits c ∨ ∃ op ∈ c.operations, op.action = .reconcileBalance

theorem Accounted.append (h : Accounted commits) (hf : Faithful (logPairs commits ++ c.pairs))
    (hc : CountedAlike commits c ∨ ∃ op ∈ c.operations, op.action = .reconcileBalance) :
    Accounted (commits ++ [c]) where
  faithful := logPairs_append ▸ hf
  alike := by
    have hmono : ∀ d : GitCommit, CountedAlike commits d → CountedAlike (commits ++ [c]) d := by
      intro d hd
      cases hd with
      | quiet hq => exact .quiet hq
      | sync hu ho hr => exact .sync (fun u hmem ↦ countable_append (hu u hmem)) ho hr
    rw [List.forall_mem_append, List.forall_mem_singleton]
    exact ⟨fun d hd ↦ (h.alike d hd).imp_left (hmono d), hc.imp_left (hmono c)⟩

/-- Operations other than `modifyOrder`, with results without legs. -/
theorem plain_of {ops : List Operation} {rs : List OperationResult}
    (hops : ∀ op ∈ ops, op.action ≠ .modifyOrder) (hrs : ∀ r ∈ rs, r.legs = []) :
    ∀ p ∈ paired ops rs, Plain p := by
  rintro ⟨op, r?⟩ hp
  obtain ⟨hop, hr⟩ := mem_of_mem_paired hp
  constructor
  · rintro target changes rfl
    exact hops _ hop rfl
  · intro r he
    exact hrs r (hr r he)

theorem accounted_step {V : GitWorld} {e : GitEvent} (hok : countableStep V e)
    (hc : Logged V e c.operations c.results) (hV : Accounted V.shared.git.commits) :
    Accounted (V.shared.git.commits ++ [c]) := by
  generalize hops : c.operations = ops at hc
  generalize hres : c.results = res at hc
  have hpairs : c.pairs = paired ops res := by rw [GitCommit.pairs, hops, hres]
  cases hc with
  | reconciled p now =>
    refine hV.append ?_ (.inr ⟨p.operation, by simp [hops], rfl⟩)
    rw [hpairs]
    exact hV.faithful.append (plain_of (by simp [ReconcileParams.operation, Operation.action])
      (by simp [ReconcileParams.result]))
  | observed os s now =>
    refine hV.append ?_ (.inl (.quiet ?_))
    · rw [hpairs]
      exact hV.faithful.append (plain_of (by simp [ObservedOrder.operation, Operation.action])
        (by simp [ObservedOrder.result]))
    rw [hres]
    intro r hr
    obtain ⟨o, _, rfl⟩ := List.mem_map.mp hr
    rfl
  | synced us s hashedAt now =>
    refine hV.append ?_ (.inl (.sync hok hops hres))
    rw [hpairs]
    exact hV.faithful.append (plain_of (by simp [Operation.action]) (by simp [syncRow]))
  | written s now hp hq =>
    refine hV.append ?_ (.inl (.quiet (hres ▸ hq)))
    rw [hpairs]
    exact hok _ hp

/-- **Executed quantity is counted**, in every run whose syncs report executions
only of orders the log introduced under their own id, and as filled. -/
theorem executed_is_counted {pf : Platform} (hrnd : RoundsNonneg rnd) {W : GitWorld}
    (h : Reach (gitProg pf).step countableStep (GitWorld.initial {}) W)
    (hno : WithoutReconcile W.shared.git.commits) (aliceId : String) :
    ExecutedIsCounted rnd W.shared.git.commits aliceId := by
  have hacc : Accounted W.shared.git.commits :=
    reach_log h ⟨faithful_nil, by simp⟩ fun V e c ↦ accounted_step
  refine executedIsCounted_of_alike hrnd hacc.faithful ?_
  intro c hc
  rcases hacc.alike c hc with halike | ⟨op, hop, haction⟩
  · exact halike
  · exact absurd haction (hno c hc op hop)

def sampleLegs : List PlaceOrderLeg := [⟨"2", .takeProfit⟩, ⟨"3", .stopLoss⟩]

/-- The entry of a bracket fills: the two shares it bought are counted. -/
theorem executed_is_counted_bracket : ∃ W : GitWorld,
    Reach (gitProg constPlatform).step countableStep (GitWorld.initial {}) W ∧
      trackedQuantity id W.shared.git.commits "acct|AAPL" = 2 ∧
      ExecutedIsCounted id W.shared.git.commits "acct|AAPL" := by
  have hpush : Reach (gitProg constPlatform).step countableStep (GitWorld.initial {}) _ :=
    .of_exec_of_forall ((samplePush sampleLegs).take 4) rfl (by simp [samplePush, countableStep])
  have hwritten := hpush.tail (e := .resume 2 (.state {} 2)) ?_ rfl
  have hsync := hwritten.tail
    (e := .call (.sync [sampleUpdate "1" .filled (some 2) (some 100)] {} 3 3)) ?_ rfl
  · refine ⟨_, hsync, ?_, executed_is_counted (fun _ h ↦ h) hsync ?_ "acct|AAPL"⟩
    · decide +kernel
    · unfold WithoutReconcile
      decide
  · -- the sync reports the order under its own id
    intro u hu id qty price hex
    rw [List.mem_singleton] at hu
    subst hu
    cases hex.order
    cases hex.fill
    exact ⟨rfl, by decide, rfl⟩
  · -- the legs have ids of their own
    rintro p ⟨⟩
    show Faithful [(Operation.placeOrder sampleContract { action := some "BUY" } none,
      some (parseOperationResult (.placeOrder sampleContract { action := some "BUY" } none)
        (.object true none (some "1") (some { status := "Submitted" }) sampleLegs)))]
    intro id op contract ho hc
    obtain ⟨q, hq, hi⟩ := mem_of_originOf ho
    rw [List.mem_singleton] at hq
    subst hq
    cases hi
    cases hc
    rfl

/-- An order is cancelled after half of it was executed: the cost basis knows
nothing of that half. -/
theorem not_executed_is_counted : ¬ ∀ (pf : Platform) (W : GitWorld),
    Reach (gitProg pf).step anyStep (GitWorld.initial {}) W →
      WithoutReconcile W.shared.git.commits →
        ∀ aliceId, ExecutedIsCounted id W.shared.git.commits aliceId := by
  intro h
  have hr : Reach (gitProg constPlatform).step anyStep (GitWorld.initial {}) _ :=
    .of_exec (samplePush [] ++
      [.call (.sync [sampleUpdate "1" .cancelled (some 1) (some 100)] {} 3 3)]) rfl
  have hcounted := h constPlatform _ hr (by unfold WithoutReconcile; decide) "acct|AAPL"
  revert hcounted
  unfold ExecutedIsCounted
  decide +kernel

end OpenAlice.Trading
