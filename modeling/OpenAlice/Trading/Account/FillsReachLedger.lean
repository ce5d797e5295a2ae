import OpenAlice.Trading.Account.Recorded
import OpenAlice.Trading.Ledger.OrderHistory

/-!
# Fills reach the ledger

A result of a dispatch is carried by its push until the push appends it to the
log, and an order of the log is polled as long as its status is submitted.  So
when nothing is under way any more, the status the log holds of an order that
filled is a row of a sync, and such a row is a trade of the history.

The chain breaks in three places: at a reply that reports the order filled, since
the order is then never polled; at an order that still works under a status that
`sync` takes for its end; and at a push whose `getGitState` fails, since its
results are dropped.
-/

namespace OpenAlice.Trading.Passes

open OpenAlice.Run OpenAlice.Trading.Git TradingGit

/-- Nothing is under way: every push and reject has ended, every order at the broker
is terminal, and the ledger believes no order open. -/
structure Settled (W : PassWorld) : Prop where
  written : ∀ k ∈ W.tasks, k.writing = false
  terminal : ∀ o ∈ W.shared.orders, o.fate ≠ .working
  pending : getPendingOrderIds W.shared.commits = []

def FillsListed (rnd : Decimal → Decimal) (S : Shared) : Prop :=
  ∀ o ∈ S.orders, ∀ qty price, o.fate = .filled qty price → Accepted S o.id →
    ∃ t, tradesOfOrder rnd S.commits o.id = [t] ∧ t.quantity = qty ∧ t.price = price

variable {W : PassWorld}

theorem Recorded.of_accepted (h : Recorded W) (hs : Settled W) {id : String}
    (hid : Accepted W.shared id) :
    InLog W.shared.commits id ∧ ∃ op, orderOrigin W.shared.commits id = some op := by
  obtain ⟨op, r, hmem, hcontract, hr⟩ := hid
  have hlog : (op, some r) ∈ logPairs W.shared.commits := by
    refine (h op r hmem ⟨hcontract, hr ▸ rfl⟩).resolve_right ?_
    rintro ⟨i, k, hi, hk⟩
    rw [(pairs_of_not_writing (hs.written k (List.mem_of_getElem? hi))).1] at hk
    cases hk
  constructor
  · obtain ⟨c, hc, hp⟩ := List.mem_flatMap.mp hlog
    exact ⟨c, hc, r, (mem_of_mem_paired hp).2 r rfl, mem_resultIds hr⟩
  · exact originOf_isSome hlog (introduction_eq_some.mpr ⟨rfl, hcontract, hr⟩)

theorem Audited.filled_row (h : Audited W) {o : BrokerOrder} (ho : o ∈ W.shared.orders)
    {qty price : Decimal} (hfate : o.fate = .filled qty price) (hin : InLog W.shared.commits o.id)
    (hno : orderStatus W.shared.commits o.id ≠ some .submitted) :
    ∃ c ∈ W.shared.commits, ∃ r ∈ c.results, c.isSync = true ∧ resultId r = some o.id ∧
      r.status = .filled ∧ r.fill? = some (qty, price) := by
  obtain ⟨st, hst⟩ := Option.isSome_iff_exists.mp (orderStatus_isSome hin)
  have hnot : st ≠ .submitted := by
    rintro rfl
    exact hno hst
  obtain ⟨c, hc, r, hr, hcase⟩ := orderStatus_cases hst
  obtain ⟨hid, rfl⟩ := hcase.resolve_right hnot
  obtain ⟨hs, hfill⟩ := ((h.logged c hc r hr).sound o ho hid).filled hfate hnot
  refine ⟨c, hc, r, hr, ?_, hid, hs, hfill⟩
  refine (h.rows c hc).resolve_right ?_
  intro hquiet
  rw [hquiet r hr (hid ▸ rfl)] at hfill
  cases hfill

theorem fillsListed_of_settled (h : Audited W) (hr : Recorded W) (hs : Settled W)
    (rnd : Decimal → Decimal) : FillsListed rnd W.shared := by
  intro o ho qty price hfate hid
  obtain ⟨hin, op, hop⟩ := hr.of_accepted hs hid
  have hno : orderStatus W.shared.commits o.id ≠ some .submitted := by
    intro hsubmitted
    obtain ⟨p, hp, _⟩ := pending_of_submitted hin hsubmitted
    rw [hs.pending] at hp
    cases hp
  obtain ⟨c, hc, r, hr, hsync, hrid, hstatus, hfill⟩ := h.filled_row ho hfate hin hno
  have hrow : rowFill W.shared.commits r = some ⟨o.id, op, qty, price⟩ :=
    rowFill_eq_some.mpr ⟨hstatus, hrid, hfill, hop⟩
  obtain ⟨t, ht, htid, htrades⟩ :=
    tradesOfOrder_of_counted rnd (counted_of_rowFill hc hsync hr hrow)
  refine ⟨t, htrades, ?_⟩
  -- the trade is made of some filled result, and all of them tell the same
  obtain ⟨c', hc', r', hr', hrid', hstatus', hfill'⟩ := reported_tradesOf t ht o.id htid
  obtain ⟨_, hsame⟩ := ((h.logged c' hc' r' hr').sound o ho hrid').filled hfate
    (by rw [hstatus']; decide)
  rw [hfill'] at hsame
  cases hsame
  exact ⟨rfl, rfl⟩

/-! ## Runs -/

/-- **Fills reach the ledger**, in every run of an honest broker in which no reply
reports its order filled, no order that works shows under another status than
submitted, and no push that dispatched an order fails in `getGitState`. -/
theorem fills_reach_ledger {cfg : PassConfig}
    (h : Reach (passProg cfg).step recordableStep PassWorld.initial W) (hs : Settled W) :
    FillsListed cfg.round W.shared := by
  have haudited : Audited W := audited_of_reach (fun _ _ hok ↦ ⟨hok.1, hok.2.1⟩) h
  have hrecorded : Recorded W :=
    h.invariant recorded_initial fun _ _ _ hV hok hst ↦ step_recorded hV hok.2.2 hst
  exact fillsListed_of_settled haudited hrecorded hs cfg.round

/-! ## Runs to evaluate -/

def sampleAccount : PassConfig where
  toPlatform := constPlatform
  round := id
  listsOpenOrders := true
  stampAliceId _ := "acct|AAPL"

def sampleAfter (events : List PassEvent) : PassWorld :=
  after (passProg sampleAccount).step PassWorld.initial events

def buyOperation : Operation := .placeOrder sampleContract { action := some "BUY" } none

def pushed : List PassEvent :=
  [.call (.client ⟨.add buyOperation, rfl⟩), .call (.client ⟨.commit "buy" 1, rfl⟩),
    .call (.client ⟨.push "00000000", rfl⟩)]

def accepted : PassEvent := .call (.broker (.accepts "1" sampleContract .buy))

def sampleOrder (fate : Fate) : BrokerOrder := ⟨"1", sampleContract, .buy, fate⟩

def replyOf (status : String) : PassEvent :=
  .resume 2 (.git (.reply (.object true none (some "1") (some { status }) [])) 2)

def recorded : List PassEvent := [.resume 2 (.git (.state {} 2) 2), .resume 2 (.git .persisted 2)]

def filled : PassEvent := .call (.broker (.fills "1" 2 100))

def orderFilled : PassAnswer :=
  .order (some {
    contract := sampleContract
    order := { filledQuantity := some 2 }
    orderState := { status := "Filled" }
    avgFillPrice := some 100 })

/-- Sync number `i` misses the order in the listing, asks for it and records it. -/
def synced (i : Nat) : List PassEvent :=
  [.call (.sync false 3), .resume i (.openOrders []), .resume i orderFilled,
    .resume i (.state {} 4 4), .resume i (.git .persisted 4)]

theorem recordable_accepted (ho : W.shared.orders = []) (hr : W.shared.replies = []) :
    recordableStep W accepted := by
  refine ⟨⟨by decide, ?_, ?_⟩, trivial, trivial⟩
  · simp [ho]
  · simp [Known, hr]

theorem recordable_filled : recordableStep W filled :=
  ⟨⟨by decide, by decide⟩, trivial, trivial⟩

theorem honest_reply {status : String} (message : String) (hash : CommitHash) (fate : Fate)
    (hi : W.tasks[2]? = some (.git (.executing [buyOperation] message hash [])))
    (ho : W.shared.orders = [sampleOrder fate]) (hr : W.shared.replies = []) :
    honestStep W (replyOf status) := by
  intro k hk
  cases hi.symm.trans hk
  constructor
  · intro op r hmem _ _
    cases List.mem_singleton.mp hmem
    refine ⟨sampleOrder fate, by simp [ho], rfl, ?_⟩
    simp [Known, hr]
  · rintro p candidates updates brokerOrder ⟨⟩

theorem recordable_reply (message : String) (hash : CommitHash) (fate : Fate)
    (hi : W.tasks[2]? = some (.git (.executing [buyOperation] message hash [])))
    (ho : W.shared.orders = [sampleOrder fate]) (hr : W.shared.replies = []) :
    recordableStep W (replyOf "Submitted") := by
  refine ⟨honest_reply message hash fate hi ho hr, ?_, ?_⟩
  · intro k hk
    cases hi.symm.trans hk
    constructor
    · intro op r hmem o _ _
      cases List.mem_singleton.mp hmem
      trivial
    · rintro p candidates updates brokerOrder ⟨⟩
  · rintro k hk ⟨_, _, _, rfl, ⟨⟩⟩

theorem recordable_orderFilled {i : Nat} (p : PendingOrder) (candidates : List PendingOrder)
    (updates : List OrderStatusUpdate) (hi : W.tasks[i]? = some (.polling p candidates updates))
    (ho : W.shared.orders = [sampleOrder (.filled 2 100)]) :
    recordableStep W (.resume i orderFilled) := by
  refine ⟨fun k hk ↦ ⟨?_, ?_⟩, fun k hk ↦ ⟨?_, ?_⟩, fun k hk ↦ ?_⟩ <;> cases hi.symm.trans hk
  · rintro op r ⟨⟩
  · rintro _ _ _ brokerOrder - ⟨⟩ o hmem -
    rw [ho, List.mem_singleton] at hmem
    subst hmem
    exact .inl ⟨rfl, rfl, rfl⟩
  · rintro op r ⟨⟩
  · rintro _ _ _ brokerOrder - ⟨⟩ o hmem - hw
    rw [ho, List.mem_singleton] at hmem
    subst hmem
    cases hw
  · rintro ⟨_, _, _, ⟨⟩, _⟩

def filledLater : List PassEvent :=
  pushed ++ [accepted, replyOf "Submitted"] ++ recorded ++ [filled] ++ synced 5

/-- An order that fills after its push has its one trade. -/
theorem fills_reach_ledger_later : ∃ W : PassWorld,
    Reach (passProg sampleAccount).step recordableStep PassWorld.initial W ∧ Settled W ∧
      W.shared.orders ≠ [] ∧ FillsListed id W.shared := by
  have hr : Reach (passProg sampleAccount).step recordableStep PassWorld.initial
      (sampleAfter filledLater) := by
    refine .of_after filledLater (by decide +kernel) ?_
    intro n e he
    match n with
    | 0 | 1 | 2 | 8 =>
      cases he
      exact ⟨trivial, trivial, trivial⟩
    | 3 =>
      cases he
      exact recordable_accepted (by decide +kernel) (by decide +kernel)
    | 4 =>
      cases he
      exact recordable_reply "buy" "00000000" .working
        (by decide +kernel) (by decide +kernel) (by decide +kernel)
    | 5 | 6 | 9 | 11 | 12 =>
      cases he
      exact recordableStep_silent (by simp) (by simp) (by simp)
    | 7 =>
      cases he
      exact recordable_filled
    | 10 =>
      cases he
      exact recordable_orderFilled ⟨"1", "AAPL", none, some "acct|AAPL"⟩ [] []
        (by decide +kernel) (by decide +kernel)
    | n + 13 => cases he
  have hs : Settled (sampleAfter filledLater) :=
    ⟨by decide +kernel, by decide +kernel, by decide +kernel⟩
  exact ⟨_, hr, hs, by decide +kernel, fills_reach_ledger hr hs⟩

def filledBefore : List PassEvent :=
  pushed ++ [accepted, filled, replyOf "Filled"] ++ recorded

/-- An order that the reply reports filled is never polled and has no trade. -/
theorem not_fills_reach_ledger : ¬ ∀ (cfg : PassConfig) (W : PassWorld),
    Reach (passProg cfg).step honestStep PassWorld.initial W → Settled W →
      FillsListed cfg.round W.shared := by
  intro h
  have hr : Reach (passProg sampleAccount).step honestStep PassWorld.initial
      (sampleAfter filledBefore) := by
    refine .of_after filledBefore (by decide +kernel) ?_
    intro n e he
    match n with
    | 0 | 1 | 2 =>
      cases he
      exact trivial
    | 3 =>
      cases he
      exact (recordable_accepted (by decide +kernel) (by decide +kernel)).1
    | 4 =>
      cases he
      exact recordable_filled.1
    | 5 =>
      cases he
      exact honest_reply "buy" "00000000" (.filled 2 100)
        (by decide +kernel) (by decide +kernel) (by decide +kernel)
    | 6 | 7 =>
      cases he
      exact (recordableStep_silent (by simp) (by simp) (by simp)).1
    | n + 8 => cases he
  have hlisted := h sampleAccount _ hr ⟨by decide +kernel, by decide +kernel, by decide +kernel⟩
  have ho : sampleOrder (.filled 2 100) ∈ (sampleAfter filledBefore).shared.orders := by
    decide +kernel
  have hid : Accepted (sampleAfter filledBefore).shared "1" :=
    ⟨buyOperation, parseOperationResult buyOperation
      (.object true none (some "1") (some { status := "Filled" }) []), by decide +kernel, rfl, rfl⟩
  obtain ⟨t, ht, _⟩ := hlisted _ ho 2 100 rfl hid
  have hone := (congrArg List.length ht).trans List.length_singleton
  revert hone
  decide +kernel

end OpenAlice.Trading.Passes
