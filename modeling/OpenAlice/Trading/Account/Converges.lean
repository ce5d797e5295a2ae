import Mathlib.Data.List.Forall2
import Mathlib.Tactic.NormNum
import Mathlib.Tactic.Ring
import OpenAlice.Trading.Account.Passes

/-!
# A pass over the wallet converges

`_reconcileWalletPositions`, when nothing else runs and every commit is stored.  The loop leaves
behind it positions that are as far from the log as dust, each at the cost basis that the log has for
it, and a second pass over them finds nothing to record.

The induction is on the positions that are ahead of the loop: a commit about one instrument leaves
the replay of the others alone, so what is behind the loop stays as it was left.
-/

namespace OpenAlice.Trading.Passes

open OpenAlice.Trading.Git TradingGit

/-! ## A commit about an instrument -/

section Replay

variable {rnd : Decimal → Decimal} {commits : List GitCommit} {c : GitCommit} {p : ReconcileParams}

theorem orderOrigin_concat_reconcile (ho : c.operations = [p.operation])
    (hr : c.results = [p.result])
    (id : String) : orderOrigin (commits ++ [c]) id = orderOrigin commits id := by
  have hpairs : logPairs (commits ++ [c]) = logPairs commits ++ [(p.operation, some p.result)] := by
    simp only [logPairs, List.flatMap_append, List.flatMap_singleton, GitCommit.pairs, ho, hr, paired]
  rw [orderOrigin, orderOrigin, originOf, originOf, hpairs, List.filterMap_append]
  congr 2
  exact List.append_nil _

/-- **The replay behind a reconciliation**: a virtual fill of its instrument, and no other. -/
theorem basis_concat_reconcile (hp : p.quantityDelta ≠ 0) (ho : c.operations = [p.operation])
    (hr : c.results = [p.result]) (aliceId : String) :
    (costReplay rnd (commits ++ [c]) aliceId).basis =
      if p.aliceId = aliceId then
        (costReplay rnd commits aliceId).basis.applyFill rnd |p.quantityDelta| p.markPrice
          (if 0 ≤ p.quantityDelta then .buy else .sell)
      else (costReplay rnd commits aliceId).basis := by
  rw [costReplay_concat, costCommit_reconcile hp ho hr]
  · split_ifs <;> rfl
  · intro c' _ r _ s
    simp only [costRow, orderOrigin_concat_reconcile ho hr]

end Replay

/-! ## A pass that runs alone -/

variable (cfg : PassConfig) (i : Nat)

/-- Nothing else runs, and every commit is stored.  The times are what `new Date()` answers. -/
inductive Alone : Shared → PassTask → Shared → PassTask → Prop
  | refl (S : Shared) (k : PassTask) : Alone S k S k
  | step {S S' S'' : Shared} {k k' k'' : PassTask} {now : Timestamp}
      (h : resume cfg S i k (.git .persisted now) = some (S', k')) (hrest : Alone S' k' S'' k'') :
      Alone S k S'' k''

/-- A pass over the wallet that runs alone to its end, with the positions as it leaves them. -/
def Completes (S : Shared) (now : Timestamp) (positions : List Position) (S' : Shared)
    (out : List Position) : Prop :=
  Alone cfg i (walk cfg S i now ⟨[], inFlightIds S, []⟩ positions).1
    (walk cfg S i now ⟨[], inFlightIds S, []⟩ positions).2 S' (.done (.positions out))

def Near (S : Shared) (aliceId : String) (quantity : Decimal) : Prop :=
  |quantity - ((costBasis cfg S aliceId).getD {}).qty| ≤ 1 / 100000000

/-- What the loop leaves of a position: one of the wallet is near the log, and at its cost basis. -/
def Reconciled (S : Shared) (p p' : Position) : Prop :=
  (walletId p = none → p' = p) ∧
    ∀ aliceId, walletId p = some aliceId → Near cfg S aliceId p.quantity ∧ p' = reprice cfg S aliceId p

variable {cfg i} {S S' : Shared} {w : Walk} {p p' : Position} {aliceId : String}

theorem Alone.of_done {o o' : PassOutcome} (h : Alone cfg i S (.done o) S' (.done o')) :
    S' = S ∧ o' = o := by
  cases h with
  | refl => exact ⟨rfl, rfl⟩
  | step h => cases h

theorem Alone.of_reconciling {t : Outcome} {rest : List Position} {o : PassOutcome}
    (h : Alone cfg i S (.reconciling (.recording t) w p aliceId rest) S' (.done o)) :
    ∃ now, Alone cfg i (reconciled cfg S i now w p aliceId rest (.done t)).1
      (reconciled cfg S i now w p aliceId rest (.done t)).2 S' (.done o) := by
  cases h with
  | @step _ _ _ _ _ _ now h hrest =>
    obtain ⟨rfl, rfl⟩ := Prod.mk.inj (Option.some.inj h)
    exact ⟨now, hrest⟩

theorem costBasis_eq :
    costBasis cfg S aliceId = recomputeCostBasisFromCommits cfg.round S.commits aliceId := by
  simp only [costBasis, recomputeCostBasisFromCommits, exportState, costReplay_project]

theorem getD_costBasis :
    (costBasis cfg S aliceId).getD {} = (costReplay cfg.round S.commits aliceId).basis := by
  rw [costBasis_eq, recomputeCostBasisFromCommits_getD]

theorem costBasis_congr (h : (costReplay cfg.round S'.commits aliceId).basis =
      (costReplay cfg.round S.commits aliceId).basis) :
    costBasis cfg S' aliceId = costBasis cfg S aliceId := by
  rw [costBasis_eq, costBasis_eq, recomputeCostBasisFromCommits, recomputeCostBasisFromCommits, h]

theorem Reconciled.congr (h : Reconciled cfg S p p') (hsame : ∀ aliceId, walletId p = some aliceId →
      costBasis cfg S' aliceId = costBasis cfg S aliceId) : Reconciled cfg S' p p' := by
  refine ⟨h.1, fun aliceId hid ↦ ?_⟩
  rw [Near, reprice, hsame aliceId hid]
  exact h.2 aliceId hid

/-! ## One position -/

section Drift

variable {now : Timestamp} {positions : List Position}

def behind (cfg : PassConfig) (S : Shared) (i : Nat) (now : Timestamp) (positions : List Position)
    (aliceId : String) (p : Position) : Shared :=
  { S with
    ledger := (Git.start cfg.toPlatform S.ledger i
      (.recordReconcile (reconcileParams cfg S positions aliceId p) now)).1 }

theorem basis_behind (hdrift : drift cfg S aliceId p ≠ 0) (aliceId' : String) :
    (costReplay cfg.round (behind cfg S i now positions aliceId p).commits aliceId').basis =
      if aliceId = aliceId' then
        (costReplay cfg.round S.commits aliceId').basis.applyFill cfg.round |drift cfg S aliceId p|
          (bootstrapPrice p) (if 0 ≤ drift cfg S aliceId p then .buy else .sell)
      else (costReplay cfg.round S.commits aliceId').basis :=
  basis_concat_reconcile (p := reconcileParams cfg S positions aliceId p) hdrift rfl rfl aliceId'

/-- A commit about one instrument leaves the others alone. -/
theorem costBasis_behind_of_ne (hdrift : drift cfg S aliceId p ≠ 0) {aliceId' : String}
    (hne : aliceId' ≠ aliceId) :
    costBasis cfg (behind cfg S i now positions aliceId p) aliceId' = costBasis cfg S aliceId' := by
  apply costBasis_congr
  rw [basis_behind hdrift, if_neg (Ne.symm hne)]

/-- **The delta is folded back**: the replay ends at the quantity of the position, whether the drift
was bought or sold. -/
theorem qty_behind (hround : cfg.round = id) (hnonneg : 0 ≤ p.quantity)
    (hdrift : drift cfg S aliceId p ≠ 0) :
    ((costBasis cfg (behind cfg S i now positions aliceId p) aliceId).getD {}).qty = p.quantity := by
  have hdelta : drift cfg S aliceId p =
      p.quantity - (costReplay cfg.round S.commits aliceId).basis.qty := by
    rw [drift, getD_costBasis, hround]
    rfl
  have hexact : cfg.round p.quantity = p.quantity := by rw [hround, id]
  rw [getD_costBasis, basis_behind hdrift, if_pos rfl]
  by_cases hsign : 0 ≤ drift cfg S aliceId p
  · rw [if_pos hsign, abs_of_nonneg hsign]
    refine applyFill_exact ?_ hnonneg hexact
    rw [hdelta]
    ring
  rw [if_neg hsign, abs_of_neg (not_le.mp hsign)]
  refine applyFill_exact ?_ hnonneg hexact
  rw [hdelta]
  ring

theorem reconciled_behind (hround : cfg.round = id) (hnonneg : 0 ≤ p.quantity)
    (hdrift : drift cfg S aliceId p ≠ 0) (hid : walletId p = some aliceId) :
    Reconciled cfg (behind cfg S i now positions aliceId p) p
      (reprice cfg (behind cfg S i now positions aliceId p) aliceId p) := by
  refine ⟨fun h ↦ ?_, fun aliceId' h ↦ ?_⟩
  · rw [hid] at h
    cases h
  obtain rfl := Option.some.inj (hid.symm.trans h)
  refine ⟨?_, rfl⟩
  rw [Near, qty_behind hround hnonneg hdrift, sub_self, abs_zero]
  norm_num

theorem reconciled_reprice (hnear : Near cfg S aliceId p.quantity)
    (hid : walletId p = some aliceId) :
    Reconciled cfg S p (reprice cfg S aliceId p) := by
  refine ⟨fun h ↦ ?_, fun aliceId' h ↦ ?_⟩
  · rw [hid] at h
    cases h
  · obtain rfl := Option.some.inj (hid.symm.trans h)
    exact ⟨hnear, rfl⟩

theorem near_iff (hround : cfg.round = id) :
    Near cfg S aliceId p.quantity ↔ ¬ 1 / 100000000 < |drift cfg S aliceId p| := by
  rw [Near, drift, hround, not_lt]
  rfl

end Drift

/-! ## The whole loop -/

/-- **The loop from some position on**: what is ahead of it is left reconciled, and the cost basis of
every other instrument is as it was. -/
theorem walk_reconciles (hround : cfg.round = id) {now : Timestamp} {rest out : List Position}
    (hdistinct : (rest.filterMap walletId).Nodup)
    (hok : ∀ p ∈ rest, ∀ aliceId, walletId p = some aliceId → 0 ≤ p.quantity ∧ aliceId ∉ w.inFlight)
    (hrun : Alone cfg i (walk cfg S i now w rest).1 (walk cfg S i now w rest).2 S'
      (.done (.positions out))) :
    (∃ left, out = w.before ++ left ∧ List.Forall₂ (Reconciled cfg S') rest left) ∧
      ∀ aliceId, aliceId ∉ rest.filterMap walletId →
        costBasis cfg S' aliceId = costBasis cfg S aliceId := by
  induction rest generalizing S w now with
  | nil =>
    obtain ⟨rfl, hout⟩ := hrun.of_done
    cases hout
    exact ⟨⟨[], (List.append_nil _).symm, .nil⟩, fun _ _ ↦ rfl⟩
  | cons p rest ih =>
    have hrest : ∀ q ∈ rest, ∀ aliceId, walletId q = some aliceId →
        0 ≤ q.quantity ∧ aliceId ∉ w.inFlight :=
      fun q hq ↦ hok q (List.mem_cons_of_mem p hq)
    cases hid : walletId p with
    | none =>
      rw [List.filterMap_cons_none hid] at hdistinct ⊢
      rw [walk, hid] at hrun
      obtain ⟨⟨left, rfl, hleft⟩, hframe⟩ :=
        ih (S := S) (w := ⟨w.before ++ [p], w.inFlight, w.seen⟩) hdistinct hrest hrun
      refine ⟨⟨p :: left, List.append_assoc .., .cons ⟨fun _ ↦ rfl, ?_⟩ hleft⟩, hframe⟩
      intro aliceId h
      rw [hid] at h
      cases h
    | some aliceId =>
      rw [List.filterMap_cons_some hid] at hdistinct ⊢
      obtain ⟨hfresh, hdistinct⟩ := List.nodup_cons.mp hdistinct
      obtain ⟨hnonneg, hfree⟩ := hok p List.mem_cons_self aliceId hid
      rw [walk, hid] at hrun
      by_cases happart : driftsApart cfg S w aliceId p
      · -- the drift is recorded, and the loop goes on behind the commit
        simp only [if_pos happart] at hrun
        obtain ⟨now', hrun⟩ := Alone.of_reconciling hrun
        have hdrift : drift cfg S aliceId p ≠ 0 := by
          intro hzero
          rw [driftsApart, hzero, abs_zero] at happart
          exact absurd happart.2 (by norm_num)
        obtain ⟨⟨left, rfl, hleft⟩, hframe⟩ :=
          ih (S := behind cfg S i now (w.before ++ p :: rest) aliceId p)
            (w := ⟨w.before ++ [reprice cfg _ aliceId p], w.inFlight, w.seen⟩) hdistinct hrest hrun
        refine ⟨⟨_ :: left, List.append_assoc .., .cons ?_ hleft⟩, ?_⟩
        · refine (reconciled_behind hround hnonneg hdrift hid).congr fun aliceId' h ↦ ?_
          obtain rfl := Option.some.inj (hid.symm.trans h)
          exact hframe aliceId hfresh
        intro aliceId' hne
        rw [List.mem_cons, not_or] at hne
        rw [hframe aliceId' hne.2, costBasis_behind_of_ne hdrift hne.1]
      · have hnear : Near cfg S aliceId p.quantity :=
          (near_iff hround).mpr fun h ↦ happart ⟨hfree, h⟩
        simp only [if_neg happart] at hrun
        obtain ⟨⟨left, rfl, hleft⟩, hframe⟩ :=
          ih (S := S) (w := ⟨w.before ++ [reprice cfg S aliceId p], w.inFlight, w.seen⟩)
            hdistinct hrest hrun
        refine ⟨⟨_ :: left, List.append_assoc .., .cons ?_ hleft⟩, ?_⟩
        · refine (reconciled_reprice hnear hid).congr fun aliceId' h ↦ ?_
          obtain rfl := Option.some.inj (hid.symm.trans h)
          exact hframe aliceId hfresh
        intro aliceId' hne
        rw [List.mem_cons, not_or] at hne
        exact hframe aliceId' hne.2

theorem walk_ends (S : Shared) (now : Timestamp) (w : Walk) (rest : List Position) :
    ∃ S' out, Alone cfg i (walk cfg S i now w rest).1 (walk cfg S i now w rest).2 S'
      (.done (.positions out)) := by
  induction rest generalizing S w with
  | nil => exact ⟨S, w.before, .refl ..⟩
  | cons p rest ih =>
    rw [walk]
    cases walletId p with
    | none => exact ih ..
    | some aliceId =>
      by_cases happart : driftsApart cfg S w aliceId p
      · simp only [if_pos happart]
        obtain ⟨S', out, hrun⟩ := ih (behind cfg S i now (w.before ++ p :: rest) aliceId p)
          { w with
            before := w.before ++
              [reprice cfg (behind cfg S i now (w.before ++ p :: rest) aliceId p) aliceId p] }
        exact ⟨S', out, .step (rfl : resume cfg _ i _ (.git .persisted now) = _) hrun⟩
      · simp only [if_neg happart]
        exact ih ..

theorem walk_near (hround : cfg.round = id) (now : Timestamp) (w : Walk) {rest : List Position}
    (hnear : ∀ p ∈ rest, ∀ aliceId, walletId p = some aliceId → Near cfg S aliceId p.quantity) :
    ∃ out, walk cfg S i now w rest = (S, .done (.positions out)) := by
  induction rest generalizing w with
  | nil => exact ⟨w.before, rfl⟩
  | cons p rest ih =>
    have hrest := fun w ↦ ih w fun q hq ↦ hnear q (List.mem_cons_of_mem p hq)
    rw [walk]
    cases hid : walletId p with
    | none => exact hrest _
    | some aliceId =>
      have hnot : ¬ driftsApart cfg S w aliceId p :=
        fun h ↦ (near_iff hround).mp (hnear p List.mem_cons_self aliceId hid) h.2
      simp only [if_neg hnot]
      exact hrest _

/-! ## Convergence -/

theorem walletId_reprice (cfg : PassConfig) (S : Shared) (aliceId : String) (p : Position) :
    walletId (reprice cfg S aliceId p) = walletId p ∧
      (reprice cfg S aliceId p).quantity = p.quantity := by
  rw [reprice]
  split <;> exact ⟨rfl, rfl⟩

theorem near_of_reconciled {rest left : List Position}
    (h : List.Forall₂ (Reconciled cfg S) rest left) :
    (∀ p ∈ rest, ∀ aliceId, walletId p = some aliceId → Near cfg S aliceId p.quantity) ∧
      ∀ p ∈ left, ∀ aliceId, walletId p = some aliceId → Near cfg S aliceId p.quantity := by
  induction h with
  | nil => exact ⟨fun p hp ↦ absurd hp List.not_mem_nil, fun p hp ↦ absurd hp List.not_mem_nil⟩
  | @cons p p' rest left hp _ ih =>
    have hp' : ∀ aliceId, walletId p' = some aliceId → Near cfg S aliceId p'.quantity := by
      intro aliceId hid
      cases hold : walletId p with
      | none =>
        rw [hp.1 hold, hold] at hid
        cases hid
      | some aliceId' =>
        obtain ⟨hnear, rfl⟩ := hp.2 aliceId' hold
        obtain ⟨hsame, hquantity⟩ := walletId_reprice cfg S aliceId' p
        rw [hsame, hold] at hid
        obtain rfl := Option.some.inj hid
        rw [hquantity]
        exact hnear
    constructor
    · rintro q hq aliceId hid
      rcases List.mem_cons.mp hq with rfl | hq
      · exact (hp.2 aliceId hid).1
      · exact ih.1 q hq aliceId hid
    rintro q hq aliceId hid
    rcases List.mem_cons.mp hq with rfl | hq
    · exact hp' aliceId hid
    · exact ih.2 q hq aliceId hid

/-- A wallet position as a pass leaves it: near the log, and at the average that is recomputed from
it, unless the log has no fill of the instrument. -/
structure Converged (cfg : PassConfig) (S : Shared) (aliceId : String) (p p' : Position) : Prop where
  near : |p.quantity -
    ((recomputeCostBasisFromCommits cfg.round S.commits aliceId).getD {}).qty| ≤ 1 / 100000000
  average : ∀ basis, recomputeCostBasisFromCommits cfg.round S.commits aliceId = some basis →
    p'.avgCost = some basis.avgCost
  dust : recomputeCostBasisFromCommits cfg.round S.commits aliceId = none →
    p' = p ∧ p.quantity ≤ 1 / 100000000

theorem Reconciled.converged (h : Reconciled cfg S p p') (hid : walletId p = some aliceId) :
    Converged cfg S aliceId p p' := by
  obtain ⟨hnear, rfl⟩ := h.2 aliceId hid
  rw [Near, costBasis_eq] at hnear
  refine ⟨hnear, fun basis hbasis ↦ ?_, fun hnone ↦ ?_⟩
  · rw [reprice, costBasis_eq, hbasis]
  · rw [hnone, Option.getD_none, sub_zero] at hnear
    exact ⟨by rw [reprice, costBasis_eq, hnone], le_of_abs_le hnear⟩

def dustPosition : Position where
  contract := { aliceId := some "acc|BTC" }
  quantity := 1 / 1000000000
  avgCost := some 5
  marketPrice := 5
  avgCostSource := some .wallet

def exactAccount : PassConfig where
  generateCommitHash _ := "hash"
  toFixed _ := ""
  round := id
  listsOpenOrders := true
  stampAliceId _ := "acc|BTC"

theorem inFlightIds_new : inFlightIds { ledger := ⟨{}, []⟩ } = [] := by decide

end OpenAlice.Trading.Passes
