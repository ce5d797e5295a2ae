import OpenAlice.Trading.Account.Accounted
import OpenAlice.Trading.Account.FillsReachLedger

/-!
# An instrument is reconciled once

A reconciliation books the difference between a position the broker has shown and
the replay of the log.  After the first one of an instrument the two are equal as
long as the orders the position shows filled are those the log reports filled.
The orders the position shows and the log does not are pending, and the loop
leaves their instrument alone; that is the guard of `_reconcileWalletPositions`.
It looks in one direction only: a sync may record, between the moment the broker
computes the positions and the moment the loop compares them, a fill that they do
not show.  `currentStep` is the condition that this does not happen.
-/

namespace OpenAlice.Trading.Passes

open OpenAlice.Run OpenAlice.Trading.Git TradingGit

/-- No instrument has a second `reconcileBalance` commit after its first. -/
def ReconciledOnce (commits : List GitCommit) : Prop := (reconciledIds commits).Nodup

/-! ## The conditions on the steps -/

section Conditions

variable (cfg : PassConfig) (held : String → Decimal)

/-- The broker shows the holding of a wallet position as it is. -/
def lookedStep (W : PassWorld) : PassEvent → Prop
  | .call _ => True
  | .resume i a => ∀ positions, W.tasks[i]? = some .reading → a = .looked positions →
      ∀ p ∈ positions, p.avgCostSource = some .wallet →
        p.quantity = holding cfg W.shared.orders (cfg.stampAliceId p.contract) held ∧ 0 ≤ p.quantity

/-- What the loop over the positions is about to compare, on the instrument of a
position that it does not leave to the orders in flight. -/
def AheadOf (W : PassWorld) (i : Nat) (a : PassAnswer)
    (cond : Walk → Position → String → Prop) : Prop :=
  ∀ k, W.tasks[i]? = some k → ∀ w positions, k.ahead cfg W.shared a = some (w, positions) →
    ∀ p ∈ positions, ∀ aliceId, walletId p = some aliceId → aliceId ∉ w.inFlight → cond w p aliceId

/-- Every change of a holding comes from an order of the log: the fills a position
shows are those of orders that the log has when the loop compares it. -/
def loggedStep (W : PassWorld) : PassEvent → Prop
  | .call _ => True
  | .resume i a => AheadOf cfg W i a fun w _ aliceId ↦
      ∀ id ∈ w.seen, delta cfg W.shared.orders aliceId id ≠ 0 →
        ∃ op, orderOrigin W.shared.commits id = some op

/-- No fill was recorded between the moment the broker computed the positions and
the moment the loop compares them, but those that the position shows. -/
def currentStep (W : PassWorld) : PassEvent → Prop
  | .call _ => True
  | .resume i a => AheadOf cfg W i a fun w _ aliceId ↦
      ∀ id ∈ reportedIds W.shared.commits, delta cfg W.shared.orders aliceId id ≠ 0 → id ∈ w.seen

/-- `decimal.js` does not round the quantity of a position or its difference from
the log. -/
def exactStep (W : PassWorld) : PassEvent → Prop
  | .call _ => True
  | .resume i a => AheadOf cfg W i a fun _ p aliceId ↦
      cfg.round p.quantity = p.quantity ∧
        drift cfg W.shared aliceId p = p.quantity - ((costBasis cfg W.shared aliceId).getD {}).qty

/-- A sync reports fills of orders that the log introduced, and for an instrument
that was reconciled it never reports more sold than the log holds. -/
def coveredStep (W : PassWorld) : PassEvent → Prop
  | .call _ => True
  | .resume i a => ∀ updates s hashedAt now, W.tasks[i]? = some (.stating updates) →
      a = .state s hashedAt now →
      (∀ u ∈ updates, u.currentStatus = .filled →
        ∃ op, orderOrigin W.shared.commits u.orderId = some op) ∧
      ∀ aliceId ∈ reconciledIds W.shared.commits, ∀ us, us <+: updates →
        Fits cfg held W.shared.orders aliceId (reportedBy W.shared.commits us)

/-- What the claim assumes of the broker: it is honest, the orders are those asked
for, the positions are the holdings, and only orders of the log change these. -/
def trackedStep (W : PassWorld) (e : PassEvent) : Prop :=
  recordableStep W e ∧ matchingStep cfg W e ∧ lookedStep cfg held W e ∧ loggedStep cfg W e

def steadyStep (W : PassWorld) (e : PassEvent) : Prop :=
  trackedStep cfg held W e ∧ currentStep cfg W e ∧ exactStep cfg W e ∧ coveredStep cfg held W e

end Conditions

/-! ## What a loop knows -/

variable {cfg : PassConfig} {held : String → Decimal} {W W' : PassWorld} {S' : Shared}

/-- The quantity of a position is what the broker held when the orders `seen` had
filled. -/
structure Snapshot (cfg : PassConfig) (held : String → Decimal) (orders : List BrokerOrder)
    (seen : List String) (aliceId : String) (p : Position) : Prop where
  quantity : p.quantity = held aliceId + changes cfg orders aliceId seen
  nonneg : 0 ≤ p.quantity

def SeenEnded (orders : List BrokerOrder) (seen : List String) : Prop :=
  ∀ id ∈ seen, ∃ o ∈ orders, o.id = id ∧ o.fate ≠ .working

/-- What a loop has ahead of it: snapshots, and the log reports the fills they
show. -/
def Ahead (cfg : PassConfig) (held : String → Decimal) (S : Shared) (w : Walk)
    (positions : List Position) : Prop :=
  ∀ p ∈ positions, ∀ aliceId, walletId p = some aliceId → aliceId ∉ w.inFlight →
    Snapshot cfg held S.orders w.seen aliceId p ∧
      ∀ id ∈ w.seen, delta cfg S.orders aliceId id ≠ 0 → id ∈ reportedIds S.commits

/-- What the reads under way know. -/
structure Looking (cfg : PassConfig) (held : String → Decimal) (W : PassWorld) : Prop where
  arriving : ∀ (i : Nat) positions seen, W.tasks[i]? = some (.arriving positions seen) →
    SeenEnded W.shared.orders seen ∧ ∀ p ∈ stamped cfg positions, ∀ aliceId,
      walletId p = some aliceId → Snapshot cfg held W.shared.orders seen aliceId p
  reconciling : ∀ (i : Nat) t w p aliceId rest,
    W.tasks[i]? = some (.reconciling t w p aliceId rest) →
    SeenEnded W.shared.orders w.seen ∧ Ahead cfg held W.shared w rest

theorem booked_initial : Booked cfg held PassWorld.initial.shared := by
  constructor
  · simp [PassWorld.initial]
  · simp [PassWorld.initial, Shared.commits]
  · intro aliceId
    refine ⟨?_, ?_, ?_⟩ <;>
      simp [PassWorld.initial, Shared.commits, costReplay, reportedIds, reconciledIds]
  · exact List.nodup_nil

theorem looking_initial : Looking cfg held PassWorld.initial := by
  constructor <;> simp [PassWorld.initial]

/-! ## Events of the broker -/

variable {e : BrokerEvent}

theorem delta_seen (hunique : ∀ o ∈ W.shared.orders, ∀ o' ∈ W.shared.orders,
      o.id = o'.id → o = o') (hok : honestStep W (.call (.broker e))) {seen : List String}
    (hseen : SeenEnded W.shared.orders seen) {aliceId id : String} (hid : id ∈ seen) :
    delta cfg (e.apply W.shared.orders) aliceId id = delta cfg W.shared.orders aliceId id := by
  obtain ⟨o, ho, rfl, hended⟩ := hseen id hid
  refine delta_apply ?_ ?_
  · intro o' ho' he
    rw [hunique o' ho' o ho he]
    exact hended
  · rintro contract side rfl
    exact hok.2.1 o ho rfl

theorem delta_reported (haudited : Audited W)
    (hok : honestStep W (.call (.broker e))) {aliceId id : String}
    (hid : id ∈ reportedIds W.shared.commits) :
    delta cfg (e.apply W.shared.orders) aliceId id = delta cfg W.shared.orders aliceId id := by
  obtain ⟨c, hc, r, hr, hs, hrid⟩ := mem_reportedIds.mp hid
  refine delta_apply ?_ ?_
  · intro o ho hoid hw
    have hsound := (haudited.logged c hc r hr).sound o ho (hrid.trans (congrArg some hoid.symm))
    rw [Sound, hs] at hsound
    obtain ⟨_, _, hfate, _⟩ := hsound
    rw [hw] at hfate
    cases hfate
  · rintro contract side rfl
    exact hok.2.2 ((haudited.logged c hc r hr).known id (mem_resultIds hrid))

theorem unique_apply (hunique : ∀ o ∈ W.shared.orders, ∀ o' ∈ W.shared.orders,
      o.id = o'.id → o = o') (hok : honestStep W (.call (.broker e))) :
    ∀ o ∈ e.apply W.shared.orders, ∀ o' ∈ e.apply W.shared.orders, o.id = o'.id → o = o' := by
  have hsettle : ∀ (id : String) (fate : Fate),
      ∀ o ∈ W.shared.orders.map (BrokerOrder.settle id fate),
        ∀ o' ∈ W.shared.orders.map (BrokerOrder.settle id fate), o.id = o'.id → o = o' := by
    intro id fate o ho o' ho' he
    obtain ⟨o₁, ho₁, rfl⟩ := List.mem_map.mp ho
    obtain ⟨o₂, ho₂, rfl⟩ := List.mem_map.mp ho'
    rw [hunique o₁ ho₁ o₂ ho₂]
    have h₁ := (becomes_settle id fate o₁).1
    have h₂ := (becomes_settle id fate o₂).1
    rw [h₁, h₂] at he
    exact he
  cases e with
  | accepts id contract side =>
    obtain ⟨_, hfresh, _⟩ := hok
    intro o ho o' ho' he
    rcases List.mem_append.mp ho with ho | ho <;> rcases List.mem_append.mp ho' with ho' | ho'
    · exact hunique o ho o' ho' he
    · rw [List.mem_singleton] at ho'
      subst ho'
      exact absurd he (hfresh o ho)
    · rw [List.mem_singleton] at ho
      subst ho
      exact absurd he.symm (hfresh o' ho')
    · rw [List.mem_singleton] at ho ho'
      rw [ho, ho']
  | fills id qty price => exact hsettle id _
  | closes id => exact hsettle id _

theorem Booked.broker (h : Booked cfg held W.shared) (haudited : Audited W)
    (hok : honestStep W (.call (.broker e))) (ho : S'.orders = e.apply W.shared.orders)
    (hr : S'.replies = W.shared.replies) (hlog : S'.commits = W.shared.commits) :
    Booked cfg held S' := by
  have he : Evolves W.shared S' := evolves_apply hok hr ho
  constructor
  · rw [ho]
    exact unique_apply h.unique hok
  · rw [hlog]
    exact h.origins
  · intro aliceId
    rw [hlog]
    obtain ⟨hcounted, hcomplete, hbooked⟩ := h.accounted aliceId
    refine ⟨hcounted, ?_, ?_⟩
    · intro id hid o' ho' hoid hs
      rcases he.orders o' ho' with ⟨o, hmem, hsame, _⟩ | hnew
      · rw [hsame] at hoid hs
        exact hcomplete id hid o hmem hoid hs
      obtain ⟨c, hc, r, hr, _, hrid⟩ := mem_reportedIds.mp hid
      rw [hoid] at hnew
      exact absurd ((haudited.logged c hc r hr).known id (mem_resultIds hrid)) hnew
    · intro hrec
      rw [hbooked hrec, changes, changes, ho]
      congr 1
      refine Finset.sum_congr rfl fun id hid ↦ ?_
      exact (delta_reported haudited hok (List.mem_toFinset.mp hid)).symm
  · rw [hlog]
    exact h.once

/-! ## What a step keeps of the reads under way -/

/-- A step keeps what is known about the orders that have ended, and about what the
log reports. -/
structure KeepsSeen (cfg : PassConfig) (S S' : Shared) : Prop where
  ended : ∀ seen, SeenEnded S.orders seen → SeenEnded S'.orders seen
  delta : ∀ seen, SeenEnded S.orders seen → ∀ aliceId, ∀ id ∈ seen,
    delta cfg S'.orders aliceId id = delta cfg S.orders aliceId id
  reported : ∀ id ∈ reportedIds S.commits, id ∈ reportedIds S'.commits

theorem keepsSeen_broker (hunique : ∀ o ∈ W.shared.orders,
      ∀ o' ∈ W.shared.orders, o.id = o'.id → o = o') (hok : honestStep W (.call (.broker e)))
    (ho : S'.orders = e.apply W.shared.orders) (hr : S'.replies = W.shared.replies)
    (hlog : S'.commits = W.shared.commits) : KeepsSeen cfg W.shared S' := by
  have he : Evolves W.shared S' := evolves_apply hok hr ho
  constructor
  · intro seen hseen id hid
    obtain ⟨o, hmem, rfl, hended⟩ := hseen id hid
    obtain ⟨o', hmem', hsame, hfate⟩ := he.kept o hmem
    refine ⟨o', hmem', by rw [hsame], ?_⟩
    rw [hfate.resolve_right hended]
    exact hended
  · intro seen hseen aliceId id hid
    rw [ho]
    exact delta_seen hunique hok hseen hid
  · rw [hlog]
    exact fun _ hid ↦ hid

theorem keepsSeen_of_orders {S : Shared} (ho : S'.orders = S.orders)
    (hlog : S'.commits = S.commits ∨ ∃ c, S'.commits = S.commits ++ [c]) :
    KeepsSeen cfg S S' := by
  constructor
  · rw [ho]
    exact fun _ h ↦ h
  · rw [ho]
    exact fun _ _ _ _ _ ↦ rfl
  · rcases hlog with hlog | ⟨c, hlog⟩
    · rw [hlog]
      exact fun _ hid ↦ hid
    · rw [hlog, reportedIds_append]
      exact fun _ hid ↦ List.mem_append_left _ hid

theorem KeepsSeen.snapshot {S : Shared} (h : KeepsSeen cfg S S') {seen : List String}
    (hseen : SeenEnded S.orders seen) {aliceId : String} {p : Position}
    (hp : Snapshot cfg held S.orders seen aliceId p) :
    Snapshot cfg held S'.orders seen aliceId p := by
  refine ⟨?_, hp.nonneg⟩
  rw [hp.quantity, changes, changes]
  congr 1
  refine Finset.sum_congr rfl fun id hid ↦ ?_
  exact (h.delta seen hseen aliceId id (List.mem_toFinset.mp hid)).symm

variable {positions : List Position}

theorem KeepsSeen.ahead {S : Shared} (h : KeepsSeen cfg S S') {w : Walk}
    (hseen : SeenEnded S.orders w.seen)
    (hp : Ahead cfg held S w positions) : Ahead cfg held S' w positions := by
  intro p hmem aliceId hid hout
  obtain ⟨hsnapshot, hreported⟩ := hp p hmem aliceId hid hout
  refine ⟨h.snapshot hseen hsnapshot, ?_⟩
  intro id hin hne
  rw [h.delta w.seen hseen aliceId id hin] at hne
  exact h.reported id (hreported id hin hne)

theorem Looking.keep (h : Looking cfg held W) (hkeep : KeepsSeen cfg W.shared S')
    {tasks : List PassTask}
    (htasks : ∀ (i : Nat) k, tasks[i]? = some k → W.tasks[i]? = some k ∨ k.reads = false) :
    Looking cfg held ⟨S', tasks⟩ := by
  constructor
  · intro i positions seen hi
    rcases htasks i _ hi with hi | hi
    · obtain ⟨hseen, hp⟩ := h.arriving i positions seen hi
      exact ⟨hkeep.ended seen hseen, fun p hmem aliceId hid ↦
        hkeep.snapshot hseen (hp p hmem aliceId hid)⟩
    · cases hi
  · intro i t w p aliceId rest hi
    rcases htasks i _ hi with hi | hi
    · obtain ⟨hseen, hp⟩ := h.reconciling i t w p aliceId rest hi
      exact ⟨hkeep.ended w.seen hseen, hkeep.ahead hseen hp⟩
    · cases hi

/-! ## The loop over the positions -/

/-- An order of the instrument that a position shows filled, and that the log has,
is reported filled: otherwise it is pending, and the loop leaves its instrument
alone. -/
theorem reported_of_seen (haudited : Audited W) (hfiled : Filed cfg W) {aliceId id : String}
    (hne : aliceId ≠ "") (hout : aliceId ∉ inFlightIds W.shared)
    (hdelta : delta cfg W.shared.orders aliceId id ≠ 0) {op : Operation}
    (hop : orderOrigin W.shared.commits id = some op) : id ∈ reportedIds W.shared.commits := by
  obtain ⟨o, ho, rfl, hs, qty, price, hfate⟩ := order_of_delta hdelta
  have hin : InLog W.shared.commits o.id := inLog_of_origin hop
  by_cases hsubmitted : orderStatus W.shared.commits o.id = some .submitted
  · obtain ⟨p, hp, hpid⟩ := pending_of_submitted hin hsubmitted
    have hlabel := hfiled.first p.orderId p (find?_of_pending hp) o ho hpid.symm
      (hpid ▸ (hfiled.origin hop).1)
    refine absurd (List.mem_filterMap.mpr ⟨p, hp, ?_⟩) hout
    rw [hlabel, hs]
    simp [truthy, hne]
  · obtain ⟨c, hc, r, hr, _, hrid, hstatus, _⟩ := haudited.filled_row ho hfate hin hsubmitted
    exact mem_reportedIds.mpr ⟨c, hc, r, hr, hstatus, hrid⟩

theorem Looking.ahead (h : Looking cfg held W) (haudited : Audited W) (hfiled : Filed cfg W)
    {i : Nat} {a : PassAnswer} {k : PassTask} (hi : W.tasks[i]? = some k)
    (hlogged : loggedStep cfg W (.resume i a)) {w : Walk}
    (hk : k.ahead cfg W.shared a = some (w, positions)) :
    SeenEnded W.shared.orders w.seen ∧ Ahead cfg held W.shared w positions := by
  have hlogs := hlogged k hi w positions hk
  unfold PassTask.ahead at hk
  split at hk
  · rename_i positions₀ seen now
    cases hk
    obtain ⟨hseen, hp⟩ := h.arriving i positions₀ seen hi
    refine ⟨hseen, ?_⟩
    intro p hmem aliceId hid hout
    refine ⟨hp p hmem aliceId hid, ?_⟩
    intro id hin hne
    obtain ⟨op, hop⟩ := hlogs p hmem aliceId hid hout id hin hne
    have halice : aliceId ≠ "" := by
      unfold walletId at hid
      split at hid
      · exact (truthy_eq_some.mp hid).2
      · cases hid
    exact reported_of_seen haudited hfiled halice hout hne hop
  · cases hk
    exact h.reconciling i _ _ _ _ _ hi
  · cases hk

theorem costBasis_qty (S : Shared) (aliceId : String) :
    ((costBasis cfg S aliceId).getD {}).qty =
    (costReplay cfg.round S.commits aliceId).basis.qty := by
  rw [costBasis, recomputeCostBasisFromCommits_getD, exportState, costReplay_project]

/-- **A drift that is booked** is the first of its instrument, and brings the replay
to the holding. -/
theorem Booked.records (h : Booked cfg held W.shared) {w : Walk} {p : Position} {aliceId : String}
    (hknown : Snapshot cfg held W.shared.orders w.seen aliceId p ∧
      ∀ id ∈ w.seen, delta cfg W.shared.orders aliceId id ≠ 0 → id ∈ reportedIds W.shared.commits)
    (hcurrent : ∀ id ∈ reportedIds W.shared.commits, delta cfg W.shared.orders aliceId id ≠ 0 →
      id ∈ w.seen)
    (hexact : cfg.round p.quantity = p.quantity ∧
      drift cfg W.shared aliceId p = p.quantity - ((costBasis cfg W.shared aliceId).getD {}).qty)
    (hdrift : driftsApart cfg W.shared w aliceId p) :
    drift cfg W.shared aliceId p ≠ 0 ∧ aliceId ∉ reconciledIds W.shared.commits ∧
      Fits cfg held W.shared.orders aliceId (reportedIds W.shared.commits) ∧
        (costReplay cfg.round W.shared.commits aliceId).basis.qty + drift cfg W.shared aliceId p =
          held aliceId + changes cfg W.shared.orders aliceId (reportedIds W.shared.commits) := by
  obtain ⟨⟨hquantity, hnonneg⟩, hreported⟩ := hknown
  have hne : drift cfg W.shared aliceId p ≠ 0 := by
    intro h0
    have hbig := hdrift.2
    rw [h0, abs_zero] at hbig
    exact absurd hbig (by decide +kernel)
  have htotal : p.quantity =
      held aliceId + changes cfg W.shared.orders aliceId (reportedIds W.shared.commits) := by
    rw [hquantity, changes_congr fun id hd ↦ ⟨fun hid ↦ hreported id hid hd,
      fun hid ↦ hcurrent id hid hd⟩]
  rw [costBasis_qty] at hexact
  refine ⟨hne, ?_, ⟨htotal ▸ hnonneg, htotal ▸ hexact.1⟩, ?_⟩
  · intro hrec
    rw [hexact.2, htotal, (h.accounted aliceId).booked hrec, sub_self] at hne
    exact hne rfl
  · rw [hexact.2, ← htotal]
    exact add_sub_cancel _ _

/-! ## Every step -/

/-- Everything the account keeps track of. -/
structure Steady (cfg : PassConfig) (held : String → Decimal) (W : PassWorld) : Prop where
  audited : Audited W
  recorded : Recorded W
  filed : Filed cfg W
  booked : Booked cfg held W.shared
  looking : Looking cfg held W

theorem steady_initial : Steady cfg held PassWorld.initial :=
  ⟨audited_initial, recorded_initial, filed_initial, booked_initial, looking_initial⟩

theorem Booked.same (h : Booked cfg held W.shared) (ho : S'.orders = W.shared.orders)
    (hlog : S'.commits = W.shared.commits) : Booked cfg held S' := by
  constructor
  · rw [ho]
    exact h.unique
  · rw [hlog]
    exact h.origins
  · rw [ho, hlog]
    exact h.accounted
  · rw [hlog]
    exact h.once

theorem Steady.opening (h : Steady cfg held W) {c : PassCall} {k' : PassTask}
    (hhonest : honestStep W (.call c)) (hs : Opening W.shared c S' k') (hk' : k'.reads = false) :
    Booked cfg held S' ∧ Looking cfg held ⟨S', W.tasks ++ [k']⟩ := by
  have htasks : ∀ (i : Nat) k, (W.tasks ++ [k'])[i]? = some k →
      W.tasks[i]? = some k ∨ k.reads = false := by
    intro i k hi
    rcases World.task_append hi with hi | ⟨_, rfl⟩
    · exact .inl hi
    · exact .inr hk'
  cases c with
  | broker e =>
    exact ⟨h.booked.broker h.audited hhonest hs.orders hs.replies hs.log, h.looking.keep
      (keepsSeen_broker h.booked.unique hhonest hs.orders hs.replies hs.log) htasks⟩
  | _ =>
    exact ⟨h.booked.same hs.orders hs.log,
      h.looking.keep (keepsSeen_of_orders hs.orders (.inl hs.log)) htasks⟩

variable {i : Nat} {a : PassAnswer} {k k' : PassTask}

theorem Steady.appended (h : Steady cfg held W) (hok : coveredStep cfg held W (.resume i a))
    (hfiled' : Filed cfg W') (hi : W.tasks[i]? = some k) (hk : k.reads = false)
    (hr : resume cfg W.shared i k a = some (W'.shared, k')) : Booked cfg held W'.shared := by
  have hs := stretch_spec hr
  rcases hs.log with hlog | ⟨c, hc, hlog⟩
  · exact h.booked.same hs.orders hlog
  have hgood := good_appended h.audited hi hc
  generalize hops : c.operations = ops at hc
  generalize hres : c.results = res at hc
  cases hc with
  | @written p hk =>
    subst hk
    have hquiet : Git.Quiet p.results := h.audited.quiet i _ hi
    exact h.booked.append_quiet h.filed hfiled' hs.orders hlog (hres ▸ hquiet) hgood
  | @synced updates hk =>
    subst hk
    rcases resume_stating hr with ⟨s, hashedAt, now, rfl⟩ | hS
    · obtain ⟨horigins, hcover⟩ := hok updates s hashedAt now hi rfl
      exact h.booked.append_sync h.audited h.filed hfiled' hs.orders hlog hops hres hgood
        horigins hcover
    · rw [hS] at hlog
      exact absurd hlog (by simp)
  | reconciled p hreads =>
    rw [hk] at hreads
    cases hreads

/-- A stretch of the loop over the positions keeps the log accounted for, and the
reads under way. -/
theorem Steady.walked (h : Steady cfg held W) (hok : steadyStep cfg held W (.resume i a))
    (hfiled' : Filed cfg ⟨S', W.tasks.set i k'⟩) (hi : W.tasks[i]? = some k) {w : Walk}
    (hk : k.ahead cfg W.shared a = some (w, positions))
    (hw : Walked cfg W.shared w positions S' k') :
    Booked cfg held S' ∧ Looking cfg held ⟨S', W.tasks.set i k'⟩ := by
  obtain ⟨⟨_, _, _, hlogged⟩, hcurrent, hexact, _⟩ := hok
  obtain ⟨hseen, hahead⟩ := h.looking.ahead h.audited h.filed hi hlogged hk
  cases hw with
  | ended o =>
    refine ⟨h.booked, h.looking.keep (keepsSeen_of_orders rfl (.inl rfl)) ?_⟩
    intro j k₁ hj
    rcases World.task_set hj with ⟨_, rfl⟩ | ⟨_, hj⟩
    · exact .inr rfl
    · exact .inl hj
  | @records before p aliceId rest params L t hsuffix hid hdrift haliceId hdelta hlog hflag =>
    obtain ⟨c, hops, hres, hlog⟩ := hlog
    have hmem : p ∈ positions := hsuffix.subset List.mem_cons_self
    obtain ⟨hne, hfirst, hfits, htotal⟩ :=
      h.booked.records (hahead p hmem aliceId hid hdrift.1)
        (hcurrent k hi w positions hk p hmem aliceId hid hdrift.1)
        (hexact k hi w positions hk p hmem aliceId hid hdrift.1) hdrift
    subst haliceId
    rw [← hdelta] at hne htotal
    have hkeep : KeepsSeen cfg W.shared { W.shared with ledger := L } :=
      keepsSeen_of_orders rfl (.inr ⟨c, hlog⟩)
    constructor
    · exact h.booked.append_reconcile h.filed hfiled' rfl hlog hops hres hne hfirst hfits htotal
    have hrest : Ahead cfg held { W.shared with ledger := L } w rest :=
      hkeep.ahead hseen fun q hq ↦ hahead q (hsuffix.subset (List.mem_cons_of_mem _ hq))
    constructor
    · intro j positions' seen hj
      rcases World.task_set hj with ⟨_, he⟩ | ⟨_, hj⟩
      · cases he
      obtain ⟨hseen', hp⟩ := h.looking.arriving j positions' seen hj
      exact ⟨hkeep.ended seen hseen', fun q hq aliceId hid ↦
        hkeep.snapshot hseen' (hp q hq aliceId hid)⟩
    · intro j t' w' p' aliceId' rest' hj
      rcases World.task_set hj with ⟨_, he⟩ | ⟨_, hj⟩
      · cases he
        exact ⟨hseen, hrest⟩
      · obtain ⟨hseen', hp⟩ := h.looking.reconciling j t' w' p' aliceId' rest' hj
        exact ⟨hkeep.ended w'.seen hseen', hkeep.ahead hseen' hp⟩

theorem Steady.looked (h : Steady cfg held W)
    (hok : lookedStep cfg held W (.resume i (.looked positions)))
    (hi : W.tasks[i]? = some .reading) :
    Looking cfg held ⟨W.shared, W.tasks.set i (.arriving positions (filledIds W.shared.orders))⟩ := by
  constructor
  · intro j positions' seen hj
    rcases World.task_set hj with ⟨_, he⟩ | ⟨_, hj⟩
    · cases he
      constructor
      · intro id hid
        obtain ⟨o, ho, rfl⟩ := List.mem_map.mp hid
        obtain ⟨ho, hfilled⟩ := List.mem_filter.mp ho
        refine ⟨o, ho, rfl, ?_⟩
        intro hw
        rw [hw] at hfilled
        cases hfilled
      · intro p hp aliceId hid
        obtain ⟨p₀, hp₀, rfl⟩ := List.mem_map.mp hp
        simp only [walletId] at hid
        split at hid
        · rename_i hwallet
          obtain ⟨he, _⟩ := truthy_eq_some.mp hid
          cases he
          obtain ⟨hquantity, hnonneg⟩ := hok positions hi rfl p₀ hp₀ hwallet
          exact ⟨hquantity, hnonneg⟩
        · cases hid
    · exact h.looking.arriving j positions' seen hj
  · intro j t w p aliceId rest hj
    rcases World.task_set hj with ⟨_, he⟩ | ⟨_, hj⟩
    · cases he
    · exact h.looking.reconciling j t w p aliceId rest hj

theorem Steady.stretch (h : Steady cfg held W) (hok : steadyStep cfg held W (.resume i a))
    (hfiled' : Filed cfg ⟨S', W.tasks.set i k'⟩) (hi : W.tasks[i]? = some k)
    (hr : resume cfg W.shared i k a = some (S', k')) :
    Booked cfg held S' ∧ Looking cfg held ⟨S', W.tasks.set i k'⟩ := by
  have hs := stretch_spec hr
  have htasks : k'.reads = false → ∀ (j : Nat) k₁, (W.tasks.set i k')[j]? = some k₁ →
      W.tasks[j]? = some k₁ ∨ k₁.reads = false := by
    intro hk' j k₁ hj
    rcases World.task_set hj with ⟨_, rfl⟩ | ⟨_, hj⟩
    · exact .inr hk'
    · exact .inl hj
  cases reads_spec hr with
  | apart hk hk' =>
    have hlog : S'.commits = W.shared.commits ∨ ∃ c, S'.commits = W.shared.commits ++ [c] :=
      hs.log.imp_right fun ⟨c, _, hlog⟩ ↦ ⟨c, hlog⟩
    have hbooked := h.appended hok.2.2.2 hfiled' hi hk hr
    exact ⟨hbooked, h.looking.keep (keepsSeen_of_orders hs.orders hlog) (htasks hk')⟩
  | broken hS hk' =>
    subst hS
    exact ⟨h.booked, h.looking.keep (keepsSeen_of_orders rfl (.inl rfl)) (htasks hk')⟩
  | looked hk ha hS hk' =>
    subst hk ha hS hk'
    exact ⟨h.booked, h.looked hok.1.2.2.1 hi⟩
  | walked hk hw => exact h.walked hok hfiled' hi hk hw

theorem step_steady {e : PassEvent} (h : Steady cfg held W)
    (hx : Exclusive Shared.inflight PassTask.writing W) (hok : steadyStep cfg held W e)
    (hst : (passProg cfg).step W e = some W') : Steady cfg held W' := by
  obtain ⟨⟨⟨hhonest, htruthful, hkept⟩, hmatch, _, _⟩, _⟩ := id hok
  have haudited' := step_audited h.audited hhonest htruthful hst
  have hrecorded' := step_recorded h.recorded hkept hst
  have hfiled' := step_filed h.filed h.audited h.recorded hx hhonest hmatch hst
  suffices hnew : Booked cfg held W'.shared ∧ Looking cfg held W' from
    ⟨haudited', hrecorded', hfiled', hnew.1, hnew.2⟩
  cases e with
  | call c =>
    cases Prog.step_call hst
    exact h.opening hhonest (opening_spec cfg W.shared W.tasks.length c)
      (start_reads cfg W.shared W.tasks.length c)
  | resume i a =>
    obtain ⟨k, S', k', hi, hr, rfl⟩ := Prog.step_resume hst
    exact h.stretch hok hfiled' hi hr

def tenShares (_ : String) : Decimal := 10

def samplePosition (qty : Decimal) : Position where
  contract := sampleContract
  quantity := qty
  marketPrice := 100
  avgCostSource := some .wallet

def shows (qty : Decimal) : PassAnswer := .looked [samplePosition qty]

/-- While an order to buy two more is being pushed the position is reconciled for
the first time; then the broker takes the order. -/
def bootstrapped : List PassEvent :=
  pushed ++ [.call .getPositions, .resume 3 (shows 10), .resume 3 (.arrived 1),
    .resume 3 (.git .persisted 1), accepted, replyOf "Submitted"] ++ recorded

def nothingAhead (cfg : PassConfig) (W : PassWorld) (i : Nat) (a : PassAnswer) : Bool :=
  (W.tasks[i]?.bind fun k ↦ k.ahead cfg W.shared a).all fun q ↦ q.2.isEmpty

theorem aheadOf_nothing (h : nothingAhead cfg W i a = true)
    {cond : Walk → Position → String → Prop} :
    AheadOf cfg W i a cond := by
  intro k hk w positions hpositions p hp
  rw [nothingAhead, hk, Option.bind_some, hpositions, Option.all_some, List.isEmpty_iff] at h
  rw [show positions = [] from h] at hp
  cases hp

theorem nothingAhead_other (harrived : ∀ now, a ≠ .arrived now)
    (hpersisted : ∀ now, a ≠ .git .persisted now) : nothingAhead cfg W i a = true := by
  have hnone : ∀ k : PassTask, k.ahead cfg W.shared a = none := by
    intro k
    unfold PassTask.ahead
    split
    · exact absurd rfl (harrived _)
    · exact absurd rfl (hpersisted _)
    · rfl
  rw [nothingAhead]
  cases W.tasks[i]? with
  | none => rfl
  | some k => rw [Option.bind_some, hnone k, Option.all_none]

theorem trackedStep_silent (hrecordable : recordableStep W (.resume i a))
    (hreply : ∀ raw now, a ≠ .git (.reply raw) now) (hlooked : ∀ positions, a ≠ .looked positions)
    (hahead : nothingAhead cfg W i a = true) : trackedStep cfg held W (.resume i a) := by
  refine ⟨hrecordable, ?_, ?_, aheadOf_nothing hahead⟩
  · intro k _ op r hnew
    rw [newReplies_silent hreply] at hnew
    cases hnew
  · rintro positions _ rfl
    exact absurd rfl (hlooked positions)

/-- Only a sync with its updates and the loop can break the rest. -/
theorem steadyStep_silent (htracked : trackedStep cfg held W (.resume i a))
    (hstate : ∀ s hashedAt now, a ≠ .state s hashedAt now)
    (hahead : nothingAhead cfg W i a = true) : steadyStep cfg held W (.resume i a) := by
  refine ⟨htracked, aheadOf_nothing hahead, aheadOf_nothing hahead, ?_⟩
  rintro updates s hashedAt now _ rfl
  exact absurd rfl (hstate s hashedAt now)

theorem steadyStep_call {c : PassCall} (hrecordable : recordableStep W (.call c)) :
    steadyStep cfg held W (.call c) :=
  ⟨⟨hrecordable, trivial, trivial, trivial⟩, trivial, trivial, trivial⟩

theorem trackedStep_looked (hp : ∀ p ∈ positions, p.quantity =
      holding cfg W.shared.orders (cfg.stampAliceId p.contract) held ∧ 0 ≤ p.quantity) :
    trackedStep cfg held W (.resume i (.looked positions)) := by
  refine ⟨recordableStep_silent (by simp) (by simp) (by simp), ?_, ?_,
    aheadOf_nothing (nothingAhead_other (by simp) (by simp))⟩
  · intro k _ op r hnew
    rw [newReplies_silent (by simp)] at hnew
    cases hnew
  · rintro positions' - ⟨⟩ p hmem -
    exact hp p hmem

theorem trackedStep_arrived (positions : List Position) (seen : List String) {now : Timestamp}
    (hi : W.tasks[i]? = some (.arriving positions seen))
    (hlogged : ∀ id ∈ seen, (orderOrigin W.shared.commits id).isSome = true) :
    trackedStep cfg held W (.resume i (.arrived now)) := by
  refine ⟨recordableStep_silent (by simp) (by simp) (by simp), ?_, ?_, ?_⟩
  · intro k _ op r hnew
    rw [newReplies_silent (by simp)] at hnew
    cases hnew
  · rintro positions' - ⟨⟩
  · intro k hk w positions' hahead p _ aliceId _ _ id hid _
    cases hi.symm.trans hk
    cases hahead
    exact Option.isSome_iff_exists.mp (hlogged id hid)

theorem steadyStep_arrived (positions : List Position) (seen : List String) {now : Timestamp}
    (hi : W.tasks[i]? = some (.arriving positions seen))
    (hlogged : ∀ id ∈ seen, (orderOrigin W.shared.commits id).isSome = true)
    (hcurrent : ∀ id ∈ reportedIds W.shared.commits, id ∈ seen) (hround : cfg.round = id) :
    steadyStep cfg held W (.resume i (.arrived now)) := by
  refine ⟨trackedStep_arrived positions seen hi hlogged, ?_, ?_, ?_⟩
  · intro k hk w positions' hahead p _ aliceId _ _ id hid _
    cases hi.symm.trans hk
    cases hahead
    exact hcurrent id hid
  · intro k _ w positions' _ p _ aliceId _ _
    rw [drift, hround]
    exact ⟨rfl, rfl⟩
  · rintro updates s hashedAt now - ⟨⟩

theorem matching_reply (message : String) (hash : CommitHash) (fate : Fate)
    (hi : W.tasks[2]? = some (.git (.executing [buyOperation] message hash [])))
    (ho : W.shared.orders = [sampleOrder fate]) :
    matchingStep sampleAccount W (replyOf "Submitted") := by
  intro k hk op r hmem _ o hmemo _
  cases hi.symm.trans hk
  cases List.mem_singleton.mp hmem
  rw [ho, List.mem_singleton] at hmemo
  subst hmemo
  exact ⟨⟨sampleContract, rfl, rfl⟩, rfl⟩

theorem steadyStep_reply (message : String) (hash : CommitHash) (fate : Fate)
    (hi : W.tasks[2]? = some (.git (.executing [buyOperation] message hash [])))
    (ho : W.shared.orders = [sampleOrder fate]) (hr : W.shared.replies = []) :
    steadyStep sampleAccount held W (replyOf "Submitted") := by
  have hahead : nothingAhead sampleAccount W 2
      (.git (.reply (.object true none (some "1") (some { status := "Submitted" }) [])) 2) = true :=
    nothingAhead_other (by simp) (by simp)
  refine ⟨⟨recordable_reply message hash fate hi ho hr, matching_reply message hash fate hi ho, ?_,
    aheadOf_nothing hahead⟩, aheadOf_nothing hahead, aheadOf_nothing hahead, ?_⟩
  · rintro positions - ⟨⟩
  · rintro updates s hashedAt now - ⟨⟩

theorem steadyStep_stating {u : OrderStatusUpdate} {s : GitState} {hashedAt now : Timestamp}
    (hi : W.tasks[i]? = some (.stating [u]))
    (ho : (orderOrigin W.shared.commits u.orderId).isSome = true)
    (hfits : ∀ aliceId ∈ reconciledIds W.shared.commits,
      Fits cfg held W.shared.orders aliceId (reportedBy W.shared.commits []) ∧
        Fits cfg held W.shared.orders aliceId (reportedBy W.shared.commits [u])) :
    steadyStep cfg held W (.resume i (.state s hashedAt now)) := by
  have hahead : nothingAhead cfg W i (.state s hashedAt now) = true :=
    nothingAhead_other (by simp) (by simp)
  refine ⟨trackedStep_silent (recordableStep_silent (by simp) (by simp) (by simp)) (by simp)
    (by simp) hahead, aheadOf_nothing hahead, aheadOf_nothing hahead, ?_⟩
  intro updates s' hashedAt' now' hstating _
  cases hi.symm.trans hstating
  constructor
  · intro v hv _
    rw [List.mem_singleton.mp hv]
    exact Option.isSome_iff_exists.mp ho
  intro aliceId hmem us hus
  rcases List.prefix_cons_iff.mp hus with rfl | ⟨t, rfl, ht⟩
  · exact (hfits aliceId hmem).1
  · rw [List.prefix_nil.mp ht]
    exact (hfits aliceId hmem).2

theorem steadyStep_other (hrecordable : recordableStep W (.resume i a))
    (hreply : ∀ raw now, a ≠ .git (.reply raw) now) (hlooked : ∀ positions, a ≠ .looked positions)
    (hstate : ∀ s hashedAt now, a ≠ .state s hashedAt now)
    (hahead : nothingAhead cfg W i a = true) : steadyStep cfg held W (.resume i a) :=
  steadyStep_silent (trackedStep_silent hrecordable hreply hlooked hahead) hstate hahead

theorem reach_bootstrapped :
    Reach (passProg sampleAccount).step (steadyStep sampleAccount tenShares) PassWorld.initial
      (sampleAfter bootstrapped) := by
  refine .of_after bootstrapped (by decide +kernel) ?_
  intro n e he
  match n with
  | 0 | 1 | 2 | 3 =>
    cases he
    exact steadyStep_call ⟨trivial, trivial, trivial⟩
  | 4 =>
    cases he
    exact steadyStep_silent (trackedStep_looked (by decide +kernel)) (by simp [shows])
      (by decide +kernel)
  | 5 =>
    cases he
    exact steadyStep_arrived [samplePosition 10] [] (by decide +kernel)
      (by simp) (by decide +kernel) rfl
  | 7 =>
    cases he
    exact steadyStep_call (recordable_accepted (by decide +kernel) (by decide +kernel))
  | 8 =>
    cases he
    exact steadyStep_reply "buy" "00000000" .working
      (by decide +kernel) (by decide +kernel) (by decide +kernel)
  | 6 | 9 | 10 =>
    cases he
    exact steadyStep_other (recordableStep_silent (by simp) (by simp) (by simp))
      (by simp) (by simp) (by simp) (by decide +kernel)
  | n + 11 => cases he

def readAgain : List PassEvent :=
  [filled] ++ synced 6 ++ [.call .getPositions, .resume 7 (shows 12), .resume 7 (.arrived 5)]

def sampleUpdate : OrderStatusUpdate where
  orderId := "1"
  symbol := "AAPL"
  currentStatus := .filled
  filledQty := some 2
  filledPrice := some 100

/-- The order fills, and its sync runs, after the broker has computed the positions
and before they arrive. -/
def readStale : List PassEvent :=
  [.call .getPositions, .resume 5 (shows 10), filled] ++ synced 7 ++ [.resume 5 (.arrived 5)]

end OpenAlice.Trading.Passes
