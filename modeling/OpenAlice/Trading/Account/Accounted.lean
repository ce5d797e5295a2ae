import OpenAlice.Trading.Account.Holding

/-!
# What the log accounts for

`Accounted` ties the replay of an instrument to the orders at the broker: it has
counted the orders of the instrument that the log reports filled, and once the
instrument was reconciled its quantity is what the broker held at the start and
what these orders have changed.  Every commit keeps it, a sync row by row.
-/

namespace OpenAlice.Trading.Passes

open OpenAlice.Run OpenAlice.Trading.Git TradingGit

/-! ## Reading the log -/

def reportedOf (results : List OperationResult) : List String :=
  results.filterMap fun r ↦ if r.status = .filled then resultId r else none

def reportedIds (commits : List GitCommit) : List String :=
  commits.flatMap fun c ↦ reportedOf c.results

/-- The instrument a commit of `recordReconcile` books a quantity of. -/
def reconciledId (c : GitCommit) : Option String :=
  match c.operations, c.results with
  | [.reconcileBalance aliceId _ _], [r] => if r.fill?.isSome = true then some aliceId else none
  | _, _ => none

def reconciledIds (commits : List GitCommit) : List String := commits.filterMap reconciledId

theorem mem_reportedOf {results : List OperationResult} {id : String} :
    id ∈ reportedOf results ↔ ∃ r ∈ results, r.status = .filled ∧ resultId r = some id := by
  simp only [reportedOf, List.mem_filterMap]
  constructor
  · rintro ⟨r, hr, h⟩
    split at h
    · rename_i hs
      exact ⟨r, hr, hs, h⟩
    · cases h
  · rintro ⟨r, hr, hs, hid⟩
    exact ⟨r, hr, by rw [if_pos hs, hid]⟩

variable {commits : List GitCommit}

theorem mem_reportedIds {id : String} :
    id ∈ reportedIds commits ↔ ∃ c ∈ commits, ∃ r ∈ c.results, r.status = .filled ∧
      resultId r = some id := by
  simp only [reportedIds, List.mem_flatMap, mem_reportedOf]

theorem reportedIds_append {c : GitCommit} :
    reportedIds (commits ++ [c]) = reportedIds commits ++ reportedOf c.results := by
  simp [reportedIds]

theorem reconciledIds_append {c : GitCommit} :
    reconciledIds (commits ++ [c]) = reconciledIds commits ++ (reconciledId c).toList := by
  cases h : reconciledId c <;> simp [reconciledIds, h]

/-! ## The replay and the orders -/

/-- What the fills recorded so far make of the holding fits the log: it is not
negative, and `decimal.js` does not round it. -/
def Fits (cfg : PassConfig) (held : String → Decimal) (orders : List BrokerOrder)
    (aliceId : String) (ids : List String) : Prop :=
  0 ≤ held aliceId + changes cfg orders aliceId ids ∧
    cfg.round (held aliceId + changes cfg orders aliceId ids) =
      held aliceId + changes cfg orders aliceId ids

/-- The replay of an instrument, when the orders `ids` are reported filled. -/
structure Accounted (cfg : PassConfig) (held : String → Decimal) (orders : List BrokerOrder)
    (reconciled : Prop) (aliceId : String) (s : Replay) (ids : List String) : Prop where
  counted : ∀ id ∈ s.counted, id ∈ ids
  complete : ∀ id ∈ ids, ∀ o ∈ orders, o.id = id → cfg.stampAliceId o.contract = aliceId →
    id ∈ s.counted
  booked : reconciled → s.basis.qty = held aliceId + changes cfg orders aliceId ids

variable {cfg : PassConfig} {held : String → Decimal} {orders : List BrokerOrder}
variable {reconciled : Prop} {aliceId : String} {s : Replay} {ids : List String}

theorem Accounted.extend (h : Accounted cfg held orders reconciled aliceId s ids)
    {new : List String} (hnew : ∀ id ∈ new, ∀ o ∈ orders, o.id ≠ id) :
    Accounted cfg held orders reconciled aliceId s (ids ++ new) where
  counted id hid := List.mem_append_left _ (h.counted id hid)
  complete id hid o ho hoid hs := by
    rcases List.mem_append.mp hid with hid | hid
    · exact h.complete id hid o ho hoid hs
    · exact absurd hoid (hnew id hid o ho)
  booked hr := by
    rw [h.booked hr]
    congr 1
    refine changes_congr fun id hne ↦ ?_
    obtain ⟨o, ho, hoid, _⟩ := order_of_delta hne
    rw [List.mem_append, or_iff_left]
    intro hid
    exact hnew id hid o ho hoid

theorem Accounted.again (h : Accounted cfg held orders reconciled aliceId s ids) {id : String}
    (hid : id ∈ ids) : Accounted cfg held orders reconciled aliceId s (ids ++ [id]) := by
  have hsame : ∀ id', id' ∈ ids ++ [id] ↔ id' ∈ ids := by
    intro id'
    rw [List.mem_append, List.mem_singleton, or_iff_left_iff_imp]
    rintro rfl
    exact hid
  constructor
  · exact fun id' h' ↦ (hsame id').mpr (h.counted id' h')
  · exact fun id' h' ↦ h.complete id' ((hsame id').mp h')
  · intro hr
    rw [h.booked hr, changes_congr fun id' _ ↦ hsame id']

theorem Matches.reads {op op' : Operation} {o : BrokerOrder} (h : Matches cfg op o)
    (h' : Matches cfg op' o) :
    op.matchesAliceId aliceId = op'.matchesAliceId aliceId ∧
      op.fillDirection = op'.fillDirection := by
  obtain ⟨⟨c, hc, ha⟩, hd⟩ := h
  obtain ⟨⟨c', hc', ha'⟩, hd'⟩ := h'
  constructor
  · rw [Bool.eq_iff_iff, matchesAliceId_contract hc, matchesAliceId_contract hc', ha, ha']
  · rw [hd, hd']

theorem Matches.aliceId_iff {op : Operation} {o : BrokerOrder} (h : Matches cfg op o) :
    op.matchesAliceId aliceId = true ↔ cfg.stampAliceId o.contract = aliceId := by
  obtain ⟨⟨c, hc, ha⟩, _⟩ := h
  rw [matchesAliceId_contract hc, ha, Option.some_inj]

structure FilledRow (cfg : PassConfig) (orders : List BrokerOrder) (commits : List GitCommit)
    (u : OrderStatusUpdate) (f : RowFill) (o : BrokerOrder) : Prop where
  row : rowFill commits (syncRow u) = some f
  mem : o ∈ orders
  id : o.id = f.id
  fate : o.fate = .filled f.qty f.price
  matching : Matches cfg f.op o
  pos : 0 < f.qty

/-- **One row of a sync** keeps the replay accounted for, when it reports no fill or
that of an order of the log, and sells no more than the log holds. -/
theorem Accounted.row (h : Accounted cfg held orders reconciled aliceId s ids)
    {u : OrderStatusUpdate}
    (hunique : ∀ o ∈ orders, ∀ o' ∈ orders, o.id = o'.id → o = o')
    (hrow : reportedOf [syncRow u] = [] ∨ ∃ f o, FilledRow cfg orders commits u f o)
    (hcover : reconciled → Fits cfg held orders aliceId (ids ++ reportedOf [syncRow u])) :
    Accounted cfg held orders reconciled aliceId (costRow cfg.round commits aliceId s (syncRow u))
      (ids ++ reportedOf [syncRow u]) := by
  rcases hrow with hnone | ⟨f, o, hf⟩
  · have hfill : rowFill commits (syncRow u) = none := by
      cases hr : rowFill commits (syncRow u) with
      | none => rfl
      | some f =>
        obtain ⟨hs, hid, _⟩ := rowFill_eq_some.mp hr
        have hmem : f.id ∈ reportedOf [syncRow u] :=
          mem_reportedOf.mpr ⟨_, List.mem_singleton_self _, hs, hid⟩
        rw [hnone] at hmem
        cases hmem
    rw [costRow_none hfill, hnone, List.append_nil]
    exact h
  · obtain ⟨hs, hid, _⟩ := rowFill_eq_some.mp hf.row
    have hreported : reportedOf [syncRow u] = [f.id] := by
      simp [reportedOf, hs, hid]
    rw [costRow_some rfl hf.row]
    rw [hreported] at hcover ⊢
    have hdelta : delta cfg orders aliceId f.id =
        if cfg.stampAliceId o.contract = aliceId then o.signed else 0 :=
      hf.id ▸ delta_eq hf.mem hunique
    by_cases hm : cfg.stampAliceId o.contract = aliceId
    · rw [if_pos hm] at hdelta
      by_cases hin : f.id ∈ s.counted
      · -- an order reported before
        rw [if_pos (.inl hin)]
        exact h.again (h.counted f.id hin)
      have hnew : f.id ∉ ids := fun hid ↦ hin (h.complete f.id hid o hf.mem hf.id hm)
      have hcounts : ¬(f.id ∈ s.counted ∨ f.op.matchesAliceId aliceId = false ∨ f.qty = 0) := by
        simp [hin, hf.matching.aliceId_iff.mpr hm, hf.pos.ne']
      rw [if_neg hcounts]
      refine ⟨?_, ?_, ?_⟩
      · intro id hid
        rcases List.mem_cons.mp hid with rfl | hid
        · exact List.mem_append_right _ (List.mem_singleton_self _)
        · exact List.mem_append_left _ (h.counted id hid)
      · intro id hid o' ho' hoid hs
        rcases List.mem_append.mp hid with hid | hid
        · exact List.mem_cons_of_mem _ (h.complete id hid o' ho' hoid hs)
        rw [List.mem_singleton] at hid
        rw [hid]
        exact List.mem_cons_self
      · intro hr
        obtain ⟨h0, hexact⟩ := hcover hr
        refine applyFill_exact ?_ h0 hexact
        rw [changes_concat hnew, hdelta, ← add_assoc, ← h.booked hr, hf.matching.2,
          BrokerOrder.signed, hf.fate]
        cases o.side with
        | buy => rfl
        | sell => exact (sub_eq_add_neg _ _).symm
    · -- an order of another instrument
      rw [if_neg hm] at hdelta
      have hother : f.op.matchesAliceId aliceId = false := by
        rw [← Bool.not_eq_true, hf.matching.aliceId_iff]
        exact hm
      rw [if_pos (.inr (.inl hother))]
      refine ⟨?_, ?_, ?_⟩
      · exact fun id hid ↦ List.mem_append_left _ (h.counted id hid)
      · intro id hid o' ho' hoid hs
        rcases List.mem_append.mp hid with hid | hid
        · exact h.complete id hid o' ho' hoid hs
        rw [List.mem_singleton] at hid
        rw [hunique o' ho' o hf.mem (by rw [hoid, hid, hf.id])] at hs
        exact absurd hs hm
      · intro hr
        rw [h.booked hr]
        congr 1
        refine changes_congr fun id hne ↦ ?_
        rw [List.mem_append, List.mem_singleton, or_iff_left]
        rintro rfl
        exact hne hdelta

/-! ## The log of an account -/

def reportedBy (commits : List GitCommit) (updates : List OrderStatusUpdate) : List String :=
  reportedIds commits ++ reportedOf (updates.map syncRow)

/-- The log accounts for the orders at the broker. -/
structure Booked (cfg : PassConfig) (held : String → Decimal) (S : Shared) : Prop where
  unique : ∀ o ∈ S.orders, ∀ o' ∈ S.orders, o.id = o'.id → o = o'
  /-- A fill that the log reports is that of an order it introduced. -/
  origins : ∀ c ∈ S.commits, ∀ r ∈ c.results, r.status = .filled → r.fill?.isSome = true →
    ∀ id, resultId r = some id → ∃ op, orderOrigin S.commits id = some op
  accounted : ∀ aliceId, Accounted cfg held S.orders (aliceId ∈ reconciledIds S.commits) aliceId
    (costReplay cfg.round S.commits aliceId) (reportedIds S.commits)
  once : (reconciledIds S.commits).Nodup

theorem reportedBy_concat {updates : List OrderStatusUpdate} {u : OrderStatusUpdate} :
    reportedBy commits (updates ++ [u]) = reportedBy commits updates ++ reportedOf [syncRow u] := by
  simp [reportedBy, reportedOf, List.filterMap_append]

theorem Accounted.rows (commits' : List GitCommit) {updates : List OrderStatusUpdate}
    (h : Accounted cfg held orders reconciled aliceId s (reportedIds commits))
    (hunique : ∀ o ∈ orders, ∀ o' ∈ orders, o.id = o'.id → o = o')
    (hrow : ∀ u ∈ updates, reportedOf [syncRow u] = [] ∨ ∃ f o, FilledRow cfg orders commits' u f o)
    (hcover : reconciled → ∀ us, us <+: updates →
      Fits cfg held orders aliceId (reportedBy commits us)) :
    Accounted cfg held orders reconciled aliceId
      ((updates.map syncRow).foldl (costRow cfg.round commits' aliceId) s)
      (reportedBy commits updates) := by
  -- by induction on the rows still to come, behind those already replayed
  suffices hfrom : ∀ (rest done : List OrderStatusUpdate) (s : Replay), updates = done ++ rest →
      Accounted cfg held orders reconciled aliceId s (reportedBy commits done) →
      Accounted cfg held orders reconciled aliceId
        ((rest.map syncRow).foldl (costRow cfg.round commits' aliceId) s)
        (reportedBy commits updates) by
    exact hfrom updates [] s rfl (by simpa [reportedBy, reportedOf] using h)
  intro rest
  induction rest with
  | nil =>
    intro done s he hs
    rw [he, List.append_nil]
    exact hs
  | cons u rest ih =>
    intro done s he hs
    have hsplit : updates = (done ++ [u]) ++ rest := by simp [he]
    refine ih (done ++ [u]) _ hsplit ?_
    rw [reportedBy_concat]
    refine hs.row hunique (hrow u (by simp [he])) fun hr ↦ ?_
    rw [← reportedBy_concat]
    exact hcover hr _ ⟨rest, hsplit.symm⟩

/-! ## How the log grows -/

section Append

variable {W W' : PassWorld} {c : GitCommit}

theorem Filed.origin (h : Filed cfg W) {id : String} {op : Operation}
    (ho : orderOrigin W.shared.commits id = some op) :
    Accepted W.shared id ∧ (∃ o ∈ W.shared.orders, o.id = id) ∧
      ∀ o ∈ W.shared.orders, o.id = id → Matches cfg op o := by
  obtain ⟨⟨op', r?⟩, hmem, hp⟩ := mem_of_originOf ho
  obtain ⟨rfl, hcontract, hid⟩ := introduction_eq_some.mp hp
  obtain ⟨r, rfl, hrid⟩ := Option.bind_eq_some_iff.mp hid
  have hintro : Introduces op' r := ⟨hcontract, hrid ▸ rfl⟩
  have hreply := h.logged op' r hmem hintro
  obtain ⟨⟨o, hmem, hoid⟩, hmatch⟩ := h.placed op' r hreply hintro
  refine ⟨⟨op', r, hreply, hcontract, hrid⟩, ⟨o, hmem, ?_⟩, ?_⟩
  · exact Option.some.inj (hoid.symm.trans hrid)
  · intro o' ho' hoid'
    exact hmatch o' ho' (hrid.trans (congrArg some hoid'.symm))

theorem origin_concat {commits : List GitCommit} {id : String} {op : Operation}
    (h : orderOrigin commits id = some op) : ∃ op', orderOrigin (commits ++ [c]) id = some op' := by
  rw [← Option.isSome_iff_exists, orderOrigin, logPairs_append, originOf_append]
  rw [orderOrigin] at h
  rw [h]
  cases originOf c.pairs id <;> rfl

theorem Booked.replay_concat (h : Booked cfg held W.shared) (hfiled : Filed cfg W)
    (hfiled' : Filed cfg W') (ho : W'.shared.orders = W.shared.orders)
    (hlog : W'.shared.commits = W.shared.commits ++ [c]) :
    costReplay cfg.round W'.shared.commits aliceId = costCommit cfg.round W'.shared.commits aliceId
        (costReplay cfg.round W.shared.commits aliceId) c := by
  rw [hlog]
  refine costReplay_concat fun c' hc' r hr s ↦ costRow_congr ?_ s
  intro id hs hid hfill
  obtain ⟨op, hop⟩ := h.origins c' hc' r hr hs hfill id hid
  obtain ⟨op', hop'⟩ := origin_concat (c := c) hop
  obtain ⟨_, ⟨o, hmem, hoid⟩, hmatch⟩ := hfiled.origin hop
  have hmatch' : Matches cfg op' o := (hfiled'.origin (hlog ▸ hop')).2.2 o (ho ▸ hmem) hoid
  exact ⟨op, op', hop, hop', (hmatch o hmem hoid).reads hmatch'⟩

theorem Booked.append (h : Booked cfg held W.shared) (hfiled : Filed cfg W)
    (hfiled' : Filed cfg W') (ho : W'.shared.orders = W.shared.orders)
    (hlog : W'.shared.commits = W.shared.commits ++ [c])
    (horigins : ∀ r ∈ c.results, r.status = .filled → r.fill?.isSome = true →
      ∀ id, resultId r = some id → ∃ op, orderOrigin W.shared.commits id = some op)
    (hacc : ∀ aliceId, Accounted cfg held W.shared.orders
      (aliceId ∈ reconciledIds W.shared.commits ∨ reconciledId c = some aliceId) aliceId
      (costCommit cfg.round W'.shared.commits aliceId
        (costReplay cfg.round W.shared.commits aliceId) c)
      (reportedIds W.shared.commits ++ reportedOf c.results))
    (honce : ∀ aliceId, reconciledId c = some aliceId → aliceId ∉ reconciledIds W.shared.commits) :
    Booked cfg held W'.shared where
  unique := ho ▸ h.unique
  origins := by
    rw [hlog, List.forall_mem_append, List.forall_mem_singleton]
    constructor
    · intro c' hc' r hr hs hfill id hid
      obtain ⟨op, hop⟩ := h.origins c' hc' r hr hs hfill id hid
      exact origin_concat hop
    intro r hr hs hfill id hid
    obtain ⟨op, hop⟩ := horigins r hr hs hfill id hid
    exact origin_concat hop
  accounted aliceId := by
    rw [h.replay_concat hfiled hfiled' ho hlog]
    obtain ⟨hcounted, hcomplete, hbooked⟩ := hacc aliceId
    rw [ho]
    refine ⟨?_, ?_, ?_⟩
    · rw [hlog, reportedIds_append]
      rwa [hlog] at hcounted
    · rw [hlog, reportedIds_append]
      rwa [hlog] at hcomplete
    · rw [hlog, reportedIds_append, reconciledIds_append, List.mem_append, Option.mem_toList]
      rwa [hlog] at hbooked
  once := by
    rw [hlog, reconciledIds_append]
    cases hc : reconciledId c with
    | none =>
      rw [Option.toList_none, List.append_nil]
      exact h.once
    | some aliceId =>
      rw [Option.toList_some, List.nodup_append]
      refine ⟨h.once, List.nodup_singleton _, ?_⟩
      rintro a ha b hb rfl
      rw [List.mem_singleton] at hb
      subst hb
      exact honce a hc ha

theorem Booked.append_quiet (h : Booked cfg held W.shared) (hfiled : Filed cfg W)
    (hfiled' : Filed cfg W') (ho : W'.shared.orders = W.shared.orders)
    (hlog : W'.shared.commits = W.shared.commits ++ [c]) (hq : Git.Quiet c.results)
    (hgood : ∀ r ∈ c.results, Good W.shared r) : Booked cfg held W'.shared := by
  have hnone : reconciledId c = none := by
    unfold reconciledId
    split
    · rename_i r _ hr
      have hfill := hq r (by simp [hr])
      simp [hfill]
    · rfl
  have hstrange : ∀ id ∈ reportedOf c.results, ∀ o ∈ W.shared.orders, o.id ≠ id := by
    rintro _ hid o hmem rfl
    obtain ⟨r, hr, hs, hoid⟩ := mem_reportedOf.mp hid
    have hsound := (hgood r hr).sound o hmem hoid
    rw [Sound, hs] at hsound
    obtain ⟨_, _, _, hfill⟩ := hsound
    rw [hq r hr] at hfill
    cases hfill
  refine h.append hfiled hfiled' ho hlog ?_ ?_ ?_
  · intro r hr _ hfill
    rw [hq r hr] at hfill
    cases hfill
  · intro aliceId
    rw [costCommit_quiet hq]
    have hacc := (h.accounted aliceId).extend hstrange
    refine ⟨hacc.counted, hacc.complete, ?_⟩
    rintro (hr | hr)
    · exact hacc.booked hr
    · rw [hnone] at hr
      cases hr
  · intro aliceId hc
    rw [hnone] at hc
    cases hc

theorem filledRow (haudited : Audited W) (hfiled' : Filed cfg W')
    (ho : W'.shared.orders = W.shared.orders) {u : OrderStatusUpdate}
    (hgood : Good W.shared (syncRow u))
    (horigin : u.currentStatus = .filled → ∃ op, orderOrigin W'.shared.commits u.orderId = some op) :
    reportedOf [syncRow u] = [] ∨ ∃ f o, FilledRow cfg W.shared.orders W'.shared.commits u f o := by
  by_cases hs : u.currentStatus = .filled
  · cases hid : resultId (syncRow u) with
    | none => exact .inl (by simp [reportedOf, hid])
    | some id =>
      right
      have he : u.orderId = id := mem_resultIds_syncRow (mem_resultIds hid)
      obtain ⟨op, hop⟩ := horigin hs
      rw [he] at hop
      obtain ⟨_, ⟨o, hmem, hoid⟩, hmatch⟩ := hfiled'.origin hop
      rw [ho] at hmem hmatch
      have hsound := hgood.sound o hmem (hid.trans (congrArg some hoid.symm))
      have hstatus : (syncRow u).status = .filled := hs
      rw [Sound, hstatus] at hsound
      obtain ⟨qty, price, hfate, hfill⟩ := hsound
      exact ⟨⟨id, op, qty, price⟩, o,
        { row := rowFill_eq_some.mpr ⟨hs, hid, hfill, hop⟩
          mem := hmem
          id := hoid
          fate := hfate
          matching := hmatch o hmem hoid
          pos := (haudited.fills o hmem qty price hfate).1 }⟩
  · have hstatus : (syncRow u).status ≠ .filled := hs
    exact .inl (by simp [reportedOf, hstatus])

theorem Booked.append_sync (h : Booked cfg held W.shared) (haudited : Audited W)
    (hfiled : Filed cfg W) (hfiled' : Filed cfg W') (ho : W'.shared.orders = W.shared.orders)
    (hlog : W'.shared.commits = W.shared.commits ++ [c]) {updates : List OrderStatusUpdate}
    (hops : c.operations = [.syncOrders]) (hres : c.results = updates.map syncRow)
    (hgood : ∀ r ∈ c.results, Good W.shared r)
    (horigins : ∀ u ∈ updates, u.currentStatus = .filled →
      ∃ op, orderOrigin W.shared.commits u.orderId = some op)
    (hcover : ∀ aliceId ∈ reconciledIds W.shared.commits, ∀ us, us <+: updates →
      Fits cfg held W.shared.orders aliceId (reportedBy W.shared.commits us)) :
    Booked cfg held W'.shared := by
  have hsync : c.isSync = true := by simp [GitCommit.isSync, hops]
  have hnone : reconciledId c = none := by simp [reconciledId, hops]
  have hrow : ∀ u ∈ updates, reportedOf [syncRow u] = [] ∨
      ∃ f o, FilledRow cfg W.shared.orders W'.shared.commits u f o := by
    intro u hu
    refine filledRow haudited hfiled' ho (hgood _ (hres ▸ List.mem_map_of_mem hu)) fun hs ↦ ?_
    obtain ⟨op, hop⟩ := horigins u hu hs
    rw [hlog]
    exact origin_concat hop
  refine h.append hfiled hfiled' ho hlog ?_ ?_ ?_
  · rw [hres]
    intro r hr hs _ id hid
    obtain ⟨u, hu, rfl⟩ := List.mem_map.mp hr
    obtain ⟨op, hop⟩ := horigins u hu hs
    rw [← mem_resultIds_syncRow (mem_resultIds hid)]
    exact ⟨op, hop⟩
  · intro aliceId
    have hacc := (h.accounted aliceId).rows W'.shared.commits h.unique hrow (hcover aliceId)
    simp only [costCommit, hsync, if_true, hres]
    refine ⟨hacc.counted, hacc.complete, ?_⟩
    rintro (hr | hr)
    · exact hacc.booked hr
    · rw [hnone] at hr
      cases hr
  · intro aliceId hc
    rw [hnone] at hc
    cases hc

theorem Booked.append_reconcile (h : Booked cfg held W.shared) (hfiled : Filed cfg W)
    (hfiled' : Filed cfg W') (ho : W'.shared.orders = W.shared.orders)
    (hlog : W'.shared.commits = W.shared.commits ++ [c]) {p : ReconcileParams}
    (hops : c.operations = [p.operation]) (hres : c.results = [p.result])
    (hdelta : p.quantityDelta ≠ 0) (hfirst : p.aliceId ∉ reconciledIds W.shared.commits)
    (hfits : Fits cfg held W.shared.orders p.aliceId (reportedIds W.shared.commits))
    (htotal : (costReplay cfg.round W.shared.commits p.aliceId).basis.qty + p.quantityDelta =
      held p.aliceId + changes cfg W.shared.orders p.aliceId (reportedIds W.shared.commits)) :
    Booked cfg held W'.shared := by
  have hsome : reconciledId c = some p.aliceId := by
    simp [reconciledId, hops, hres, ReconcileParams.operation, ReconcileParams.result,
      OperationResult.fill?]
  have hreported : reportedOf c.results = [] := by
    rw [hres]
    rfl
  refine h.append hfiled hfiled' ho hlog ?_ ?_ ?_
  · rw [hres]
    intro r hr _ _ id hid
    rw [List.mem_singleton] at hr
    subst hr
    cases hid
  · intro aliceId
    rw [costCommit_reconcile hdelta hops hres, hreported, List.append_nil]
    by_cases ha : p.aliceId = aliceId
    · rw [if_pos ha]
      subst ha
      refine ⟨(h.accounted _).counted, (h.accounted _).complete, fun _ ↦ ?_⟩
      refine applyFill_exact ?_ hfits.1 hfits.2
      rw [← htotal]
      by_cases h0 : 0 ≤ p.quantityDelta
      · simp only [if_pos h0, abs_of_nonneg h0]
      · simp only [if_neg h0, abs_of_neg (lt_of_not_ge h0), sub_neg_eq_add]
    · rw [if_neg ha]
      refine ⟨(h.accounted _).counted, (h.accounted _).complete, ?_⟩
      rintro (hr | hr)
      · exact (h.accounted _).booked hr
      · rw [hsome] at hr
        exact absurd (Option.some.inj hr) ha
  · intro aliceId hc
    rw [hsome] at hc
    cases hc
    exact hfirst

end Append

end OpenAlice.Trading.Passes
