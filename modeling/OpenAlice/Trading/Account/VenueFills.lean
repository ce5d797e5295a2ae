import OpenAlice.Trading.Account.PassCases
import OpenAlice.Trading.Brokers.Ccxt
import OpenAlice.Trading.Ledger.Pending

/-!
# Fills between the venue and the log

What `mapOpenOrder` of `AlpacaBroker.ts` and `LongbridgeBroker.ts`, `convertCcxtOrder` and
`toOpenOrder` of `FutuBroker.ts` tell `sync` about an order: its status, the quantity filled and
the average price.  A `sync` is one step here.  An order that is in the listing, or not due, or not
found, is not asked for in it; and what else is appended to the log is about other orders.

The first state that the status does not call working is recorded, and the order is never asked
for again.  So its fill is kept when that state reports what the last one does.  Alpaca's
`suspended` and `done_for_day`, and Futu's orders that are being submitted or cancelled, are states
that end only in the log; and Longbridge's fills lose their quantity.
-/

namespace OpenAlice.Trading.Brokers

open OpenAlice.Trading.Git TradingGit OpenAlice.Trading.Passes

/-! ## The adapters -/

def reported (status : String) (filledQuantity avgFillPrice : Option Decimal) : OpenOrder where
  contract := {}
  order := { filledQuantity := filledQuantity }
  orderState := { status := status }
  avgFillPrice := avgFillPrice

/-- The states of the orders at a venue, and how the adapter reports them. -/
structure Venue (Raw : Type) where
  openOrder : Raw → OpenOrder
  /-- The executed quantity. -/
  executed : Raw → Option Decimal
  averagePrice : Raw → Option Decimal
  final : Raw → Bool

/-- `AlpacaOrderRaw` -/
structure AlpacaOrderRaw where
  status : String
  filledQty : Option Decimal
  filledAvgPrice : Option Decimal

def mapAlpacaOrderStatus (alpacaStatus : String) : String :=
  match alpacaStatus with
  | "filled" => "Filled"
  | "new" | "accepted" | "pending_new" | "accepted_for_bidding" => "Submitted"
  | "canceled" | "expired" | "replaced" => "Cancelled"
  | "partially_filled" => "Submitted"
  | "done_for_day" | "suspended" | "rejected" => "Inactive"
  | _ => "Submitted"

def alpaca : Venue AlpacaOrderRaw where
  openOrder o := reported (mapAlpacaOrderStatus o.status) o.filledQty o.filledAvgPrice
  executed := AlpacaOrderRaw.filledQty
  averagePrice := AlpacaOrderRaw.filledAvgPrice
  final o := o.status ∈ ["filled", "canceled", "expired"]

def ccxt : Venue Ccxt.CcxtOrder where
  openOrder o := reported (Ccxt.mapOrderStatus o.status) o.filled o.average
  executed := Ccxt.CcxtOrder.filled
  averagePrice := Ccxt.CcxtOrder.average
  final o := o.status ∈ [some "closed", some "canceled", some "cancelled", some "expired"]

/-- `LongbridgeOrderLike`, its status being the number of an `OrderStatus`. -/
structure LongbridgeOrderLike where
  status : Nat
  executedQuantity : Decimal
  executedPrice : Option Decimal

def mapLbOrderStatus (status : Nat) : String :=
  match status with
  | 5 => "Filled"
  | 14 | 16 => "Inactive"
  | 15 | 17 => "Cancelled"
  | _ => "Submitted"

def longbridge : Venue LongbridgeOrderLike where
  openOrder o := reported (mapLbOrderStatus o.status) none o.executedPrice
  executed o := some o.executedQuantity
  averagePrice := LongbridgeOrderLike.executedPrice
  final o := o.status ∈ [5, 15, 16]

inductive FutuOrderStatus where
  | unsubmitted
  | waitingSubmit
  | submitting
  | submitFailed
  | timeOut
  | submitted
  | filledPart
  | filledAll
  | cancellingPart
  | cancellingAll
  | cancelledPart
  | cancelledAll
  | failed
  | disabled
  | deleted
  | fillCancelled
  | unknown
deriving DecidableEq

def ibkrStatusByFutu : FutuOrderStatus → String
  | .unsubmitted | .waitingSubmit => "PendingSubmit"
  | .submitting | .timeOut => "PreSubmitted"
  | .submitFailed | .failed => "ApiCancelled"
  | .submitted | .filledPart | .unknown => "Submitted"
  | .filledAll => "Filled"
  | .cancellingPart | .cancellingAll => "PendingCancel"
  | .cancelledPart | .cancelledAll | .deleted | .fillCancelled => "Cancelled"
  | .disabled => "Inactive"

/-- `FutuOrderLike` -/
structure FutuOrderLike where
  orderStatus : FutuOrderStatus
  fillQty : Option Decimal
  fillAvgPrice : Option Decimal

def futu : Venue FutuOrderLike where
  openOrder o := reported (ibkrStatusByFutu o.orderStatus) o.fillQty o.fillAvgPrice
  executed := FutuOrderLike.fillQty
  averagePrice := FutuOrderLike.fillAvgPrice
  final o := o.orderStatus ∈ [.filledAll, .cancelledPart, .cancelledAll]

/-! ## The syncs -/

inductive LogEvent (Raw : Type) where
  | other (c : GitCommit)
  | synced (raw : Option Raw) (others : PendingOrder → Option OpenOrder) (state : GitState)
      (hashedAt now : Timestamp)

variable {Raw : Type} (v : Venue Raw) (pf : Platform) (id : String)

def updatesOf (commits : List GitCommit) (answers : PendingOrder → Option OpenOrder) :
    List OrderStatusUpdate :=
  (getPendingOrderIds commits).filterMap fun p ↦ (answers p).bind (updateOf p)

def answered (raw : Option Raw) (others : PendingOrder → Option OpenOrder) (p : PendingOrder) :
    Option OpenOrder :=
  if p.orderId = id then raw.map v.openOrder else others p

def LogEvent.apply (g : TradingGit) : LogEvent Raw → TradingGit
  | .other c => { g with commits := g.commits ++ [c] }
  | .synced raw others state hashedAt now =>
    match updatesOf g.commits (answered v id raw others) with
    | [] => g
    | u :: updates => (g.sync pf (u :: updates) state hashedAt now).1

def afterEvents (g : TradingGit) (events : List (LogEvent Raw)) : TradingGit :=
  events.foldl (LogEvent.apply v pf id) g

def states (events : List (LogEvent Raw)) : List Raw :=
  events.filterMap fun
    | .other _ => none
    | .synced raw .. => raw

def Apart (events : List (LogEvent Raw)) : Prop :=
  ∀ c, .other c ∈ events → id ∉ c.results.flatMap resultIds

def rowsIn (c : GitCommit) : List OperationResult :=
  c.results.filter fun r ↦ resultId r = some id

def lastRow (commits : List GitCommit) : Option OperationResult :=
  ((commits.filter GitCommit.isSync).flatMap (rowsIn id)).getLast?

def ended (raw : Raw) : Bool :=
  (v.openOrder raw).orderState.status ∉ ["Submitted", "PreSubmitted"]

/-- The last row carries what the venue has executed. -/
def FillKept (g : TradingGit) (events : List (LogEvent Raw)) : Prop :=
  ∀ final qty, (states events).getLast? = some final → v.final final →
    v.executed final = some qty → 0 < qty →
    ∃ row, lastRow id (afterEvents v pf id g events).commits = some row ∧
      row.filledQty = some qty ∧ row.filledPrice = v.averagePrice final

def FirstEndIsLast (events : List (LogEvent Raw)) : Prop :=
  ∀ first final qty, (states events).find? (ended v) = some first →
    (states events).getLast? = some final → v.final final → v.executed final = some qty → 0 < qty →
    stripUnset (v.executed first) = some qty ∧ v.averagePrice first = v.averagePrice final

/-! ## What a commit adds -/

variable {v} {pf} {id} {g : TradingGit} {commits : List GitCommit} {c : GitCommit}

theorem lastRow_concat : lastRow id (commits ++ [c]) =
    if c.isSync then ((rowsIn id c).getLast?).or (lastRow id commits) else lastRow id commits := by
  rw [lastRow, List.filter_append, List.flatMap_append, List.getLast?_append]
  split_ifs with h
  · rw [List.filter_cons_of_pos h, List.filter_nil, List.flatMap_singleton]
    rfl
  · rw [List.filter_cons_of_neg h, List.filter_nil]
    rfl

theorem unrelated (h : id ∉ c.results.flatMap resultIds) :
    rowsIn id c = [] ∧ c.statusesOf id = [] := by
  constructor
  · refine List.filter_eq_nil_iff.mpr fun r hr hid ↦ h ?_
    exact List.mem_flatMap.mpr ⟨r, hr, mem_resultIds (of_decide_eq_true hid)⟩
  rw [GitCommit.statusesOf, List.map_eq_nil_iff, List.filter_eq_nil_iff]
  rintro ⟨key, status⟩ hentry hid
  obtain rfl : key = id := of_decide_eq_true hid
  obtain ⟨r, hr, hstatus⟩ := List.mem_flatMap.mp hentry
  refine h (List.mem_flatMap.mpr ⟨r, hr, ?_⟩)
  rcases List.mem_append.mp hstatus with hown | hleg
  · obtain ⟨own, hresult, heq⟩ := Option.map_eq_some_iff.mp (Option.mem_toList.mp hown)
    cases heq
    exact mem_resultIds hresult
  obtain ⟨leg, hborn, heq⟩ := List.mem_map.mp hleg
  cases heq
  exact List.mem_append_right _ (List.mem_map_of_mem hborn)

theorem orderStatus_concat : orderStatus (commits ++ [c]) id =
    ((c.statusesOf id).head?).or (orderStatus commits id) := by
  rw [orderStatus_eq_head?, orderStatus_eq_head?, newestStatuses_concat]
  split_ifs with h
  · rw [h]
    rfl
  · rw [List.head?_eq_some_head h]
    rfl

/-! ## What a sync records -/

def ownUpdates (id : String) (updates : List OrderStatusUpdate) : List OrderStatusUpdate :=
  updates.filter fun u ↦ u.orderId = id

variable {updates : List OrderStatusUpdate} {answers : PendingOrder → Option OpenOrder}
  {state : GitState} {hashedAt now : Timestamp}

theorem sync_recorded (hid : id ≠ "") :
    lastRow id (g.sync pf updates state hashedAt now).1.commits =
        (((ownUpdates id updates).map syncRow).getLast?).or (lastRow id g.commits) ∧
      orderStatus (g.sync pf updates state hashedAt now).1.commits id =
        (((ownUpdates id updates).map OrderStatusUpdate.currentStatus).head?).or
          (orderStatus g.commits id) := by
  have hown : ∀ u : OrderStatusUpdate, resultId (syncRow u) = some id ↔ u.orderId = id := by
    intro u
    rw [resultId, syncRow, truthy_eq_some]
    constructor
    · rintro ⟨heq, -⟩
      exact Option.some.inj heq
    · rintro rfl
      exact ⟨rfl, hid⟩
  constructor
  · refine (lastRow_concat.trans (if_pos rfl)).trans ?_
    rw [rowsIn, List.filter_map, ownUpdates]
    simp only [Function.comp_def, hown]
  rw [sync, append, orderStatus_concat]
  congr 2
  rw [GitCommit.statusesOf, GitCommit.statuses, ownUpdates]
  dsimp only
  induction updates with
  | nil => rfl
  | cons u rest ih =>
    rw [List.map_cons, List.flatMap_cons, List.filter_append, List.map_append, ih,
      List.filter_cons]
    by_cases hu : u.orderId = id
    · rw [(hown u).mpr hu, decide_eq_true hu, if_pos rfl]
      simp [syncRow]
    have hne : ∀ key, resultId (syncRow u) = some key → key ≠ id := by
      rintro key hkey rfl
      exact hu ((hown u).mp hkey)
    rw [decide_eq_false hu, if_neg (by decide)]
    cases hkey : resultId (syncRow u) with
    | none => simp [syncRow]
    | some key => simp [syncRow, hne key hkey]

theorem ownUpdates_updatesOf : ownUpdates id (updatesOf commits answers) =
    ((getPendingOrderIds commits).filter fun p ↦ p.orderId = id).filterMap
      fun p ↦ (answers p).bind (updateOf p) := by
  rw [updatesOf, ownUpdates]
  induction getPendingOrderIds commits with
  | nil => rfl
  | cons p rest ih =>
    rw [List.filterMap_cons, List.filter_cons]
    cases hu : (answers p).bind (updateOf p) with
    | none =>
      dsimp only
      split_ifs
      · rw [List.filterMap_cons, hu, ih]
      · exact ih
    | some u =>
      obtain ⟨o, -, ho⟩ := Option.bind_eq_some_iff.mp hu
      dsimp only
      rw [List.filter_cons, updateOf_orderId ho]
      split_ifs
      · rw [List.filterMap_cons, hu, ih]
      · exact ih

theorem pending_filter_of_submitted (h : orderStatus commits id = some .submitted) :
    ∃ p, ((getPendingOrderIds commits).filter fun p ↦ p.orderId = id) = [p] ∧ p.orderId = id := by
  obtain ⟨p, hp, hpid⟩ := List.mem_map.mp (mem_pending_iff.mpr h)
  have hnodup : ((getPendingOrderIds commits).map PendingOrder.orderId).Nodup :=
    nodup_foldl_addPending List.nodup_nil
  obtain ⟨before, after, heq⟩ := List.append_of_mem hp
  rw [heq, List.map_append, List.map_cons, List.nodup_middle, List.nodup_cons, List.mem_append,
    not_or, hpid] at hnodup
  have hnone : ∀ l : List PendingOrder, id ∉ l.map PendingOrder.orderId →
      (l.filter fun p ↦ p.orderId = id) = [] := by
    intro l hl
    refine List.filter_eq_nil_iff.mpr fun p' hp' hid ↦ hl ?_
    exact of_decide_eq_true hid ▸ List.mem_map_of_mem hp'
  refine ⟨p, ?_, hpid⟩
  rw [heq, List.filter_append, List.filter_cons, if_pos (decide_eq_true hpid),
    hnone before hnodup.1.1, hnone after hnodup.1.2]
  rfl

theorem pending_filter_of_ended (h : orderStatus commits id ≠ some .submitted) :
    ((getPendingOrderIds commits).filter fun p ↦ p.orderId = id) = [] := by
  refine List.filter_eq_nil_iff.mpr fun p hp hid ↦ h (mem_pending_iff.mp ?_)
  exact of_decide_eq_true hid ▸ List.mem_map_of_mem hp

/-! ## A run -/

theorem polls_collect {cfg : PassConfig} {S : Shared} {i : Nat} (candidates : List PendingOrder) :
    ∀ updates, candidates.foldlM
        (fun (q : Shared × PassTask) p ↦ resume cfg q.1 i q.2 (.order (answers p)))
        (poll S candidates updates) =
      some (poll S [] (updates ++ candidates.filterMap fun p ↦ (answers p).bind (updateOf p))) := by
  induction candidates with
  | nil =>
    intro updates
    rw [List.filterMap_nil, List.append_nil]
    rfl
  | cons p rest ih =>
    intro updates
    rw [List.foldlM_cons, List.filterMap_cons]
    cases hanswer : answers p with
    | none => exact ih updates
    | some o =>
      refine (ih (updates ++ (updateOf p o).toList)).trans ?_
      rw [Option.bind_some]
      cases updateOf p o with
      | none => rw [Option.toList_none, List.append_nil]
      | some u => rw [Option.toList_some, List.append_assoc, List.singleton_append]

/-- The log, when the first state that ended the order is this. -/
def Seen (v : Venue Raw) (id : String) (g : TradingGit) : Option Raw → Prop
  | none => orderStatus g.commits id = some .submitted
  | some first => orderStatus g.commits id ≠ some .submitted ∧
      ∃ row, lastRow id g.commits = some row ∧
        row.filledQty = stripUnset (v.openOrder first).order.filledQuantity ∧
        row.filledPrice = (v.openOrder first).avgFillPrice

theorem Seen.congr {g' : TradingGit} {seen : Option Raw} (h : Seen v id g seen)
    (hrow : lastRow id g'.commits = lastRow id g.commits)
    (hstatus : orderStatus g'.commits id = orderStatus g.commits id) : Seen v id g' seen := by
  cases seen with
  | none => exact hstatus.trans h
  | some first =>
    rw [Seen, hrow, hstatus]
    exact h

theorem apply_synced (v : Venue Raw) (pf : Platform) (g : TradingGit) (hid : id ≠ "")
    (raw : Option Raw) (others : PendingOrder → Option OpenOrder) (state : GitState)
    (hashedAt now : Timestamp) :
    let own := ownUpdates id (updatesOf g.commits (answered v id raw others))
    let g' := LogEvent.apply v pf id g (.synced raw others state hashedAt now)
    lastRow id g'.commits = ((own.map syncRow).getLast?).or (lastRow id g.commits) ∧
      orderStatus g'.commits id =
        ((own.map OrderStatusUpdate.currentStatus).head?).or (orderStatus g.commits id) := by
  intro own g'
  cases hupdates : updatesOf g.commits (answered v id raw others) with
  | nil =>
    have hg : g' = g := by simp only [g', LogEvent.apply, hupdates]
    have hown : own = [] := by simp only [own, hupdates, ownUpdates, List.filter_nil]
    rw [hg, hown]
    exact ⟨rfl, rfl⟩
  | cons u rest =>
    have hg : g' = (g.sync pf (u :: rest) state hashedAt now).1 := by
      simp only [g', LogEvent.apply, hupdates]
    have hown : own = ownUpdates id (u :: rest) := congrArg _ hupdates
    rw [hg, hown]
    exact sync_recorded hid

theorem Seen.step (hid : id ≠ "") {seen : Option Raw} (h : Seen v id g seen) (e : LogEvent Raw)
    (hapart : ∀ c, e = .other c → id ∉ c.results.flatMap resultIds) :
    Seen v id (e.apply v pf id g) (seen.or ((states [e]).find? (ended v))) := by
  cases e with
  | other c =>
    obtain ⟨hrows, hstatuses⟩ := unrelated (hapart c rfl)
    refine Option.or_none ▸ h.congr ?_ ?_
    · rw [LogEvent.apply, lastRow_concat, hrows]
      exact ite_self _
    · rw [LogEvent.apply, orderStatus_concat, hstatuses]
      rfl
  | synced raw others state hashedAt now =>
    obtain ⟨hrow, hstatus⟩ := apply_synced v pf g hid raw others state hashedAt now
    rw [ownUpdates_updatesOf] at hrow hstatus
    cases seen with
    | some first =>
      rw [pending_filter_of_ended h.1] at hrow hstatus
      exact h.congr hrow hstatus
    | none =>
      obtain ⟨p, hpending, hp⟩ := pending_filter_of_submitted h
      rw [hpending, List.filterMap_cons, answered, if_pos hp] at hrow hstatus
      cases raw with
      | none => exact h.congr hrow hstatus
      | some raw =>
        rw [Option.map_some, Option.bind_some] at hrow hstatus
        by_cases hend : ended v raw
        · have hworking := of_decide_eq_true hend
          rw [List.mem_pair] at hworking
          rw [updateOf, if_neg hworking] at hrow hstatus
          rw [show (states [LogEvent.synced (some raw) others state hashedAt now]).find? (ended v) =
            some raw from List.find?_cons_of_pos hend]
          refine ⟨fun hsub ↦ ?_, _, hrow, rfl, rfl⟩
          rw [hstatus] at hsub
          have hsub := Option.some.inj hsub
          dsimp only at hsub
          split_ifs at hsub
        · have hworking := of_decide_eq_false (Bool.eq_false_iff.mpr hend)
          rw [Decidable.not_not, List.mem_pair] at hworking
          rw [updateOf, if_pos hworking] at hrow hstatus
          rw [show (states [LogEvent.synced (some raw) others state hashedAt now]).find? (ended v) =
            none from List.find?_cons_of_neg hend]
          exact h.congr hrow hstatus

theorem Seen.run (hid : id ≠ "") : ∀ {events : List (LogEvent Raw)} {g : TradingGit}
    {seen : Option Raw}, Seen v id g seen → Apart id events →
    Seen v id (afterEvents v pf id g events) (seen.or ((states events).find? (ended v)))
  | [], _, _, h, _ => Option.or_none.symm ▸ h
  | e :: rest, g, seen, h, hapart => by
    have hstep : Seen v id (e.apply v pf id g) _ :=
      h.step hid e fun c hc ↦ hapart c (hc ▸ .head _)
    have hrun := Seen.run hid hstep fun c hc ↦ hapart c (.tail _ hc)
    have hstates : states (e :: rest) = states [e] ++ states rest :=
      List.filterMap_append (l := [e])
    rw [hstates, List.find?_append, ← Option.or_assoc]
    exact hrun

theorem fillKept_iff (hid : id ≠ "") (hopen : orderStatus g.commits id = some .submitted)
    (hfinal : ∀ raw, v.final raw → ended v raw) {events : List (LogEvent Raw)}
    (hapart : Apart id events) :
    FillKept v pf id g events ↔
      ∀ first final qty, (states events).find? (ended v) = some first →
        (states events).getLast? = some final → v.final final → v.executed final = some qty →
        0 < qty → stripUnset (v.openOrder first).order.filledQuantity = some qty ∧
          (v.openOrder first).avgFillPrice = v.averagePrice final := by
  have hseen : Seen v id (afterEvents v pf id g events) ((states events).find? (ended v)) :=
    Seen.run hid (show Seen v id g none from hopen) hapart
  constructor
  · intro h first final qty hfirst hlast hfin hqty hpos
    obtain ⟨row, hrow, hfilled, hprice⟩ := h final qty hlast hfin hqty hpos
    rw [hfirst] at hseen
    obtain ⟨-, row', hrow', hfilled', hprice'⟩ := hseen
    obtain rfl : row' = row := Option.some.inj (hrow'.symm.trans hrow)
    exact ⟨hfilled'.symm.trans hfilled, hprice'.symm.trans hprice⟩
  · intro h final qty hlast hfin hqty hpos
    cases hfirst : (states events).find? (ended v) with
    | none =>
      have hmem := List.mem_of_getLast? hlast
      exact absurd (hfinal final hfin) (List.find?_eq_none.mp hfirst final hmem)
    | some first =>
      rw [hfirst] at hseen
      obtain ⟨-, row, hrow, hfilled, hprice⟩ := hseen
      obtain ⟨hstripped, haverage⟩ := h first final qty hfirst hlast hfin hqty hpos
      exact ⟨row, hrow, hfilled.trans hstripped, hprice.trans haverage⟩

theorem alpaca_final (o : AlpacaOrderRaw) (h : alpaca.final o) : ended alpaca o := by
  obtain ⟨status, qty, price⟩ := o
  have hmem : status ∈ ["filled", "canceled", "expired"] := of_decide_eq_true h
  simp only [List.mem_cons, List.not_mem_nil, or_false] at hmem
  rcases hmem with rfl | rfl | rfl <;> rfl

theorem ccxt_final (o : Ccxt.CcxtOrder) (h : ccxt.final o) : ended ccxt o := by
  have hmem : o.status ∈ [some "closed", some "canceled", some "cancelled", some "expired"] :=
    of_decide_eq_true h
  simp only [List.mem_cons, List.not_mem_nil, or_false] at hmem
  refine decide_eq_true ?_
  rcases hmem with hs | hs | hs | hs <;>
    simp [ccxt, reported, hs, Ccxt.mapOrderStatus]

theorem longbridge_final (o : LongbridgeOrderLike) (h : longbridge.final o) :
    ended longbridge o := by
  obtain ⟨status, qty, price⟩ := o
  have hmem : status ∈ [5, 15, 16] := of_decide_eq_true h
  simp only [List.mem_cons, List.not_mem_nil, or_false] at hmem
  rcases hmem with rfl | rfl | rfl <;> rfl

theorem futu_final (o : FutuOrderLike) (h : futu.final o) : ended futu o := by
  obtain ⟨status, qty, price⟩ := o
  have hmem : status ∈ [.filledAll, .cancelledPart, .cancelledAll] := of_decide_eq_true h
  simp only [List.mem_cons, List.not_mem_nil, or_false] at hmem
  rcases hmem with rfl | rfl | rfl <;> rfl

/-- **When fills survive the adapters.**  On Alpaca, CCXT and Futu, when the first state that ends
the order in the log reports what the last one does; on Longbridge, when nothing was executed. -/
theorem fills_survive_iff (pf : Platform) {g : TradingGit} {id : String} (hid : id ≠ "")
    (hopen : orderStatus g.commits id = some .submitted) :
    (∀ events, Apart id events → (FillKept alpaca pf id g events ↔ FirstEndIsLast alpaca events)) ∧
      (∀ events, Apart id events → (FillKept ccxt pf id g events ↔ FirstEndIsLast ccxt events)) ∧
      (∀ events, Apart id events → (FillKept futu pf id g events ↔ FirstEndIsLast futu events)) ∧
      ∀ events, Apart id events → (FillKept longbridge pf id g events ↔
        ∀ final, (states events).getLast? = some final → longbridge.final final →
          final.executedQuantity ≤ 0) := by
  refine ⟨fun _ hapart ↦ fillKept_iff hid hopen alpaca_final hapart,
    fun _ hapart ↦ fillKept_iff hid hopen ccxt_final hapart,
    fun _ hapart ↦ fillKept_iff hid hopen futu_final hapart, fun events hapart ↦ ?_⟩
  rw [fillKept_iff hid hopen longbridge_final hapart]
  constructor
  · intro h final hlast hfin
    by_contra hpos
    cases hfirst : (states events).find? (ended longbridge) with
    | none =>
      exact List.find?_eq_none.mp hfirst final (List.mem_of_getLast? hlast)
        (longbridge_final final hfin)
    | some first =>
      exact nomatch (h first final _ hfirst hlast hfin rfl (not_le.mp hpos)).1
  · intro h first final qty _ hlast hfin hqty hpos
    cases hqty
    exact absurd hpos (not_lt.mpr (h final hlast hfin))

def placedLog : TradingGit where
  commits := [
    { hash := "00000000", parentHash := none, message := "buy",
      operations := [.placeOrder sampleContract { action := some "BUY" } none],
      results := [
        { action := .placeOrder, success := true, orderId := some "1", status := .submitted }],
      stateAfter := {}, timestamp := 1, round := none }]

def seeing {Raw : Type} (raw : Raw) : LogEvent Raw := .synced (some raw) (fun _ ↦ none) {} 2 2

theorem fills_survive_a_part :
    FillKept alpaca constPlatform "1" placedLog
      [seeing ⟨"partially_filled", some 4, some 10⟩, seeing ⟨"filled", some 10, some 11⟩] := by
  refine ((fills_survive_iff constPlatform (by decide) (by decide)).1 _
    (by simp [Apart, seeing])).mpr ?_
  intro first final qty hfirst hlast _ hqty _
  obtain rfl := Option.some.inj hfirst
  obtain rfl := Option.some.inj hlast
  obtain rfl := Option.some.inj hqty
  exact ⟨by decide, rfl⟩

/-- A fill through Longbridge is recorded without its quantity, and what an order of Alpaca executes
after a pause is not recorded. -/
theorem fills_are_lost :
    ¬ FillKept longbridge constPlatform "1" placedLog [seeing ⟨5, 100, some 10⟩] ∧
      ¬ FillKept alpaca constPlatform "1" placedLog
        [seeing ⟨"done_for_day", some 4, some 10⟩, seeing ⟨"filled", some 10, some 11⟩] := by
  constructor
  · rw [fillKept_iff (by decide) (by decide) longbridge_final (by simp [Apart, seeing])]
    intro h
    exact nomatch (h _ _ 100 rfl rfl rfl rfl (by decide)).1
  rw [fillKept_iff (by decide) (by decide) alpaca_final (by simp [Apart, seeing])]
  intro h
  have hqty := (h ⟨"done_for_day", some 4, some 10⟩ _ 10 rfl rfl rfl rfl (by decide)).1
  exact absurd hqty (by decide)

end OpenAlice.Trading.Brokers
