import OpenAlice.Run.Basic
import OpenAlice.Trading.Brokers.MockBroker

/-!
# Positions and matching of the simulated exchange

Two things should hold of every run: every position has a positive quantity and a finite average
cost, and after a mark price is set the only order that it triggers and that still waits is the one
that could not be filled, if there is one.

What a fill needs and what it leaves is decided by the side and the quantity of what lies under its
key, a `Slot`.  So both can be told before a call:

* a market order has to be `Sized`: it opens nothing, and adds up to nothing, that is not positive.
  An order that is sized by cash has no quantity, and is filled with none;
* the orders that a mark price triggers have to fit one after another, `Fit`, up to the last: the
  fill that fails throws out of the loop, and the orders after it are not looked at.
-/

namespace OpenAlice.Trading.Brokers.MockBroker

open Data Run

variable (R : Rounding Decimal) (js : Js) (toFixed : Decimal → String)

/-! ## Slots -/

abbrev Slot := Option (Side × Decimal)

def slotAt (s : MockBroker) (key : String) : Slot :=
  (s.positions.lookup key).map fun pos ↦ (pos.side, pos.quantity)

def Adds (held : Side) (side : String) : Prop :=
  held = .long ∧ side = "BUY" ∨ held = .short ∧ side = "SELL"

instance (held : Side) (side : String) : Decidable (Adds held side) :=
  inferInstanceAs (Decidable (_ ∨ _))

def Fits (side : String) (qty : Decimal) : Slot → Prop
  | none => side ≠ "SELL"
  | some (held, quantity) => Adds held side ∨ qty ≤ quantity

instance (side : String) (qty : Decimal) : (slot : Slot) → Decidable (Fits side qty slot)
  | none => inferInstanceAs (Decidable (_ ≠ _))
  | some _ => inferInstanceAs (Decidable (_ ∨ _))

def nextSlot (side : String) (qty : Decimal) : Slot → Slot
  | none => some (.long, qty)
  | some (held, quantity) =>
    if Adds held side then some (held, R.round (quantity + qty))
    else if R.round (quantity - qty) = 0 then none
    else some (held, R.round (quantity - qty))

/-- What a fill opens or adds up to is positive. -/
def Sized (side : String) (qty : Decimal) : Slot → Prop
  | none => side = "SELL" ∨ 0 < qty
  | some (held, quantity) => Adds held side → 0 < quantity + qty

instance (side : String) (qty : Decimal) : (slot : Slot) → Decidable (Sized side qty slot)
  | none => inferInstanceAs (Decidable (_ ∨ _))
  | some _ => inferInstanceAs (Decidable (_ → _))

def Fillable (order : String × Decimal) (slot : Slot) : Prop :=
  0 < order.2 ∧ Fits order.1 order.2 slot

instance (order : String × Decimal) (slot : Slot) : Decidable (Fillable order slot) :=
  inferInstanceAs (Decidable (_ ∧ _))

/-- Orders that can be filled one after another, up to the last. -/
def Fit : List (String × Decimal) → Slot → Prop
  | [], _ => True
  | order :: rest, slot =>
    if Fillable order slot then Fit rest (nextSlot R order.1 order.2 slot) else rest = []

instance decidableFit : (orders : List (String × Decimal)) → (slot : Slot) →
    Decidable (Fit R orders slot)
  | [], _ => isTrue trivial
  | order :: rest, slot =>
    haveI := decidableFit rest (nextSlot R order.1 order.2 slot)
    inferInstanceAs (Decidable (if Fillable order slot then
      Fit R rest (nextSlot R order.1 order.2 slot) else rest = []))

section Slots

variable {R} {toFixed} {s t : MockBroker} {contract : BrokerContract} {side : String}
  {qty price : Decimal}

theorem slotAt_of_some {key : String} {pos : InternalPosition}
    (h : s.positions.lookup key = some pos) : s.slotAt key = some (pos.side, pos.quantity) := by
  rw [slotAt, h]
  rfl

theorem slotAt_of_none {key : String} (h : s.positions.lookup key = none) :
    s.slotAt key = none := by
  rw [slotAt, h]
  rfl

theorem slotAt_putPosition (key : String) (pos : InternalPosition) :
    (s.putPosition key pos).slotAt key = some (pos.side, pos.quantity) :=
  slotAt_of_some (lookup_setKey_self _)

theorem Filled.slotAt (h : s.Filled R contract side qty price t) :
    t.slotAt (getNativeKey contract) = nextSlot R side qty (s.slotAt (getNativeKey contract)) := by
  cases h with
  | opens hnone hne => rw [slotAt_putPosition, slotAt_of_none hnone, nextSlot]
  | @adds pos hsome hinc =>
    have hadds : Adds pos.side side := hinc
    rw [slotAt_putPosition, slotAt_of_some hsome, nextSlot, if_pos hadds]
    rfl
  | @closes pos hsome hred hzero =>
    have hadds : ¬ Adds pos.side side := hred
    rw [slotAt_of_some hsome, nextSlot, if_neg hadds, if_pos hzero]
    exact slotAt_of_none (lookup_deleteKey_self _)
  | @reduces pos hsome hred hpos =>
    have hadds : ¬ Adds pos.side side := hred
    rw [slotAt_putPosition, slotAt_of_some hsome, nextSlot, if_neg hadds, if_neg hpos.ne']

/-- **A fill succeeds** if and only if it fits what lies under its key. -/
theorem applyFill_isOk_iff : (∃ t, s.applyFill R toFixed contract side qty price = .ok t) ↔
      Fits side qty (s.slotAt (getNativeKey contract)) := by
  constructor
  · rintro ⟨t, ht⟩
    cases applyFill_ok _ _ _ ht with
    | opens hnone hne =>
      rw [slotAt_of_none hnone]
      exact hne
    | adds hsome hinc =>
      rw [slotAt_of_some hsome]
      exact .inl hinc
    | closes hsome hred hzero =>
      rw [slotAt_of_some hsome]
      exact .inr (sub_eq_zero.mp (R.round_eq_zero_iff.mp hzero)).ge
    | @reduces pos hsome hred hpos =>
      rw [slotAt_of_some hsome]
      refine .inr (le_of_not_gt fun hlt ↦ ?_)
      exact absurd (R.round_nonpos (sub_nonpos.mpr hlt.le)) (not_le.mpr hpos)
  · intro hfits
    simp only [applyFill]
    cases hlookup : s.positions.lookup (getNativeKey contract) with
    | none =>
      rw [slotAt_of_none hlookup] at hfits
      exact ⟨_, if_neg hfits⟩
    | some pos =>
      rw [slotAt_of_some hlookup] at hfits
      by_cases hinc : pos.Increasing side
      · exact ⟨_, if_pos hinc⟩
      have hle : qty ≤ pos.quantity := hfits.resolve_left hinc
      have hneg : ¬ R.round (pos.quantity - qty) < 0 :=
        not_lt.mpr (R.round_nonneg (sub_nonneg.mpr hle))
      simp only [if_neg hinc, if_neg hneg]
      split_ifs
      · exact ⟨_, rfl⟩
      · exact ⟨_, rfl⟩

end Slots

/-! ## Matching -/

def sizing (internal : InternalOrder) : String × Decimal :=
  (js.toUpperCase internal.order.action, internal.order.totalQuantity)

def triggeredSizes (nativeKey : String) (price : Decimal) (ids : List String) (s : MockBroker) :
    List (String × Decimal) :=
  ids.filterMap fun orderId ↦
    ((s.orders.lookup orderId).filter fun o ↦ Touched js nativeKey price o).map (sizing js)

def Waits (nativeKey : String) (price : Decimal) (s : MockBroker) (orderId : String) : Prop :=
  ∃ o, s.orders.lookup orderId = some o ∧ Touched js nativeKey price o

/-- Of some orders, the only one that is triggered and still waits is one that cannot be filled. -/
def CompleteOn (nativeKey : String) (price : Decimal) (ids : List String) (s : MockBroker) : Prop :=
  ∀ orderId ∈ ids, Waits js nativeKey price s orderId →
    (∃ e, s.fillOrder R js toFixed orderId (some price) none = .error e) ∧
      ∀ other ∈ ids, Waits js nativeKey price s other → other = orderId

/-- **Matching is complete**: there is at most one order that is triggered and still waits, and it
cannot be filled. -/
def Complete (nativeKey : String) (price : Decimal) (s : MockBroker) : Prop :=
  CompleteOn R js toFixed nativeKey price (s.orders.map Prod.fst) s

structure Takes (nativeKey : String) (price : Decimal) (s : MockBroker) (orderId : String)
    (o : InternalOrder) (u : MockBroker) : Prop where
  slot : u.slotAt nativeKey = nextSlot R (sizing js o).1 (sizing js o).2 (s.slotAt nativeKey)
  orders : u.orders = setKey s.orders orderId (o.filled R o.order.totalQuantity price)

section Matching

variable {R js toFixed} {nativeKey : String} {price : Decimal} {s t : MockBroker}
  {orderId : String} {o : InternalOrder}

theorem filter_touched_eq_some :
    (s.orders.lookup orderId).filter (fun o ↦ Touched js nativeKey price o) = some o ↔
      s.orders.lookup orderId = some o ∧ Touched js nativeKey price o := by
  rw [Option.filter_eq_some_iff, decide_eq_true_iff]

theorem filter_touched_eq_none :
    (s.orders.lookup orderId).filter (fun o ↦ Touched js nativeKey price o) = none ↔
      ¬ Waits js nativeKey price s orderId := by
  rw [Option.eq_none_iff_forall_ne_some]
  constructor
  · rintro h ⟨o, ho⟩
    exact h o (filter_touched_eq_some.mpr ho)
  · intro h o ho
    exact h ⟨o, filter_touched_eq_some.mp ho⟩

theorem pending_of_touched (h : s.orders.lookup orderId = some o)
    (ht : Touched js nativeKey price o) : s.pending orderId = some o := by
  rw [pending, h]
  exact Option.filter_eq_some_iff.mpr ⟨rfl, decide_eq_true ht.1⟩

/-- **A triggered order is filled** where it has a size and fits what lies under the key. -/
theorem fillOrder_takes (h : s.orders.lookup orderId = some o)
    (ht : Touched js nativeKey price o) (hfit : Fillable (sizing js o) (s.slotAt nativeKey)) :
    ∃ u, s.fillOrder R js toFixed orderId (some price) none = .ok u ∧
      Takes R js nativeKey price s orderId o u := by
  obtain ⟨hpos, hfits⟩ := hfit
  rw [← ht.2.1] at hfits
  have hok : ∃ t, s.applyFill R toFixed o.contract (js.toUpperCase o.order.action)
      o.order.totalQuantity price = .ok t := applyFill_isOk_iff.mpr hfits
  obtain ⟨t, hfill⟩ := hok
  have hfilled := applyFill_ok _ _ _ hfill
  refine ⟨_, fillOrder_of_ok R js toFixed s (pending_of_touched h ht) hpos hfill, ?_, ?_⟩
  · have hslot := hfilled.slotAt
    rw [ht.2.1] at hslot
    exact hslot
  · rw [hfilled.frame]
    rfl

theorem fillOrder_fails (h : s.orders.lookup orderId = some o) (ht : Touched js nativeKey price o)
    (hnot : ¬ Fillable (sizing js o) (s.slotAt nativeKey)) :
    ∃ e, s.fillOrder R js toFixed orderId (some price) none = .error e := by
  cases hu : s.fillOrder R js toFixed orderId (some price) none with
  | error e => exact ⟨e, rfl⟩
  | ok u =>
    obtain ⟨internal, t, hinternal, hpos, -, hfill, -⟩ := fillOrder_ok _ _ _ _ hu
    obtain rfl : o = internal := Option.some.inj ((pending_of_touched h ht).symm.trans hinternal)
    have hfits := applyFill_isOk_iff.mp ⟨t, hfill⟩
    rw [ht.2.1] at hfits
    exact absurd ⟨hpos, hfits⟩ hnot

namespace Takes

variable {u : MockBroker}

theorem not_waits (h : Takes R js nativeKey price s orderId o u) :
    ¬ Waits js nativeKey price u orderId := by
  rintro ⟨filled, hfilled, ht⟩
  rw [h.orders, lookup_setKey_self] at hfilled
  obtain rfl := Option.some.inj hfilled
  have hstatus : (o.filled R o.order.totalQuantity price).status = "Filled" := by
    simp only [InternalOrder.filled, if_neg (lt_irrefl o.order.totalQuantity)]
  rw [Touched, hstatus] at ht
  exact absurd ht.1 (by decide)

theorem lookup_of_ne (h : Takes R js nativeKey price s orderId o u) {other : String}
    (hne : other ≠ orderId) : u.orders.lookup other = s.orders.lookup other := by
  rw [h.orders, lookup_setKey_of_ne hne]

theorem keys (h : Takes R js nativeKey price s orderId o u)
    (ho : s.orders.lookup orderId = some o) :
    u.orders.map Prod.fst = s.orders.map Prod.fst := by
  rw [h.orders]
  exact keys_setKey_of_mem (List.mem_map_of_mem (mem_of_lookup ho))

end Takes

theorem waits_congr {u : MockBroker} {other : String}
    (h : u.orders.lookup other = s.orders.lookup other) :
    Waits js nativeKey price u other ↔ Waits js nativeKey price s other := by
  rw [Waits, Waits, h]

variable (R js toFixed nativeKey price s orderId)

/-- What the loop does at an order: it passes over one that does not wait, it ends at one that
cannot be filled, and goes on after a fill. -/
inductive Visit : Option MockBroker → Prop
  | passes (h : ¬ Waits js nativeKey price s orderId) : Visit (some s)
  | ends {o : InternalOrder} (ho : s.orders.lookup orderId = some o)
      (ht : Touched js nativeKey price o) (hfit : ¬ Fillable (sizing js o) (s.slotAt nativeKey))
      (herror : ∃ e, s.fillOrder R js toFixed orderId (some price) none = .error e) : Visit none
  | takes {o : InternalOrder} {u : MockBroker} (ho : s.orders.lookup orderId = some o)
      (ht : Touched js nativeKey price o) (hfit : Fillable (sizing js o) (s.slotAt nativeKey))
      (htakes : Takes R js nativeKey price s orderId o u) : Visit (some u)

theorem matchOrders_cons (ids filled : List String) :
    ∃ next filled', Visit R js toFixed nativeKey price s orderId next ∧
      (matchOrders R js toFixed nativeKey price (orderId :: ids) s filled).1 =
        next.elim s fun u ↦ (matchOrders R js toFixed nativeKey price ids u filled').1 := by
  cases hfilter : (s.orders.lookup orderId).filter fun o ↦ Touched js nativeKey price o with
  | none =>
    refine ⟨some s, filled, .passes (filter_touched_eq_none.mp hfilter), ?_⟩
    simp only [matchOrders, hfilter]
    rfl
  | some o =>
    obtain ⟨ho, ht⟩ := filter_touched_eq_some.mp hfilter
    by_cases hfit : Fillable (sizing js o) (s.slotAt nativeKey)
    · obtain ⟨u, hu, htakes⟩ : ∃ u, s.fillOrder R js toFixed orderId (some price) none = .ok u ∧
          Takes R js nativeKey price s orderId o u := fillOrder_takes ho ht hfit
      refine ⟨some u, filled ++ [orderId], .takes ho ht hfit htakes, ?_⟩
      simp only [matchOrders, hfilter, hu]
      rfl
    · have herror : ∃ e, s.fillOrder R js toFixed orderId (some price) none = .error e :=
        fillOrder_fails ho ht hfit
      refine ⟨none, filled, .ends ho ht hfit herror, ?_⟩
      obtain ⟨e, he⟩ := herror
      simp only [matchOrders, hfilter, he]
      rfl

variable {R js toFixed nativeKey price s orderId}

variable {ids : List String}

theorem lookup_matchOrders {other : String} (h : other ∉ ids) (filled : List String) :
    (matchOrders R js toFixed nativeKey price ids s filled).1.orders.lookup other =
      s.orders.lookup other := by
  induction ids generalizing s filled with
  | nil => rfl
  | cons orderId ids ih =>
    rw [List.mem_cons, not_or] at h
    obtain ⟨next, filled', hvisit, heq⟩ :=
      matchOrders_cons R js toFixed nativeKey price s orderId ids filled
    rw [heq]
    cases hvisit with
    | passes => exact ih h.2 filled'
    | ends => rfl
    | takes ho ht hfit htakes => exact (ih h.2 filled').trans (htakes.lookup_of_ne h.1)

theorem keys_matchOrders (ids filled : List String) :
    (matchOrders R js toFixed nativeKey price ids s filled).1.orders.map Prod.fst =
      s.orders.map Prod.fst := by
  induction ids generalizing s filled with
  | nil => rfl
  | cons orderId ids ih =>
    obtain ⟨next, filled', hvisit, heq⟩ :=
      matchOrders_cons R js toFixed nativeKey price s orderId ids filled
    rw [heq]
    cases hvisit with
    | passes => exact ih filled'
    | ends => rfl
    | takes ho ht hfit htakes => exact (ih filled').trans (htakes.keys ho)

theorem triggeredSizes_congr {u : MockBroker}
    (h : ∀ other ∈ ids, u.orders.lookup other = s.orders.lookup other) :
    triggeredSizes js nativeKey price ids u = triggeredSizes js nativeKey price ids s := by
  refine List.filterMap_congr fun other hother ↦ ?_
  rw [h other hother]

theorem triggeredSizes_eq_nil_iff : triggeredSizes js nativeKey price ids s = [] ↔
      ∀ other ∈ ids, ¬ Waits js nativeKey price s other := by
  rw [triggeredSizes, List.filterMap_eq_nil_iff]
  refine forall₂_congr fun other _ ↦ ?_
  rw [Option.map_eq_none_iff, filter_touched_eq_none]

theorem triggeredSizes_cons_of_not_waits (h : ¬ Waits js nativeKey price s orderId) :
    triggeredSizes js nativeKey price (orderId :: ids) s =
      triggeredSizes js nativeKey price ids s := by
  rw [triggeredSizes, List.filterMap_cons, filter_touched_eq_none.mpr h]
  rfl

theorem triggeredSizes_cons_of_touched
    (ho : s.orders.lookup orderId = some o) (ht : Touched js nativeKey price o) :
    triggeredSizes js nativeKey price (orderId :: ids) s =
      sizing js o :: triggeredSizes js nativeKey price ids s := by
  rw [triggeredSizes, List.filterMap_cons, filter_touched_eq_some.mpr ⟨ho, ht⟩]
  rfl

theorem completeOn_cons_of_not_waits (h : ¬ Waits js nativeKey price t orderId) :
    CompleteOn R js toFixed nativeKey price (orderId :: ids) t ↔
      CompleteOn R js toFixed nativeKey price ids t := by
  constructor
  · intro hcomplete other hother hwaits
    obtain ⟨herror, honly⟩ := hcomplete other (List.mem_cons_of_mem _ hother) hwaits
    exact ⟨herror, fun third hthird ↦ honly third (List.mem_cons_of_mem _ hthird)⟩
  intro hcomplete other hother hwaits
  rcases List.mem_cons.mp hother with rfl | hother
  · exact absurd hwaits h
  obtain ⟨herror, honly⟩ := hcomplete other hother hwaits
  refine ⟨herror, fun third hthird hthirdWaits ↦ ?_⟩
  rcases List.mem_cons.mp hthird with rfl | hthird
  · exact absurd hthirdWaits h
  · exact honly third hthird hthirdWaits

/-- **The loop leaves nothing that it could have filled** if and only if the triggered orders fit
one after another, up to the last. -/
theorem matchOrders_complete_iff (hids : ids.Nodup) (filled : List String) :
    CompleteOn R js toFixed nativeKey price ids
        (matchOrders R js toFixed nativeKey price ids s filled).1 ↔
      Fit R (triggeredSizes js nativeKey price ids s) (s.slotAt nativeKey) := by
  induction ids generalizing s filled with
  | nil => exact iff_of_true (fun other h ↦ absurd h List.not_mem_nil) trivial
  | cons orderId ids ih =>
    rw [List.nodup_cons] at hids
    obtain ⟨hfresh, hids⟩ := hids
    obtain ⟨next, filled', hvisit, heq⟩ :=
      matchOrders_cons R js toFixed nativeKey price s orderId ids filled
    rw [heq]
    cases hvisit with
    | passes h =>
      have hwaits : ¬ Waits js nativeKey price
          (matchOrders R js toFixed nativeKey price ids s filled').1 orderId := by
        rwa [waits_congr (lookup_matchOrders hfresh filled')]
      rw [Option.elim_some, completeOn_cons_of_not_waits hwaits, ih hids filled',
        triggeredSizes_cons_of_not_waits h]
    | @ends o ho ht hfit herror =>
      rw [Option.elim_none, triggeredSizes_cons_of_touched ho ht, Fit, if_neg hfit,
        triggeredSizes_eq_nil_iff]
      constructor
      · intro hcomplete other hother hwaits
        obtain ⟨-, honly⟩ := hcomplete orderId List.mem_cons_self ⟨o, ho, ht⟩
        exact hfresh (honly other (List.mem_cons_of_mem _ hother) hwaits ▸ hother)
      intro hnone other hother hwaits
      rcases List.mem_cons.mp hother with rfl | hother
      · refine ⟨herror, fun third hthird hthirdWaits ↦ ?_⟩
        rcases List.mem_cons.mp hthird with rfl | hthird
        · rfl
        · exact absurd hthirdWaits (hnone third hthird)
      · exact absurd hwaits (hnone other hother)
    | @takes o u ho ht hfit htakes =>
      have hwaits : ¬ Waits js nativeKey price
          (matchOrders R js toFixed nativeKey price ids u filled').1 orderId := by
        rw [waits_congr (lookup_matchOrders hfresh filled')]
        exact htakes.not_waits
      have hsizes : triggeredSizes js nativeKey price ids u =
          triggeredSizes js nativeKey price ids s :=
        triggeredSizes_congr fun other hother ↦
          htakes.lookup_of_ne (ne_of_mem_of_not_mem hother hfresh)
      rw [Option.elim_some, completeOn_cons_of_not_waits hwaits, ih hids filled', hsizes,
        htakes.slot, triggeredSizes_cons_of_touched ho ht, Fit, if_pos hfit]

/-- **`setMarkPrice` is complete** if and only if the orders it triggers fit, up to the last. -/
theorem setMarkPrice_complete_iff (hs : (s.orders.map Prod.fst).Nodup) :
    Complete R js toFixed nativeKey price (s.setMarkPrice R js toFixed nativeKey price).1 ↔
      Fit R (triggeredSizes js nativeKey price (s.orders.map Prod.fst) s) (s.slotAt nativeKey) := by
  have hkeys : (s.setMarkPrice R js toFixed nativeKey price).1.orders.map Prod.fst =
      s.orders.map Prod.fst := keys_matchOrders _ _
  rw [Complete, hkeys]
  exact matchOrders_complete_iff (s := s.putMark nativeKey price) hs []

end Matching

/-! ## Well-formed positions -/

def WellFormed (s : MockBroker) : Prop :=
  ∀ entry ∈ s.positions, 0 < entry.2.quantity ∧ entry.2.avgCost.isSome = true

instance (s : MockBroker) : Decidable s.WellFormed :=
  inferInstanceAs (Decidable (∀ entry ∈ s.positions, _ ∧ _))

def Call.Listed : Call → Prop
  | .placeOrder .. | .closePosition .. | .modifyOrder .. | .cancelOrder .. | .fillOrder ..
  | .externalDeposit .. | .externalWithdraw .. | .externalTrade .. | .setMarkPrice .. => True
  | _ => False

def SizedOrder (s : MockBroker) (contract : BrokerContract) (order : BrokerOrder) : Prop :=
  order.orderType = "MKT" →
    Sized (js.toUpperCase order.action) (sizeOf order) (s.slotAt (getNativeKey contract))

instance (s : MockBroker) (contract : BrokerContract) (order : BrokerOrder) :
    Decidable (SizedOrder js s contract order) :=
  inferInstanceAs (Decidable (_ → _))

/-- **The condition on a call**: a market order is sized, and the orders that a mark price triggers
fit one after another, up to the last. -/
def Clean (s : MockBroker) : Call → Prop
  | .placeOrder contract order => SizedOrder js s contract order
  | .closePosition contract quantity =>
    ∀ pos ∈ s.positions.lookup (getNativeKey contract),
      SizedOrder js s pos.contract (closingOrder pos quantity)
  | .setMarkPrice nativeKey price =>
    Fit R (triggeredSizes js nativeKey price (s.orders.map Prod.fst) s) (s.slotAt nativeKey)
  | _ => True

instance (s : MockBroker) : (call : Call) → Decidable (Clean R js s call)
  | .placeOrder contract order => inferInstanceAs (Decidable (SizedOrder js s contract order))
  | .closePosition contract quantity =>
    inferInstanceAs (Decidable (∀ pos ∈ s.positions.lookup (getNativeKey contract),
      SizedOrder js s pos.contract (closingOrder pos quantity)))
  | .setMarkPrice nativeKey price =>
    inferInstanceAs (Decidable (Fit R
      (triggeredSizes js nativeKey price (s.orders.map Prod.fst) s) (s.slotAt nativeKey)))
  | .modifyOrder .. | .cancelOrder .. | .fillOrder .. | .externalDeposit .. | .externalWithdraw ..
  | .externalTrade .. | .tickPrice .. | .cancelPendingOrder .. | .setPositions .. | .setOrders ..
  | .setAccountInfo .. => isTrue trivial

/-- **What should hold after a call**: the positions are well formed, and after a mark price is set
matching is complete. -/
def Faithful (s : MockBroker) (call : Call) : Prop :=
  (s.step R js toFixed call).WellFormed ∧
    ∀ nativeKey price, call = .setMarkPrice nativeKey price →
      Complete R js toFixed nativeKey price (s.step R js toFixed call)

def OrdersDistinct (s : MockBroker) : Prop := (s.orders.map Prod.fst).Nodup

def next (s : MockBroker) (call : Call) : Option MockBroker := some (s.step R js toFixed call)

section WellFormed

variable {R js toFixed} {s t : MockBroker} {contract : BrokerContract} {side : String}
  {qty price : Decimal} {nativeKey : String}

variable {key : String}

theorem wellFormed_putPosition {pos : InternalPosition} (hs : s.WellFormed)
    (hpos : 0 < pos.quantity) (havg : pos.avgCost.isSome = true) :
    (s.putPosition key pos).WellFormed := by
  intro entry hentry
  rcases mem_setKey hentry with rfl | hentry
  · exact ⟨hpos, havg⟩
  · exact hs entry hentry

theorem wellFormed_dropPosition (hs : s.WellFormed) : (s.dropPosition key).WellFormed :=
  fun entry hentry ↦ hs entry (List.mem_of_mem_filter hentry)

theorem WellFormed.of_lookup {pos : InternalPosition} (hs : s.WellFormed)
    (h : s.positions.lookup key = some pos) : 0 < pos.quantity ∧ pos.avgCost.isSome = true :=
  hs (key, pos) (mem_of_lookup h)

theorem WellFormed.pos_of_slot {held : Side} {quantity : Decimal}
    (hs : s.WellFormed) (h : s.slotAt key = some (held, quantity)) : 0 < quantity := by
  obtain ⟨pos, hpos, heq⟩ := Option.map_eq_some_iff.mp h
  cases heq
  exact (hs.of_lookup hpos).1

theorem Filled.wellFormed_iff (h : s.Filled R contract side qty price t) (hs : s.WellFormed) :
    t.WellFormed ↔ Sized side qty (s.slotAt (getNativeKey contract)) := by
  cases h with
  | opens hnone hne =>
    rw [slotAt_of_none hnone]
    constructor
    · intro ht
      exact .inr (ht.of_lookup (lookup_setKey_self _)).1
    · intro hsized
      exact wellFormed_putPosition hs (hsized.resolve_left hne) rfl
  | @adds pos hsome hinc =>
    rw [slotAt_of_some hsome]
    constructor
    · intro ht _
      have hpos : 0 < R.round (pos.quantity + qty) := (ht.of_lookup (lookup_setKey_self _)).1
      by_contra hnot
      exact absurd (R.round_nonpos (not_lt.mp hnot)) (not_le.mpr hpos)
    intro hsized
    have hpos : 0 < R.round (pos.quantity + qty) := R.round_pos (hsized hinc)
    refine wellFormed_putPosition hs hpos ?_
    rw [InternalPosition.increase, if_neg hpos.ne', Option.isSome_map]
    exact (hs.of_lookup hsome).2
  | @closes pos hsome hred hzero =>
    rw [slotAt_of_some hsome]
    exact iff_of_true (wellFormed_dropPosition hs) fun hadds ↦ absurd hadds hred
  | @reduces pos hsome hred hpos =>
    rw [slotAt_of_some hsome]
    refine iff_of_true ?_ fun hadds ↦ absurd hadds hred
    exact wellFormed_putPosition hs hpos (hs.of_lookup hsome).2

theorem sized_of_error {e : String} (h : s.applyFill R toFixed contract side qty price = .error e) :
    Sized side qty (s.slotAt (getNativeKey contract)) := by
  have hnot : ¬ Fits side qty (s.slotAt (getNativeKey contract)) := by
    intro hfits
    have hok : ∃ t, s.applyFill R toFixed contract side qty price = .ok t :=
      applyFill_isOk_iff.mpr hfits
    obtain ⟨t, ht⟩ := hok
    rw [h] at ht
    cases ht
  cases hslot : s.slotAt (getNativeKey contract) with
  | none =>
    rw [hslot] at hnot
    exact .inl (not_not.mp hnot)
  | some slot =>
    rw [hslot] at hnot
    exact fun hadds ↦ absurd (Or.inl hadds) hnot

theorem sized_of_pos (hs : s.WellFormed) (hqty : 0 < qty) : Sized side qty (s.slotAt key) := by
  cases hslot : s.slotAt key with
  | none => exact .inr hqty
  | some slot => exact fun _ ↦ add_pos (hs.pos_of_slot hslot) hqty

theorem applyFill_wellFormed (hs : s.WellFormed) (hqty : 0 < qty)
    (h : s.applyFill R toFixed contract side qty price = .ok t) : t.WellFormed :=
  ((applyFill_ok _ _ _ h).wellFormed_iff hs).mpr (sized_of_pos hs hqty)

theorem placeOrder_wellFormed_iff {order : BrokerOrder} (hs : s.WellFormed) :
    (s.placeOrder R js toFixed contract order).1.WellFormed ↔ SizedOrder js s contract order := by
  by_cases hmkt : order.orderType = "MKT"
  · rw [SizedOrder, forall_prop_of_true hmkt]
    cases ht : s.takeId.applyFill R toFixed contract (js.toUpperCase order.action)
        (sizeOf order) (s.marketPrice contract) with
    | error e =>
      rw [placeOrder_of_error R js toFixed hmkt ht]
      have hsized := sized_of_error ht
      exact iff_of_true hs hsized
    | ok t =>
      rw [placeOrder_of_ok R js toFixed hmkt ht]
      have hfilled := applyFill_ok _ _ _ ht
      have hiff := hfilled.wellFormed_iff hs
      exact hiff
  · rw [placeOrder_waiting R js toFixed hmkt]
    exact iff_of_true hs fun h ↦ absurd h hmkt

theorem fillOrder_wellFormed {orderId : String} {price qty : Option Decimal} {u : MockBroker}
    (hs : s.WellFormed) (h : s.fillOrder R js toFixed orderId price qty = .ok u) :
    u.WellFormed := by
  obtain ⟨internal, t, -, hpos, -, ht, rfl⟩ := fillOrder_ok _ _ _ _ h
  have hwell : t.WellFormed := applyFill_wellFormed hs hpos ht
  exact hwell

theorem setMarkPrice_wellFormed (hs : s.WellFormed) :
    (s.setMarkPrice R js toFixed nativeKey price).1.WellFormed :=
  matchOrders_invariant R js toFixed (fun _ _ _ h hu ↦ fillOrder_wellFormed h hu) _ hs

theorem externalDeposit_wellFormed {part : BrokerContract} (hs : s.WellFormed)
    (h : s.externalDeposit R nativeKey qty part = .ok t) : t.WellFormed := by
  rw [externalDeposit] at h
  split_ifs at h with hqty
  have hpos : 0 < qty := not_le.mp hqty
  split at h
  · next existing hsome =>
      cases h
      obtain ⟨hheld, havg⟩ := hs.of_lookup hsome
      exact wellFormed_putPosition hs (R.round_pos (add_pos hheld hpos)) havg
  · obtain ⟨built, -, rfl⟩ := map_ok h
    exact wellFormed_putPosition hs hpos rfl

theorem externalWithdraw_wellFormed (hs : s.WellFormed)
    (h : s.externalWithdraw R nativeKey qty = .ok t) : t.WellFormed := by
  rw [externalWithdraw] at h
  split at h
  · cases h
  rename_i existing hsome
  simp only at h
  split_ifs at h with hnone
  · cases h
    exact wellFormed_dropPosition hs
  · cases h
    exact wellFormed_putPosition hs (not_le.mp hnone) (hs.of_lookup hsome).2

theorem externalTrade_wellFormed {side : OrderAction} {part : BrokerContract} {u : MockBroker}
    (hs : s.WellFormed) (h : s.externalTrade R toFixed nativeKey side qty price part = .ok u) :
    u.WellFormed := by
  obtain ⟨t, hpos, ht, rfl⟩ := externalTrade_ok _ _ _ h
  rw [tradePosition] at ht
  split at ht
  · obtain ⟨built, -, rfl⟩ := map_ok ht
    exact wellFormed_putPosition hs hpos rfl
  obtain ⟨filled, hfilled, rfl⟩ := map_ok ht
  have hwell := applyFill_wellFormed hs hpos hfilled
  intro entry hentry
  obtain ⟨entry', hentry', rfl⟩ := List.mem_map.mp hentry
  have hentryWell := hwell entry' hentry'
  split_ifs
  · exact hentryWell
  · exact hentryWell

theorem faithful_iff_clean {call : Call} (hs : s.WellFormed) (horders : s.OrdersDistinct)
    (hlisted : call.Listed) :
    Faithful R js toFixed s call ↔ Clean R js s call := by
  have hcalm : (∀ nativeKey price, call ≠ .setMarkPrice nativeKey price) →
      (Faithful R js toFixed s call ↔ (s.step R js toFixed call).WellFormed) := by
    intro hne
    refine and_iff_left_of_imp fun _ nativeKey price heq ↦ ?_
    exact absurd heq (hne nativeKey price)
  cases call with
  | setMarkPrice nativeKey price =>
    have hiff : Complete R js toFixed nativeKey price
        (s.setMarkPrice R js toFixed nativeKey price).1 ↔
          Clean R js s (.setMarkPrice nativeKey price) :=
      setMarkPrice_complete_iff horders
    rw [← hiff]
    constructor
    · intro hfaithful
      exact hfaithful.2 nativeKey price rfl
    intro hcomplete
    refine ⟨setMarkPrice_wellFormed hs, fun nativeKey' price' heq ↦ ?_⟩
    cases heq
    exact hcomplete
  | placeOrder contract order =>
    rw [hcalm fun _ _ h ↦ by cases h]
    exact placeOrder_wellFormed_iff hs
  | closePosition contract quantity =>
    rw [hcalm fun _ _ h ↦ by cases h]
    simp only [step, closePosition, Clean]
    cases hlookup : s.positions.lookup (getNativeKey contract) with
    | none => exact iff_of_true hs fun pos hpos ↦ absurd hpos (Option.not_mem_none pos)
    | some pos =>
      simp only [Option.mem_def, Option.some.injEq, forall_eq']
      exact placeOrder_wellFormed_iff hs
  | modifyOrder orderId changes =>
    rw [hcalm fun _ _ h ↦ by cases h]
    refine iff_of_true ?_ trivial
    rw [step, modifyOrder]
    split
    · exact hs
    · exact hs
  | cancelOrder orderId =>
    rw [hcalm fun _ _ h ↦ by cases h]
    refine iff_of_true ?_ trivial
    rw [step, cancelOrder]
    split
    · exact hs
    · exact hs
  | fillOrder orderId price qty =>
    rw [hcalm fun _ _ h ↦ by cases h]
    exact iff_of_true (unlessThrown_of s hs fun t ht ↦ fillOrder_wellFormed hs ht) trivial
  | externalDeposit nativeKey qty part =>
    rw [hcalm fun _ _ h ↦ by cases h]
    exact iff_of_true
      (unlessThrown_of s hs fun t ht ↦ externalDeposit_wellFormed hs ht) trivial
  | externalWithdraw nativeKey qty =>
    rw [hcalm fun _ _ h ↦ by cases h]
    exact iff_of_true
      (unlessThrown_of s hs fun t ht ↦ externalWithdraw_wellFormed hs ht) trivial
  | externalTrade nativeKey side qty price part =>
    rw [hcalm fun _ _ h ↦ by cases h]
    exact iff_of_true (unlessThrown_of s hs fun t ht ↦ externalTrade_wellFormed hs ht) trivial
  | tickPrice | cancelPendingOrder | setPositions | setOrders | setAccountInfo =>
    exact absurd hlisted not_false

end WellFormed

/-! ## Runs -/

section Runs

variable {R js toFixed} {s t : MockBroker} {contract : BrokerContract} {order : BrokerOrder}

theorem Filled.orders {side : String} {qty price : Decimal}
    (h : s.Filled R contract side qty price t) : t.orders = s.orders := by
  rw [h.frame]

theorem placeOrder_ordersDistinct (hs : s.OrdersDistinct) :
    (s.placeOrder R js toFixed contract order).1.OrdersDistinct := by
  by_cases hmkt : order.orderType = "MKT"
  · cases ht : s.takeId.applyFill R toFixed contract (js.toUpperCase order.action)
        (sizeOf order) (s.marketPrice contract) with
    | error e =>
      rw [placeOrder_of_error R js toFixed hmkt ht]
      exact hs
    | ok t =>
      rw [placeOrder_of_ok R js toFixed hmkt ht]
      have horders : t.orders = s.orders := (applyFill_ok _ _ _ ht).orders
      have hdistinct : t.OrdersDistinct := by rwa [OrdersDistinct, horders]
      exact nodup_setKey hdistinct
  · rw [placeOrder_waiting R js toFixed hmkt]
    exact nodup_setKey hs

theorem step_ordersDistinct {call : Call} (hs : s.OrdersDistinct) (hlisted : call.Listed) :
    (s.step R js toFixed call).OrdersDistinct := by
  cases call with
  | placeOrder contract order => exact placeOrder_ordersDistinct hs
  | closePosition contract quantity =>
    rw [step, closePosition]
    split
    · exact hs
    · exact placeOrder_ordersDistinct hs
  | modifyOrder orderId changes =>
    rw [step, modifyOrder]
    split
    · exact hs
    · exact nodup_setKey hs
  | cancelOrder orderId =>
    rw [step, cancelOrder]
    split
    · exact hs
    · exact nodup_setKey hs
  | setMarkPrice nativeKey price =>
    have hkeys : (s.setMarkPrice R js toFixed nativeKey price).1.orders.map Prod.fst =
        s.orders.map Prod.fst := keys_matchOrders _ _
    rw [step, OrdersDistinct, hkeys]
    exact hs
  | fillOrder orderId price qty =>
    refine unlessThrown_of s hs fun u hu ↦ ?_
    obtain ⟨internal, t, -, -, -, ht, rfl⟩ := fillOrder_ok _ _ _ _ hu
    have horders : t.orders = s.orders := (applyFill_ok _ _ _ ht).orders
    have hdistinct : t.OrdersDistinct := by rwa [OrdersDistinct, horders]
    exact nodup_setKey hdistinct
  | externalDeposit nativeKey qty part =>
    refine unlessThrown_of s hs fun t ht ↦ ?_
    rw [externalDeposit] at ht
    split_ifs at ht
    split at ht
    · cases ht
      exact hs
    · obtain ⟨built, -, rfl⟩ := map_ok ht
      exact hs
  | externalWithdraw nativeKey qty =>
    refine unlessThrown_of s hs fun t ht ↦ ?_
    rw [externalWithdraw] at ht
    split at ht
    · cases ht
    simp only at ht
    split_ifs at ht <;> cases ht
    · exact hs
    · exact hs
  | externalTrade nativeKey side qty price part =>
    refine unlessThrown_of s hs fun u hu ↦ ?_
    obtain ⟨t, -, ht, rfl⟩ := externalTrade_ok _ _ _ hu
    rw [tradePosition] at ht
    split at ht
    · obtain ⟨built, -, rfl⟩ := map_ok ht
      exact hs
    obtain ⟨filled, hfilled, rfl⟩ := map_ok ht
    have horders : filled.orders = s.orders := (applyFill_ok _ _ _ hfilled).orders
    have hdistinct : filled.OrdersDistinct := by rwa [OrdersDistinct, horders]
    exact hdistinct
  | tickPrice | cancelPendingOrder | setPositions | setOrders | setAccountInfo =>
    exact absurd hlisted not_false

theorem execOk_faithful_iff {calls : List Call} (hs : s.WellFormed) (horders : s.OrdersDistinct)
    (hlisted : ∀ call ∈ calls, call.Listed) :
    ExecOk (next R js toFixed) (Faithful R js toFixed) s calls ↔
      ExecOk (next R js toFixed) (Clean R js) s calls := by
  refine execOk_congr (I := fun s ↦ s.WellFormed ∧ s.OrdersDistinct) hlisted ⟨hs, horders⟩ ?_ ?_
  · rintro a call ⟨hwell, hdistinct⟩ hcall
    exact faithful_iff_clean hwell hdistinct hcall
  rintro a call b ⟨hwell, hdistinct⟩ hcall hfaithful hstep
  cases hstep
  exact ⟨hfaithful.1, step_ordersDistinct hdistinct hcall⟩

end Runs

/-! ## Fresh exchanges -/

section Fresh

variable {R js toFixed} {id : String} {cash : Decimal} {accountInfo : Option AccountInfoPatch}

theorem fresh_wellFormed : (fresh id cash accountInfo).WellFormed :=
  fun _ hentry ↦ absurd hentry List.not_mem_nil

/-- **After every call of a run** from a fresh exchange the positions are well formed, and after
every mark price that is set matching is complete, if and only if each market order of the run is
sized where it is placed, and the orders that each mark price triggers fit one after another, up to
the last. -/
theorem positions_and_matching_iff (calls : List Call) (hlisted : ∀ call ∈ calls, call.Listed) :
    ExecOk (next R js toFixed) (Faithful R js toFixed) (fresh id cash accountInfo) calls ↔
      ExecOk (next R js toFixed) (Clean R js) (fresh id cash accountInfo) calls :=
  execOk_faithful_iff fresh_wellFormed List.nodup_nil hlisted

end Fresh

def share : BrokerContract := { symbol := "AAPL", secType := "STK" }

/-- A run that is clean: a share is bought, then one limit order fills and another cannot. -/
def cleanCalls : List Call :=
  [.placeOrder share { action := "BUY", orderType := "MKT", totalQuantity := 1 },
    .placeOrder share { action := "SELL", orderType := "LMT", totalQuantity := 1, lmtPrice := 100 },
    .placeOrder share { action := "SELL", orderType := "LMT", totalQuantity := 1, lmtPrice := 90 },
    .setMarkPrice "AAPL" 110]

theorem positions_and_matching_sold :
    ExecOk (next .exact .ascii toString) (Faithful .exact .ascii toString)
      (fresh "mock-paper" 100000 none) cleanCalls := by
  have hlisted : ∀ call ∈ cleanCalls, call.Listed := by
    intro call hcall
    simp only [cleanCalls, List.mem_cons, List.not_mem_nil, or_false] at hcall
    rcases hcall with rfl | rfl | rfl | rfl <;> exact trivial
  exact (positions_and_matching_iff cleanCalls hlisted).mpr (by decide +kernel)

def cashOrder : StagePlaceOrderParams where
  aliceId := "mock-paper|AAPL"
  action := .BUY
  orderType := "MKT"
  cashQty := some 1000

def limitOrder (action : OrderAction) : StagePlaceOrderParams where
  aliceId := "mock-paper|AAPL"
  action := action
  orderType := "LMT"
  totalQuantity := some 1
  lmtPrice := some 100

/-- The validator accepts an order by cash, which opens a position of no quantity; and after a sale
that cannot be filled a purchase that could be is left to wait. -/
theorem opened_empty_and_left_waiting : (Account.validatePlaceOrderParams cashOrder = .ok () ∧
      ¬ ExecOk (next .exact .ascii toString) (Faithful .exact .ascii toString)
        (fresh "mock-paper" 100000 none) [.placeOrder share (Account.stagedOrder cashOrder)]) ∧
    (∀ action, Account.validatePlaceOrderParams (limitOrder action) = .ok ()) ∧
      ¬ ExecOk (next .exact .ascii toString) (Faithful .exact .ascii toString)
        (fresh "mock-paper" 100000 none)
        [.placeOrder share (Account.stagedOrder (limitOrder .SELL)),
          .placeOrder share (Account.stagedOrder (limitOrder .BUY)),
          .setMarkPrice "AAPL" 100] := by
  have hlisted : ∀ call ∈ [Call.placeOrder share (Account.stagedOrder (limitOrder .SELL)),
      .placeOrder share (Account.stagedOrder (limitOrder .BUY)), .setMarkPrice "AAPL" 100],
      call.Listed := by
    rintro call (_ | ⟨_, _ | ⟨_, _ | ⟨_, ⟨⟩⟩⟩⟩) <;> exact trivial
  refine ⟨⟨by decide +kernel, ?_⟩, ?_, ?_⟩
  · rintro ⟨⟨hwell, -⟩, -⟩
    exact absurd hwell (by decide +kernel)
  · intro action
    cases action with
    | BUY => decide +kernel
    | SELL => decide +kernel
  · rw [execOk_faithful_iff fresh_wellFormed List.nodup_nil hlisted]
    decide +kernel

end OpenAlice.Trading.Brokers.MockBroker
