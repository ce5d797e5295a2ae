import OpenAlice.Trading.Brokers.MockMatching

/-!
# The life of an order on the simulated exchange

An order waits until it is filled or cancelled, and then it has ended.  No order disappears or gives
its id to another one, and an order that has ended is not touched again (`orders_live`), but by two
calls of the control panel: `cancelPendingOrder` cancels it all the same, and `setOrders` puts other
orders in the place of all.
-/

namespace OpenAlice.Trading.Brokers.MockBroker

open Data Run

/-- The orders are still there, for the same contracts and on the same sides, and those that had
ended are as they were. -/
def Lives (s t : MockBroker) : Prop :=
  ∀ id o, s.orders.lookup id = some o → ∃ o', t.orders.lookup id = some o' ∧
    o'.contract = o.contract ∧ o'.order.action = o.order.action ∧
    (o.status ≠ "Submitted" → o' = o)

/-- The ids of the orders are numbers that have been given out. -/
def Numbered (s : MockBroker) : Prop :=
  ∀ id o, s.orders.lookup id = some o → ∃ n < s.nextOrderId, id = "mock-ord-" ++ toString n

/-- The call leaves the orders that have ended alone. -/
def liveStep (s : MockBroker) : Call → Prop
  | .cancelPendingOrder id => ∀ o, s.orders.lookup id = some o → o.status = "Submitted"
  | .setOrders _ => False
  | _ => True

structure Onwards (s t : MockBroker) : Prop where
  lives : s.Lives t
  numbered : t.Numbered

section Onwards

variable {R : Rounding Decimal} {js : Js} {toFixed : Decimal → String} {s t u : MockBroker}
variable {orderId : String} {o o' : InternalOrder}

theorem Lives.refl (s : MockBroker) : s.Lives s :=
  fun _ o h ↦ ⟨o, h, rfl, rfl, fun _ ↦ rfl⟩

theorem Onwards.trans (h : s.Onwards t) (h' : t.Onwards u) : s.Onwards u := by
  refine ⟨fun id o ho ↦ ?_, h'.numbered⟩
  obtain ⟨o₁, ho₁, hcontract, haction, hended⟩ := h.lives id o ho
  obtain ⟨o₂, ho₂, hcontract', haction', hended'⟩ := h'.lives id o₁ ho₁
  refine ⟨o₂, ho₂, hcontract'.trans hcontract, haction'.trans haction, fun hstatus ↦ ?_⟩
  have heq := hended hstatus
  subst heq
  exact hended' hstatus

theorem onwards_of_orders (hs : s.Numbered) (horders : t.orders = s.orders)
    (hnext : t.nextOrderId = s.nextOrderId) : s.Onwards t := by
  constructor
  · rw [Lives, horders]
    exact Lives.refl s
  · rw [Numbered, horders, hnext]
    exact hs

/-- An order that waits may be replaced by another one for its contract and side. -/
theorem onwards_putOrder (hs : s.Numbered) (h : s.pending orderId = some o)
    (hcontract : o'.contract = o.contract) (haction : o'.order.action = o.order.action) :
    s.Onwards (s.putOrder orderId o') := by
  obtain ⟨hlookup, hstatus⟩ := Option.filter_eq_some_iff.mp h
  constructor
  · intro id p hp
    by_cases hid : id = orderId
    · subst hid
      cases hlookup.symm.trans hp
      refine ⟨o', lookup_setKey_self _, hcontract, haction, fun hended ↦ ?_⟩
      exact absurd (of_decide_eq_true hstatus) hended
    · exact ⟨p, (lookup_setKey_of_ne hid _).trans hp, rfl, rfl, fun _ ↦ rfl⟩
  · intro id p hp
    by_cases hid : id = orderId
    · subst hid
      exact hs _ _ hlookup
    · exact hs id p ((lookup_setKey_of_ne hid _).symm.trans hp)

theorem numberedId_injective :
    Function.Injective fun n : Nat ↦ "mock-ord-" ++ toString n := by
  intro m n h
  have hdigits := congrArg String.toList ((String.append_right_inj _).mp h)
  have hm := Nat.ofDigitChars_ten_toDigits (n := m)
  rw [← Nat.toList_repr, show m.repr.toList = n.repr.toList from hdigits, Nat.toList_repr,
    Nat.ofDigitChars_ten_toDigits] at hm
  exact hm.symm

theorem Numbered.lookup_nextId (hs : s.Numbered) : s.orders.lookup s.nextId = none := by
  rw [Option.eq_none_iff_forall_ne_some]
  intro o ho
  obtain ⟨n, hn, heq⟩ := hs _ o ho
  exact absurd (numberedId_injective heq) hn.ne'

theorem onwards_new (hs : s.Numbered) (horders : t.orders = s.orders)
    (hnext : t.nextOrderId = s.nextOrderId + 1) : s.Onwards (t.putOrder s.nextId o) := by
  constructor
  · intro id p hp
    have hid : id ≠ s.nextId := by
      rintro rfl
      exact Option.some_ne_none p (hp.symm.trans hs.lookup_nextId)
    refine ⟨p, (lookup_setKey_of_ne hid _).trans ?_, rfl, rfl, fun _ ↦ rfl⟩
    rw [horders, hp]
  · intro id p hp
    have hle : s.nextOrderId < (t.putOrder s.nextId o).nextOrderId :=
      hnext ▸ Nat.lt_succ_self _
    by_cases hid : id = s.nextId
    · exact ⟨s.nextOrderId, hle, hid⟩
    · have hold := (lookup_setKey_of_ne hid _).symm.trans hp
      rw [horders] at hold
      obtain ⟨n, hn, heq⟩ := hs id p hold
      exact ⟨n, hn.trans hle, heq⟩

theorem onwards_placeOrder (hs : s.Numbered) (contract : BrokerContract) (order : BrokerOrder) :
    s.Onwards (s.placeOrder R js toFixed contract order).1 := by
  have htaken : s.Onwards s.takeId := by
    refine ⟨Lives.refl s, fun id o ho ↦ ?_⟩
    obtain ⟨n, hn, heq⟩ := hs id o ho
    exact ⟨n, Nat.lt_succ_of_lt hn, heq⟩
  by_cases hmkt : order.orderType = "MKT"
  · cases ht : s.takeId.applyFill R toFixed contract (js.toUpperCase order.action)
        (sizeOf order) (s.marketPrice contract) with
    | error e =>
      rw [placeOrder_of_error R js toFixed hmkt ht]
      exact htaken
    | ok t =>
      rw [placeOrder_of_ok R js toFixed hmkt ht, (applyFill_ok _ _ _ ht).frame]
      exact onwards_new hs rfl rfl
  · rw [placeOrder_waiting R js toFixed hmkt]
    exact onwards_new hs rfl rfl

theorem filled_keeps (o : InternalOrder) (qty price : Decimal) :
    (o.filled R qty price).contract = o.contract ∧
      (o.filled R qty price).order.action = o.order.action := by
  rw [InternalOrder.filled]
  dsimp only
  split_ifs
  · exact ⟨rfl, rfl⟩
  · exact ⟨rfl, rfl⟩

theorem onwards_fillOrder {price qty : Option Decimal} (hs : s.Numbered)
    (h : s.fillOrder R js toFixed orderId price qty = .ok u) : s.Onwards u := by
  obtain ⟨internal, t, hpending, -, -, ht, rfl⟩ := fillOrder_ok _ _ _ _ h
  rw [(applyFill_ok _ _ _ ht).frame]
  have hpaid (positions : List (String × InternalPosition)) (side : String) (cost : Decimal) :
      s.Onwards ({ s with positions := positions }.settle R side cost) :=
    onwards_of_orders hs rfl rfl
  have hkeeps := filled_keeps (R := R) internal (qty.getD internal.order.totalQuantity)
    (s.fillPriceOf internal price)
  exact (hpaid _ _ _).trans (onwards_putOrder (hpaid _ _ _).numbered hpending hkeeps.1 hkeeps.2)

theorem onwards_setMarkPrice (hs : s.Numbered) (nativeKey : String) (price : Decimal) :
    s.Onwards (s.setMarkPrice R js toFixed nativeKey price).1 :=
  matchOrders_invariant R js toFixed
    (fun _ _ _ hreached hfill ↦ hreached.trans (onwards_fillOrder hreached.numbered hfill)) _
    (onwards_of_orders hs rfl rfl)

/-- **What a call does to the orders.** -/
theorem onwards_step {call : Call} (hs : s.Numbered) (hok : s.liveStep call) :
    s.Onwards (s.step R js toFixed call) := by
  have hrefl : s.Onwards s := ⟨Lives.refl s, hs⟩
  cases call with
  | placeOrder contract order => exact onwards_placeOrder hs contract order
  | closePosition contract quantity =>
    rw [step, closePosition]
    split
    · exact hrefl
    · exact onwards_placeOrder hs _ _
  | modifyOrder orderId changes =>
    rw [step, modifyOrder]
    split
    · exact hrefl
    next hpending => exact onwards_putOrder hs hpending rfl rfl
  | cancelOrder orderId =>
    rw [step, cancelOrder]
    split
    · exact hrefl
    next hpending => exact onwards_putOrder hs hpending rfl rfl
  | setMarkPrice nativeKey price => exact onwards_setMarkPrice hs nativeKey price
  | tickPrice nativeKey deltaPercent =>
    rw [step, tickPrice]
    split
    · exact hrefl
    · exact onwards_setMarkPrice hs _ _
  | fillOrder orderId price qty =>
    exact unlessThrown_of s hrefl fun u hu ↦ onwards_fillOrder hs hu
  | cancelPendingOrder orderId =>
    refine unlessThrown_of s hrefl fun u hu ↦ ?_
    rw [cancelPendingOrder] at hu
    split at hu
    · cases hu
    next internal hlookup =>
      cases hu
      refine onwards_putOrder (o := internal) hs ?_ rfl rfl
      exact Option.filter_eq_some_iff.mpr ⟨hlookup, decide_eq_true (hok internal hlookup)⟩
  | externalDeposit nativeKey qty part =>
    refine unlessThrown_of s hrefl fun t ht ↦ ?_
    rw [externalDeposit] at ht
    split_ifs at ht
    split at ht
    · cases ht
      exact onwards_of_orders hs rfl rfl
    · obtain ⟨built, -, rfl⟩ := map_ok ht
      exact onwards_of_orders hs rfl rfl
  | externalWithdraw nativeKey qty =>
    refine unlessThrown_of s hrefl fun t ht ↦ ?_
    rw [externalWithdraw] at ht
    split at ht
    · cases ht
    dsimp only at ht
    split_ifs at ht <;> cases ht
    · exact onwards_of_orders hs rfl rfl
    · exact onwards_of_orders hs rfl rfl
  | externalTrade nativeKey side qty price part =>
    refine unlessThrown_of s hrefl fun u hu ↦ ?_
    obtain ⟨t, -, ht, rfl⟩ := externalTrade_ok _ _ _ hu
    rw [tradePosition] at ht
    split at ht
    · obtain ⟨built, -, rfl⟩ := map_ok ht
      exact onwards_of_orders hs rfl rfl
    · obtain ⟨filled, hfilled, rfl⟩ := map_ok ht
      rw [(applyFill_ok _ _ _ hfilled).frame]
      exact onwards_of_orders hs rfl rfl
  | setPositions | setAccountInfo => exact onwards_of_orders hs rfl rfl
  | setOrders => exact absurd hok not_false

end Onwards

/-- **An order lives once.**  In every run from a fresh exchange that leaves ended orders alone, the
next id is no order's, and each order is there ever after, for its contract and on its side, and
does not change once it has ended. -/
theorem orders_live (R : Rounding Decimal) (js : Js) (toFixed : Decimal → String) {id : String}
    {cash : Decimal} {accountInfo : Option AccountInfoPatch} {s t : MockBroker}
    (hs : Reach (next R js toFixed) liveStep (fresh id cash accountInfo) s)
    (ht : Reach (next R js toFixed) liveStep s t) :
    s.orders.lookup s.nextId = none ∧ s.Lives t := by
  have hnumbered : s.Numbered := by
    have hfresh : (fresh id cash accountInfo).Numbered := fun _ _ h ↦ by cases h
    refine hs.invariant (I := Numbered) hfresh fun a call b ha hok hstep ↦ ?_
    cases hstep
    exact (onwards_step ha hok).numbered
  have honwards : s.Onwards t := by
    refine ht.invariant (I := s.Onwards) ⟨Lives.refl s, hnumbered⟩ fun a call b ha hok hstep ↦ ?_
    cases hstep
    exact ha.trans (onwards_step ha.numbered hok)
  exact ⟨hnumbered.lookup_nextId, honwards.lives⟩

def bought : Call :=
  .placeOrder share { action := "BUY", orderType := "MKT", totalQuantity := 1 }

def holder : MockBroker := (fresh "mock-paper" 100000 none).step .exact .ascii toString bought

def sold : Call := .closePosition share none

/-- A share is bought at the market, and sold again. -/
theorem orders_live_share : holder.orders.lookup holder.nextId = none ∧
    holder.Lives (holder.step .exact .ascii toString sold) :=
  orders_live .exact .ascii toString (.single (e := bought) trivial rfl)
    (.single (e := sold) trivial rfl)

end OpenAlice.Trading.Brokers.MockBroker
