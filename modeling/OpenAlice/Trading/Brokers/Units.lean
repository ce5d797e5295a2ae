import OpenAlice.Trading.Brokers.Ccxt
import OpenAlice.Run.Basic
import Mathlib.Algebra.BigOperators.Group.List.Basic
import Mathlib.Tactic.NormNum
import Mathlib.Tactic.Ring

/-!
# The unit of a quantity at a CCXT exchange

An exchange counts derivatives in contracts: the amount of an order, the amount and the
fill of an order it reports, and the size of a position.  A contract is `contractSize`
units of the base currency.  The adapter multiplies a position by its contract size
(`contracts × contractSize is folded into quantity`) and passes every other number
through.

So each path is compared with the size it stands for, in the unit that `getPositions`
reports.  A size keeps its unit exactly when the contract is one unit, up to the rounding
to a double at the end of the path.

The exchange of the last section holds the orders of one side in one market, and nothing
else moves its position.
-/

namespace OpenAlice.Trading.Brokers.Ccxt

open OpenAlice.Run

variable {js : Js} {e : Exchange}

/-! ## Sizes -/

def KeepsUnit (js : Js) (contractSize size : Decimal) : Prop :=
  (contractSize = 1 ∧ js.toNumber size = size) ∨
    (contractSize ≠ 1 ∧ js.toNumber size ≠ size ∧ js.toNumber size * contractSize = size)

theorem worth_iff {contractSize size : Decimal} (hsize : size ≠ 0) :
    js.toNumber size * contractSize = size ↔ KeepsUnit js contractSize size := by
  constructor
  · intro hworth
    by_cases hone : contractSize = 1
    · rw [hone, mul_one] at hworth
      exact .inl ⟨hone, hworth⟩
    refine .inr ⟨hone, fun hexact ↦ hone ?_, hworth⟩
    rw [hexact] at hworth
    exact (mul_eq_left₀ hsize).mp hworth
  · rintro (⟨rfl, hexact⟩ | ⟨-, -, hworth⟩)
    · rw [mul_one, hexact]
    · exact hworth

theorem orderSize_quantity {symbol action : String} {quantity size : Decimal}
    (h : orderSize e symbol { action := action, orderType := "MKT", totalQuantity := quantity } =
      .ok size) : size = quantity := by
  rcases orderSize_ok h with hq | ⟨cash, price, -, hcash, -⟩
  · unfold field at hq
    split at hq
    · exact nomatch hq
    · exact (Option.some.inj hq).symm
  · exact nomatch hcash

theorem orderSize_notional {symbol : String} {o : BrokerOrder} {value price size : Decimal}
    (h : orderSize e symbol o = .ok size) (hq : field o.totalQuantity = none)
    (hvalue : field o.cashQty = some value)
    (hprice : referencePrice o (e.last symbol) = some price) :
    size = value / price ∧ value / price ≠ 0 := by
  rcases orderSize_ok h with hsome | ⟨cash, p, -, hcash, hp, hzero, rfl⟩
  · exact nomatch hq.symm.trans hsome
  · cases hvalue.symm.trans hcash
    cases hprice.symm.trans hp
    refine ⟨rfl, div_ne_zero ?_ hzero⟩
    rintro rfl
    rw [orderSize, hq, hcash] at h
    simp at h

/-! ## Positions -/

/-- A raw position among the ones an exchange answers, and what `getPositions` reports of
it. -/
structure Reported (e : Exchange) (raw : List CcxtRawPosition)
    (spotHoldings positions : List BrokerPosition) (p : CcxtRawPosition) (pos : BrokerPosition) :
    Prop where
  answered : getPositions e raw spotHoldings = .ok positions
  mem : p ∈ raw
  reports : reportPosition e p = .ok (some pos)
  contractSize_pos : 0 < p.contractSize.getD 1

namespace Reported

variable {raw : List CcxtRawPosition} {spotHoldings positions : List BrokerPosition}
  {p : CcxtRawPosition} {pos : BrokerPosition}

theorem spec (h : Reported e raw spotHoldings positions p pos) :
    pos.quantity = p.quantity ∧ p.quantity ≠ 0 ∧ ∃ m contract, e.market p.symbol = some m ∧
        marketToContract m e.exchangeName = .ok contract := by
  have hreports := h.reports
  unfold reportPosition at hreports
  split at hreports
  · exact nomatch hreports
  rename_i m hm
  split at hreports
  · exact nomatch hreports
  rename_i hflat
  obtain ⟨contract, hcontract, hpos⟩ := Data.bind_ok hreports
  cases hpos
  exact ⟨rfl, hflat, m, contract, hm, hcontract⟩

theorem quantity_eq (h : Reported e raw spotHoldings positions p pos) :
    pos.quantity = |p.contracts.getD 0| * p.contractSize.getD 1 := h.spec.1

theorem quantity_ne_zero (h : Reported e raw spotHoldings positions p pos) :
    pos.quantity ≠ 0 := h.spec.1 ▸ h.spec.2.1

theorem eq_contracts_iff (h : Reported e raw spotHoldings positions p pos) (amount : Decimal) :
    amount = |p.contracts.getD 0| ↔ amount * p.contractSize.getD 1 = pos.quantity := by
  rw [h.quantity_eq]
  exact (mul_left_inj' h.contractSize_pos.ne').symm

end Reported

/-! ## Closing a position -/

def ClosesWhole (js : Js) (contractSize contracts : Decimal) (pos picked : BrokerPosition) : Prop :=
  (picked.quantity = pos.quantity ∧ KeepsUnit js contractSize pos.quantity) ∨
    (picked.quantity ≠ pos.quantity ∧ js.toNumber picked.quantity = contracts)

theorem closePosition_amount {positions : List BrokerPosition} {c : BrokerContract}
    {quantity : Option Decimal} {r : NewOrder}
    (h : closePosition js e positions c quantity = .ok r) :
    ∃ picked, positionFor js e positions c = some picked ∧
      r.amount = js.toNumber (quantity.getD picked.quantity) := by
  obtain ⟨picked, hpicked, hplace⟩ := closePosition_ok h
  obtain ⟨size, _, _, -, hsize, -, -, -, -, hamount, -⟩ := placeOrder_ok hplace
  exact ⟨picked, hpicked, orderSize_quantity hsize ▸ hamount⟩

section Closing

variable {raw : List CcxtRawPosition} {spotHoldings positions : List BrokerPosition}
  {p : CcxtRawPosition} {pos : BrokerPosition} {c : BrokerContract} {r : NewOrder}

theorem closes_whole_iff (h : Reported e raw spotHoldings positions p pos)
    (hsend : closePosition js e positions c none = .ok r) :
    r.amount = |p.contracts.getD 0| ↔ ∃ picked, positionFor js e positions c = some picked ∧
        ClosesWhole js (p.contractSize.getD 1) |p.contracts.getD 0| pos picked := by
  obtain ⟨picked, hpicked, hamount⟩ := closePosition_amount hsend
  rw [Option.getD_none] at hamount
  have hworth : js.toNumber pos.quantity * p.contractSize.getD 1 = pos.quantity ↔
      KeepsUnit js (p.contractSize.getD 1) pos.quantity := worth_iff h.quantity_ne_zero
  constructor
  · intro heq
    refine ⟨picked, hpicked, ?_⟩
    by_cases hsame : picked.quantity = pos.quantity
    · refine .inl ⟨hsame, hworth.mp ?_⟩
      rw [← hsame, ← hamount, hsame]
      exact (h.eq_contracts_iff r.amount).mp heq
    · exact .inr ⟨hsame, hamount.symm.trans heq⟩
  · rintro ⟨found, hfound, hcloses⟩
    cases hpicked.symm.trans hfound
    rcases hcloses with ⟨hsame, hkeeps⟩ | ⟨-, hequal⟩
    · apply (h.eq_contracts_iff r.amount).mpr
      rw [hamount, hsame]
      exact hworth.mpr hkeeps
    · exact hamount.trans hequal

theorem closes_part_iff {quantity : Decimal} (hquantity : 0 < quantity)
    (hsend : closePosition js e positions c (some quantity) = .ok r) :
    r.amount * p.contractSize.getD 1 = quantity ↔
      KeepsUnit js (p.contractSize.getD 1) quantity := by
  obtain ⟨_, -, hamount⟩ := closePosition_amount hsend
  rw [Option.getD_some] at hamount
  rw [hamount]
  exact worth_iff hquantity.ne'

end Closing

/-! ## Buying for a value -/

theorem notional_iff {c : BrokerContract} {o : BrokerOrder} {t : Option TpSlParams}
    {reduceOnly : Bool} {r : NewOrder} {contractSize value price : Decimal}
    (hsend : placeOrder js e c o t reduceOnly = .ok r) (hq : field o.totalQuantity = none)
    (hvalue : field o.cashQty = some value)
    (hprice : referencePrice o (e.last r.symbol) = some price) :
    r.amount * contractSize * price = value ↔ KeepsUnit js contractSize (value / price) := by
  obtain ⟨size, _, _, -, hsize, -, -, -, -, hamount, -⟩ := placeOrder_ok hsend
  obtain ⟨rfl, hne⟩ := orderSize_notional hsize hq hvalue hprice
  have hzero : price ≠ 0 := fun hno ↦ hne (by rw [hno, div_zero])
  rw [hamount, ← worth_iff hne, eq_div_iff hzero]

/-! ## The fills of one side -/

/-- What an exchange holds for the account in one market: its orders, and the contracts of
its position. -/
structure Venue where
  orders : List CcxtOrder
  contracts : Decimal
deriving DecidableEq

def Venue.flat : Venue where
  orders := []
  contracts := 0

inductive VenueEvent where
  | accepted (r : NewOrder) (id : String)
  | filled (id : String) (contracts : Decimal)
  | statusChanged (id : String) (status : String)

def NewOrder.asOrder (r : NewOrder) (id : String) : CcxtOrder where
  id := id
  symbol := r.symbol
  side := some r.side
  type := some r.type
  amount := some r.amount
  price := r.price
  filled := some 0
  status := some "open"

def CcxtOrder.fill (id : String) (contracts : Decimal) (o : CcxtOrder) : CcxtOrder :=
  if o.id = id then { o with filled := some (o.filled.getD 0 + contracts) } else o

def CcxtOrder.withStatus (id status : String) (o : CcxtOrder) : CcxtOrder :=
  if o.id = id then { o with status := some status } else o

/-- One event at an exchange that takes the requests of one side for one market.  A fill is of
an order it holds, and never beyond the order's amount. -/
def Venue.step (symbol side : String) (v : Venue) : VenueEvent → Option Venue
  | .accepted r id =>
    if r.symbol = symbol ∧ r.side = side ∧ id ∉ v.orders.map (·.id) then
      some { v with orders := v.orders ++ [r.asOrder id] }
    else none
  | .filled id contracts =>
    match v.orders.find? fun o ↦ o.id = id with
    | none => none
    | some o =>
      if 0 < contracts ∧ o.filled.getD 0 + contracts ≤ o.amount.getD 0 then
        some
          { orders := v.orders.map (CcxtOrder.fill id contracts)
            contracts := v.contracts + contracts }
      else none
  | .statusChanged id status =>
    some { v with orders := v.orders.map (CcxtOrder.withStatus id status) }

/-- The position that `fetchPositions` answers. -/
def Venue.position (symbol side : String) (contractSize : Option Decimal) (v : Venue) :
    CcxtRawPosition where
  symbol := symbol
  side := if side = "buy" then "long" else "short"
  contracts := some v.contracts
  contractSize := contractSize

def Venue.fetchOrder (v : Venue) (id symbol : String) : Except String CcxtOrder :=
  match v.orders.find? fun o ↦ o.id = id ∧ o.symbol = symbol with
  | some o => .ok o
  | none => .error ("Order " ++ id ++ " not found")

/-- The filled quantities that `getOrder` reads back, summed over the orders. -/
def filledReadBack (js : Js) (e : Exchange) (orderSymbolCache symbolHint : String → Option String)
    (v : Venue) : Decimal :=
  ((v.orders.filterMap fun o ↦
    getOrder js e orderSymbolCache v.fetchOrder o.id (symbolHint o.id)).map
      (·.order.filledQuantity)).sum

/-- The orders have ids of their own and are all in the market, and the position is what was
filled of them. -/
structure Booked (symbol : String) (v : Venue) : Prop where
  nodup : (v.orders.map (·.id)).Nodup
  inMarket : ∀ o ∈ v.orders, o.symbol = symbol ∧ o.filled.isSome
  contracts_eq : v.contracts = (v.orders.map fun o ↦ o.filled.getD 0).sum
  nonneg : 0 ≤ v.contracts

namespace CcxtOrder

@[simp] theorem fill_id (id : String) (contracts : Decimal) (o : CcxtOrder) :
    (o.fill id contracts).id = o.id := by
  unfold fill
  split <;> rfl

@[simp] theorem fill_symbol (id : String) (contracts : Decimal) (o : CcxtOrder) :
    (o.fill id contracts).symbol = o.symbol := by
  unfold fill
  split <;> rfl

theorem fill_of_ne {id : String} {o : CcxtOrder} (h : o.id ≠ id) (contracts : Decimal) :
    o.fill id contracts = o := if_neg h

theorem fill_filled {id : String} {o : CcxtOrder} (h : o.id = id) (contracts : Decimal) :
    (o.fill id contracts).filled = some (o.filled.getD 0 + contracts) := by
  rw [fill, if_pos h]

theorem fill_isSome {o : CcxtOrder} (h : o.filled.isSome) (id : String) (contracts : Decimal) :
    (o.fill id contracts).filled.isSome := by
  unfold fill
  split
  · rfl
  · exact h

@[simp] theorem withStatus_id (id status : String) (o : CcxtOrder) :
    (o.withStatus id status).id = o.id := by
  unfold withStatus
  split <;> rfl

@[simp] theorem withStatus_symbol (id status : String) (o : CcxtOrder) :
    (o.withStatus id status).symbol = o.symbol := by
  unfold withStatus
  split <;> rfl

@[simp] theorem withStatus_filled (id status : String) (o : CcxtOrder) :
    (o.withStatus id status).filled = o.filled := by
  unfold withStatus
  split <;> rfl

end CcxtOrder

theorem sum_fill {orders : List CcxtOrder} {id : String} {contracts : Decimal}
    (hnodup : (orders.map (·.id)).Nodup) (hmem : id ∈ orders.map (·.id)) :
    ((orders.map (CcxtOrder.fill id contracts)).map fun o ↦ o.filled.getD 0).sum =
      (orders.map fun o ↦ o.filled.getD 0).sum + contracts := by
  induction orders with
  | nil => exact nomatch hmem
  | cons o orders ih =>
    rw [List.map_cons, List.nodup_cons] at hnodup
    rw [List.map_cons, List.map_cons, List.map_cons, List.sum_cons, List.sum_cons]
    by_cases hid : o.id = id
    · -- the other orders have other ids
      have hrest : orders.map (CcxtOrder.fill id contracts) = orders := by
        conv_rhs => rw [← List.map_id orders]
        refine List.map_congr_left fun x hx ↦ CcxtOrder.fill_of_ne ?_ contracts
        exact fun hsame ↦ hnodup.1 (List.mem_map.mpr ⟨x, hx, hsame.trans hid.symm⟩)
      rw [hrest, CcxtOrder.fill_filled hid, Option.getD_some]
      ring
    · have hlater : id ∈ orders.map (·.id) := (List.mem_cons.mp hmem).resolve_left (Ne.symm hid)
      rw [CcxtOrder.fill_of_ne hid, ih hnodup.2 hlater, add_assoc]

namespace Booked

variable {symbol side : String} {v v' : Venue}

theorem flat (symbol : String) : Booked symbol .flat where
  nodup := List.nodup_nil
  inMarket := fun _ h ↦ nomatch h
  contracts_eq := rfl
  nonneg := le_refl 0

theorem accepted (h : Booked symbol v) {r : NewOrder} {id : String}
    (hstep : v.step symbol side (.accepted r id) = some v') : Booked symbol v' := by
  simp only [Venue.step] at hstep
  split at hstep
  · next hok =>
      obtain ⟨hsymbol, -, hfresh⟩ := hok
      cases hstep
      refine ⟨?_, ?_, ?_, h.nonneg⟩
      · rw [List.map_append, List.nodup_append]
        refine ⟨h.nodup, List.nodup_singleton _, ?_⟩
        rintro a ha _ hb rfl
        cases List.mem_singleton.mp hb
        exact hfresh ha
      · intro o ho
        rcases List.mem_append.mp ho with hold | hnew
        · exact h.inMarket o hold
        · cases List.mem_singleton.mp hnew
          exact ⟨hsymbol, rfl⟩
      · rw [List.map_append, List.sum_append]
        change v.contracts = _ + (0 + 0)
        rw [add_zero, add_zero]
        exact h.contracts_eq
  · exact nomatch hstep

theorem filled (h : Booked symbol v) {id : String} {contracts : Decimal}
    (hstep : v.step symbol side (.filled id contracts) = some v') : Booked symbol v' := by
  simp only [Venue.step] at hstep
  split at hstep
  · exact nomatch hstep
  rename_i o ho
  split at hstep
  · next hok =>
      cases hstep
      have hid : o.id = id := of_decide_eq_true (List.find?_some ho :)
      have hmem : id ∈ v.orders.map (·.id) :=
        List.mem_map.mpr ⟨o, List.mem_of_find?_eq_some ho, hid⟩
      refine ⟨?_, ?_, ?_, add_nonneg h.nonneg hok.1.le⟩
      · rw [List.map_map]
        simpa [Function.comp_def] using h.nodup
      · intro x hx
        obtain ⟨y, hy, rfl⟩ := List.mem_map.mp hx
        obtain ⟨hsymbol, hsome⟩ := h.inMarket y hy
        exact ⟨(y.fill_symbol id contracts).trans hsymbol, y.fill_isSome hsome id contracts⟩
      · rw [sum_fill h.nodup hmem, ← h.contracts_eq]
  · exact nomatch hstep

theorem statusChanged (h : Booked symbol v) {id status : String}
    (hstep : v.step symbol side (.statusChanged id status) = some v') : Booked symbol v' := by
  cases hstep
  refine ⟨?_, ?_, ?_, h.nonneg⟩
  · rw [List.map_map]
    simpa [Function.comp_def] using h.nodup
  · intro x hx
    obtain ⟨y, hy, rfl⟩ := List.mem_map.mp hx
    obtain ⟨hsymbol, hsome⟩ := h.inMarket y hy
    refine ⟨(y.withStatus_symbol id status).trans hsymbol, ?_⟩
    rw [CcxtOrder.withStatus_filled]
    exact hsome
  · rw [List.map_map]
    simpa [Function.comp_def] using h.contracts_eq

theorem of_reach (hr : Reach (Venue.step symbol side) anyStep .flat v) : Booked symbol v := by
  refine hr.invariant (flat symbol) ?_
  intro a event b ha _ hstep
  cases event with
  | accepted r id => exact ha.accepted hstep
  | filled id contracts => exact ha.filled hstep
  | statusChanged id status => exact ha.statusChanged hstep

theorem fetchOrder_eq (h : Booked symbol v) {o : CcxtOrder} (ho : o ∈ v.orders) :
    v.fetchOrder o.id symbol = .ok o := by
  unfold Venue.fetchOrder
  cases hf : v.orders.find? fun x ↦ x.id = o.id ∧ x.symbol = symbol with
  | none =>
    have hno := List.find?_eq_none.mp hf o ho
    simp [(h.inMarket o ho).1] at hno
  | some found =>
    have hfound := List.find?_some hf
    have hid : found.id = o.id := (of_decide_eq_true hfound).1
    rw [List.inj_on_of_nodup_map h.nodup (List.mem_of_find?_eq_some hf) ho hid]

variable (js) in
theorem getOrder_eq (h : Booked symbol v) {m : CcxtMarket} {contract : BrokerContract}
    (hm : e.market symbol = some m) (hcontract : marketToContract m e.exchangeName = .ok contract)
    {orderSymbolCache : String → Option String} {hint : Option String} {o : CcxtOrder}
    (ho : o ∈ v.orders) (hknown : (orderSymbolCache o.id).or hint = some symbol) :
    ∃ reported, getOrder js e orderSymbolCache v.fetchOrder o.id hint = some reported ∧
      reported.order.filledQuantity = o.filled.getD 0 := by
  obtain ⟨hsymbol, hsome⟩ := h.inMarket o ho
  obtain ⟨amount, hfilled⟩ := Option.isSome_iff_exists.mp hsome
  obtain ⟨hmem, hkey⟩ := market_eq_some hm
  have hne : symbol ≠ "" := hkey ▸ e.named m hmem
  rw [getOrder, hknown]
  simp only [if_neg hne, h.fetchOrder_eq ho]
  rw [convertCcxtOrder, hsymbol, hm]
  simp only [hcontract, hfilled]
  exact ⟨_, rfl, rfl⟩

theorem filledReadBack_eq (h : Booked symbol v) {m : CcxtMarket} {contract : BrokerContract}
    (hm : e.market symbol = some m) (hcontract : marketToContract m e.exchangeName = .ok contract)
    {orderSymbolCache symbolHint : String → Option String}
    (hknown : ∀ o ∈ v.orders, (orderSymbolCache o.id).or (symbolHint o.id) = some symbol) :
    filledReadBack js e orderSymbolCache symbolHint v = v.contracts := by
  rw [h.contracts_eq, filledReadBack, List.map_filterMap]
  congr 1
  apply List.filterMap_eq_map_iff_forall_eq_some.mpr
  intro o ho
  obtain ⟨reported, hget, hfilled⟩ := h.getOrder_eq js hm hcontract ho (hknown o ho)
  rw [hget, Option.map_some, hfilled]

end Booked

theorem fills_iff {symbol side : String} {contractSize : Option Decimal} {v : Venue}
    {raw : List CcxtRawPosition} {spotHoldings positions : List BrokerPosition}
    {pos : BrokerPosition} {orderSymbolCache symbolHint : String → Option String}
    (hr : Reach (Venue.step symbol side) anyStep .flat v)
    (h : Reported e raw spotHoldings positions (v.position symbol side contractSize) pos)
    (hknown : ∀ o ∈ v.orders, (orderSymbolCache o.id).or (symbolHint o.id) = some symbol) :
    filledReadBack js e orderSymbolCache symbolHint v = pos.quantity ↔ contractSize.getD 1 = 1 := by
  have hbooked := Booked.of_reach hr
  obtain ⟨hquantity, hheld, m, contract, hm, hcontract⟩ := h.spec
  have hpos : pos.quantity = v.contracts * contractSize.getD 1 := by
    rw [hquantity, ← abs_of_nonneg hbooked.nonneg]
    rfl
  have hne : v.contracts ≠ 0 := by
    intro hflat
    rw [← hquantity, hpos, hflat, zero_mul] at hheld
    exact hheld rfl
  rw [hbooked.filledReadBack_eq hm hcontract hknown, hpos]
  exact left_eq_mul₀ hne

/-! ## Every path -/

/-- At every CCXT exchange: (a) a close of a reported position sends its number of contracts,
and a close of a part of it that part, (b) an order for a value is worth the value, and
(c) the fills of the orders of one side sum to the reported quantity, exactly when the
size on the path keeps its unit. -/
theorem quantities_keep_unit_iff (js : Js) (e : Exchange) :
    (∀ raw spotHoldings positions p pos c r, Reported e raw spotHoldings positions p pos →
      closePosition js e positions c none = .ok r →
      (r.amount = |p.contracts.getD 0| ↔ ∃ picked, positionFor js e positions c = some picked ∧
          ClosesWhole js (p.contractSize.getD 1) |p.contracts.getD 0| pos picked)) ∧
    (∀ raw spotHoldings positions p pos c quantity r, Reported e raw spotHoldings positions p pos →
      0 < quantity → quantity ≤ pos.quantity →
      closePosition js e positions c (some quantity) = .ok r →
      (r.amount * p.contractSize.getD 1 = quantity ↔
        KeepsUnit js (p.contractSize.getD 1) quantity)) ∧
    (∀ c o t reduceOnly r m value price, placeOrder js e c o t reduceOnly = .ok r →
      e.market r.symbol = some m → field o.totalQuantity = none → field o.cashQty = some value →
      referencePrice o (e.last r.symbol) = some price →
      (r.amount * m.contractSize.getD 1 * price = value ↔
        KeepsUnit js (m.contractSize.getD 1) (value / price))) ∧
    ∀ symbol side contractSize v raw spotHoldings positions pos orderSymbolCache symbolHint,
      Reach (Venue.step symbol side) anyStep .flat v →
      Reported e raw spotHoldings positions (v.position symbol side contractSize) pos →
      (∀ o ∈ v.orders, (orderSymbolCache o.id).or (symbolHint o.id) = some symbol) →
      (filledReadBack js e orderSymbolCache symbolHint v = pos.quantity ↔
        contractSize.getD 1 = 1) :=
  ⟨fun _ _ _ _ _ _ _ h hsend ↦ closes_whole_iff h hsend,
    fun _ _ _ _ _ _ _ _ _ hpositive _ hsend ↦ closes_part_iff hpositive hsend,
    fun _ _ _ _ _ _ _ _ hsend _ hq hvalue hprice ↦ notional_iff hsend hq hvalue hprice,
    fun _ _ _ _ _ _ _ _ _ _ hr h hknown ↦ fills_iff hr h hknown⟩

def sampleSwaps (contractSize : Decimal) : Exchange where
  exchangeName := "okx"
  markets :=
    [{ symbol := "BTC/USDT:USDT", base := "BTC", quote := "USDT", type := "swap",
       contractSize := some contractSize }]
  keyed := List.nodup_singleton _
  named := by
    intro m hm
    rw [List.mem_singleton.mp hm]
    change "BTC/USDT:USDT" ≠ ""
    decide
  fetchTicker _ := .ok (some 50000)

def hundredBought : Venue where
  orders :=
    [{ id := "1", symbol := "BTC/USDT:USDT", side := some "buy", type := some "market",
       amount := some 100, filled := some 100, status := some "open" }]
  contracts := 100

def hundredHeld (contractSize : Decimal) : CcxtRawPosition :=
  hundredBought.position "BTC/USDT:USDT" "buy" (some contractSize)

/-- What `getPositions` reports of it. -/
def hundredReported (quantity : Decimal) : BrokerPosition where
  contract :=
    { symbol := "BTC", secType := "CRYPTO_PERP", exchange := "okx", currency := "USDT",
      localSymbol := "BTC/USDT:USDT" }
  side := .long
  quantity := quantity

theorem hundred_reported {contractSize quantity : Decimal} (h : 0 < contractSize)
    (hquantity : |100| * contractSize = quantity) :
    Reported (sampleSwaps contractSize) [hundredHeld contractSize] [] [hundredReported quantity]
      (hundredHeld contractSize) (hundredReported quantity) := by
  have hheld : (hundredHeld contractSize).quantity ≠ 0 := by
    change |(100 : ℚ)| * contractSize ≠ 0
    exact mul_ne_zero (abs_ne_zero.mpr (by decide)) h.ne'
  have hreports : reportPosition (sampleSwaps contractSize) (hundredHeld contractSize) =
      .ok (some (hundredReported quantity)) := by
    change (if (hundredHeld contractSize).quantity = 0 then _ else _) = _
    rw [if_neg hheld, ← hquantity]
    rfl
  refine ⟨?_, List.mem_singleton_self _, hreports, h⟩
  simp only [getPositions, List.mapM_cons, hreports]
  rfl

theorem hundred_reached : Reach (Venue.step "BTC/USDT:USDT" "buy") anyStep .flat hundredBought := by
  let r : NewOrder :=
    { symbol := "BTC/USDT:USDT", type := "market", side := "buy", amount := 100, price := none
      params := {} }
  have haccepted : Venue.flat.step "BTC/USDT:USDT" "buy" (.accepted r "1") =
      some { orders := [r.asOrder "1"], contracts := 0 } := rfl
  refine (Reach.single trivial haccepted).tail (e := .filled "1" 100) trivial ?_
  decide +kernel

def thousandDollars : BrokerOrder where
  action := "BUY"
  orderType := "MKT"
  cashQty := 1000

/-- Contracts of one unit: the close sends the hundred contracts. -/
theorem unit_contracts_closed :
    ∃ r, closePosition .ascii (sampleSwaps 1) [hundredReported 100] (hundredReported 100).contract
        none = .ok r ∧ r.amount = |(hundredHeld 1).contracts.getD 0| := by
  have hiff := (quantities_keep_unit_iff .ascii (sampleSwaps 1)).1
  have hquantity : |(100 : ℚ)| * 1 = 100 := by norm_num
  have hreported := hundred_reported one_pos hquantity
  refine ⟨_, rfl, ?_⟩
  apply (hiff _ _ _ _ _ (hundredReported 100).contract _ hreported rfl).mpr
  exact ⟨_, rfl, .inl ⟨rfl, .inl ⟨rfl, rfl⟩⟩⟩

/-- Contracts of a hundredth: the close of a hundred contracts sends one, a thousand dollars
buy for ten, and fills of a hundred are read back for a position of one. -/
theorem not_quantities_keep_unit :
    (∃ r, Reported (sampleSwaps (1 / 100)) [hundredHeld (1 / 100)] [] [hundredReported 1]
        (hundredHeld (1 / 100)) (hundredReported 1) ∧
      closePosition .ascii (sampleSwaps (1 / 100)) [hundredReported 1] (hundredReported 1).contract
        none = .ok r ∧
      r.amount = 1 ∧ (hundredHeld (1 / 100)).contracts = some 100) ∧
    (∃ r, placeOrder .ascii (sampleSwaps (1 / 100)) (hundredReported 1).contract thousandDollars
        none false = .ok r ∧
      r.amount * (1 / 100) * 50000 = 10) ∧
    Reach (Venue.step "BTC/USDT:USDT" "buy") anyStep .flat hundredBought ∧
      filledReadBack .ascii (sampleSwaps (1 / 100)) (fun _ ↦ some "BTC/USDT:USDT") (fun _ ↦ none)
        hundredBought = 100 := by
  have hpositive : (0 : ℚ) < 1 / 100 := by norm_num
  have hquantity : |(100 : ℚ)| * (1 / 100) = 1 := by norm_num
  refine ⟨⟨_, hundred_reported hpositive hquantity, rfl, rfl, rfl⟩, ⟨_, rfl, ?_⟩, hundred_reached, ?_⟩
  · change (1000 / 50000 : ℚ) * (1 / 100) * 50000 = 10
    norm_num
  · change (100 + 0 : ℚ) = 100
    norm_num

end OpenAlice.Trading.Brokers.Ccxt
