import OpenAlice.Data.Totals
import OpenAlice.Trading.Brokers.MockBroker
import Mathlib.Tactic.Ring

/-!
# The fills of the simulated exchange

`performed` lists the fills of a call, each with the exchange before and after it, and `fills` those
of a run.  A fill changes two things: what the positions come to when each counts by its side at its
price, `signedValue`, and the cash.

* The sum of the positions changes by the quantity at what one unit under the key counts for,
  `worth`;
* the cash changes by the quantity at the price and a multiplier, `booked`.

`fills_effect` says so of every fill of every run.  Decimal arithmetic is exact throughout.
-/

namespace OpenAlice.Trading.Brokers.MockBroker

open Data

variable (js : Js) (toFixed : Decimal → String)

/-! ## The fills of a run -/

/-- A fill: what is traded, at which price, and at which key where the trade is one outside. -/
structure Fill where
  before : MockBroker
  after : MockBroker
  contract : BrokerContract
  side : String
  quantity : Decimal
  price : Decimal
  external : Option String := none

def placed (s : MockBroker) (contract : BrokerContract) (order : BrokerOrder) : List Fill :=
  let outcome := s.placeOrder .exact js toFixed contract order
  if order.orderType = "MKT" ∧ outcome.2.success = true then
    [{ before := s, after := outcome.1, contract := contract
       side := js.toUpperCase order.action, quantity := sizeOf order
       price := s.marketPrice contract }]
  else []

def orderFilled (s : MockBroker) (orderId : String) (price qty : Option Decimal) : List Fill :=
  match s.pending orderId, s.fillOrder .exact js toFixed orderId price qty with
  | some internal, .ok t =>
    [{ before := s, after := t, contract := internal.contract
       side := js.toUpperCase internal.order.action
       quantity := qty.getD internal.order.totalQuantity
       price := s.fillPriceOf internal price }]
  | _, _ => []

def matched (nativeKey : String) (price : Decimal) : List String → MockBroker → List Fill
  | [], _ => []
  | orderId :: ids, s =>
    match (s.orders.lookup orderId).filter fun o ↦ Touched js nativeKey price o with
    | none => matched nativeKey price ids s
    | some _ =>
      match s.fillOrder .exact js toFixed orderId (some price) none with
      | .error _ => []
      | .ok t =>
        s.orderFilled js toFixed orderId (some price) none ++ matched nativeKey price ids t

def tradedContract (s : MockBroker) (nativeKey : String) (part : BrokerContract) :
    Except String BrokerContract :=
  match s.positions.lookup nativeKey with
  | none => contractOf nativeKey part
  | some existing => .ok existing.contract

def traded (s : MockBroker) (nativeKey : String) (side : OrderAction) (qty price : Decimal)
    (part : BrokerContract) : List Fill :=
  match s.tradedContract nativeKey part,
      s.externalTrade .exact toFixed nativeKey side qty price part with
  | .ok contract, .ok t =>
    [{ before := s, after := t, contract := contract, side := side.toText, quantity := qty
       price := price, external := some nativeKey }]
  | _, _ => []

def performed (s : MockBroker) : Call → List Fill
  | .placeOrder contract order => s.placed js toFixed contract order
  | .closePosition contract quantity =>
    match s.positions.lookup (getNativeKey contract) with
    | none => []
    | some pos => s.placed js toFixed pos.contract (closingOrder pos quantity)
  | .setMarkPrice nativeKey price =>
    matched js toFixed nativeKey price (s.orders.map Prod.fst) (s.putMark nativeKey price)
  | .tickPrice nativeKey deltaPercent =>
    match s.markPrices.lookup nativeKey with
    | none => []
    | some current =>
      let price := ticked .exact current deltaPercent
      matched js toFixed nativeKey price (s.orders.map Prod.fst) (s.putMark nativeKey price)
  | .fillOrder orderId price qty => s.orderFilled js toFixed orderId price qty
  | .externalTrade nativeKey side qty price part =>
    s.traded toFixed nativeKey side qty price part
  | _ => []

def fills : List Call → MockBroker → List Fill
  | [], _ => []
  | call :: calls, s => s.performed js toFixed call ++ fills calls (s.step .exact js toFixed call)

/-! ## What the positions are worth -/

def AllMarked (s : MockBroker) : Prop :=
  ∀ entry ∈ s.positions, (s.markPriceFor entry.2.contract).isSome = true

instance (s : MockBroker) : Decidable s.AllMarked :=
  inferInstanceAs (Decidable (∀ entry ∈ s.positions, _ = true))

def unitFor (s : MockBroker) (contract : BrokerContract) : Decimal :=
  (s.markPriceFor contract).getD 0 * multiplierOf contract

def unitOf (s : MockBroker) (pos : InternalPosition) : Decimal :=
  pos.marketPriceOverride.getD ((s.markPriceFor pos.contract).getD 0) * multiplierOf pos.contract

def signedValue (s : MockBroker) (pos : InternalPosition) : Decimal :=
  sideSign pos.side * (pos.quantity * s.unitOf pos)

def netLiquidation (s : MockBroker) : Option Decimal :=
  (s.getAccount .exact).netLiquidation

theorem multiplierToDecimal_getD (c : BrokerContract) :
    multiplierToDecimal (some (c.multiplier.getD 1)) = multiplierOf c := by
  rw [multiplierToDecimal, multiplierOf]
  cases c.multiplier with
  | none => exact if_neg one_ne_zero
  | some d => rfl

theorem marketValue_eq {s : MockBroker} {pos : InternalPosition}
    (h : (s.markPriceFor pos.contract).isSome = true) :
    (s.positionMath .exact pos).1 = some (pos.quantity * s.unitOf pos) := by
  obtain ⟨mark, hmark⟩ := Option.isSome_iff_exists.mp h
  have hprice : s.priceOf pos = some (pos.marketPriceOverride.getD mark) := by
    rw [priceOf, hmark]
    cases pos.marketPriceOverride <;> rfl
  have hunit : s.unitOf pos = pos.marketPriceOverride.getD mark * multiplierOf pos.contract := by
    rw [unitOf, hmark]
    rfl
  simp only [positionMath, hprice, derivePositionMath, multiplierToDecimal_getD]
  rw [hunit, ← mul_assoc]
  rfl

theorem aggregate_eq (cash : Decimal) (inputs : List (Side × Decimal)) :
    (aggregateAccountFromPositions (Rounding.exact : Rounding Decimal).round cash inputs).1 =
      cash + totalOf (fun input ↦ sideSign input.1 * input.2) (inputs.map fun p ↦ ((), p)) := by
  have hsum : ∀ (inputs : List (Side × Decimal)) (total : Decimal),
      inputs.foldl (fun total p ↦ (Rounding.exact : Rounding Decimal).round
          (total + if p.1 = .short then -p.2 else p.2)) total =
        total + totalOf (fun input ↦ sideSign input.1 * input.2) (inputs.map fun p ↦ ((), p)) := by
    intro inputs
    induction inputs with
    | nil => exact fun total ↦ (add_zero total).symm
    | cons input rest ih =>
      intro total
      rw [List.foldl_cons, ih, List.map_cons, totalOf, ← add_assoc]
      congr 1
      change total + _ = total + _
      congr 1
      cases input.1 with
      | long => exact (one_mul _).symm
      | short => exact (neg_one_mul _).symm
  rw [aggregateAccountFromPositions]
  exact congrArg (cash + ·) ((hsum inputs 0).trans (zero_add _))

/-- **The net liquidation**, where every position has a mark: the cash, and what the positions are
worth. -/
theorem netLiquidation_eq {s : MockBroker} (hinfo : s.accountOverride = none) (h : s.AllMarked) :
    s.netLiquidation = some (s.cash + totalOf s.signedValue s.positions) := by
  have hall : ∀ entries : List (String × InternalPosition),
      (∀ entry ∈ entries, (s.markPriceFor entry.2.contract).isSome = true) →
      (entries.mapM fun entry ↦
        (s.positionMath .exact entry.2).1.map fun marketValue ↦ (entry.2.side, marketValue)) =
      some (entries.map fun entry ↦ (entry.2.side, entry.2.quantity * s.unitOf entry.2)) := by
    intro entries hentries
    induction entries with
    | nil => rfl
    | cons entry rest ih =>
      rw [List.forall_mem_cons] at hentries
      rw [List.mapM_cons, marketValue_eq hentries.1, ih hentries.2]
      rfl
  have hvalues : ∀ entries : List (String × InternalPosition),
      totalOf (fun input ↦ sideSign input.1 * input.2)
        ((entries.map fun entry ↦ (entry.2.side, entry.2.quantity * s.unitOf entry.2)).map
          fun p ↦ ((), p)) = totalOf s.signedValue entries := by
    intro entries
    induction entries with
    | nil => rfl
    | cons entry rest ih =>
      rw [List.map_cons, List.map_cons, totalOf, totalOf, ih]
      rfl
  rw [netLiquidation, getAccount, hinfo]
  change Option.map _ _ = _
  rw [hall s.positions h, Option.map_some, aggregate_eq, hvalues]

/-! ## What a fill changes -/

def Distinct (s : MockBroker) : Prop := (s.positions.map Prod.fst).Nodup

def sideOf (side : String) : Decimal := if side = "BUY" then 1 else -1

def worthAt (s : MockBroker) (contract : BrokerContract) : Decimal :=
  match s.positions.lookup (getNativeKey contract) with
  | some pos => s.unitOf pos
  | none => s.unitFor contract

section Filled

variable {s t : MockBroker} {contract : BrokerContract} {side : String} {qty price : Decimal}
  {pos : InternalPosition}

theorem sideSign_of_increasing (h : pos.Increasing side) : sideSign pos.side = sideOf side := by
  rcases h with ⟨hpos, rfl⟩ | ⟨hpos, rfl⟩ <;> rw [hpos] <;> rfl

theorem sideSign_of_not_increasing (h : ¬ pos.Increasing side)
    (hside : side = "BUY" ∨ side = "SELL") : sideSign pos.side = -sideOf side := by
  rw [InternalPosition.Increasing, not_or, not_and, not_and] at h
  cases hpos : pos.side with
  | long =>
    rcases hside with rfl | rfl
    · exact absurd rfl (h.1 hpos)
    · exact (neg_neg 1).symm
  | short =>
    rcases hside with rfl | rfl
    · rfl
    · exact absurd rfl (h.2 hpos)

theorem signedValue_congr (h : t.markPrices = s.markPrices) : t.signedValue = s.signedValue := by
  funext pos
  rw [signedValue, signedValue, unitOf, unitOf, markPriceFor, markPriceFor, h]

theorem total_putPosition (f : InternalPosition → Decimal) (key : String) :
    totalOf f (s.putPosition key pos).positions =
      totalOf f s.positions - worthOf f (s.positions.lookup key) + f pos :=
  totalOf_setKey f

theorem Filled.total (h : s.Filled .exact contract side qty price t) (hs : s.Distinct)
    (hside : side = "BUY" ∨ side = "SELL") :
    totalOf s.signedValue t.positions =
      totalOf s.signedValue s.positions + sideOf side * (qty * s.worthAt contract) := by
  rw [worthAt]
  cases h with
  | opens hnone hne =>
    obtain rfl : side = "BUY" := hside.resolve_right hne
    rw [total_putPosition, hnone, worthOf_none, sub_zero]
    rfl
  | @adds pos hsome hinc =>
    have hadd : s.signedValue (pos.increase .exact qty price) =
        s.signedValue pos + sideSign pos.side * (qty * s.unitOf pos) := by
      change sideSign pos.side * ((pos.quantity + qty) * s.unitOf pos) = _
      rw [signedValue]
      ring
    rw [total_putPosition, hsome, worthOf_some, hadd, sideSign_of_increasing hinc]
    ring
  | @closes pos hsome hred hzero =>
    have hall : pos.quantity = qty := sub_eq_zero.mp hzero
    rw [hsome, dropPosition, totalOf_deleteKey _ hs, hsome, worthOf_some, signedValue,
      sideSign_of_not_increasing hred hside, hall]
    ring
  | @reduces pos hsome hred hpos =>
    have hless : s.signedValue { pos with quantity := pos.quantity - qty } =
        s.signedValue pos - sideSign pos.side * (qty * s.unitOf pos) := by
      change sideSign pos.side * ((pos.quantity - qty) * s.unitOf pos) = _
      rw [signedValue]
      ring
    rw [total_putPosition, hsome, worthOf_some]
    change _ - _ + s.signedValue { pos with quantity := pos.quantity - qty } = _
    rw [hless, sideSign_of_not_increasing hred hside]
    ring

theorem Filled.distinct {R : Rounding Decimal} (h : s.Filled R contract side qty price t)
    (hs : s.Distinct) : t.Distinct := by
  cases h with
  | opens | adds | reduces => exact nodup_setKey hs
  | closes => exact nodup_deleteKey hs

theorem Filled.allMarked {R : Rounding Decimal} (h : s.Filled R contract side qty price t)
    (hs : s.AllMarked) (hmark : (s.markPriceFor contract).isSome = true) : t.AllMarked := by
  have hput : ∀ pos : InternalPosition, (s.markPriceFor pos.contract).isSome = true →
      (s.putPosition (getNativeKey contract) pos).AllMarked := by
    intro pos hpos entry hentry
    rcases mem_setKey hentry with rfl | hentry
    · exact hpos
    · exact hs entry hentry
  cases h with
  | opens => exact hput _ hmark
  | adds hsome => exact hput _ (hs _ (mem_of_lookup hsome))
  | closes => exact fun entry hentry ↦ hs entry (List.mem_of_mem_filter hentry)
  | reduces hsome => exact hput _ (hs _ (mem_of_lookup hsome))

end Filled

namespace Fill

def held (f : Fill) : Option InternalPosition :=
  match f.external with
  | none => f.before.positions.lookup (getNativeKey f.contract)
  | some nativeKey =>
    (f.before.positions.lookup nativeKey).bind fun _ ↦
      f.before.positions.lookup (getNativeKey f.contract)

def worth (f : Fill) : Decimal :=
  match f.held with
  | some pos => f.before.unitOf pos
  | none => f.before.unitFor f.contract

def ClosesOut (f : Fill) : Prop :=
  f.external = some (getNativeKey f.contract) ∧
    ∃ pos ∈ f.before.positions.lookup (getNativeKey f.contract),
      ¬ pos.Increasing f.side ∧ pos.quantity = f.quantity

instance (f : Fill) : Decidable f.ClosesOut := inferInstanceAs (Decidable (_ ∧ _))

def booked (f : Fill) : Decimal := if f.ClosesOut then 1 else multiplierOf f.contract

structure Effect (f : Fill) : Prop where
  override : f.after.accountOverride = f.before.accountOverride
  marks : f.after.markPrices = f.before.markPrices
  cash : f.after.cash = f.before.cash - sideOf f.side * (f.quantity * f.price * f.booked)
  total : totalOf f.before.signedValue f.after.positions =
    totalOf f.before.signedValue f.before.positions + sideOf f.side * (f.quantity * f.worth)
  marked : f.before.AllMarked → (f.before.markPriceFor f.contract).isSome = true → f.after.AllMarked

end Fill

theorem settle_cash (s : MockBroker) (side : String) (qty price multiplier : Decimal) :
    (s.settle .exact side (costOf .exact qty price multiplier)).cash =
      s.cash - sideOf side * (qty * price * multiplier) := by
  have hcost : costOf .exact qty price multiplier = qty * price * multiplier := rfl
  rw [hcost, settle, sideOf]
  split_ifs with hside
  · change s.cash - qty * price * multiplier = _
    ring
  · change s.cash + qty * price * multiplier = _
    ring

/-- Two states of one account: they differ in the orders only. -/
structure SameAccount (s t : MockBroker) : Prop where
  positions : s.positions = t.positions
  marks : s.markPrices = t.markPrices
  cash : s.cash = t.cash
  override : s.accountOverride = t.accountOverride

namespace SameAccount

variable {s t : MockBroker} {contract : BrokerContract}

theorem markPriceFor_eq (h : s.SameAccount t) :
    s.markPriceFor contract = t.markPriceFor contract := by
  rw [markPriceFor, markPriceFor, h.marks]

theorem worthAt_eq (h : s.SameAccount t) : s.worthAt contract = t.worthAt contract := by
  have hunit : s.unitOf = t.unitOf := by
    funext pos
    rw [unitOf, unitOf, h.markPriceFor_eq]
  rw [worthAt, worthAt, h.positions, hunit, unitFor, unitFor, h.markPriceFor_eq]

theorem allMarked (h : s.SameAccount t) (ht : t.AllMarked) : s.AllMarked := by
  intro entry hentry
  rw [h.markPriceFor_eq]
  exact ht entry (h.positions ▸ hentry)

end SameAccount

/-- The fill of an order: what `applyFill` does, and the cash at the multiplier of the contract. -/
theorem Fill.effect_of_filled {f : Fill} {s t : MockBroker} (hext : f.external = none)
    (hbefore : s.SameAccount f.before)
    (h : s.Filled .exact f.contract f.side f.quantity f.price t)
    (hafter : f.after.SameAccount (t.settle .exact f.side
      (costOf .exact f.quantity f.price (multiplierOf f.contract))))
    (hdistinct : f.before.Distinct) (hside : f.side = "BUY" ∨ f.side = "SELL") : f.Effect := by
  have hbooked : f.booked = multiplierOf f.contract := by
    refine if_neg fun hclose ↦ ?_
    exact absurd (hext.symm.trans hclose.1) (Option.some_ne_none _).symm
  have hworth : f.worth = s.worthAt f.contract := by
    rw [hbefore.worthAt_eq, Fill.worth, Fill.held, hext]
    rfl
  have hframe := h.frame
  have htmarks : t.markPrices = s.markPrices := by rw [hframe]
  have htcash : t.cash = s.cash := by rw [hframe]
  have htoverride : t.accountOverride = s.accountOverride := by rw [hframe]
  constructor
  · exact hafter.override.trans (htoverride.trans hbefore.override)
  · exact hafter.marks.trans (htmarks.trans hbefore.marks)
  · rw [hafter.cash, hbooked, settle_cash, htcash, hbefore.cash]
  · have htotal := h.total (by rwa [Distinct, hbefore.positions]) hside
    rw [signedValue_congr hbefore.marks, hbefore.positions] at htotal
    rw [hafter.positions, hworth]
    exact htotal
  · intro hall hmark
    have htall : t.AllMarked := by
      refine h.allMarked (hbefore.allMarked hall) ?_
      rwa [hbefore.markPriceFor_eq]
    exact hafter.allMarked htall

/-! ## The fills of a call -/

section Calls

variable {js : Js} {toFixed : Decimal → String} {s : MockBroker} {f : Fill}

theorem placed_effect {contract : BrokerContract} {order : BrokerOrder}
    (hf : f ∈ s.placed js toFixed contract order) (hs : s.Distinct)
    (hside : f.side = "BUY" ∨ f.side = "SELL") : f.Effect := by
  simp only [placed] at hf
  split_ifs at hf with h
  · obtain ⟨hmkt, hsuccess⟩ := h
    obtain rfl := List.mem_singleton.mp hf
    cases ht : s.takeId.applyFill .exact toFixed contract (js.toUpperCase order.action)
        (sizeOf order) (s.marketPrice contract) with
    | error e =>
      rw [placeOrder_of_error .exact js toFixed hmkt ht] at hsuccess
      exact absurd hsuccess Bool.false_ne_true
    | ok t =>
      refine Fill.effect_of_filled rfl (s := s.takeId) ⟨rfl, rfl, rfl, rfl⟩
        (applyFill_ok _ _ _ ht) ?_ hs hside
      rw [placeOrder_of_ok .exact js toFixed hmkt ht]
      exact ⟨rfl, rfl, rfl, rfl⟩
  · exact absurd hf List.not_mem_nil

theorem orderFilled_effect {orderId : String} {price qty : Option Decimal}
    (hf : f ∈ s.orderFilled js toFixed orderId price qty) (hs : s.Distinct)
    (hside : f.side = "BUY" ∨ f.side = "SELL") : f.Effect := by
  rw [orderFilled] at hf
  split at hf
  · next internal u hpending hu =>
      obtain rfl := List.mem_singleton.mp hf
      obtain ⟨internal', t, hpending', -, -, ht, rfl⟩ := fillOrder_ok _ _ _ _ hu
      obtain rfl : internal = internal' := Option.some.inj (hpending.symm.trans hpending')
      exact Fill.effect_of_filled rfl ⟨rfl, rfl, rfl, rfl⟩ (applyFill_ok _ _ _ ht)
        ⟨rfl, rfl, rfl, rfl⟩ hs hside
  · exact absurd hf List.not_mem_nil

theorem fillOrder_distinct {orderId : String} {price qty : Option Decimal} {u : MockBroker}
    (h : s.fillOrder .exact js toFixed orderId price qty = .ok u) (hs : s.Distinct) :
    u.Distinct := by
  obtain ⟨internal, t, -, -, -, ht, rfl⟩ := fillOrder_ok _ _ _ _ h
  exact (applyFill_ok _ _ _ ht).distinct hs

variable {nativeKey : String}

theorem matched_effect {price : Decimal} {ids : List String}
    (hf : f ∈ matched js toFixed nativeKey price ids s) (hs : s.Distinct)
    (hside : f.side = "BUY" ∨ f.side = "SELL") : f.Effect := by
  induction ids generalizing s with
  | nil => exact absurd hf List.not_mem_nil
  | cons orderId ids ih =>
    rw [matched] at hf
    split at hf
    · exact ih hf hs
    split at hf
    · exact absurd hf List.not_mem_nil
    rename_i u hu
    rcases List.mem_append.mp hf with hf | hf
    · exact orderFilled_effect hf hs hside
    · exact ih hf (fillOrder_distinct hu hs)

theorem Filled.multiplierAt {t : MockBroker} {nativeKey side : String} {qty price : Decimal}
    {existing : InternalPosition} (hat : s.positions.lookup nativeKey = some existing)
    (h : s.Filled .exact existing.contract side qty price t) :
    t.multiplierAt nativeKey =
      if getNativeKey existing.contract = nativeKey ∧ ¬ existing.Increasing side ∧
          existing.quantity = qty then 1
      else multiplierOf existing.contract := by
  by_cases hkey : getNativeKey existing.contract = nativeKey
  · -- The position under the key is the one that is traded.
    cases h with
    | opens hnone =>
      rw [hkey, hat] at hnone
      exact absurd hnone (Option.some_ne_none _)
    | @adds pos hsome hinc =>
      obtain rfl : existing = pos := Option.some.inj (hat.symm.trans (hkey ▸ hsome))
      rw [if_neg fun hclose ↦ hclose.2.1 hinc, MockBroker.multiplierAt, putPosition, hkey,
        lookup_setKey_self]
      rfl
    | @closes pos hsome hred hzero =>
      obtain rfl : existing = pos := Option.some.inj (hat.symm.trans (hkey ▸ hsome))
      rw [if_pos ⟨hkey, hred, sub_eq_zero.mp hzero⟩, MockBroker.multiplierAt, dropPosition, hkey,
        lookup_deleteKey_self]
      rfl
    | @reduces pos hsome hred hpos =>
      obtain rfl : existing = pos := Option.some.inj (hat.symm.trans (hkey ▸ hsome))
      have hne : existing.quantity ≠ qty := sub_ne_zero.mp (ne_of_gt hpos)
      rw [if_neg fun hclose ↦ hne hclose.2.2, MockBroker.multiplierAt, putPosition, hkey,
        lookup_setKey_self]
      rfl
  · -- The trade goes by another key, and leaves this one alone.
    have hkeep : t.positions.lookup nativeKey = some existing := by
      rw [← hat]
      cases h with
      | opens | adds | reduces => exact lookup_setKey_of_ne (Ne.symm hkey) _
      | closes => exact lookup_deleteKey_of_ne (Ne.symm hkey) _
    rw [if_neg fun hclose ↦ hkey hclose.1, MockBroker.multiplierAt, hkeep]
    rfl

theorem total_tagWallet (v : MockBroker) (t : MockBroker) (key : String) :
    totalOf v.signedValue (t.tagWallet key).positions = totalOf v.signedValue t.positions :=
  totalOf_changeKey (g := fun pos ↦ { pos with avgCostSource := some .wallet }) v.signedValue
    fun _ ↦ rfl

theorem allMarked_tagWallet {t : MockBroker} {key : String} (h : t.AllMarked) :
    (t.tagWallet key).AllMarked := by
  intro entry hentry
  obtain ⟨entry', hentry', rfl⟩ := List.mem_map.mp hentry
  have hmark := h entry' hentry'
  split_ifs
  · exact hmark
  · exact hmark

theorem multiplierAt_tagWallet {t : MockBroker} {key : String} :
    (t.tagWallet key).multiplierAt key = t.multiplierAt key := by
  rw [MockBroker.multiplierAt, MockBroker.multiplierAt, tagWallet, lookup_changeKey_self,
    Option.map_map]
  rfl

theorem opening_effect {contract : BrokerContract} {side : OrderAction}
    {qty price : Decimal} (hat : s.positions.lookup nativeKey = none)
    (hside : side.toText = "BUY" ∨ side.toText = "SELL") :
    let t := s.putPosition nativeKey
      { contract := contract, side := if side = .BUY then .long else .short, quantity := qty
        avgCost := some price, avgCostSource := some .wallet }
    Fill.Effect
      { before := s
        after := t.settle .exact side.toText (costOf .exact qty price (t.multiplierAt nativeKey))
        contract := contract, side := side.toText, quantity := qty, price := price
        external := some nativeKey } := by
  intro t
  set f : Fill :=
    { before := s
      after := t.settle .exact side.toText (costOf .exact qty price (t.multiplierAt nativeKey))
      contract := contract, side := side.toText, quantity := qty, price := price
      external := some nativeKey } with hf
  have hmultiplier : t.multiplierAt nativeKey = multiplierOf contract := by
    show (((setKey s.positions nativeKey _).lookup nativeKey).map fun pos ↦
      multiplierOf pos.contract).getD 1 = multiplierOf contract
    rw [lookup_setKey_self]
    rfl
  have hbooked : f.booked = multiplierOf contract := by
    refine if_neg fun hclose ↦ ?_
    obtain ⟨hkey, pos, hpos, -⟩ := hclose
    rw [← Option.some.inj hkey, hat] at hpos
    exact absurd hpos (Option.not_mem_none pos)
  have hworth : f.worth = s.unitFor contract := by
    rw [Fill.worth, Fill.held]
    simp only [hf, hat, Option.bind_none]
  constructor
  · rfl
  · rfl
  · rw [hbooked, ← hmultiplier]
    exact settle_cash t side.toText qty price _
  · refine (total_putPosition s.signedValue nativeKey).trans ?_
    rw [hat, worthOf_none, sub_zero, hworth]
    congr 1
    cases side with
    | BUY => rfl
    | SELL => rfl
  · intro hall hmark entry hentry
    rcases mem_setKey hentry with rfl | hentry
    · exact hmark
    · exact hall entry hentry

theorem existing_effect {existing : InternalPosition} {side : OrderAction}
    {qty price : Decimal} {filled : MockBroker}
    (hat : s.positions.lookup nativeKey = some existing)
    (hfilled : s.Filled .exact existing.contract side.toText qty price filled) (hs : s.Distinct)
    (hside : side.toText = "BUY" ∨ side.toText = "SELL") :
    let t := filled.tagWallet nativeKey
    Fill.Effect
      { before := s
        after := t.settle .exact side.toText (costOf .exact qty price (t.multiplierAt nativeKey))
        contract := existing.contract, side := side.toText, quantity := qty, price := price
        external := some nativeKey } := by
  intro t
  set f : Fill :=
    { before := s
      after := t.settle .exact side.toText (costOf .exact qty price (t.multiplierAt nativeKey))
      contract := existing.contract, side := side.toText, quantity := qty, price := price
      external := some nativeKey } with hf
  have hbooked : f.booked = t.multiplierAt nativeKey := by
    rw [multiplierAt_tagWallet, hfilled.multiplierAt hat, Fill.booked]
    refine if_congr ?_ rfl rfl
    constructor
    · rintro ⟨hkey, pos, hpos, hred, hall⟩
      have hkey' := Option.some.inj hkey
      rw [← hkey', hat] at hpos
      obtain rfl := Option.some.inj hpos
      exact ⟨hkey'.symm, hred, hall⟩
    · rintro ⟨hkey, hred, hall⟩
      exact ⟨congrArg some hkey.symm, existing, by rw [hf, hkey]; exact hat, hred, hall⟩
  have hworth : f.worth = s.worthAt existing.contract := by
    rw [Fill.worth, Fill.held, worthAt]
    simp only [hf, hat, Option.bind_some]
  have hframe := hfilled.frame
  have htmarks : filled.markPrices = s.markPrices := by rw [hframe]
  have htcash : t.cash = s.cash := by
    change filled.cash = s.cash
    rw [hframe]
  constructor
  · change filled.accountOverride = s.accountOverride
    rw [hframe]
  · exact htmarks
  · rw [hbooked]
    refine (settle_cash t side.toText qty price _).trans ?_
    rw [htcash]
  · rw [hworth, ← hfilled.total hs hside]
    exact total_tagWallet s filled nativeKey
  · intro hall hmark
    exact allMarked_tagWallet (hfilled.allMarked hall hmark)

theorem traded_effect {side : OrderAction} {qty price : Decimal}
    {part : BrokerContract} (hf : f ∈ s.traded toFixed nativeKey side qty price part)
    (hs : s.Distinct) : f.Effect := by
  rw [traded] at hf
  split at hf
  · next contract u hcontract hu =>
      obtain rfl := List.mem_singleton.mp hf
      obtain ⟨t, -, ht, rfl⟩ := externalTrade_ok _ _ _ hu
      rw [tradePosition] at ht
      rw [tradedContract] at hcontract
      have hside : side.toText = "BUY" ∨ side.toText = "SELL" := by
        cases side with
        | BUY => exact .inl rfl
        | SELL => exact .inr rfl
      cases hat : s.positions.lookup nativeKey with
      | none =>
        -- The trade opens a position with the contract that is built for it.
        simp only [hat] at hcontract ht
        rw [hcontract] at ht
        cases ht
        exact opening_effect hat hside
      | some existing =>
        simp only [hat] at hcontract ht
        cases hcontract
        cases hfilled : s.applyFill .exact toFixed existing.contract side.toText qty price with
        | error e =>
          rw [hfilled] at ht
          cases ht
        | ok filled =>
          rw [hfilled] at ht
          cases ht
          exact existing_effect hat (applyFill_ok _ _ _ hfilled) hs hside
  · exact absurd hf List.not_mem_nil

/-! ## Runs -/

theorem setPositions_distinct (positions : List BuiltPosition) :
    (s.setPositions positions).Distinct := by
  have hfold : ∀ (positions : List BuiltPosition) (entries : List (String × InternalPosition))
      (keyOf : BuiltPosition → String) (made : BuiltPosition → InternalPosition),
      (entries.map Prod.fst).Nodup →
      ((positions.foldl (fun entries p ↦ setKey entries (keyOf p) (made p)) entries).map
        Prod.fst).Nodup := by
    intro positions
    induction positions with
    | nil => exact fun _ _ _ h ↦ h
    | cons p positions ih => exact fun entries keyOf made h ↦ ih _ keyOf made (nodup_setKey h)
  exact hfold positions [] _ _ List.nodup_nil

theorem placeOrder_distinct {contract : BrokerContract} {order : BrokerOrder} (hs : s.Distinct) :
    (s.placeOrder .exact js toFixed contract order).1.Distinct := by
  by_cases hmkt : order.orderType = "MKT"
  · cases ht : s.takeId.applyFill .exact toFixed contract (js.toUpperCase order.action)
        (sizeOf order) (s.marketPrice contract) with
    | error e =>
      rw [placeOrder_of_error .exact js toFixed hmkt ht]
      exact hs
    | ok t =>
      rw [placeOrder_of_ok .exact js toFixed hmkt ht]
      exact (applyFill_ok _ _ _ ht).distinct hs
  · rw [placeOrder_waiting .exact js toFixed hmkt]
    exact hs

theorem setMarkPrice_distinct {price : Decimal} (hs : s.Distinct) :
    (s.setMarkPrice .exact js toFixed nativeKey price).1.Distinct :=
  matchOrders_invariant .exact js toFixed (fun _ _ _ h hu ↦ fillOrder_distinct hu h) _ hs

theorem tagWallet_distinct {t : MockBroker} {key : String} (h : t.Distinct) :
    (t.tagWallet key).Distinct := by
  rw [Distinct, tagWallet, keys_changeKey]
  exact h

theorem externalTrade_distinct {side : OrderAction} {qty price : Decimal}
    {part : BrokerContract} {u : MockBroker}
    (h : s.externalTrade .exact toFixed nativeKey side qty price part = .ok u) (hs : s.Distinct) :
    u.Distinct := by
  obtain ⟨t, -, ht, rfl⟩ := externalTrade_ok _ _ _ h
  rw [tradePosition] at ht
  split at ht
  · obtain ⟨contract, -, rfl⟩ := map_ok ht
    exact nodup_setKey hs
  · obtain ⟨filled, hfilled, rfl⟩ := map_ok ht
    exact tagWallet_distinct ((applyFill_ok _ _ _ hfilled).distinct hs)

theorem setOrders_positions (orders : List InjectedOrder) :
    (s.setOrders orders).positions = s.positions := by
  have hinject : ∀ (t : MockBroker) (o : InjectedOrder), (t.inject o).positions = t.positions := by
    intro t o
    rw [inject]
    split_ifs <;> rfl
  have hfold : ∀ (orders : List InjectedOrder) (t : MockBroker),
      (orders.foldl inject t).positions = t.positions := by
    intro orders
    induction orders with
    | nil => exact fun _ ↦ rfl
    | cons o orders ih =>
      intro t
      rw [List.foldl_cons, ih, hinject]
  exact hfold orders _

theorem step_distinct (call : Call) (hs : s.Distinct) :
    (s.step .exact js toFixed call).Distinct := by
  cases call with
  | placeOrder contract order => exact placeOrder_distinct hs
  | modifyOrder orderId changes =>
    rw [step, modifyOrder]
    split <;> exact hs
  | cancelOrder orderId =>
    rw [step, cancelOrder]
    split <;> exact hs
  | closePosition contract quantity =>
    rw [step, closePosition]
    split
    · exact hs
    · exact placeOrder_distinct hs
  | setMarkPrice nativeKey price => exact setMarkPrice_distinct hs
  | tickPrice nativeKey deltaPercent =>
    rw [step, tickPrice]
    split
    · exact hs
    · exact setMarkPrice_distinct hs
  | fillOrder orderId price qty =>
    exact unlessThrown_of s hs fun t ht ↦ fillOrder_distinct ht hs
  | cancelPendingOrder orderId =>
    refine unlessThrown_of s hs fun t ht ↦ ?_
    rw [cancelPendingOrder] at ht
    split at ht <;> cases ht
    exact hs
  | externalDeposit nativeKey qty part =>
    refine unlessThrown_of s hs fun t ht ↦ ?_
    rw [externalDeposit] at ht
    split_ifs at ht
    split at ht
    · cases ht
      exact nodup_setKey hs
    · obtain ⟨contract, -, rfl⟩ := map_ok ht
      exact nodup_setKey hs
  | externalWithdraw nativeKey qty =>
    refine unlessThrown_of s hs fun t ht ↦ ?_
    rw [externalWithdraw] at ht
    split at ht
    · cases ht
    simp only at ht
    split_ifs at ht <;> cases ht
    · exact nodup_deleteKey hs
    · exact nodup_setKey hs
  | externalTrade nativeKey side qty price part =>
    exact unlessThrown_of s hs fun t ht ↦ externalTrade_distinct ht hs
  | setPositions positions => exact setPositions_distinct positions
  | setOrders orders =>
    rw [step, Distinct, setOrders_positions]
    exact hs
  | setAccountInfo info => exact hs

theorem performed_effect {call : Call} (hf : f ∈ s.performed js toFixed call) (hs : s.Distinct)
    (hside : f.side = "BUY" ∨ f.side = "SELL") : f.Effect := by
  cases call with
  | placeOrder contract order => exact placed_effect hf hs hside
  | closePosition contract quantity =>
    rw [performed] at hf
    split at hf
    · exact absurd hf List.not_mem_nil
    · exact placed_effect hf hs hside
  | setMarkPrice nativeKey price => exact matched_effect hf hs hside
  | tickPrice nativeKey deltaPercent =>
    rw [performed] at hf
    split at hf
    · exact absurd hf List.not_mem_nil
    · exact matched_effect hf hs hside
  | fillOrder orderId price qty => exact orderFilled_effect hf hs hside
  | externalTrade nativeKey side qty price part => exact traded_effect hf hs
  | _ => exact absurd hf List.not_mem_nil

theorem fills_effect {calls : List Call} (hf : f ∈ fills js toFixed calls s) (hs : s.Distinct)
    (hside : f.side = "BUY" ∨ f.side = "SELL") : f.Effect := by
  induction calls generalizing s with
  | nil => exact absurd hf List.not_mem_nil
  | cons call calls ih =>
    rw [fills] at hf
    rcases List.mem_append.mp hf with hf | hf
    · exact performed_effect hf hs hside
    · exact ih hf (step_distinct call hs)

end Calls

end OpenAlice.Trading.Brokers.MockBroker
