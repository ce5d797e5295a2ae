import OpenAlice.Trading.Brokers.Staging
import OpenAlice.Trading.Brokers.Alpaca
import OpenAlice.Trading.Brokers.Ccxt
import OpenAlice.Trading.Brokers.Longbridge
import OpenAlice.Trading.Brokers.Futu

/-!
# What a request carries of an order

An approved order has a side, a size, a type, a time in force and up to eight more
parts, and every adapter copies them into its venue's request by hand.  Here the order
and each request are read into one form, a `Ticket`, in which a part has one name
whatever field it travels in; a request is whole when its ticket says what the order's
does.  For a change of an order the form is an `Amendment`.

Two readings matter.  The `auxPrice` of an order is an offset when the order trails, and
a trigger price otherwise.  A time in force that nobody stated may go out as anything.
-/

namespace OpenAlice.Trading.Brokers

/-! ## Words -/

section Words

variable (js : Js)

def Js.SameWord (s t : String) : Prop :=
  js.toLowerCase s = js.toLowerCase t

theorem Js.lower_eq_self {s : String} (ha : Ascii s) (h : s.toList.map Char.toLower = s.toList) :
    js.toLowerCase s = s := by
  rw [js.lower_ascii s ha, asciiLower, h, String.ofList_toList]

def orderTypeName (orderType : String) : String :=
  match js.toLowerCase orderType with
  | "mkt" | "market" => "MKT"
  | "lmt" | "limit" => "LMT"
  | "stp" | "stop" => "STP"
  | "stp lmt" | "stop_limit" => "STP LMT"
  | "trail" | "trailing_stop" => "TRAIL"
  | word => word

def Trails (orderType : String) : Prop :=
  orderType = "TRAIL" ∨ orderType = "TRAIL LIMIT"

instance (orderType : String) : Decidable (Trails orderType) :=
  inferInstanceAs (Decidable (_ ∨ _))

def Exact (d : Option Decimal) : Prop :=
  d.map js.toNumber = d

end Words

/-! ## Orders and requests as tickets -/

/-- The parts of an order, each under one name. -/
structure Ticket where
  side : String
  quantity : Option Decimal
  notional : Option Decimal
  orderType : String
  tif : String
  outsideRth : Bool
  limit : Option Decimal
  trigger : Option Decimal
  trailOffset : Option Decimal
  trailPercent : Option Decimal
  trailStop : Option Decimal
  goodTillDate : String
  takeProfit : Option Decimal
  stopLoss : Option (Decimal × Option Decimal)

def askedTicket (o : BrokerOrder) (tpsl : Option TpSlParams) : Ticket where
  side := o.action
  quantity := field o.totalQuantity
  notional := field o.cashQty
  orderType := o.orderType
  tif := o.tif
  outsideRth := o.outsideRth
  limit := field o.lmtPrice
  trigger := if Trails o.orderType then none else field o.auxPrice
  trailOffset := if Trails o.orderType then field o.auxPrice else none
  trailPercent := field o.trailingPercent
  trailStop := field o.trailStopPrice
  goodTillDate := o.goodTillDate
  takeProfit := tpsl.bind (·.takeProfit)
  stopLoss := tpsl.bind (·.stopLoss)

structure Carries (js : Js) (asked sent : Ticket) : Prop where
  side : js.SameWord sent.side asked.side
  quantity : ∀ q, asked.quantity = some q → sent.quantity = some q
  notional : ∀ v, asked.notional = some v → sent.notional = some v
  orderType : orderTypeName js sent.orderType = orderTypeName js asked.orderType
  tif : asked.tif ≠ "" → js.SameWord sent.tif asked.tif
  outsideRth : sent.outsideRth = asked.outsideRth
  limit : sent.limit = asked.limit
  trigger : sent.trigger = asked.trigger
  trailOffset : sent.trailOffset = asked.trailOffset
  trailPercent : sent.trailPercent = asked.trailPercent
  trailStop : sent.trailStop = asked.trailStop
  goodTillDate : sent.goodTillDate = asked.goodTillDate
  takeProfit : sent.takeProfit = asked.takeProfit
  stopLoss : sent.stopLoss = asked.stopLoss

/-- Every order that is staged and sent is sent whole exactly when the condition holds of
it. -/
def PlacesWholeIff {Request : Type} (js : Js) (broker : Adapter Request)
    (ticket : BrokerOrder → Request → Ticket)
    (keeps : BrokerContract → BrokerOrder → Option TpSlParams → Prop) : Prop :=
  ∀ (acct : Account) (p : StagePlaceOrderParams) (c : BrokerContract) (o : BrokerOrder)
    (t : Option TpSlParams) (latest positions : List BrokerPosition) (r : Request),
    acct.stagePlaceOrder broker p = .ok (.placeOrder c o t) →
    acct.dispatch broker latest positions (.placeOrder c o t) = .ok r →
    (Carries js (askedTicket o t) (ticket o r) ↔ keeps c o t)

/-! ## Changes and requests as amendments -/

/-- The changes of an order, each under one name. -/
structure Amendment where
  quantity : Option Decimal
  limit : Option Decimal
  trigger : Option Decimal
  trailOffset : Option Decimal
  trailPercent : Option Decimal
  trailStop : Option Decimal
  orderType : Option String
  tif : Option String
  goodTillDate : Option String

def typeAfter (target : BrokerOrder) (changes : OrderChanges) : String :=
  (truthy changes.orderType).getD target.orderType

def askedAmendment (target : BrokerOrder) (changes : OrderChanges) : Amendment where
  quantity := changed changes.totalQuantity
  limit := changed changes.lmtPrice
  trigger := if Trails (typeAfter target changes) then none else changed changes.auxPrice
  trailOffset := if Trails (typeAfter target changes) then changed changes.auxPrice else none
  trailPercent := changed changes.trailingPercent
  trailStop := changed changes.trailStopPrice
  orderType := truthy changes.orderType
  tif := truthy changes.tif
  goodTillDate := truthy changes.goodTillDate

structure CarriesChanges (js : Js) (asked sent : Amendment) : Prop where
  quantity : ∀ v, asked.quantity = some v → sent.quantity = some v
  limit : ∀ v, asked.limit = some v → sent.limit = some v
  trigger : ∀ v, asked.trigger = some v → sent.trigger = some v
  trailOffset : ∀ v, asked.trailOffset = some v → sent.trailOffset = some v
  trailPercent : ∀ v, asked.trailPercent = some v → sent.trailPercent = some v
  trailStop : ∀ v, asked.trailStop = some v → sent.trailStop = some v
  orderType : ∀ w, asked.orderType = some w →
    ∃ w', sent.orderType = some w' ∧ orderTypeName js w' = orderTypeName js w
  tif : ∀ w, asked.tif = some w → ∃ w', sent.tif = some w' ∧ js.SameWord w' w
  goodTillDate : ∀ w, asked.goodTillDate = some w → sent.goodTillDate = some w

/-- Every change set that is staged and sent is sent whole exactly when the condition holds
of it and of the order it changes. -/
def ModifiesWholeIff {Request : Type} (js : Js)
    (modifyOrder : String → OrderChanges → Except String Request)
    (amendment : BrokerOrder → Request → Amendment)
    (keeps : BrokerOrder → OrderChanges → Prop) : Prop :=
  ∀ (acct : Account) (p : StageModifyOrderParams) (orderId : String) (target : BrokerOrder)
    (changes : OrderChanges) (r : Request),
    acct.stageModifyOrder p = .ok changes →
    modifyOrder orderId changes = .ok r →
    (CarriesChanges js (askedAmendment target changes) (amendment target r) ↔ keeps target changes)

/-! ## What the adapters' tickets have in common -/

section Common

variable {js : Js}

theorem field_unset : field unsetDecimal = none := if_pos rfl

variable {p : StagePlaceOrderParams}

theorem staged_sizing {Request : Type} {acct : Account} {broker : Adapter Request}
    {c : BrokerContract} {o : BrokerOrder} {t : Option TpSlParams}
    (h : acct.stagePlaceOrder broker p = .ok (.placeOrder c o t)) :
    field o.totalQuantity = none ∨ field o.cashQty = none := by
  obtain ⟨_, _, -, -, hvalid, hop⟩ := Account.stagePlaceOrder_ok h
  cases hop
  rcases Account.validatePlaceOrderParams_sizing hvalid with hq | hc
  · left
    change field (p.totalQuantity.getD unsetDecimal) = none
    rw [hq]
    exact field_unset
  right
  change field (p.cashQty.getD unsetDecimal) = none
  rw [hc]
  exact field_unset

theorem staged_notional {Request : Type} {acct : Account} {broker : Adapter Request}
    {c : BrokerContract} {o : BrokerOrder} {t : Option TpSlParams}
    (h : acct.stagePlaceOrder broker p = .ok (.placeOrder c o t))
    (hq : o.totalQuantity ≠ unsetDecimal) : field o.cashQty = none := by
  rcases staged_sizing h with hno | hno
  · exact nomatch (if_neg hq).symm.trans hno
  · exact hno

theorem staged_action {Request : Type} {acct : Account} {broker : Adapter Request}
    {c : BrokerContract} {o : BrokerOrder} {t : Option TpSlParams}
    (h : acct.stagePlaceOrder broker p = .ok (.placeOrder c o t)) :
    o.action = p.action.toText := by
  obtain ⟨_, _, -, -, -, hop⟩ := Account.stagePlaceOrder_ok h
  cases hop
  rfl

theorem sameWord_lower (s : String) : js.SameWord (js.toLowerCase s) s := js.lower_lower s

theorem orderTypeName_lower (orderType : String) :
    orderTypeName js (js.toLowerCase orderType) = orderTypeName js orderType := by
  rw [orderTypeName, js.lower_lower]
  rfl

theorem orderTypeName_eq {s t : String} (hs : Ascii s) (ht : Ascii t)
    (h : orderTypeName .ascii s = orderTypeName .ascii t) :
    orderTypeName js s = orderTypeName js t := by
  rw [orderTypeName, orderTypeName, js.lower_ascii s hs, js.lower_ascii t ht]
  exact h

theorem eq_none_of_carried {α : Type} {asked : Option α}
    (h : ∀ v, asked = some v → none = some v) : asked = none := by
  cases asked with
  | none => rfl
  | some v => exact nomatch h v rfl

theorem eq_none_of_carriedWord {asked : Option String} {P : String → String → Prop}
    (h : ∀ w, asked = some w → ∃ w', none = some w' ∧ P w' w) : asked = none := by
  cases asked with
  | none => rfl
  | some w =>
    obtain ⟨_, hw, -⟩ := h w rfl
    exact nomatch hw

theorem carried_iff_exact {asked sent : Option Decimal}
    (hsent : ∀ v, asked = some v → sent = some (js.toNumber v)) :
    (∀ v, asked = some v → sent = some v) ↔ Exact js asked := by
  cases asked with
  | none => exact ⟨fun _ ↦ rfl, fun _ v hv ↦ nomatch hv⟩
  | some v =>
    rw [Exact, Option.map_some, hsent v rfl]
    constructor
    · exact fun h ↦ h v rfl
    · rintro h _ ⟨⟩
      exact h

theorem exact_none : Exact js none := rfl

theorem sent_of_map {asked sent : Option Decimal} (h : sent = asked.map js.toNumber) (v : Decimal)
    (hv : asked = some v) : sent = some (js.toNumber v) := by
  rw [h, hv, Option.map_some]

variable {changes : OrderChanges} {target : BrokerOrder}

theorem typeAfter_eq
    (h : truthy changes.orderType = none) : typeAfter target changes = target.orderType := by
  rw [typeAfter, h]
  rfl

theorem askedAmendment_trigger {v : Decimal}
    (h : (askedAmendment target changes).trigger = some v) :
    ¬ Trails (typeAfter target changes) ∧ changed changes.auxPrice = some v := by
  unfold askedAmendment at h
  split at h
  · exact nomatch h
  · next hno => exact ⟨hno, h⟩

theorem askedAmendment_trailOffset {v : Decimal} :
    (askedAmendment target changes).trailOffset = some v ↔
      Trails (typeAfter target changes) ∧ changed changes.auxPrice = some v := by
  unfold askedAmendment
  split
  · next hyes => exact (and_iff_right hyes).symm
  rename_i hno
  constructor
  · exact fun h ↦ nomatch h
  · exact fun h ↦ absurd h.1 hno

theorem no_offset_iff :
    (∀ v, (askedAmendment target changes).trailOffset = some v → (none : Option Decimal) = some v) ↔
      (Trails (typeAfter target changes) → changed changes.auxPrice = none) := by
  constructor
  · intro h htrails
    have hasked : (askedAmendment target changes).trailOffset = changed changes.auxPrice :=
      if_pos htrails
    exact hasked.symm.trans (eq_none_of_carried h)
  intro h v hv
  obtain ⟨htrails, haux⟩ := askedAmendment_trailOffset.mp hv
  exact nomatch (h htrails).symm.trans haux

theorem trigger_iff_exact {sent : Option Decimal}
    (hsent : ∀ v, changed changes.auxPrice = some v → sent = some (js.toNumber v))
    (htrail : Trails (typeAfter target changes) → changed changes.auxPrice = none) :
    (∀ v, (askedAmendment target changes).trigger = some v → sent = some v) ↔
      Exact js (changed changes.auxPrice) := by
  by_cases htrails : Trails (typeAfter target changes)
  · rw [htrail htrails]
    refine ⟨fun _ ↦ exact_none, fun _ v hv ↦ absurd htrails (askedAmendment_trigger hv).1⟩
  have hasked : (askedAmendment target changes).trigger = changed changes.auxPrice :=
    if_neg htrails
  rw [hasked]
  exact carried_iff_exact hsent

theorem sameWord_ascii {s t : String} (hs : Ascii s) (ht : Ascii t)
    (h : asciiLower s = asciiLower t) : js.SameWord s t := by
  rw [Js.SameWord, js.lower_ascii s hs, js.lower_ascii t ht, h]

end Common

/-! ## Alpaca -/

namespace Alpaca

variable {js : Js}

def NewOrder.ticket (r : NewOrder) : Ticket where
  side := r.side
  quantity := r.qty
  notional := r.notional
  orderType := r.type
  tif := r.timeInForce
  outsideRth := r.extendedHours
  limit := r.limitPrice
  trigger := r.stopPrice
  trailOffset := r.trailPrice
  trailPercent := r.trailPercent
  trailStop := none
  goodTillDate := ""
  takeProfit := r.takeProfit
  stopLoss := r.stopLoss

def ticket (_ : BrokerOrder) : Request → Ticket
  | .createOrder r => r.ticket
  | .replaceOrder .. | .closePosition _ => askedTicket {} none

/-- An order goes out whole when it has no expiry date and no trail stop price, a
trailing limit order trails by percent, and the leg prices are doubles. -/
def KeepsOrder (js : Js) (_ : BrokerContract) (o : BrokerOrder) (t : Option TpSlParams) : Prop :=
  o.goodTillDate = "" ∧ field o.trailStopPrice = none ∧
    (o.orderType = "TRAIL LIMIT" → field o.auxPrice = none) ∧
    Exact js (t.bind (·.takeProfit)) ∧
    (t.bind (·.stopLoss)).map (fun l ↦ (js.toNumber l.1, l.2.map js.toNumber)) =
      t.bind (·.stopLoss)

theorem orderTypeName_alpaca (orderType : String) :
    orderTypeName js (ibkrOrderTypeToAlpaca js orderType) = orderTypeName js orderType := by
  unfold ibkrOrderTypeToAlpaca
  split
  · exact orderTypeName_eq (by decide) (by decide) rfl
  · exact orderTypeName_eq (by decide) (by decide) rfl
  · exact orderTypeName_eq (by decide) (by decide) rfl
  · exact orderTypeName_eq (by decide) (by decide) rfl
  · exact orderTypeName_eq (by decide) (by decide) rfl
  · exact orderTypeName_lower orderType

theorem sameWord_alpacaTif {tif : String} (h : tif ≠ "") :
    js.SameWord (ibkrTifToAlpaca js tif) tif := by
  unfold ibkrTifToAlpaca
  split
  · exact sameWord_ascii (by decide) (by decide) rfl
  · exact sameWord_ascii (by decide) (by decide) rfl
  · exact sameWord_ascii (by decide) (by decide) rfl
  · exact sameWord_ascii (by decide) (by decide) rfl
  · exact sameWord_ascii (by decide) (by decide) rfl
  · have hne : js.toLowerCase tif ≠ "" := fun hempty ↦ h (js.lower_eq_empty tif hempty)
    rw [truthy_eq_some.mpr ⟨rfl, hne⟩]
    exact sameWord_lower tif

theorem placesWholeIff : PlacesWholeIff js (broker js) ticket (KeepsOrder js) := by
  intro acct p c o t latest positions r hstage hsend
  have hsizing := staged_sizing hstage
  obtain ⟨symbol, -, rfl⟩ := placeOrder_ok (Account.dispatch_placeOrder_ok hsend)
  change Carries js (askedTicket o t) (newOrder js symbol o t).ticket ↔ _
  constructor
  · intro h
    refine ⟨h.goodTillDate.symm, h.trailStop.symm, ?_, h.takeProfit, h.stopLoss⟩
    intro htype
    have htrigger := h.trigger
    simp only [NewOrder.ticket, newOrder, askedTicket, htype, Trails] at htrigger
    simpa using htrigger
  · rintro ⟨hgtd, hstop, htrail, htp, hsl⟩
    exact
      { side := sameWord_lower o.action
        quantity := fun q hq ↦ hq
        notional := by
          intro v hv
          rcases hsizing with hq | hc
          · exact (if_pos hq).trans hv
          · exact nomatch hc.symm.trans hv
        orderType := orderTypeName_alpaca o.orderType
        tif := sameWord_alpacaTif
        outsideRth := rfl
        limit := rfl
        trigger := by
          by_cases hl : o.orderType = "TRAIL LIMIT"
          · simp [NewOrder.ticket, newOrder, askedTicket, Trails, hl, htrail hl]
          · simp [NewOrder.ticket, newOrder, askedTicket, Trails, hl]
        trailOffset := by
          by_cases hl : o.orderType = "TRAIL LIMIT"
          · simp [NewOrder.ticket, newOrder, askedTicket, Trails, hl, htrail hl]
          · simp [NewOrder.ticket, newOrder, askedTicket, Trails, hl]
        trailPercent := rfl
        trailStop := hstop.symm
        goodTillDate := hgtd.symm
        takeProfit := htp
        stopLoss := hsl }

/-- The amendment of a patch: its `trail` is a percentage for an order that trails by one, and
otherwise an offset. -/
def Patch.amendment (target : BrokerOrder) (r : Patch) : Amendment where
  quantity := r.qty
  limit := r.limitPrice
  trigger := r.stopPrice
  trailOffset := if (field target.trailingPercent).isSome then none else r.trail
  trailPercent := if (field target.trailingPercent).isSome then r.trail else none
  trailStop := none
  orderType := none
  tif := r.timeInForce
  goodTillDate := none

def amendment (target : BrokerOrder) : Request → Amendment
  | .replaceOrder _ r => r.amendment target
  | .createOrder _ | .closePosition _ => askedAmendment target {}

/-- A change set goes out whole when it changes neither type, trail stop price nor expiry
date, the trailing percentage only of an order that trails by one, and `auxPrice` only of
an order that does not trail. -/
def KeepsChanges (target : BrokerOrder) (changes : OrderChanges) : Prop :=
  truthy changes.orderType = none ∧ changed changes.trailStopPrice = none ∧
    truthy changes.goodTillDate = none ∧
    (changed changes.trailingPercent ≠ none → field target.trailingPercent ≠ none) ∧
    (Trails target.orderType → changed changes.auxPrice = none)

theorem modifiesWholeIff : ModifiesWholeIff js (modifyOrder js) amendment KeepsChanges := by
  intro acct p orderId target changes r _ hsend
  cases hsend
  constructor
  · intro h
    have htype : truthy changes.orderType = none := eq_none_of_carriedWord h.orderType
    have hpercent : changed changes.trailingPercent ≠ none → field target.trailingPercent ≠ none := by
      intro hsome hnone
      obtain ⟨v, hv⟩ := Option.ne_none_iff_exists'.mp hsome
      have hsent := h.trailPercent v hv
      simp [amendment, Patch.amendment, hnone] at hsent
    refine ⟨htype, eq_none_of_carried h.trailStop, eq_none_of_carried h.goodTillDate, hpercent, ?_⟩
    intro htrails
    by_contra haux
    obtain ⟨v, hv⟩ := Option.ne_none_iff_exists'.mp haux
    have hsent := h.trailOffset v
      (askedAmendment_trailOffset.mpr ⟨(typeAfter_eq htype).symm ▸ htrails, hv⟩)
    -- the offset could only have travelled as the percentage of an order that has none
    cases hfield : field target.trailingPercent with
    | none =>
      simp only [amendment, Patch.amendment, hfield, Option.isSome_none, Bool.false_eq_true,
        if_false] at hsent
      exact hpercent (hsent ▸ Option.some_ne_none v) hfield
    | some x => simp [amendment, Patch.amendment, hfield] at hsent
  · rintro ⟨htype, hstop, hgtd, hpercent, htrail⟩
    exact
      { quantity := fun v hv ↦ hv
        limit := fun v hv ↦ hv
        trigger := fun v hv ↦ (askedAmendment_trigger hv).2
        trailOffset := by
          intro v hv
          obtain ⟨htrails, haux⟩ := askedAmendment_trailOffset.mp hv
          rw [typeAfter_eq htype] at htrails
          exact nomatch (htrail htrails).symm.trans haux
        trailPercent := by
          intro v hv
          have hsome := Option.isSome_iff_ne_none.mpr
            (hpercent (Option.ne_none_iff_exists'.mpr ⟨v, hv⟩))
          exact (if_pos hsome).trans hv
        trailStop := fun v hv ↦ nomatch hstop.symm.trans hv
        orderType := fun w hw ↦ nomatch htype.symm.trans hw
        tif := by
          intro w hw
          refine ⟨ibkrTifToAlpaca js w, congrArg (Option.map _) hw, ?_⟩
          exact sameWord_alpacaTif (truthy_eq_some.mp hw).2
        goodTillDate := fun w hw ↦ nomatch hgtd.symm.trans hw }

end Alpaca

/-! ## CCXT -/

namespace Ccxt

variable {js : Js} {e : Exchange}

def ticket (e : Exchange) (o : BrokerOrder) (r : NewOrder) : Ticket where
  side := r.side
  quantity := some r.amount
  notional := (referencePrice o (e.last r.symbol)).map (r.amount * ·)
  orderType :=
    if r.params.triggerPrice.isSome then (if r.type = "market" then "STP" else "STP LMT")
    else r.type
  tif := ""
  outsideRth := false
  limit := r.price
  trigger := r.params.triggerPrice
  trailOffset := none
  trailPercent := none
  trailStop := none
  goodTillDate := ""
  takeProfit := r.params.takeProfit
  stopLoss := r.params.stopLoss

def Stops (orderType : String) : Prop :=
  orderType = "STP" ∨ orderType = "STP LMT"

def SendsLimit (js : Js) (orderType : String) : Prop :=
  orderType = "STP LMT" ∨ (¬ Stops orderType ∧ ibkrOrderTypeToCcxt js orderType = "limit")

/-- An order goes out whole when it states no time in force, no outside-hours flag, no expiry
date and no trailing value, has a trigger price only as a stop and a limit price only as
a limit order, and its numbers are doubles. -/
def KeepsOrder (js : Js) (e : Exchange) (c : BrokerContract) (o : BrokerOrder)
    (_ : Option TpSlParams) : Prop :=
  o.tif = "" ∧ o.outsideRth = false ∧ o.goodTillDate = "" ∧ field o.trailStopPrice = none ∧
    field o.trailingPercent = none ∧ (¬ Stops o.orderType → field o.auxPrice = none) ∧
    (¬ SendsLimit js o.orderType → field o.lmtPrice = none) ∧
    (∀ symbol size, contractToCcxt js e c = some symbol → orderSize e symbol o = .ok size →
      js.toNumber size = size) ∧
    Exact js (field o.auxPrice) ∧ Exact js (field o.lmtPrice)

theorem orderTypeName_ccxt (orderType : String) :
    orderTypeName js (ibkrOrderTypeToCcxt js orderType) = orderTypeName js orderType := by
  unfold ibkrOrderTypeToCcxt
  split
  · exact orderTypeName_eq (by decide) (by decide) rfl
  · exact orderTypeName_eq (by decide) (by decide) rfl
  · exact orderTypeName_lower orderType

variable {trigger : Option Decimal} {o : BrokerOrder}

theorem orderTypeAndTrigger_ok {type : String}
    (h : orderTypeAndTrigger js e o = .ok (type, trigger)) :
    ¬ Trails o.orderType ∧ ((Stops o.orderType ∧ trigger = field o.auxPrice ∧ trigger.isSome ∧
          type = if o.orderType = "STP" then "market" else "limit") ∨
        (¬ Stops o.orderType ∧ trigger = none ∧ type = ibkrOrderTypeToCcxt js o.orderType)) := by
  unfold orderTypeAndTrigger at h
  split at h
  · next hstop =>
      have hno : ¬ Trails o.orderType := by
        rintro (ht | ht) <;> rcases hstop with hs | hs <;> exact absurd (ht.symm.trans hs) (by decide)
      split at h
      · exact nomatch h
      rename_i aux haux
      cases h
      exact ⟨hno, .inl ⟨hstop, haux.symm, rfl, rfl⟩⟩
  · next hstop =>
      split at h
      · exact nomatch h
      rename_i htrails
      cases h
      exact ⟨htrails, .inr ⟨hstop, rfl, rfl⟩⟩

theorem assertAttachable_ok {t : Option TpSlParams} (he : e.attachOverride = false)
    (h : assertAttachable e t = .ok ()) :
    t.bind (·.takeProfit) = none ∧ t.bind (·.stopLoss) = none := by
  unfold assertAttachable at h
  split at h
  · exact nomatch h
  · next hno => simpa [he] using hno

theorem type_eq_limit_iff {type : String} (h : orderTypeAndTrigger js e o = .ok (type, trigger)) :
    type = "limit" ↔ SendsLimit js o.orderType := by
  obtain ⟨-, ⟨hstop, -, -, rfl⟩ | ⟨hstop, -, rfl⟩⟩ := orderTypeAndTrigger_ok h
  · rcases hstop with hs | hs
    · simp [SendsLimit, Stops, hs]
    · simp [SendsLimit, hs]
  constructor
  · exact fun hlimit ↦ .inr ⟨hstop, hlimit⟩
  rintro (hs | ⟨-, hlimit⟩)
  · exact absurd (.inr hs) hstop
  · exact hlimit

theorem orderTypeName_ticket {r : NewOrder} (h : orderTypeAndTrigger js e o = .ok (r.type, trigger))
    (hr : r.params.triggerPrice = trigger.map js.toNumber) :
    orderTypeName js (ticket e o r).orderType = orderTypeName js o.orderType := by
  obtain ⟨-, ⟨hstop, -, hsome, htype⟩ | ⟨-, rfl, htype⟩⟩ := orderTypeAndTrigger_ok h
  · have htrigger : r.params.triggerPrice.isSome := by
      rw [hr, Option.isSome_map]
      exact hsome
    rcases hstop with hs | hs
    · simp [ticket, htrigger, htype, hs]
    · simp [ticket, htrigger, htype, hs]
  · have hname : (ticket e o r).orderType = ibkrOrderTypeToCcxt js o.orderType := by
      simp [ticket, hr, htype]
    rw [hname]
    exact orderTypeName_ccxt o.orderType

theorem amount_iff {symbol : String} {size : Decimal}
    (hsizing : field o.totalQuantity = none ∨ field o.cashQty = none)
    (h : orderSize e symbol o = .ok size) :
    ((∀ q, field o.totalQuantity = some q → some (js.toNumber size) = some q) ∧
        ∀ v, field o.cashQty = some v →
          (referencePrice o (e.last symbol)).map (js.toNumber size * ·) = some v) ↔
      js.toNumber size = size := by
  rcases orderSize_ok h with hq | ⟨cash, price, hq, hcash, hprice, hzero, hdiv⟩
  · have hc : field o.cashQty = none := by
      rcases hsizing with hno | hc
      · exact nomatch hq.symm.trans hno
      · exact hc
    rw [hq, hc]
    constructor
    · exact fun hboth ↦ Option.some.inj (hboth.1 size rfl)
    intro hexact
    refine ⟨?_, fun v hv ↦ nomatch hv⟩
    rintro _ ⟨⟩
    exact congrArg some hexact
  · rw [hq, hcash, hprice, Option.map_some]
    have hworth : js.toNumber size * price = cash ↔ js.toNumber size = size := by
      rw [hdiv, eq_div_iff hzero]
    constructor
    · exact fun hboth ↦ hworth.mp (Option.some.inj (hboth.2 cash rfl))
    intro hexact
    refine ⟨(fun q hno ↦ nomatch hno), ?_⟩
    rintro _ ⟨⟩
    exact congrArg some (hworth.mpr hexact)

theorem placesWholeIff (he : e.attachOverride = false) :
    PlacesWholeIff js (broker js e) (ticket e) (KeepsOrder js e) := by
  intro acct p c o t latest positions r hstage hsend
  have hsizing := staged_sizing hstage
  have hplace : placeOrder js e c o t false = .ok r := Account.dispatch_placeOrder_ok hsend
  obtain ⟨size, type, trigger, hsymbol, hsize, hattach, htype, rfl, hside, hamount, hprice, hparams⟩ :=
    placeOrder_ok hplace
  obtain ⟨htp, hsl⟩ := assertAttachable_ok he hattach
  have hlimit := type_eq_limit_iff htype
  have hcases := orderTypeAndTrigger_ok htype
  have hsent : (ticket e o r).trigger = trigger.map js.toNumber := congrArg (·.triggerPrice) hparams
  have hasked : (askedTicket o t).trigger = field o.auxPrice := if_neg hcases.1
  constructor
  · intro h
    have haux : trigger.map js.toNumber = field o.auxPrice :=
      hsent.symm.trans (h.trigger.trans hasked)
    have hlmt : (if r.type = "limit" then (field o.lmtPrice).map js.toNumber else none) =
        field o.lmtPrice := hprice.symm.trans h.limit
    refine ⟨?_, h.outsideRth.symm, h.goodTillDate.symm, h.trailStop.symm, h.trailPercent.symm, ?_,
      ?_, ?_, ?_, ?_⟩
    · by_contra hne
      have hblank : js.toLowerCase "" = js.toLowerCase o.tif := h.tif hne
      rw [js.lower_eq_self (s := "") (by decide) (by decide)] at hblank
      exact hne (js.lower_eq_empty _ hblank.symm)
    · intro hno
      rcases hcases.2 with ⟨hyes, -⟩ | ⟨-, hnone, -⟩
      · exact absurd hyes hno
      · rw [hnone] at haux
        exact haux.symm
    · intro hno
      rw [if_neg (mt hlimit.mp hno)] at hlmt
      exact hlmt.symm
    · intro symbol size' hsymbol' hsize'
      cases hsymbol.symm.trans hsymbol'
      have hsame : Except.ok size = Except.ok size' := hsize.symm.trans hsize'
      cases hsame
      have hquantity := h.quantity
      have hnotional := h.notional
      simp only [ticket, hamount] at hquantity hnotional
      exact (amount_iff hsizing hsize).mp ⟨hquantity, hnotional⟩
    · rcases hcases.2 with ⟨-, hfield, -⟩ | ⟨-, hnone, -⟩
      · rw [hfield] at haux
        exact haux
      · rw [Exact, ← haux, hnone]
        rfl
    · by_cases htl : r.type = "limit"
      · rw [if_pos htl] at hlmt
        exact hlmt
      rw [if_neg htl] at hlmt
      rw [Exact, ← hlmt]
      rfl
  · rintro ⟨htif, hrth, hgtd, hstop, hpct, haux, hlmt, hexact, hxaux, hxlmt⟩
    have hworth := (amount_iff hsizing hsize).mpr (hexact r.symbol size hsymbol hsize)
    rw [← hamount] at hworth
    exact
      { side := by
          change js.SameWord r.side o.action
          rw [hside]
          exact sameWord_lower o.action
        quantity := hworth.1
        notional := hworth.2
        orderType := orderTypeName_ticket htype (congrArg (·.triggerPrice) hparams)
        tif := fun hne ↦ absurd htif hne
        outsideRth := hrth.symm
        limit := by
          refine hprice.trans ?_
          by_cases htl : r.type = "limit"
          · exact (if_pos htl).trans hxlmt
          · exact (if_neg htl).trans (hlmt (mt hlimit.mpr htl)).symm
        trigger := by
          rw [hsent, hasked]
          rcases hcases.2 with ⟨-, hfield, -⟩ | ⟨hno, hnone, -⟩
          · rw [hfield]
            exact hxaux
          · rw [hnone, haux hno]
            rfl
        trailOffset := (if_neg hcases.1).symm
        trailPercent := hpct.symm
        trailStop := hstop.symm
        goodTillDate := hgtd.symm
        takeProfit := by
          refine (congrArg (·.takeProfit) hparams).trans ?_
          change (t.bind (·.takeProfit)).map js.toNumber = t.bind (·.takeProfit)
          rw [htp]
          rfl
        stopLoss := by
          refine (congrArg (·.stopLoss) hparams).trans ?_
          change (t.bind (·.stopLoss)).map _ = t.bind (·.stopLoss)
          rw [hsl]
          rfl }

def amendment (_ : BrokerOrder) (r : EditOrder) : Amendment where
  quantity := r.amount
  limit := r.price
  trigger := r.stopPrice
  trailOffset := none
  trailPercent := r.trailingPercent
  trailStop := r.trailStopPrice
  orderType := some r.type
  tif := r.timeInForce
  goodTillDate := none

/-- A change set goes out whole when it changes no expiry date, `auxPrice` only of an order
that does not trail, and its numbers are doubles. -/
def KeepsChanges (js : Js) (target : BrokerOrder) (changes : OrderChanges) : Prop :=
  truthy changes.goodTillDate = none ∧
    (Trails (typeAfter target changes) → changed changes.auxPrice = none) ∧
    Exact js (changed changes.totalQuantity) ∧ Exact js (changed changes.lmtPrice) ∧
    Exact js (changed changes.auxPrice) ∧ Exact js (changed changes.trailStopPrice) ∧
    Exact js (changed changes.trailingPercent)

theorem modifiesWholeIff (cache : String → Option String)
    (fetchOrder : String → String → Except String CcxtOrder) :
    ModifiesWholeIff js (modifyOrder js cache fetchOrder) amendment (KeepsChanges js) := by
  intro acct p orderId target changes r _ hsend
  obtain ⟨htotal, hlmt, htype, haux, hstop, hpct, htif⟩ := modifyOrder_ok hsend
  constructor
  · intro h
    have htrail := no_offset_iff.mp h.trailOffset
    exact ⟨eq_none_of_carried h.goodTillDate, htrail, (carried_iff_exact htotal).mp h.quantity,
      (carried_iff_exact hlmt).mp h.limit,
      (trigger_iff_exact (sent_of_map haux) htrail).mp h.trigger,
      (carried_iff_exact (sent_of_map hstop)).mp h.trailStop,
      (carried_iff_exact (sent_of_map hpct)).mp h.trailPercent⟩
  · rintro ⟨hgtd, htrail, hxtotal, hxlmt, hxaux, hxstop, hxpct⟩
    exact
      { quantity := (carried_iff_exact htotal).mpr hxtotal
        limit := (carried_iff_exact hlmt).mpr hxlmt
        trigger := (trigger_iff_exact (sent_of_map haux) htrail).mpr hxaux
        trailOffset := no_offset_iff.mpr htrail
        trailPercent := (carried_iff_exact (sent_of_map hpct)).mpr hxpct
        trailStop := (carried_iff_exact (sent_of_map hstop)).mpr hxstop
        orderType := by
          intro w hw
          refine ⟨r.type, rfl, ?_⟩
          rw [htype w hw]
          exact orderTypeName_ccxt w
        tif := by
          intro w hw
          refine ⟨js.toLowerCase w, htif.trans (congrArg (Option.map _) hw), ?_⟩
          exact sameWord_lower w
        goodTillDate := fun w hw ↦ nomatch hgtd.symm.trans hw }

end Ccxt

/-! ## Longbridge -/

namespace Longbridge

variable {js : Js}

def LbOrderType.name : LbOrderType → String
  | .ELO | .MO => "MKT"
  | .LO => "LMT"
  | .MIT => "STP"
  | .LIT => "STP LMT"
  | .TSMPCT => "TRAIL"
  | .TSLPPCT => "TRAIL LIMIT"

def TimeInForceType.name : TimeInForceType → String
  | .Day => "DAY"
  | .GoodTilCanceled => "GTC"
  | .GoodTilDate => "GTD"

/-- The ticket of a submitted order.  It has no field for an offset, a trail stop price, an
expiry date or the legs, and says nothing of trading outside hours. -/
def ticket (_ : BrokerOrder) (r : SubmitOrderOptions) : Ticket where
  side := r.side.toText
  quantity := some r.submittedQuantity
  notional := none
  orderType := r.orderType.name
  tif := r.timeInForce.name
  outsideRth := false
  limit := r.submittedPrice
  trigger := r.triggerPrice
  trailOffset := none
  trailPercent := r.trailingPercent
  trailStop := none
  goodTillDate := ""
  takeProfit := none
  stopLoss := none

/-- An order goes out whole when it states a time in force the venue has or none, and has no
exit leg, no outside-hours flag, no expiry date, no trail stop price, and no offset to
trail by. -/
def KeepsOrder (js : Js) (_ : BrokerContract) (o : BrokerOrder) (t : Option TpSlParams) : Prop :=
  (o.tif ∈ ["", "GTC", "GTD"] ∨ js.SameWord o.tif "DAY") ∧ t.bind (·.takeProfit) = none ∧
    t.bind (·.stopLoss) = none ∧ o.outsideRth = false ∧ o.goodTillDate = "" ∧
    field o.trailStopPrice = none ∧ (Trails o.orderType → field o.auxPrice = none)

theorem name_of_orderType {orderType suffix : String} {lbType : LbOrderType}
    (h : ibkrOrderTypeToLb orderType suffix = some lbType) : lbType.name = orderType := by
  unfold ibkrOrderTypeToLb at h
  split at h
  · cases h
    split <;> rfl
  all_goals first
    | (cases h; rfl)
    | exact nomatch h

theorem tif_iff {tif : String} {lbTif : TimeInForceType} (h : ibkrTifToLb tif = some lbTif) :
    (tif ≠ "" → js.SameWord lbTif.name tif) ↔ tif ∈ ["", "GTC", "GTD"] ∨ js.SameWord tif "DAY" := by
  unfold ibkrTifToLb at h
  split at h
  · cases h
    exact ⟨fun _ ↦ .inr rfl, fun _ _ ↦ rfl⟩
  · cases h
    exact ⟨fun _ ↦ .inl (by decide), fun _ hne ↦ absurd rfl hne⟩
  · cases h
    exact ⟨fun _ ↦ .inl (by decide), fun _ _ ↦ rfl⟩
  · cases h
    exact ⟨fun _ ↦ .inl (by decide), fun _ _ ↦ rfl⟩
  · exact nomatch h
  · exact nomatch h
  · exact nomatch h
  · next hday hblank hgtc hgtd _ _ _ =>
      cases h
      constructor
      · exact fun hname ↦ .inr (hname hblank).symm
      rintro (hmem | hsame) _
      · simp only [List.mem_cons, List.not_mem_nil, or_false] at hmem
        rcases hmem with rfl | rfl | rfl
        · exact absurd rfl hblank
        · exact absurd rfl hgtc
        · exact absurd rfl hgtd
      · exact hsame.symm

theorem placesWholeIff : PlacesWholeIff js (broker js) ticket (KeepsOrder js) := by
  intro acct p c o t latest positions r hstage hsend
  obtain ⟨-, htype, htif, hq, hside, hqty, hprice, htrigger, hpct⟩ :=
    placeOrder_ok (t := t) (Account.dispatch_placeOrder_ok hsend)
  constructor
  · intro h
    refine ⟨(tif_iff htif).mp h.tif, h.takeProfit.symm, h.stopLoss.symm, h.outsideRth.symm,
      h.goodTillDate.symm, h.trailStop.symm, ?_⟩
    intro htrails
    have hasked : (askedTicket o t).trailOffset = field o.auxPrice := if_pos htrails
    exact hasked.symm.trans h.trailOffset.symm
  · rintro ⟨hkeeps, htp, hsl, hrth, hgtd, hstop, htrail⟩
    exact
      { side := by
          change js.SameWord r.side.toText o.action
          rw [hside, staged_action hstage]
          cases p.action <;> rfl
        quantity := by
          intro q hasked
          exact (congrArg some hqty).trans ((if_neg hq).symm.trans hasked)
        notional := fun v hv ↦ nomatch (staged_notional hstage hq).symm.trans hv
        orderType := congrArg (orderTypeName js) (name_of_orderType htype)
        tif := (tif_iff htif).mpr hkeeps
        outsideRth := hrth.symm
        limit := hprice
        trigger := by
          refine htrigger.trans ?_
          by_cases htrails : Trails o.orderType
          · exact (htrail htrails).trans (if_pos htrails).symm
          · exact (if_neg htrails).symm
        trailOffset := by
          by_cases htrails : Trails o.orderType
          · exact ((if_pos htrails).trans (htrail htrails)).symm
          · exact (if_neg htrails).symm
        trailPercent := hpct
        trailStop := hstop.symm
        goodTillDate := hgtd.symm
        takeProfit := htp.symm
        stopLoss := hsl.symm }

def amendment (_ : BrokerOrder) (r : ReplaceOrderOptions) : Amendment where
  quantity := some r.quantity
  limit := r.price
  trigger := r.triggerPrice
  trailOffset := none
  trailPercent := none
  trailStop := none
  orderType := none
  tif := none
  goodTillDate := none

/-- A change set goes out whole when it changes the quantity, the limit price and the
trigger price of an order that does not trail, and nothing else. -/
def KeepsChanges (target : BrokerOrder) (changes : OrderChanges) : Prop :=
  changed changes.trailingPercent = none ∧ changed changes.trailStopPrice = none ∧
    truthy changes.orderType = none ∧ truthy changes.tif = none ∧
    truthy changes.goodTillDate = none ∧
    (Trails target.orderType → changed changes.auxPrice = none)

theorem modifiesWholeIff : ModifiesWholeIff js modifyOrder amendment KeepsChanges := by
  intro acct p orderId target changes r _ hsend
  obtain ⟨hqty, hprice, htrigger⟩ := modifyOrder_ok hsend
  constructor
  · intro h
    have htype : truthy changes.orderType = none := eq_none_of_carriedWord h.orderType
    have htrail := no_offset_iff.mp h.trailOffset
    rw [typeAfter_eq htype] at htrail
    exact ⟨eq_none_of_carried h.trailPercent, eq_none_of_carried h.trailStop, htype,
      eq_none_of_carriedWord h.tif, eq_none_of_carried h.goodTillDate, htrail⟩
  · rintro ⟨hpct, hstop, htype, htif, hgtd, htrail⟩
    rw [← typeAfter_eq htype] at htrail
    exact
      { quantity := fun v hv ↦ hqty.symm.trans hv
        limit := fun v hv ↦ hprice.trans hv
        trigger := fun v hv ↦ htrigger.trans (askedAmendment_trigger hv).2
        trailOffset := no_offset_iff.mpr htrail
        trailPercent := fun v hv ↦ nomatch hpct.symm.trans hv
        trailStop := fun v hv ↦ nomatch hstop.symm.trans hv
        orderType := fun w hw ↦ nomatch htype.symm.trans hw
        tif := fun w hw ↦ nomatch htif.symm.trans hw
        goodTillDate := fun w hw ↦ nomatch hgtd.symm.trans hw }

end Longbridge

/-! ## Futu -/

namespace Futu

variable {js : Js}

def FutuOrderType.name : FutuOrderType → String
  | .Market => "MKT"
  | .Normal => "LMT"
  | .Stop => "STP"
  | .StopLimit => "STP LMT"

/-- The ticket of a placed order.  A request without `timeInForce` is for the day, the zero of
the venue's enumeration. -/
def ticket (_ : BrokerOrder) (r : PlaceOrderParams) : Ticket where
  side := r.trdSide.toText
  quantity := some r.qty
  notional := none
  orderType := r.orderType.name
  tif := "DAY"
  outsideRth := false
  limit := r.price
  trigger := r.auxPrice
  trailOffset := none
  trailPercent := none
  trailStop := none
  goodTillDate := ""
  takeProfit := none
  stopLoss := none

/-- An order goes out whole when it is for the day, has no outside-hours flag, no expiry date
and no trailing value, a limit or trigger price only where its type needs one, and its
numbers are doubles. -/
def KeepsOrder (js : Js) (_ : BrokerContract) (o : BrokerOrder) (_ : Option TpSlParams) : Prop :=
  (o.tif = "" ∨ js.SameWord o.tif "DAY") ∧ o.outsideRth = false ∧ o.goodTillDate = "" ∧
    field o.trailStopPrice = none ∧ field o.trailingPercent = none ∧
    (o.orderType ∈ ["MKT", "STP"] → field o.lmtPrice = none) ∧
    (o.orderType ∈ ["MKT", "LMT"] → field o.auxPrice = none) ∧
    Exact js (field o.totalQuantity) ∧ Exact js (field o.lmtPrice) ∧ Exact js (field o.auxPrice)

theorem name_of_orderType {orderType : String} {type : FutuOrderType}
    (h : futuOrderTypeByIbkr orderType = some type) :
    type.name = orderType ∧ ¬ Trails orderType ∧
      (type.needsPrice = false ↔ orderType ∈ ["MKT", "STP"]) ∧
      (type.needsAux = false ↔ orderType ∈ ["MKT", "LMT"]) := by
  unfold futuOrderTypeByIbkr at h
  split at h
  all_goals first
    | (cases h; decide)
    | exact nomatch h

theorem side_of_action {action : OrderAction} {side : OrderAction}
    (h : futuSideByAction action.toText = some side) : side = action := by
  cases action <;> (cases h; rfl)

theorem price_eq {needed : Bool} {d : Decimal} (h : needed = true → d ≠ unsetDecimal) :
    (if needed then some (js.toNumber d) else none) =
      if needed then (field d).map js.toNumber else none := by
  cases needed with
  | false => rfl
  | true =>
    rw [field, if_neg (h rfl)]
    rfl

variable (js) in
theorem price_carried_iff {needed : Bool} {d : Decimal} (h : needed = true → d ≠ unsetDecimal) :
    (if needed then some (js.toNumber d) else none) = field d ↔
      (needed = false → field d = none) ∧ Exact js (field d) := by
  rw [price_eq h]
  cases needed with
  | false =>
    constructor
    · intro hnone
      refine ⟨fun _ ↦ hnone.symm, ?_⟩
      rw [Exact, ← hnone]
      rfl
    · rintro ⟨hnone, -⟩
      exact (hnone rfl).symm
  | true => exact ⟨fun hexact ↦ ⟨(fun hno ↦ nomatch hno), hexact⟩, fun hboth ↦ hboth.2⟩

theorem placesWholeIff (market : TrdMarket) :
    PlacesWholeIff js (broker js market) ticket (KeepsOrder js) := by
  intro acct p c o t latest positions r hstage hsend
  obtain ⟨htp, hsl, -, -, hside, htype, hq, hqty, hlmt, hprice, haux, htrigger⟩ :=
    placeOrder_ok (Account.dispatch_placeOrder_ok hsend)
  obtain ⟨hname, hno, hneedsPrice, hneedsAux⟩ := name_of_orderType htype
  have hasked : (askedTicket o t).trigger = field o.auxPrice := if_neg hno
  have hlimit := price_carried_iff js hlmt
  have hstop := price_carried_iff js haux
  rw [← hprice, hneedsPrice] at hlimit
  rw [← htrigger, hneedsAux] at hstop
  have htotal : field o.totalQuantity = some o.totalQuantity := if_neg hq
  have hquantity : ∀ q, field o.totalQuantity = some q → some r.qty = some (js.toNumber q) := by
    intro q hsome
    cases htotal.symm.trans hsome
    exact congrArg some hqty
  constructor
  · intro h
    obtain ⟨hnolmt, hxlmt⟩ := hlimit.mp h.limit
    obtain ⟨hnoaux, hxaux⟩ := hstop.mp (h.trigger.trans hasked)
    refine ⟨?_, h.outsideRth.symm, h.goodTillDate.symm, h.trailStop.symm, h.trailPercent.symm,
      hnolmt, hnoaux, (carried_iff_exact hquantity).mp h.quantity, hxlmt, hxaux⟩
    by_cases htif : o.tif = ""
    · exact .inl htif
    · exact .inr (h.tif htif).symm
  · rintro ⟨htif, hrth, hgtd, hstopPrice, hpct, hnolmt, hnoaux, hxqty, hxlmt, hxaux⟩
    exact
      { side := by
          rw [staged_action hstage] at hside
          change js.SameWord r.trdSide.toText o.action
          rw [side_of_action hside, staged_action hstage]
          rfl
        quantity := (carried_iff_exact hquantity).mpr hxqty
        notional := fun v hv ↦ nomatch (staged_notional hstage hq).symm.trans hv
        orderType := congrArg (orderTypeName js) hname
        tif := by
          intro hne
          exact (htif.resolve_left hne).symm
        outsideRth := hrth.symm
        limit := hlimit.mpr ⟨hnolmt, hxlmt⟩
        trigger := (hstop.mpr ⟨hnoaux, hxaux⟩).trans hasked.symm
        trailOffset := (if_neg hno).symm
        trailPercent := hpct.symm
        trailStop := hstopPrice.symm
        goodTillDate := hgtd.symm
        takeProfit := htp.symm
        stopLoss := hsl.symm }

def amendment (_ : BrokerOrder) (r : ModifyOrderParams) : Amendment where
  quantity := r.qty
  limit := r.price
  trigger := r.auxPrice
  trailOffset := none
  trailPercent := none
  trailStop := none
  orderType := none
  tif := none
  goodTillDate := none

/-- A change set goes out whole when it changes the quantity, the limit price and the trigger
price of an order that does not trail, all doubles, and nothing else. -/
def KeepsChanges (js : Js) (target : BrokerOrder) (changes : OrderChanges) : Prop :=
  changed changes.trailingPercent = none ∧ changed changes.trailStopPrice = none ∧
    truthy changes.orderType = none ∧ truthy changes.tif = none ∧
    truthy changes.goodTillDate = none ∧
    (Trails target.orderType → changed changes.auxPrice = none) ∧
    Exact js (changed changes.totalQuantity) ∧ Exact js (changed changes.lmtPrice) ∧
    Exact js (changed changes.auxPrice)

theorem modifiesWholeIff : ModifiesWholeIff js (modifyOrder js) amendment (KeepsChanges js) := by
  intro acct p orderId target changes r _ hsend
  obtain ⟨hqty, hprice, haux⟩ := modifyOrder_ok hsend
  constructor
  · intro h
    have htype : truthy changes.orderType = none := eq_none_of_carriedWord h.orderType
    have htrail := no_offset_iff.mp h.trailOffset
    refine ⟨eq_none_of_carried h.trailPercent, eq_none_of_carried h.trailStop, htype,
      eq_none_of_carriedWord h.tif, eq_none_of_carried h.goodTillDate, typeAfter_eq htype ▸ htrail,
      (carried_iff_exact (sent_of_map hqty)).mp h.quantity, (carried_iff_exact (sent_of_map hprice)).mp h.limit,
      (trigger_iff_exact (sent_of_map haux) htrail).mp h.trigger⟩
  · rintro ⟨hpct, hstop, htype, htif, hgtd, htrail, hxqty, hxlmt, hxaux⟩
    rw [← typeAfter_eq htype] at htrail
    exact
      { quantity := (carried_iff_exact (sent_of_map hqty)).mpr hxqty
        limit := (carried_iff_exact (sent_of_map hprice)).mpr hxlmt
        trigger := (trigger_iff_exact (sent_of_map haux) htrail).mpr hxaux
        trailOffset := no_offset_iff.mpr htrail
        trailPercent := fun v hv ↦ nomatch hpct.symm.trans hv
        trailStop := fun v hv ↦ nomatch hstop.symm.trans hv
        orderType := fun w hw ↦ nomatch htype.symm.trans hw
        tif := fun w hw ↦ nomatch htif.symm.trans hw
        goodTillDate := fun w hw ↦ nomatch hgtd.symm.trans hw }

end Futu

/-! ## Every adapter -/

/-- On Alpaca, CCXT without an override, Longbridge and Futu, an order or change set that is
staged and then sent is sent whole exactly when the adapter's condition holds of it. -/
theorem orders_carried_iff (js : Js) :
    (PlacesWholeIff js (Alpaca.broker js) Alpaca.ticket (Alpaca.KeepsOrder js) ∧
        ModifiesWholeIff js (Alpaca.modifyOrder js) Alpaca.amendment Alpaca.KeepsChanges) ∧
      (∀ e, e.attachOverride = false →
        PlacesWholeIff js (Ccxt.broker js e) (Ccxt.ticket e) (Ccxt.KeepsOrder js e) ∧
          ∀ cache fetchOrder, ModifiesWholeIff js (Ccxt.modifyOrder js cache fetchOrder)
            Ccxt.amendment (Ccxt.KeepsChanges js)) ∧
      (PlacesWholeIff js (Longbridge.broker js) Longbridge.ticket (Longbridge.KeepsOrder js) ∧
        ModifiesWholeIff js Longbridge.modifyOrder Longbridge.amendment Longbridge.KeepsChanges) ∧
      ∀ market, PlacesWholeIff js (Futu.broker js market) Futu.ticket (Futu.KeepsOrder js) ∧
        ModifiesWholeIff js (Futu.modifyOrder js) Futu.amendment (Futu.KeepsChanges js) :=
  ⟨⟨Alpaca.placesWholeIff, Alpaca.modifiesWholeIff⟩,
    fun _ he ↦ ⟨Ccxt.placesWholeIff he, Ccxt.modifiesWholeIff⟩,
    ⟨Longbridge.placesWholeIff, Longbridge.modifiesWholeIff⟩,
    fun market ↦ ⟨Futu.placesWholeIff market, Futu.modifiesWholeIff⟩⟩

def limitOrder : StagePlaceOrderParams where
  aliceId := "main|BTC/USDT"
  action := .BUY
  orderType := "LMT"
  totalQuantity := some 1
  lmtPrice := some 50000
  tif := some ""

/-- An exchange without an override is sent the limit order whole. -/
theorem limit_order_carried :
    ∃ c o t r, sampleAccount.stagePlaceOrder (Ccxt.broker .ascii Ccxt.sampleExchange) limitOrder =
        .ok (.placeOrder c o t) ∧
      sampleAccount.dispatch (Ccxt.broker .ascii Ccxt.sampleExchange) [] [] (.placeOrder c o t) =
        .ok r ∧
      Carries .ascii (askedTicket o t) (Ccxt.ticket Ccxt.sampleExchange o r) := by
  have hiff := ((orders_carried_iff .ascii).2.1 Ccxt.sampleExchange rfl).1 sampleAccount limitOrder
  have hlimit : Ccxt.SendsLimit .ascii "LMT" := by
    refine .inr ⟨?_, rfl⟩
    rintro (hstop | hstop) <;> exact absurd hstop (by decide)
  refine ⟨_, _, _, _, rfl, rfl, (hiff _ _ _ [] [] _ rfl rfl).mpr ?_⟩
  exact ⟨rfl, rfl, rfl, rfl, rfl, fun _ ↦ rfl, fun hno ↦ absurd hlimit hno,
    fun _ _ _ _ ↦ rfl, rfl, rfl⟩

def protectedOrder : StagePlaceOrderParams where
  aliceId := "main|AAPL.US"
  action := .BUY
  orderType := "MKT"
  totalQuantity := some 10
  stopLoss := some (90, none)

def trailingOrder : StagePlaceOrderParams where
  aliceId := "main|AAPL.US"
  action := .SELL
  orderType := "TRAIL"
  totalQuantity := some 10
  auxPrice := some 5

/-- Longbridge buys without the stop-loss leg, and is sent a trailing offset as a trigger
price. -/
theorem not_orders_carried :
    (∃ c o t r, sampleAccount.stagePlaceOrder (Longbridge.broker .ascii) protectedOrder =
        .ok (.placeOrder c o t) ∧
      sampleAccount.dispatch (Longbridge.broker .ascii) [] [] (.placeOrder c o t) = .ok r ∧
      ¬ Carries .ascii (askedTicket o t) (Longbridge.ticket o r)) ∧
    ∃ c o t r, sampleAccount.stagePlaceOrder (Longbridge.broker .ascii) trailingOrder =
        .ok (.placeOrder c o t) ∧
      sampleAccount.dispatch (Longbridge.broker .ascii) [] [] (.placeOrder c o t) = .ok r ∧
      (Longbridge.ticket o r).trigger = some 5 ∧
      ¬ Carries .ascii (askedTicket o t) (Longbridge.ticket o r) := by
  refine ⟨⟨_, _, _, _, rfl, rfl, ?_⟩, ⟨_, _, _, _, rfl, rfl, rfl, ?_⟩⟩
  · intro h
    exact nomatch h.stopLoss
  · intro h
    exact nomatch h.trailOffset

end OpenAlice.Trading.Brokers
