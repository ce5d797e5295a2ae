import OpenAlice.Trading.Brokers.Instrument

/-!
# Which position a close acts on

`closePosition` of the adapters, behind the check that the account makes of an explicit
quantity: the request should be an order on the instrument that the contract identifies, against
the position that is open in it, for what was asked for or else for all of it, and for no more
than is held.

CCXT and IBKR take the first row that matches the contract exactly or in its symbol only, so the
order may be on the instrument of an earlier row.  Futu sends its order in the market of the
account, and CCXT and Futu send quantities as doubles.
-/

namespace OpenAlice.Trading.Brokers

/-! ## Closing a position -/

def reducing : Side → OrderAction
  | .long => .SELL
  | .short => .BUY

def actionOf (text : String) : Option OrderAction :=
  match text with
  | "BUY" | "buy" => some .BUY
  | "SELL" | "sell" => some .SELL
  | _ => none

structure Closing (Request : Type) where
  /-- The contract identifies the instrument of a row with this contract. -/
  identifies : BrokerContract → BrokerContract → Bool
  trades : Request → BrokerContract → Prop
  action : Request → Option OrderAction
  quantity : Request → Option Decimal
  closesAll : BrokerContract → Request → Prop := fun _ _ ↦ False
  listed : List BrokerPosition → Prop := fun _ ↦ True

section

variable {Request : Type} {v : Closing Request} {positions : List BrokerPosition}
  {c : BrokerContract} {q : Option Decimal} {r : Request} {pos : BrokerPosition}

def Closing.Acts (v : Closing Request) (positions : List BrokerPosition) (c : BrokerContract)
    (q : Option Decimal) (r : Request) : Prop :=
  (q = none ∧ v.closesAll c r) ∨
    ∃ pos, (positions.find? fun p ↦ v.identifies c p.contract) = some pos ∧
      v.trades r pos.contract ∧ v.action r = some (reducing pos.side) ∧
      v.quantity r = some (q.getD pos.quantity) ∧ q.getD pos.quantity ≤ pos.quantity

/-- Every close that is sent acts on its position exactly when the condition holds. -/
def ClosesIff (broker : Adapter Request) (v : Closing Request)
    (condition : List BrokerPosition → BrokerContract → Option Decimal → Prop) : Prop :=
  ∀ (acct : Account) (positions : List BrokerPosition) (c : BrokerContract) (q : Option Decimal)
    (r : Request), (∀ p ∈ positions, 0 ≤ p.quantity) → v.listed positions →
    acct.dispatch broker positions positions (.closePosition c q) = .ok r →
    (v.Acts positions c q r ↔ condition positions c q)

/-- The row taken is of the contract's instrument, and a quantity asked for is no more than it. -/
def Closing.Takes (v : Closing Request) (c : BrokerContract) (q : Option Decimal)
    (pos : BrokerPosition) : Prop :=
  v.identifies c pos.contract ∧ q.getD pos.quantity ≤ pos.quantity

theorem actionOf_closingAction (pos : BrokerPosition) :
    actionOf pos.closingAction = some (reducing pos.side) := by
  rw [BrokerPosition.closingAction]
  cases pos.side <;> rfl

theorem actionOf_lower (js : Js) (pos : BrokerPosition) :
    actionOf (js.toLowerCase pos.closingAction) = some (reducing pos.side) := by
  rw [BrokerPosition.closingAction]
  cases pos.side with
  | long =>
    have hlower : js.toLowerCase "SELL" = "sell" := js.lower_ascii "SELL" (by decide)
    exact congrArg actionOf hlower
  | short =>
    have hlower : js.toLowerCase "BUY" = "buy" := js.lower_ascii "BUY" (by decide)
    exact congrArg actionOf hlower

theorem find?_eq_of_stronger {α : Type} {l : List α} {loose exact : α → Bool} {a : α}
    (himp : ∀ a, exact a → loose a) (h : l.find? loose = some a) (ha : exact a) :
    l.find? exact = some a := by
  obtain ⟨-, before, after, rfl, hno⟩ := List.find?_eq_some_iff_append.mp h
  refine List.find?_eq_some_iff_append.mpr ⟨ha, before, after, rfl, fun b hb ↦ ?_⟩
  rw [Bool.not_eq_true', ← Bool.not_eq_true]
  intro hexact
  have hnot := hno b hb
  rw [himp b hexact] at hnot
  exact nomatch hnot

/-- **When an order against some row acts on the contract's position.** -/
theorem Closing.acts_iff {loose : BrokerPosition → Bool} {n : Decimal}
    (hpos : positions.find? loose = some pos)
    (himp : ∀ p : BrokerPosition, v.identifies c p.contract → loose p)
    (hsame : ∀ p ∈ positions, v.identifies c p.contract → v.trades r p.contract →
      v.identifies c pos.contract)
    (haction : v.action r = some (reducing pos.side)) (hn : v.quantity r = some n)
    (hall : ¬ v.closesAll c r) :
    v.Acts positions c q r ↔
      v.trades r pos.contract ∧ v.Takes c q pos ∧ n = q.getD pos.quantity := by
  constructor
  · rintro (⟨-, hno⟩ | ⟨p, hfind, htrades, -, hquantity, hle⟩)
    · exact absurd hno hall
    have hp := List.find?_some hfind
    have hid : v.identifies c pos.contract :=
      hsame p (List.mem_of_find?_eq_some hfind) hp htrades
    have heq := find?_eq_of_stronger himp hpos hid
    cases hfind.symm.trans heq
    exact ⟨htrades, ⟨hid, hle⟩, Option.some.inj (hn.symm.trans hquantity)⟩
  · rintro ⟨htrades, ⟨hid, hle⟩, rfl⟩
    exact .inr ⟨pos, find?_eq_of_stronger himp hpos hid, htrades, haction, hn, hle⟩

theorem dispatch_close_checked {broker : Adapter Request} {acct : Account} {x : Decimal}
    (h : acct.dispatch broker positions positions (.closePosition c (some x)) = .ok r) :
    0 < x ∧ ∃ row, (positions.find? fun p ↦
      broker.getNativeKey p.contract = broker.getNativeKey c) = some row ∧ x ≤ |row.quantity| := by
  obtain ⟨_, -, h⟩ := Data.bind_ok h
  obtain ⟨_, hchecked, -⟩ := Data.bind_ok h
  have hchecked : Account.assertCloseQuantityWithinPosition broker positions c x = .ok _ := hchecked
  rw [Account.assertCloseQuantityWithinPosition] at hchecked
  split at hchecked
  · exact nomatch hchecked
  rename_i hx
  dsimp only at hchecked
  split at hchecked
  · exact nomatch hchecked
  rename_i row hrow
  split at hchecked
  · exact nomatch hchecked
  · next hle => exact ⟨not_le.mp hx, row, hrow, not_lt.mp hle⟩

/-- Where the row taken is the one that the check has seen, no more is asked for than is held. -/
theorem getD_le_of_checked {broker : Adapter Request} {acct : Account}
    (hopen : ∀ p ∈ positions, 0 ≤ p.quantity)
    (hrow : (positions.find? fun p ↦
      broker.getNativeKey p.contract = broker.getNativeKey c) = some pos)
    (h : acct.dispatch broker positions positions (.closePosition c q) = .ok r) :
    q.getD pos.quantity ≤ pos.quantity := by
  cases q with
  | none => exact le_rfl
  | some x =>
    obtain ⟨-, row, hsame, hle⟩ := dispatch_close_checked h
    cases hrow.symm.trans hsame
    rwa [abs_of_nonneg (hopen pos (List.mem_of_find?_eq_some hrow))] at hle

end

variable {js : Js}

/-! ## Alpaca -/

namespace Alpaca

def closing (js : Js) : Closing Request where
  identifies c p := resolveSymbol js c = some p.symbol
  trades r p := r.symbol = some p.symbol
  action
    | .createOrder o => actionOf o.side
    | _ => none
  quantity
    | .createOrder o => o.qty
    | _ => none
  closesAll c r := ∃ symbol, resolveSymbol js c = some symbol ∧ r = .closePosition symbol

/-- A quantity that is asked for is not the sentinel, and no more than the row of the ticker. -/
def closeCondition (js : Js) (positions : List BrokerPosition) (c : BrokerContract)
    (q : Option Decimal) : Prop :=
  ∀ x pos, q = some x →
    (positions.find? fun p ↦ resolveSymbol js c = some p.contract.symbol) = some pos →
    x ≠ unsetDecimal ∧ x ≤ pos.quantity

theorem closesIff : ClosesIff (broker js) (closing js) (closeCondition js) := by
  intro acct positions c q r _ _ h
  have hsent := Account.dispatch_closePosition_ok h
  simp only [broker, closePosition] at hsent
  split at hsent
  · cases hsent
  next symbol hs =>
  cases q with
  | none =>
    cases hsent
    refine ⟨fun _ _ _ hx ↦ ?_, fun _ ↦ .inl ⟨rfl, symbol, hs, rfl⟩⟩
    cases hx
  | some x =>
    dsimp only at hsent
    split at hsent
    · cases hsent
    next pos hpos =>
    obtain ⟨symbol', hs', rfl⟩ := placeOrder_ok hsent
    cases hs.symm.trans hs'
    have hfind : (positions.find? fun p ↦ (closing js).identifies c p.contract) = some pos := by
      rw [← hpos]
      congr 1
      funext p
      simp only [closing, hs, Option.some.injEq, eq_comm]
    have hsymbol : symbol = pos.contract.symbol := by
      have hrow := List.find?_some hfind
      simpa [closing, hs] using hrow
    constructor
    · rintro (⟨hno, -⟩ | ⟨pos', hfind', -, -, hquantity, hle⟩)
      · cases hno
      rintro x' pos'' ⟨⟩ hpos''
      cases hfind'.symm.trans hpos''
      refine ⟨fun hunset ↦ ?_, hle⟩
      have hq : field x = some x := hquantity
      rw [field, if_pos hunset] at hq
      cases hq
    · intro hcondition
      obtain ⟨hset, hle⟩ := hcondition x pos rfl hfind
      refine .inr ⟨pos, hfind, congrArg some hsymbol, actionOf_lower js pos, ?_, hle⟩
      exact if_neg hset

end Alpaca

/-! ## CCXT -/

namespace Ccxt

variable {e : Exchange}

/-- An instrument is the unified symbol that a contract leads to. -/
def closing (js : Js) (e : Exchange) : Closing NewOrder where
  identifies c p := (contractToCcxt js e c).isSome ∧ contractToCcxt js e p = contractToCcxt js e c
  trades r p := contractToCcxt js e p = some r.symbol
  action r := actionOf r.side
  quantity r := some r.amount

/-- The first row that matches at all is of the contract's instrument, a quantity asked for is no
more than that row, and the quantity is a double. -/
def closeCondition (js : Js) (e : Exchange) (positions : List BrokerPosition) (c : BrokerContract)
    (q : Option Decimal) : Prop :=
  ∃ pos, positionFor js e positions c = some pos ∧ (closing js e).Takes c q pos ∧
    js.toNumber (q.getD pos.quantity) = q.getD pos.quantity

theorem closesIff : ClosesIff (broker js e) (closing js e) (closeCondition js e) := by
  intro acct positions c q r _ _ h
  obtain ⟨pos, hpos, hsent⟩ := closePosition_ok (Account.dispatch_closePosition_ok h)
  obtain ⟨size, type, trigger, hsymbol, hsize, -, -, -, hside, hamount, -⟩ := placeOrder_ok hsent
  have hn : size = q.getD pos.quantity := by
    rcases orderSize_ok hsize with hq | ⟨cash, price, -, hcash, -⟩
    · rw [field] at hq
      split at hq
      · exact nomatch hq
      · exact (Option.some.inj hq).symm
    · exact nomatch hcash
  subst hn
  have haction : (closing js e).action r = some (reducing pos.side) :=
    (congrArg actionOf hside).trans (actionOf_lower js pos)
  have hacts : (closing js e).Acts positions c q r ↔ _ ∧ _ ∧ _ :=
    Closing.acts_iff hpos (by simp [closing]; tauto) ?_ haction (congrArg some hamount) not_false
  · rw [hacts]
    constructor
    · rintro ⟨-, htakes, heq⟩
      exact ⟨pos, hpos, htakes, heq⟩
    rintro ⟨pos', hpos', htakes, heq⟩
    cases hpos.symm.trans hpos'
    exact ⟨hsymbol, htakes, heq⟩
  · intro p _ hid htrades
    obtain ⟨hlisted, hwire⟩ := of_decide_eq_true hid
    exact decide_eq_true ⟨hlisted, hsymbol.trans (htrades.symm.trans hwire)⟩

end Ccxt

/-! ## Longbridge -/

namespace Longbridge

def closing (js : Js) : Closing SubmitOrderOptions where
  identifies c p := (resolveSymbol js c).isSome ∧ resolveSymbol js p = resolveSymbol js c
  trades r p := resolveSymbol js p = some r.symbol
  action r := some r.side
  quantity r := some r.submittedQuantity

theorem symbol_of_unresolved {c : BrokerContract} (h : resolveSymbol js c = none) :
    c.symbol = "" := by
  have hlast : ∀ o, resolveSymbol.fromCurrency js c = o → o = none → c.symbol = "" := by
    intro o ho hnone
    rw [← ho, resolveSymbol.fromCurrency] at hnone
    split at hnone
    · assumption
    · cases hnone
  rw [resolveSymbol] at h
  split at h
  · cases h
  split at h
  · split at h
    · cases h
    · exact hlast _ rfl h
  · exact hlast _ rfl h

theorem resolveSymbol_ne_empty {c : BrokerContract} (h : resolveSymbol js c = some "") : False := by
  have hdot : includes "" '.' = false := by decide
  have hlast : resolveSymbol.fromCurrency js c ≠ some "" := by
    intro hlast
    rw [resolveSymbol.fromCurrency] at hlast
    split at hlast
    · cases hlast
    have hnil := congrArg String.toList (Option.some.inj hlast)
    rw [String.toList_append, String.toList_append] at hnil
    simp at hnil
  rw [resolveSymbol] at h
  split at h
  · next hlocal =>
    rw [Option.some.inj h, hdot] at hlocal
    cases hlocal
  split at h
  · split at h
    · next hnative =>
      rw [Option.some.inj h, hdot] at hnative
      cases hnative
    · exact hlast h
  · exact hlast h

/-- **Every close that Longbridge is sent acts on its position.** -/
theorem closesIff : ClosesIff (broker js) (closing js) fun _ _ _ ↦ True := by
  intro acct positions c q r hopen _ h
  have hsent := Account.dispatch_closePosition_ok h
  simp only [broker, closePosition] at hsent
  split at hsent
  · cases hsent
  next symbol hs =>
  split at hsent
  · cases hsent
  next pos hpos =>
  obtain ⟨hsymbol, -, -, -, hside, hquantity, -⟩ := placeOrder_ok hsent
  cases hs.symm.trans hsymbol
  have hrow : resolveSymbol js pos.contract = some r.symbol := of_decide_eq_true (List.find?_some hpos :)
  have hkey : (positions.find? fun p ↦
      (broker js).getNativeKey p.contract = (broker js).getNativeKey c) = some pos := by
    rw [← hpos]
    congr 1
    funext p
    simp only [broker, hs, Option.getD_some]
    cases hp : resolveSymbol js p.contract with
    | some s => simp
    | none =>
      have hne : p.contract.symbol ≠ r.symbol := by
        rw [symbol_of_unresolved hp]
        intro hempty
        exact resolveSymbol_ne_empty (hs.trans (congrArg some hempty.symm))
      simp [hne]
  have hle := getD_le_of_checked hopen hkey h
  have haction : (closing js).action r = some (reducing pos.side) := by
    refine congrArg some (hside.trans ?_)
    rw [BrokerPosition.closingAction]
    cases pos.side <;> rfl
  have hid : (closing js).identifies c pos.contract :=
    decide_eq_true ⟨by rw [hs]; rfl, hrow.trans hs.symm⟩
  refine iff_of_true ?_ trivial
  refine (Closing.acts_iff hpos ?_ (fun _ _ _ _ ↦ hid) haction (congrArg some hquantity)
    not_false).mpr ⟨hrow, ⟨hid, hle⟩, rfl⟩
  intro p hp
  exact decide_eq_true ((of_decide_eq_true hp).2.trans hs)

end Longbridge

/-! ## Futu -/

namespace Futu

/-- An instrument is the code of a key in the market of its prefix. -/
def closing (js : Js) : Closing PlaceOrderParams where
  identifies c p := resolveFutuKey js c = some (getNativeKey js p)
  trades r p := marketOf (parseFutuKey js (getNativeKey js p)).1 = some r.trdMarket ∧
    r.code = (parseFutuKey js (getNativeKey js p)).2
  action r := some r.trdSide
  quantity r := some r.qty

def closeCondition (js : Js) (m : TrdMarket) (positions : List BrokerPosition) (c : BrokerContract)
    (q : Option Decimal) : Prop :=
  ∃ pos, (positions.find? fun p ↦ (closing js).identifies c p.contract) = some pos ∧
    marketOf (parseFutuKey js (getNativeKey js c)).1 = some m ∧
    js.toNumber (q.getD pos.quantity) = q.getD pos.quantity

theorem closesIff (m : TrdMarket) :
    ClosesIff (broker js m) (closing js) (closeCondition js m) := by
  intro acct positions c q r hopen _ h
  have hsent := Account.dispatch_closePosition_ok h
  simp only [broker, closePosition] at hsent
  split at hsent
  · cases hsent
  next key hkey =>
  split at hsent
  · cases hsent
  next pos hpos =>
  split at hsent
  · cases hsent
  obtain ⟨-, -, hmarket, ⟨key', hkey', hcode⟩, hside, -, -, hquantity, -⟩ := placeOrder_ok hsent
  cases hkey.symm.trans hkey'
  have hc : getNativeKey js c = key := by rw [getNativeKey, hkey, Option.getD_some]
  have hrow : getNativeKey js pos.contract = key := of_decide_eq_true (List.find?_some hpos :)
  have hle : q.getD pos.quantity ≤ pos.quantity := by
    refine getD_le_of_checked hopen ?_ h
    simp only [broker, hc, hpos]
  have hclose : closeQuantity q pos = q.getD pos.quantity := by
    cases q with
    | none => rfl
    | some x =>
      rw [closeQuantity, if_pos (dispatch_close_checked h).1]
      exact min_eq_left hle
  rw [hclose] at hquantity
  have haction : (closing js).action r = some (reducing pos.side) := by
    rw [BrokerPosition.closingAction] at hside
    cases hp : pos.side with
    | long =>
      rw [hp] at hside
      exact hside.symm
    | short =>
      rw [hp] at hside
      exact hside.symm
  have himp : ∀ p : BrokerPosition, (closing js).identifies c p.contract ↔
      getNativeKey js p.contract = key := by
    intro p
    rw [closing, decide_eq_true_iff, hkey, Option.some.injEq, eq_comm]
  have hid : (closing js).identifies c pos.contract := (himp pos).mpr hrow
  have hfind : (positions.find? fun p ↦ (closing js).identifies c p.contract) = some pos :=
    find?_eq_of_stronger (fun p hp ↦ decide_eq_true ((himp p).mp hp)) hpos hid
  rw [Closing.acts_iff hpos (fun p hp ↦ decide_eq_true ((himp p).mp hp)) (fun _ _ _ _ ↦ hid)
    haction (congrArg some hquantity) not_false]
  have hkeys : getNativeKey js c = getNativeKey js pos.contract := hc.trans hrow.symm
  constructor
  · rintro ⟨⟨htraded, -⟩, -, heq⟩
    exact ⟨pos, hfind, by rw [hkeys, htraded, hmarket], heq⟩
  rintro ⟨pos', hpos', htraded, heq⟩
  cases hfind.symm.trans hpos'
  rw [hkeys] at htraded
  exact ⟨⟨by rw [htraded, hmarket], by rw [hrow, hcode]⟩, ⟨hid, hle⟩, heq⟩

end Futu

/-! ## IBKR -/

namespace Ibkr

variable {details : Details}

/-- The contract identifies the row: by its id, or else by its symbol, its security type, which is
that of a stock when it is missing, and whatever else it gives. -/
def describes (c p : BrokerContract) : Bool :=
  if c.conId ≠ 0 then p.conId = c.conId
  else
    (resolveSymbol c).isSome ∧ resolveSymbol p = resolveSymbol c ∧
      p.secType = (assumeStock c).secType ∧ (c.currency = "" ∨ p.currency = c.currency) ∧
      (c.lastTradeDateOrContractMonth = "" ∨
        p.lastTradeDateOrContractMonth = c.lastTradeDateOrContractMonth) ∧
      (c.strike = none ∨ p.strike = c.strike) ∧ (c.right = "" ∨ p.right = c.right) ∧
      (c.multiplier = none ∨ p.multiplier = c.multiplier)

def closing : Closing Request where
  identifies := describes
  trades r p := r.contract.conId = p.conId
  action r := actionOf r.order.action
  quantity r := some r.order.totalQuantity
  listed positions := (positions.map (·.contract.conId)).Nodup

def closeCondition (positions : List BrokerPosition) (c : BrokerContract)
    (q : Option Decimal) : Prop :=
  ∃ pos, positionFor positions c = some pos ∧ closing.Takes c q pos

theorem closesIff : ClosesIff (broker details) closing closeCondition := by
  intro acct positions c q r _ hids h
  have hsent := Account.dispatch_closePosition_ok h
  simp only [broker, closePosition] at hsent
  split at hsent
  · cases hsent
  next pos hpos =>
  rw [placeOrder, if_neg (by decide)] at hsent
  obtain ⟨routed, hrouted, hsent⟩ := Data.bind_ok hsent
  cases hsent
  have htrades : routed.conId = pos.contract.conId := resolveRoutableContract_conId hrouted
  have haction := actionOf_closingAction pos
  have himp : ∀ p : BrokerPosition, describes c p.contract → decide
      ((c.conId ≠ 0 ∧ p.contract.conId = c.conId) ∨ ((resolveSymbol c).isSome ∧
        resolveSymbol p.contract = resolveSymbol c)) := by
    intro p hp
    rw [describes] at hp
    split at hp
    · next hc => exact decide_eq_true (.inl ⟨hc, of_decide_eq_true hp⟩)
    · obtain ⟨hsome, hsymbol, -⟩ := of_decide_eq_true hp
      exact decide_eq_true (.inr ⟨hsome, hsymbol⟩)
  rw [Closing.acts_iff hpos himp ?_ haction rfl not_false]
  · constructor
    · rintro ⟨-, htakes, -⟩
      exact ⟨pos, hpos, htakes⟩
    rintro ⟨pos', hpos', htakes⟩
    cases hpos.symm.trans hpos'
    exact ⟨htrades, htakes, rfl⟩
  · intro p hp hid hsame
    have heq : p = pos :=
      List.inj_on_of_nodup_map hids hp (List.mem_of_find?_eq_some hpos) (hsame.symm.trans htrades)
    exact heq ▸ hid

end Ibkr

/-! ## All adapters -/

/-- **When a close acts on the named position only**, on every adapter: always on Longbridge, and
on the others exactly under their conditions. -/
theorem close_acts_iff (js : Js) :
    ClosesIff (Alpaca.broker js) (Alpaca.closing js) (Alpaca.closeCondition js) ∧
      (∀ e, ClosesIff (Ccxt.broker js e) (Ccxt.closing js e) (Ccxt.closeCondition js e)) ∧
      ClosesIff (Longbridge.broker js) (Longbridge.closing js) (fun _ _ _ ↦ True) ∧
      (∀ market, ClosesIff (Futu.broker js market) (Futu.closing js)
        (Futu.closeCondition js market)) ∧
      ∀ details, ClosesIff (Ibkr.broker details) Ibkr.closing Ibkr.closeCondition :=
  ⟨Alpaca.closesIff, fun _ ↦ Ccxt.closesIff, Longbridge.closesIff, Futu.closesIff,
    fun _ ↦ Ibkr.closesIff⟩

namespace Ccxt

def perpetuals : Exchange where
  exchangeName := "okx"
  markets := ["USDC", "USDT"].map fun quote ↦
    { symbol := "BTC/" ++ quote ++ ":" ++ quote, base := "BTC", quote := quote, type := "swap" }
  keyed := by decide
  named := by decide
  fetchTicker _ := .ok none

def perpetual (currency : String) : BrokerContract where
  symbol := "BTC"
  secType := "CRYPTO_PERP"
  exchange := "okx"
  currency := currency
  localSymbol := "BTC/" ++ currency ++ ":" ++ currency

def heldPerpetuals : List BrokerPosition :=
  [⟨perpetual "USDC", .long, 1⟩, ⟨perpetual "USDT", .long, 2⟩]

/-- The close of the first row acts on it. -/
theorem close_acts_first : ∃ r, sampleAccount.dispatch (broker .ascii perpetuals) heldPerpetuals
    heldPerpetuals (.closePosition (perpetual "USDC") none) = .ok r ∧
      (closing .ascii perpetuals).Acts heldPerpetuals (perpetual "USDC") none r := by
  have hiff := (close_acts_iff .ascii).2.1 perpetuals sampleAccount heldPerpetuals
    (perpetual "USDC") none
  refine ⟨_, rfl, (hiff _ (by decide) trivial rfl).mpr ⟨_, rfl, ⟨by decide, by decide⟩, rfl⟩⟩

/-- The close of the second row sells the first, and more of it than is held. -/
theorem close_hits_earlier_row : ¬ ∀ (js : Js) (e : Exchange) (acct : Account)
    (positions : List BrokerPosition) (c : BrokerContract) (q : Option Decimal) (r : NewOrder),
    (∀ p ∈ positions, 0 ≤ p.quantity) →
    acct.dispatch (broker js e) positions positions (.closePosition c q) = .ok r →
    (closing js e).Acts positions c q r := by
  intro h
  rcases h .ascii perpetuals sampleAccount heldPerpetuals (perpetual "USDT") (some 2) _
    (by decide) rfl with ⟨hno, -⟩ | ⟨pos, hfind, htrades, -⟩
  · exact nomatch hno
  have hpos : pos = ⟨perpetual "USDT", .long, 2⟩ := by
    refine (Option.some.inj ?_).symm
    rw [← hfind]
    rfl
  subst hpos
  have hwrong : contractToCcxt .ascii perpetuals (perpetual "USDT") = some "BTC/USDC:USDC" :=
    htrades
  exact absurd hwrong (by decide +kernel)

end Ccxt

end OpenAlice.Trading.Brokers
