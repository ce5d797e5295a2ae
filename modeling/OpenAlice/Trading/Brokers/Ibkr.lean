import OpenAlice.Trading.Brokers.Types

/-!
# The IBKR adapter

`brokers/ibkr/IbkrBroker.ts` and `ibkr-contracts.ts`, as far as orders are placed and
positions closed.  A native key is TWS's own contract id, or the bare symbol of a US
stock; the contract of a request is the one that TWS answers for its id.

What TWS answers is given to the adapter.  A connection that is down refuses, and
is left out.
-/

namespace OpenAlice.Trading.Brokers.Ibkr

/-! ## Contracts -/

def resolveSymbol (contract : BrokerContract) : Option String :=
  (truthy (some contract.localSymbol)).or (truthy (some contract.symbol))

/-- The number a native key is, where it is one: what `parseInt` reads prints back as the
key. -/
def conIdOf (nativeKey : String) : Option Int :=
  match nativeKey.toInt? with
  | some n => if toString n = nativeKey then some n else none
  | none => none

def resolveNativeKey (nativeKey : String) : Except String BrokerContract :=
  if "issuer:".toList.isPrefixOf nativeKey.toList then
    .error ("\"" ++ nativeKey ++ "\" is a bond-issuer directory, not a tradeable contract — " ++
      "expand it (contract expand) to list the issuer's individual bonds; each bond has its own " ++
      "conId aliceId.")
  else
    match conIdOf nativeKey with
    | some n => .ok { conId := n }
    | none =>
      .ok { symbol := nativeKey, secType := "STK", exchange := "SMART", currency := "USD" }

def getNativeKey (contract : BrokerContract) : String :=
  if contract.conId ≠ 0 then toString contract.conId
  else if contract.secType = "BOND" ∧ contract.issuerId ≠ "" then "issuer:" ++ contract.issuerId
  else contract.symbol

abbrev Details := Int → Except String (List BrokerContract)

variable (details : Details)

def resolveConIdContract (conId : Int) : Except String BrokerContract := do
  let answers ← details conId
  match answers.find? fun c ↦ c.conId = conId with
  | some canonical => return canonical
  | none =>
    .error ("IBKR conId " ++ toString conId ++ " did not resolve to a canonical contract")

def missingFields (c : BrokerContract) : List String :=
  (if c.secType = "" then ["secType"] else []) ++
    (if c.exchange = "" then ["exchange"] else []) ++
    (if c.currency = "" then ["currency"] else []) ++
    (if c.symbol = "" ∧ c.localSymbol = "" then ["symbol/localSymbol"] else [])

/-- The bare symbols are the one convenience form: without a security type they mean a
stock. -/
def assumeStock (c : BrokerContract) : BrokerContract :=
  { c with secType := if c.secType = "" ∧ c.symbol ≠ "" then "STK" else c.secType }

def fillRouting (c : BrokerContract) : BrokerContract :=
  { c with
    exchange := if c.exchange = "" then "SMART" else c.exchange
    currency := if c.currency = "" then "USD" else c.currency }

def resolveRoutableContract (contract : BrokerContract) : Except String BrokerContract :=
  if contract.conId ≠ 0 then do
    let canonical ← resolveConIdContract details contract.conId
    return { canonical with aliceId := (truthy contract.aliceId).or canonical.aliceId }
  else if (assumeStock contract).secType = "STK" then .ok (fillRouting (assumeStock contract))
  else
    match missingFields (assumeStock contract) with
    | [] => .ok (assumeStock contract)
    | missing =>
      .error ("IBKR contract without conId is missing " ++ ", ".intercalate missing ++ ". " ++
        "Resolve it through contract search/expand before requesting a quote or order.")

/-! ## Trading operations -/

/-- What is sent to TWS: an order on a contract. -/
structure Request where
  contract : BrokerContract
  order : BrokerOrder

def placeOrder (contract : BrokerContract) (order : BrokerOrder) (tpsl : Option TpSlParams) :
    Except String Request :=
  if (tpsl.bind (·.takeProfit)).isSome || (tpsl.bind (·.stopLoss)).isSome then
    .error ("IBKR attached TP/SL (bracket) is not implemented yet — refusing to place a naked " ++
      "entry. Place the entry first, then a standalone STP/LMT protective order.")
  else do
    let routed ← resolveRoutableContract details contract
    return { contract := routed, order := order }

/-- The position `closePosition` takes for a contract's: the first with its id or with its
symbol. -/
def positionFor (positions : List BrokerPosition) (contract : BrokerContract) :
    Option BrokerPosition :=
  positions.find? fun p ↦
    (contract.conId ≠ 0 ∧ p.contract.conId = contract.conId) ∨
    ((resolveSymbol contract).isSome ∧ resolveSymbol p.contract = resolveSymbol contract)

def closePosition (positions : List BrokerPosition) (contract : BrokerContract)
    (quantity : Option Decimal) : Except String Request :=
  match positionFor positions contract with
  | none =>
    .error ("No position for " ++
      (resolveSymbol contract).getD ("conId=" ++ toString contract.conId))
  | some pos =>
    placeOrder details pos.contract
      { action := pos.closingAction
        orderType := "MKT"
        totalQuantity := quantity.getD pos.quantity
        tif := "DAY" }
      none

def broker : Adapter Request where
  getNativeKey := getNativeKey
  resolveNativeKey := resolveNativeKey
  placeOrder := placeOrder details
  closePosition := closePosition details

/-! ## What leaves for the venue -/

variable {details}

variable {c : BrokerContract}

theorem placeOrder_ok {o : BrokerOrder} {t : Option TpSlParams} {r : Request}
    (h : placeOrder details c o t = .ok r) :
    resolveRoutableContract details c = .ok r.contract := by
  rw [placeOrder] at h
  split at h
  · exact nomatch h
  obtain ⟨routed, hr, h⟩ := Data.bind_ok h
  cases h
  exact hr

theorem positionFor_some {ps : List BrokerPosition} {pos : BrokerPosition}
    (h : positionFor ps c = some pos) :
    (c.conId ≠ 0 ∧ pos.contract.conId = c.conId) ∨
      ((resolveSymbol c).isSome ∧ resolveSymbol pos.contract = resolveSymbol c) := by
  rw [positionFor] at h
  have hfound := List.find?_some h
  exact of_decide_eq_true hfound

theorem closePosition_ok {ps : List BrokerPosition} {q : Option Decimal}
    {r : Request} (h : closePosition details ps c q = .ok r) :
    ∃ pos, positionFor ps c = some pos ∧
      resolveRoutableContract details pos.contract = .ok r.contract := by
  rw [closePosition] at h
  split at h
  · exact nomatch h
  · next pos hp => exact ⟨pos, hp, placeOrder_ok h⟩

theorem resolveConIdContract_conId {conId : Int}
    (h : resolveConIdContract details conId = .ok c) : c.conId = conId := by
  obtain ⟨answers, -, h⟩ := Data.bind_ok h
  split at h
  · next canonical hf =>
      cases h
      have hid := List.find?_some hf
      exact of_decide_eq_true hid
  · exact nomatch h

theorem resolveRoutableContract_of_conId {c r : BrokerContract} (hc : c.conId ≠ 0)
    (h : resolveRoutableContract details c = .ok r) :
    ∃ canonical, resolveConIdContract details c.conId = .ok canonical ∧
      r = { canonical with aliceId := (truthy c.aliceId).or canonical.aliceId } := by
  rw [resolveRoutableContract, if_pos hc] at h
  obtain ⟨canonical, hd, h⟩ := Data.bind_ok h
  exact ⟨canonical, hd, (Except.ok.inj h).symm⟩

theorem resolveRoutableContract_conId {c r : BrokerContract}
    (h : resolveRoutableContract details c = .ok r) : r.conId = c.conId := by
  by_cases hc : c.conId = 0
  · rw [resolveRoutableContract, if_neg (not_not.mpr hc)] at h
    split at h
    · cases h
      rfl
    split at h
    · cases h
      rfl
    · exact nomatch h
  · obtain ⟨canonical, hd, rfl⟩ := resolveRoutableContract_of_conId hc h
    have hid : canonical.conId = c.conId := resolveConIdContract_conId hd
    exact hid

end OpenAlice.Trading.Brokers.Ibkr
