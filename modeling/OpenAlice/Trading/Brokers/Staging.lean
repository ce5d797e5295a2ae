import OpenAlice.Trading.Brokers.Types

/-!
# Staging and dispatching an operation with a contract

`stagePlaceOrder`, `stageModifyOrder` and `stageClosePosition` of
`services/uta/src/domain/trading/UnifiedTradingAccount.ts`, with the checks they
make, and the part of the dispatcher that hands a staged operation to the
account's adapter.

A parameter that is a numeric text is the number it denotes: a text that is no
number makes the constructor of `Decimal` throw, and nothing is staged.  What the
ledger, the guards and the automated envelope may still refuse is left out, so
that more operations are accepted here than by the code.
-/

namespace OpenAlice.Trading.Brokers

/-! ## What the guards judge -/

/-- `getOperationSymbol` of an operation with this contract. -/
def BrokerContract.judgedSymbol (c : BrokerContract) : String :=
  (Operation.closePosition c.toContract none).symbol

theorem BrokerContract.judgedSymbol_eq {c : BrokerContract} (h : c.symbol ≠ "") :
    c.judgedSymbol = c.symbol := by
  rw [judgedSymbol, Operation.symbol, truthy_eq_some.mpr ⟨rfl, h⟩]
  rfl

theorem BrokerContract.judgedSymbol_of_empty {c : BrokerContract} {aliceId : String}
    (h : c.symbol = "") (ha : c.aliceId = some aliceId) (hne : aliceId ≠ "") :
    c.judgedSymbol = aliceId := by
  rw [judgedSymbol, Operation.symbol, h, ha, truthy_eq_some.mpr ⟨rfl, hne⟩]
  rfl

/-! ## Parameters and operations -/

structure StagePlaceOrderParams where
  aliceId : String
  symbol : Option String := none
  subAccountId : Option String := none
  action : OrderAction
  orderType : String
  totalQuantity : Option Decimal := none
  cashQty : Option Decimal := none
  lmtPrice : Option Decimal := none
  auxPrice : Option Decimal := none
  trailStopPrice : Option Decimal := none
  trailingPercent : Option Decimal := none
  tif : Option String := none
  goodTillDate : Option String := none
  outsideRth : Bool := false
  takeProfit : Option Decimal := none
  stopLoss : Option (Decimal × Option Decimal) := none

/-- `StageModifyOrderParams`, without the id of the order. -/
abbrev StageModifyOrderParams := OrderChanges

structure StageClosePositionParams where
  aliceId : String
  symbol : Option String := none
  subAccountId : Option String := none
  qty : Option Decimal := none

inductive ContractOperation where
  | placeOrder (contract : BrokerContract) (order : BrokerOrder) (tpsl : Option TpSlParams)
  | closePosition (contract : BrokerContract) (quantity : Option Decimal)

namespace ContractOperation

def contract : ContractOperation → BrokerContract
  | .placeOrder c _ _ | .closePosition c _ => c

end ContractOperation

/-! ## The account -/

structure SubAccountRef where
  id : String
  kind : String

/-- What the staging methods read of a `UnifiedTradingAccount`. -/
structure Account where
  id : String
  label : String
  keyless : Bool := false
  readOnly : Bool := false
  /-- `_subAccounts ?? []` -/
  subAccounts : List SubAccountRef := []
  /-- The adapter's `subAccountForContract`; `none` where it has none or answers none. -/
  subAccountForContract : BrokerContract → Option String := fun _ ↦ none

namespace Account

variable {Request : Type} (acct : Account) (broker : Adapter Request)

def assertCanCreateProposal : Except String Unit :=
  if acct.keyless then
    .error ("Account \"" ++ acct.label ++ "\" is a keyless public-data account — " ++
      "trading proposals require a funded account.")
  else .ok ()

def assertCanMutateAccount (action : String) : Except String Unit :=
  if acct.readOnly then
    .error ("Account \"" ++ acct.label ++ "\" is read-only" ++
      (if acct.keyless then " (keyless public-data account)" else "") ++ " — " ++ action ++
      " would mutate the external account, which is not allowed.")
  else .ok ()

def contractFromAliceId (aliceId : String) : Except String BrokerContract :=
  match parseAliceId aliceId with
  | none =>
    .error ("Invalid aliceId \"" ++ aliceId ++ "\". Use searchContracts to get a valid contract " ++
      "identifier (expected format: \"accountId|nativeKey\").")
  | some (utaId, nativeKey) =>
    if utaId ≠ acct.id then
      .error ("aliceId \"" ++ aliceId ++ "\" belongs to UTA \"" ++ utaId ++ "\", not \"" ++
        acct.id ++ "\".")
    else
      match broker.resolveNativeKey nativeKey with
      | .error e => .error e
      | .ok contract => .ok { contract with aliceId := some aliceId }

/-- `if (params.symbol) contract.symbol = params.symbol` -/
def overrideSymbol (contract : BrokerContract) (symbol : Option String) : BrokerContract :=
  { contract with symbol := (truthy symbol).getD contract.symbol }

def resolveWriteSubAccount (contract : BrokerContract) (requested : Option String) :
    Except String (Option String) :=
  if acct.subAccounts.length ≤ 1 then .ok none
  else
    let valid := ", ".intercalate (acct.subAccounts.map (·.id))
    let expected := truthy (acct.subAccountForContract contract)
    let instr := (truthy (some contract.secType)).getD "this instrument"
    match truthy requested with
    | none =>
      .error ("Account \"" ++ acct.label ++ "\" has multiple sub-accounts (" ++
        ", ".intercalate (acct.subAccounts.map fun s ↦ s.id ++ " [" ++ s.kind ++ "]") ++
        "). Re-issue this write with subAccountId" ++
        (match expected with
          | some e => "=\"" ++ e ++ "\" (where " ++ instr ++ " trades)."
          | none => " set to one of: " ++ valid ++ "."))
    | some r =>
      if r ∉ acct.subAccounts.map (·.id) then
        .error ("Account \"" ++ acct.label ++ "\": unknown sub-account \"" ++ r ++
          "\". Valid sub-accounts: " ++ valid ++ ".")
      else
        match expected with
        | some e =>
          if e ≠ r then
            .error ("Account \"" ++ acct.label ++ "\": " ++ instr ++
              " trades in sub-account \"" ++ e ++ "\", not \"" ++ r ++
              "\". Re-issue with subAccountId=\"" ++ e ++ "\".")
          else .ok (some r)
        | none => .ok (some r)

/-! ## Staging -/

def validatePlaceOrderParams (p : StagePlaceOrderParams) : Except String Unit :=
  let fail (msg : String) : Except String Unit :=
    .error ("placeOrder (" ++ p.orderType ++ "): " ++ msg)
  let qty := p.totalQuantity.isSome
  let cash := p.cashQty.isSome
  let lmt := p.lmtPrice.isSome
  let aux := p.auxPrice.isSome
  let pct := p.trailingPercent.isSome
  if qty && cash then
    fail "totalQuantity and cashQty are mutually exclusive — provide exactly one."
  else if p.orderType = "MKT" ∧ !qty ∧ !cash then
    fail "requires totalQuantity (shares) or cashQty (notional)."
  else if p.orderType ≠ "MKT" ∧ cash then
    fail "cashQty (notional) is only supported for MKT orders — use totalQuantity."
  else if p.orderType ≠ "MKT" ∧ !qty then fail "requires totalQuantity."
  else
    match p.orderType with
    | "LMT" => if !lmt then fail "requires lmtPrice." else .ok ()
    | "STP" => if !aux then fail "requires auxPrice (stop trigger price)." else .ok ()
    | "STP LMT" =>
      if !aux then fail "requires auxPrice (stop trigger price)."
      else if !lmt then fail "requires lmtPrice."
      else .ok ()
    | "TRAIL" | "TRAIL LIMIT" =>
      if aux && pct then
        fail "auxPrice and trailingPercent are mutually exclusive — provide exactly one."
      else if !aux && !pct then fail "requires auxPrice (trailing offset) or trailingPercent."
      else if p.orderType = "TRAIL LIMIT" ∧ !lmt then fail "requires lmtPrice."
      else .ok ()
    | _ => .ok ()

/-- The order that `stagePlaceOrder` builds. -/
def stagedOrder (p : StagePlaceOrderParams) : BrokerOrder where
  action := p.action.toText
  orderType := p.orderType
  tif := p.tif.getD "DAY"
  totalQuantity := p.totalQuantity.getD unsetDecimal
  cashQty := p.cashQty.getD unsetDecimal
  lmtPrice := p.lmtPrice.getD unsetDecimal
  auxPrice := p.auxPrice.getD unsetDecimal
  trailStopPrice := p.trailStopPrice.getD unsetDecimal
  trailingPercent := p.trailingPercent.getD unsetDecimal
  goodTillDate := p.goodTillDate.getD ""
  outsideRth := p.outsideRth

/-- The protective prices that `stagePlaceOrder` attaches. -/
def stagedTpSl (p : StagePlaceOrderParams) : Option TpSlParams :=
  if p.takeProfit.isSome || p.stopLoss.isSome then
    some { takeProfit := p.takeProfit, stopLoss := p.stopLoss }
  else none

def stagePlaceOrder (p : StagePlaceOrderParams) : Except String ContractOperation := do
  acct.assertCanCreateProposal
  validatePlaceOrderParams p
  let contract ← acct.contractFromAliceId broker p.aliceId
  let contract := overrideSymbol contract p.symbol
  let _ ← acct.resolveWriteSubAccount contract p.subAccountId
  return .placeOrder contract (stagedOrder p) (stagedTpSl p)

def stageModifyOrder (p : StageModifyOrderParams) : Except String OrderChanges := do
  acct.assertCanCreateProposal
  return p

/-- The check `stageClosePosition` makes of an explicit quantity. -/
def validateCloseQuantity (qty : Option Decimal) : Except String Unit :=
  match qty with
  | some q => if q ≤ 0 then .error "closePosition: qty must be a positive finite number." else .ok ()
  | none => .ok ()

def stageClosePosition (p : StageClosePositionParams) : Except String ContractOperation := do
  acct.assertCanCreateProposal
  let contract ← acct.contractFromAliceId broker p.aliceId
  let contract := overrideSymbol contract p.symbol
  validateCloseQuantity p.qty
  let _ ← acct.resolveWriteSubAccount contract p.subAccountId
  return .closePosition contract p.qty

/-! ## Dispatch -/

/-- `_assertCloseQuantityWithinPosition`, given the positions it fetches.  The text of
its last refusal leaves out the two quantities. -/
def assertCloseQuantityWithinPosition (latest : List BrokerPosition) (contract : BrokerContract)
    (quantity : Decimal) : Except String Unit :=
  if quantity ≤ 0 then
    .error "closePosition: qty must be a positive finite number."
  else
    let nativeKey := broker.getNativeKey contract
    let label := (truthy (some contract.symbol)).getD
      ((truthy (some contract.localSymbol)).getD nativeKey)
    match latest.find? fun p ↦ broker.getNativeKey p.contract = nativeKey with
    | none =>
      .error ("closePosition: no open position found for " ++ label ++
        ". Refresh positions before retrying.")
    | some position =>
      if quantity > |position.quantity| then
        .error ("closePosition: quantity exceeds the open " ++ label ++ " position size")
      else .ok ()

/-- The dispatcher: the request that leaves for the venue.  `latest` is what its own
check of a partial close fetches, `positions` what the adapter then fetches. -/
def dispatch (latest positions : List BrokerPosition) :
    ContractOperation → Except String Request
  | .placeOrder contract order tpsl => do
      acct.assertCanMutateAccount "placeOrder"
      broker.placeOrder contract order tpsl
  | .closePosition contract quantity => do
      acct.assertCanMutateAccount "closePosition"
      quantity.forM (assertCloseQuantityWithinPosition broker latest contract)
      broker.closePosition positions contract quantity

/-! ## What staging and dispatch come to -/

variable {acct broker}

/-- The contract an operation is staged with: the one of the key, under the `aliceId` it
was asked for, with the symbol overridden. -/
def stagedContract (resolved : BrokerContract) (aliceId : String) (symbol : Option String) :
    BrokerContract :=
  overrideSymbol { resolved with aliceId := some aliceId } symbol

theorem contractFromAliceId_ok {aliceId : String} {c : BrokerContract}
    (h : acct.contractFromAliceId broker aliceId = .ok c) :
    ∃ nativeKey resolved, parseAliceId aliceId = some (acct.id, nativeKey) ∧
      broker.resolveNativeKey nativeKey = .ok resolved ∧
      c = { resolved with aliceId := some aliceId } := by
  rw [contractFromAliceId] at h
  split at h
  · exact nomatch h
  rename_i utaId nativeKey hp
  split at h
  · exact nomatch h
  rename_i hid
  obtain rfl := not_not.mp hid
  split at h
  · exact nomatch h
  rename_i resolved hr
  cases h
  exact ⟨nativeKey, resolved, hp, hr, rfl⟩

theorem stagePlaceOrder_ok {p : StagePlaceOrderParams} {op : ContractOperation}
    (h : acct.stagePlaceOrder broker p = .ok op) :
    ∃ nativeKey resolved, parseAliceId p.aliceId = some (acct.id, nativeKey) ∧
      broker.resolveNativeKey nativeKey = .ok resolved ∧ validatePlaceOrderParams p = .ok () ∧
      op = .placeOrder (stagedContract resolved p.aliceId p.symbol) (stagedOrder p)
        (stagedTpSl p) := by
  obtain ⟨_, -, h⟩ := Data.bind_ok h
  obtain ⟨_, hv, h⟩ := Data.bind_ok h
  obtain ⟨c, hc, h⟩ := Data.bind_ok h
  obtain ⟨_, -, h⟩ := Data.bind_ok h
  obtain ⟨nativeKey, resolved, hp, hr, rfl⟩ := contractFromAliceId_ok hc
  cases h
  exact ⟨nativeKey, resolved, hp, hr, hv, rfl⟩

theorem stageClosePosition_ok {p : StageClosePositionParams} {op : ContractOperation}
    (h : acct.stageClosePosition broker p = .ok op) :
    ∃ nativeKey resolved, parseAliceId p.aliceId = some (acct.id, nativeKey) ∧
      broker.resolveNativeKey nativeKey = .ok resolved ∧
      op = .closePosition (stagedContract resolved p.aliceId p.symbol) p.qty := by
  obtain ⟨_, -, h⟩ := Data.bind_ok h
  obtain ⟨c, hc, h⟩ := Data.bind_ok h
  obtain ⟨_, -, h⟩ := Data.bind_ok h
  obtain ⟨_, -, h⟩ := Data.bind_ok h
  obtain ⟨nativeKey, resolved, hp, hr, rfl⟩ := contractFromAliceId_ok hc
  cases h
  exact ⟨nativeKey, resolved, hp, hr, rfl⟩

theorem validatePlaceOrderParams_sizing {p : StagePlaceOrderParams}
    (h : validatePlaceOrderParams p = .ok ()) :
    p.totalQuantity = none ∨ p.cashQty = none := by
  cases hq : p.totalQuantity with
  | none => exact .inl rfl
  | some q =>
    cases hc : p.cashQty with
    | none => exact .inr rfl
    | some v =>
      simp only [validatePlaceOrderParams, hq, hc, Option.isSome_some, Bool.and_self,
        if_true, reduceCtorEq] at h

theorem dispatch_placeOrder_ok {latest positions : List BrokerPosition} {c : BrokerContract}
    {o : BrokerOrder} {t : Option TpSlParams} {r : Request}
    (h : acct.dispatch broker latest positions (.placeOrder c o t) = .ok r) :
    broker.placeOrder c o t = .ok r := by
  obtain ⟨_, -, h⟩ := Data.bind_ok h
  exact h

theorem dispatch_closePosition_ok {latest positions : List BrokerPosition} {c : BrokerContract}
    {q : Option Decimal} {r : Request}
    (h : acct.dispatch broker latest positions (.closePosition c q) = .ok r) :
    broker.closePosition positions c q = .ok r := by
  obtain ⟨_, -, h⟩ := Data.bind_ok h
  obtain ⟨_, -, h⟩ := Data.bind_ok h
  exact h

end Account

def sampleAccount : Account where
  id := "main"
  label := "Main"

end OpenAlice.Trading.Brokers
