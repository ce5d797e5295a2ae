import OpenAlice.Trading.Brokers.Staging
import OpenAlice.Trading.Brokers.Alpaca
import OpenAlice.Trading.Brokers.Ccxt
import OpenAlice.Trading.Brokers.Longbridge
import OpenAlice.Trading.Brokers.Futu
import OpenAlice.Trading.Brokers.Ibkr

/-!
# Which instrument an order trades

An operation is staged for an `aliceId`, which names an instrument by its native key.
What leaves for the venue is derived from the contract the key resolved to, after
the caller's symbol has overwritten one field of it, and every adapter reads another
field.  This module says, for each adapter, exactly when the request is for the
key's instrument and the guards judged its symbol.

A native key is read the way its adapter defines it:

* Alpaca: a ticker;
* CCXT: a unified symbol;
* Longbridge: a suffixed symbol, a key without a suffix being a US one;
* Futu: a prefixed code, where the prefix decides the market the instrument trades in;
* IBKR: a contract id, or the symbol of a US stock.
-/

namespace OpenAlice.Trading.Brokers

/-! ## Requests and keys -/

structure Naming (Request : Type) where
  names : String → Request → Prop
  symbol : Request → String

variable (js : Js)

def FollowsKey {Request : Type} (naming : Naming Request) (nativeKey : String)
    (c : BrokerContract) (r : Request) : Prop :=
  naming.names nativeKey r ∧ js.SameText c.judgedSymbol (naming.symbol r)

/-- The condition under which an operation follows its key, on what the caller asked for
and, for a close, on what the account holds. -/
structure KeyCondition where
  /-- For an order: the `aliceId`, its native key and the symbol override. -/
  placed : String → String → Option String → Prop
  closed : List BrokerPosition → String → String → Option String → Prop

/-- Every operation that is staged and then sent follows its key exactly when the
condition holds. -/
structure FollowsKeyIff {Request : Type} (broker : Adapter Request) (naming : Naming Request)
    (condition : KeyCondition) : Prop where
  placed : ∀ (acct : Account) (p : StagePlaceOrderParams) (op : ContractOperation)
    (nativeKey : String) (latest positions : List BrokerPosition) (r : Request),
    parseAliceId p.aliceId = some (acct.id, nativeKey) →
    acct.stagePlaceOrder broker p = .ok op →
    acct.dispatch broker latest positions op = .ok r →
    (FollowsKey js naming nativeKey op.contract r ↔ condition.placed p.aliceId nativeKey p.symbol)
  closed : ∀ (acct : Account) (p : StageClosePositionParams) (op : ContractOperation)
    (nativeKey : String) (latest positions : List BrokerPosition) (r : Request),
    parseAliceId p.aliceId = some (acct.id, nativeKey) →
    acct.stageClosePosition broker p = .ok op →
    acct.dispatch broker latest positions op = .ok r →
    (FollowsKey js naming nativeKey op.contract r ↔
      condition.closed positions p.aliceId nativeKey p.symbol)

theorem FollowsKeyIff.of_contract {Request : Type} {broker : Adapter Request}
    {naming : Naming Request} {condition : KeyCondition}
    (hplaced : ∀ (id aliceId nativeKey : String) (symbol : Option String)
      (resolved : BrokerContract) (o : BrokerOrder) (t : Option TpSlParams) (r : Request),
      parseAliceId aliceId = some (id, nativeKey) →
      broker.resolveNativeKey nativeKey = .ok resolved →
      broker.placeOrder (Account.stagedContract resolved aliceId symbol) o t = .ok r →
      (FollowsKey js naming nativeKey (Account.stagedContract resolved aliceId symbol) r ↔
        condition.placed aliceId nativeKey symbol))
    (hclosed : ∀ (id aliceId nativeKey : String) (symbol : Option String)
      (resolved : BrokerContract) (positions : List BrokerPosition) (q : Option Decimal)
      (r : Request),
      parseAliceId aliceId = some (id, nativeKey) →
      broker.resolveNativeKey nativeKey = .ok resolved →
      broker.closePosition positions (Account.stagedContract resolved aliceId symbol) q = .ok r →
      (FollowsKey js naming nativeKey (Account.stagedContract resolved aliceId symbol) r ↔
        condition.closed positions aliceId nativeKey symbol)) :
    FollowsKeyIff js broker naming condition where
  placed acct p op nativeKey latest positions r hkey hstage hsend := by
    obtain ⟨key, resolved, hparse, hresolve, -, rfl⟩ := Account.stagePlaceOrder_ok hstage
    rw [hkey] at hparse
    cases hparse
    exact hplaced _ _ _ _ _ _ _ _ hkey hresolve (Account.dispatch_placeOrder_ok hsend)
  closed acct p op nativeKey latest positions r hkey hstage hsend := by
    obtain ⟨key, resolved, hparse, hresolve, rfl⟩ := Account.stageClosePosition_ok hstage
    rw [hkey] at hparse
    cases hparse
    exact hclosed _ _ _ _ _ _ _ _ hkey hresolve (Account.dispatch_closePosition_ok hsend)

/-! ## The symbol override -/

def KeepsSymbol (override : Option String) (symbol : String) : Prop :=
  ∀ s, truthy override = some s → js.SameText s symbol

variable {js}

variable {override : Option String}

theorem keepsSymbol_iff {symbol : String} :
    js.SameText ((truthy override).getD symbol) symbol ↔ KeepsSymbol js override symbol := by
  unfold KeepsSymbol
  cases truthy override with
  | none =>
    constructor
    · intro _ s hs
      exact nomatch hs
    · intro _
      rfl
  | some s =>
    constructor
    · rintro h _ ⟨⟩
      exact h
    · intro h
      exact h s rfl

theorem getD_truthy_ne_empty {symbol : String} (h : symbol ≠ "") :
    (truthy override).getD symbol ≠ "" := by
  cases ht : truthy override with
  | none => exact h
  | some s => exact (truthy_eq_some.mp ht).2

theorem judgedSymbol_staged {resolved : BrokerContract} {aliceId : String}
    (h : resolved.symbol ≠ "") :
    (Account.stagedContract resolved aliceId override).judgedSymbol =
      (truthy override).getD resolved.symbol :=
  BrokerContract.judgedSymbol_eq (getD_truthy_ne_empty h)

/-! ## Alpaca -/

namespace Alpaca

def naming (js : Js) : Naming Request where
  names nativeKey r := ∃ s, r.symbol = some s ∧ js.SameText s nativeKey
  symbol r := r.symbol.getD ""

/-- The ticker goes out as the contract's symbol, so an override must be the ticker. -/
def keyCondition (js : Js) : KeyCondition where
  placed _ nativeKey override := KeepsSymbol js override nativeKey
  closed _ _ nativeKey override := KeepsSymbol js override nativeKey

theorem followsKey_iff_of_symbol {nativeKey aliceId : String} {override : Option String}
    {resolved : BrokerContract} {r : Request} (hresolve : makeContract nativeKey = .ok resolved)
    (hr : ∃ s, resolveSymbol js (Account.stagedContract resolved aliceId override) = some s ∧
      r.symbol = some s) :
    FollowsKey js (naming js) nativeKey (Account.stagedContract resolved aliceId override) r ↔
      KeepsSymbol js override nativeKey := by
  obtain ⟨rfl, hne⟩ := buildContract_ok hresolve
  obtain ⟨s, hs, hr⟩ := hr
  obtain ⟨-, rfl⟩ := resolveSymbol_eq_some js hs
  rw [FollowsKey, judgedSymbol_staged hne, ← keepsSymbol_iff]
  constructor
  · rintro ⟨⟨s, hs, hname⟩, -⟩
    rw [hr] at hs
    cases hs
    exact (js.sameText_upper _).symm.trans hname
  intro h
  refine ⟨⟨_, hr, (js.sameText_upper _).trans h⟩, ?_⟩
  change js.SameText _ (r.symbol.getD "")
  rw [hr]
  exact (js.sameText_upper _).symm

theorem followsKeyIff : FollowsKeyIff js (broker js) (naming js) (keyCondition js) := by
  apply FollowsKeyIff.of_contract
  · intro id aliceId nativeKey symbol resolved o t r _ hresolve hsend
    exact followsKey_iff_of_symbol hresolve (placeOrder_symbol hsend)
  · intro id aliceId nativeKey symbol resolved positions q r _ hresolve hsend
    exact followsKey_iff_of_symbol hresolve (closePosition_symbol hsend)

end Alpaca

/-! ## Longbridge -/

namespace Longbridge

def suffixed (nativeKey : String) : String :=
  if includes nativeKey '.' then nativeKey else nativeKey ++ "." ++ "US"

def naming (js : Js) : Naming SubmitOrderOptions where
  names nativeKey r := js.SameText r.symbol (suffixed nativeKey)
  symbol r := (parseLbSymbol js r.symbol).1

/-- A suffixed key goes out whatever the override says, but the guards judge the override;
of a bare key even the symbol that goes out is the override. -/
def keyCondition (js : Js) : KeyCondition where
  placed _ nativeKey override := KeepsSymbol js override (parseLbSymbol js nativeKey).1
  closed _ _ nativeKey override := KeepsSymbol js override (parseLbSymbol js nativeKey).1

theorem inferSuffixFromCurrency_usd : inferSuffixFromCurrency js "USD" = "US" := by
  rw [inferSuffixFromCurrency, js.upper_eq_self (by decide) (by decide)]
  rfl

theorem parseLbSymbol_us (symbol : String) :
    parseLbSymbol js (symbol ++ "." ++ "US") = (symbol, "US") := by
  have hcut : symbol ++ "." ++ "US" = String.ofList (symbol.toList ++ '.' :: ['U', 'S']) := by
    apply String.toList_injective
    simp
  rw [parseLbSymbol, hcut, splitLast_append _ (by decide)]
  change (String.ofList symbol.toList, js.toUpperCase "US") = (symbol, "US")
  rw [String.ofList_toList, js.upper_eq_self (by decide) (by decide)]

theorem parseLbSymbol_bare {nativeKey : String} (h : includes nativeKey '.' = false) :
    parseLbSymbol js nativeKey = (js.toUpperCase nativeKey, "US") := by
  rw [parseLbSymbol, splitLast_eq_none_iff.mpr h]

theorem makeContract_ok {nativeKey : String} {c : BrokerContract}
    (h : makeContract js nativeKey = .ok c) :
    c.symbol = (parseLbSymbol js nativeKey).1 ∧ c.symbol ≠ "" ∧ c.localSymbol = nativeKey ∧
      c.currency = ((suffixTable (parseLbSymbol js nativeKey).2).getD ("SMART", "USD")).2 := by
  obtain ⟨rfl, hne⟩ := buildContract_ok h
  exact ⟨rfl, hne, rfl, rfl⟩

theorem resolveSymbol_staged {id nativeKey aliceId : String} {override : Option String}
    {resolved : BrokerContract} (hparse : parseAliceId aliceId = some (id, nativeKey))
    (hresolve : makeContract js nativeKey = .ok resolved) :
    resolveSymbol js (Account.stagedContract resolved aliceId override) =
      some (if includes nativeKey '.' then nativeKey
        else (truthy override).getD resolved.symbol ++ "." ++ "US") := by
  obtain ⟨hsymbol, hne, hlocal, hcurrency⟩ := makeContract_ok hresolve
  set c := Account.stagedContract resolved aliceId override with hc
  have hclocal : c.localSymbol = nativeKey := hlocal
  have hcalice : c.aliceId = some aliceId := rfl
  rw [resolveSymbol, hclocal]
  cases hdot : includes nativeKey '.' with
  | true => rfl
  | false =>
    rw [parseLbSymbol_bare hdot] at hcurrency
    have hcurrency' : c.currency = "USD" := hcurrency
    have hcsymbol : c.symbol ≠ "" := getD_truthy_ne_empty hne
    rw [hcalice, Option.bind_some, hparse]
    simp only [Bool.false_eq_true, if_false, Option.map_some, hdot, resolveSymbol.fromCurrency,
      if_neg hcsymbol, hcurrency', inferSuffixFromCurrency_usd]
    rfl

theorem followsKey_iff_of_symbol {id nativeKey aliceId : String} {override : Option String}
    {resolved : BrokerContract} {r : SubmitOrderOptions}
    (hparse : parseAliceId aliceId = some (id, nativeKey))
    (hresolve : makeContract js nativeKey = .ok resolved)
    (hr : resolveSymbol js (Account.stagedContract resolved aliceId override) = some r.symbol) :
    FollowsKey js (naming js) nativeKey (Account.stagedContract resolved aliceId override) r ↔
      KeepsSymbol js override (parseLbSymbol js nativeKey).1 := by
  rw [resolveSymbol_staged hparse hresolve, Option.some.injEq] at hr
  obtain ⟨hsymbol, hne, -, -⟩ := makeContract_ok hresolve
  rw [FollowsKey, judgedSymbol_staged hne, ← keepsSymbol_iff, ← hsymbol]
  change js.SameText r.symbol (suffixed nativeKey) ∧ js.SameText _ (parseLbSymbol js r.symbol).1 ↔ _
  rw [← hr, suffixed]
  cases hdot : includes nativeKey '.' with
  | true =>
    -- the key itself goes out: only the guards see the override
    simp only [if_true]
    rw [← hsymbol, and_iff_right (js.sameText_refl nativeKey)]
  | false =>
    -- the symbol goes out under the suffix of the US
    simp only [Bool.false_eq_true, if_false]
    rw [parseLbSymbol_us, and_iff_left (js.sameText_refl _), hsymbol, parseLbSymbol_bare hdot,
      js.sameText_append_right, js.sameText_append_right]
    change js.SameText _ nativeKey ↔ js.SameText _ (js.toUpperCase nativeKey)
    rw [Js.SameText, Js.SameText, js.upper_upper]

theorem followsKeyIff : FollowsKeyIff js (broker js) (naming js) (keyCondition js) := by
  apply FollowsKeyIff.of_contract
  · intro id aliceId nativeKey symbol resolved o t r hparse hresolve hsend
    exact followsKey_iff_of_symbol hparse hresolve (placeOrder_ok (t := t) hsend).1
  · intro id aliceId nativeKey symbol resolved positions q r hparse hresolve hsend
    exact followsKey_iff_of_symbol hparse hresolve (closePosition_symbol hsend)

end Longbridge

/-! ## Futu -/

namespace Futu

def marketOf (pre : String) : Option TrdMarket :=
  match pre with
  | "HK" => some .HK
  | "US" => some .US
  | "SH" | "SZ" => some .CN
  | "SG" => some .SG
  | "JP" => some .JP
  | _ => none

/-- A request is for the code it carries, in the market of its header. -/
def naming (js : Js) : Naming PlaceOrderParams where
  names nativeKey r :=
    marketOf (parseFutuKey js nativeKey).1 = some r.trdMarket ∧
      js.SameText r.code (parseFutuKey js nativeKey).2
  symbol r := r.code

/-- The key's code goes out whatever the override says, but the guards judge the override,
and the market that goes out is the account's. -/
def keyCondition (js : Js) (trdMarket : TrdMarket) : KeyCondition where
  placed _ nativeKey override :=
    marketOf (parseFutuKey js nativeKey).1 = some trdMarket ∧
      KeepsSymbol js override (parseFutuKey js nativeKey).2
  closed _ _ nativeKey override :=
    marketOf (parseFutuKey js nativeKey).1 = some trdMarket ∧
      KeepsSymbol js override (parseFutuKey js nativeKey).2

variable (js) in
theorem prefixTable_plain {pre : String} (h : (prefixTable pre).isSome) :
    '.' ∉ pre.toList ∧ js.toUpperCase pre = pre := by
  unfold prefixTable at h
  split at h
  all_goals first
    | exact ⟨by decide, js.upper_eq_self (by decide) (by decide)⟩
    | exact nomatch h

variable (js) in
theorem parseFutuKey_known (key : String) : (prefixTable (parseFutuKey js key).1).isSome := by
  rw [parseFutuKey]
  split
  · rfl
  split
  · next hknown => exact hknown
  · rfl

theorem parseFutuKey_join {pre code : String} (h : (prefixTable pre).isSome) :
    parseFutuKey js (pre ++ "." ++ code) = (pre, code) := by
  have hcut : pre ++ "." ++ code = String.ofList (pre.toList ++ '.' :: code.toList) := by
    apply String.toList_injective
    simp
  obtain ⟨hdot, hupper⟩ := prefixTable_plain js h
  rw [parseFutuKey, hcut, splitFirst_append _ hdot]
  simp only [String.ofList_toList, hupper, if_pos h]

theorem makeContract_ok {nativeKey : String} {c : BrokerContract}
    (h : makeContract js nativeKey = .ok c) :
    c.symbol = (parseFutuKey js nativeKey).2 ∧ c.symbol ≠ "" ∧
      c.localSymbol = (parseFutuKey js nativeKey).1 ++ "." ++ (parseFutuKey js nativeKey).2 := by
  obtain ⟨rfl, hne⟩ := buildContract_ok h
  exact ⟨rfl, hne, rfl⟩

theorem resolveFutuKey_staged {nativeKey aliceId : String} {override : Option String}
    {resolved : BrokerContract} (hresolve : makeContract js nativeKey = .ok resolved) :
    resolveFutuKey js (Account.stagedContract resolved aliceId override) =
      some ((parseFutuKey js nativeKey).1 ++ "." ++ (parseFutuKey js nativeKey).2) := by
  obtain ⟨-, -, hlocal⟩ := makeContract_ok hresolve
  have hclocal : (Account.stagedContract resolved aliceId override).localSymbol =
      (parseFutuKey js nativeKey).1 ++ "." ++ (parseFutuKey js nativeKey).2 := hlocal
  have hknown := parseFutuKey_known js nativeKey
  rw [resolveFutuKey, hclocal, if_pos]
  refine ⟨?_, ?_⟩
  · rw [includes, List.contains_iff_mem]
    simp
  · rw [parseFutuKey_join hknown]
    exact hknown

theorem followsKey_iff_of_code {m : TrdMarket} {nativeKey aliceId : String}
    {override : Option String} {resolved : BrokerContract} {o : BrokerOrder}
    {t : Option TpSlParams} {r : PlaceOrderParams}
    (hresolve : makeContract js nativeKey = .ok resolved)
    (hsend : placeOrder js m (Account.stagedContract resolved aliceId override) o t = .ok r) :
    FollowsKey js (naming js) nativeKey (Account.stagedContract resolved aliceId override) r ↔
      marketOf (parseFutuKey js nativeKey).1 = some m ∧
        KeepsSymbol js override (parseFutuKey js nativeKey).2 := by
  obtain ⟨-, -, hm, ⟨key, hkey, hcode⟩, -⟩ := placeOrder_ok hsend
  rw [resolveFutuKey_staged hresolve] at hkey
  cases hkey
  rw [parseFutuKey_join (parseFutuKey_known js nativeKey)] at hcode
  obtain ⟨hsymbol, hne, -⟩ := makeContract_ok hresolve
  rw [FollowsKey, judgedSymbol_staged hne, ← keepsSymbol_iff, hsymbol]
  change (marketOf _ = some r.trdMarket ∧ js.SameText r.code _) ∧ js.SameText _ r.code ↔ _
  rw [hm, hcode, and_iff_left (js.sameText_refl _)]

theorem followsKeyIff (m : TrdMarket) :
    FollowsKeyIff js (broker js m) (naming js) (keyCondition js m) := by
  apply FollowsKeyIff.of_contract
  · intro id aliceId nativeKey symbol resolved o t r _ hresolve hsend
    exact followsKey_iff_of_code hresolve hsend
  intro id aliceId nativeKey symbol resolved positions q r _ hresolve hsend
  obtain ⟨order, hsend⟩ := closePosition_ok hsend
  exact followsKey_iff_of_code hresolve hsend

end Futu

/-! ## CCXT -/

namespace Ccxt

/-- A request is for the unified symbol it carries; the instrument's symbol is its base. -/
def naming (js : Js) (e : Exchange) : Naming NewOrder where
  names nativeKey r := js.SameText r.symbol nativeKey
  symbol r := ((e.market r.symbol).map (·.base)).getD ""

def skeleton (nativeKey : String) : BrokerContract :=
  { localSymbol := nativeKey
    symbol := ((splitFirst '/' nativeKey).map (·.1)).getD nativeKey }

/-- A listed key goes out whatever the override says, but the guards judge the override.  An
order on an unlisted key goes to whatever market its symbol, or the override, leads to.
A close goes to the first position with the contract's wire symbol, or with its symbol
and security type. -/
def keyCondition (js : Js) (e : Exchange) : KeyCondition where
  placed _ nativeKey override :=
    match e.market nativeKey with
    | some m => KeepsSymbol js override m.base
    | none =>
      ∃ m ∈ e.markets,
        contractToCcxt js e
          { symbol := (truthy override).getD (skeleton nativeKey).symbol } = some m.symbol ∧
        js.SameText m.symbol nativeKey ∧
        js.SameText ((truthy override).getD (skeleton nativeKey).symbol) m.base
  closed positions aliceId nativeKey override :=
    ∃ resolved pos, resolveNativeKey e nativeKey = .ok resolved ∧
      positionFor js e positions (Account.stagedContract resolved aliceId override) = some pos ∧
      ∃ m ∈ e.markets, contractToCcxt js e pos.contract = some m.symbol ∧
        js.SameText m.symbol nativeKey ∧
        js.SameText (Account.stagedContract resolved aliceId override).judgedSymbol m.base

variable {e : Exchange}

theorem naming_symbol {m : CcxtMarket} (hm : m ∈ e.markets) {r : NewOrder}
    (hr : r.symbol = m.symbol) : (naming js e).symbol r = m.base := by
  change ((e.market r.symbol).map (·.base)).getD "" = m.base
  rw [hr, market_of_mem hm]
  rfl

theorem naming_names {m : CcxtMarket} {nativeKey : String} {r : NewOrder}
    (hr : r.symbol = m.symbol) :
    (naming js e).names nativeKey r ↔ js.SameText m.symbol nativeKey := by
  rw [← hr]
  rfl

theorem placed_iff_of_listed {nativeKey aliceId : String} {override : Option String}
    {m : CcxtMarket} {resolved : BrokerContract} {r : NewOrder}
    (hm : e.market nativeKey = some m)
    (hresolve : marketToContract m e.exchangeName = .ok resolved)
    (hr : contractToCcxt js e (Account.stagedContract resolved aliceId override) = some r.symbol) :
    FollowsKey js (naming js e) nativeKey (Account.stagedContract resolved aliceId override) r ↔
      KeepsSymbol js override m.base := by
  obtain ⟨hmem, hkey⟩ := market_eq_some hm
  obtain ⟨hsymbol, hne, hlocal⟩ := marketToContract_ok hresolve
  have hwire : (Account.stagedContract resolved aliceId override).localSymbol = nativeKey :=
    hlocal.trans hkey
  rw [contractToCcxt, hwire, hm, if_pos ⟨hkey ▸ e.named m hmem, rfl⟩, Option.some.injEq] at hr
  rw [FollowsKey, judgedSymbol_staged hne, naming_symbol hmem (hr.symm.trans hkey.symm), hsymbol,
    keepsSymbol_iff]
  change js.SameText r.symbol nativeKey ∧ _ ↔ _
  rw [← hr, and_iff_right (js.sameText_refl _)]

theorem placed_iff_of_unlisted {nativeKey aliceId : String} {override : Option String}
    {r : NewOrder} (hm : e.market nativeKey = none)
    (hr : contractToCcxt js e (Account.stagedContract (skeleton nativeKey) aliceId override) =
      some r.symbol) :
    FollowsKey js (naming js e) nativeKey
        (Account.stagedContract (skeleton nativeKey) aliceId override) r ↔
      (keyCondition js e).placed aliceId nativeKey override := by
  set c := Account.stagedContract (skeleton nativeKey) aliceId override with hc
  have hlocal : e.market c.localSymbol = none := hm
  have hne : c.symbol ≠ "" := contractToCcxt_symbol hlocal hr
  have hbare : contractToCcxt js e { symbol := c.symbol } = some r.symbol := by
    rw [← hr, contractToCcxt, contractToCcxt, hlocal]
    simp [resolveContractSync, hc, skeleton, Account.stagedContract, Account.overrideSymbol]
  obtain ⟨m, hmem, hsymbol⟩ := contractToCcxt_listed hr
  simp only [FollowsKey, keyCondition, hm, naming_symbol hmem hsymbol.symm,
    naming_names hsymbol.symm, BrokerContract.judgedSymbol_eq hne]
  constructor
  · rintro ⟨hname, hjudged⟩
    exact ⟨m, hmem, hbare.trans (congrArg some hsymbol.symm), hname, hjudged⟩
  rintro ⟨found, hfound, hwire, hname, hjudged⟩
  have hsame : found.symbol = m.symbol :=
    (Option.some.inj (hwire.symm.trans hbare)).trans hsymbol.symm
  rw [List.inj_on_of_nodup_map e.keyed hfound hmem hsame] at hname hjudged
  exact ⟨hname, hjudged⟩

theorem followsKeyIff (e : Exchange) :
    FollowsKeyIff js (broker js e) (naming js e) (keyCondition js e) := by
  apply FollowsKeyIff.of_contract
  · intro id aliceId nativeKey symbol resolved o t r _ hresolve hsend
    obtain ⟨_, _, _, hr, -⟩ := placeOrder_ok hsend
    change resolveNativeKey e nativeKey = .ok resolved at hresolve
    rw [resolveNativeKey] at hresolve
    split at hresolve
    · next m hm =>
        rw [placed_iff_of_listed hm hresolve hr]
        simp only [keyCondition, hm]
    rename_i hm
    cases hresolve
    exact placed_iff_of_unlisted hm hr
  · intro id aliceId nativeKey symbol resolved positions q r _ hresolve hsend
    change resolveNativeKey e nativeKey = .ok resolved at hresolve
    obtain ⟨pos, hpos, hplace⟩ := closePosition_ok hsend
    obtain ⟨_, _, _, hr, -⟩ := placeOrder_ok hplace
    obtain ⟨m, hmem, hsymbol⟩ := contractToCcxt_listed hr
    rw [FollowsKey, naming_symbol hmem hsymbol.symm, naming_names hsymbol.symm]
    constructor
    · rintro ⟨hname, hjudged⟩
      exact ⟨resolved, pos, hresolve, hpos, m, hmem, hr.trans (congrArg some hsymbol.symm),
        hname, hjudged⟩
    rintro ⟨resolved', pos', hresolve', hpos', found, hfound, hwire, hname, hjudged⟩
    have hsame : Except.ok resolved = Except.ok resolved' := hresolve.symm.trans hresolve'
    cases hsame
    have hsame : some pos = some pos' := hpos.symm.trans hpos'
    cases hsame
    have hsame : found.symbol = m.symbol :=
      (Option.some.inj (hwire.symm.trans hr)).trans hsymbol.symm
    rw [List.inj_on_of_nodup_map e.keyed hfound hmem hsame] at hname hjudged
    exact ⟨hname, hjudged⟩

end Ccxt

/-! ## IBKR -/

namespace Ibkr

def naming (js : Js) : Naming Request where
  names nativeKey r :=
    match conIdOf nativeKey with
    | some n => n ≠ 0 ∧ r.contract.conId = n
    | none =>
      r.contract.secType = "STK" ∧ r.contract.currency = "USD" ∧
        js.SameText r.contract.symbol nativeKey
  symbol r := r.contract.symbol

/-- The symbol the guards judge of a key that is a contract id is the override, or else the
whole `aliceId`. -/
def judgedOfId (aliceId : String) (override : Option String) : String :=
  (truthy override).getD aliceId

/-- An order on an id goes to the id, but the guards judge the symbol of its contract only
when the caller gave it; an order on a symbol goes to the override.  A close goes to
the first position with the id, or with the contract's symbol. -/
def keyCondition (js : Js) (details : Details) : KeyCondition where
  placed aliceId nativeKey override :=
    match conIdOf nativeKey with
    | some n =>
      n ≠ 0 ∧ ∃ canonical, resolveConIdContract details n = .ok canonical ∧
        js.SameText (judgedOfId aliceId override) canonical.symbol
    | none => KeepsSymbol js override nativeKey ∧ (nativeKey = "" → truthy override ≠ none)
  closed positions aliceId nativeKey override :=
    match conIdOf nativeKey with
    | some n =>
      n ≠ 0 ∧ ∃ pos routed,
        positionFor positions
          { conId := n, symbol := (truthy override).getD "", aliceId := some aliceId } =
            some pos ∧
        pos.contract.conId = n ∧ resolveRoutableContract details pos.contract = .ok routed ∧
        js.SameText (judgedOfId aliceId override) routed.symbol
    | none =>
      ∃ pos routed,
        positionFor positions { symbol := (truthy override).getD nativeKey } = some pos ∧
        resolveRoutableContract details pos.contract = .ok routed ∧
        routed.secType = "STK" ∧ routed.currency = "USD" ∧
        js.SameText routed.symbol nativeKey ∧ KeepsSymbol js override nativeKey

theorem resolveNativeKey_ok {nativeKey : String} {c : BrokerContract}
    (h : resolveNativeKey nativeKey = .ok c) :
    (∃ n, conIdOf nativeKey = some n ∧ c = { conId := n }) ∨ (conIdOf nativeKey = none ∧
        c = { symbol := nativeKey, secType := "STK", exchange := "SMART", currency := "USD" }) := by
  rw [resolveNativeKey] at h
  split at h
  · exact nomatch h
  split at h
  · next n hn =>
      cases h
      exact .inl ⟨n, hn, rfl⟩
  rename_i hn
  cases h
  exact .inr ⟨hn, rfl⟩

theorem aliceId_ne_empty {aliceId : String} {p : String × String}
    (h : parseAliceId aliceId = some p) : aliceId ≠ "" := by
  rintro rfl
  exact absurd h (by simp [parseAliceId, splitFirst])

variable {override : Option String}

theorem judgedSymbol_of_id {aliceId : String} {n : Int} (hne : aliceId ≠ "") :
    (Account.stagedContract { conId := n } aliceId override).judgedSymbol =
      judgedOfId aliceId override := by
  cases ht : truthy override with
  | none =>
    rw [judgedOfId, ht]
    refine BrokerContract.judgedSymbol_of_empty ?_ rfl hne
    rw [Account.stagedContract, Account.overrideSymbol, ht]
    rfl
  | some s =>
    have hsymbol : (Account.stagedContract { conId := n } aliceId override).symbol = s := by
      rw [Account.stagedContract, Account.overrideSymbol, ht]
      rfl
    rw [judgedOfId, ht, BrokerContract.judgedSymbol_eq, hsymbol]
    · rfl
    · rw [hsymbol]
      exact (truthy_eq_some.mp ht).2

variable {details : Details} {aliceId nativeKey : String}

theorem placed_iff_of_id {n : Int} {o : BrokerOrder} {t : Option TpSlParams} {r : Request}
    (hne : aliceId ≠ "") (hid : conIdOf nativeKey = some n)
    (hsend : placeOrder details (Account.stagedContract { conId := n } aliceId override) o t =
      .ok r) :
    FollowsKey js (naming js) nativeKey (Account.stagedContract { conId := n } aliceId override) r ↔
      (keyCondition js details).placed aliceId nativeKey override := by
  have hroute := placeOrder_ok hsend
  simp only [FollowsKey, naming, keyCondition, hid, judgedSymbol_of_id hne]
  by_cases hn : n = 0
  · simp [hn]
  have hcid : (Account.stagedContract { conId := n } aliceId override).conId ≠ 0 := hn
  have hrid : r.contract.conId = n := resolveRoutableContract_conId hroute
  obtain ⟨canonical, hcanonical, hr⟩ := resolveRoutableContract_of_conId hcid hroute
  have hsymbol : r.contract.symbol = canonical.symbol := congrArg (·.symbol) hr
  constructor
  · rintro ⟨-, hjudged⟩
    rw [hsymbol] at hjudged
    exact ⟨hn, canonical, hcanonical, hjudged⟩
  rintro ⟨-, found, hfound, hjudged⟩
  have hsame : Except.ok canonical = Except.ok found := hcanonical.symm.trans hfound
  cases hsame
  rw [hsymbol]
  exact ⟨⟨hn, hrid⟩, hjudged⟩

theorem not_sameText_aliceId {aliceId : String} {p : String × String}
    (h : parseAliceId aliceId = some p) : ¬ js.SameText aliceId "" := by
  have hcut : aliceId = p.1 ++ "|" ++ p.2 := by
    rw [splitFirst_eq_some h]
    apply String.toList_injective
    simp
  intro hsame
  rw [Js.SameText, hcut, js.upper_append, js.upper_append,
    js.upper_eq_self (s := "|") (by decide) (by decide),
    js.upper_eq_self (s := "") (by decide) (by decide)] at hsame
  have := congrArg String.toList hsame
  simp at this

def stock (symbol : String) : BrokerContract :=
  { symbol := symbol, secType := "STK", exchange := "SMART", currency := "USD" }

theorem routed_stock {nativeKey aliceId : String} {r : BrokerContract}
    (h : resolveRoutableContract details
      (Account.stagedContract (stock nativeKey) aliceId override) = .ok r) :
    r = Account.stagedContract (stock nativeKey) aliceId override :=
  (Except.ok.inj h).symm

theorem placed_iff_of_symbol {id aliceId nativeKey : String} {o : BrokerOrder}
    {t : Option TpSlParams} {r : Request}
    (hparse : parseAliceId aliceId = some (id, nativeKey)) (hid : conIdOf nativeKey = none)
    (hsend : placeOrder details (Account.stagedContract (stock nativeKey) aliceId override) o t =
      .ok r) :
    FollowsKey js (naming js) nativeKey (Account.stagedContract (stock nativeKey) aliceId override)
        r ↔
      (keyCondition js details).placed aliceId nativeKey override := by
  have hr := routed_stock (placeOrder_ok hsend)
  simp only [FollowsKey, naming, keyCondition, hid, ← keepsSymbol_iff, hr]
  have hsymbol : (Account.stagedContract (stock nativeKey) aliceId override).symbol =
      (truthy override).getD nativeKey := rfl
  by_cases hempty : nativeKey = "" ∧ truthy override = none
  · -- without any symbol the guards judge the `aliceId`
    obtain ⟨hkey, hnone⟩ := hempty
    have hblank : (Account.stagedContract (stock nativeKey) aliceId override).symbol = "" := by
      rw [hsymbol, hnone, hkey]
      rfl
    rw [BrokerContract.judgedSymbol_of_empty hblank rfl (aliceId_ne_empty hparse), hblank]
    constructor
    · rintro ⟨-, hjudged⟩
      exact absurd hjudged (not_sameText_aliceId hparse)
    · rintro ⟨-, hsome⟩
      exact absurd hnone (hsome hkey)
  · have hne : (truthy override).getD nativeKey ≠ "" := by
      cases ht : truthy override with
      | none => exact fun hkey ↦ hempty ⟨hkey, ht⟩
      | some s => exact (truthy_eq_some.mp ht).2
    rw [BrokerContract.judgedSymbol_eq (hsymbol ▸ hne), hsymbol]
    constructor
    · rintro ⟨⟨-, -, hname⟩, -⟩
      exact ⟨hname, fun hkey hnone ↦ hempty ⟨hkey, hnone⟩⟩
    · rintro ⟨hname, -⟩
      exact ⟨⟨rfl, rfl, hname⟩, js.sameText_refl _⟩

theorem closed_iff_of_id {positions : List BrokerPosition} {n : Int} {q : Option Decimal}
    {r : Request} (hne : aliceId ≠ "") (hid : conIdOf nativeKey = some n)
    (hsend : closePosition details positions
      (Account.stagedContract { conId := n } aliceId override) q = .ok r) :
    FollowsKey js (naming js) nativeKey (Account.stagedContract { conId := n } aliceId override) r ↔
      (keyCondition js details).closed positions aliceId nativeKey override := by
  obtain ⟨pos, hpos, hroute⟩ := closePosition_ok hsend
  have hrid : r.contract.conId = pos.contract.conId := resolveRoutableContract_conId hroute
  simp only [FollowsKey, naming, keyCondition, hid, judgedSymbol_of_id hne]
  constructor
  · rintro ⟨⟨hn, hrn⟩, hjudged⟩
    exact ⟨hn, pos, r.contract, hpos, hrid.symm.trans hrn, hroute, hjudged⟩
  rintro ⟨hn, found, routed, hfound, hfid, hfroute, hjudged⟩
  have hsame : some pos = some found := hpos.symm.trans hfound
  cases hsame
  have hsame : Except.ok r.contract = Except.ok routed := hroute.symm.trans hfroute
  cases hsame
  exact ⟨⟨hn, hrid.trans hfid⟩, hjudged⟩

theorem closed_iff_of_symbol {positions : List BrokerPosition} {q : Option Decimal} {r : Request}
    (hid : conIdOf nativeKey = none)
    (hsend : closePosition details positions
      (Account.stagedContract (stock nativeKey) aliceId override) q = .ok r) :
    FollowsKey js (naming js) nativeKey (Account.stagedContract (stock nativeKey) aliceId override)
        r ↔
      (keyCondition js details).closed positions aliceId nativeKey override := by
  obtain ⟨pos, hpos, hroute⟩ := closePosition_ok hsend
  have hne : (truthy override).getD nativeKey ≠ "" := by
    intro hempty
    have hsymbol : (Account.stagedContract (stock nativeKey) aliceId override).symbol = "" := hempty
    rcases positionFor_some hpos with ⟨hzero, -⟩ | ⟨hsome, -⟩
    · exact hzero rfl
    · rw [resolveSymbol, hsymbol] at hsome
      exact Bool.false_ne_true hsome
  have hjudged : (Account.stagedContract (stock nativeKey) aliceId override).judgedSymbol =
      (truthy override).getD nativeKey := BrokerContract.judgedSymbol_eq hne
  simp only [FollowsKey, naming, keyCondition, hid, ← keepsSymbol_iff, hjudged]
  constructor
  · rintro ⟨⟨hsec, hcur, hname⟩, hsame⟩
    exact ⟨pos, r.contract, hpos, hroute, hsec, hcur, hname, hsame.trans hname⟩
  rintro ⟨found, routed, hfound, hfroute, hsec, hcur, hname, hkeeps⟩
  have hsame : some pos = some found := hpos.symm.trans hfound
  cases hsame
  have hsame : Except.ok r.contract = Except.ok routed := hroute.symm.trans hfroute
  cases hsame
  exact ⟨⟨hsec, hcur, hname⟩, hkeeps.trans hname.symm⟩

theorem followsKeyIff (details : Details) :
    FollowsKeyIff js (broker details) (naming js) (keyCondition js details) := by
  apply FollowsKeyIff.of_contract
  · intro id aliceId nativeKey symbol resolved o t r hparse hresolve hsend
    rcases resolveNativeKey_ok hresolve with ⟨n, hid, rfl⟩ | ⟨hid, rfl⟩
    · exact placed_iff_of_id (aliceId_ne_empty hparse) hid hsend
    · exact placed_iff_of_symbol hparse hid hsend
  intro id aliceId nativeKey symbol resolved positions q r hparse hresolve hsend
  rcases resolveNativeKey_ok hresolve with ⟨n, hid, rfl⟩ | ⟨hid, rfl⟩
  · exact closed_iff_of_id (aliceId_ne_empty hparse) hid hsend
  · exact closed_iff_of_symbol hid hsend

end Ibkr

/-! ## Every adapter -/

/-- On every adapter, an order or a close that is staged and then sent is for the
instrument of its `aliceId`, and was judged under that instrument's symbol, exactly
when the adapter's condition on the key, the symbol override, the table of markets and
the reported positions holds. -/
theorem orders_follow_key_iff (js : Js) :
    FollowsKeyIff js (Alpaca.broker js) (Alpaca.naming js) (Alpaca.keyCondition js) ∧
      (∀ e, FollowsKeyIff js (Ccxt.broker js e) (Ccxt.naming js e) (Ccxt.keyCondition js e)) ∧
      FollowsKeyIff js (Longbridge.broker js) (Longbridge.naming js) (Longbridge.keyCondition js) ∧
      (∀ market, FollowsKeyIff js (Futu.broker js market) (Futu.naming js)
        (Futu.keyCondition js market)) ∧
      ∀ details, FollowsKeyIff js (Ibkr.broker details) (Ibkr.naming js)
        (Ibkr.keyCondition js details) :=
  ⟨Alpaca.followsKeyIff, Ccxt.followsKeyIff, Longbridge.followsKeyIff, Futu.followsKeyIff,
    Ibkr.followsKeyIff⟩

/-- An order for Apple whose symbol the caller overrides with another ticker. -/
def overriddenOrder : StagePlaceOrderParams where
  aliceId := "main|AAPL"
  symbol := some "TSLA"
  action := .BUY
  orderType := "MKT"
  totalQuantity := some 1

def plainOrder : StagePlaceOrderParams :=
  { overriddenOrder with symbol := none }

/-- Without an override the sample order follows its key. -/
theorem plain_order_follows_key :
    ∃ op r, sampleAccount.stagePlaceOrder (Alpaca.broker .ascii) plainOrder = .ok op ∧
      sampleAccount.dispatch (Alpaca.broker .ascii) [] [] op = .ok r ∧
      FollowsKey .ascii (Alpaca.naming .ascii) "AAPL" op.contract r := by
  have hiff := (orders_follow_key_iff .ascii).1.placed sampleAccount plainOrder
  refine ⟨_, _, rfl, rfl, (hiff _ "AAPL" [] [] _ rfl rfl rfl).mpr ?_⟩
  intro s hs
  cases hs

def delistedOrder : StagePlaceOrderParams where
  aliceId := "main|BTC/USDT:USDT-250926"
  action := .BUY
  orderType := "MKT"
  totalQuantity := some 1

/-- The override buys Tesla under Apple's key, and a delisted future's key buys the spot
market. -/
theorem not_orders_follow_key :
    (∃ op r, sampleAccount.stagePlaceOrder (Alpaca.broker .ascii) overriddenOrder = .ok op ∧
      sampleAccount.dispatch (Alpaca.broker .ascii) [] [] op = .ok r ∧
      ¬ FollowsKey .ascii (Alpaca.naming .ascii) "AAPL" op.contract r) ∧
    ∃ op r, sampleAccount.stagePlaceOrder (Ccxt.broker .ascii Ccxt.sampleExchange) delistedOrder =
        .ok op ∧
      sampleAccount.dispatch (Ccxt.broker .ascii Ccxt.sampleExchange) [] [] op = .ok r ∧
      ¬ FollowsKey .ascii (Ccxt.naming .ascii Ccxt.sampleExchange) "BTC/USDT:USDT-250926" op.contract
        r := by
  refine ⟨⟨_, _, rfl, rfl, ?_⟩, ⟨_, _, rfl, rfl, ?_⟩⟩
  · rintro ⟨⟨s, hs, hname⟩, -⟩
    cases hs
    have hsame : asciiUpper "TSLA" = asciiUpper "AAPL" := hname
    exact absurd hsame (by decide)
  rintro ⟨hname, -⟩
  have hsame : asciiUpper "BTC/USDT" = asciiUpper "BTC/USDT:USDT-250926" := hname
  exact absurd hsame (by decide)

end OpenAlice.Trading.Brokers
