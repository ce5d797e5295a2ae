import OpenAlice.Data.Checked
import OpenAlice.Trading.Types
import Mathlib.Data.List.TakeWhile

/-!
# What the broker adapters share

The types at the boundary of the broker adapters
(`services/uta/src/domain/trading/brokers/types.ts`,
`brokers/contract-builder.ts`, `contract-discipline.ts`): the contract, order
and change set an adapter is handed, and what it answers.

An adapter is modelled up to its send: an answer `.ok request` is the one
request the adapter sends for the operation, an answer `.error text` is a refusal
with nothing sent.  What the venue makes of a request is no part of the model.

Three representations are ours:

* a decimal field of an `Order` holds the wire sentinel when nobody has set it,
  as it does on the class; `field` reads such a field as an option;
* the language's own conversions of letter case and of decimals to doubles are a
  structure `Js` with the laws of them that the adapters rely on;
* a text that is cut at a character is cut in its list of characters.
-/

namespace OpenAlice.Trading.Brokers

/-! ## The language's conversions -/

def Ascii (s : String) : Bool :=
  s.toList.all fun c ↦ c.toNat < 128

def asciiUpper (s : String) : String :=
  String.ofList (s.toList.map Char.toUpper)

def asciiLower (s : String) : String :=
  String.ofList (s.toList.map Char.toLower)

/-- The conversions of letter case and numbers the adapters are written with.
Case conversion is Unicode's, of which only these laws are used. -/
structure Js where
  toUpperCase : String → String
  toLowerCase : String → String
  /-- `parseFloat` of a decimal's text, and `Decimal.toNumber`: the nearest double,
  read back as the decimal it prints as. -/
  toNumber : Decimal → Decimal
  upper_upper : ∀ s, toUpperCase (toUpperCase s) = toUpperCase s
  upper_append : ∀ s t, toUpperCase (s ++ t) = toUpperCase s ++ toUpperCase t
  upper_ascii : ∀ s, Ascii s → toUpperCase s = asciiUpper s
  lower_lower : ∀ s, toLowerCase (toLowerCase s) = toLowerCase s
  lower_ascii : ∀ s, Ascii s → toLowerCase s = asciiLower s
  lower_eq_empty : ∀ s, toLowerCase s = "" → s = ""

theorem toUpper_toUpper (c : Char) : c.toUpper.toUpper = c.toUpper := by
  unfold Char.toUpper
  split
  · next h =>
      rw [dif_neg]
      simp only [UInt32.le_iff_toNat_le, UInt32.toNat_add] at h ⊢
      simp at h ⊢
      omega
  · rfl

theorem toLower_toLower (c : Char) : c.toLower.toLower = c.toLower := by
  unfold Char.toLower
  split
  · next h =>
      rw [dif_neg]
      simp only [UInt32.le_iff_toNat_le, UInt32.toNat_add] at h ⊢
      simp at h ⊢
      omega
  · rfl

def Js.ascii : Js where
  toUpperCase := asciiUpper
  toLowerCase := asciiLower
  toNumber := id
  upper_upper s := by
    rw [asciiUpper, asciiUpper, String.toList_ofList, List.map_map]
    exact congrArg (fun f ↦ String.ofList (s.toList.map f)) (funext toUpper_toUpper)
  upper_append s t := by
    rw [asciiUpper, asciiUpper, asciiUpper, String.toList_append, List.map_append,
      String.ofList_append]
  upper_ascii _ _ := rfl
  lower_lower s := by
    rw [asciiLower, asciiLower, String.toList_ofList, List.map_map]
    exact congrArg (fun f ↦ String.ofList (s.toList.map f)) (funext toLower_toLower)
  lower_ascii _ _ := rfl
  lower_eq_empty s h := by
    have hnil : (asciiLower s).toList = [] := congrArg String.toList h
    rw [asciiLower, String.toList_ofList, List.map_eq_nil_iff] at hnil
    exact String.toList_injective hnil

namespace Js

variable (js : Js)

def SameText (s t : String) : Prop :=
  js.toUpperCase s = js.toUpperCase t

theorem upper_eq_self {s : String} (ha : Ascii s) (h : s.toList.map Char.toUpper = s.toList) :
    js.toUpperCase s = s := by
  rw [js.upper_ascii s ha, asciiUpper, h, String.ofList_toList]

theorem sameText_refl (s : String) : js.SameText s s := rfl

theorem sameText_upper (s : String) : js.SameText (js.toUpperCase s) s := js.upper_upper s

theorem sameText_append_right {s t : String} (u : String) :
    js.SameText (s ++ u) (t ++ u) ↔ js.SameText s t := by
  unfold SameText
  rw [js.upper_append, js.upper_append]
  exact String.append_left_inj _

end Js

/-! ## Texts cut at a character -/

/-- The parts of a text before and after the first `c` in it: `indexOf` and two slices. -/
def splitFirst (c : Char) (s : String) : Option (String × String) :=
  match s.toList.dropWhile (· != c) with
  | [] => none
  | _ :: rest => some (String.ofList (s.toList.takeWhile (· != c)), String.ofList rest)

/-- The parts of a text before and after the last `c` in it: `lastIndexOf` and two slices. -/
def splitLast (c : Char) (s : String) : Option (String × String) :=
  match s.toList.reverse.dropWhile (· != c) with
  | [] => none
  | _ :: rest =>
    some (String.ofList rest.reverse,
      String.ofList (s.toList.reverse.takeWhile (· != c)).reverse)

/-- `s.includes(c)` -/
def includes (s : String) (c : Char) : Bool :=
  s.toList.contains c

theorem splitFirst_append {c : Char} {p : List Char} (t : List Char) (hp : c ∉ p) :
    splitFirst c (String.ofList (p ++ c :: t)) = some (String.ofList p, String.ofList t) := by
  have hall : ∀ x ∈ p, (x != c) = true := by
    intro x hx
    rw [bne_iff_ne]
    rintro rfl
    exact hp hx
  rw [splitFirst, String.toList_ofList, List.dropWhile_append_of_pos hall,
    List.takeWhile_append_of_pos hall]
  simp

theorem splitFirst_eq_some {c : Char} {s p t : String} (h : splitFirst c s = some (p, t)) :
    s = String.ofList (p.toList ++ c :: t.toList) := by
  rw [splitFirst] at h
  split at h
  · exact nomatch h
  rename_i x rest hd
  cases h
  have hhead := List.head?_dropWhile_not (· != c) s.toList
  rw [hd] at hhead
  obtain rfl : x = c := by simpa using hhead
  rw [String.toList_ofList, String.toList_ofList, ← hd, List.takeWhile_append_dropWhile,
    String.ofList_toList]

theorem splitLast_append {c : Char} (p : List Char) {t : List Char} (ht : c ∉ t) :
    splitLast c (String.ofList (p ++ c :: t)) = some (String.ofList p, String.ofList t) := by
  have hall : ∀ x ∈ t.reverse, (x != c) = true := by
    intro x hx
    rw [bne_iff_ne]
    rintro rfl
    exact ht (List.mem_reverse.mp hx)
  rw [splitLast, String.toList_ofList, List.reverse_append, List.reverse_cons, List.append_assoc,
    List.singleton_append, List.dropWhile_append_of_pos hall, List.takeWhile_append_of_pos hall]
  simp

theorem splitLast_eq_none_iff {c : Char} {s : String} :
    splitLast c s = none ↔ includes s c = false := by
  have hmem : includes s c = true ↔ c ∈ s.toList := List.contains_iff_mem
  rw [← Bool.not_eq_true, hmem, splitLast]
  constructor
  · intro h hc
    split at h
    · next he =>
        have := List.dropWhile_eq_nil_iff.mp he c (List.mem_reverse.mpr hc)
        simp at this
    · exact nomatch h
  · intro hc
    have he : s.toList.reverse.dropWhile (· != c) = [] := by
      rw [List.dropWhile_eq_nil_iff]
      intro x hx
      rw [bne_iff_ne]
      rintro rfl
      exact hc (List.mem_reverse.mp hx)
    rw [he]

/-- The account and the native key an `aliceId` names. -/
def parseAliceId (aliceId : String) : Option (String × String) :=
  splitFirst '|' aliceId

/-! ## Contracts -/

/-- The contract at the adapters' boundary: the ledger's contract and the two fields
by which only IBKR identifies an instrument. -/
structure BrokerContract extends Contract where
  /-- `0` when unset. -/
  conId : Int := 0
  issuerId : String := ""
deriving DecidableEq

def secTypes : List String :=
  ["STK", "OPT", "FUT", "FOP", "IND", "CASH", "BOND", "CMDTY", "WAR", "IOPT", "FUND", "BAG", "NEWS",
    "CFD", "CRYPTO", "CRYPTO_PERP"]

abbrev FieldCheck := String × (BrokerContract → Bool)

/-- `SECTYPE_REQUIREMENTS.bySecType`, each field read as `hasContractField` does. -/
def secTypeRequirements (secType : String) : List FieldCheck :=
  let expiry : FieldCheck :=
    ("lastTradeDateOrContractMonth", fun c ↦ c.lastTradeDateOrContractMonth != "")
  let strike : FieldCheck := ("strike", fun c ↦ c.strike.isSome)
  let right : FieldCheck := ("right", fun c ↦ c.right != "")
  let multiplier : FieldCheck := ("multiplier", fun c ↦ c.multiplier.isSome)
  if secType = "OPT" ∨ secType = "FOP" then [expiry, strike, right, multiplier]
  else if secType = "FUT" then [expiry, multiplier]
  else []

/-- Everything that is wrong with a contract.  The adapters write
`right` as `C` or `P` themselves, so its spelling is not checked here. -/
def validateContract (c : BrokerContract) : List String :=
  (if c.symbol = "" then ["symbol is required"] else []) ++
    (if c.secType = "" then ["secType is required"]
      else if c.secType ∈ secTypes then []
      else ["secType \"" ++ c.secType ++ "\" is not a known SecType (allowed: " ++
        ", ".intercalate secTypes ++ ")"]) ++
    (if c.exchange = "" then ["exchange is required"] else []) ++
    (if c.currency = "" then ["currency is required"] else []) ++
    ((secTypeRequirements c.secType).filter fun f ↦ !f.2 c).map fun f ↦
      c.secType ++ " requires " ++ f.1

def buildContract (input : BrokerContract) (localSymbol : Option String) :
    Except String BrokerContract :=
  let c := { input with localSymbol := localSymbol.getD input.symbol }
  match validateContract c with
  | [] => .ok c
  | errors => .error ("Invalid contract: " ++ "; ".intercalate errors)

theorem buildContract_ok {input c : BrokerContract} {localSymbol : Option String}
    (h : buildContract input localSymbol = .ok c) :
    c = { input with localSymbol := localSymbol.getD input.symbol } ∧ c.symbol ≠ "" := by
  rw [buildContract] at h
  split at h
  · next he =>
      cases h
      refine ⟨rfl, fun hs ↦ ?_⟩
      rw [validateContract, if_pos hs] at he
      simp at he
  · exact nomatch h

/-! ## Orders -/

/-- `UNSET_DECIMAL` read as an absent value. -/
def field (d : Decimal) : Option Decimal :=
  if d = unsetDecimal then none else some d

inductive OrderAction where
  | BUY
  | SELL
deriving DecidableEq

def OrderAction.toText : OrderAction → String
  | .BUY => "BUY"
  | .SELL => "SELL"

/-- An IBKR `Order` with the fields that the adapters read and write. -/
structure BrokerOrder where
  action : String := ""
  orderType : String := ""
  tif : String := ""
  totalQuantity : Decimal := unsetDecimal
  cashQty : Decimal := unsetDecimal
  lmtPrice : Decimal := unsetDecimal
  auxPrice : Decimal := unsetDecimal
  trailStopPrice : Decimal := unsetDecimal
  trailingPercent : Decimal := unsetDecimal
  filledQuantity : Decimal := unsetDecimal
  goodTillDate : String := ""
  outsideRth : Bool := false

/-- The fields of a `Partial<Order>` that `stageModifyOrder` can set. -/
structure OrderChanges where
  totalQuantity : Option Decimal := none
  lmtPrice : Option Decimal := none
  auxPrice : Option Decimal := none
  trailStopPrice : Option Decimal := none
  trailingPercent : Option Decimal := none
  orderType : Option String := none
  tif : Option String := none
  goodTillDate : Option String := none

/-- `value != null && !value.equals(UNSET_DECIMAL)` -/
def changed (value : Option Decimal) : Option Decimal :=
  value.bind field

/-- A position as an adapter reports it, with the fields the adapters read back. -/
structure BrokerPosition where
  contract : BrokerContract
  side : Side := .long
  quantity : Decimal

def BrokerPosition.closingAction (p : BrokerPosition) : String :=
  if p.side = .long then "SELL" else "BUY"

/-- The entry points of an adapter through which an order goes out.  `closePosition` is
given what `getPositions` answers to it. -/
structure Adapter (Request : Type) where
  getNativeKey : BrokerContract → String
  resolveNativeKey : String → Except String BrokerContract
  placeOrder : BrokerContract → BrokerOrder → Option TpSlParams → Except String Request
  closePosition : List BrokerPosition → BrokerContract → Option Decimal → Except String Request

end OpenAlice.Trading.Brokers
