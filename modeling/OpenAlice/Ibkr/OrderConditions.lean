import Mathlib.Data.List.TakeWhile
import OpenAlice.Data.Fields

/-!
# Order conditions

The condition classes of `packages/ibkr/src/order-condition.ts`, the fields that
`client/orders.ts` sends of them, and `decodeConditions` (`order-decoder.ts`), which reads them back.

A decoder takes what it reads from the front of the fields, so that the round trip of each condition
is said in front of any fields that follow.  That of a list is then an induction.

Numbers are a parameter.  An integral field is read by `parseInt`, as is the type of a condition; the
number of a limit is read by `parseFloat`.
-/

namespace OpenAlice.Ibkr.Conditions

open Data

/-! ## Numbers -/

/-- What `parseInt` returns. -/
inductive JsInt where
  | nan
  | of (n : Int)
deriving DecidableEq

/-- The numbers of JavaScript, up to the sign of zero.  Those that are integers are integers here. -/
structure JsNumbers where
  Number : Type
  /-- `String(x)` -/
  text : Number → String
  parseFloat : String → Number
  /-- `String(n)`, of a number that is an integer. -/
  intText : Int → String
  /-- The number nearest to an integer. -/
  nearest : Int → Int

/-- `Number.MIN_SAFE_INTEGER ≤ n ≤ Number.MAX_SAFE_INTEGER` -/
def Safe (n : Int) : Prop := n.natAbs < 9007199254740992

instance : DecidablePred Safe :=
  fun n ↦ inferInstanceAs (Decidable (n.natAbs < 9007199254740992))

def JsNumbers.Plain (js : JsNumbers) (n : Int) : Prop :=
  js.nearest n = n ∧ n.natAbs < 1000000000000000000000

structure JsNumbers.Documented (js : JsNumbers) : Prop where
  parseFloat_text : ∀ x, js.parseFloat (js.text x) = x
  nearest_safe : ∀ n, Safe n → js.nearest n = n
  /-- Below `10 ^ 21` a text is digits only, of an integer that no other number is as near to. -/
  intText_plain : ∀ n, js.Plain n → ∃ m : Int, js.intText n = toString m ∧ js.nearest m = n

/-- The digits at the front of some characters, as a number. -/
def leadingDigits (chars : List Char) : Option Nat :=
  match chars.takeWhile Char.isDigit with
  | [] => none
  | digits => some (Nat.ofDigitChars 10 digits 0)

def leadingSign : List Char → Int × List Char
  | '-' :: rest => (-1, rest)
  | '+' :: rest => (1, rest)
  | rest => (1, rest)

def leadingInt (text : String) : Option Int :=
  let signed := leadingSign (text.toList.dropWhile Char.isWhitespace)
  (leadingDigits signed.2).map fun n ↦ signed.1 * n

variable (js : JsNumbers)

/-- `parseInt(text, 10)` -/
def parseInt (text : String) : JsInt :=
  match leadingInt text with
  | none => .nan
  | some n => .of (js.nearest n)

/-! ## Fields -/

abbrev Decoder (α : Type) := StateT (List String) (Except String) α

/-- `nextField`, which `decodeStr` is. -/
def decodeStr : Decoder String
  | [] => .error "unexpected end"
  | field :: rest => .ok (field, rest)

/-- `decodeInt` of the conditions. -/
def decodeInt : Decoder JsInt := return parseInt js (← decodeStr)

/-- `decodeBool` of the conditions. -/
def decodeBool : Decoder Bool := return parseInt js (← decodeStr) != .of 0

/-- `makeField` of a flag. -/
def boolField (val : Bool) : String := if val then "1" else "0"

/-- `String` of a number that `parseInt` returned. -/
def JsInt.text : JsInt → String
  | .nan => "NaN"
  | .of n => js.intText n

/-- `makeField` of an integral field; `null` is an empty text. -/
def intField (val : Option JsInt) : String := (val.map (JsInt.text js)).getD ""

/-! ## The classes -/

/-- The fields of `OperatorCondition`; `none` stands for `null`. -/
structure OperatorCondition where
  isConjunctionConnection : Bool := true
  isMore : Option Bool := none

/-- The fields of `ContractCondition`. -/
structure ContractCondition extends OperatorCondition where
  conId : Option JsInt := none
  exchange : Option String := none

/-- `OrderCondition`, by the class that it is of. -/
inductive OrderCondition where
  | execution (isConjunctionConnection : Bool) (secType exchange symbol : Option String)
  | margin (base : OperatorCondition) (percent : Option js.Number)
  | time (base : OperatorCondition) (time : Option String)
  | price (base : ContractCondition) (price : Option js.Number) (triggerMethod : Option JsInt)
  | percentChange (base : ContractCondition) (changePercent : js.Number)
  | volume (base : ContractCondition) (volume : Option JsInt)

inductive Kind where
  | execution
  | margin
  | time
  | price
  | percentChange
  | volume

/-- `condType` -/
def Kind.type : Kind → Int
  | .price => 1
  | .time => 3
  | .margin => 4
  | .execution => 5
  | .volume => 6
  | .percentChange => 7

/-- Every field of a fresh condition is set by its `decode`. -/
def Create (condType : JsInt) : Option Kind :=
  if condType = .of Kind.execution.type then some .execution
  else if condType = .of Kind.margin.type then some .margin
  else if condType = .of Kind.percentChange.type then some .percentChange
  else if condType = .of Kind.price.type then some .price
  else if condType = .of Kind.time.type then some .time
  else if condType = .of Kind.volume.type then some .volume
  else none

variable {js}

def OrderCondition.kind : OrderCondition js → Kind
  | .execution .. => .execution
  | .margin .. => .margin
  | .time .. => .time
  | .price .. => .price
  | .percentChange .. => .percentChange
  | .volume .. => .volume

/-! ## makeFields -/

/-- `OrderCondition.makeFields` -/
def baseFields (isConjunctionConnection : Bool) : List String :=
  [if isConjunctionConnection then "a" else "o"]

/-- `OperatorCondition.makeFields`, with what `valueToString` returns. -/
def OperatorCondition.makeFields (c : OperatorCondition) (valueToString : String) : List String :=
  baseFields c.isConjunctionConnection ++ [(c.isMore.map boolField).getD "", valueToString]

variable (js) in
/-- `ContractCondition.makeFields`, with what `valueToString` returns. -/
def ContractCondition.makeFields (c : ContractCondition) (valueToString : String) : List String :=
  c.toOperatorCondition.makeFields valueToString ++ [intField js c.conId, c.exchange.getD ""]

def OrderCondition.makeFields : OrderCondition js → List String
  | .execution isConjunctionConnection secType exchange symbol =>
    baseFields isConjunctionConnection ++ [secType.getD "", exchange.getD "", symbol.getD ""]
  | .margin base percent => base.makeFields ((percent.map js.text).getD "null")
  | .time base value => base.makeFields (value.getD "")
  | .price base value triggerMethod =>
    base.makeFields js ((value.map js.text).getD "null") ++ [intField js triggerMethod]
  | .percentChange base changePercent => base.makeFields js (js.text changePercent)
  | .volume base value => base.makeFields js ((value.map (JsInt.text js)).getD "null")

/-! ## decode -/

/-- `OrderCondition.decode` -/
def decodeBase : Decoder Bool := return (← decodeStr) == "a"

variable (js) in
/-- `OperatorCondition.decode`, with the text that `setValueFromString` is called with. -/
def decodeOperator : Decoder (OperatorCondition × String) := do
  let isConjunctionConnection ← decodeBase
  let isMore ← decodeBool js
  let text ← decodeStr
  return (⟨isConjunctionConnection, some isMore⟩, text)

variable (js) in
/-- `ContractCondition.decode` -/
def decodeContract : Decoder (ContractCondition × String) := do
  let (base, text) ← decodeOperator js
  let conId ← decodeInt js
  let exchange ← decodeStr
  return (⟨base, some conId, some exchange⟩, text)

variable (js) in
/-- `decode`, of a condition of some class. -/
def Kind.decode : Kind → Decoder (OrderCondition js)
  | .execution => do
      let isConjunctionConnection ← decodeBase
      let secType ← decodeStr
      let exchange ← decodeStr
      let symbol ← decodeStr
      return .execution isConjunctionConnection (some secType) (some exchange) (some symbol)
  | .margin => do
      let (base, text) ← decodeOperator js
      return .margin base (some (js.parseFloat text))
  | .time => do
      let (base, text) ← decodeOperator js
      return .time base (some text)
  | .price => do
      let (base, text) ← decodeContract js
      let triggerMethod ← decodeInt js
      return .price base (some (js.parseFloat text)) (some triggerMethod)
  | .percentChange => do
      let (base, text) ← decodeContract js
      return .percentChange base (js.parseFloat text)
  | .volume => do
      let (base, text) ← decodeContract js
      return .volume base (some (parseInt js text))

/-! ## The conditions of an order -/

/-- The fields of an `Order` that are about conditions. -/
structure ConditionalOrder (js : JsNumbers) where
  conditions : List (OrderCondition js) := []
  conditionsIgnoreRth : Bool := false
  conditionsCancelOrder : Bool := false

variable (js) in
/-- `decodeInt` of the order decoder: an empty text is `0`. -/
def decodeOrderInt : Decoder JsInt
  | [] => .error "no more fields"
  | field :: rest => .ok (parseInt js (if field = "" then "0" else field), rest)

variable (js) in
/-- `decodeBool` of the order decoder. -/
def decodeOrderBool : Decoder Bool := return (← decodeOrderInt js) != .of 0

def minServerVerPeggedToBenchmark : Nat := 102

variable (js) in
/-- The loop of `decodeConditions`: a type that is not known is passed over. -/
def decodeEach : Nat → Decoder (List (OrderCondition js))
  | 0 => return []
  | n + 1 => do
      let conditionType ← decodeOrderInt js
      match Create conditionType with
      | some kind => return (← kind.decode js) :: (← decodeEach n)
      | none => decodeEach n

def decodeConditions (serverVersion : Nat) (o : ConditionalOrder js) : Decoder (ConditionalOrder js) :=
  if serverVersion < minServerVerPeggedToBenchmark then return o
  else do
    match ← decodeOrderInt js with
    | .nan => return o
    | .of conditionsSize =>
      if conditionsSize ≤ 0 then return o
      else do
        let conditions ← decodeEach js conditionsSize.toNat
        let ignoreRth ← decodeOrderBool js
        let cancelOrder ← decodeOrderBool js
        return ⟨conditions, ignoreRth, cancelOrder⟩

def conditionFields (conditions : List (OrderCondition js)) : List String :=
  conditions.flatMap fun c ↦ js.intText c.kind.type :: c.makeFields

/-- What `placeOrder` (`client/orders.ts`) sends: the flags are sent with conditions only. -/
def ConditionalOrder.fields (order : ConditionalOrder js) : List String :=
  js.intText order.conditions.length ::
    if order.conditions.isEmpty then []
    else conditionFields order.conditions ++
      [boolField order.conditionsIgnoreRth, boolField order.conditionsCancelOrder]

/-! ## Numbers come back -/

theorem leadingDigits_toDigits (n : Nat) : leadingDigits (Nat.toDigits 10 n) = some n := by
  have hall : ∀ c ∈ Nat.toDigits 10 n, c.isDigit = true :=
    fun c hc ↦ Nat.isDigit_of_mem_toDigits (by decide) (Nat.le_refl 10) hc
  rw [leadingDigits, List.takeWhile_eq_self_iff.mpr hall]
  split
  · rename_i hnil
    exact absurd hnil Nat.toDigits_ne_nil
  · rw [Nat.ofDigitChars_ten_toDigits]

theorem not_blank_of_digit {c : Char} (hc : c.isDigit = true) : c.isWhitespace = false := by
  rw [Bool.eq_false_iff]
  intro hblank
  rw [Char.isWhitespace] at hblank
  simp only [Bool.or_eq_true, decide_eq_true_eq] at hblank
  rcases hblank with ((rfl | rfl) | rfl) | rfl <;> exact absurd hc (by decide)

theorem leadingSign_toDigits (n : Nat) :
    leadingSign ((Nat.toDigits 10 n).dropWhile Char.isWhitespace) = (1, Nat.toDigits 10 n) := by
  have hall : ∀ c ∈ Nat.toDigits 10 n, c.isDigit = true :=
    fun c hc ↦ Nat.isDigit_of_mem_toDigits (by decide) (Nat.le_refl 10) hc
  cases hdigits : Nat.toDigits 10 n with
  | nil => exact absurd hdigits Nat.toDigits_ne_nil
  | cons c rest =>
    have hc : c.isDigit = true := hall c (hdigits ▸ List.mem_cons_self)
    rw [List.dropWhile_cons_of_neg (by rw [not_blank_of_digit hc]; decide)]
    unfold leadingSign
    split
    · rename_i hsign
      obtain ⟨rfl, -⟩ := List.cons.inj hsign
      exact absurd hc (by decide)
    · rename_i hsign
      obtain ⟨rfl, -⟩ := List.cons.inj hsign
      exact absurd hc (by decide)
    · rfl

theorem leadingInt_toString (n : Int) : leadingInt (toString n) = some n := by
  have hnat : ∀ m : Nat, (m.repr).toList = Nat.toDigits 10 m := fun m ↦ Nat.toList_repr
  rw [leadingInt, Int.toString_eq_repr]
  cases n with
  | ofNat m =>
    have htext : (Int.repr (.ofNat m)).toList = Nat.toDigits 10 m := hnat m
    rw [htext, leadingSign_toDigits, leadingDigits_toDigits]
    exact congrArg some (Int.one_mul _)
  | negSucc m =>
    have htext : (Int.repr (.negSucc m)).toList = '-' :: Nat.toDigits 10 (m + 1) := by
      rw [← hnat]
      exact String.toList_append
    have hdrop : ('-' :: Nat.toDigits 10 (m + 1)).dropWhile Char.isWhitespace =
        '-' :: Nat.toDigits 10 (m + 1) := rfl
    rw [htext, hdrop]
    simp only [leadingSign, leadingDigits_toDigits]
    exact congrArg some (Int.neg_one_mul _)

variable (js) in
theorem parseInt_eq (text : String) {n : Int} (htext : leadingInt text = some n) :
    parseInt js text = .of (js.nearest n) := by
  rw [parseInt, htext]

theorem parseInt_eq_nan {text : String} (htext : leadingInt text = none) :
    parseInt js text = .nan := by
  rw [parseInt, htext]

/-! ## Fields come back -/

def JsInt.Plain (js : JsNumbers) : JsInt → Prop
  | .nan => True
  | .of n => js.Plain n

theorem reads_decodeStr (field : String) : Reads decodeStr [field] field :=
  fun _ ↦ rfl

theorem reads_decodeBase (isConjunctionConnection : Bool) :
    Reads decodeBase (baseFields isConjunctionConnection) isConjunctionConnection := by
  cases isConjunctionConnection <;> exact fun _ ↦ rfl

theorem parseInt_text (hjs : js.Documented) {value : JsInt} (hplain : value.Plain js) :
    parseInt js (value.text js) = value := by
  cases value with
  | nan =>
    have hnan : leadingInt "NaN" = none := by decide
    exact parseInt_eq_nan hnan
  | of n =>
    obtain ⟨m, htext, hnearest⟩ := hjs.intText_plain n hplain
    rw [JsInt.text, htext, parseInt_eq js _ (leadingInt_toString m), hnearest]

theorem plain_of_safe (hjs : js.Documented) {n : Int} (hsafe : Safe n) : js.Plain n :=
  ⟨hjs.nearest_safe n hsafe, Nat.lt_trans hsafe (by decide)⟩

theorem parseInt_safe (hjs : js.Documented) {n : Int} (hsafe : Safe n) :
    parseInt js (js.intText n) = .of n := by
  have hplain : (JsInt.of n).Plain js := plain_of_safe hjs hsafe
  have hread := parseInt_text hjs hplain
  rwa [JsInt.text] at hread

theorem reads_decodeInt (hjs : js.Documented) {value : JsInt} (hplain : value.Plain js) :
    Reads (decodeInt js) [value.text js] value := by
  have hread : Reads (decodeInt js) [value.text js] (parseInt js (value.text js)) :=
    (reads_decodeStr _).map
  rwa [parseInt_text hjs hplain] at hread

theorem parseInt_boolField (hjs : js.Documented) (flag : Bool) :
    (parseInt js (boolField flag) != .of 0) = flag := by
  cases flag with
  | false =>
    have hzero := parseInt_eq js "0" (leadingInt_toString 0)
    rw [hjs.nearest_safe 0 (by decide)] at hzero
    exact congrArg (· != JsInt.of 0) hzero
  | true =>
    have hone := parseInt_eq js "1" (leadingInt_toString 1)
    rw [hjs.nearest_safe 1 (by decide)] at hone
    exact congrArg (· != JsInt.of 0) hone

theorem reads_decodeBool (hjs : js.Documented) (flag : Bool) :
    Reads (decodeBool js) [boolField flag] flag := by
  have hread : Reads (decodeBool js) [boolField flag] (parseInt js (boolField flag) != .of 0) :=
    (reads_decodeStr _).map
  rwa [parseInt_boolField hjs] at hread

/-! ## Conditions come back -/

def SetInt (js : JsNumbers) (val : Option JsInt) : Prop := ∃ n, val = some n ∧ n.Plain js

def ContractCondition.IsSet (js : JsNumbers) (c : ContractCondition) : Prop :=
  c.isMore.isSome ∧ SetInt js c.conId ∧ c.exchange.isSome

def OrderCondition.IsSet : OrderCondition js → Prop
  | .execution _ secType exchange symbol => secType.isSome ∧ exchange.isSome ∧ symbol.isSome
  | .margin base percent => base.isMore.isSome ∧ percent.isSome
  | .time base value => base.isMore.isSome ∧ value.isSome
  | .price base value triggerMethod => base.IsSet js ∧ value.isSome ∧ SetInt js triggerMethod
  | .percentChange base _ => base.IsSet js
  | .volume base value => base.IsSet js ∧ SetInt js value

theorem reads_decodeOperator (hjs : js.Documented) {c : OperatorCondition} (hset : c.isMore.isSome)
    (valueToString : String) :
    Reads (decodeOperator js) (c.makeFields valueToString) (c, valueToString) := by
  obtain ⟨isConjunctionConnection, _ | isMore⟩ := c
  · cases hset
  · exact (reads_decodeBase _).bind
      ((reads_decodeBool hjs isMore).bind ((reads_decodeStr valueToString).bind .pure))

theorem reads_decodeContract (hjs : js.Documented) {c : ContractCondition} (hset : c.IsSet js)
    (valueToString : String) :
    Reads (decodeContract js) (c.makeFields js valueToString) (c, valueToString) := by
  obtain ⟨base, conId, exchange⟩ := c
  obtain ⟨hmore, ⟨n, rfl, hplain⟩, hexchange⟩ := hset
  cases exchange with
  | none => cases hexchange
  | some exchange =>
    exact (reads_decodeOperator hjs hmore valueToString).bind
      ((reads_decodeInt hjs hplain).bind ((reads_decodeStr exchange).bind .pure))

theorem reads_decode (hjs : js.Documented) {c : OrderCondition js} (hset : c.IsSet) :
    Reads (c.kind.decode js) c.makeFields c := by
  cases c with
  | execution isConjunctionConnection secType exchange symbol =>
    obtain ⟨hsec, hexchange, hsymbol⟩ := hset
    obtain ⟨secType, rfl⟩ := Option.isSome_iff_exists.mp hsec
    obtain ⟨exchange, rfl⟩ := Option.isSome_iff_exists.mp hexchange
    obtain ⟨symbol, rfl⟩ := Option.isSome_iff_exists.mp hsymbol
    exact (reads_decodeBase _).bind ((reads_decodeStr _).bind
      ((reads_decodeStr _).bind ((reads_decodeStr _).bind .pure)))
  | margin base percent =>
    obtain ⟨percent, rfl⟩ := Option.isSome_iff_exists.mp hset.2
    have hread : Reads (Kind.margin.decode js) (base.makeFields (js.text percent))
        (.margin base (some (js.parseFloat (js.text percent)))) :=
      (reads_decodeOperator hjs hset.1 _).map
    rwa [hjs.parseFloat_text] at hread
  | time base value =>
    obtain ⟨value, rfl⟩ := Option.isSome_iff_exists.mp hset.2
    exact (reads_decodeOperator hjs hset.1 value).map
  | price base value triggerMethod =>
    obtain ⟨hbase, hvalue, n, rfl, hplain⟩ := hset
    obtain ⟨value, rfl⟩ := Option.isSome_iff_exists.mp hvalue
    have hread : Reads (Kind.price.decode js) (base.makeFields js (js.text value) ++ [n.text js])
        (.price base (some (js.parseFloat (js.text value))) (some n)) :=
      (reads_decodeContract hjs hbase _).bind (reads_decodeInt hjs hplain).map
    rwa [hjs.parseFloat_text] at hread
  | percentChange base changePercent =>
    have hread : Reads (Kind.percentChange.decode js) (base.makeFields js (js.text changePercent))
        (.percentChange base (js.parseFloat (js.text changePercent))) :=
      (reads_decodeContract hjs hset _).map
    rwa [hjs.parseFloat_text] at hread
  | volume base value =>
    obtain ⟨hbase, n, rfl, hplain⟩ := hset
    have hread : Reads (Kind.volume.decode js) (base.makeFields js (n.text js))
        (.volume base (some (parseInt js (n.text js)))) :=
      (reads_decodeContract hjs hbase _).map
    rwa [parseInt_text hjs hplain] at hread

/-! ## The order comes back -/

theorem reads_decodeOrderInt {text : String} (hne : text ≠ "") :
    Reads (decodeOrderInt js) [text] (parseInt js text) := by
  intro rest
  rw [List.singleton_append, decodeOrderInt, if_neg hne]

theorem reads_decodeOrderBool (hjs : js.Documented) (flag : Bool) :
    Reads (decodeOrderBool js) [boolField flag] flag := by
  have hne : boolField flag ≠ "" := by cases flag <;> decide
  have hread : Reads (decodeOrderBool js) [boolField flag]
      (parseInt js (boolField flag) != .of 0) :=
    (reads_decodeOrderInt hne).map
  rwa [parseInt_boolField hjs] at hread

theorem reads_integer {text : String} {n : Int} (hparse : parseInt js text = .of n) :
    Reads (decodeOrderInt js) [text] (.of n) := by
  have hne : text ≠ "" := by
    rintro rfl
    rw [parseInt_eq_nan (by decide)] at hparse
    cases hparse
  rw [← hparse]
  exact reads_decodeOrderInt hne

theorem Create_type (kind : Kind) : Create (.of kind.type) = some kind := by
  cases kind <;> rfl

theorem reads_type (hjs : js.Documented) (kind : Kind) :
    Reads (decodeOrderInt js) [js.intText kind.type] (.of kind.type) := by
  have hsafe : Safe kind.type := by cases kind <;> decide
  exact reads_integer (parseInt_safe hjs hsafe)

theorem reads_decodeEach (hjs : js.Documented) {conditions : List (OrderCondition js)}
    (hset : ∀ c ∈ conditions, c.IsSet) :
    Reads (decodeEach js conditions.length) (conditionFields conditions) conditions := by
  induction conditions with
  | nil => exact Reads.pure
  | cons c conditions ih =>
    have hrest := ih fun d hd ↦ hset d (List.mem_cons_of_mem c hd)
    have hc := reads_decode hjs (hset c List.mem_cons_self)
    have hfields : conditionFields (c :: conditions) =
        [js.intText c.kind.type] ++ (c.makeFields ++ conditionFields conditions) := rfl
    rw [hfields]
    refine (reads_type hjs c.kind).bind ?_
    simp only [Create_type]
    exact hc.bind hrest.map

def integers : JsNumbers where
  Number := Int
  text := toString
  parseFloat text := (leadingInt text).getD 0
  intText := toString
  nearest := id

theorem integers_documented : integers.Documented where
  parseFloat_text n := congrArg (·.getD 0) (leadingInt_toString n)
  nearest_safe _ _ := rfl
  intText_plain n _ := ⟨n, rfl, rfl⟩

def waiting : ConditionalOrder integers where
  conditions :=
    [.price ⟨⟨false, some true⟩, some (.of 265598), some "SMART"⟩ (some (250 : Int)) (some (.of 0)),
      .time ⟨true, some false⟩ (some "20260101 09:30:00")]
  conditionsIgnoreRth := true

end OpenAlice.Ibkr.Conditions
