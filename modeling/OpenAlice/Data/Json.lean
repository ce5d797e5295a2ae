import Mathlib.Data.List.Basic

/-!
# Values of JSON

What `JSON.parse` gives, and what code that does not trust it asks of it.
-/

namespace OpenAlice.Data

/-- A value of `JSON`; an object has its properties in their order. -/
inductive Json where
  | null
  | bool (value : Bool)
  | number (text : String)
  | string (value : String)
  | array (items : List Json)
  | object (fields : List (String × Json))

namespace Json

def recordValue : Json → List (String × Json)
  | .object fields => fields
  | _ => []

def asString : Json → Option String
  | .string value => some value
  | _ => none

/-- The value of a property: `value[key]`. -/
def get (fields : List (String × Json)) (key : String) : Option Json := fields.lookup key

/-- `recordValue(value)[key]`, as a record. -/
def record (fields : List (String × Json)) (key : String) : List (String × Json) :=
  ((get fields key).map recordValue).getD []

end Json

/-! ## Properties -/

/-- A property, unless it is `undefined`. -/
def given (key : String) (value : Option Json) : List (String × Json) :=
  (value.map fun value ↦ (key, value)).toList

/-- The properties of what is `typeof … === 'object'` and not `null`; no index of an array is
asked for. -/
def properties : Json → Option (List (String × Json))
  | .object fields => some fields
  | .array _ => some []
  | _ => none

def textOf (fields : List (String × Json)) (key : String) : Option String :=
  (Json.get fields key).bind Json.asString

variable {key key' : String} {value : Option Json} {l l' : List (String × Json)}

theorem get_append : Json.get (l ++ l') key = (Json.get l key).or (Json.get l' key) :=
  List.lookup_append

theorem get_given : Json.get (given key value) key = value := by
  cases value with
  | none => rfl
  | some value => exact List.lookup_cons_self

theorem get_given_of_ne (h : key' ≠ key) : Json.get (given key value) key' = none := by
  cases value with
  | none => rfl
  | some value =>
    show List.lookup key' [(key, value)] = none
    rw [List.lookup_cons, beq_eq_false_iff_ne.mpr h]
    rfl

theorem asString_map (text : Option String) : (text.map Json.string).bind Json.asString = text := by
  cases text <;> rfl

end OpenAlice.Data
