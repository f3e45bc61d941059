import Bud.Lib.JsText
import Mathlib.Algebra.Order.Ring.Unbundled.Rat
import Mathlib.Order.WithBot

/-!
# JavaScript values

The values that `JSON.parse` returns, and what becomes of them when they are written as JSON again.
A number is a rational or one of the two infinities: a JSON text may have a number that is too large
for the language, which is read as infinite, and is `null` in the JSON of the value. `NaN` is not
read from any JSON text, and the two zeros are equal.

A text is a list of UTF-16 code units, as in `JsText`. The names of the fields of an object are
strings, and their order is that of the list.

## Main definitions

* `Value`, `get` — values and the fields of objects
* `jsonCopy` — `JSON.parse(JSON.stringify(value))`
-/

namespace JsValue

open JsText

abbrev Text : Type := List UInt16

abbrev Number : Type := WithBot (WithTop ℚ)

inductive Value where
  | null
  | bool (b : Bool)
  | number (n : Number)
  | string (s : Text)
  | array (values : List Value)
  | object (fields : List (String × Value))

abbrev Fields : Type := List (String × Value)

def get (fields : Fields) (name : String) : Option Value := fields.lookup name

/-- `typeof value === "string"`. -/
def asString : Option Value → Option Text
  | some (.string s) => some s
  | _ => none

/-- `typeof value === "boolean"`. -/
def asBool : Option Value → Option Bool
  | some (.bool b) => some b
  | _ => none

/-- `typeof value === "number"`. -/
def asNumber : Option Value → Option Number
  | some (.number n) => some n
  | _ => none

/-- An object that is no array. -/
def asRecord : Option Value → Option Fields
  | some (.object fields) => some fields
  | _ => none

/-- `value?.name`. -/
def member (value : Option Value) (name : String) : Option Value :=
  (asRecord value).bind fun fields => get fields name

def number (q : ℚ) : Number := ((q : WithTop ℚ) : WithBot (WithTop ℚ))

/-- Neither of the infinities. -/
def Finite (n : Number) : Prop := ∃ q, n = number q

/-- `Boolean(value)`. -/
def truthy : Value → Bool
  | .null => false
  | .bool b => b
  | .number n => n ≠ number 0
  | .string s => !s.isEmpty
  | .array _ => true
  | .object _ => true

def jsonNumber : Number → Value
  | some (some q) => .number (number q)
  | some none => .null
  | none => .null

mutual

/-- `JSON.parse(JSON.stringify(value))`. -/
def jsonCopy : Value → Value
  | .null => .null
  | .bool b => .bool b
  | .number n => jsonNumber n
  | .string s => .string s
  | .array values => .array (jsonCopyList values)
  | .object fields => .object (jsonCopyFields fields)

def jsonCopyList : List Value → List Value
  | [] => []
  | value :: values => jsonCopy value :: jsonCopyList values

def jsonCopyFields : List (String × Value) → List (String × Value)
  | [] => []
  | (name, value) :: fields => (name, jsonCopy value) :: jsonCopyFields fields

end

mutual

/-- All numbers of the value are finite. -/
def IsJson : Value → Prop
  | .null => True
  | .bool _ => True
  | .number n => Finite n
  | .string _ => True
  | .array values => IsJsonList values
  | .object fields => IsJsonFields fields

def IsJsonList : List Value → Prop
  | [] => True
  | value :: values => IsJson value ∧ IsJsonList values

def IsJsonFields : List (String × Value) → Prop
  | [] => True
  | (_, value) :: fields => IsJson value ∧ IsJsonFields fields

end

theorem jsonNumber_of_finite {n : Number} (h : Finite n) : jsonNumber n = .number n := by
  obtain ⟨q, rfl⟩ := h
  rfl

mutual

theorem jsonCopy_eq_self : ∀ value : Value, IsJson value → jsonCopy value = value
  | .null, _ => rfl
  | .bool _, _ => rfl
  | .number _, h => jsonNumber_of_finite h
  | .string _, _ => rfl
  | .array values, h => congrArg Value.array (jsonCopyList_eq_self values h)
  | .object fields, h => congrArg Value.object (jsonCopyFields_eq_self fields h)

theorem jsonCopyList_eq_self : ∀ values : List Value, IsJsonList values →
    jsonCopyList values = values
  | [], _ => rfl
  | value :: values, h => by
    rw [jsonCopyList, jsonCopy_eq_self value h.1, jsonCopyList_eq_self values h.2]

theorem jsonCopyFields_eq_self : ∀ fields : List (String × Value), IsJsonFields fields →
    jsonCopyFields fields = fields
  | [], _ => rfl
  | (name, value) :: fields, h => by
    rw [jsonCopyFields, jsonCopy_eq_self value h.1, jsonCopyFields_eq_self fields h.2]

end

theorem jsonCopyFields_eq_map : ∀ fields : List (String × Value),
    jsonCopyFields fields = fields.map fun field => (field.1, jsonCopy field.2)
  | [] => rfl
  | (name, value) :: fields =>
    congrArg ((name, jsonCopy value) :: ·) (jsonCopyFields_eq_map fields)

theorem get_jsonCopyFields (fields : Fields) (name : String) :
    get (jsonCopyFields fields) name = (get fields name).map jsonCopy := by
  rw [jsonCopyFields_eq_map, get, get]
  induction fields with
  | nil => rfl
  | cons field fields ih =>
    rw [List.map_cons, List.lookup_cons, List.lookup_cons, ih]
    cases name == field.1 <;> rfl

end JsValue
