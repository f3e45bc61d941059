import Bud.Lib.Protobuf
import Bud.Lib.Utf8

/-!
# Field-level payloads

`wire.ts` of the service and `proto_wire.rs` of the daemon each have a codec for the same payloads,
written by hand: a frame is a JSON object, and a payload has one protobuf field for each field of
the frame that the codec knows. A codec is a table for each message: the number a field of the
object is written under and how, and what is done with the fields of a payload as they come.

The helpers of the two codecs, `writeOptionalString` and `write_optional_string` and so on, are the
same but for what is noted with each. `Writer` and `Reader` name them; the tables are in
`Bud.Wire.Tables`.

## Modelling notes

A string is Unicode text. On the way in and out a codec turns the frame into JSON text and back,
which keeps it, so that is left out; the JSON texts that are on the wire are not. What the codecs
use of their languages' libraries is a parameter, `Runtime`. A number that is read for a field of 32
bits is kept whatever its size, where `Number` would round one above `2 ^ 53`.
-/

namespace Bud.Wire

open Protobuf

/-! ### Frames -/

inductive Json where
  | null
  | bool (b : Bool)
  | int (n : ℤ)
  | decimal (text : String)
  | string (s : String)
  | array (values : List Json)
  | object (fields : List (String × Json))
  deriving Repr

abbrev Fields := List (String × Json)

def get (fields : Fields) (name : String) : Option Json := fields.lookup name

def set (fields : Fields) (name : String) (value : Json) : Fields :=
  (name, value) :: fields.filter fun field => field.1 ≠ name

/-- A field as it is after reading: it may have been left alone. -/
def put (fields : Fields) (name : String) : Option Json → Fields
  | none => fields
  | some value => set fields name value

/-- `stringField`, `string_value`. -/
def asString : Option Json → Option String
  | some (.string s) => some s
  | _ => none

/-- `booleanField`, `bool_value`. -/
def asBool : Option Json → Option Bool
  | some (.bool b) => some b
  | _ => none

def asInteger : Option Json → Option ℤ
  | some (.int n) => some n
  | _ => none

/-- `arrayField`, `array_value`. -/
def elements : Option Json → List Json
  | some (.array values) => values
  | _ => []

/-- The fields of what should be an object. -/
def asFields : Json → Fields
  | .object fields => fields
  | _ => []

/-- The entries of what should be a map. -/
def entries : Option Json → Fields
  | some (.object fields) => fields
  | _ => []

/-! ### Languages -/

inductive Lang where
  | typescript
  | rust
  deriving DecidableEq

structure Runtime where
  toJson : Lang → Json → String
  ofJson : Lang → String → Option Json
  /-- Both languages write padded base64 of the standard alphabet. -/
  toBase64 : List UInt8 → String
  ofBase64 : Lang → String → Option (List UInt8)
  /-- `toISOString`, `to_rfc3339_opts`: there are times that they do not have. -/
  toTime : Lang → ℤ → Option String
  /-- `Date.parse`, `parse_from_rfc3339`: milliseconds. -/
  ofTime : Lang → String → Option ℤ
  /-- The milliseconds that `Date` takes of a number that is not an integer. -/
  wholeMillis : String → ℤ
  /-- The id and the time that a frame without gets. -/
  newMessageId : String
  now : String

/-- A `bigint` has any size; the daemon's numbers are `u64` and `u32`. -/
def Lang.dialect : Lang → Dialect
  | .typescript => Dialect.unbounded
  | .rust => Dialect.fixed

def utf8 (s : String) : List UInt8 := Utf8.encode s.toList

/-- `toString("utf-8")` replaces what is not UTF-8, `String::from_utf8` does not take it. -/
def ofUtf8 (bytes : List UInt8) : Lang → Option String
  | .typescript => some (String.ofList (Utf8.decodeLossy bytes))
  | .rust => (Utf8.decode bytes).map String.ofList

def maxSafeInteger : ℕ := 2 ^ 53 - 1

/-- `BigInt.asUintN(64, …)`. -/
def asUint64 (n : ℤ) : ℕ := (n % 2 ^ 64).toNat

/-- `BigInt.asIntN(32, …)`, `(value as i64) as i32`. -/
def asInt32 (value : ℕ) : ℤ :=
  if value % 2 ^ 32 < 2 ^ 31 then value % 2 ^ 32 else value % 2 ^ 32 - 2 ^ 32

/-! ### Writing -/

/-- The messages that are nested in payloads. -/
inductive Message where
  | budError
  | terminalEnsureConfig
  | operationStatus
  | streamStatus
  deriving DecidableEq

/-- How a field is written, by the name of the helper. -/
inductive Writer where
  | optionalString
  | optionalNullableString
  | optionalBool
  | optionalUint32
  | optionalUint64
  | optionalInt32
  | optionalEnum (values : List (String × ℕ))
  | optionalJsonBytes
  | optionalBase64Bytes
  | stringMap
  | optionalMessage (message : Message)
  | repeatedMessages (message : Message)
  | repeatedStrings
  deriving DecidableEq

/-- An entry of a table. -/
structure Field (K : Type) where
  number : ℕ
  name : String
  kind : K
  deriving DecidableEq

variable (rt : Runtime) (lang : Lang)

/-- `writeOptionalUint32` writes any number, `write_optional_u32` none above `u32::MAX`. -/
def uint32Chunks (n : ℤ) : List Chunk :=
  match lang with
  | .typescript => if 0 ≤ n then [.varint (asUint64 n)] else []
  | .rust => if 0 ≤ n ∧ n < 2 ^ 32 then [.varint n.toNat] else []

/-- `writeOptionalUint64` throws where a number is not one that JavaScript keeps. -/
def uint64Chunks (n : ℤ) : Option (List Chunk) :=
  match lang with
  | .typescript =>
    if 0 ≤ n then if n ≤ maxSafeInteger then some [.varint n.toNat] else none else some []
  | .rust => if 0 ≤ n ∧ n < 2 ^ 64 then some [.varint n.toNat] else some []

/-- An entry of a map whose value is not a string is written by its text. -/
def entryText : Json → String
  | .string s => s
  | value => rt.toJson lang value

/-- `stringMapField`, `string_map_value`. An object literal does not take `__proto__` as a key. -/
def stringMapField (fields : Fields) : List (String × String) :=
  let kept : Fields :=
    match lang with
    | .typescript => fields.filter fun entry => entry.1 ≠ "__proto__"
    | .rust => fields
  kept.map fun entry => (entry.1, entryText rt lang entry.2)

def entryBytes (entry : String × String) : List UInt8 :=
  encodeItems [(1, .bytes (utf8 entry.1)), (2, .bytes (utf8 entry.2))]

variable (encodeMessage : Message → Fields → Option (List UInt8))

/-- What is written for a value of the frame, or `none` if that throws. -/
def Writer.chunks (value : Option Json) : Writer → Option (List Chunk)
  | .optionalString =>
    some (((asString value).filter fun s => s ≠ "").elim [] fun s => [.bytes (utf8 s)])
  | .optionalNullableString => some ((asString value).elim [] fun s => [.bytes (utf8 s)])
  | .optionalBool => some ((asBool value).elim [] fun b => [.varint (if b then 1 else 0)])
  | .optionalUint32 => some ((asInteger value).elim [] (uint32Chunks lang))
  | .optionalUint64 => (asInteger value).elim (some []) (uint64Chunks lang)
  | .optionalInt32 => some ((asInteger value).elim [] fun n => [.varint (asUint64 n)])
  | .optionalEnum values =>
    let number := ((asString value).bind fun s => values.lookup s).getD 0
    some (if 0 < number then [.varint number] else [])
  | .optionalJsonBytes =>
    match value with
    | none | some .null => some []
    | some value => some [.bytes (utf8 (rt.toJson lang value))]
  | .optionalBase64Bytes =>
    (asString value).elim (some []) fun s => (rt.ofBase64 lang s).map fun bytes => [.bytes bytes]
  | .stringMap =>
    some ((stringMapField rt lang (entries value)).map fun entry => .bytes (entryBytes entry))
  | .optionalMessage message =>
    match value with
    | some (.object fields) => (encodeMessage message fields).map fun bytes => [.bytes bytes]
    | _ => some []
  | .repeatedMessages message =>
    (elements value).mapM fun value =>
      (encodeMessage message (asFields value)).map fun bytes => .bytes bytes
  | .repeatedStrings =>
    some ((elements value).filterMap fun value =>
      (asString (some value)).map fun s => .bytes (utf8 s))

/-- The fields that are written for an entry of a table. -/
def fieldItems (fields : Fields) (field : Field Writer) : Option (List (ℕ × Chunk)) :=
  (field.kind.chunks rt lang encodeMessage (get fields field.name)).map fun chunks =>
    chunks.map fun c => (field.number, c)

def recordItems (table : List (Field Writer)) (fields : Fields) : Option (List (ℕ × Chunk)) :=
  (table.mapM (fieldItems rt lang encodeMessage fields)).map List.flatten

/-- Write the fields of an object that are in the table. -/
def encodeRecord (table : List (Field Writer)) (fields : Fields) : Option (List UInt8) :=
  (recordItems rt lang encodeMessage table fields).map encodeItems

/-! ### Reading -/

/-- What is done with a field, by what is read. -/
inductive Reader where
  | string
  | bool
  /-- `Number(…)`, `insert_u64`. -/
  | number
  /-- `readSafeUint64`: it throws where the number is not one that JavaScript keeps. -/
  | safeUint64
  | int32
  | enum (values : List (ℕ × String)) (default : String)
  | json
  | base64
  | mapEntry
  | message (message : Message)
  | pushMessage (message : Message)
  | pushString
  deriving DecidableEq

def Reader.wire : Reader → ℕ
  | .bool | .number | .safeUint64 | .int32 | .enum .. => wireVarint
  | .string | .json | .base64 | .mapEntry | .message _ | .pushMessage _ | .pushString =>
    wireLengthDelimited

/-- Read a message whose known fields are handled as given. -/
def Lang.readMessage {M : Type} (known : ℕ → Option (Handler M)) (m : M) (bytes : List UInt8) :
    Option M :=
  lang.dialect.readMessage (lang.dialect.onField known) m bytes

def entryField : ℕ → Option (Handler (Option String × Option String))
  | 1 => some (.bytes fun entry bytes => (ofUtf8 bytes lang).map fun s => (some s, entry.2))
  | 2 => some (.bytes fun entry bytes => (ofUtf8 bytes lang).map fun s => (entry.1, some s))
  | _ => none

/-- `decodeStringMapEntry`, `decode_string_map_entry`: a key that is empty is none to the service.
-/
def decodeStringMapEntry (bytes : List UInt8) : Option (Option (String × String)) :=
  (lang.readMessage (entryField lang) (none, none) bytes).map fun (key, value) =>
    (key.filter fun key => lang = .rust ∨ key ≠ "").map fun key => (key, value.getD "")

/-- `{ ...map, ...entry }`, `merge_string_map_entry`. -/
def mergeEntry (current : Option Json) : Option (String × String) → Option Json
  | some (key, value) => some (.object (set (entries current) key (.string value)))
  | none =>
    match lang with
    | .typescript => some (.object (entries current))
    | .rust => current

variable (decodeMessage : Message → List UInt8 → Option Fields)

/-- What the field becomes, or `none` if that throws. -/
def Reader.take (current : Option Json) : Reader → Chunk → Option (Option Json)
  | .string, .bytes bytes => (ofUtf8 bytes lang).map fun s => some (.string s)
  | .bool, .varint value => some (some (.bool (decide (value ≠ 0))))
  | .number, .varint value => some (some (.int value))
  | .safeUint64, .varint value =>
    if value ≤ maxSafeInteger then some (some (.int value)) else none
  | .int32, .varint value => some (some (.int (asInt32 value)))
  | .enum values default, .varint value =>
    some (some (.string ((values.lookup value).getD default)))
  | .json, .bytes bytes =>
    ((ofUtf8 bytes lang).bind (rt.ofJson lang)).map fun value => some value
  | .base64, .bytes bytes => some (some (.string (rt.toBase64 bytes)))
  | .mapEntry, .bytes bytes => (decodeStringMapEntry lang bytes).map (mergeEntry lang current)
  | .message m, .bytes bytes =>
    (decodeMessage m bytes).map fun fields => some (.object fields)
  | .pushMessage m, .bytes bytes =>
    (decodeMessage m bytes).map fun fields =>
      some (.array (elements current ++ [.object fields]))
  | .pushString, .bytes bytes =>
    (ofUtf8 bytes lang).map fun s => some (.array (elements current ++ [.string s]))
  | _, _ => none

def tableField (table : List (Field Reader)) (number : ℕ) : Option (Handler Fields) :=
  (table.find? fun field => field.number = number).map fun field =>
    { wire := field.kind.wire
      take := fun fields c =>
        (field.kind.take rt lang decodeMessage (get fields field.name) c).map
          (put fields field.name) }

def decodeRecord (table : List (Field Reader)) (fields : Fields) (bytes : List UInt8) :
    Option Fields :=
  lang.readMessage (tableField rt lang decodeMessage table) fields bytes

end Bud.Wire
