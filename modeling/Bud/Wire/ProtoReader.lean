import Bud.Lib.Traced
import Bud.Wire.Envelope

/-!
# The daemon's reader, offset by offset

`Bud.Wire.Envelope` reads an envelope as a list whose front is taken off. Here is what
`decode_legacy_json_envelope` of `proto_wire.rs` does with the bytes that it is given: a cursor into
them that is moved by `usize` arithmetic, and slices between two cursors. In a release build a sum
of the cursor and a length is taken modulo `2 ^ 64`, and a slice that is out of range panics.

The arithmetic is a parameter. `Arithmetic.wrapping` is that of the release build;
`Arithmetic.checked` stops where the sum does not fit, as `checked_add` would.

## Modelling notes

A run leaves a trace: the slices that are taken, and where the cursor was before and after each
field. A loop takes its fuel, one unit a field, and to be out of fuel is a result of its own. The
tables of the daemon are those of `Bud.Wire.Tables`. The errors of the libraries (UTF-8, JSON) are
one, `Stop.invalid`.
-/

namespace Bud.ProtoWire

open Wire Protobuf Traced

/-! ### Runs -/

inductive Event where
  /-- A field was read or skipped: where its tag begins, and where the reader is after it. -/
  | field (start stop : ℕ)
  /-- `&bytes[start..stop]`, of so many bytes. -/
  | slice (start stop length : ℕ)

/-- The reader moves forward, and a slice is in range. -/
def Event.Good : Event → Prop
  | .field start stop => start < stop
  | .slice start stop length => start ≤ stop ∧ stop ≤ length

inductive Stop where
  /-- `bail!` -/
  | error (text : String)
  /-- An error of a library. -/
  | invalid
  | panic
  | outOfFuel
  /-- A sum does not fit, where that is checked. -/
  | overflow
  deriving DecidableEq

abbrev Decode := Traced Event Stop

def bail {α : Type} (text : String) : Decode α := fail (.error text)

/-! ### Arithmetic -/

/-- How the cursor is moved over a length. -/
structure Arithmetic where
  sliceEnd : ℕ → ℕ → Option ℕ
  /-- The end of what is skipped, from where its field begins and where the reader is. -/
  skipEnd : ℕ → ℕ → ℕ → Option ℕ

namespace Arithmetic

/-- `usize` of a release build. -/
def wrapping : Arithmetic :=
  { sliceEnd := fun start length => some ((start + length) % 2 ^ 64)
    skipEnd := fun _ offset length => some ((offset + length) % 2 ^ 64) }

/-- No sum may wrap around, unless the reader is still ahead of the field that it skips. -/
def checked : Arithmetic :=
  { sliceEnd := fun start length =>
      if start + length < 2 ^ 64 then some (start + length) else none
    skipEnd := fun field offset length =>
      if offset + length < 2 ^ 64 ∨ field < offset + length - 2 ^ 64 then
        some ((offset + length) % 2 ^ 64)
      else none }

end Arithmetic

/-! ### The reader -/

/-- A reader of `bytes`. Where the last tag begins is for the trace. -/
structure ProtoReader (bytes : List UInt8) where
  field : ℕ
  offset : ℕ
  offset_le : offset ≤ bytes.length

/-- The loop of `read_varint` on what is left, with the bits read so far and the next shift. -/
def readVarintFrom : UInt64 → ℕ → List UInt8 → Except Stop (UInt64 × List UInt8)
  | _, _, [] => .error (.error "unexpected end of protobuf varint")
  | result, shift, byte :: rest =>
    let result := result ||| (byte &&& 0x7f).toUInt64 <<< UInt64.ofNat shift
    if byte &&& 0x80 = 0 then .ok (result, rest)
    else if 63 < shift + 7 then .error (.error "protobuf varint is too large")
    else readVarintFrom result (shift + 7) rest

namespace ProtoReader

variable {bytes : List UInt8}

def new (bytes : List UInt8) : ProtoReader bytes := ⟨0, 0, Nat.zero_le _⟩

def done (reader : ProtoReader bytes) : Bool := bytes.length ≤ reader.offset

def readVarint (reader : ProtoReader bytes) : Decode (UInt64 × ProtoReader bytes) := do
  let (value, rest) ← ofExcept (readVarintFrom 0 0 (bytes.drop reader.offset))
  return (value, { reader with offset := bytes.length - rest.length, offset_le := Nat.sub_le _ _ })

/-- The number of a field and its wire type. -/
def readTag (reader : ProtoReader bytes) : Decode (ℕ × ℕ × ProtoReader bytes) := do
  let (tag, next) ← reader.readVarint
  return ((tag.toNat >>> 3) % 2 ^ 32, tag.toNat % 8, { next with field := reader.offset })

/-- A field has been read or skipped. -/
def leaveField (reader : ProtoReader bytes) : Decode Unit :=
  tell (.field reader.field reader.offset)

def readVarintForWireType (wireType : ℕ) (reader : ProtoReader bytes) :
    Decode (UInt64 × ProtoReader bytes) :=
  if wireType ≠ wireVarint then
    bail ("expected varint wire type, got " ++ toString wireType)
  else do
    let (value, next) ← reader.readVarint
    next.leaveField
    return (value, next)

variable (arith : Arithmetic)

def slice (reader : ProtoReader bytes) (stop : ℕ) : Decode (List UInt8 × ProtoReader bytes) :=
  if h : stop ≤ bytes.length then do
    let next := { reader with offset := stop, offset_le := h }
    tell (.slice reader.offset stop bytes.length)
    if reader.offset ≤ stop then do
      next.leaveField
      return ((bytes.drop reader.offset).take (stop - reader.offset), next)
    else fail .panic
  else bail "protobuf length-delimited field exceeds buffer length"

def readBytesForWireType (wireType : ℕ) (reader : ProtoReader bytes) :
    Decode (List UInt8 × ProtoReader bytes) :=
  if wireType ≠ wireLengthDelimited then
    bail ("expected length-delimited wire type, got " ++ toString wireType)
  else do
    let (length, reader) ← reader.readVarint
    let stop ← ofOption .overflow (arith.sliceEnd reader.offset length.toNat)
    reader.slice stop

/-- The cursor is moved first and looked at then. -/
def moveTo (reader : ProtoReader bytes) (stop : ℕ) : Decode (ProtoReader bytes) :=
  if h : stop ≤ bytes.length then do
    let next := { reader with offset := stop, offset_le := h }
    next.leaveField
    return next
  else bail "protobuf skip exceeded buffer length"

/-- `self.offset += length`, with the check at the end of `skip`. -/
def skipOver (length : ℕ) (reader : ProtoReader bytes) : Decode (ProtoReader bytes) := do
  let stop ← ofOption .overflow (arith.skipEnd reader.field reader.offset length)
  reader.moveTo stop

def skip (wireType : ℕ) (reader : ProtoReader bytes) : Decode (ProtoReader bytes) :=
  if wireType = wireVarint then do
    let (_, next) ← reader.readVarint
    next.moveTo next.offset
  else if wireType = wire64Bit then reader.skipOver arith 8
  else if wireType = wireLengthDelimited then do
    let (length, next) ← reader.readVarint
    next.skipOver arith length.toNat
  else if wireType = wire32Bit then reader.skipOver arith 4
  else bail ("unsupported protobuf wire type: " ++ toString wireType)

/-- What is expected of a known field, whichever wire type it has. -/
def readChunk (expected wireType : ℕ) (reader : ProtoReader bytes) :
    Decode (Chunk × ProtoReader bytes) :=
  if expected = wireVarint then do
    let (value, next) ← reader.readVarintForWireType wireType
    return (.varint value.toNat, next)
  else do
    let (value, next) ← reader.readBytesForWireType arith wireType
    return (.bytes value, next)

end ProtoReader

/-! ### Messages -/

/-- The fields that a message knows: the wire type that is expected of each, and what becomes of it
with what is there. The others are skipped. -/
structure Known (M : Type) where
  wire : ℕ → Option ℕ
  take : M → ℕ → Chunk → Decode M

def stringFromUtf8 (bytes : List UInt8) : Decode String := ofOption .invalid (ofUtf8 bytes .rust)

variable (arith : Arithmetic) {M : Type}

/-- The body of the loop of a message, after its tag. -/
def onField (known : Known M) (m : M) (fieldNumber wireType : ℕ) {bytes : List UInt8}
    (reader : ProtoReader bytes) : Decode (M × ProtoReader bytes) :=
  match known.wire fieldNumber with
  | none => do
    let next ← reader.skip arith wireType
    return (m, next)
  | some expected => do
    let (c, next) ← reader.readChunk arith expected wireType
    let m ← known.take m fieldNumber c
    return (m, next)

/-- `while !reader.done()`. -/
def readFields (known : Known M) {bytes : List UInt8} :
    ℕ → M → ProtoReader bytes → Decode M
  | fuel, m, reader =>
    if reader.done then return m
    else
      match fuel with
      | 0 => fail .outOfFuel
      | fuel + 1 => do
        let (fieldNumber, wireType, reader) ← reader.readTag
        let (m, reader) ← onField arith known m fieldNumber wireType reader
        readFields known fuel m reader

variable (fuel : ℕ)

def readMessage (known : Known M) (m : M) (bytes : List UInt8) : Decode M :=
  readFields arith known fuel m (ProtoReader.new bytes)

/-- The entry of a map: its key and its value. -/
def entryFields : Known (Option String × Option String) :=
  { wire := fun fieldNumber =>
      if fieldNumber = 1 ∨ fieldNumber = 2 then some wireLengthDelimited else none
    take := fun entry fieldNumber c =>
      match fieldNumber, c with
      | 1, .bytes bytes => do return (some (← stringFromUtf8 bytes), entry.2)
      | 2, .bytes bytes => do return (entry.1, some (← stringFromUtf8 bytes))
      | _, _ => return entry }

def decodeStringMapEntry (bytes : List UInt8) : Decode (Option (String × String)) := do
  let (key, value) ← readMessage arith fuel entryFields (none, none) bytes
  return key.map fun key => (key, value.getD "")

variable (rt : Runtime)

/-- What the field of an object becomes; messages and entries of maps are read in turn. -/
def takeValue (decodeMessage : Message → List UInt8 → Decode Fields) (current : Option Json) :
    Reader → Chunk → Decode (Option Json)
  | .mapEntry, .bytes bytes => do
    return mergeEntry .rust current (← decodeStringMapEntry arith fuel bytes)
  | .message message, .bytes bytes => do return some (.object (← decodeMessage message bytes))
  | .pushMessage message, .bytes bytes => do
    return some (.array (elements current ++ [.object (← decodeMessage message bytes)]))
  | reader, c => ofOption .invalid (reader.take rt .rust (fun _ _ => none) current c)

def findField (table : List (Wire.Field Reader)) (fieldNumber : ℕ) : Option (Wire.Field Reader) :=
  table.find? fun field => field.number = fieldNumber

def tableFields (decodeMessage : Message → List UInt8 → Decode Fields)
    (table : List (Wire.Field Reader)) : Known Fields :=
  { wire := fun fieldNumber => (findField table fieldNumber).map fun field => field.kind.wire
    take := fun fields fieldNumber c =>
      match findField table fieldNumber with
      | none => return fields
      | some field => do
        let value ← takeValue arith fuel rt decodeMessage (get fields field.name) field.kind c
        return put fields field.name value }

/-- `decode_bud_error` and its siblings, to the depth that there is. -/
def decodeMessage : ℕ → Message → List UInt8 → Decode Fields
  | 0, _, _ => fail .invalid
  | depth + 1, message, bytes =>
    readMessage arith fuel
      (tableFields arith fuel rt (decodeMessage depth) (Rs.decodeMessageTable message)) [] bytes

/-! ### Payloads -/

structure LegacyJsonPayload where
  json : List UInt8
  frameType : Option String
  proto : Option String
  deriving DecidableEq

/-- What has been read of a `legacy_json` payload. -/
structure LegacyFields where
  json : Option (List UInt8) := none
  frameType : Option String := none
  proto : Option String := none

def legacyFields : Known LegacyFields :=
  { wire := fun fieldNumber =>
      if fieldNumber = 1 ∨ fieldNumber = 2 ∨ fieldNumber = 3 then some wireLengthDelimited
      else none
    take := fun fields fieldNumber c =>
      match fieldNumber, c with
      | 1, .bytes bytes => return { fields with json := some bytes }
      | 2, .bytes bytes => do return { fields with frameType := some (← stringFromUtf8 bytes) }
      | 3, .bytes bytes => do return { fields with proto := some (← stringFromUtf8 bytes) }
      | _, _ => return fields }

def decodeLegacyJsonPayload (bytes : List UInt8) : Decode LegacyJsonPayload := do
  let fields ← readMessage arith fuel legacyFields {} bytes
  match fields.json with
  | none => bail "legacy_json payload missing json bytes"
  | some json => return { json, frameType := fields.frameType, proto := fields.proto }

/-- The loop of `payload_contains_frame_json`: it returns at the first `frame_json`. -/
def containsFrameJson {bytes : List UInt8} : ℕ → ProtoReader bytes → Decode Bool
  | fuel, reader =>
    if reader.done then return false
    else
      match fuel with
      | 0 => fail .outOfFuel
      | fuel + 1 => do
        let (fieldNumber, wireType, reader) ← reader.readTag
        if fieldNumber = typedFrameJsonField then return true
        else do
          let reader ← reader.skip arith wireType
          containsFrameJson fuel reader

def payloadContainsFrameJson (bytes : List UInt8) : Decode Bool :=
  containsFrameJson arith fuel (ProtoReader.new bytes)

def frameJsonFields : Known (Option (List UInt8)) :=
  { wire := fun fieldNumber =>
      if fieldNumber = typedFrameJsonField then some wireLengthDelimited else none
    take := fun json _ c =>
      match c with
      | .bytes bytes => return some bytes
      | .varint _ => return json }

def isFieldLevelFrameType (frameType : String) : Option (List (Wire.Field Reader)) :=
  (FrameType.ofName? frameType).bind Rs.decodeTable

def decodeFieldLevelPayload (table : List (Wire.Field Reader)) (bytes : List UInt8)
    (frameType messageId sentAt : String) : Decode Json := do
  let frame ← readMessage arith fuel
    (tableFields arith fuel rt (decodeMessage arith fuel rt nesting) table)
    (baseFrame rt .rust frameType messageId sentAt) bytes
  return .object frame

/-- The payload is the text of the frame, in its `frame_json`. -/
def decodeFrameJson (bytes : List UInt8) (frameType : String) : Decode LegacyJsonPayload := do
  let json ← readMessage arith fuel frameJsonFields none bytes
  match json with
  | none => bail "typed protobuf payload missing frame_json bytes"
  | some json =>
    return { json, frameType := some frameType, proto := some (protoForFrameType frameType) }

def decodeTypedJsonPayload (bytes : List UInt8) (frameType messageId sentAt : String) :
    Decode LegacyJsonPayload :=
  match isFieldLevelFrameType frameType with
  | none => decodeFrameJson arith fuel bytes frameType
  | some table => do
    let found ← payloadContainsFrameJson arith fuel bytes
    if found then decodeFrameJson arith fuel bytes frameType
    else do
      let frame ← decodeFieldLevelPayload arith fuel rt table bytes frameType messageId sentAt
      return { json := utf8 (rt.toJson .rust frame)
               frameType := some frameType
               proto := some (protoForFrameType frameType) }

/-! ### Envelopes -/

structure LegacyJsonEnvelope where
  envelopeVersion : ℕ
  messageId : String
  sentAt : String
  trafficClass : TrafficClass
  transportKind : Option TransportKind
  payload : LegacyJsonPayload
  deriving DecidableEq

/-- What has been read of an envelope. -/
structure EnvelopeFields where
  envelopeVersion : Option ℕ := none
  messageId : Option String := none
  sentAt : Option String := none
  trafficClass : Option TrafficClass := none
  transportKind : Option TransportKind := none
  payload : Option LegacyJsonPayload := none
  /-- The type that the number stands for, and the payload. -/
  typedPayload : Option (String × List UInt8) := none

def envelopeFields : Known EnvelopeFields :=
  { wire := fun fieldNumber =>
      match fieldNumber with
      | 1 | 11 | 12 => some wireVarint
      | 2 | 10 | 100 => some wireLengthDelimited
      | fieldNumber =>
        (Rs.frameTypeForPayloadField.lookup fieldNumber).map fun _ => wireLengthDelimited
    take := fun fields fieldNumber c =>
      match fieldNumber, c with
      -- `as u32`
      | 1, .varint value => return { fields with envelopeVersion := some (value % 2 ^ 32) }
      | 2, .bytes bytes => do return { fields with messageId := some (← stringFromUtf8 bytes) }
      | 10, .bytes bytes => do return { fields with sentAt := some (← stringFromUtf8 bytes) }
      | 11, .varint value =>
        return { fields with trafficClass := trafficClassFromProto .rust value }
      | 12, .varint value =>
        return { fields with transportKind := transportKindFromProto .rust value }
      | 100, .bytes bytes => do
        return { fields with payload := some (← decodeLegacyJsonPayload arith fuel bytes) }
      | fieldNumber, .bytes bytes =>
        return { fields with
          typedPayload := (Rs.frameTypeForPayloadField.lookup fieldNumber).map fun frameType =>
            (frameType, bytes) }
      | _, _ => return fields }

/-- `ok_or_else`. -/
def require {α : Type} (text : String) : Option α → Decode α := ofOption (.error text)

/-- A `legacy_json` payload goes before a typed one. -/
def decodePayload (fields : EnvelopeFields) (messageId sentAt : String) :
    Decode LegacyJsonPayload :=
  match fields.payload, fields.typedPayload with
  | some payload, _ => return payload
  | none, some (frameType, bytes) =>
    decodeTypedJsonPayload arith fuel rt bytes frameType messageId sentAt
  | none, none => bail "missing legacy_json payload"

def decodeLegacyJsonEnvelope (bytes : List UInt8) : Decode LegacyJsonEnvelope := do
  let fields ← readMessage arith fuel (envelopeFields arith fuel) {} bytes
  let envelopeVersion ← require "missing envelope_version" fields.envelopeVersion
  if envelopeVersion ≠ budEnvelopeVersion then
    bail ("unsupported envelope_version: " ++ toString envelopeVersion)
  else do
    let messageId ← require "missing message_id" fields.messageId
    let sentAt ← require "missing sent_at" fields.sentAt
    let payload ← decodePayload arith fuel rt fields messageId sentAt
    let trafficClass ← require "missing traffic_class" fields.trafficClass
    return { envelopeVersion, messageId, sentAt, trafficClass
             transportKind := fields.transportKind
             payload }

/-! ### Hostile envelopes -/

/-- **The decoder of a release build is total on these bytes**: it ends, does not panic, moves
forward at every field and takes no slice out of range, at any level. -/
structure Safe (bytes : List UInt8) : Prop where
  ends : ∃ fuel, (decodeLegacyJsonEnvelope .wrapping fuel rt bytes).result ≠ .error .outOfFuel
  no_panic : ∀ fuel, (decodeLegacyJsonEnvelope .wrapping fuel rt bytes).result ≠ .error .panic
  good : ∀ fuel, ∀ event ∈ (decodeLegacyJsonEnvelope .wrapping fuel rt bytes).events, event.Good

/-- No length that the decoder comes to, at any level, overflows with the offset it is added to. -/
def NoOverflow (bytes : List UInt8) : Prop :=
  ∀ fuel, (decodeLegacyJsonEnvelope .checked fuel rt bytes).result ≠ .error .overflow

end Bud.ProtoWire
