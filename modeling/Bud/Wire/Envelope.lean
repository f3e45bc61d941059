import Bud.Wire.Tables

/-!
# Envelopes

A frame travels in an envelope, which has the version, the message's id and time, and one payload
whose number is that of the frame's type. There are three forms of payload. A sender that has a
table for the type writes the fields of the frame one by one. A type that has a number and no table
goes as JSON text, the `frame_json` of the payload. A type without a number goes as `legacy_json`.

The two codecs differ in which types have numbers and tables, in what they ask of an envelope, and
in what they do with numbers that are no payload to them. Where both do the same there is one
definition, named as in `wire.ts`; `lang` is the side that runs it.

## Modelling notes

`encodeBudFrame` and `encode_bud_frame` are the only senders here, so the options of an envelope
have their defaults. A frame is returned as the JSON value of the text that the codec returns. All
errors are `none`.
-/

namespace Bud.Wire

open Protobuf

/-! ### The tables of a side -/

namespace Lang

def payloadFields : Lang → List (String × ℕ)
  | .typescript => Ts.typedPayloadFieldByFrameType
  | .rust => Rs.payloadFieldForFrameType

def payloadFrameTypes : Lang → List (ℕ × String)
  | .typescript => Ts.frameTypeByTypedPayloadField
  | .rust => Rs.frameTypeForPayloadField

def encodeMessageTable : Lang → Message → List (Field Writer)
  | .typescript => Ts.encodeMessageTable
  | .rust => Rs.encodeMessageTable

def decodeMessageTable : Lang → Message → List (Field Reader)
  | .typescript => Ts.decodeMessageTable
  | .rust => Rs.decodeMessageTable

def encodeTable : Lang → FrameType → Option (List (Field Writer))
  | .typescript => fun frameType => some (Ts.encodeTable frameType)
  | .rust => Rs.encodeTable

def decodeTable : Lang → FrameType → Option (List (Field Reader))
  | .typescript => fun frameType => some (Ts.decodeTable frameType)
  | .rust => Rs.decodeTable

end Lang

/-- How deep messages nest: a report has a status, and a status an error. -/
def nesting : ℕ := 2

section

variable (rt : Runtime) (lang : Lang)

/-- Nested messages, to a depth. -/
def encodeMessage : ℕ → Message → Fields → Option (List UInt8)
  | 0, _, _ => none
  | depth + 1, message, fields =>
    encodeRecord rt lang (encodeMessage depth) (lang.encodeMessageTable message) fields

def decodeMessage : ℕ → Message → List UInt8 → Option Fields
  | 0, _, _ => none
  | depth + 1, message, bytes =>
    decodeRecord rt lang (decodeMessage depth) (lang.decodeMessageTable message) [] bytes

end

/-! ### The fields of an envelope -/

def budEnvelopeVersion : ℕ := 1

def legacyJsonPayloadField : ℕ := 100

def typedFrameJsonField : ℕ := 99

inductive TrafficClass where
  | control
  | interactive
  | proxyActive
  | bulk
  | telemetry
  deriving DecidableEq

def TrafficClass.protoValue : TrafficClass → ℕ
  | .control => 1
  | .interactive => 2
  | .proxyActive => 3
  | .bulk => 4
  | .telemetry => 5

/-- The daemon takes what it does not know for control traffic. -/
def trafficClassFromProto (lang : Lang) : ℕ → Option TrafficClass
  | 1 => some .control
  | 2 => some .interactive
  | 3 => some .proxyActive
  | 4 => some .bulk
  | 5 => some .telemetry
  | _ =>
    match lang with
    | .typescript => none
    | .rust => some .control

inductive TransportKind where
  | websocket
  | h2Grpc
  | h2Data
  | quic
  deriving DecidableEq

def TransportKind.protoValue : TransportKind → ℕ
  | .websocket => 1
  | .h2Grpc => 2
  | .h2Data => 3
  | .quic => 4

def transportKindFromProto (lang : Lang) : ℕ → Option TransportKind
  | 1 => some .websocket
  | 2 => some .h2Grpc
  | 3 => some .h2Data
  | 4 => some .quic
  | _ =>
    match lang with
    | .typescript => none
    | .rust => some .websocket

def isTerminal (frameType : String) : Bool := "terminal_".toList.isPrefixOf frameType.toList

def protoForFrameType (frameType : String) : String :=
  if isTerminal frameType then "0.3" else "0.1"

/-- `trafficClassForLegacyFrame`, `traffic_class_for_frame`. -/
def trafficClassForFrame (frame : Fields) : TrafficClass :=
  let frameType := (asString (get frame "type")).getD ""
  if frameType = "stream_data" then
    if (asString (get frame "stream_type")).getD "" = "file_read" then .bulk else .proxyActive
  else if frameType = "stream_credit" ∨ frameType = "stream_reset" ∨ frameType = "stream_close" then
    .control
  else if isTerminal frameType then .interactive
  else .control

variable (rt : Runtime) (lang : Lang)

def frameMessageId (frame : Fields) : String := (asString (get frame "id")).getD rt.newMessageId

/-- The service throws at a time that it cannot write, the daemon writes the present time. -/
def frameSentAt (frame : Fields) : Option String :=
  match lang, get frame "ts" with
  | .typescript, some (.int n) => rt.toTime .typescript n
  | .typescript, some (.decimal text) => rt.toTime .typescript (rt.wholeMillis text)
  | .rust, some (.int n) =>
    if 0 ≤ n ∧ n < 2 ^ 64 then
      -- `timestamp_millis as i64`
      some ((rt.toTime .rust (if n < 2 ^ 63 then n else n - 2 ^ 64)).getD rt.now)
    else some rt.now
  | _, _ => some rt.now

def sentAtToMillis (sentAt : String) : ℤ :=
  match lang with
  | .typescript => (rt.ofTime .typescript sentAt).getD 0
  | .rust => max 0 ((rt.ofTime .rust sentAt).getD 0)

/-! ### Writing an envelope -/

/-- A text of a `legacy_json` payload; the service leaves out one that is empty. -/
def legacyText (number : ℕ) (text : Option String) : List (ℕ × Chunk) :=
  (text.filter fun s => lang = .rust ∨ s ≠ "").elim [] fun s => [(number, .bytes (utf8 s))]

def encodeLegacyJsonPayload (frame : Fields) : List UInt8 :=
  encodeItems ((1, .bytes (utf8 (rt.toJson lang (.object frame)))) ::
    (legacyText lang 2 (asString (get frame "type")) ++
      legacyText lang 3 (asString (get frame "proto"))))

def encodeTypedJsonPayload (frameType : String) (frame : Fields) : Option (List UInt8) :=
  match (FrameType.ofName? frameType).bind lang.encodeTable with
  | some table => encodeRecord rt lang (encodeMessage rt lang nesting) table frame
  | none =>
    some (encodeItems [(typedFrameJsonField, .bytes (utf8 (rt.toJson lang (.object frame))))])

def encodePayload (frame : Fields) : Option (ℕ × List UInt8) :=
  let frameType := (asString (get frame "type")).getD ""
  match lang.payloadFields.lookup frameType with
  | some number => (encodeTypedJsonPayload rt lang frameType frame).map fun bytes => (number, bytes)
  | none => some (legacyJsonPayloadField, encodeLegacyJsonPayload rt lang frame)

def envelopeItems (messageId sentAt : String) (trafficClass : TrafficClass) (number : ℕ)
    (payload : List UInt8) : List (ℕ × Chunk) :=
  [(1, .varint budEnvelopeVersion), (2, .bytes (utf8 messageId)), (10, .bytes (utf8 sentAt)),
    (11, .varint trafficClass.protoValue), (12, .varint TransportKind.websocket.protoValue),
    (number, .bytes payload)]

def encodeBudFrame (frame : Fields) : Option (List UInt8) :=
  (frameSentAt rt lang frame).bind fun sentAt =>
    (encodePayload rt lang frame).map fun (number, payload) =>
      encodeItems (envelopeItems (frameMessageId rt frame) sentAt (trafficClassForFrame frame)
        number payload)

/-! ### Reading an envelope -/

/-- What has been read of an envelope. -/
structure Decoded where
  envelopeVersion : Option ℕ := none
  messageId : Option String := none
  sentAt : Option String := none
  trafficClass : Option TrafficClass := none
  transportKind : Option TransportKind := none
  legacyJson : Option (List UInt8) := none
  /-- The type that the number stands for, and the payload. -/
  typedPayload : Option (String × List UInt8) := none

/-- JSON text that was read; the service takes an empty one for a missing one. -/
def requireJson (json : Option (List UInt8)) : Option (List UInt8) :=
  json.filter fun bytes => lang = .rust ∨ bytes ≠ []

def legacyField : ℕ → Option (Handler (Option (List UInt8)))
  | 1 => some (.bytes fun _ bytes => some (some bytes))
  | 2 => some (.bytes fun json bytes => (ofUtf8 bytes lang).map fun _ => json)
  | 3 => some (.bytes fun json bytes => (ofUtf8 bytes lang).map fun _ => json)
  | _ => none

def decodeLegacyJsonPayload (bytes : List UInt8) : Option (List UInt8) :=
  (lang.readMessage (legacyField lang) none bytes).bind (requireJson lang)

/-- The `switch` of `decodeBudEnvelope` and the `match` of `decode_legacy_json_envelope`. -/
def envelopeField : ℕ → Option (Handler Decoded)
  | 1 => some (.varint fun decoded value =>
    -- `as u32`
    let version := match lang with
      | .typescript => value
      | .rust => value % 2 ^ 32
    some { decoded with envelopeVersion := some version })
  | 2 => some (.bytes fun decoded bytes =>
    (ofUtf8 bytes lang).map fun s => { decoded with messageId := some s })
  | 10 => some (.bytes fun decoded bytes =>
    (ofUtf8 bytes lang).map fun s => { decoded with sentAt := some s })
  | 11 => some (.varint fun decoded value =>
    some { decoded with
      trafficClass := (trafficClassFromProto lang value).or decoded.trafficClass })
  | 12 => some (.varint fun decoded value =>
    some { decoded with
      transportKind := (transportKindFromProto lang value).or decoded.transportKind })
  | 100 => some (.bytes fun decoded bytes =>
    (decodeLegacyJsonPayload lang bytes).map fun json => { decoded with legacyJson := some json })
  | number =>
    match lang.payloadFrameTypes.lookup number with
    | some frameType => some (.bytes fun decoded bytes =>
      some { decoded with typedPayload := some (frameType, bytes) })
    | none =>
      match lang with
      | .typescript =>
        -- the identifiers of an envelope, and payloads of a later version
        if 3 ≤ number ∧ number ≤ 9 then some (.bytes fun decoded _ => some decoded)
        else if 100 ≤ number ∧ number ≤ 199 then some (.bytes fun _ _ => none)
        else none
      | .rust => none

/-- It stops at the first `frame_json`, so nothing is left to read then. -/
def payloadContainsFrameJson (bytes : List UInt8) : Option Bool :=
  lang.dialect.readMessage (fun found number wire bs =>
    if number = typedFrameJsonField then some (true, [])
    else (lang.dialect.skip wire bs).map fun rest => (found, rest)) false bytes

def frameJsonField (number : ℕ) : Option (Handler (Option (List UInt8))) :=
  if number = typedFrameJsonField then some (.bytes fun _ bytes => some (some bytes)) else none

/-- The frame that a JSON text is; to the service it has to be an object. -/
def parseFrame (json : List UInt8) : Option Json :=
  (ofUtf8 json lang).bind fun text =>
    (rt.ofJson lang text).bind fun value =>
      match lang, value with
      | .rust, value => some value
      | .typescript, .object frame => some (.object frame)
      | .typescript, _ => none

def decodeFrameJson (bytes : List UInt8) : Option Json :=
  ((lang.readMessage frameJsonField none bytes).bind (requireJson lang)).bind (parseFrame rt lang)

def baseFrame (frameType messageId sentAt : String) : Fields :=
  [("proto", .string (protoForFrameType frameType)), ("type", .string frameType),
    ("id", .string messageId), ("ts", .int (sentAtToMillis rt lang sentAt)), ("ext", .object [])]

/-- A field that has a value even where none was read. -/
def orElse (fields : Fields) (name : String) (value : Json) : Fields :=
  match get fields name with
  | none => set fields name value
  | some _ => fields

/-- What the service adds to a terminal frame. -/
def completeFrame (frameType : FrameType) (frame : Fields) : Fields :=
  match lang, frameType with
  | .typescript, .terminalSendResult => orElse (orElse frame "error" .null) "outcome" .null
  | .typescript, .terminalObserveResult => orElse frame "error" .null
  | .typescript, .terminalEvent => orElse frame "data" (.object [])
  | _, _ => frame

/-- `decodeFieldLevelPayload`, `decode_field_level_payload`. -/
def decodeFieldLevelPayload (frameType : FrameType) (table : List (Field Reader))
    (messageId sentAt : String) (bytes : List UInt8) : Option Json :=
  (decodeRecord rt lang (decodeMessage rt lang nesting) table
    (baseFrame rt lang frameType.name messageId sentAt) bytes).map fun frame =>
      .object (completeFrame lang frameType frame)

def decodeTypedJsonPayload (frameType messageId sentAt : String) (bytes : List UInt8) :
    Option Json :=
  match (FrameType.ofName? frameType).bind fun frameType =>
    (lang.decodeTable frameType).map fun table => (frameType, table) with
  | some (frameType, table) =>
    (payloadContainsFrameJson lang bytes).bind fun found =>
      if found then decodeFrameJson rt lang bytes
      else decodeFieldLevelPayload rt lang frameType table messageId sentAt bytes
  | none => decodeFrameJson rt lang bytes

/-- A text that an envelope must have; to the service it must not be empty. -/
def requireText (text : Option String) : Option String :=
  text.filter fun s => lang = .rust ∨ s ≠ ""

def decodePayload (decoded : Decoded) (messageId sentAt : String) : Option Json :=
  match decoded.legacyJson, decoded.typedPayload with
  | some json, _ => parseFrame rt lang json
  | none, some (frameType, bytes) =>
    decodeTypedJsonPayload rt lang frameType messageId sentAt bytes
  | none, none => none

def decodeBudFrame (bytes : List UInt8) : Option Json :=
  (lang.readMessage (envelopeField lang) {} bytes).bind fun decoded =>
    match requireText lang decoded.messageId, requireText lang decoded.sentAt,
      decoded.trafficClass with
    | some messageId, some sentAt, some _ =>
      if decoded.envelopeVersion = some budEnvelopeVersion then
        decodePayload rt lang decoded messageId sentAt
      else none
    | _, _, _ => none

end Bud.Wire
