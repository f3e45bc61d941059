import Bud.Lib.JsText
import Bud.Lib.Protobuf

/-!
# `terminal_send` from the service to the daemon

A gesture passes through three programs' worth of checks: `sendInteraction` of
`request-dispatcher.ts` validates it and builds the frame, `encodeFieldLevelPayload` of `wire.ts`
and `decode_field_level_payload` of `proto_wire.rs` carry it, and `handle_send` of `manager.rs`
validates it again. Each layer has its own idea of a field that is not there.

## Modelling notes

The service's texts are JavaScript strings, the daemon's are Rust strings. The envelope around the
payload, and the check for a payload in the older `frame_json` form (field 99, which is never
written here), are left out. The frame becomes a JSON object before it is deserialised; that keeps
the fields as they are.
-/

namespace Bud.TerminalSend

open JsText

/-! ### The service -/

inductive Await where
  | command
  | settled
  | auto
  deriving DecidableEq

def Await.name : Await → String
  | .command => "command"
  | .settled => "settled"
  | .auto => "auto"

/-- `SendInteraction`. -/
structure Interaction where
  text : Option JsString
  submit : Option Bool
  key : Option JsString
  await : Option Await

/-- A session or request id: these are made by the service and are neither empty nor malformed. -/
structure Ident extends JsString where
  ne_nil : units ≠ []
  wellFormed : WellFormed units

/-- The fields of a `terminal_send` frame, as the service has them. -/
structure Payload where
  sessionId : List UInt16
  requestId : List UInt16
  text : Option (List UInt16)
  submit : Option Bool
  key : Option (List UInt16)
  await : Option (List UInt16)

/-- What follows `p` in a string that starts with it. -/
def after (p s : List UInt16) : Option (List UInt16) :=
  if p <+: s then some (s.drop p.length) else none

/-- The spellings of a control chord, in the order they are tried. -/
def ctrlSpellings : List String := ["ctrl+", "ctrl-", "control+", "control-", "c-"]

def keyAliases : List (String × String) :=
  [("return", "enter"), ("esc", "escape"), ("arrow_up", "up"), ("arrowup", "up"),
    ("arrow_down", "down"), ("arrowdown", "down"), ("arrow_left", "left"), ("arrowleft", "left"),
    ("arrow_right", "right"), ("arrowright", "right"), ("spacebar", "space"),
    ("bspace", "backspace"), ("dc", "delete")]

/-- The final `switch`. -/
def aliasOf (lower : List UInt16) : List UInt16 :=
  ((keyAliases.find? fun a => decide (lit a.1 = lower)).map fun a => lit a.2).getD lower

def normalizeTerminalSendKeyName (caseMap : CaseMap) (value : List UInt16) : List UInt16 :=
  let trimmed := trim value
  if trimmed = [] then []
  else
    let lower := caseMap.lower trimmed
    match ctrlSpellings.findSome? fun p => after (lit p) lower with
    | some (u :: us) => lit "ctrl+" ++ u :: us
    | _ => aliasOf lower

/-- The key of an interaction, once normalised; an empty string counts as no key. -/
def Interaction.normalizedKey (caseMap : CaseMap) (i : Interaction) : Option (List UInt16) :=
  let normalized := i.key.bind fun key =>
    if trim key.units ≠ [] then some (normalizeTerminalSendKeyName caseMap key.units) else none
  normalized.filter fun key => decide (key ≠ [])

def sendInteraction (caseMap : CaseMap) (sessionId requestId : Ident) (i : Interaction) :
    Except String Payload :=
  let key := i.normalizedKey caseMap
  let hasTextField := i.text.isSome
  let hasTextPayload := i.text.any fun text => decide (0 < text.units.length)
  let submit := decide (i.submit = some true)
  if submit && !hasTextField then .error "submit_requires_text"
  else if key.isSome && (hasTextField || submit) then .error "ambiguous_interaction"
  else if !hasTextPayload && !submit && key.isNone then .error "empty_interaction"
  else
    .ok
      { sessionId := sessionId.units
        requestId := requestId.units
        text := i.text.map JsString.units
        submit := if hasTextField then some submit else none
        key := key
        await := i.await.map fun a => lit a.name }

/-! ### The service's codec -/

def writeString (field : ℕ) (value : List UInt16) : List UInt8 :=
  Protobuf.writeBytes field (toUtf8 value)

def writeOptionalString (field : ℕ) : Option (List UInt16) → List UInt8
  | some (u :: us) => writeString field (u :: us)
  | _ => []

def writeOptionalBool (field : ℕ) : Option Bool → List UInt8
  | some b => Protobuf.writeVarintField field (if b then 1 else 0)
  | none => []

def encodeTerminalSend (p : Payload) : List UInt8 :=
  writeOptionalString 1 (some p.sessionId) ++
    (writeOptionalString 2 (some p.requestId) ++
      (writeOptionalString 3 p.text ++
        (writeOptionalBool 4 p.submit ++
          (writeOptionalString 5 p.key ++ writeOptionalString 9 p.await))))

/-! ### The daemon's codec -/

/-- The JSON object the fields are collected in. -/
structure RawFrame where
  sessionId : Option (List Char)
  requestId : Option (List Char)
  text : Option (List Char)
  submit : Option Bool
  key : Option (List Char)
  await : Option (List Char)

def RawFrame.empty : RawFrame :=
  { sessionId := none, requestId := none, text := none, submit := none, key := none, await := none }

/-- `read_string_for_wire_type`: the bytes have to be UTF-8. -/
def readString (wire : ℕ) (bs : List UInt8) : Option (List Char × List UInt8) :=
  (Protobuf.readBytesForWireType wire bs).bind fun (bytes, rest) =>
    (Utf8.decode bytes).map fun text => (text, rest)

def readTerminalSendField (frame : RawFrame) (field wire : ℕ) (bs : List UInt8) :
    Option (RawFrame × List UInt8) :=
  match field with
  | 1 => (readString wire bs).map fun (v, rest) => ({ frame with sessionId := some v }, rest)
  | 2 => (readString wire bs).map fun (v, rest) => ({ frame with requestId := some v }, rest)
  | 3 => (readString wire bs).map fun (v, rest) => ({ frame with text := some v }, rest)
  | 4 =>
    (Protobuf.readVarintForWireType wire bs).map fun (v, rest) =>
      ({ frame with submit := some (decide (v ≠ 0)) }, rest)
  | 5 => (readString wire bs).map fun (v, rest) => ({ frame with key := some v }, rest)
  | 9 => (readString wire bs).map fun (v, rest) => ({ frame with await := some v }, rest)
  | _ => (Protobuf.skip wire bs).map fun rest => (frame, rest)

structure Frame where
  sessionId : List Char
  requestId : List Char
  text : Option (List Char)
  submit : Option Bool
  key : Option (List Char)
  await : Option Await
  deriving DecidableEq

/-- `TerminalSendAwait`, by its name in snake case. -/
def parseAwait (name : List Char) : Option Await :=
  [Await.command, .settled, .auto].find? fun a => decide (a.name.toList = name)

/-- The derived `Deserialize` of `TerminalSendFrame`: the ids are required, and `await` has to be
one of its names. -/
def deserialize (raw : RawFrame) : Option Frame :=
  raw.sessionId.bind fun sessionId =>
    raw.requestId.bind fun requestId =>
      (raw.await.elim (some none) fun name => (parseAwait name).map some).map fun await =>
        { sessionId := sessionId
          requestId := requestId
          text := raw.text
          submit := raw.submit
          key := raw.key
          await := await }

def decodeTerminalSend (bs : List UInt8) : Option Frame :=
  (Protobuf.readMessage readTerminalSendField RawFrame.empty bs).bind deserialize

/-! ### The daemon -/

/-- What `handle_send` goes on with. -/
structure Gesture where
  text : Option (List Char)
  submit : Bool
  key : Option (List Char)

def handleSend (frame : Frame) : Except String Gesture :=
  let submit := frame.submit.getD false
  let key := (frame.key.map RustText.trim).filter fun key => decide (key ≠ [])
  let text := frame.text
  if key.isSome && (text.isSome || submit) then .error "ambiguous_interaction"
  else if submit && text.isNone then .error "submit_requires_text"
  else if text.all List.isEmpty && !submit && key.isNone then .error "empty_interaction"
  else .ok { text := text, submit := submit, key := key }

end Bud.TerminalSend
