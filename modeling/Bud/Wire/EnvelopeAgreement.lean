import Bud.Wire.CodecAgreement
import Bud.Wire.Envelope

/-!
# What one side sends, the other side reads

The service and the daemon have a codec each, and the tables were written by hand twice. They agree
on every frame that the peer is meant to read: of the frames of the service, all but the five that
only a daemon sends, and of the frames of the daemon, all.

A field-level frame is read from the tables (`tablesAgree`). The daemon's terminal frames are JSON
texts, two forms of them, and the service reads both.

## What a frame must be

`WellFormed` says what a sender has to keep to. Its fields have the declared types. Its protocol is
the one of its type, since that is not sent: the reader takes it from the type. Its time can be
written, and read. A frame that is sent as JSON is one that JSON text keeps.
-/

namespace Bud.Wire

open Protobuf List Option

/-! ### Sides -/

def Lang.peer : Lang → Lang
  | .typescript => .rust
  | .rust => .typescript

def Lang.nested : Lang → List Message
  | .typescript => [.budError, .terminalEnsureConfig, .operationStatus, .streamStatus]
  | .rust => [.budError, .operationStatus, .streamStatus]

/-- The fields of a frame and of a nested message. Where the daemon has a table for writing, it is
the same. -/
def declaredFields : FrameType → List (Field Writer) := Ts.encodeTable

def declaredMessage : Message → List (Field Writer) := Ts.encodeMessageTable

def daemonFrames : List FrameType :=
  [.terminalStatus, .terminalSendResult, .terminalObserveResult, .terminalOutput, .terminalEvent]

theorem messageTables_agree (writer : Lang) (message : Message) (h : message ∈ writer.nested) :
    writer.encodeMessageTable message = declaredMessage message ∧
      tablesAgree writer.nested (declaredMessage message)
        (writer.peer.decodeMessageTable message) = true := by
  revert h
  cases writer <;> cases message <;> decide +kernel

/-- **The tables agree**: what a side has a table for, it writes the declared fields of, and the
other side reads them. -/
theorem frameTables_agree (writer : Lang) (frameType : FrameType)
    (h : (writer.encodeTable frameType).isSome)
    (hto : writer = .typescript → frameType ∉ daemonFrames) :
    writer.encodeTable frameType = some (declaredFields frameType) ∧
      (writer.peer.decodeTable frameType).any
        (tablesAgree writer.nested (declaredFields frameType)) = true := by
  revert h hto
  cases writer <;> cases frameType <;> decide +kernel

/-- A type with a number is what the other side takes the number for. -/
theorem payloadFields_agree (writer : Lang) (frameType : FrameType) (number : ℕ)
    (h : writer.payloadFields.lookup frameType.name = some number)
    (hto : writer = .typescript → frameType ∉ daemonFrames) :
    100 < number ∧ number < 2 ^ 29 ∧
      writer.peer.payloadFrameTypes.lookup number = some frameType.name := by
  have hall : (writer.payloadFields.lookup frameType.name).all (fun number =>
      100 < number ∧ number < 2 ^ 29 ∧
        writer.peer.payloadFrameTypes.lookup number = some frameType.name) = true := by
    revert hto
    cases writer <;> cases frameType <;> decide +kernel
  rw [h] at hall
  exact of_decide_eq_true hall

theorem ofName?_name (frameType : FrameType) :
    FrameType.ofName? frameType.name = some frameType := by
  cases frameType <;> decide +kernel

theorem encodeTable_eq_none (writer : Lang) (frameType : FrameType)
    (h : writer.payloadFields.lookup frameType.name = none) :
    writer.encodeTable frameType = none := by
  have hnone : (writer.payloadFields.lookup frameType.name).isNone →
      (writer.encodeTable frameType).isNone := by
    cases writer <;> cases frameType <;> decide +kernel
  rw [h] at hnone
  exact isNone_iff_eq_none.mp (hnone rfl)

/-! ### Frames -/

section

variable (rt : Runtime) (writer : Lang)

/-- A nested message whose fields have the declared types; none is nested deeper than `nesting`. -/
def hasMessage : ℕ → Message → Fields → Prop
  | 0, _, _ => False
  | depth + 1, message, fields =>
    ∀ field ∈ declaredMessage message, ∀ v, get fields field.name = some v →
      field.kind.Has rt writer writer.peer (hasMessage depth) v

def sameMessage : ℕ → Message → Fields → Fields → Prop
  | 0, _, fields, fields' => fields' = fields
  | depth + 1, message, fields, fields' =>
    ∀ field ∈ declaredMessage message,
      field.kind.Same (sameMessage depth) (get fields field.name) (get fields' field.name)

/-- A frame that `writer` can send. -/
structure WellFormed (frameType : FrameType) (frame : Fields) : Prop where
  proto : get frame "proto" = some (.string (protoForFrameType frameType.name))
  type : get frame "type" = some (.string frameType.name)
  id : ∃ messageId, messageId ≠ "" ∧ get frame "id" = some (.string messageId)
  ts : ∃ millis : ℕ, millis < 2 ^ 63 ∧ get frame "ts" = some (.int millis) ∧
    ∃ sentAt, rt.toTime writer millis = some sentAt ∧ rt.ofTime writer.peer sentAt = some millis
  fields : (writer.encodeTable frameType).isSome → ∀ field ∈ declaredFields frameType, ∀ v,
    get frame field.name = some v →
      field.kind.Has rt writer writer.peer (hasMessage rt writer nesting) v
  json : writer.encodeTable frameType = none →
    rt.ofJson writer.peer (rt.toJson writer (.object frame)) = some (.object frame)

/-- An empty text is no JSON and no time. -/
structure NoEmptyText : Prop where
  ofJson_empty : ∀ lang, rt.ofJson lang "" = none
  ofTime_empty : ∀ lang, rt.ofTime lang "" = none

end

/-- The declared fields are the same, and so are those that every frame has. -/
structure SameFrame (frameType : FrameType) (frame frame' : Fields) : Prop where
  common : ∀ name ∈ ["proto", "type", "id", "ts"], get frame' name = get frame name
  declared : ∀ field ∈ declaredFields frameType,
    field.kind.Same (sameMessage nesting) (get frame field.name) (get frame' field.name)

theorem sameMessage_refl (depth : ℕ) (message : Message) (fields : Fields) :
    sameMessage depth message fields fields := by
  induction depth generalizing message fields with
  | zero => rfl
  | succ depth ih => exact fun field _ => field.kind.same_refl ih _

theorem SameFrame.refl (frameType : FrameType) (frame : Fields) : SameFrame frameType frame frame :=
  ⟨fun _ _ => rfl, fun field _ => field.kind.same_refl (sameMessage_refl nesting) _⟩

/-! ### Field-level payloads -/

section

variable {rt : Runtime} {writer : Lang} {messages : List Message}
  {writers : List (Field Writer)} {readers : List (Field Reader)}

theorem payloadContainsFrameJson_items {lang : Lang} (hnumber : ∀ item ∈ items, item.1 < 2 ^ 29)
    (hjson : ∀ item ∈ items, item.1 ≠ 99) (hfits : ∀ item ∈ items, item.2.Fits) :
    payloadContainsFrameJson lang (encodeItems items) = some false := by
  have hfold : ∀ items : List (ℕ × Chunk),
      items.foldlM (fun found _ => some found) false = some false := by
    intro items
    induction items with
    | nil => rfl
    | cons item items ih => exact ih
  rw [← hfold items]
  refine (Dialect.reads_items lang.lawful_dialect hnumber (fun item hitem m rest => ?_)
    false).readMessage_eq
  have hne : item.1 ≠ typedFrameJsonField := hjson item hitem
  rw [if_neg hne, Dialect.skip_body lang.lawful_dialect (hfits item hitem)]
  rfl

theorem not_mem_commonNames (h : tablesAgree messages writers readers = true)
    {field : Field Writer} (hfield : field ∈ writers) : field.name ∉ commonNames := by
  obtain ⟨-, hall⟩ := of_decide_eq_true h
  exact (of_decide_eq_true (List.all_eq_true.mp hall field hfield)).2.2.1

/-- A payload that one side writes from a table, the other reads with a table that agrees. -/
theorem decodeRecord_encodeRecord {encodeMessage : Message → Fields → Option (List UInt8)}
    {decodeMessage : Message → List UInt8 → Option Fields} {hasMessage : Message → Fields → Prop}
    {sameMessage : Message → Fields → Fields → Prop}
    (hmessages : ∀ message ∈ messages, MessageCarries encodeMessage decodeMessage hasMessage
      sameMessage message) (htables : tablesAgree messages writers readers = true)
    (hhas : ∀ field ∈ writers, ∀ v, get fields field.name = some v → field.kind.Has rt writer
      writer.peer hasMessage v) :
    ∃ bytes, encodeRecord rt writer encodeMessage writers fields = some bytes ∧
      (bytes.length < 2 ^ 64 → payloadContainsFrameJson writer.peer bytes = some false ∧
        ∀ m, (∀ field ∈ writers, get m field.name = none) →
          ∃ out, decodeRecord rt writer.peer decodeMessage readers m bytes = some out ∧
            (∀ field ∈ writers,
              field.kind.Same sameMessage (get fields field.name) (get out field.name)) ∧
            ∀ name, (∀ field ∈ writers, field.name ≠ name) → get out name = get m name) := by
  obtain ⟨hnames, hall⟩ := of_decide_eq_true htables
  obtain ⟨items, hitems, hsound, hread⟩ :=
    takeItems_of_tablesAgree hmessages hnames (List.all_eq_true.mp hall) hhas
  refine ⟨encodeItems items, ?_, fun hlength => ?_⟩
  · rw [encodeRecord, hitems]
    rfl
  · have hfits := fits_of_length (fun item h => (hsound item h).2.2) hlength
    have hnumber : ∀ item ∈ items, item.1 < 2 ^ 29 := fun item h => (hsound item h).1
    refine ⟨payloadContainsFrameJson_items hnumber (fun item h => (hsound item h).2.1) hfits, ?_⟩
    intro m hm
    obtain ⟨out, hout, hsame, hother⟩ := hread hfits m hm
    refine ⟨out, ?_, hsame, hother⟩
    rw [decodeRecord, Lang.readMessage_items _ _ hnumber hfits]
    exact hout

variable (rt writer) in
/-- **Nested messages arrive**, to any depth. -/
theorem messageCarries (depth : ℕ) : ∀ message ∈ writer.nested,
    MessageCarries (encodeMessage rt writer depth) (decodeMessage rt writer.peer depth)
      (hasMessage rt writer depth) (sameMessage depth) message := by
  induction depth with
  | zero => exact fun message _ fields hhas => hhas.elim
  | succ depth ih =>
    intro message hmessage fields hhas
    obtain ⟨htable, hagree⟩ := messageTables_agree writer message hmessage
    obtain ⟨bytes, hencode, hdecode⟩ := decodeRecord_encodeRecord ih hagree hhas
    refine ⟨bytes, ?_, fun hlength => ?_⟩
    · rw [encodeMessage, htable]
      exact hencode
    · obtain ⟨out, hout, hsame, -⟩ := (hdecode hlength).2 [] fun _ _ => rfl
      exact ⟨out, hout, hsame⟩

variable {frameType : FrameType} {frame : Fields} {messageId sentAt : String}

theorem get_baseFrame_of_not_mem {lang : Lang} {name : String} (h : name ∉ commonNames)
    (frameType : String) : get (baseFrame rt lang frameType messageId sentAt) name = none := by
  simp only [commonNames, mem_cons, not_mem_nil, or_false, not_or] at h
  simp [baseFrame, get_cons, h]

/-- What the service adds is for frames that the daemon sends as JSON. -/
theorem completeFrame_peer (h : (writer.encodeTable frameType).isSome) (frame : Fields) :
    completeFrame writer.peer frameType frame = frame := by
  cases writer with
  | typescript => rfl
  | rust =>
    cases frameType with
    | terminalSendResult | terminalObserveResult | terminalEvent => cases h
    | _ => rfl

/-- **A field-level payload arrives.** -/
theorem decodeTypedJsonPayload_fields (hframe : WellFormed rt writer frameType frame)
    (htable : (writer.encodeTable frameType).isSome)
    (hto : writer = .typescript → frameType ∉ daemonFrames)
    (hid : get frame "id" = some (.string messageId))
    (hts : get frame "ts" = some (.int (sentAtToMillis rt writer.peer sentAt))) :
    ∃ bytes, encodeTypedJsonPayload rt writer frameType.name frame = some bytes ∧
      (bytes.length < 2 ^ 64 → ∃ frame',
        decodeTypedJsonPayload rt writer.peer frameType.name messageId sentAt bytes
          = some (.object frame') ∧ SameFrame frameType frame frame') := by
  obtain ⟨hencode, hdecode⟩ := frameTables_agree writer frameType htable hto
  obtain ⟨readers, hreaders, hagree⟩ := (Option.any_eq_true _ _).mp hdecode
  obtain ⟨bytes, hbytes, hread⟩ :=
    decodeRecord_encodeRecord (messageCarries rt writer nesting) hagree (hframe.fields htable)
  refine ⟨bytes, ?_, fun hlength => ?_⟩
  · rw [encodeTypedJsonPayload, ofName?_name, bind_some, hencode]
    exact hbytes
  · obtain ⟨hcontains, hrecord⟩ := hread hlength
    obtain ⟨out, hout, hsame, hother⟩ := hrecord
      (baseFrame rt writer.peer frameType.name messageId sentAt)
      fun field hfield => get_baseFrame_of_not_mem (not_mem_commonNames hagree hfield) _
    refine ⟨out, ?_, ⟨fun name hname => ?_, hsame⟩⟩
    · rw [decodeTypedJsonPayload, ofName?_name, bind_some, hreaders]
      simp only [map_some, hcontains, bind_some, Bool.false_eq_true, if_false]
      rw [decodeFieldLevelPayload, hout, map_some, completeFrame_peer htable]
    · have hcommon : name ∈ commonNames := mem_append_left ["ext"] hname
      rw [hother name fun field hfield heq => not_mem_commonNames hagree hfield (heq ▸ hcommon)]
      simp only [mem_cons, not_mem_nil, or_false] at hname
      rcases hname with rfl | rfl | rfl | rfl
      · rw [hframe.proto]
        rfl
      · rw [hframe.type]
        rfl
      · rw [hid]
        rfl
      · rw [hts]
        rfl

/-! ### Payloads in JSON -/

theorem utf8_ne_nil (h : s ≠ "") : utf8 s ≠ [] := by
  intro hnil
  have hs := ofUtf8_utf8 s .rust
  rw [hnil] at hs
  exact h (some.inj hs).symm

variable {lang : Lang} {text : String}

theorem parseFrame_utf8 (h : rt.ofJson lang text = some (.object frame)) :
    parseFrame rt lang (utf8 text) = some (.object frame) := by
  rw [parseFrame, ofUtf8_utf8, bind_some, h]
  cases lang <;> rfl

theorem requireJson_utf8 (h : text ≠ "") : requireJson lang (some (utf8 text)) = some (utf8 text) :=
  filter_some_pos (decide_eq_true (Or.inr (utf8_ne_nil h)))

theorem payloadContainsFrameJson_frameJson (lang : Lang) (bytes : List UInt8) :
    payloadContainsFrameJson lang (encodeItems [(typedFrameJsonField, .bytes bytes)])
      = some true := by
  have hnumber : typedFrameJsonField < 2 ^ 29 := by decide
  rw [encodeItems_cons, Chunk.encode_eq]
  exact (Dialect.reads_field lang.lawful_dialect hnumber (Chunk.wire_lt _) rfl
    (Dialect.reads_nil true)).readMessage_eq

theorem decodeFrameJson_frameJson (htext : text ≠ "") (hlength : (utf8 text).length < 2 ^ 64)
    (h : rt.ofJson lang text = some (.object frame)) :
    decodeFrameJson rt lang (encodeItems [(typedFrameJsonField, .bytes (utf8 text))])
      = some (.object frame) := by
  have hread : lang.readMessage frameJsonField none
      (encodeItems [(typedFrameJsonField, .bytes (utf8 text))]) = some (some (utf8 text)) := by
    rw [Lang.readMessage_items _ _ (by simp [typedFrameJsonField]) (by simpa [Chunk.Fits])]
    simp [takeItem, frameJsonField, Handler.bytes, Chunk.wire]
  rw [decodeFrameJson, hread, bind_some, requireJson_utf8 htext, bind_some,
    parseFrame_utf8 h]

/-- **A frame in JSON arrives** under the number of its type. -/
theorem decodeTypedJsonPayload_frameJson (htable : writer.encodeTable frameType = none)
    (htext : rt.toJson writer (.object frame) ≠ "")
    (h : rt.ofJson writer.peer (rt.toJson writer (.object frame)) = some (.object frame)) :
    ∃ bytes, encodeTypedJsonPayload rt writer frameType.name frame = some bytes ∧
      (bytes.length < 2 ^ 64 →
        decodeTypedJsonPayload rt writer.peer frameType.name messageId sentAt bytes
          = some (.object frame)) := by
  refine ⟨encodeItems [(typedFrameJsonField, .bytes (utf8 (rt.toJson writer (.object frame))))], ?_,
    fun hlength => ?_⟩
  · rw [encodeTypedJsonPayload, ofName?_name, bind_some, htable]
  · have hfits := fits_of_length (by simp [Chunk.Bounded]) hlength
    have hframe := decodeFrameJson_frameJson htext (hfits _ mem_cons_self) h
    rw [decodeTypedJsonPayload, payloadContainsFrameJson_frameJson, hframe]
    split <;> rfl

variable {number : ℕ}

theorem legacyText_some (h : text ≠ "") :
    legacyText lang number (some text) = [(number, .bytes (utf8 text))] := by
  simp [legacyText, Option.filter, h]

theorem decodeLegacyJsonPayload_encodeLegacyJsonPayload {frameType : String}
    (htype : get frame "type" = some (.string frameType))
    (hproto : get frame "proto" = some (.string proto)) (hne : frameType ≠ "" ∧ proto ≠ "")
    (htext : rt.toJson writer (.object frame) ≠ "")
    (hlength : (encodeLegacyJsonPayload rt writer frame).length < 2 ^ 64) (reader : Lang) :
    decodeLegacyJsonPayload reader (encodeLegacyJsonPayload rt writer frame)
      = some (utf8 (rt.toJson writer (.object frame))) := by
  rw [encodeLegacyJsonPayload, htype, hproto, asString, asString, legacyText_some hne.1,
    legacyText_some hne.2] at hlength ⊢
  have hfits := fits_of_length (by simp [Chunk.Bounded]) hlength
  rw [decodeLegacyJsonPayload, Lang.readMessage_items _ _ (by simp) hfits]
  have hfold : requireJson reader (some (utf8 (rt.toJson writer (.object frame)))) = _ :=
    requireJson_utf8 htext
  simpa [takeItem, legacyField, Handler.bytes, Chunk.wire] using hfold

/-! ### Envelopes -/

/-- What is known of an envelope before its payload. -/
def header (messageId sentAt : String) (trafficClass : TrafficClass) : Decoded :=
  { envelopeVersion := some budEnvelopeVersion
    messageId := some messageId
    sentAt := some sentAt
    trafficClass := some trafficClass
    transportKind := some .websocket }

theorem trafficClassFromProto_protoValue (lang : Lang) (trafficClass : TrafficClass) :
    trafficClassFromProto lang trafficClass.protoValue = some trafficClass := by
  cases trafficClass <;> rfl

theorem foldlM_envelopeItems (lang : Lang) (messageId sentAt : String) (trafficClass : TrafficClass)
    (number : ℕ) (payload : List UInt8) :
    (envelopeItems messageId sentAt trafficClass number payload).foldlM
        (takeItem (envelopeField lang)) {}
      = takeItem (envelopeField lang) (header messageId sentAt trafficClass)
          (number, .bytes payload) := by
  cases lang <;>
    simp [envelopeItems, takeItem, envelopeField, Handler.bytes, Handler.varint, Chunk.wire, header,
      trafficClassFromProto_protoValue, transportKindFromProto, TransportKind.protoValue,
      budEnvelopeVersion]

theorem readMessage_envelopeItems (lang : Lang) (hnumber : number < 2 ^ 29)
    {trafficClass : TrafficClass}
    (hlength : (encodeItems (envelopeItems messageId sentAt trafficClass number payload)).length < 2
      ^ 64) : payload.length < 2 ^ 64 ∧
      lang.readMessage (envelopeField lang) {}
          (encodeItems (envelopeItems messageId sentAt trafficClass number payload))
        = takeItem (envelopeField lang) (header messageId sentAt trafficClass)
            (number, .bytes payload) := by
  have hbounded : ∀ item ∈ envelopeItems messageId sentAt trafficClass number payload,
      item.2.Bounded := by
    have hclass : trafficClass.protoValue < 2 ^ 64 := by
      cases trafficClass <;> decide
    simpa [envelopeItems, Chunk.Bounded, budEnvelopeVersion, TransportKind.protoValue] using hclass
  have hnumbers : ∀ item ∈ envelopeItems messageId sentAt trafficClass number payload,
      item.1 < 2 ^ 29 := by
    simpa [envelopeItems] using hnumber
  have hfits := fits_of_length hbounded hlength
  refine ⟨hfits (number, .bytes payload) (by simp [envelopeItems]), ?_⟩
  rw [Lang.readMessage_items _ _ hnumbers hfits, foldlM_envelopeItems]

theorem envelopeField_typed {frameType : String} (h : 100 < number)
    (hlookup : lang.payloadFrameTypes.lookup number = some frameType) :
    envelopeField lang number = some (.bytes fun decoded bytes =>
      some { decoded with typedPayload := some (frameType, bytes) }) := by
  unfold envelopeField
  split
  case h_7 => rw [hlookup]
  all_goals omega

theorem frameSentAt_of_toTime {millis : ℕ} (hmillis : millis < 2 ^ 63)
    (hts : get frame "ts" = some (.int millis)) (htime : rt.toTime writer millis = some sentAt) :
    frameSentAt rt writer frame = some sentAt := by
  cases writer with
  | typescript =>
    simp only [frameSentAt, hts]
    exact htime
  | rust =>
    have hlt : (millis : ℤ) < 2 ^ 63 := by exact_mod_cast hmillis
    simp only [frameSentAt, hts]
    rw [if_pos ⟨by omega, by omega⟩, if_pos hlt, htime]
    rfl

theorem sentAtToMillis_of_ofTime {millis : ℕ} (h : rt.ofTime lang sentAt = some millis) :
    sentAtToMillis rt lang sentAt = millis := by
  cases lang with
  | typescript =>
    rw [sentAtToMillis, h]
    rfl
  | rust =>
    rw [sentAtToMillis, h]
    exact max_eq_right (Int.natCast_nonneg millis)

/-- **The payload arrives**, in whichever of the three forms it is sent. -/
theorem decodePayload_encodePayload (hrt : NoEmptyText rt)
    (hframe : WellFormed rt writer frameType frame)
    (hto : writer = .typescript → frameType ∉ daemonFrames)
    (hid : get frame "id" = some (.string messageId))
    (hts : get frame "ts" = some (.int (sentAtToMillis rt writer.peer sentAt)))
    (trafficClass : TrafficClass) :
    ∃ number payload, encodePayload rt writer frame = some (number, payload) ∧ number < 2 ^ 29 ∧
      (payload.length < 2 ^ 64 → ∃ json typed,
        takeItem (envelopeField writer.peer) (header messageId sentAt trafficClass)
            (number, .bytes payload)
          = some { header messageId sentAt trafficClass with
              legacyJson := json, typedPayload := typed } ∧
        ∃ frame', decodePayload rt writer.peer
            { header messageId sentAt trafficClass with
              legacyJson := json, typedPayload := typed } messageId sentAt
          = some (.object frame') ∧ SameFrame frameType frame frame') := by
  have htext : writer.encodeTable frameType = none → rt.toJson writer (.object frame) ≠ "" := by
    intro htable hempty
    have hjson := hframe.json htable
    rw [hempty, hrt.ofJson_empty] at hjson
    cases hjson
  have htype : (asString (get frame "type")).getD "" = frameType.name := by
    rw [hframe.type]
    rfl
  cases hnumber : writer.payloadFields.lookup frameType.name with
  | some number =>
    obtain ⟨hpayload, hlt, hpeer⟩ := payloadFields_agree writer frameType number hnumber hto
    -- field by field, or as the frame's JSON
    have harrives : ∃ bytes, encodeTypedJsonPayload rt writer frameType.name frame = some bytes ∧
        (bytes.length < 2 ^ 64 → ∃ frame',
          decodeTypedJsonPayload rt writer.peer frameType.name messageId sentAt bytes
            = some (.object frame') ∧ SameFrame frameType frame frame') := by
      cases htable : writer.encodeTable frameType with
      | some table =>
        exact decodeTypedJsonPayload_fields hframe (htable ▸ rfl) hto hid hts
      | none =>
        obtain ⟨bytes, hbytes, hdecode⟩ :=
          decodeTypedJsonPayload_frameJson htable (htext htable) (hframe.json htable)
        exact ⟨bytes, hbytes, fun hlength => ⟨frame, hdecode hlength, SameFrame.refl _ _⟩⟩
    obtain ⟨bytes, hbytes, hdecode⟩ := harrives
    refine ⟨number, bytes, ?_, hlt, fun hlength => ⟨none, some (frameType.name, bytes), ?_, ?_⟩⟩
    · simp only [encodePayload, htype, hnumber, hbytes, map_some]
    · simp only [takeItem, envelopeField_typed hpayload hpeer]
      rfl
    · exact hdecode hlength
  | none =>
    have htable := encodeTable_eq_none writer frameType hnumber
    have hne : frameType.name ≠ "" ∧ protoForFrameType frameType.name ≠ "" := by
      cases frameType <;> decide +kernel
    refine ⟨legacyJsonPayloadField, encodeLegacyJsonPayload rt writer frame, ?_, by decide,
      fun hlength => ⟨some (utf8 (rt.toJson writer (.object frame))), none, ?_, frame, ?_,
        SameFrame.refl _ _⟩⟩
    · simp only [encodePayload, htype, hnumber]
    · have hlegacy := decodeLegacyJsonPayload_encodeLegacyJsonPayload hframe.type hframe.proto hne
        (htext htable) hlength writer.peer
      simp only [takeItem, legacyJsonPayloadField, envelopeField, Handler.bytes, Chunk.wire,
        hlegacy]
      rfl
    · exact parseFrame_utf8 (hframe.json htable)

theorem requireText_some (h : text ≠ "") : requireText lang (some text) = some text :=
  filter_some_pos (decide_eq_true (Or.inr h))

variable (rt writer frameType frame) in
/-- **What one side sends, the other side reads.** A frame that is well formed is encoded, and
decoded by the peer it has the same declared fields, and the protocol, type, id and time that it
had. -/
theorem decodeBudFrame_encodeBudFrame (hrt : NoEmptyText rt)
    (hto : writer = .typescript → frameType ∉ daemonFrames)
    (hframe : WellFormed rt writer frameType frame) :
    ∃ bytes, encodeBudFrame rt writer frame = some bytes ∧
      (bytes.length < 2 ^ 64 → ∃ frame',
        decodeBudFrame rt writer.peer bytes = some (.object frame') ∧
          SameFrame frameType frame frame') := by
  obtain ⟨messageId, hidNe, hid⟩ := hframe.id
  obtain ⟨millis, hmillis, hts, sentAt, htime, hread⟩ := hframe.ts
  have hsentNe : sentAt ≠ "" := by
    intro hempty
    rw [hempty, hrt.ofTime_empty] at hread
    cases hread
  have hmillisRead := sentAtToMillis_of_ofTime hread
  obtain ⟨number, payload, hpayload, hnumber, harrives⟩ := decodePayload_encodePayload hrt hframe
    hto hid (hmillisRead.symm ▸ hts) (trafficClassForFrame frame)
  have hmessageId : frameMessageId rt frame = messageId := by
    rw [frameMessageId, hid]
    rfl
  refine ⟨encodeItems (envelopeItems messageId sentAt (trafficClassForFrame frame) number payload),
    ?_, fun hlength => ?_⟩
  · rw [encodeBudFrame, frameSentAt_of_toTime hmillis hts htime, hpayload, hmessageId]
    rfl
  · obtain ⟨hpayloadLength, henvelope⟩ :=
      readMessage_envelopeItems writer.peer hnumber hlength
    obtain ⟨json, typed, htake, frame', hdecode, hsame⟩ := harrives hpayloadLength
    refine ⟨frame', ?_, hsame⟩
    rw [decodeBudFrame, henvelope, htake, bind_some]
    simp only [header, requireText_some hidNe, requireText_some hsentNe, if_true]
    exact hdecode

end

/-! ### Frames that are sent -/

/-- The library at one time, one text and no JSON. -/
def sampleRuntime : Runtime :=
  { toJson := fun _ _ => ""
    ofJson := fun _ _ => none
    toBase64 := fun bytes => if bytes = [104, 105] then "aGk=" else ""
    ofBase64 := fun _ text => if text = "aGk=" then some [104, 105] else some []
    toTime := fun _ millis =>
      if millis = 1700000000000 then some "2023-11-14T22:13:20.000Z" else none
    ofTime := fun _ text =>
      if text = "2023-11-14T22:13:20.000Z" then some 1700000000000 else none
    wholeMillis := fun _ => 0
    newMessageId := "msg_01HF7YAT00000000000000000"
    now := "2023-11-14T22:13:20.000Z" }

/-- Look at the last fifty lines of a terminal, once it is quiet. -/
def observeTail : Fields :=
  [("proto", .string "0.3"), ("type", .string "terminal_observe"), ("id", .string "msg_1"),
    ("ts", .int 1700000000000), ("session_id", .string "sess_1"), ("request_id", .string "req_1"),
    ("view", .string "history"), ("lines", .int (-50)), ("quiet_ms", .int 1200)]

theorem wellFormed_observeTail :
    WellFormed sampleRuntime .typescript .terminalObserve observeTail := by
  have hproto : "0.3" = protoForFrameType FrameType.terminalObserve.name := by decide +kernel
  refine ⟨by rw [← hproto]; rfl, rfl, ⟨"msg_1", by decide, rfl⟩,
    ⟨1700000000000, by decide, rfl, "2023-11-14T22:13:20.000Z", rfl, rfl⟩, fun _ => ?_, nofun⟩
  intro field hfield v hv
  simp only [declaredFields, Ts.encodeTable, mem_cons, not_mem_nil, or_false] at hfield
  rcases hfield with rfl | rfl | rfl | rfl | rfl | rfl
  · cases hv
    exact ⟨"sess_1", by decide, rfl⟩
  · cases hv
    exact ⟨"req_1", by decide, rfl⟩
  · cases hv
    exact ⟨"history", by decide, rfl⟩
  · cases hv
    exact ⟨-50, by decide, by decide, rfl⟩
  · cases hv
  · cases hv
    exact ⟨1200, by decide, rfl⟩

theorem noEmptyText_sampleRuntime : NoEmptyText sampleRuntime :=
  ⟨fun _ => rfl, fun _ => rfl⟩

theorem decodeBudFrame_observeTail :
    ∃ frame', ((encodeBudFrame sampleRuntime .typescript observeTail).bind
        (decodeBudFrame sampleRuntime .rust)) = some (.object frame') ∧
      SameFrame .terminalObserve observeTail frame' := by
  obtain ⟨bytes, hbytes, harrives⟩ := decodeBudFrame_encodeBudFrame sampleRuntime .typescript
    .terminalObserve observeTail noEmptyText_sampleRuntime (by decide) wellFormed_observeTail
  have hlength : (encodeBudFrame sampleRuntime .typescript observeTail).any
      (fun bytes => bytes.length < 2 ^ 64) = true := by
    decide +kernel
  rw [hbytes] at hlength ⊢
  exact harrives (of_decide_eq_true hlength)

/-- Output of a terminal, as only a daemon has it. -/
def outputFrame : Fields :=
  [("proto", .string "0.3"), ("type", .string "terminal_output"), ("id", .string "msg_2"),
    ("ts", .int 1700000000000), ("session_id", .string "sess_1"), ("data", .string "aGk="),
    ("byte_offset", .int 4096)]

theorem wellFormed_outputFrame :
    WellFormed sampleRuntime .typescript .terminalOutput outputFrame := by
  have hproto : "0.3" = protoForFrameType FrameType.terminalOutput.name := by decide +kernel
  refine ⟨by rw [← hproto]; rfl, rfl, ⟨"msg_2", by decide, rfl⟩,
    ⟨1700000000000, by decide, rfl, "2023-11-14T22:13:20.000Z", rfl, rfl⟩, fun _ => ?_, nofun⟩
  intro field hfield v hv
  simp only [declaredFields, Ts.encodeTable, mem_cons, not_mem_nil, or_false] at hfield
  rcases hfield with rfl | rfl | rfl
  · cases hv
    exact ⟨"sess_1", by decide, rfl⟩
  · cases hv
    exact ⟨[104, 105], rfl, rfl⟩
  · cases hv
    exact ⟨4096, by decide, rfl⟩

/-- The daemon takes output for JSON, and finds none. -/
theorem decodeBudFrame_outputFrame :
    WellFormed sampleRuntime .typescript .terminalOutput outputFrame ∧
      ∃ bytes, encodeBudFrame sampleRuntime .typescript outputFrame = some bytes ∧
        decodeBudFrame sampleRuntime .rust bytes = none := by
  have hencode : (encodeBudFrame sampleRuntime .typescript outputFrame).isSome = true := by
    decide +kernel
  have hdecode : (encodeBudFrame sampleRuntime .typescript outputFrame).bind
      (decodeBudFrame sampleRuntime .rust) = none := by
    decide +kernel
  obtain ⟨bytes, hbytes⟩ := isSome_iff_exists.mp hencode
  rw [hbytes] at hdecode
  exact ⟨wellFormed_outputFrame, bytes, hbytes, hdecode⟩

end Bud.Wire
