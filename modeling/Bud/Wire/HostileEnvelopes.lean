import Bud.Wire.EnvelopeAgreement
import Bud.Wire.ProtoReader

/-!
# Envelopes from a hostile sender

The reader of the daemon adds a length from the wire to its offset and looks at the sum only then.
In a release build the sum wraps around, so a length close to `2 ^ 64` ends a slice before its
start, and takes a cursor that skips back to where it came from: the decoder panics, or never ends.

This is the only way in which it fails. The decoder that stops at such a sum is run beside the one
that does not (`Agree`): as long as it is not stopped both do the same, which is good, and where it
is stopped the other takes a slice out of range or moves back.
-/

namespace Bud.ProtoWire

open Wire Protobuf Traced Guarded

/-- An error of a reader in which nothing overflows: it is out of fuel only where there is less than
there are bytes. -/
def Allowed (size fuel : ℕ) (e : Stop) : Prop :=
  e ≠ .panic ∧ e ≠ .overflow ∧ (e = .outOfFuel → ¬size ≤ fuel)

/-- The run of a release build beside the run that is checked. -/
abbrev Agree (size fuel : ℕ) {α : Type} (Q : α → Prop) (p q : Decode α) : Prop :=
  Guarded Event.Good .overflow (Allowed size fuel) Q p q

section

variable {size fuel : ℕ} {bytes : List UInt8}

theorem allowed_error (text : String) : Allowed size fuel (.error text) :=
  ⟨nofun, nofun, nofun⟩

theorem allowed_invalid : Allowed size fuel .invalid := ⟨nofun, nofun, nofun⟩

variable {α : Type} {reader : ProtoReader bytes} {stop : ℕ}

theorem agree_bail {Q : α → Prop} (text : String) : Agree size fuel Q (bail text) (bail text) :=
  fail (allowed_error text)

/-! ### The reader -/

/-- A varint takes at least a byte, or it is no varint. -/
theorem readVarintFrom_meets (result : UInt64) (shift : ℕ) (bs : List UInt8) :
    Meets (Allowed size fuel) (fun r : UInt64 × List UInt8 => r.2.length < bs.length)
      (readVarintFrom result shift bs) := by
  induction bs generalizing result shift with
  | nil => exact allowed_error _
  | cons byte rest ih =>
    rw [readVarintFrom]
    split_ifs
    · exact Nat.lt_succ_self _
    · exact allowed_error _
    · have h := ih (result ||| (byte &&& 0x7f).toUInt64 <<< UInt64.ofNat shift) (shift + 7)
      revert h
      cases readVarintFrom (result ||| (byte &&& 0x7f).toUInt64 <<< UInt64.ofNat shift)
        (shift + 7) rest with
      | error e => exact id
      | ok r => exact fun h => Nat.lt_succ_of_lt h

theorem agree_readVarint (reader : ProtoReader bytes) :
    Agree size fuel (fun r : UInt64 × ProtoReader bytes =>
        reader.offset < r.2.offset ∧ r.2.field = reader.field)
      reader.readVarint reader.readVarint := by
  refine bind (of_silent rfl (readVarintFrom_meets 0 0 _)) fun r hr => ?_
  refine pure ⟨?_, rfl⟩
  have hle := reader.offset_le
  rw [List.length_drop] at hr
  show reader.offset < bytes.length - r.2.length
  omega

theorem agree_readTag (reader : ProtoReader bytes) :
    Agree size fuel (fun r : ℕ × ℕ × ProtoReader bytes =>
        r.2.2.field = reader.offset ∧ reader.offset < r.2.2.offset)
      reader.readTag reader.readTag :=
  (agree_readVarint reader).bind fun _ hr => pure ⟨rfl, hr.1⟩

theorem agree_leaveField (h : reader.field < reader.offset) :
    Agree size fuel (fun _ => True) reader.leaveField reader.leaveField :=
  tell h

/-- What is read of a field leaves the reader past its tag. -/
def Past (reader : ProtoReader bytes) (r : List UInt8 × ProtoReader bytes) : Prop :=
  reader.field < r.2.offset ∧ r.1.length ≤ bytes.length

theorem agree_readVarintForWireType (wireType : ℕ) (hfield : reader.field < reader.offset) :
    Agree size fuel (fun r : UInt64 × ProtoReader bytes => reader.field < r.2.offset)
      (reader.readVarintForWireType wireType) (reader.readVarintForWireType wireType) := by
  refine ite (fun _ => agree_bail _) fun _ => ?_
  refine (agree_readVarint reader).bind fun r hr => ?_
  have hlt : reader.field < r.2.offset := hfield.trans hr.1
  have hpast : r.2.field < r.2.offset := by
    rw [hr.2]
    exact hlt
  exact (agree_leaveField hpast).bind fun _ _ => pure hlt

theorem agree_slice (hfield : reader.field < reader.offset) (hstop : reader.offset ≤ stop) :
    Agree size fuel (Past reader) (reader.slice stop) (reader.slice stop) := by
  rw [ProtoReader.slice]
  by_cases hle : stop ≤ bytes.length
  · rw [dif_pos hle]
    have hlt : reader.field < stop := Nat.lt_of_lt_of_le hfield hstop
    refine (Guarded.tell ⟨hstop, hle⟩).bind fun _ _ => ?_
    rw [if_pos hstop]
    let next : ProtoReader bytes := { reader with offset := stop, offset_le := hle }
    refine (@agree_leaveField _ _ _ next hlt).bind fun _ _ => pure ⟨hlt, ?_⟩
    rw [List.length_take, List.length_drop]
    omega
  · rw [dif_neg hle]
    exact agree_bail _

/-- A slice that ends before its start is taken all the same. -/
theorem slice_bad (hstop : stop < reader.offset) :
    ∃ event ∈ (reader.slice stop).events, ¬event.Good := by
  have hle : stop ≤ bytes.length := hstop.le.trans reader.offset_le
  refine ⟨.slice reader.offset stop bytes.length, ?_, fun h => Nat.not_le_of_lt hstop h.1⟩
  rw [ProtoReader.slice, dif_pos hle]
  exact List.mem_cons_self

theorem agree_readBytesForWireType (wireType : ℕ) (hsize : bytes.length < 2 ^ 63)
    (hfield : reader.field < reader.offset) :
    Agree size fuel (Past reader) (reader.readBytesForWireType .wrapping wireType)
      (reader.readBytesForWireType .checked wireType) := by
  refine ite (fun _ => agree_bail _) fun _ => ?_
  refine (agree_readVarint reader).bind fun r hr => ?_
  obtain ⟨length, next⟩ := r
  obtain ⟨hoffset, hsame⟩ := hr
  have hle := next.offset_le
  have hlength := length.toNat_lt
  have hpast : next.field < next.offset := by
    rw [hsame]
    exact hfield.trans hoffset
  show Agree size fuel (Past reader) (next.slice ((next.offset + length.toNat) % 2 ^ 64))
    (ofOption .overflow (Arithmetic.checked.sliceEnd next.offset length.toNat) >>= next.slice)
  by_cases hfits : next.offset + length.toNat < 2 ^ 64
  · rw [show Arithmetic.checked.sliceEnd next.offset length.toNat
        = some (next.offset + length.toNat) from if_pos hfits, Nat.mod_eq_of_lt hfits]
    refine (agree_slice hpast (Nat.le_add_right _ _)).mono fun r hr => ?_
    exact ⟨by rw [← hsame]; exact hr.1, hr.2⟩
  · rw [show Arithmetic.checked.sliceEnd next.offset length.toNat = none from if_neg hfits]
    exact .stopped rfl (slice_bad (by omega))

theorem agree_moveTo (hstop : reader.field < stop) :
    Agree size fuel (fun next : ProtoReader bytes => reader.field < next.offset)
      (reader.moveTo stop) (reader.moveTo stop) := by
  rw [ProtoReader.moveTo]
  by_cases hle : stop ≤ bytes.length
  · rw [dif_pos hle]
    let next : ProtoReader bytes := { reader with offset := stop, offset_le := hle }
    exact (@agree_leaveField _ _ _ next hstop).bind fun _ _ => pure hstop
  · rw [dif_neg hle]
    exact agree_bail _

/-- A cursor is moved back to its tag, or before, all the same. -/
theorem moveTo_bad (hfield : reader.field < reader.offset) (hstop : stop ≤ reader.field) :
    ∃ event ∈ (reader.moveTo stop).events, ¬event.Good := by
  have hle : stop ≤ bytes.length := (hstop.trans hfield.le).trans reader.offset_le
  refine ⟨.field reader.field stop, ?_, fun h => Nat.not_lt_of_le hstop h⟩
  rw [ProtoReader.moveTo, dif_pos hle]
  exact List.mem_cons_self

theorem agree_skipOver (hlength : length < 2 ^ 64) (hsize : bytes.length < 2 ^ 63)
    (hfield : reader.field < reader.offset) :
    Agree size fuel (fun next : ProtoReader bytes => reader.field < next.offset)
      (reader.skipOver .wrapping length) (reader.skipOver .checked length) := by
  have hle := reader.offset_le
  show Agree size fuel _ (reader.moveTo ((reader.offset + length) % 2 ^ 64))
    (ofOption .overflow (Arithmetic.checked.skipEnd reader.field reader.offset length)
      >>= reader.moveTo)
  by_cases hahead :
    reader.offset + length < 2 ^ 64 ∨ reader.field < reader.offset + length - 2 ^ 64
  · rw [show Arithmetic.checked.skipEnd reader.field reader.offset length
        = some ((reader.offset + length) % 2 ^ 64) from if_pos hahead]
    exact agree_moveTo (by omega)
  · rw [show Arithmetic.checked.skipEnd reader.field reader.offset length = none from
        if_neg hahead]
    exact .stopped rfl (moveTo_bad hfield (by omega))

theorem agree_skip (wireType : ℕ) (hsize : bytes.length < 2 ^ 63)
    (hfield : reader.field < reader.offset) :
    Agree size fuel (fun next : ProtoReader bytes => reader.field < next.offset)
      (reader.skip .wrapping wireType) (reader.skip .checked wireType) := by
  refine ite (fun _ => ?_) fun _ => ite (fun _ => ?_) fun _ =>
    ite (fun _ => ?_) fun _ => ite (fun _ => ?_) fun _ => agree_bail _
  · refine (agree_readVarint reader).bind fun r hr => ?_
    have hpast : r.2.field < r.2.offset := by
      rw [hr.2]
      exact hfield.trans hr.1
    rw [← hr.2]
    exact agree_moveTo hpast
  · exact agree_skipOver (by decide) hsize hfield
  · refine (agree_readVarint reader).bind fun r hr => ?_
    have hpast : r.2.field < r.2.offset := by
      rw [hr.2]
      exact hfield.trans hr.1
    rw [← hr.2]
    exact agree_skipOver r.1.toNat_lt hsize hpast
  · exact agree_skipOver (by decide) hsize hfield

/-- What is read of a known field is no longer than what it is read from. -/
def Within (size : ℕ) (c : Chunk) : Prop := ∀ value, c = .bytes value → value.length ≤ size

theorem agree_readChunk (expected wireType : ℕ) (hbytes : bytes.length ≤ size)
    (hsize : size < 2 ^ 63) (hfield : reader.field < reader.offset) : Agree size fuel
      (fun r : Chunk × ProtoReader bytes => reader.field < r.2.offset ∧ Within size r.1)
      (reader.readChunk .wrapping expected wireType)
      (reader.readChunk .checked expected wireType) := by
  refine ite (fun _ => ?_) fun _ => ?_
  · exact (agree_readVarintForWireType wireType hfield).bind fun r hr =>
      pure ⟨hr, nofun⟩
  · refine (agree_readBytesForWireType wireType (hbytes.trans_lt hsize) hfield).bind fun r hr =>
      pure ⟨hr.1, fun value hvalue => ?_⟩
    cases hvalue
    exact hr.2.trans hbytes

/-! ### Messages -/

variable {M : Type}

/-- Two ways of taking the same fields that agree on what is short enough, and keep `I`. -/
structure KnownAgree (size fuel : ℕ) (I : M → Prop) (kp kq : Known M) : Prop where
  wire : kp.wire = kq.wire
  take : ∀ (m : M) (fieldNumber : ℕ) (c : Chunk), I m → Within size c →
    Agree size fuel I (kp.take m fieldNumber c) (kq.take m fieldNumber c)

variable {I : M → Prop} {kp kq : Known M}

theorem agree_onField (hknown : KnownAgree size fuel I kp kq) (hbytes : bytes.length ≤ size)
    (hsize : size < 2 ^ 63) (hm : I m) (fieldNumber wireType : ℕ)
    (hfield : reader.field < reader.offset) :
    Agree size fuel (fun r : M × ProtoReader bytes => I r.1 ∧ reader.field < r.2.offset)
      (onField .wrapping kp m fieldNumber wireType reader)
      (onField .checked kq m fieldNumber wireType reader) := by
  rw [onField, onField, hknown.wire]
  cases kq.wire fieldNumber with
  | none =>
    exact (agree_skip wireType (hbytes.trans_lt hsize) hfield).bind fun _ hnext =>
      pure ⟨hm, hnext⟩
  | some expected =>
    refine (agree_readChunk expected wireType hbytes hsize hfield).bind fun r hr => ?_
    exact (hknown.take m fieldNumber r.1 hm hr.2).bind fun _ hm => pure ⟨hm, hr.1⟩

theorem agree_outOfFuel {Q : α → Prop} (hdone : ¬reader.done = true)
    (hleft : size ≤ fuel → bytes.length - reader.offset ≤ 0) :
    Agree size fuel Q (fail .outOfFuel) (fail .outOfFuel) := by
  refine fail ⟨nofun, nofun, fun _ henough => hdone (decide_eq_true ?_)⟩
  have := hleft henough
  omega

/-- Each field takes at least a byte, so there is fuel for all of them. -/
theorem agree_readFields (hknown : KnownAgree size fuel I kp kq) (hbytes : bytes.length ≤ size)
    (hsize : size < 2 ^ 63) (left : ℕ) (hm : I m) (reader : ProtoReader bytes)
    (hleft : size ≤ fuel → bytes.length - reader.offset ≤ left) :
    Agree size fuel I (readFields .wrapping kp left m reader)
      (readFields .checked kq left m reader) := by
  induction left generalizing m reader with
  | zero =>
    rw [readFields, readFields]
    exact ite (fun _ => pure hm) fun hdone => agree_outOfFuel hdone hleft
  | succ left ih =>
    rw [readFields, readFields]
    refine ite (fun _ => pure hm) fun _ => ?_
    refine (agree_readTag reader).bind fun tag htag => ?_
    obtain ⟨fieldNumber, wireType, next⟩ := tag
    have hfield : next.field < next.offset := by
      rw [htag.1]
      exact htag.2
    refine (agree_onField hknown hbytes hsize hm fieldNumber wireType hfield).bind fun r hr => ?_
    refine ih hr.1 r.2 fun henough => ?_
    have := hleft henough
    have : reader.offset < r.2.offset := by
      rw [← htag.1]
      exact hr.2
    omega

theorem agree_readMessage (hknown : KnownAgree size fuel I kp kq) (hsize : size < 2 ^ 63) (hm : I m)
    {bytes : List UInt8} (hbytes : bytes.length ≤ size) :
    Agree size fuel I (readMessage .wrapping fuel kp m bytes)
      (readMessage .checked fuel kq m bytes) :=
  agree_readFields hknown hbytes hsize fuel hm (ProtoReader.new bytes) fun henough =>
    (Nat.sub_le _ _).trans (hbytes.trans henough)

theorem agree_pure (a : α) : Agree size fuel (fun _ => True) (pure a) (pure a) :=
  pure trivial

theorem agree_ofOption (he : Allowed size fuel e) (x : Option α) :
    Agree size fuel (fun _ => True) (ofOption e x) (ofOption e x) :=
  ofOption he fun _ _ => trivial

theorem agree_stringFromUtf8 (bytes : List UInt8) :
    Agree size fuel (fun _ => True) (stringFromUtf8 bytes) (stringFromUtf8 bytes) :=
  agree_ofOption allowed_invalid _

/-- A computation in which nothing is read. -/
def Sound (size fuel : ℕ) {α : Type} (p : Decode α) : Prop := Agree size fuel (fun _ => True) p p

theorem knownAgree_of_sound {known : Known M}
    (h : ∀ m fieldNumber c, Sound size fuel (known.take m fieldNumber c)) :
    KnownAgree size fuel (fun _ => True) known known :=
  ⟨rfl, fun m fieldNumber c _ _ => h m fieldNumber c⟩

theorem knownAgree_entryFields : KnownAgree size fuel (fun _ => True) entryFields entryFields := by
  refine knownAgree_of_sound fun entry fieldNumber c => ?_
  rw [entryFields]
  dsimp only
  split
  · exact (agree_stringFromUtf8 _).bind fun _ _ => agree_pure _
  · exact (agree_stringFromUtf8 _).bind fun _ _ => agree_pure _
  · exact agree_pure _

theorem knownAgree_legacyFields :
    KnownAgree size fuel (fun _ => True) legacyFields legacyFields := by
  refine knownAgree_of_sound fun fields fieldNumber c => ?_
  rw [legacyFields]
  dsimp only
  split
  · exact agree_pure _
  · exact (agree_stringFromUtf8 _).bind fun _ _ => agree_pure _
  · exact (agree_stringFromUtf8 _).bind fun _ _ => agree_pure _
  · exact agree_pure _

theorem knownAgree_frameJsonFields :
    KnownAgree size fuel (fun _ => True) frameJsonFields frameJsonFields := by
  refine knownAgree_of_sound fun json fieldNumber c => ?_
  cases c with
  | varint value | bytes value => exact agree_pure _

theorem agree_decodeLegacyJsonPayload (hsize : size < 2 ^ 63) {bytes : List UInt8}
    (hbytes : bytes.length ≤ size) :
    Agree size fuel (fun _ => True) (decodeLegacyJsonPayload .wrapping fuel bytes)
      (decodeLegacyJsonPayload .checked fuel bytes) := by
  refine (agree_readMessage knownAgree_legacyFields hsize trivial hbytes).bind fun fields _ => ?_
  cases fields.json with
  | none => exact agree_bail _
  | some json => exact agree_pure _

/-! ### Payloads -/

variable (rt : Runtime)

theorem agree_decodeStringMapEntry (hsize : size < 2 ^ 63) {bytes : List UInt8}
    (hbytes : bytes.length ≤ size) :
    Agree size fuel (fun _ => True) (decodeStringMapEntry .wrapping fuel bytes)
      (decodeStringMapEntry .checked fuel bytes) :=
  (agree_readMessage knownAgree_entryFields hsize trivial hbytes).bind fun _ _ => agree_pure _

section

variable {dp dq : Message → List UInt8 → Decode Fields}

theorem agree_takeValue (hsize : size < 2 ^ 63)
    (hdecode : ∀ message (bytes : List UInt8), bytes.length ≤ size → Agree size fuel (fun _ => True)
      (dp message bytes) (dq message bytes)) (current : Option Json) (kind : Reader)
    (hwithin : Within size c) :
    Agree size fuel (fun _ => True) (takeValue .wrapping fuel rt dp current kind c)
      (takeValue .checked fuel rt dq current kind c) := by
  rw [takeValue.eq_def, takeValue.eq_def]
  split
  · exact (agree_decodeStringMapEntry hsize (hwithin _ rfl)).bind fun _ _ => agree_pure _
  · exact (hdecode _ _ (hwithin _ rfl)).bind fun _ _ => agree_pure _
  · exact (hdecode _ _ (hwithin _ rfl)).bind fun _ _ => agree_pure _
  · exact agree_ofOption allowed_invalid _

theorem knownAgree_tableFields (hsize : size < 2 ^ 63)
    (hdecode : ∀ message (bytes : List UInt8), bytes.length ≤ size →
      Agree size fuel (fun _ => True) (dp message bytes) (dq message bytes))
    (table : List (Wire.Field Reader)) :
    KnownAgree size fuel (fun _ => True) (tableFields .wrapping fuel rt dp table)
      (tableFields .checked fuel rt dq table) := by
  refine ⟨rfl, fun fields fieldNumber c _ hwithin => ?_⟩
  rw [tableFields, tableFields]
  dsimp only
  cases findField table fieldNumber with
  | none => exact agree_pure _
  | some field =>
    exact (agree_takeValue rt hsize hdecode _ field.kind hwithin).bind fun _ _ => agree_pure _

end

/-- Messages nest no deeper than `depth`. -/
theorem agree_decodeMessage (hsize : size < 2 ^ 63) (depth : ℕ) (message : Message)
    (bytes : List UInt8) (hbytes : bytes.length ≤ size) :
    Agree size fuel (fun _ => True) (decodeMessage .wrapping fuel rt depth message bytes)
      (decodeMessage .checked fuel rt depth message bytes) := by
  induction depth generalizing message bytes with
  | zero => exact fail allowed_invalid
  | succ depth ih =>
    exact agree_readMessage (knownAgree_tableFields rt hsize ih _) hsize trivial hbytes

theorem agree_containsFrameJson (hbytes : bytes.length ≤ size) (hsize : size < 2 ^ 63) (left : ℕ)
    (reader : ProtoReader bytes) (hleft : size ≤ fuel → bytes.length - reader.offset ≤ left) :
    Agree size fuel (fun _ => True) (containsFrameJson .wrapping left reader)
      (containsFrameJson .checked left reader) := by
  induction left generalizing reader with
  | zero =>
    rw [containsFrameJson, containsFrameJson]
    exact ite (fun _ => agree_pure _) fun hdone => agree_outOfFuel hdone hleft
  | succ left ih =>
    rw [containsFrameJson, containsFrameJson]
    refine ite (fun _ => agree_pure _) fun _ => ?_
    refine (agree_readTag reader).bind fun tag htag => ?_
    refine ite (fun _ => agree_pure _) fun _ => ?_
    have hfield : tag.2.2.field < tag.2.2.offset := by
      rw [htag.1]
      exact htag.2
    refine (agree_skip _ (hbytes.trans_lt hsize) hfield).bind fun next hnext => ?_
    refine ih next fun henough => ?_
    rw [htag.1] at hnext
    have := hleft henough
    omega

theorem agree_payloadContainsFrameJson (hsize : size < 2 ^ 63) {bytes : List UInt8}
    (hbytes : bytes.length ≤ size) :
    Agree size fuel (fun _ => True) (payloadContainsFrameJson .wrapping fuel bytes)
      (payloadContainsFrameJson .checked fuel bytes) :=
  agree_containsFrameJson hbytes hsize fuel (ProtoReader.new bytes) fun henough =>
    (Nat.sub_le _ _).trans (hbytes.trans henough)

theorem agree_decodeFrameJson (hsize : size < 2 ^ 63) {bytes : List UInt8}
    (hbytes : bytes.length ≤ size) (frameType : String) :
    Agree size fuel (fun _ => True) (decodeFrameJson .wrapping fuel bytes frameType)
      (decodeFrameJson .checked fuel bytes frameType) := by
  refine (agree_readMessage knownAgree_frameJsonFields hsize trivial hbytes).bind fun json _ => ?_
  cases json with
  | none => exact agree_bail _
  | some json => exact agree_pure _

theorem agree_decodeFieldLevelPayload (hsize : size < 2 ^ 63) (table : List (Wire.Field Reader))
    {bytes : List UInt8} (hbytes : bytes.length ≤ size) (frameType messageId sentAt : String) :
    Agree size fuel (fun _ => True)
      (decodeFieldLevelPayload .wrapping fuel rt table bytes frameType messageId sentAt)
      (decodeFieldLevelPayload .checked fuel rt table bytes frameType messageId sentAt) := by
  have hknown := knownAgree_tableFields rt hsize
    (@agree_decodeMessage size fuel rt hsize nesting) table
  exact (agree_readMessage hknown hsize trivial hbytes).bind fun _ _ => agree_pure _

theorem agree_decodeTypedJsonPayload (hsize : size < 2 ^ 63) {bytes : List UInt8}
    (hbytes : bytes.length ≤ size) (frameType messageId sentAt : String) :
    Agree size fuel (fun _ => True)
      (decodeTypedJsonPayload .wrapping fuel rt bytes frameType messageId sentAt)
      (decodeTypedJsonPayload .checked fuel rt bytes frameType messageId sentAt) := by
  rw [decodeTypedJsonPayload, decodeTypedJsonPayload]
  cases isFieldLevelFrameType frameType with
  | none => exact agree_decodeFrameJson hsize hbytes frameType
  | some table =>
    refine (agree_payloadContainsFrameJson hsize hbytes).bind fun found _ => ?_
    refine ite (fun _ => agree_decodeFrameJson hsize hbytes frameType) fun _ => ?_
    exact (agree_decodeFieldLevelPayload rt hsize table hbytes _ _ _).bind fun _ _ => agree_pure _

/-! ### Envelopes -/

def Contained (size : ℕ) (fields : EnvelopeFields) : Prop :=
  ∀ payload, fields.typedPayload = some payload → payload.2.length ≤ size

theorem knownAgree_envelopeFields (hsize : size < 2 ^ 63) :
    KnownAgree size fuel (Contained size) (envelopeFields .wrapping fuel)
      (envelopeFields .checked fuel) := by
  refine ⟨rfl, fun fields fieldNumber c hfields hwithin => ?_⟩
  rw [envelopeFields, envelopeFields]
  dsimp only
  split
  · exact pure hfields
  · exact (agree_stringFromUtf8 _).bind fun _ _ => pure hfields
  · exact (agree_stringFromUtf8 _).bind fun _ _ => pure hfields
  · exact pure hfields
  · exact pure hfields
  · exact (agree_decodeLegacyJsonPayload hsize (hwithin _ rfl)).bind fun _ _ =>
      pure hfields
  · refine pure fun payload hpayload => ?_
    obtain ⟨frameType, _, rfl⟩ := Option.map_eq_some_iff.mp hpayload
    exact hwithin _ rfl
  · exact pure hfields

theorem agree_decodePayload (hsize : size < 2 ^ 63) (hfields : Contained size fields)
    (messageId sentAt : String) :
    Agree size fuel (fun _ => True) (decodePayload .wrapping fuel rt fields messageId sentAt)
      (decodePayload .checked fuel rt fields messageId sentAt) := by
  rw [decodePayload, decodePayload]
  cases hpayload : fields.payload with
  | some payload => exact agree_pure _
  | none =>
    cases htyped : fields.typedPayload with
    | none => exact agree_bail _
    | some typed => exact agree_decodeTypedJsonPayload rt hsize (hfields typed htyped) _ _ _

/-- **The decoder of a release build beside the one that is checked.** -/
theorem decodeLegacyJsonEnvelope_agree (hsize : bytes.length < 2 ^ 63) :
    Agree bytes.length fuel (fun _ => True) (decodeLegacyJsonEnvelope .wrapping fuel rt bytes)
      (decodeLegacyJsonEnvelope .checked fuel rt bytes) := by
  have hnone : Contained bytes.length {} := fun _ h => nomatch h
  refine (agree_readMessage (knownAgree_envelopeFields hsize) hsize hnone le_rfl).bind
    fun fields hfields => ?_
  refine (agree_ofOption (allowed_error _) _).bind fun version _ => ?_
  refine ite (fun _ => agree_bail _) fun _ => ?_
  refine (agree_ofOption (allowed_error _) _).bind fun messageId _ => ?_
  refine (agree_ofOption (allowed_error _) _).bind fun sentAt _ => ?_
  refine (agree_decodePayload rt hsize hfields messageId sentAt).bind fun payload _ => ?_
  exact (agree_ofOption (allowed_error _) _).bind fun trafficClass _ => agree_pure _

/-- **The decoder is total on just the bytes in which no length overflows**, at any level. -/
theorem safe_iff_noOverflow (bytes : List UInt8) (hsize : bytes.length < 2 ^ 63) :
    Safe rt bytes ↔ NoOverflow rt bytes := by
  constructor
  · intro hsafe fuel hoverflow
    obtain ⟨event, hevent, hbad⟩ := (decodeLegacyJsonEnvelope_agree rt hsize).exists_bad
      (fun h => h.2.1 rfl) hoverflow
    exact hbad (hsafe.good fuel event hevent)
  · intro hnone
    have hsame := fun fuel =>
      (@decodeLegacyJsonEnvelope_agree fuel bytes rt hsize).same_of_ne (hnone fuel)
    refine ⟨⟨bytes.length, fun hfuel => ?_⟩, fun fuel hpanic => ?_, fun fuel => (hsame fuel).2.1⟩
    · have hmeets := (hsame bytes.length).2.2
      rw [hfuel] at hmeets
      exact hmeets.2.2 rfl le_rfl
    · have hmeets := (hsame fuel).2.2
      rw [hpanic] at hmeets
      exact hmeets.1 rfl

end

/-! ### Hostile bytes -/

/-- A message id of `2 ^ 64 - 1` bytes, whose slice is from 11 to 10. -/
def panicking : List UInt8 := [0x12, 0xff, 0xff, 0xff, 0xff, 0xff, 0xff, 0xff, 0xff, 0xff, 0x01]

theorem safe_iff_noOverflow_panicking :
    panicking.length < 2 ^ 63 ∧
      (Safe sampleRuntime panicking ↔ NoOverflow sampleRuntime panicking) :=
  ⟨by decide, safe_iff_noOverflow sampleRuntime panicking (by decide)⟩

/-- An unknown field of `2 ^ 64 - 11` bytes, which takes the cursor back to its start. -/
def looping : List UInt8 := [0x4a, 0xf5, 0xff, 0xff, 0xff, 0xff, 0xff, 0xff, 0xff, 0xff, 0x01]

theorem readFields_looping (known : Known EnvelopeFields) (hknown : known.wire 9 = none)
    (fuel : ℕ) (m : EnvelopeFields) :
    (readFields .wrapping known fuel m (ProtoReader.new looping)).result = .error .outOfFuel := by
  induction fuel with
  | zero => rfl
  | succ fuel ih =>
    -- the tag is read, and the cursor moved past it
    have hstep : readFields .wrapping known (fuel + 1) m (ProtoReader.new looping)
        = onField .wrapping known m 9 2 (⟨0, 1, by decide⟩ : ProtoReader looping)
          >>= fun r => readFields .wrapping known fuel r.1 r.2 := rfl
    rw [hstep, onField, hknown]
    exact ih

theorem decodeLegacyJsonEnvelope_looping (rt : Runtime) (fuel : ℕ) :
    (decodeLegacyJsonEnvelope .wrapping fuel rt looping).result = .error .outOfFuel := by
  rw [decodeLegacyJsonEnvelope, readMessage, bind_of_error (readFields_looping _ rfl fuel {})]

theorem not_safe_hostile : ¬Safe sampleRuntime panicking ∧ ¬Safe sampleRuntime looping := by
  constructor
  · intro hsafe
    exact hsafe.no_panic 1 (by decide +kernel)
  · intro hsafe
    obtain ⟨fuel, hends⟩ := hsafe.ends
    exact hends (decodeLegacyJsonEnvelope_looping sampleRuntime fuel)

end Bud.ProtoWire
