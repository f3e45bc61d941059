import Bud.Wire.TerminalSend

/-!
# Which gestures survive the wire

`decodeTerminalSend_encodeTerminalSend` says what arrives: every field as it was sent, except that
an empty string arrives as no string at all and a lone surrogate as `U+FFFD`. The service's
validation and the daemon's agree on everything else, so a gesture the service accepts reaches the
terminal unchanged exactly if its text is not empty, neither text nor key holds a lone surrogate,
and the key has something besides white space in it in Rust's sense, which `U+0085` is and
JavaScript's `trim` leaves alone.

The empty text is the case that matters: `{ text: "", submit: true }` presses Enter, and arrives as
a submission without a text.
-/

namespace Bud.TerminalSend

open JsText Protobuf List Option

/-! ### Through the codecs -/

/-- What the daemon reads for a string that was written. -/
def received (s : List UInt16) : List Char := (scalars s).map fun c => c.getD Utf8.replacement

/-- What the daemon reads for an optional string. -/
def receivedOption (o : Option (List UInt16)) : Option (List Char) :=
  (o.filter fun s => decide (s ≠ [])).map received

/-- Short enough for its length to be a varint. -/
def Fits (o : Option (List UInt16)) : Prop := ∀ s, o = some s → s.length < 2 ^ 60

variable {s : List UInt16} {sessionId requestId : Ident}

theorem readString_toUtf8 (h : s.length < 2 ^ 60) (rest : List UInt8) :
    readString wireLengthDelimited (encodeVarint (toUtf8 s).length ++ toUtf8 s ++ rest)
      = some (received s, rest) := by
  have hlen := length_toUtf8_le s
  rw [readString, readBytes_encode (by omega), bind_some]
  simp only [decode_toUtf8, map_some, received]

/-- An optional string is read into its field; `upd` is the frame as a function of the field. -/
theorem reads_writeOptionalString (upd : Option (List Char) → RawFrame)
    (hupd : ∀ wire bs, readTerminalSendField (upd none) field wire bs = (readString wire bs).map fun
      x => (upd (some x.1), x.2)) (hfield : field < 2 ^ 29) (hfits : Fits o)
    (h : Reads readTerminalSendField (upd (receivedOption o)) rest r) :
    Reads readTerminalSendField (upd none) (writeOptionalString field o ++ rest) r := by
  rcases o with - | - | ⟨u, us⟩
  · exact h
  · exact h
  · refine reads_bytes hfield ?_ h
    rw [hupd, readString_toUtf8 (hfits _ rfl)]
    rfl

theorem reads_writeOptionalBool (hm : m.submit = none)
    (h : Reads readTerminalSendField { m with submit := o } rest r) :
    Reads readTerminalSendField m (writeOptionalBool 4 o ++ rest) r := by
  cases o with
  | none =>
    rw [← hm] at h
    exact h
  | some b =>
    refine reads_varint (by decide) ?_ h
    cases b
    · simp only [readTerminalSendField, readVarintForWireType, if_true, Bool.false_eq_true,
        if_false, readVarint_encodeVarint (show 0 < 2 ^ 64 by decide), map_some]
      rfl
    · simp only [readTerminalSendField, readVarintForWireType, if_true,
        readVarint_encodeVarint (show 1 < 2 ^ 64 by decide), map_some]
      rfl

/-- **Through the codecs.** Every field arrives as it was sent, up to `received`. -/
theorem readMessage_encodeTerminalSend (p : Payload) (hsession : Fits (some p.sessionId))
    (hrequest : Fits (some p.requestId)) (htext : Fits p.text) (hkey : Fits p.key)
    (hawait : Fits p.await) :
    readMessage readTerminalSendField RawFrame.empty (encodeTerminalSend p) = some
      { sessionId := receivedOption (some p.sessionId)
        requestId := receivedOption (some p.requestId)
        text := receivedOption p.text
        submit := p.submit
        key := receivedOption p.key
        await := receivedOption p.await } := by
  apply Reads.readMessage_eq
  rw [encodeTerminalSend, ← append_nil (writeOptionalString 9 p.await)]
  refine reads_writeOptionalString (fun o => { RawFrame.empty with sessionId := o })
    (fun _ _ => rfl) (by decide) hsession ?_
  refine reads_writeOptionalString (fun o =>
      { RawFrame.empty with
        sessionId := receivedOption (some p.sessionId)
        requestId := o })
    (fun _ _ => rfl) (by decide) hrequest ?_
  refine reads_writeOptionalString (fun o =>
      { RawFrame.empty with
        sessionId := receivedOption (some p.sessionId)
        requestId := receivedOption (some p.requestId)
        text := o })
    (fun _ _ => rfl) (by decide) htext ?_
  refine reads_writeOptionalBool rfl ?_
  refine reads_writeOptionalString (fun o =>
      { RawFrame.empty with
        sessionId := receivedOption (some p.sessionId)
        requestId := receivedOption (some p.requestId)
        text := receivedOption p.text
        submit := p.submit
        key := o })
    (fun _ _ => rfl) (by decide) hkey ?_
  refine reads_writeOptionalString (fun o =>
      { sessionId := receivedOption (some p.sessionId)
        requestId := receivedOption (some p.requestId)
        text := receivedOption p.text
        submit := p.submit
        key := receivedOption p.key
        await := o })
    (fun _ _ => rfl) (by decide) hawait ?_
  exact reads_nil _

theorem receivedOption_of_ne_nil (h : s ≠ []) : receivedOption (some s) = some (received s) := by
  rw [receivedOption, filter_some, if_pos (decide_eq_true h), map_some]

theorem received_eq_nil_iff (s : List UInt16) : received s = [] ↔ s = [] := by
  rw [received, map_eq_nil_iff]
  constructor
  · intro h
    rcases s with - | ⟨u, - | ⟨v, us⟩⟩
    · rfl
    · cases h
    · rw [scalars] at h
      split_ifs at h
  · rintro rfl
    rfl

theorem parseAwait_received (a : Await) : parseAwait (received (lit a.name)) = some a := by
  cases a <;> decide

theorem lit_name_ne_nil (a : Await) : lit a.name ≠ [] := by
  cases a <;> decide

/-! ### Key names -/

instance (s : List UInt16) : Decidable (WellFormed s) :=
  inferInstanceAs (Decidable (∀ c ∈ scalars s, c ≠ none))

instance (s : List UInt16) : Decidable (Blank s) :=
  inferInstanceAs (Decidable (∀ c ∈ scalars s, c.any RustText.isWhitespace = true))

theorem forall_keyAliases : ∀ a ∈ keyAliases,
    (lit a.1 ≠ [] ∧ WellFormed (lit a.1) ∧ ¬ Blank (lit a.1)) ∧
      lit a.2 ≠ [] ∧ WellFormed (lit a.2) ∧ ¬ Blank (lit a.2) ∧ (lit a.2).length ≤ 10 := by
  decide

/-- Checked unit by unit, and not over every `UInt16`. -/
theorem lit_lt_of_all {s : String}
    (h : ((lit s).all fun u => decide (u.toNat < 0xD800)) = true) : ∀ u ∈ lit s, u.toNat < 0xD800 :=
  fun u hu => of_decide_eq_true (List.all_eq_true.mp h u hu)

theorem forall_ctrlSpellings : ∀ p ∈ ctrlSpellings, (∀ u ∈ lit p, u.toNat < 0xD800) ∧
    ∃ us, lit p = 99 :: us := by
  intro p hp
  simp only [ctrlSpellings, mem_cons, not_mem_nil, or_false] at hp
  rcases hp with rfl | rfl | rfl | rfl | rfl <;> exact ⟨lit_lt_of_all (by decide), _, rfl⟩

/-- An alias is as well formed and as little blank as the name it stands for. -/
theorem aliasOf_spec (h : lower ≠ []) :
    aliasOf lower ≠ [] ∧ (WellFormed (aliasOf lower) ↔ WellFormed lower) ∧
      (Blank (aliasOf lower) ↔ Blank lower) ∧ (aliasOf lower).length ≤ lower.length + 10 := by
  rw [aliasOf]
  cases hfind : keyAliases.find? fun a => decide (lit a.1 = lower) with
  | none => exact ⟨h, Iff.rfl, Iff.rfl, Nat.le_add_right _ _⟩
  | some a =>
    have hdec := find?_some hfind
    obtain rfl : lit a.1 = lower := of_decide_eq_true hdec
    obtain ⟨⟨-, hwf, hblank⟩, hne, hwf', hblank', hlen⟩ :=
      forall_keyAliases a (mem_of_find?_eq_some hfind)
    exact ⟨hne, iff_of_true hwf' hwf, iff_of_false hblank' hblank,
      Nat.le_trans hlen (Nat.le_add_left _ _)⟩

theorem after_eq_some (h : after p s = some t) : s = p ++ t := by
  obtain ⟨hp, h⟩ := ite_none_right_eq_some.mp h
  cases h
  obtain ⟨t, rfl⟩ := hp
  rw [drop_left]

/-- A normalised key name is as well formed and as little blank as the trimmed one. -/
theorem normalize_spec (caseMap : CaseMap) (h : trim value ≠ []) :
    normalizeTerminalSendKeyName caseMap value ≠ [] ∧
      (WellFormed (normalizeTerminalSendKeyName caseMap value) ↔ WellFormed (trim value)) ∧
      (Blank (normalizeTerminalSendKeyName caseMap value) ↔ Blank (trim value)) ∧
      (normalizeTerminalSendKeyName caseMap value).length ≤ 3 * (trim value).length + 10 := by
  have hlower : caseMap.lower (trim value) ≠ [] := fun hnil => h ((caseMap.lower_eq_nil _).mp hnil)
  have hlen := caseMap.length_lower (trim value)
  rw [normalizeTerminalSendKeyName, ← caseMap.wellFormed_lower (trim value),
    ← caseMap.blank_lower (trim value)]
  simp only [if_neg h]
  split
  · next u us hfind =>
    obtain ⟨p, hp, hafter⟩ := exists_of_findSome?_eq_some hfind
    obtain ⟨hascii, vs, hvs⟩ := forall_ctrlSpellings p hp
    have hsplit := after_eq_some hafter
    have hctrl : ∀ u ∈ lit "ctrl+", u.toNat < 0xD800 := lit_lt_of_all (by decide)
    refine ⟨by simp [lit], ?_, iff_of_false ?_ ?_, ?_⟩
    · rw [hsplit, wellFormed_append hctrl, wellFormed_append hascii]
    · exact not_blank_cons (u := 99) (by decide) (by decide) _
    · rw [hsplit, hvs]
      exact not_blank_cons (by decide) (by decide) _
    · have hfive : (lit "ctrl+").length = 5 := by decide
      have := congrArg length hsplit
      rw [length_append] at this
      rw [length_append, hfive]
      omega
  · obtain ⟨hne, hwf, hblank, hle⟩ := aliasOf_spec hlower
    exact ⟨hne, hwf, hblank, by omega⟩

theorem length_trim_le (s : List UInt16) : (trim s).length ≤ s.length := by
  rw [trim, length_reverse]
  refine (length_dropWhile_le _ _).trans ?_
  rw [length_reverse]
  exact length_dropWhile_le _ _

theorem normalizedKey_eq_some (caseMap : CaseMap) {i : Interaction} {k : List UInt16} :
    i.normalizedKey caseMap = some k ↔ ∃ key, i.key = some key ∧ trim key.units ≠ [] ∧
      k = normalizeTerminalSendKeyName caseMap key.units := by
  rw [Interaction.normalizedKey, filter_eq_some_iff, bind_eq_some_iff]
  constructor
  · rintro ⟨⟨key, hkey, hk⟩, -⟩
    split_ifs at hk with h
    exact ⟨key, hkey, h, (some.inj hk).symm⟩
  · rintro ⟨key, hkey, h, rfl⟩
    exact ⟨⟨key, hkey, if_pos h⟩, decide_eq_true (normalize_spec caseMap h).1⟩

/-! ### Which gestures survive -/

/-- A JavaScript string and a Rust string are the same text. -/
def Same : Option (List UInt16) → Option (List Char) → Prop
  | none, none => True
  | some s, some t => scalars s = t.map some
  | _, _ => False

/-- The frame is decoded, the daemon's validation accepts it, and it says what the service was asked
to send. -/
def Survives (i : Interaction) (p : Payload) : Prop :=
  ∃ frame gesture, decodeTerminalSend (encodeTerminalSend p) = some frame ∧
    handleSend frame = .ok gesture ∧ Same p.text frame.text ∧
    frame.submit.getD false = decide (i.submit = some true) ∧ Same p.key frame.key ∧
    frame.await = i.await

/-- The condition on an interaction: a text is not empty, nothing holds a lone surrogate, and a key
does not consist of what only Rust takes for white space. -/
structure Interaction.Carried (i : Interaction) : Prop where
  text : ∀ text, i.text = some text → text.units ≠ [] ∧ WellFormed text.units
  key : ∀ key, i.key = some key → trim key.units ≠ [] →
    WellFormed (trim key.units) ∧ ¬ Blank (trim key.units)

theorem same_received_iff : Same (some s) (some (received s)) ↔ WellFormed s :=
  (wellFormed_iff s).symm

/-- What the service lets through is a text without a key, or a key without a text. -/
theorem sendInteraction_eq_ok {caseMap : CaseMap} {i : Interaction}
    (h : sendInteraction caseMap sessionId requestId i = .ok p) :
    (∃ text, i.text = some text ∧ i.normalizedKey caseMap = none ∧
        (text.units = [] → i.submit = some true) ∧
        p = { sessionId := sessionId.units
              requestId := requestId.units
              text := some text.units
              submit := some (decide (i.submit = some true))
              key := none
              await := i.await.map fun a => lit a.name }) ∨
      ∃ k, i.text = none ∧ i.submit ≠ some true ∧ i.normalizedKey caseMap = some k ∧
        p = { sessionId := sessionId.units
              requestId := requestId.units
              text := none
              submit := none
              key := some k
              await := i.await.map fun a => lit a.name } := by
  rw [sendInteraction] at h
  by_cases hsubmit : i.submit = some true
  · cases hkey : i.normalizedKey caseMap with
    | none =>
      cases htext : i.text with
      | none => simp [htext, hsubmit] at h
      | some text =>
        simp only [hkey, htext, hsubmit, isSome_some, isSome_none, decide_true,
          Bool.not_true, Bool.and_false, Bool.false_and, Bool.false_eq_true, if_false, if_true,
          map_some] at h
        cases h
        exact .inl ⟨text, rfl, rfl, fun _ => hsubmit, by rw [hsubmit]; rfl⟩
    | some k => cases htext : i.text <;> simp [hkey, htext, hsubmit] at h
  · cases hkey : i.normalizedKey caseMap with
    | none =>
      cases htext : i.text with
      | none => simp [hkey, htext, hsubmit] at h
      | some text =>
        by_cases hnil : text.units = []
        · simp [hkey, htext, hsubmit, hnil] at h
        · have hpos := length_pos_iff.mpr hnil
          simp only [hkey, htext, hsubmit, hpos, isSome_some, isSome_none,
            any_some, decide_false, decide_true, Bool.not_true, Bool.and_false,
            Bool.false_and, Bool.false_eq_true, if_false, if_true, map_some] at h
          cases h
          exact .inl ⟨text, rfl, rfl, fun h => absurd h hnil, by simp only [hsubmit, decide_false]⟩
    | some k =>
      cases htext : i.text with
      | some text => simp [hkey, htext, hsubmit] at h
      | none =>
        simp only [hkey, htext, hsubmit, isSome_some, isSome_none,
          isNone_some, decide_false, Bool.or_self, Bool.and_false, Bool.false_and,
          Bool.false_eq_true, if_false, map_none] at h
        cases h
        exact .inr ⟨k, rfl, hsubmit, rfl, rfl⟩

/-- What the daemon decodes of a frame the service sent. -/
theorem decodeTerminalSend_encodeTerminalSend {i : Interaction} {text key : Option (List UInt16)}
    {submit : Option Bool} (htext : Fits text) (hkey : Fits key) :
    decodeTerminalSend (encodeTerminalSend
      { sessionId := sessionId.units
        requestId := requestId.units
        text := text
        submit := submit
        key := key
        await := i.await.map fun a => lit a.name }) = some
      { sessionId := received sessionId.units
        requestId := received requestId.units
        text := receivedOption text
        submit := submit
        key := receivedOption key
        await := i.await } := by
  have hident : ∀ ident : Ident, Fits (some ident.units) := by
    rintro ident s ⟨⟩
    exact Nat.lt_trans ident.length_lt (by decide)
  have hawait : Fits (i.await.map fun a => lit a.name) := by
    intro s hs
    obtain ⟨a, -, rfl⟩ := map_eq_some_iff.mp hs
    cases a <;> decide
  rw [decodeTerminalSend, readMessage_encodeTerminalSend _ (hident sessionId) (hident requestId)
    htext hkey hawait, bind_some]
  simp only [deserialize, receivedOption_of_ne_nil sessionId.ne_nil,
    receivedOption_of_ne_nil requestId.ne_nil, bind_some]
  cases ha : i.await with
  | none => rfl
  | some a =>
    simp only [map_some, receivedOption_of_ne_nil (lit_name_ne_nil a), elim_some,
      parseAwait_received]

theorem trim_received_eq_nil_iff (h : WellFormed s) :
    RustText.trim (received s) = [] ↔ Blank s := by
  rw [RustText.trim_eq_nil_iff, received, Blank]
  constructor
  · intro hall c hc
    obtain ⟨ch, rfl⟩ := ne_none_iff_exists'.mp (h c hc)
    exact hall ch (mem_map.mpr ⟨some ch, hc, rfl⟩)
  · intro hall c hc
    obtain ⟨d, hd, rfl⟩ := mem_map.mp hc
    obtain ⟨ch, rfl⟩ := ne_none_iff_exists'.mp (h d hd)
    exact hall (some ch) hd

/-- **A text survives** if it is not empty and well formed. -/
theorem survives_text_iff {i : Interaction} {text : JsString}
    (hempty : text.units = [] → i.submit = some true) : Survives i
        { sessionId := sessionId.units
          requestId := requestId.units
          text := some text.units
          submit := some (decide (i.submit = some true))
          key := none
          await := i.await.map fun a => lit a.name } ↔
      text.units ≠ [] ∧ WellFormed text.units := by
  have hfits : Fits (some text.units) := by
    rintro s ⟨⟩
    exact Nat.lt_trans text.length_lt (by decide)
  have hdecode := @decodeTerminalSend_encodeTerminalSend sessionId requestId i (some text.units)
    none (some (decide (i.submit = some true))) hfits (fun s hs => by cases hs)
  by_cases hnil : text.units = []
  · -- no text arrives, but the submission does
    refine iff_of_false ?_ fun h => h.1 hnil
    rintro ⟨frame, gesture, hframe, hok, -⟩
    rw [hdecode] at hframe
    cases hframe
    simp [handleSend, receivedOption, hnil, hempty hnil] at hok
  · rw [receivedOption_of_ne_nil hnil] at hdecode
    have hne : received text.units ≠ [] := fun h => hnil ((received_eq_nil_iff _).mp h)
    constructor
    · rintro ⟨frame, gesture, hframe, -, hsame, -⟩
      rw [hdecode] at hframe
      cases hframe
      exact ⟨hnil, same_received_iff.mp hsame⟩
    · rintro ⟨-, hwf⟩
      refine ⟨_, ⟨some (received text.units), decide (i.submit = some true), none⟩, hdecode, ?_,
        same_received_iff.mpr hwf, rfl, trivial, rfl⟩
      simp [handleSend, receivedOption, hne]

/-- **A key survives** if it is well formed and not blank to the daemon. -/
theorem survives_key_iff (caseMap : CaseMap) {i : Interaction} {key : JsString}
    (hsubmit : i.submit ≠ some true) (htrim : trim key.units ≠ []) : Survives i
        { sessionId := sessionId.units
          requestId := requestId.units
          text := none
          submit := none
          key := some (normalizeTerminalSendKeyName caseMap key.units)
          await := i.await.map fun a => lit a.name } ↔
      WellFormed (trim key.units) ∧ ¬ Blank (trim key.units) := by
  obtain ⟨hne, hwf, hblank, hlen⟩ := normalize_spec caseMap htrim
  have hfits : Fits (some (normalizeTerminalSendKeyName caseMap key.units)) := by
    rintro s ⟨⟩
    have := length_trim_le key.units
    have := key.length_lt
    omega
  have hdecode := @decodeTerminalSend_encodeTerminalSend sessionId requestId i none
    (some (normalizeTerminalSendKeyName caseMap key.units)) none (fun s hs => by cases hs) hfits
  rw [receivedOption_of_ne_nil hne] at hdecode
  rw [← hwf, ← hblank]
  constructor
  · rintro ⟨frame, gesture, hframe, hok, -, -, hsame, -⟩
    rw [hdecode] at hframe
    cases hframe
    have hwf' := same_received_iff.mp hsame
    refine ⟨hwf', fun hb => ?_⟩
    have htrim' := (trim_received_eq_nil_iff hwf').mpr hb
    simp [handleSend, receivedOption, htrim'] at hok
  · rintro ⟨hwf', hb⟩
    have htrim' : RustText.trim (received (normalizeTerminalSendKeyName caseMap key.units)) ≠ [] :=
      fun h => hb ((trim_received_eq_nil_iff hwf').mp h)
    refine ⟨_, ⟨none, false, some (RustText.trim (received
      (normalizeTerminalSendKeyName caseMap key.units)))⟩, hdecode, ?_, trivial, ?_,
      same_received_iff.mpr hwf', rfl⟩
    · simp [handleSend, receivedOption, htrim']
    · simp [hsubmit]

/-- **Which gestures survive the wire.** Of the gestures the service accepts, those that the daemon
decodes, accepts and understands as the same are exactly the ones with a text that is not empty and
well formed, or a key that is well formed and not blank. -/
theorem survives_iff (caseMap : CaseMap) (sessionId requestId : Ident) (i : Interaction)
    (p : Payload) (h : sendInteraction caseMap sessionId requestId i = .ok p) :
    Survives i p ↔ i.Carried := by
  rcases sendInteraction_eq_ok h with ⟨text, htext, hkey, hempty, rfl⟩ |
    ⟨k, htext, hsubmit, hkey, rfl⟩
  · rw [survives_text_iff hempty]
    constructor
    · intro hcarried
      refine ⟨?_, ?_⟩
      · intro text' htext'
        obtain rfl : text = text' := some.inj (htext.symm.trans htext')
        exact hcarried
      · intro key hk htrim
        rw [(normalizedKey_eq_some caseMap).mpr ⟨key, hk, htrim, rfl⟩] at hkey
        cases hkey
    · exact fun hcarried => hcarried.text text htext
  · obtain ⟨key, hk, htrim, rfl⟩ := (normalizedKey_eq_some caseMap).mp hkey
    rw [survives_key_iff caseMap hsubmit htrim]
    constructor
    · intro hcarried
      refine ⟨?_, ?_⟩
      · intro text htext'
        rw [htext] at htext'
        cases htext'
      · intro key' hk' _
        obtain rfl : key = key' := some.inj (hk.symm.trans hk')
        exact hcarried
    · exact fun hcarried => hcarried.key key hk htrim

def ident : Ident :=
  { units := [115]
    length_lt := by decide
    ne_nil := by decide
    wellFormed := by decide }

/-- `{ text: "a", submit: true, await: "auto" }`. -/
def submitA : Interaction :=
  { text := some ⟨[97], by decide⟩, submit := some true, key := none, await := some .auto }

/-- `{ text: "", submit: true }`: Enter on an empty line. -/
def submitEmpty : Interaction :=
  { text := some ⟨[], by decide⟩, submit := some true, key := none, await := none }

theorem survives_iff_submitA : ∃ p, sendInteraction .ascii ident ident submitA = .ok p ∧
    Survives submitA p := by
  refine ⟨_, rfl, (survives_iff .ascii ident ident submitA _ rfl).mpr ⟨?_, ?_⟩⟩
  · rintro text ⟨⟩
    decide
  · rintro key ⟨⟩

/-- The daemon refuses what the service accepted. -/
theorem not_survives_submitEmpty : ∃ p frame,
    sendInteraction .ascii ident ident submitEmpty = .ok p ∧
    decodeTerminalSend (encodeTerminalSend p) = some frame ∧
    handleSend frame = .error "submit_requires_text" ∧ ¬ Survives submitEmpty p := by
  have hdecode : decodeTerminalSend (encodeTerminalSend
      { sessionId := [115]
        requestId := [115]
        text := some []
        submit := some true
        key := none
        await := none }) = some
      { sessionId := ['s']
        requestId := ['s']
        text := none
        submit := some true
        key := none
        await := none } := by decide
  refine ⟨_, _, rfl, hdecode, rfl, ?_⟩
  rintro ⟨frame, gesture, hframe, hok, -⟩
  cases some.inj (hdecode.symm.trans hframe)
  cases hok

end Bud.TerminalSend
