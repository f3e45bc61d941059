import Mathlib.Data.List.Forall2
import Bud.Wire.Codec

/-!
# Tables that agree

A table for writing and a table for reading agree if the reader finds every field under the number
it is written under, with the same name, and takes what the writer puts there. `tablesAgree` checks
this, so whether the tables of two codecs agree is decided by evaluation; that what is written by
one is read back by the other is proved once, from the check.

A field is carried in three steps. What is written for a value is a list of chunks; taking them one
after the other gives the value back; and a message is the chunks of its fields in a row.
-/

namespace Bud.Wire

open Protobuf List Option

/-! ### Objects and texts -/

@[simp] theorem get_nil (name : String) : get [] name = none := rfl

theorem get_cons (entry : String × Json) (fields : Fields) (name : String) :
    get (entry :: fields) name = if name = entry.1 then some entry.2 else get fields name := by
  obtain ⟨key, value⟩ := entry
  rw [get, lookup_cons]
  by_cases h : name = key
  · simp [h]
  · have hbeq : (name == key) = false := beq_eq_false_iff_ne.mpr h
    simp [h, hbeq, get]

variable {name other : String}

theorem get_filter_ne (h : other ≠ name) (fields : Fields) :
    get (fields.filter fun field => field.1 ≠ name) other = get fields other := by
  induction fields with
  | nil => rfl
  | cons field fields ih =>
    rw [filter_cons, get_cons]
    split_ifs with hkeep heq heq
    · rw [get_cons, if_pos heq]
    · rw [get_cons, if_neg heq, ih]
    · have hname : field.1 = name := by simpa using hkeep
      exact absurd (heq.trans hname) h
    · exact ih

@[simp] theorem get_set_self (fields : Fields) (name : String) (value : Json) :
    get (set fields name value) name = some value := by
  rw [set, get_cons, if_pos rfl]

theorem get_set_of_ne (h : other ≠ name) (fields : Fields) (value : Json) :
    get (set fields name value) other = get fields other := by
  rw [set, get_cons, if_neg h, get_filter_ne h]

theorem get_put_self {fields : Fields} (h : value = none → get fields name = none) :
    get (put fields name value) name = value := by
  cases value with
  | none => exact h rfl
  | some value => exact get_set_self fields name value

theorem get_put_of_ne (h : other ≠ name) (fields : Fields) (value : Option Json) :
    get (put fields name value) other = get fields other := by
  cases value with
  | none => rfl
  | some value => exact get_set_of_ne h fields value

@[simp] theorem ofUtf8_utf8 (s : String) (lang : Lang) : ofUtf8 (utf8 s) lang = some s := by
  cases lang with
  | typescript => simp only [ofUtf8, utf8, Utf8.decodeLossy_encode, String.ofList_toList]
  | rust => simp only [ofUtf8, utf8, Utf8.decode_encode, map_some, String.ofList_toList]

theorem Lang.lawful_dialect (lang : Lang) : lang.dialect.Lawful := by
  cases lang with
  | typescript => exact Dialect.lawful_unbounded
  | rust => exact Dialect.lawful_fixed

theorem Lang.readMessage_items {M : Type} (lang : Lang) (known : ℕ → Option (Handler M))
    (hnumber : ∀ item ∈ items, item.1 < 2 ^ 29) (hfits : ∀ item ∈ items, item.2.Fits) (m : M) :
    lang.readMessage known m (encodeItems items) = items.foldlM (takeItem known) m :=
  Dialect.readMessage_items lang.lawful_dialect known hnumber hfits m

/-! ### Values -/

section

variable (rt : Runtime) (writer reader : Lang) (hasMessage : Message → Fields → Prop)

def mapFields (map : List (String × String)) : Fields :=
  map.map fun entry => (entry.1, .string entry.2)

/-- The values of the declared type. That JSON and base64 text is read as what it was written for is
part of this. An unsigned number is one that JavaScript keeps. -/
def Writer.Has (value : Json) : Writer → Prop
  | .optionalString => ∃ s, s ≠ "" ∧ value = .string s
  | .optionalNullableString => ∃ s, value = .string s
  | .optionalBool => ∃ b, value = .bool b
  | .optionalUint32 => ∃ n : ℕ, n < 2 ^ 32 ∧ value = .int n
  | .optionalUint64 => ∃ n : ℕ, n ≤ maxSafeInteger ∧ value = .int n
  | .optionalInt32 => ∃ n : ℤ, -2 ^ 31 ≤ n ∧ n < 2 ^ 31 ∧ value = .int n
  | .optionalEnum values => ∃ entry ∈ values, value = .string entry.1
  | .optionalJsonBytes => value ≠ .null ∧ rt.ofJson reader (rt.toJson writer value) = some value
  | .optionalBase64Bytes =>
    ∃ bytes, rt.ofBase64 writer (rt.toBase64 bytes) = some bytes ∧
      value = .string (rt.toBase64 bytes)
  | .stringMap =>
    ∃ map : List (String × String), (map.map Prod.fst).Nodup ∧
      (∀ entry ∈ map, entry.1 ≠ "" ∧ (writer = .typescript → entry.1 ≠ "__proto__")) ∧
      value = .object (mapFields map)
  | .optionalMessage message => ∃ fields, hasMessage message fields ∧ value = .object fields
  | .repeatedMessages message =>
    ∃ records : List Fields, (∀ fields ∈ records, hasMessage message fields) ∧
      value = .array (records.map .object)
  | .repeatedStrings => ∃ texts : List String, value = .array (texts.map .string)

end

section

variable (sameMessage : Message → Fields → Fields → Prop)

def sameObject (same : Fields → Fields → Prop) : Json → Json → Prop
  | .object fields, .object fields' => same fields fields'
  | value, value' => value' = value

/-- A list or map that is absent is the same as an empty one, and a map has its entries in any
order. -/
def Writer.Same (value value' : Option Json) : Writer → Prop
  | .stringMap => ∀ key, get (entries value') key = get (entries value) key
  | .optionalMessage message => Option.Rel (sameObject (sameMessage message)) value value'
  | .repeatedMessages message =>
    List.Forall₂ (sameObject (sameMessage message)) (elements value) (elements value')
  | .repeatedStrings => elements value' = elements value
  | _ => value' = value

theorem sameObject_refl {same : Fields → Fields → Prop} (h : ∀ fields, same fields fields)
    (value : Json) : sameObject same value value := by
  cases value with
  | object fields => exact h fields
  | _ => rfl

theorem Writer.same_refl {sameMessage : Message → Fields → Fields → Prop}
    (h : ∀ message fields, sameMessage message fields fields) (w : Writer) (value : Option Json) :
    w.Same sameMessage value value := by
  cases w with
  | stringMap => exact fun _ => rfl
  | optionalMessage message =>
    cases value with
    | none => exact Rel.none
    | some value => exact Rel.some (sameObject_refl (h message) value)
  | repeatedMessages message => exact forall₂_same.mpr fun v _ => sameObject_refl (h message) v
  | _ => rfl

end

/-! ### Tables -/

/-- The reader takes what the writer puts under a number. Messages that are nested must be among
those that are known to agree. -/
def compatible (messages : List Message) : Writer → Reader → Bool
  | .optionalString, .string => true
  | .optionalNullableString, .string => true
  | .optionalBool, .bool => true
  | .optionalUint32, .number => true
  | .optionalUint64, .number => true
  | .optionalUint64, .safeUint64 => true
  | .optionalInt32, .int32 => true
  | .optionalEnum values, .enum names default =>
    values.all fun entry =>
      values.lookup entry.1 = some entry.2 ∧ 0 < entry.2 ∧ entry.2 < 2 ^ 64 ∧
        (names.lookup entry.2).getD default = entry.1
  | .optionalJsonBytes, .json => true
  | .optionalBase64Bytes, .base64 => true
  | .stringMap, .mapEntry => true
  | .optionalMessage message, .message message' => message' = message ∧ message ∈ messages
  | .repeatedMessages message, .pushMessage message' => message' = message ∧ message ∈ messages
  | .repeatedStrings, .pushString => true
  | _, _ => false

def commonNames : List String := ["proto", "type", "id", "ts", "ext"]

/-- A field is written under a number of its own, that is not the one of a frame in JSON, and is
found there by its name. -/
def fieldAgrees (messages : List Message) (readers : List (Field Reader)) (field : Field Writer) :
    Bool :=
  field.number < 2 ^ 29 ∧ field.number ≠ 99 ∧ field.name ∉ commonNames ∧
    ((readers.find? fun r => r.number = field.number).any fun r =>
      r.name = field.name ∧ compatible messages field.kind r.kind)

def tablesAgree (messages : List Message) (writers : List (Field Writer))
    (readers : List (Field Reader)) : Bool :=
  (writers.map Field.name).Nodup ∧ writers.all (fieldAgrees messages readers)

/-! ### Carrying a value -/

section

variable {rt : Runtime} {writer reader : Lang}
  {encodeMessage : Message → Fields → Option (List UInt8)}
  {decodeMessage : Message → List UInt8 → Option Fields}
  {hasMessage : Message → Fields → Prop} {sameMessage : Message → Fields → Fields → Prop}

variable (rt writer reader encodeMessage decodeMessage sameMessage) in
/-- What is written for a value is read as the same value. -/
def Carries (value : Option Json) (w : Writer) (r : Reader) : Prop :=
  ∃ chunks, w.chunks rt writer encodeMessage value = some chunks ∧
    (∀ c ∈ chunks, c.Bounded) ∧
    ((∀ c ∈ chunks, c.Fits) → ∃ value',
      chunks.foldlM (fun current c => r.take rt reader decodeMessage current c) none = some value' ∧
        w.Same sameMessage value value')

theorem carries_none (w : Writer) (r : Reader) :
    Carries rt writer reader encodeMessage decodeMessage sameMessage none w r := by
  have hchunks : w.chunks rt writer encodeMessage none = some [] := by
    cases w with
    | stringMap => cases writer <;> rfl
    | _ => rfl
  have hsame : w.Same sameMessage none none := by
    cases w with
    | stringMap => exact fun _ => rfl
    | optionalMessage message => exact Rel.none
    | repeatedMessages message => exact Forall₂.nil
    | _ => rfl
  refine ⟨[], hchunks, fun c hc => absurd hc not_mem_nil, fun _ => ⟨none, rfl, hsame⟩⟩

variable {r : Reader} {map : List (String × String)} {message : Message} {n : ℕ}

theorem carries_one {value : Json} {w : Writer} {c : Chunk}
    (hchunks : w.chunks rt writer encodeMessage (some value) = some [c]) (hbounded : c.Bounded)
    (htake : c.Fits → ∃ value', r.take rt reader decodeMessage none c = some (some value') ∧ w.Same
      sameMessage (some value) (some value')) :
    Carries rt writer reader encodeMessage decodeMessage sameMessage (some value) w r := by
  refine ⟨[c], hchunks, forall_mem_singleton.mpr hbounded, fun hfits => ?_⟩
  obtain ⟨value', htake, hsame⟩ := htake (hfits c mem_cons_self)
  refine ⟨some value', ?_, hsame⟩
  rw [foldlM_cons, htake]
  rfl

/-! #### Maps -/

theorem map_entryText_mapFields (map : List (String × String)) :
    ((mapFields map).map fun entry => (entry.1, entryText rt writer entry.2)) = map := by
  rw [mapFields, List.map_map]
  exact map_id map

theorem stringMapField_mapFields (h : ∀ entry ∈ map, writer = .typescript → entry.1 ≠ "__proto__") :
    stringMapField rt writer (mapFields map) = map := by
  cases writer with
  | typescript =>
    have hkept : ((mapFields map).filter fun entry => entry.1 ≠ "__proto__") = mapFields map := by
      refine filter_eq_self.mpr fun field hfield => ?_
      obtain ⟨entry, hentry, rfl⟩ := mem_map.mp hfield
      exact decide_eq_true (h entry hentry rfl)
    unfold stringMapField
    simp only [hkept]
    exact map_entryText_mapFields map
  | rust => exact map_entryText_mapFields map

theorem decodeStringMapEntry_entryBytes (reader : Lang) (hkey : entry.1 ≠ "")
    (hlength : (entryBytes entry).length < 2 ^ 64) :
    decodeStringMapEntry reader (entryBytes entry) = some (some entry) := by
  have hbounded : ∀ item ∈ [(1, Chunk.bytes (utf8 entry.1)), (2, Chunk.bytes (utf8 entry.2))],
      item.2.Bounded := by
    simp [Chunk.Bounded]
  have hfits := fits_of_length hbounded hlength
  rw [decodeStringMapEntry, entryBytes, Lang.readMessage_items _ _ (by simp) hfits]
  simp [takeItem, entryField, Handler.bytes, Chunk.wire, hkey]

theorem get_mapFields_of_not_mem (h : key ∉ map.map Prod.fst) : get (mapFields map) key = none := by
  induction map with
  | nil => rfl
  | cons entry map ih =>
    rw [map_cons, mem_cons, not_or] at h
    rw [mapFields, map_cons, get_cons, if_neg h.1]
    exact ih h.2

variable (rt reader decodeMessage) in
/-- The entries that are read join those that are there. -/
theorem foldlM_mapEntry (hnodup : (map.map Prod.fst).Nodup) (hkeys : ∀ entry ∈ map, entry.1 ≠ "")
    (hfits : ∀ entry ∈ map, (entryBytes entry).length < 2 ^ 64) (current : Option Json) :
    ∃ value', (map.map fun entry => Chunk.bytes (entryBytes entry)).foldlM
        (fun current c => Reader.mapEntry.take rt reader decodeMessage current c) current
          = some value' ∧
      ∀ key, get (entries value') key
        = (get (mapFields map) key).or (get (entries current) key) := by
  induction map generalizing current with
  | nil => exact ⟨current, rfl, fun key => rfl⟩
  | cons entry map ih =>
    rw [map_cons, nodup_cons] at hnodup
    have hentry := decodeStringMapEntry_entryBytes reader
      (hkeys entry mem_cons_self) (hfits entry mem_cons_self)
    obtain ⟨value', hfold, hget⟩ := ih hnodup.2 (fun e he => hkeys e (.tail _ he))
      (fun e he => hfits e (.tail _ he))
      (some (.object (set (entries current) entry.1 (.string entry.2))))
    refine ⟨value', ?_, fun key => ?_⟩
    · rw [map_cons, foldlM_cons, Reader.take, hentry]
      exact hfold
    · rw [hget key, mapFields, mapFields, map_cons, get_cons]
      by_cases hkey : key = entry.1
      · have hnone := get_mapFields_of_not_mem hnodup.1
        rw [mapFields] at hnone
        simp [hkey, hnone, entries]
      · simp [hkey, entries, get_set_of_ne hkey]

theorem carries_map (hnodup : (map.map Prod.fst).Nodup)
    (hkeys : ∀ entry ∈ map, entry.1 ≠ "" ∧ (writer = .typescript → entry.1 ≠ "__proto__")) :
    Carries rt writer reader encodeMessage decodeMessage sameMessage
      (some (.object (mapFields map))) .stringMap .mapEntry := by
  refine ⟨map.map fun entry => .bytes (entryBytes entry), ?_, ?_, fun hfits => ?_⟩
  · rw [Writer.chunks, entries, stringMapField_mapFields fun entry h => (hkeys entry h).2]
  · intro c hc
    obtain ⟨entry, -, rfl⟩ := mem_map.mp hc
    trivial
  · obtain ⟨value', hfold, hget⟩ := foldlM_mapEntry rt reader decodeMessage hnodup
      (fun entry h => (hkeys entry h).1) (fun entry h => hfits _ (mem_map_of_mem h)) none
    refine ⟨value', hfold, fun key => ?_⟩
    rw [hget key]
    exact or_none

/-! #### Lists -/

variable (rt reader decodeMessage) in
theorem foldlM_pushString (texts : List String) (current : Option Json) :
    ∃ value', (texts.map fun s => Chunk.bytes (utf8 s)).foldlM
        (fun current c => Reader.pushString.take rt reader decodeMessage current c) current
          = some value' ∧
      elements value' = elements current ++ texts.map .string := by
  induction texts generalizing current with
  | nil => exact ⟨current, rfl, (append_nil _).symm⟩
  | cons s texts ih =>
    obtain ⟨value', hfold, hvalue⟩ := ih (some (.array (elements current ++ [.string s])))
    refine ⟨value', ?_, ?_⟩
    · rw [map_cons, foldlM_cons, Reader.take, ofUtf8_utf8]
      exact hfold
    · rw [hvalue, elements, append_assoc]
      rfl

theorem carries_strings (texts : List String) :
    Carries rt writer reader encodeMessage decodeMessage sameMessage
      (some (.array (texts.map .string))) .repeatedStrings .pushString := by
  refine ⟨texts.map fun s => .bytes (utf8 s), ?_, ?_, fun _ => ?_⟩
  · rw [Writer.chunks, elements, filterMap_map]
    exact congrArg some (filterMap_eq_map (f := fun s => Chunk.bytes (utf8 s)) ▸ rfl)
  · intro c hc
    obtain ⟨s, -, rfl⟩ := mem_map.mp hc
    trivial
  · exact foldlM_pushString rt reader decodeMessage texts none

/-- What is read of a nested message is the same as what was written. -/
def MessageCarries (encodeMessage : Message → Fields → Option (List UInt8))
    (decodeMessage : Message → List UInt8 → Option Fields)
    (hasMessage : Message → Fields → Prop) (sameMessage : Message → Fields → Fields → Prop)
    (message : Message) : Prop :=
  ∀ fields, hasMessage message fields → ∃ bytes, encodeMessage message fields = some bytes ∧
    (bytes.length < 2 ^ 64 → ∃ fields', decodeMessage message bytes = some fields' ∧
      sameMessage message fields fields')

theorem carries_message
    (h : MessageCarries encodeMessage decodeMessage hasMessage sameMessage message)
    {fields : Fields} (hhas : hasMessage message fields) :
    Carries rt writer reader encodeMessage decodeMessage sameMessage (some (.object fields))
      (.optionalMessage message) (.message message) := by
  obtain ⟨bytes, hencode, hdecode⟩ := h fields hhas
  have hchunks : (Writer.optionalMessage message).chunks rt writer encodeMessage
      (some (.object fields)) = some [.bytes bytes] := by
    rw [Writer.chunks, hencode]
    rfl
  refine carries_one hchunks trivial fun hfits => ?_
  obtain ⟨fields', hfields', hsame⟩ := hdecode hfits
  refine ⟨.object fields', ?_, Rel.some hsame⟩
  rw [Reader.take, hfields']
  rfl

variable (rt reader) in
theorem foldlM_pushMessage
    (h : MessageCarries encodeMessage decodeMessage hasMessage sameMessage message)
    {records : List Fields} (hhas : ∀ fields ∈ records, hasMessage message fields) :
    ∃ chunks, ((records.map Json.object).mapM fun value =>
        (encodeMessage message (asFields value)).map Chunk.bytes) = some chunks ∧
      (∀ c ∈ chunks, c.Bounded) ∧
      ((∀ c ∈ chunks, c.Fits) → ∀ current, ∃ value', chunks.foldlM
          (fun current c => (Reader.pushMessage message).take rt reader decodeMessage current c)
          current = some value' ∧
        ∃ values, elements value' = elements current ++ values ∧
          Forall₂ (sameObject (sameMessage message)) (records.map Json.object) values) := by
  induction records with
  | nil =>
    refine ⟨[], rfl, fun c hc => absurd hc not_mem_nil, fun _ current => ?_⟩
    exact ⟨current, rfl, [], (append_nil _).symm, Forall₂.nil⟩
  | cons fields records ih =>
    obtain ⟨chunks, hchunks, hbounded, hfold⟩ := ih fun f hf => hhas f (.tail _ hf)
    obtain ⟨bytes, hencode, hdecode⟩ := h fields (hhas fields mem_cons_self)
    refine ⟨.bytes bytes :: chunks, ?_, forall_mem_cons.mpr ⟨trivial, hbounded⟩,
      fun hfits current => ?_⟩
    · rw [map_cons, mapM_cons, asFields, hencode, hchunks]
      rfl
    · obtain ⟨hfirst, hrest⟩ := forall_mem_cons.mp hfits
      obtain ⟨fields', hfields', hsame⟩ := hdecode hfirst
      obtain ⟨value', hvalue', values, hvalues, hall⟩ := hfold hrest
        (some (.array (elements current ++ [.object fields'])))
      refine ⟨value', ?_, .object fields' :: values, ?_, Forall₂.cons hsame hall⟩
      · rw [foldlM_cons, Reader.take, hfields']
        exact hvalue'
      · rw [hvalues, elements, append_assoc]
        rfl

theorem carries_messages
    (h : MessageCarries encodeMessage decodeMessage hasMessage sameMessage message)
    {records : List Fields} (hhas : ∀ fields ∈ records, hasMessage message fields) :
    Carries rt writer reader encodeMessage decodeMessage sameMessage
      (some (.array (records.map .object))) (.repeatedMessages message) (.pushMessage message) := by
  obtain ⟨chunks, hchunks, hbounded, hfold⟩ :=
    foldlM_pushMessage rt reader h hhas
  refine ⟨chunks, hchunks, hbounded, fun hfits => ?_⟩
  obtain ⟨value', hvalue', values, hvalues, hall⟩ := hfold hfits none
  refine ⟨value', hvalue', ?_⟩
  rw [Writer.Same, hvalues]
  exact hall

/-! #### Texts and numbers -/

theorem asUint64_natCast (h : n < 2 ^ 64) : asUint64 n = n := by
  rw [asUint64, Int.emod_eq_of_lt (by omega) (by exact_mod_cast h)]
  exact Int.toNat_natCast n

theorem asInt32_asUint64 {n : ℤ} (hlow : -2 ^ 31 ≤ n) (hhigh : n < 2 ^ 31) :
    asInt32 (asUint64 n) = n := by
  rw [asInt32, asUint64]
  split_ifs <;> omega

theorem asUint64_lt (n : ℤ) : asUint64 n < 2 ^ 64 := by
  rw [asUint64]
  omega

theorem uint32Chunks_natCast (h : n < 2 ^ 32) : uint32Chunks writer n = [.varint n] := by
  cases writer with
  | typescript => rw [uint32Chunks, if_pos (by omega), asUint64_natCast (by omega)]
  | rust => rw [uint32Chunks, if_pos ⟨by omega, by exact_mod_cast h⟩, Int.toNat_natCast]

theorem uint64Chunks_natCast (h : n ≤ maxSafeInteger) :
    uint64Chunks writer n = some [.varint n] := by
  cases writer with
  | typescript =>
    rw [uint64Chunks, if_pos (by omega), if_pos (by exact_mod_cast h), Int.toNat_natCast]
  | rust =>
    have hlt : (n : ℤ) < 2 ^ 64 := by
      rw [maxSafeInteger] at h
      omega
    rw [uint64Chunks, if_pos ⟨by omega, hlt⟩, Int.toNat_natCast]

theorem carries_string (h : s ≠ "") :
    Carries rt writer reader encodeMessage decodeMessage sameMessage (some (.string s))
      .optionalString .string := by
  have hchunks : Writer.optionalString.chunks rt writer encodeMessage (some (.string s))
      = some [.bytes (utf8 s)] := by
    simp [Writer.chunks, asString, Option.filter, h]
  refine carries_one hchunks trivial fun _ => ⟨.string s, ?_, rfl⟩
  rw [Reader.take, ofUtf8_utf8]
  rfl

theorem carries_nullableString (s : String) :
    Carries rt writer reader encodeMessage decodeMessage sameMessage (some (.string s))
      .optionalNullableString .string := by
  refine carries_one (c := .bytes (utf8 s)) rfl trivial fun _ => ⟨.string s, ?_, rfl⟩
  rw [Reader.take, ofUtf8_utf8]
  rfl

theorem carries_bool (b : Bool) :
    Carries rt writer reader encodeMessage decodeMessage sameMessage (some (.bool b))
      .optionalBool .bool := by
  have hbounded : (Chunk.varint (if b then 1 else 0)).Bounded := by
    cases b <;> simp [Chunk.Bounded]
  refine carries_one rfl hbounded fun _ => ⟨.bool b, ?_, rfl⟩
  cases b <;> rfl

theorem carries_uint32 (h : n < 2 ^ 32) :
    Carries rt writer reader encodeMessage decodeMessage sameMessage (some (.int n))
      .optionalUint32 .number := by
  have hchunks : Writer.optionalUint32.chunks rt writer encodeMessage (some (.int n))
      = some [.varint n] :=
    congrArg some (uint32Chunks_natCast h)
  exact carries_one hchunks (h.trans (by decide)) fun _ => ⟨.int n, rfl, rfl⟩

theorem bounded_of_le (h : n ≤ maxSafeInteger) : (Chunk.varint n).Bounded :=
  lt_of_le_of_lt h (by decide)

theorem carries_uint64 (h : n ≤ maxSafeInteger) :
    Carries rt writer reader encodeMessage decodeMessage sameMessage (some (.int n))
      .optionalUint64 .number :=
  carries_one (uint64Chunks_natCast h) (bounded_of_le h) fun _ => ⟨.int n, rfl, rfl⟩

theorem carries_safeUint64 (h : n ≤ maxSafeInteger) :
    Carries rt writer reader encodeMessage decodeMessage sameMessage (some (.int n))
      .optionalUint64 .safeUint64 := by
  refine carries_one (uint64Chunks_natCast h) (bounded_of_le h) fun _ => ⟨.int n, ?_, rfl⟩
  rw [Reader.take, if_pos h]

theorem carries_int32 {n : ℤ} (hlow : -2 ^ 31 ≤ n) (hhigh : n < 2 ^ 31) :
    Carries rt writer reader encodeMessage decodeMessage sameMessage (some (.int n))
      .optionalInt32 .int32 := by
  refine carries_one (c := .varint (asUint64 n)) rfl (asUint64_lt n) fun _ => ⟨.int n, ?_, rfl⟩
  rw [Reader.take, asInt32_asUint64 hlow hhigh]

theorem carries_enum {default : String} {entry : String × ℕ}
    (hlookup : values.lookup entry.1 = some entry.2) (hpos : 0 < entry.2) (hlt : entry.2 < 2 ^ 64)
    (hname : (names.lookup entry.2).getD default = entry.1) :
    Carries rt writer reader encodeMessage decodeMessage sameMessage (some (.string entry.1))
      (.optionalEnum values) (.enum names default) := by
  have hchunks : (Writer.optionalEnum values).chunks rt writer encodeMessage
      (some (.string entry.1)) = some [.varint entry.2] := by
    simp [Writer.chunks, asString, hlookup, hpos]
  refine carries_one hchunks hlt fun _ => ⟨.string entry.1, ?_, rfl⟩
  rw [Reader.take, hname]

theorem carries_json (hnull : value ≠ .null)
    (h : rt.ofJson reader (rt.toJson writer value) = some value) :
    Carries rt writer reader encodeMessage decodeMessage sameMessage (some value)
      .optionalJsonBytes .json := by
  have hchunks : Writer.optionalJsonBytes.chunks rt writer encodeMessage (some value)
      = some [.bytes (utf8 (rt.toJson writer value))] := by
    cases value with
    | null => exact absurd rfl hnull
    | _ => rfl
  refine carries_one hchunks trivial fun _ => ⟨value, ?_, rfl⟩
  rw [Reader.take, ofUtf8_utf8, bind_some, h]
  rfl

theorem carries_base64 (h : rt.ofBase64 writer (rt.toBase64 bytes) = some bytes) :
    Carries rt writer reader encodeMessage decodeMessage sameMessage
      (some (.string (rt.toBase64 bytes))) .optionalBase64Bytes .base64 := by
  have hchunks : Writer.optionalBase64Bytes.chunks rt writer encodeMessage
      (some (.string (rt.toBase64 bytes))) = some [.bytes bytes] := by
    rw [Writer.chunks, asString, elim_some, h]
    rfl
  exact carries_one hchunks trivial fun _ => ⟨.string (rt.toBase64 bytes), rfl, rfl⟩

/-- **A value of the declared type is read back** by a reader that is compatible. -/
theorem carries_of_compatible {messages : List Message}
    (hmessages : ∀ message ∈ messages, MessageCarries encodeMessage decodeMessage hasMessage
      sameMessage message) {w : Writer} (hcompatible : compatible messages w r = true)
    (hhas : ∀ v, value = some v → w.Has rt writer reader hasMessage v) :
    Carries rt writer reader encodeMessage decodeMessage sameMessage value w r := by
  cases value with
  | none => exact carries_none w r
  | some value =>
    have hhas := hhas value rfl
    revert hhas hcompatible
    fun_cases compatible messages w r with
    | case1 =>
      rintro - ⟨s, hs, rfl⟩
      exact carries_string hs
    | case2 =>
      rintro - ⟨s, rfl⟩
      exact carries_nullableString s
    | case3 =>
      rintro - ⟨b, rfl⟩
      exact carries_bool b
    | case4 =>
      rintro - ⟨n, hn, rfl⟩
      exact carries_uint32 hn
    | case5 =>
      rintro - ⟨n, hn, rfl⟩
      exact carries_uint64 hn
    | case6 =>
      rintro - ⟨n, hn, rfl⟩
      exact carries_safeUint64 hn
    | case7 =>
      rintro - ⟨n, hlow, hhigh, rfl⟩
      exact carries_int32 hlow hhigh
    | case8 values names default =>
      rintro hall ⟨entry, hentry, rfl⟩
      have h := of_decide_eq_true (List.all_eq_true.mp hall entry hentry)
      exact carries_enum h.1 h.2.1 h.2.2.1 h.2.2.2
    | case9 =>
      rintro - ⟨hnull, h⟩
      exact carries_json hnull h
    | case10 =>
      rintro - ⟨bytes, h, rfl⟩
      exact carries_base64 h
    | case11 =>
      rintro - ⟨map, hnodup, hkeys, rfl⟩
      exact carries_map hnodup hkeys
    | case12 message message' =>
      rintro h ⟨fields, hfields, rfl⟩
      obtain ⟨rfl, hmem⟩ := of_decide_eq_true h
      exact carries_message (hmessages _ hmem) hfields
    | case13 message message' =>
      rintro h ⟨records, hrecords, rfl⟩
      obtain ⟨rfl, hmem⟩ := of_decide_eq_true h
      exact carries_messages (hmessages _ hmem) hrecords
    | case14 =>
      rintro - ⟨texts, rfl⟩
      exact carries_strings texts
    | case15 => exact fun h => absurd h Bool.false_ne_true

/-! ### Carrying an object -/

theorem take_of_wire_ne (h : c.wire ≠ r.wire) (current : Option Json) :
    r.take rt reader decodeMessage current c = none := by
  cases r <;> cases c <;> first | rfl | exact absurd rfl h

theorem eq_none_of_take_eq_none (h : r.take rt reader decodeMessage current c = some none) :
    current = none := by
  cases r with
  | mapEntry =>
    cases c with
    | varint value => cases h
    | bytes bytes =>
      obtain ⟨entry, -, hmerge⟩ := map_eq_some_iff.mp h
      cases entry with
      | some entry => cases hmerge
      | none =>
        cases reader with
        | typescript => cases hmerge
        | rust => exact hmerge
  | json =>
    cases c with
    | varint value => cases h
    | bytes bytes =>
      obtain ⟨value, -, hvalue⟩ := map_eq_some_iff.mp h
      cases hvalue
  | _ => cases c <;> simp [Reader.take] at h

variable {readers : List (Field Reader)} {number : ℕ} {r : Field Reader}

theorem takeItem_tableField (hfind : (readers.find? fun r => r.number = number) = some r)
    (m : Fields) (c : Chunk) :
    takeItem (tableField rt reader decodeMessage readers) m (number, c)
      = (r.kind.take rt reader decodeMessage (get m r.name) c).map (put m r.name) := by
  simp only [takeItem, tableField, hfind, map_some]
  split_ifs with hwire
  · rfl
  · rw [take_of_wire_ne hwire]
    rfl

/-- The chunks of a field change that field as they are taken, and no other. -/
theorem foldlM_tableField (hfind : (readers.find? fun r => r.number = number) = some r)
    {chunks : List Chunk}
    (h : chunks.foldlM (fun current c => r.kind.take rt reader decodeMessage current c) (get m
      r.name) = some value') :
    ∃ out, (chunks.map fun c => (number, c)).foldlM
        (takeItem (tableField rt reader decodeMessage readers)) m = some out ∧
      get out r.name = value' ∧ ∀ other, other ≠ r.name → get out other = get m other := by
  induction chunks generalizing m with
  | nil =>
    cases h
    exact ⟨m, rfl, rfl, fun _ _ => rfl⟩
  | cons c chunks ih =>
    rw [foldlM_cons] at h
    obtain ⟨value, hvalue, hrest⟩ := bind_eq_some_iff.mp h
    have hput : get (put m r.name value) r.name = value := by
      refine get_put_self fun hnone => ?_
      rw [hnone] at hvalue
      exact eq_none_of_take_eq_none hvalue
    obtain ⟨out, hout, hget, hother⟩ := ih (hput.symm ▸ hrest)
    refine ⟨out, ?_, hget, fun other hne => ?_⟩
    · rw [map_cons, foldlM_cons, takeItem_tableField hfind, hvalue]
      exact hout
    · rw [hother other hne, get_put_of_ne hne]

variable {messages : List Message} {writers : List (Field Writer)} {fields : Fields}

/-- **Tables that agree carry an object.** The fields of the object are written; read into another
one they are there as they were, and what has another name is as before. -/
theorem takeItems_of_tablesAgree (hmessages : ∀ message ∈ messages,
      MessageCarries encodeMessage decodeMessage hasMessage sameMessage message)
    (hnames : (writers.map Field.name).Nodup)
    (hagrees : ∀ field ∈ writers, fieldAgrees messages readers field = true)
    (hhas : ∀ field ∈ writers, ∀ v, get fields field.name = some v →
      field.kind.Has rt writer reader hasMessage v) :
    ∃ items, recordItems rt writer encodeMessage writers fields = some items ∧
      (∀ item ∈ items, item.1 < 2 ^ 29 ∧ item.1 ≠ 99 ∧ item.2.Bounded) ∧
      ((∀ item ∈ items, item.2.Fits) → ∀ m, (∀ field ∈ writers, get m field.name = none) →
        ∃ out, items.foldlM (takeItem (tableField rt reader decodeMessage readers)) m = some out ∧
          (∀ field ∈ writers,
            field.kind.Same sameMessage (get fields field.name) (get out field.name)) ∧
          ∀ name, (∀ field ∈ writers, field.name ≠ name) → get out name = get m name) := by
  induction writers with
  | nil =>
    refine ⟨[], rfl, fun item hitem => absurd hitem not_mem_nil, fun _ m _ => ?_⟩
    exact ⟨m, rfl, fun field hfield => absurd hfield not_mem_nil, fun _ _ => rfl⟩
  | cons field writers ih =>
    rw [map_cons, nodup_cons] at hnames
    obtain ⟨hagree, hagrees⟩ := forall_mem_cons.mp hagrees
    obtain ⟨hhasField, hhas⟩ := forall_mem_cons.mp hhas
    obtain ⟨hnumber, hjson, -, hreader⟩ := of_decide_eq_true hagree
    obtain ⟨r, hfind, hr⟩ := (Option.any_eq_true _ _).mp hreader
    obtain ⟨hname, hcompatible⟩ := of_decide_eq_true hr
    obtain ⟨chunks, hchunks, hbounded, hcarried⟩ :=
      carries_of_compatible hmessages hcompatible hhasField
    obtain ⟨items, hitems, hall, hread⟩ := ih hnames.2 hagrees hhas
    obtain ⟨parts, hparts, rfl⟩ := map_eq_some_iff.mp hitems
    refine ⟨(chunks.map fun c => (field.number, c)) ++ parts.flatten, ?_, ?_, fun hfits m hm => ?_⟩
    · rw [recordItems, mapM_cons, fieldItems, hchunks, hparts]
      rfl
    · refine forall_mem_append.mpr ⟨fun item hitem => ?_, hall⟩
      obtain ⟨c, hc, rfl⟩ := mem_map.mp hitem
      exact ⟨hnumber, hjson, hbounded c hc⟩
    · obtain ⟨hfitsField, hfitsRest⟩ := forall_mem_append.mp hfits
      obtain ⟨hmField, hmRest⟩ := forall_mem_cons.mp hm
      obtain ⟨value', hvalue', hsame⟩ := hcarried fun c hc => hfitsField _ (mem_map_of_mem hc)
      rw [← hmField, ← hname] at hvalue'
      obtain ⟨m', hm', hget, hother⟩ := foldlM_tableField hfind hvalue'
      rw [hname] at hget hother
      have hfree : ∀ other ∈ writers, other.name ≠ field.name := fun other hmem heq =>
        hnames.1 (heq ▸ mem_map_of_mem hmem)
      obtain ⟨out, hout, hsames, hothers⟩ := hread hfitsRest m' fun other hmem => by
        rw [hother other.name (hfree other hmem), hmRest other hmem]
      refine ⟨out, ?_, forall_mem_cons.mpr ⟨?_, hsames⟩, fun name hne => ?_⟩
      · rw [foldlM_append, hm']
        exact hout
      · rw [hothers field.name hfree, hget]
        exact hsame
      · obtain ⟨hneField, hneRest⟩ := forall_mem_cons.mp hne
        rw [hothers name hneRest, hother name hneField.symm]

end

end Bud.Wire
