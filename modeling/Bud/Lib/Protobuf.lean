import Mathlib.Data.List.Basic
import Mathlib.Data.Nat.Bitwise
import Mathlib.Tactic.NormNum
import Mathlib.Tactic.Ring

/-!
# The protobuf wire format

Varints, tags and length-delimited fields, with a writer and a reader that takes a message's fields
one after the other. What a message does with a field is a parameter, so a message type is the
function that handles its fields.

`Reads onField m bs r` says that reading `bs` into `m` gives `r`; the rules below read one written
field off the front, so a message that was written field by field is read back field by field.

Readers differ in the width they give to numbers and in how they skip what they do not know. A
`Dialect` is such a reader; the functions outside of it are those of `Dialect.fixed`. A `Chunk` is
what one write puts under a field number, and a `Handler` what a message does with it.
-/

namespace Protobuf

open List

def wireVarint : ℕ := 0

def wire64Bit : ℕ := 1

def wireLengthDelimited : ℕ := 2

def wire32Bit : ℕ := 5

/-! ### Writing -/

/-- At most `fuel` groups of seven bits, the lowest first. -/
def varintGroups : ℕ → ℕ → List UInt8
  | 0, _ => []
  | fuel + 1, n =>
    if n / 128 = 0 then [UInt8.ofNat (n % 128)]
    else UInt8.ofNat (n % 128 + 128) :: varintGroups fuel (n / 128)

/-- The value as an unsigned 64-bit number, in at most ten bytes. -/
def encodeVarint (n : ℕ) : List UInt8 := varintGroups 10 (n % 2 ^ 64)

def tag (field wire : ℕ) : ℕ := field <<< 3 ||| wire

def writeVarintField (field value : ℕ) : List UInt8 :=
  encodeVarint (tag field wireVarint) ++ encodeVarint value

def writeBytes (field : ℕ) (value : List UInt8) : List UInt8 :=
  encodeVarint (tag field wireLengthDelimited) ++ encodeVarint value.length ++ value

/-! ### Reading -/

/-- The loop of `read_varint`, with the bits read so far and the next shift. -/
def readVarintFrom : ℕ → ℕ → List UInt8 → Option (ℕ × List UInt8)
  | _, _, [] => none
  | result, shift, b :: bs =>
    let result := result ||| ((b.toNat % 128) <<< shift) % 2 ^ 64
    if b.toNat < 128 then some (result, bs)
    else if 63 < shift + 7 then none
    else readVarintFrom result (shift + 7) bs

def readVarint (bs : List UInt8) : Option (ℕ × List UInt8) := readVarintFrom 0 0 bs

/-- Field number and wire type. -/
def readTag (bs : List UInt8) : Option (ℕ × ℕ × List UInt8) :=
  (readVarint bs).map fun (t, bs) => ((t >>> 3) % 2 ^ 32, t % 8, bs)

def readVarintForWireType (wire : ℕ) (bs : List UInt8) : Option (ℕ × List UInt8) :=
  if wire = wireVarint then readVarint bs else none

def readBytesForWireType (wire : ℕ) (bs : List UInt8) : Option (List UInt8 × List UInt8) :=
  if wire = wireLengthDelimited then
    (readVarint bs).bind fun (length, bs) =>
      if length ≤ bs.length then some (bs.take length, bs.drop length) else none
  else none

def skipBytes (n : ℕ) (bs : List UInt8) : Option (List UInt8) :=
  if n ≤ bs.length then some (bs.drop n) else none

def skip (wire : ℕ) (bs : List UInt8) : Option (List UInt8) :=
  if wire = wireVarint then (readVarint bs).map Prod.snd
  else if wire = wire64Bit then skipBytes 8 bs
  else if wire = wireLengthDelimited then
    (readVarint bs).bind fun (length, bs) => skipBytes length bs
  else if wire = wire32Bit then skipBytes 4 bs
  else none

variable {M : Type*}

/-- Read fields until the bytes are used up; `onField` gets the message so far, the field's number
and wire type, and the bytes after its tag. A tag takes at least one byte, so as many fields as
there are bytes are enough. -/
def readFields (onField : M → ℕ → ℕ → List UInt8 → Option (M × List UInt8)) :
    ℕ → M → List UInt8 → Option M
  | _, m, [] => some m
  | 0, _, _ :: _ => none
  | fuel + 1, m, b :: bs =>
    (readTag (b :: bs)).bind fun (field, wire, rest) =>
      (onField m field wire rest).bind fun (m, rest) => readFields onField fuel m rest

def readMessage (onField : M → ℕ → ℕ → List UInt8 → Option (M × List UInt8)) (m : M)
    (bs : List UInt8) : Option M :=
  readFields onField bs.length m bs

/-! ### Dialects -/

/-- How a reader keeps numbers, and how it skips a field of fixed size. -/
structure Dialect where
  /-- What is kept of the bits that one byte adds to a varint. -/
  keep : ℕ → ℕ
  fieldNumber : ℕ → ℕ
  skipFixed : ℕ → List UInt8 → Option (List UInt8)

namespace Dialect

/-- Varints have 64 bits and field numbers 32, and nothing is skipped that is not there. -/
def fixed : Dialect :=
  { keep := fun n => n % 2 ^ 64
    fieldNumber := fun n => n % 2 ^ 32
    skipFixed := skipBytes }

/-- Numbers have any size, and to skip past the end is to be at the end. -/
def unbounded : Dialect :=
  { keep := fun n => n
    fieldNumber := fun n => n
    skipFixed := fun n bs => some (bs.drop n) }

variable (d : Dialect)

def readVarintFrom : ℕ → ℕ → List UInt8 → Option (ℕ × List UInt8)
  | _, _, [] => none
  | result, shift, b :: bs =>
    let result := result ||| d.keep ((b.toNat % 128) <<< shift)
    if b.toNat < 128 then some (result, bs)
    else if 63 < shift + 7 then none
    else readVarintFrom result (shift + 7) bs

def readVarint (bs : List UInt8) : Option (ℕ × List UInt8) := d.readVarintFrom 0 0 bs

def readTag (bs : List UInt8) : Option (ℕ × ℕ × List UInt8) :=
  (d.readVarint bs).map fun (t, bs) => (d.fieldNumber (t >>> 3), t % 8, bs)

def readVarintForWireType (wire : ℕ) (bs : List UInt8) : Option (ℕ × List UInt8) :=
  if wire = wireVarint then d.readVarint bs else none

def readBytesForWireType (wire : ℕ) (bs : List UInt8) : Option (List UInt8 × List UInt8) :=
  if wire = wireLengthDelimited then
    (d.readVarint bs).bind fun (length, bs) =>
      if length ≤ bs.length then some (bs.take length, bs.drop length) else none
  else none

def skip (wire : ℕ) (bs : List UInt8) : Option (List UInt8) :=
  if wire = wireVarint then (d.readVarint bs).map Prod.snd
  else if wire = wire64Bit then d.skipFixed 8 bs
  else if wire = wireLengthDelimited then
    (d.readVarint bs).bind fun (length, bs) => skipBytes length bs
  else if wire = wire32Bit then d.skipFixed 4 bs
  else none

def readFields (onField : M → ℕ → ℕ → List UInt8 → Option (M × List UInt8)) :
    ℕ → M → List UInt8 → Option M
  | _, m, [] => some m
  | 0, _, _ :: _ => none
  | fuel + 1, m, b :: bs =>
    (d.readTag (b :: bs)).bind fun (field, wire, rest) =>
      (onField m field wire rest).bind fun (m, rest) => readFields onField fuel m rest

def readMessage (onField : M → ℕ → ℕ → List UInt8 → Option (M × List UInt8)) (m : M)
    (bs : List UInt8) : Option M :=
  d.readFields onField bs.length m bs

/-- The reader takes what fits its numbers as it is. -/
structure Lawful : Prop where
  keep_of_lt : ∀ {n : ℕ}, n < 2 ^ 64 → d.keep n = n
  fieldNumber_of_lt : ∀ {n : ℕ}, n < 2 ^ 29 → d.fieldNumber n = n

theorem lawful_fixed : fixed.Lawful :=
  ⟨fun h => Nat.mod_eq_of_lt h, fun h => Nat.mod_eq_of_lt (h.trans (by decide))⟩

theorem lawful_unbounded : unbounded.Lawful := ⟨fun _ => rfl, fun _ => rfl⟩

end Dialect

/-! ### Reading inverts writing -/

theorem or_shiftLeft {result n shift : ℕ} (h : result < 2 ^ shift) :
    result ||| n <<< shift = result + n * 2 ^ shift := by
  rw [Nat.shiftLeft_eq, Nat.or_comm, Nat.mul_comm, ← Nat.two_pow_add_eq_or_of_lt h, Nat.add_comm]

theorem Dialect.readVarintFrom_varintGroups {d : Dialect} (hd : d.Lawful) (rest : List UInt8) :
    ∀ (fuel n result shift : ℕ),
    n < 128 ^ fuel → 0 < fuel → n * 2 ^ shift < 2 ^ 64 → result < 2 ^ shift →
    d.readVarintFrom result shift (varintGroups fuel n ++ rest)
      = some (result + n * 2 ^ shift, rest) := by
  intro fuel
  induction fuel with
  | zero =>
    intro n result shift _ hpos
    omega
  | succ fuel ih =>
    intro n result shift hn _ hfits hresult
    have hpow : 0 < 2 ^ shift := Nat.two_pow_pos shift
    have hsplit : n % 128 * 2 ^ shift + n / 128 * (128 * 2 ^ shift) = n * 2 ^ shift := by
      calc n % 128 * 2 ^ shift + n / 128 * (128 * 2 ^ shift)
          = (n % 128 + 128 * (n / 128)) * 2 ^ shift := by ring
        _ = n * 2 ^ shift := by rw [Nat.mod_add_div]
    rw [varintGroups]
    by_cases hlast : n / 128 = 0
    · have hmod : n % 128 = n := Nat.mod_eq_of_lt (by omega)
      rw [if_pos hlast, hmod, singleton_append, Dialect.readVarintFrom,
        UInt8.toNat_ofNat_of_lt' (show n < 256 by omega), if_pos (by omega), hmod,
        hd.keep_of_lt (by rw [Nat.shiftLeft_eq]; exact hfits), or_shiftLeft hresult]
    · have hmod : (n % 128 + 128) % 128 = n % 128 := by omega
      have hone : 128 * 2 ^ shift ≤ n * 2 ^ shift := Nat.mul_le_mul_right _ (by omega)
      have hshift : shift + 7 < 64 := by
        refine (Nat.pow_lt_pow_iff_right (show 1 < 2 by omega)).mp ?_
        rw [Nat.pow_add]
        omega
      rw [if_neg hlast, cons_append, Dialect.readVarintFrom,
        UInt8.toNat_ofNat_of_lt' (show n % 128 + 128 < 256 by omega), if_neg (by omega),
        if_neg (by omega), hmod, hd.keep_of_lt (by rw [Nat.shiftLeft_eq]; omega),
        or_shiftLeft hresult]
      have hpow7 : 2 ^ (shift + 7) = 128 * 2 ^ shift := by rw [Nat.pow_add, Nat.mul_comm]
      have hfuel : 0 < fuel := by
        rcases Nat.eq_zero_or_pos fuel with rfl | h
        · simp at hn
          omega
        · exact h
      have hdiv : n / 128 < 128 ^ fuel := by
        rw [Nat.div_lt_iff_lt_mul (by omega), ← Nat.pow_succ]
        exact hn
      have hlow : n % 128 * 2 ^ shift ≤ 127 * 2 ^ shift := Nat.mul_le_mul_right _ (by omega)
      rw [ih (n / 128) (result + n % 128 * 2 ^ shift) (shift + 7) hdiv hfuel
        (by rw [hpow7]; omega) (by rw [hpow7]; omega), hpow7]
      congr 2
      omega

variable {field : ℕ} {value bs rest : List UInt8} {m : M} {r : Option M} {items : List (ℕ × Chunk)}

theorem tag_eq {wire : ℕ} (hwire : wire < 8) : tag field wire = wire + field * 8 := by
  rw [tag, Nat.or_comm, or_shiftLeft (show wire < 2 ^ 3 from hwire)]
  rfl

theorem encodeVarint_ne_nil (n : ℕ) : encodeVarint n ≠ [] := by
  rw [encodeVarint, varintGroups]
  split_ifs <;> simp

namespace Dialect

variable {d : Dialect}

theorem readVarint_encodeVarint (hd : d.Lawful) {n : ℕ} (h : n < 2 ^ 64) (rest : List UInt8) :
    d.readVarint (encodeVarint n ++ rest) = some (n, rest) := by
  rw [readVarint, encodeVarint, Nat.mod_eq_of_lt h,
    readVarintFrom_varintGroups hd rest 10 n 0 0 (Nat.lt_trans h (by norm_num)) (by omega)
      (by omega) (by omega)]
  simp

theorem readTag_tag (hd : d.Lawful) {wire : ℕ} (hfield : field < 2 ^ 29) (hwire : wire < 8)
    (rest : List UInt8) :
    d.readTag (encodeVarint (tag field wire) ++ rest) = some (field, wire, rest) := by
  have hdiv : (wire + field * 8) >>> 3 = field := by
    rw [Nat.shiftRight_eq_div_pow]
    omega
  have hmod : (wire + field * 8) % 8 = wire := by omega
  rw [readTag, tag_eq hwire, readVarint_encodeVarint hd (by omega), Option.map_some]
  simp only [hdiv, hmod, hd.fieldNumber_of_lt hfield]

theorem readBytes_encode (hd : d.Lawful) (h : value.length < 2 ^ 64) (rest : List UInt8) :
    d.readBytesForWireType wireLengthDelimited (encodeVarint value.length ++ value ++ rest)
      = some (value, rest) := by
  rw [readBytesForWireType, if_pos rfl, append_assoc, readVarint_encodeVarint hd h,
    Option.bind_some]
  simp only [length_append, Nat.le_add_right, if_true, take_left, drop_left]

variable {onField : M → ℕ → ℕ → List UInt8 → Option (M × List UInt8)}

variable (d onField) in
/-- Reading `bs` into `m` gives `r`, with any fuel that is enough. -/
def Reads (m : M) (bs : List UInt8) (r : Option M) : Prop :=
  ∀ fuel, bs.length ≤ fuel → d.readFields onField fuel m bs = r

theorem Reads.readMessage_eq (h : d.Reads onField m bs r) : d.readMessage onField m bs = r :=
  h bs.length (Nat.le_refl _)

theorem reads_nil (m : M) : d.Reads onField m [] (some m) := by
  intro fuel _
  cases fuel <;> rfl

theorem readFields_tag (hd : d.Lawful) {wire : ℕ} (hfield : field < 2 ^ 29) (hwire : wire < 8)
    (fuel : ℕ) (m : M) (bs : List UInt8) :
    d.readFields onField (fuel + 1) m (encodeVarint (tag field wire) ++ bs)
      = (onField m field wire bs).bind fun (m, rest) => d.readFields onField fuel m rest := by
  have hread := readTag_tag hd hfield hwire bs
  cases htag : encodeVarint (tag field wire) with
  | nil => exact absurd htag (encodeVarint_ne_nil _)
  | cons b tail =>
    rw [htag, cons_append] at hread
    rw [cons_append, readFields, hread]
    rfl

theorem reads_field (hd : d.Lawful) {m' : M} {wire : ℕ} {body : List UInt8}
    (hfield : field < 2 ^ 29) (hwire : wire < 8)
    (hon : onField m field wire (body ++ rest) = some (m', rest)) (h : d.Reads onField m' rest r) :
    d.Reads onField m (encodeVarint (tag field wire) ++ body ++ rest) r := by
  intro fuel hfuel
  have hpos := length_pos_iff.mpr (encodeVarint_ne_nil (tag field wire))
  rw [length_append, length_append] at hfuel
  obtain ⟨fuel, rfl⟩ : ∃ k, fuel = k + 1 := ⟨fuel - 1, by omega⟩
  rw [append_assoc, readFields_tag hd hfield hwire, hon]
  exact h fuel (by omega)

theorem reads_error (hd : d.Lawful) {wire : ℕ} (hfield : field < 2 ^ 29) (hwire : wire < 8)
    (hon : onField m field wire bs = none) :
    d.Reads onField m (encodeVarint (tag field wire) ++ bs) none := by
  intro fuel hfuel
  have hpos := length_pos_iff.mpr (encodeVarint_ne_nil (tag field wire))
  rw [length_append] at hfuel
  obtain ⟨fuel, rfl⟩ : ∃ k, fuel = k + 1 := ⟨fuel - 1, by omega⟩
  rw [readFields_tag hd hfield hwire, hon]
  rfl

end Dialect

/-! ### Chunks -/

/-- What one write puts under a field number. -/
inductive Chunk where
  | varint (value : ℕ)
  | bytes (value : List UInt8)

namespace Chunk

def wire : Chunk → ℕ
  | .varint _ => wireVarint
  | .bytes _ => wireLengthDelimited

def body : Chunk → List UInt8
  | .varint value => encodeVarint value
  | .bytes value => encodeVarint value.length ++ value

def encode (number : ℕ) : Chunk → List UInt8
  | .varint value => writeVarintField number value
  | .bytes value => writeBytes number value

/-- A number is one of 64 bits. -/
def Bounded : Chunk → Prop
  | .varint value => value < 2 ^ 64
  | .bytes _ => True

/-- A number, or a length, is one of 64 bits. -/
def Fits : Chunk → Prop
  | .varint value => value < 2 ^ 64
  | .bytes value => value.length < 2 ^ 64

theorem Bounded.fits {c : Chunk} (h : c.Bounded) {number : ℕ}
    (hlength : (c.encode number).length < 2 ^ 64) : c.Fits := by
  cases c with
  | varint value => exact h
  | bytes value =>
    rw [encode, writeBytes, length_append] at hlength
    exact lt_of_le_of_lt (Nat.le_add_left _ _) hlength

theorem encode_eq (number : ℕ) (c : Chunk) :
    c.encode number = encodeVarint (tag number c.wire) ++ c.body := by
  cases c with
  | varint value => rfl
  | bytes value => exact append_assoc _ _ _

theorem wire_lt (c : Chunk) : c.wire < 8 := by
  cases c with
  | varint value => exact Nat.zero_lt_succ _
  | bytes value => exact (by decide : wireLengthDelimited < 8)

end Chunk

namespace Dialect

variable {d : Dialect}

variable (d) in
def readChunk (wire : ℕ) (bs : List UInt8) : Option (Chunk × List UInt8) :=
  if wire = wireVarint then (d.readVarint bs).map fun (value, rest) => (.varint value, rest)
  else (d.readBytesForWireType wire bs).map fun (value, rest) => (.bytes value, rest)

theorem readChunk_body (hd : d.Lawful) {c : Chunk} (h : c.Fits) (rest : List UInt8) :
    d.readChunk c.wire (c.body ++ rest) = some (c, rest) := by
  cases c with
  | varint value =>
    rw [readChunk, Chunk.wire, if_pos rfl, Chunk.body, readVarint_encodeVarint hd h]
    rfl
  | bytes value =>
    rw [readChunk, Chunk.wire, if_neg (by decide), Chunk.body, readBytes_encode hd h]
    rfl

theorem skip_body (hd : d.Lawful) {c : Chunk} (h : c.Fits) (rest : List UInt8) :
    d.skip c.wire (c.body ++ rest) = some rest := by
  cases c with
  | varint value =>
    rw [skip, Chunk.wire, if_pos rfl, Chunk.body, readVarint_encodeVarint hd h]
    rfl
  | bytes value =>
    rw [skip, Chunk.wire, if_neg (by decide), if_neg (by decide), if_pos rfl, Chunk.body,
      append_assoc, readVarint_encodeVarint hd h, Option.bind_some]
    simp only [skipBytes, length_append, Nat.le_add_right, if_true, drop_left]

end Dialect

/-! ### Messages -/

/-- Fields as they are written one after the other. -/
def encodeItems (items : List (ℕ × Chunk)) : List UInt8 :=
  items.flatMap fun item => item.2.encode item.1

theorem encodeItems_cons (item : ℕ × Chunk) (items : List (ℕ × Chunk)) :
    encodeItems (item :: items) = item.2.encode item.1 ++ encodeItems items :=
  flatMap_cons

theorem encodeItems_append (items items' : List (ℕ × Chunk)) :
    encodeItems (items ++ items') = encodeItems items ++ encodeItems items' :=
  flatMap_append

/-- What a message does with a field that it knows: the wire type it expects, and what becomes of
it with what is there. -/
structure Handler (M : Type*) where
  wire : ℕ
  take : M → Chunk → Option M

namespace Handler

def varint (take : M → ℕ → Option M) : Handler M :=
  { wire := wireVarint
    take := fun m c =>
      match c with
      | .varint value => take m value
      | .bytes _ => none }

def bytes (take : M → List UInt8 → Option M) : Handler M :=
  { wire := wireLengthDelimited
    take := fun m c =>
      match c with
      | .bytes value => take m value
      | .varint _ => none }

end Handler

/-- A message takes a field, or skips one that it does not know. -/
def takeItem (known : ℕ → Option (Handler M)) (m : M) (item : ℕ × Chunk) : Option M :=
  match known item.1 with
  | none => some m
  | some handler => if item.2.wire = handler.wire then handler.take m item.2 else none

namespace Dialect

variable (d : Dialect)

def onField (known : ℕ → Option (Handler M)) (m : M) (number wire : ℕ) (bs : List UInt8) :
    Option (M × List UInt8) :=
  match known number with
  | none => (d.skip wire bs).map fun rest => (m, rest)
  | some handler =>
    if wire = handler.wire then
      (d.readChunk wire bs).bind fun (c, rest) => (handler.take m c).map fun m => (m, rest)
    else none

variable {d}

theorem reads_items (hd : d.Lawful) {onField : M → ℕ → ℕ → List UInt8 → Option (M × List UInt8)}
    {step : M → ℕ × Chunk → Option M} (hnumber : ∀ item ∈ items, item.1 < 2 ^ 29)
    (hon : ∀ item ∈ items, ∀ m rest, onField m item.1 item.2.wire (item.2.body ++ rest) = (step m
      item).map fun m => (m, rest)) (m : M) :
    d.Reads onField m (encodeItems items) (items.foldlM step m) := by
  induction items generalizing m with
  | nil => exact reads_nil m
  | cons item items ih =>
    have hfirst := hon item mem_cons_self m (encodeItems items)
    have hlt := hnumber item mem_cons_self
    rw [encodeItems_cons, Chunk.encode_eq, foldlM_cons]
    cases hstep : step m item with
    | none =>
      rw [hstep] at hfirst
      rw [append_assoc]
      exact reads_error hd hlt item.2.wire_lt hfirst
    | some m' =>
      rw [hstep] at hfirst
      exact reads_field hd hlt item.2.wire_lt hfirst
        (ih (fun i hi => hnumber i (.tail _ hi)) (fun i hi => hon i (.tail _ hi)) m')

theorem onField_body (hd : d.Lawful) (known : ℕ → Option (Handler M)) {item : ℕ × Chunk}
    (h : item.2.Fits) (m : M) (rest : List UInt8) :
    d.onField known m item.1 item.2.wire (item.2.body ++ rest)
      = (takeItem known m item).map fun m => (m, rest) := by
  rw [onField, takeItem]
  cases known item.1 with
  | none =>
    simp only [skip_body hd h]
    rfl
  | some handler =>
    simp only [readChunk_body hd h, Option.bind_some]
    split_ifs <;> rfl

end Dialect

theorem fits_of_length (hbounded : ∀ item ∈ items, item.2.Bounded)
    (hlength : (encodeItems items).length < 2 ^ 64) : ∀ item ∈ items, item.2.Fits := by
  intro item hitem
  have hle : (item.2.encode item.1).length ≤ (encodeItems items).length := by
    obtain ⟨before, after, rfl⟩ := append_of_mem hitem
    rw [encodeItems_append, encodeItems_cons, length_append, length_append]
    omega
  exact (hbounded item hitem).fits (lt_of_le_of_lt hle hlength)

/-- **A message is read field by field** as it was written. -/
theorem Dialect.readMessage_items {d : Dialect} (hd : d.Lawful) (known : ℕ → Option (Handler M))
    (hnumber : ∀ item ∈ items, item.1 < 2 ^ 29) (hfits : ∀ item ∈ items, item.2.Fits) (m : M) :
    d.readMessage (d.onField known) m (encodeItems items) = items.foldlM (takeItem known) m :=
  (reads_items hd hnumber (fun item hitem => onField_body hd known (hfits item hitem))
    m).readMessage_eq

/-! ### The dialect with fixed widths -/

theorem readVarintFrom_eq (result shift : ℕ) (bs : List UInt8) :
    readVarintFrom result shift bs = Dialect.fixed.readVarintFrom result shift bs := by
  induction bs generalizing result shift with
  | nil => rfl
  | cons b bs ih =>
    rw [readVarintFrom, Dialect.readVarintFrom]
    simp only [ih]
    rfl

theorem readVarint_eq (bs : List UInt8) : readVarint bs = Dialect.fixed.readVarint bs :=
  readVarintFrom_eq 0 0 bs

theorem readTag_eq (bs : List UInt8) : readTag bs = Dialect.fixed.readTag bs := by
  rw [readTag, Dialect.readTag, readVarint_eq]
  rfl

theorem readVarint_encodeVarint {n : ℕ} (h : n < 2 ^ 64) (rest : List UInt8) :
    readVarint (encodeVarint n ++ rest) = some (n, rest) := by
  rw [readVarint_eq]
  exact Dialect.readVarint_encodeVarint Dialect.lawful_fixed h rest

theorem readBytes_encode (h : value.length < 2 ^ 64) (rest : List UInt8) :
    readBytesForWireType wireLengthDelimited (encodeVarint value.length ++ value ++ rest)
      = some (value, rest) := by
  rw [readBytesForWireType, readVarint_eq]
  exact Dialect.readBytes_encode Dialect.lawful_fixed h rest

section

variable {onField : M → ℕ → ℕ → List UInt8 → Option (M × List UInt8)}

theorem readFields_eq (fuel : ℕ) (m : M) (bs : List UInt8) :
    readFields onField fuel m bs = Dialect.fixed.readFields onField fuel m bs := by
  induction fuel generalizing m bs with
  | zero => cases bs <;> rfl
  | succ fuel ih =>
    cases bs with
    | nil => rfl
    | cons b bs =>
      rw [readFields, Dialect.readFields, readTag_eq]
      simp only [ih]

variable (onField) in
/-- Reading `bs` into `m` gives `r`, with any fuel that is enough. -/
def Reads (m : M) (bs : List UInt8) (r : Option M) : Prop :=
  ∀ fuel, bs.length ≤ fuel → readFields onField fuel m bs = r

theorem reads_iff : Reads onField m bs r ↔ Dialect.fixed.Reads onField m bs r := by
  simp only [Reads, Dialect.Reads, readFields_eq]

theorem Reads.readMessage_eq (h : Reads onField m bs r) : readMessage onField m bs = r :=
  h bs.length (Nat.le_refl _)

theorem reads_nil (m : M) : Reads onField m [] (some m) := reads_iff.mpr (Dialect.reads_nil m)

theorem reads_bytes {m' : M} (hfield : field < 2 ^ 29)
    (hon : onField m field wireLengthDelimited (encodeVarint value.length ++ value ++ rest) = some
      (m', rest)) (h : Reads onField m' rest r) :
    Reads onField m (writeBytes field value ++ rest) r := by
  rw [writeBytes, append_assoc (encodeVarint _)]
  exact reads_iff.mpr
    (Dialect.reads_field Dialect.lawful_fixed hfield (by decide) hon (reads_iff.mp h))

theorem reads_varint {m' : M} {value : ℕ} (hfield : field < 2 ^ 29)
    (hon : onField m field wireVarint (encodeVarint value ++ rest) = some (m', rest))
    (h : Reads onField m' rest r) : Reads onField m (writeVarintField field value ++ rest) r :=
  reads_iff.mpr (Dialect.reads_field Dialect.lawful_fixed hfield (by decide) hon (reads_iff.mp h))

end

end Protobuf
