import Bud.Lib.RustText
import Bud.Lib.Utf8

/-!
# JavaScript strings

A JavaScript string is a list of UTF-16 code units that need not be well formed: a surrogate may
stand alone. `scalars` reads it as scalar values, with `none` for a lone surrogate, which is what
the conversion to UTF-8 replaces by `U+FFFD`.

Case mapping is Unicode's, by tables that are not repeated here: `CaseMap` is any function with the
few properties of `toLowerCase` that matter, and `CaseMap.ascii` is the one that agrees with it on
ASCII strings.
-/

namespace JsText

open List Option

def isHigh (u : UInt16) : Bool := 0xD800 ≤ u.toNat && u.toNat < 0xDC00

def isLow (u : UInt16) : Bool := 0xDC00 ≤ u.toNat && u.toNat < 0xE000

def pair (high low : UInt16) : Char :=
  Char.ofNat (0x10000 + (high.toNat - 0xD800) * 0x400 + (low.toNat - 0xDC00))

/-- A unit that is not part of a pair. -/
def single (u : UInt16) : Option Char :=
  if isHigh u || isLow u then none else some (Char.ofNat u.toNat)

/-- The scalar values of a string; `none` for a lone surrogate. -/
def scalars : List UInt16 → List (Option Char)
  | [] => []
  | [u] => [single u]
  | u :: v :: us =>
    if isHigh u && isLow v then some (pair u v) :: scalars us
    else single u :: scalars (v :: us)

/-- No surrogate stands alone. -/
def WellFormed (s : List UInt16) : Prop := ∀ c ∈ scalars s, c ≠ none

/-- Nothing but white space, as Rust and Unicode have it. -/
def Blank (s : List UInt16) : Prop :=
  ∀ c ∈ scalars s, c.any RustText.isWhitespace = true

/-- `Buffer.from(value, "utf-8")`. -/
def toUtf8 (s : List UInt16) : List UInt8 :=
  Utf8.encode ((scalars s).map fun c => c.getD Utf8.replacement)

/-- White space and line terminators of the language: `U+FEFF` is one, `U+0085` is not. -/
def isSpace (u : UInt16) : Bool :=
  let n := u.toNat
  (9 ≤ n && n ≤ 13) || n == 0x20 || n == 0xA0 || n == 0x1680 || (0x2000 ≤ n && n ≤ 0x200A) ||
    n == 0x2028 || n == 0x2029 || n == 0x202F || n == 0x205F || n == 0x3000 || n == 0xFEFF

/-- `String.prototype.trim`. -/
def trim (s : List UInt16) : List UInt16 :=
  ((s.dropWhile isSpace).reverse.dropWhile isSpace).reverse

/-- An ASCII literal. -/
def lit (s : String) : List UInt16 := s.toList.map fun c => UInt16.ofNat c.toNat

theorem lit_ofList (cs : List Char) :
    lit (String.ofList cs) = cs.map fun c => UInt16.ofNat c.toNat :=
  congrArg _ String.toList_ofList

def unitsOf (c : Char) : List UInt16 :=
  if c.toNat < 0x10000 then [UInt16.ofNat c.toNat]
  else
    let rest := c.toNat - 0x10000
    [UInt16.ofNat (0xD800 + rest / 0x400), UInt16.ofNat (0xDC00 + rest % 0x400)]

def ofString (s : String) : List UInt16 := s.toList.flatMap unitsOf

instance instLawfulBEq : LawfulBEq (List UInt16) := inferInstance

/-- A string value: the language bounds the number of units. -/
structure JsString where
  units : List UInt16
  length_lt : units.length < 2 ^ 53

/-- `String.prototype.toLowerCase`: scalar values are mapped to non-empty texts, white space and
lone surrogates to themselves. -/
structure CaseMap where
  lower : List UInt16 → List UInt16
  lower_eq_nil : ∀ s, lower s = [] ↔ s = []
  wellFormed_lower : ∀ s, WellFormed (lower s) ↔ WellFormed s
  blank_lower : ∀ s, Blank (lower s) ↔ Blank s
  length_lower : ∀ s, (lower s).length ≤ 3 * s.length

/-! ### Conversion -/

theorem decode_toUtf8 (s : List UInt16) :
    Utf8.decode (toUtf8 s) = some ((scalars s).map fun c => c.getD Utf8.replacement) :=
  Utf8.decode_encode _

theorem length_scalars_le : ∀ s : List UInt16, (scalars s).length ≤ s.length
  | [] => Nat.le_refl _
  | [_] => Nat.le_refl _
  | u :: v :: us => by
    rw [scalars]
    split
    · have := length_scalars_le us
      simp only [length_cons]
      omega
    · have := length_scalars_le (v :: us)
      simp only [length_cons] at this ⊢
      omega

theorem length_encode_le (cs : List Char) : (Utf8.encode cs).length ≤ 4 * cs.length := by
  induction cs with
  | nil => exact Nat.le_refl _
  | cons c cs ih =>
    have hc : (Utf8.encodeChar c).length ≤ 4 := by
      rw [Utf8.encodeChar]
      split_ifs <;> simp
    rw [Utf8.encode, flatMap_cons, length_append, length_cons, ← Utf8.encode]
    omega

theorem length_toUtf8_le (s : List UInt16) : (toUtf8 s).length ≤ 4 * s.length := by
  have h := length_encode_le ((scalars s).map fun c => c.getD Utf8.replacement)
  have := length_scalars_le s
  rw [length_map] at h
  rw [toUtf8]
  omega

/-- The well-formed strings are those a list of scalar values can stand for. -/
theorem wellFormed_iff (s : List UInt16) :
    WellFormed s ↔ scalars s = ((scalars s).map fun c => c.getD Utf8.replacement).map some := by
  rw [WellFormed, List.map_map]
  constructor
  · intro h
    refine (map_id _).symm.trans (map_congr_left fun c hc => ?_)
    obtain ⟨ch, rfl⟩ := ne_none_iff_exists'.mp (h c hc)
    rfl
  · intro h c hc
    rw [h] at hc
    obtain ⟨d, -, rfl⟩ := mem_map.mp hc
    exact some_ne_none _

theorem single_of_lt {u : UInt16} (h : u.toNat < 0xD800) :
    single u = some (Char.ofNat u.toNat) := by
  have : (isHigh u || isLow u) = false := by
    simp only [isHigh, isLow, Bool.or_eq_false_iff, Bool.and_eq_false_iff, decide_eq_false_iff_not]
    omega
  rw [single, this]
  rfl

theorem scalars_cons {u : UInt16} (h : u.toNat < 0xD800) (s : List UInt16) :
    scalars (u :: s) = some (Char.ofNat u.toNat) :: scalars s := by
  have hhigh : isHigh u = false := by
    simp only [isHigh, Bool.and_eq_false_iff, decide_eq_false_iff_not]
    omega
  cases s with
  | nil => exact congrArg (fun c => [c]) (single_of_lt h)
  | cons v us => rw [scalars, hhigh, Bool.false_and, if_neg Bool.false_ne_true, single_of_lt h]

/-- **Units below the surrogates are read one by one.** -/
theorem scalars_append {p : List UInt16} (h : ∀ u ∈ p, u.toNat < 0xD800) (s : List UInt16) :
    scalars (p ++ s) = p.map (fun u => some (Char.ofNat u.toNat)) ++ scalars s := by
  induction p with
  | nil => rfl
  | cons u p ih =>
    rw [cons_append, scalars_cons (h u mem_cons_self), ih fun v hv => h v (mem_cons_of_mem _ hv)]
    rfl

theorem wellFormed_append {p : List UInt16} (h : ∀ u ∈ p, u.toNat < 0xD800) (s : List UInt16) :
    WellFormed (p ++ s) ↔ WellFormed s := by
  rw [WellFormed, scalars_append h]
  constructor
  · exact fun hw c hc => hw c (mem_append_right _ hc)
  · intro hw c hc
    rcases mem_append.mp hc with hc | hc
    · obtain ⟨u, -, rfl⟩ := mem_map.mp hc
      exact some_ne_none _
    · exact hw c hc

theorem not_blank_cons {u : UInt16} (h : u.toNat < 0xD800)
    (hu : RustText.isWhitespace (Char.ofNat u.toNat) = false) (s : List UInt16) :
    ¬ Blank (u :: s) := by
  intro hb
  have := hb (some (Char.ofNat u.toNat)) (by rw [scalars_cons h]; exact mem_cons_self)
  rw [any_some, hu] at this
  cases this

/-! ### Lower case of ASCII letters -/

def asciiLower (u : UInt16) : UInt16 := if 65 ≤ u.toNat ∧ u.toNat ≤ 90 then u + 32 else u

theorem toNat_asciiLower (u : UInt16) :
    (asciiLower u).toNat = u.toNat ∨
      (65 ≤ u.toNat ∧ u.toNat ≤ 90 ∧ (asciiLower u).toNat = u.toNat + 32) := by
  rw [asciiLower]
  split_ifs with h
  · refine .inr ⟨h.1, h.2, ?_⟩
    rw [UInt16.toNat_add]
    exact Nat.mod_eq_of_lt (by show u.toNat + 32 < 2 ^ 16; omega)
  · exact .inl rfl

theorem isHigh_asciiLower (u : UInt16) : isHigh (asciiLower u) = isHigh u := by
  rcases toNat_asciiLower u with h | ⟨hlo, hhi, h⟩
  · rw [isHigh, h, isHigh]
  · rw [isHigh, h, isHigh, Bool.eq_iff_iff]
    simp only [Bool.and_eq_true, decide_eq_true_eq]
    omega

theorem isLow_asciiLower (u : UInt16) : isLow (asciiLower u) = isLow u := by
  rcases toNat_asciiLower u with h | ⟨hlo, hhi, h⟩
  · rw [isLow, h, isLow]
  · rw [isLow, h, isLow, Bool.eq_iff_iff]
    simp only [Bool.and_eq_true, decide_eq_true_eq]
    omega

/-- A letter stays a letter, so neither form nor white space changes. -/
theorem single_asciiLower (u : UInt16) :
    (single (asciiLower u) = none ↔ single u = none) ∧
      (single (asciiLower u)).any RustText.isWhitespace = (single u).any RustText.isWhitespace := by
  rw [single, single, isHigh_asciiLower, isLow_asciiLower]
  split
  · exact ⟨Iff.rfl, rfl⟩
  · refine ⟨by simp, ?_⟩
    rcases toNat_asciiLower u with h | ⟨hlo, hhi, h⟩
    · rw [h]
    · have hletter : ∀ n, 65 ≤ n → n ≤ 122 → RustText.isWhitespace (Char.ofNat n) = false := by
        intro n hn hn'
        have hval : (Char.ofNat n).toNat = n := by
          rw [Char.ofNat, dif_pos (Or.inl (by omega))]
          rfl
        simp only [RustText.isWhitespace, hval, Bool.or_eq_false_iff, Bool.and_eq_false_iff,
          decide_eq_false_iff_not, beq_eq_false_iff_ne]
        omega
      rw [h, any_some, any_some, hletter _ (by omega) (by omega),
        hletter _ (by omega) (by omega)]

/-- Two strings whose scalar values are alike in form and white space. -/
def Alike (cs ds : List (Option Char)) : Prop :=
  List.Forall₂ (fun c d => (c = none ↔ d = none) ∧
    c.any RustText.isWhitespace = d.any RustText.isWhitespace) cs ds

theorem alike_asciiLower : ∀ s : List UInt16, Alike (scalars (s.map asciiLower)) (scalars s)
  | [] => .nil
  | [u] => .cons (single_asciiLower u) .nil
  | u :: v :: us => by
    rw [map_cons, map_cons, scalars, scalars, isHigh_asciiLower, isLow_asciiLower]
    split
    · next h =>
      rw [Bool.and_eq_true] at h
      have hsame : ∀ w : UInt16, isHigh w = true ∨ isLow w = true → asciiLower w = w := by
        intro w hw
        rw [asciiLower, if_neg]
        simp only [isHigh, isLow, Bool.and_eq_true, decide_eq_true_eq] at hw
        omega
      rw [hsame u (.inl h.1), hsame v (.inr h.2)]
      exact .cons ⟨Iff.rfl, rfl⟩ (alike_asciiLower us)
    · exact .cons (single_asciiLower u) (alike_asciiLower (v :: us))

theorem Alike.forall_iff {cs ds : List (Option Char)} (h : Alike cs ds) :
    ((∀ c ∈ cs, c ≠ none) ↔ ∀ d ∈ ds, d ≠ none) ∧
      ((∀ c ∈ cs, c.any RustText.isWhitespace = true) ↔
        ∀ d ∈ ds, d.any RustText.isWhitespace = true) := by
  induction h with
  | nil => exact ⟨Iff.rfl, Iff.rfl⟩
  | cons hcd _ ih =>
    rw [forall_mem_cons, forall_mem_cons, forall_mem_cons, forall_mem_cons, ih.1, ih.2, hcd.2]
    exact ⟨and_congr_left' (not_congr hcd.1), Iff.rfl⟩

/-- `toLowerCase` on ASCII strings. -/
def CaseMap.ascii : CaseMap where
  lower := List.map asciiLower
  lower_eq_nil := fun _ => List.map_eq_nil_iff
  wellFormed_lower := fun s => (alike_asciiLower s).forall_iff.1
  blank_lower := fun s => (alike_asciiLower s).forall_iff.2
  length_lower := fun s => by rw [List.length_map]; omega

end JsText
