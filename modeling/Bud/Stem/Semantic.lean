import Bud.Lib.RustText
import Bud.Lib.Utf8
import Bud.Stem.Vte

/-!
# The semantic scanner

`semantic.rs`: a scanner over the raw output stream that recognises OSC 133 (the shell's command
lifecycle), OSC 7 (working directory) and the private modes for the alternate screen and bracketed
paste. It advances its own parser one byte at a time, so every dispatch knows the absolute offset
of the byte that triggered it.

A marker's `atOffset` is where the region it announces begins: the offset after the terminator.
For `ESC \` the parser dispatches on the `ESC`, so the scanner adds two.
-/

namespace Bud.Semantic

open Vte RustText

inductive ScanKind where
  /-- OSC 133;A -/
  | promptStart
  | commandInputStart
  | commandOutputStart
  /-- OSC 133;D, with its exit code if it has one -/
  | commandEnd (exitCode : Option ℤ)
  /-- OSC 7, percent-decoded -/
  | cwd (path : List Char)
  | altScreenEnter
  | altScreenLeave
  | bracketedPasteSet (enabled : Bool)

structure ScanEvent where
  atOffset : ℕ
  kind : ScanKind

/-! ### Working directory reports -/

def hex (b : UInt8) : Option UInt8 :=
  if 0x30 ≤ b ∧ b ≤ 0x39 then some (b - 0x30)
  else if 0x61 ≤ b ∧ b ≤ 0x66 then some (b - 0x61 + 10)
  else if 0x41 ≤ b ∧ b ≤ 0x46 then some (b - 0x41 + 10)
  else none

/-- The loop of `percent_decode`: a `%` not followed by two hex digits stands for itself. -/
def percentDecodeBytes : List UInt8 → List UInt8
  | 0x25 :: h :: l :: rest =>
    match hex h, hex l with
    | some hi, some lo => (hi <<< 4 ||| lo) :: percentDecodeBytes rest
    | _, _ => 0x25 :: percentDecodeBytes (h :: l :: rest)
  | b :: rest => b :: percentDecodeBytes rest
  | [] => []

def percentDecode (s : List Char) : List Char :=
  Utf8.decodeLossy (percentDecodeBytes (Utf8.encode s))

/-- A `file:` URL to its percent-decoded path; a text without the scheme is a path as it is. -/
def fileUrlPath (url : List Char) : Option (List Char) :=
  let raw :=
    match stripPrefix ['f', 'i', 'l', 'e', ':', '/', '/'] url with
    -- drop the authority
    | some rest => rest.dropWhile (· ≠ '/')
    | none => (stripPrefix ['f', 'i', 'l', 'e', ':'] url).getD url
  if raw = [] then none else some (percentDecode raw)

/-! ### Dispatches -/

/-- What an OSC string says, if the scanner knows it. -/
def oscKind (params : List (List UInt8)) : Option ScanKind :=
  match params with
  | [] => none
  | first :: rest =>
    if first = [0x31, 0x33, 0x33] then
      match rest with
      | [] => none
      | p :: args =>
        if p = [0x41] then some .promptStart
        else if p = [0x42] then some .commandInputStart
        else if p = [0x43] then some .commandOutputStart
        else if p = [0x44] then
          some (.commandEnd ((args.head?.bind Utf8.decode).bind fun s => parseI32 (trim s)))
        else none
    else if first = [0x37] then
      -- the path itself may contain `;`
      (fileUrlPath (List.intercalate [';'] (rest.map Utf8.decodeLossy))).map .cwd
    else none

/-- What a private mode sequence says, one marker per parameter the scanner knows. -/
def csiKinds (params : List (List ℕ)) (intermediates : List UInt8) (ignore : Bool)
    (action : Char) : List ScanKind :=
  if ignore = true ∨ intermediates ≠ [0x3f] then []
  else if action ≠ 'h' ∧ action ≠ 'l' then []
  else
    let enabled := decide (action = 'h')
    params.filterMap fun param =>
      match param.head? with
      | some n =>
        if n = 47 ∨ n = 1047 ∨ n = 1049 then
          some (if enabled then .altScreenEnter else .altScreenLeave)
        else if n = 2004 then some (.bracketedPasteSet enabled)
        else none
      | none => none

def onDispatch (pos : ℕ) : Dispatch → List ScanEvent
  | .osc params bellTerminated =>
    let at' := pos + if bellTerminated then 1 else 2
    ((oscKind params).map fun kind => ⟨at', kind⟩).toList
  | .csi params intermediates ignore action =>
    (csiKinds params intermediates ignore action).map fun kind => ⟨pos + 1, kind⟩

section

variable {V : Type} [Parser V]

/-- The markers triggered by one byte at `pos`. -/
def scanByte (pos : ℕ) (v : V) (b : UInt8) : List ScanEvent :=
  ((Parser.advance v b).2.map (onDispatch pos)).getD []

/-- `Scanner::scan`: the parser after `bytes`, whose first byte is at `base`, and the markers. -/
def scan : V → ℕ → List UInt8 → V × List ScanEvent
  | v, _, [] => (v, [])
  | v, base, b :: bs =>
    let (v', events) := scan (Parser.advance v b).1 (base + 1) bs
    (v', scanByte base v b ++ events)

def parse (v : V) (bytes : List UInt8) : V := bytes.foldl (fun v b => (Parser.advance v b).1) v

theorem scan_fst (v : V) (base : ℕ) (bytes : List UInt8) :
    (scan v base bytes).1 = parse v bytes := by
  induction bytes generalizing v base with
  | nil => rfl
  | cons b bs ih => exact ih _ _

theorem scan_cons (v : V) (base : ℕ) (b : UInt8) (bs : List UInt8) :
    (scan v base (b :: bs)).2
      = scanByte base v b ++ (scan (Parser.advance v b).1 (base + 1) bs).2 :=
  rfl

theorem parse_append (v : V) (xs ys : List UInt8) :
    parse v (xs ++ ys) = parse (parse v xs) ys :=
  List.foldl_append

/-- **A cut changes nothing**, wherever it falls. -/
theorem scan_append (v : V) (base : ℕ) (xs ys : List UInt8) :
    (scan v base (xs ++ ys)).2
      = (scan v base xs).2 ++ (scan (parse v xs) (base + xs.length) ys).2 := by
  induction xs generalizing v base with
  | nil => rfl
  | cons x xs ih =>
    rw [List.cons_append, scan_cons, scan_cons, ih, List.append_assoc, List.length_cons,
      show base + 1 + xs.length = base + (xs.length + 1) by omega]
    rfl

/-- **Where a marker's offset lies.** Either every marker of a byte has the offset after it, or the
byte is the first of a two-byte terminator and has one marker, two past it. -/
theorem scanByte_cases (pos : ℕ) (v : V) (b : UInt8) :
    (∀ ev ∈ scanByte pos v b, ev.atOffset = pos + 1) ∨
      ∃ params kind, (Parser.advance v b).2 = some (.osc params false) ∧
        oscKind params = some kind ∧ scanByte pos v b = [⟨pos + 2, kind⟩] := by
  rw [scanByte]
  cases hd : (Parser.advance v b).2 with
  | none => simp
  | some d =>
    cases d with
    | osc params bell =>
      cases hk : oscKind params with
      | none => simp [onDispatch, hk]
      | some kind =>
        cases bell
        · exact .inr ⟨params, kind, rfl, hk, by simp [onDispatch, hk]⟩
        · exact .inl (by simp [onDispatch, hk])
    | csi params intermediates ignore action =>
      left
      simp [onDispatch]

/-- A marker's offset is one or two past the byte that triggered it. -/
theorem atOffset_of_mem_scanByte {v : V} (h : ev ∈ scanByte pos v b) :
    ev.atOffset = pos + 1 ∨ ev.atOffset = pos + 2 := by
  rcases scanByte_cases pos v b with hall | ⟨params, kind, -, -, heq⟩
  · exact .inl (hall ev h)
  · rw [heq, List.mem_singleton] at h
    exact .inr (by rw [h])

theorem mem_scan {v : V} (h : ev ∈ (scan v base bytes).2) :
    ∃ xs b ys, bytes = xs ++ b :: ys ∧ ev ∈ scanByte (base + xs.length) (parse v xs) b := by
  induction bytes generalizing v base with
  | nil => simp [scan] at h
  | cons b bs ih =>
    rw [scan_cons, List.mem_append] at h
    rcases h with h | h
    · exact ⟨[], b, bs, rfl, h⟩
    · obtain ⟨xs, c, ys, rfl, hev⟩ := ih h
      refine ⟨b :: xs, c, ys, rfl, ?_⟩
      rwa [List.length_cons, show base + (xs.length + 1) = base + 1 + xs.length by omega]

end

end Bud.Semantic
