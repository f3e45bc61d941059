import Bud.Lib.Slice
import Mathlib.Algebra.GroupWithZero.Nat

/-!
# Selecting the bytes of a file

`files/mod.rs`, from `select_file_bytes` to `read_file_response`: which bytes of a file an opened
stream carries, and what its response says about them. A `stat` carries none, a `read` the whole
file, and a `range` the bytes from a position, between two positions, or a suffix.

Sizes and positions are `u64`. Their arithmetic is `add` and `sub`, which fail where the result is
not one.

The path has been resolved when this part starts, and what the file system answers about it is a
`FileView`.
-/

namespace Bud.Files

open Slice

/-- The codes a stream is rejected with, here. -/
inductive RejectionCode where
  | fileTooLarge
  | rangeNotSatisfiable
  | policyDenied
  | localReadFailed
  | contentChanged
  deriving DecidableEq

def RejectionCode.text : RejectionCode → String
  | .fileTooLarge => "FILE_TOO_LARGE"
  | .rangeNotSatisfiable => "RANGE_NOT_SATISFIABLE"
  | .policyDenied => "POLICY_DENIED"
  | .localReadFailed => "LOCAL_READ_FAILED"
  | .contentChanged => "CONTENT_CHANGED"

structure FileOpenRejection where
  code : String
  message : String
  retryable : Bool
  deriving DecidableEq

/-- How a computation ends early: with a rejection, or with a panic. -/
inductive Halt where
  | rejected (rejection : FileOpenRejection)
  | overflow

def reject {α : Type} (code : RejectionCode) (message : String) (retryable : Bool) :
    Except Halt α :=
  .error (.rejected ⟨code.text, message, retryable⟩)

def add (a b : ℕ) : Except Halt ℕ := if a + b < 2 ^ 64 then .ok (a + b) else .error .overflow

def sub (a b : ℕ) : Except Halt ℕ := if b ≤ a then .ok (a - b) else .error .overflow

/-- The computation does not panic, and what it returns is as `P` says. -/
def Meets {α : Type} (x : Except Halt α) (P : α → Prop) : Prop :=
  x ≠ .error .overflow ∧ ∀ a, x = .ok a → P a

section Meets

variable {α β : Type} {P : α → Prop}

theorem meets_ok (h : P a) : Meets (.ok a) P :=
  ⟨fun h => by contradiction, fun _ ha => Except.ok.inj ha ▸ h⟩

theorem meets_reject (code : RejectionCode) (message : String) (retryable : Bool) :
    Meets (reject code message retryable) P :=
  ⟨fun h => by injection h; contradiction, fun _ ha => by contradiction⟩

theorem Meets.bind {R : β → Prop} (hx : Meets x R) (hf : ∀ b, R b → Meets (f b) P) :
    Meets (x >>= f) P := by
  rcases x with e | b
  · refine ⟨fun h => hx.1 ?_, fun _ ha => by contradiction⟩
    exact congrArg Except.error (Except.error.inj h)
  · exact hf b (hx.2 b rfl)

theorem Meets.ite {c : Prop} [Decidable c] (hx : c → Meets x P) (hy : ¬ c → Meets y P) :
    Meets (if c then x else y) P := by
  split
  next hc => exact hx hc
  next hc => exact hy hc

/-- The postcondition may name the result. -/
theorem Meets.self (hx : Meets x P) : Meets x fun a => x = .ok a ∧ P a :=
  ⟨hx.1, fun a ha => ⟨ha, hx.2 a ha⟩⟩

theorem meets_add (h : a + b < 2 ^ 64) : Meets (add a b) (· = a + b) := by
  rw [add, if_pos h]
  exact meets_ok rfl

theorem meets_sub (h : b ≤ a) : Meets (sub a b) (· = a - b) := by
  rw [sub, if_pos h]
  exact meets_ok rfl

end Meets

/-- What the metadata of a file says about its content. -/
structure ContentIdentity where
  size : ℕ
  modifiedMs : ℕ
  size_lt : size < 2 ^ 64
  deriving DecidableEq

/-- The fields that the selection and the stream read. An expected identity of another shape is one
that the file does not have. -/
structure FileOpenFrame where
  streamId : String
  streamType : String
  mode : String
  rangeStart : Option ℕ
  rangeEnd : Option ℕ
  rangeSuffixBytes : Option ℕ
  expectedContentIdentity : Option ContentIdentity
  maxBytes : Option ℕ
  initialCreditBytes : Option ℕ
  maxChunkBytes : Option ℕ

structure FileSelection where
  statusCode : ℕ
  start : ℕ
  length : ℕ
  contentLength : ℕ
  contentRange : Option String
  includeBody : Bool

/-! ### The selection -/

def contentRangeText (start last fileSize : ℕ) : String :=
  "bytes " ++ toString start ++ "-" ++ toString last ++ "/" ++ toString fileSize

def fileTooLarge {α : Type} (what : String) (size maxBytes : ℕ) : Except Halt α :=
  reject .fileTooLarge
    (what ++ " size " ++ toString size ++ " exceeds max_bytes " ++ toString maxBytes) false

def requestedRange (frame : FileOpenFrame) (fileSize : ℕ) : Except Halt (ℕ × ℕ) :=
  match frame.rangeSuffixBytes with
  | some suffixBytes =>
    if suffixBytes = 0 then
      reject .rangeNotSatisfiable "suffix byte range must be positive" false
    else do
      let length := min suffixBytes fileSize
      return (← sub fileSize length, ← sub fileSize 1)
  | none =>
    let start := frame.rangeStart.getD 0
    if start ≥ fileSize then
      reject .rangeNotSatisfiable "range start is beyond end of file" false
    else do
      let last := min (frame.rangeEnd.getD (← sub fileSize 1)) (← sub fileSize 1)
      if last < start then
        reject .rangeNotSatisfiable "range end is before range start" false
      else
        return (start, last)

def selectRangeBytes (frame : FileOpenFrame) (fileSize maxBytes : ℕ) :
    Except Halt FileSelection :=
  if fileSize = 0 then
    reject .rangeNotSatisfiable "cannot serve a byte range for an empty file" false
  else do
    let (start, last) ← requestedRange frame fileSize
    let length ← add (← sub last start) 1
    if length > maxBytes then
      fileTooLarge "range" length maxBytes
    else
      return {
        statusCode := 206
        start := start
        length := length
        contentLength := length
        contentRange := some (contentRangeText start last fileSize)
        includeBody := true }

def selectFileBytes (frame : FileOpenFrame) (fileSize maxBytes : ℕ) : Except Halt FileSelection :=
  match frame.mode with
  | "stat" =>
    .ok {
      statusCode := 200
      start := 0
      length := 0
      contentLength := fileSize
      contentRange := none
      includeBody := false }
  | "read" =>
    if fileSize > maxBytes then
      fileTooLarge "file" fileSize maxBytes
    else
      .ok {
        statusCode := 200
        start := 0
        length := fileSize
        contentLength := fileSize
        contentRange := none
        includeBody := true }
  | "range" => selectRangeBytes frame fileSize maxBytes
  | other => reject .policyDenied ("unsupported file mode: " ++ other) false

/-! ### What a selection is -/

/-- The selection describes bytes `start ..< start + length` of a file of `fileSize` bytes. -/
structure FileSelection.Describes (sel : FileSelection) (fileSize maxBytes : ℕ) : Prop where
  within : sel.start + sel.length ≤ fileSize
  bounded : sel.length ≤ maxBytes
  contentLength : sel.includeBody = true → sel.contentLength = sel.length
  /-- A content range names the first and the last byte. -/
  contentRange : ∀ range, sel.contentRange = some range →
    0 < sel.length ∧ sel.includeBody = true ∧
      range = contentRangeText sel.start (sel.start + sel.length - 1) fileSize
  whole : sel.contentRange = none → sel.includeBody = true → sel.start = 0 ∧ sel.length = fileSize
  /-- Nothing is selected for a `stat`, which is told the size of the file. -/
  stat : sel.includeBody = false →
    sel.start = 0 ∧ sel.length = 0 ∧ sel.contentRange = none ∧ sel.contentLength = fileSize

variable {frame : FileOpenFrame} {fileSize maxBytes : ℕ}

theorem requestedRange_spec (hpos : fileSize ≠ 0) :
    Meets (requestedRange frame fileSize) fun (start, last) => start ≤ last ∧ last < fileSize := by
  have hone := meets_sub (show 1 ≤ fileSize by omega)
  rw [requestedRange]
  rcases frame.rangeSuffixBytes with _ | suffixBytes
  · refine Meets.ite (fun _ => meets_reject _ _ _) fun _ => ?_
    refine hone.bind fun n hn => hone.bind fun m hm => ?_
    refine Meets.ite (fun _ => meets_reject _ _ _) fun hle => meets_ok ⟨by omega, ?_⟩
    subst hm
    omega
  · refine Meets.ite (fun _ => meets_reject _ _ _) fun hsuffix => ?_
    refine (meets_sub (Nat.min_le_right suffixBytes fileSize)).bind fun start hstart => ?_
    refine hone.bind fun last hlast => meets_ok ?_
    show start ≤ last ∧ last < fileSize
    omega

theorem selectRangeBytes_spec (hsize : fileSize < 2 ^ 64) :
    Meets (selectRangeBytes frame fileSize maxBytes) (·.Describes fileSize maxBytes) := by
  refine Meets.ite (fun _ => meets_reject _ _ _) fun hpos => ?_
  refine (requestedRange_spec hpos).bind fun (start, last) ⟨hle, hlast⟩ => ?_
  refine (meets_sub hle).bind fun d hd => ?_
  refine (meets_add (show d + 1 < 2 ^ 64 by omega)).bind fun length hlength => ?_
  refine Meets.ite (fun _ => meets_reject _ _ _) fun hmax => meets_ok ?_
  exact {
    within := by show start + length ≤ fileSize; omega
    bounded := Nat.le_of_not_lt hmax
    contentLength := fun _ => rfl
    contentRange := by
      intro range hrange
      have hlast : start + length - 1 = last := by omega
      show 0 < length ∧ true = true ∧ range = contentRangeText start (start + length - 1) fileSize
      rw [hlast]
      exact ⟨by omega, rfl, (Option.some.inj hrange).symm⟩
    whole := fun hnone => by contradiction
    stat := fun hbody => by contradiction }

theorem selectFileBytes_spec (hsize : fileSize < 2 ^ 64) :
    Meets (selectFileBytes frame fileSize maxBytes) (·.Describes fileSize maxBytes) := by
  rw [selectFileBytes]
  split
  · exact meets_ok {
      within := Nat.zero_le _
      bounded := Nat.zero_le _
      contentLength := fun hbody => by contradiction
      contentRange := fun _ hrange => by contradiction
      whole := fun _ hbody => by contradiction
      stat := fun _ => ⟨rfl, rfl, rfl, rfl⟩ }
  · refine Meets.ite (fun _ => meets_reject _ _ _) fun hmax => meets_ok ?_
    exact {
      within := Nat.le_of_eq (Nat.zero_add _)
      bounded := Nat.le_of_not_lt hmax
      contentLength := fun _ => rfl
      contentRange := fun _ hrange => by contradiction
      whole := fun _ _ => ⟨rfl, rfl⟩
      stat := fun hbody => by contradiction }
  · exact selectRangeBytes_spec hsize
  · exact meets_reject _ _ _

/-! ### The response -/

def defaultMaxBytes : ℕ := 64 * 1024 * 1024

/-- What the file system answers about the resolved path, or the text of its error: the metadata
before the read, the bytes that are read from, and the metadata after it. -/
structure FileView where
  before : Except String ContentIdentity
  content : Except String (List UInt8)
  after : Except String ContentIdentity

structure FileReadResponse where
  statusCode : ℕ
  headers : List (String × String)
  contentIdentity : ContentIdentity
  size : ℕ
  body : List UInt8
  deriving DecidableEq

/-- An error of the file system. -/
def localRead {α : Type} : Except String α → Except Halt α
  | .ok a => .ok a
  | .error text => reject .localReadFailed text true

def readSelectedBytes (content : Except String (List UInt8)) (start length : ℕ) :
    Except Halt (List UInt8) := do
  let bytes ← localRead content
  if 0 < length ∧ bytes.length < start + length then
    reject .localReadFailed "early eof" true
  else
    return slice bytes start (start + length)

def etagForIdentity (identity : ContentIdentity) : String :=
  "W/\"bud-" ++ toString identity.size ++ "-" ++ toString identity.modifiedMs ++ "\""

def responseHeaders (fileSize contentLength : ℕ) (contentIdentity : ContentIdentity) :
    List (String × String) :=
  [("accept-ranges", "bytes"),
   ("content-length", toString contentLength),
   ("content-type", "application/octet-stream"),
   ("etag", etagForIdentity contentIdentity),
   ("x-bud-file-size", toString fileSize)]

/-- The body of a response: nothing is read unless it is asked for. -/
def readBody (view : FileView) (selection : FileSelection) : Except Halt (List UInt8) :=
  if selection.includeBody then
    readSelectedBytes view.content selection.start selection.length
  else
    .ok []

/-- The file must not have changed while its bytes were read. -/
def checkIdentity (view : FileView) (selection : FileSelection) (before : ContentIdentity) :
    Except Halt Unit :=
  if selection.includeBody then do
    let after ← localRead view.after
    if after ≠ before then
      reject .contentChanged "file content identity changed during read" false
    else
      return ()
  else
    .ok ()

def readFileResponse (frame : FileOpenFrame) (view : FileView) : Except Halt FileReadResponse := do
  let maxBytes := frame.maxBytes.getD defaultMaxBytes
  let before ← localRead view.before
  if ∃ expected ∈ frame.expectedContentIdentity, expected ≠ before then
    reject .contentChanged "file content identity changed before read" false
  else
    let selection ← selectFileBytes frame before.size maxBytes
    let headers := responseHeaders before.size selection.contentLength before ++
      (selection.contentRange.map fun range => ("content-range", range)).toList
    let body ← readBody view selection
    checkIdentity view selection before
    return {
      statusCode := selection.statusCode
      headers := headers
      contentIdentity := before
      size := before.size
      body := body }

/-- The response carries the bytes of the selection and says which they are. -/
structure FileReadResponse.Carries (response : FileReadResponse) (sel : FileSelection)
    (view : FileView) : Prop where
  size : response.size = response.contentIdentity.size
  length : response.body.length = sel.length
  body : ∀ bytes, view.content = .ok bytes →
    response.body = slice bytes sel.start (sel.start + sel.length)
  statusCode : response.statusCode = sel.statusCode
  headers : response.headers =
    responseHeaders response.size sel.contentLength response.contentIdentity ++
      (sel.contentRange.map fun range => ("content-range", range)).toList

theorem meets_localRead {α : Type} (x : Except String α) : Meets (localRead x) (x = .ok ·) := by
  rcases x with text | a
  · exact meets_reject _ _ _
  · exact meets_ok rfl

theorem readSelectedBytes_spec (content : Except String (List UInt8)) (start length : ℕ) :
    Meets (readSelectedBytes content start length) fun body =>
      body.length = length ∧
        ∀ bytes, content = .ok bytes → body = slice bytes start (start + length) := by
  refine (meets_localRead content).bind fun bytes hbytes => ?_
  refine Meets.ite (fun _ => meets_reject _ _ _) fun hle => meets_ok ⟨?_, fun bytes' h => ?_⟩
  · rw [length_slice]
    omega
  · rw [Except.ok.inj (h.symm.trans hbytes)]

theorem readBody_spec (view : FileView) {fileSize maxBytes : ℕ}
    (h : sel.Describes fileSize maxBytes) :
    Meets (readBody view sel) fun body =>
      body.length = sel.length ∧
        ∀ bytes, view.content = .ok bytes →
          body = slice bytes sel.start (sel.start + sel.length) := by
  refine Meets.ite (fun _ => readSelectedBytes_spec _ _ _) fun hnone => meets_ok ?_
  obtain ⟨-, hlength, -, -⟩ := h.stat (Bool.eq_false_iff.mpr hnone)
  exact ⟨hlength.symm, fun bytes _ => (slice_of_le bytes (by omega)).symm⟩

theorem meets_checkIdentity (view : FileView) (sel : FileSelection) (before : ContentIdentity) :
    Meets (checkIdentity view sel before) fun _ => True := by
  refine Meets.ite (fun _ => ?_) fun _ => meets_ok trivial
  refine (meets_localRead view.after).bind fun after _ => ?_
  exact Meets.ite (fun _ => meets_reject _ _ _) fun _ => meets_ok trivial

theorem readFileResponse_spec (frame : FileOpenFrame) (view : FileView) :
    Meets (readFileResponse frame view) fun response =>
      ∃ sel, selectFileBytes frame response.size (frame.maxBytes.getD defaultMaxBytes) = .ok sel ∧
        sel.Describes response.size (frame.maxBytes.getD defaultMaxBytes) ∧
        response.Carries sel view := by
  refine (meets_localRead view.before).bind fun before _ => ?_
  refine Meets.ite (fun _ => meets_reject _ _ _) fun _ => ?_
  refine (selectFileBytes_spec before.size_lt).self.bind fun sel ⟨hsel, hdesc⟩ => ?_
  refine (readBody_spec view hdesc).bind fun body ⟨hlength, hslice⟩ => ?_
  refine (meets_checkIdentity view sel before).bind fun _ _ => meets_ok ?_
  exact ⟨sel, hsel, hdesc, rfl, hlength, hslice, rfl, rfl⟩

end Bud.Files
