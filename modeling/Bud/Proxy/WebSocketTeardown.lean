import Bud.Lib.JsText

/-!
# How a proxied WebSocket is taken down

`handleDaemonClose`, `handleDaemonError`, `closeFromService` and `closeBrowser` of
`proxy-ws-runtime.ts`. The browser's socket is closed before `finish` runs, and `ws` throws where
it does not take the close code or the reason: the session is then left registered and not
completed. `truncateCloseReason` counts UTF-16 units where `ws` counts UTF-8 bytes.

A text is its UTF-16 units. A handler that throws leaves the session of `Except.error`. `hooks`
only start tasks of the edge; the frames' ids and times, and the idle timer, are not kept.
-/

namespace Bud.WebSocketTeardown

open List JsText

inductive ReadyState
  | CONNECTING
  | OPEN
  | CLOSING
  | CLOSED
  deriving DecidableEq

/-- `ProxyWebSocketError`, as far as the teardown reads it. -/
structure ProxyWebSocketError where
  code : String
  message : List UInt16
  retryable : Option Bool

/-- What a session sends to its daemon here. -/
inductive Frame
  | proxy_ws_error (error : ProxyWebSocketError)
  | proxy_ws_close (code : Option ℕ) (reason : Option (List UInt16))

structure Session where
  readyState : ReadyState
  completed : Bool
  /-- In `proxyWebSocketRuntimeSessions`; `cleanup` takes it out. -/
  registered : Bool
  /-- A call of `waitForOpen` is waiting. -/
  openReject : Bool
  sent : List Frame
  /-- `finish` runs `cleanup` at once. -/
  unregistered : completed = true → registered = false

/-- `proxy_ws_close`, as its schema takes it. -/
structure CloseFrame where
  code : Option {n : ℕ // 1000 ≤ n ∧ n ≤ 4999}
  reason : Option (List UInt16)

/-! ### Definitions -/

/-- `Buffer.byteLength(text, "utf8")`. -/
def byteLength (s : List UInt16) : ℕ := (toUtf8 s).length

/-- `/[\r\n]/g` replaced. -/
def sanitize (s : List UInt16) : List UInt16 := s.map fun u => if u = 13 ∨ u = 10 then 32 else u

def truncateCloseReason (reason : List UInt16) : List UInt16 :=
  let sanitized := (sanitize reason).take 120
  if byteLength sanitized ≤ 123 then sanitized else sanitized.take 80

/-- The codes `ws` sends. -/
def isValidStatusCode (code : ℕ) : Bool :=
  (1000 ≤ code && code ≤ 1003) || (1007 ≤ code && code ≤ 1014) || (3000 ≤ code && code ≤ 4999)

def Session.browserOpen (s : Session) : Bool := s.readyState = .OPEN || s.readyState = .CONNECTING

def closeBrowser (code : ℕ) (reason : List UInt16) (s : Session) : Except Session Session :=
  if s.browserOpen then
    let s := { s with readyState := .CLOSING }
    if isValidStatusCode code && byteLength (truncateCloseReason reason) ≤ 123 then .ok s
    else .error s
  else .ok s

def rejectOpen (s : Session) : Session := { s with openReject := false }

def finish (s : Session) : Session :=
  if s.completed then s
  else { s with completed := true, registered := false, unregistered := fun _ => rfl }

def send (f : Frame) (s : Session) : Session := { s with sent := s.sent ++ [f] }

def handleDaemonClose (frame : CloseFrame) (s : Session) : Except Session Session :=
  if s.completed then .ok s
  else do
    let s ← closeBrowser ((frame.code.map Subtype.val).getD 1000)
      (frame.reason.getD (lit "proxied WebSocket closed")) s
    .ok (finish s)

def handleDaemonError (error : ProxyWebSocketError) (s : Session) : Except Session Session :=
  if s.completed then .ok s
  else do
    let s ← closeBrowser 1011 error.message s
    .ok (finish (rejectOpen s))

def sendCloseToDaemon (code : ℕ) (reason : List UInt16) (s : Session) : Session :=
  if s.completed then s
  else
    send (.proxy_ws_close (if code = 0 then none else some code)
      (if reason = [] then none else some (truncateCloseReason reason))) s

def closeFromService (reason : List UInt16) (error : ProxyWebSocketError) (closeCode : ℕ)
    (s : Session) : Except Session Session :=
  if s.completed then .ok s
  else do
    let s := sendCloseToDaemon closeCode reason (send (.proxy_ws_error error) s)
    let s ← closeBrowser closeCode error.message s
    .ok (finish (rejectOpen s))

/-- What takes a session down, other than its browser. -/
inductive Teardown
  | daemonClose (frame : CloseFrame)
  | daemonError (error : ProxyWebSocketError)
  | service (reason : List UInt16) (error : ProxyWebSocketError) (closeCode : ℕ)

namespace Teardown

def run : Teardown → Session → Except Session Session
  | daemonClose frame => handleDaemonClose frame
  | daemonError error => handleDaemonError error
  | service reason error closeCode => closeFromService reason error closeCode

/-- The code the browser is given. -/
def closeCode : Teardown → ℕ
  | daemonClose frame => (frame.code.map Subtype.val).getD 1000
  | daemonError _ => 1011
  | service _ _ code => code

/-- The text the browser is given, before it is cut. -/
def message : Teardown → List UInt16
  | daemonClose frame => frame.reason.getD (lit "proxied WebSocket closed")
  | daemonError error => error.message
  | service _ error _ => error.message

end Teardown

/-- The handler did not throw, and the session is complete and unregistered. -/
def Completes : Except Session Session → Prop
  | .ok s => s.completed = true ∧ s.registered = false
  | .error _ => False

instance : DecidablePred Completes
  | .ok _ => inferInstanceAs (Decidable (_ ∧ _))
  | .error _ => inferInstanceAs (Decidable False)

/-! ### The length of a reason -/

def width (c : Option Char) : ℕ := (Utf8.encodeChar (c.getD Utf8.replacement)).length

theorem byteLength_eq (s : List UInt16) : byteLength s = ((scalars s).map width).sum := by
  rw [byteLength, toUtf8, Utf8.encode, length_flatMap, map_map]
  rfl

theorem toNat_char {n : ℕ} (h : n.isValidChar) : (Char.ofNat n).toNat = n := by
  rw [Char.ofNat, dif_pos h]
  rfl

theorem three_le_width {c : Char} (h : 0x800 ≤ c.toNat) : 3 ≤ width (some c) := by
  simp only [width, Option.getD_some, Utf8.encodeChar]
  rw [if_neg (by omega), if_neg (by omega)]
  split_ifs <;> simp

theorem le_toNat_pair {u v : UInt16} (hu : isHigh u = true) (hv : isLow v = true) :
    0x800 ≤ (pair u v).toNat := by
  simp only [isHigh, isLow, Bool.and_eq_true, decide_eq_true_eq] at hu hv
  have h := toNat_char (n := 0x10000 + (u.toNat - 0xD800) * 0x400 + (v.toNat - 0xDC00))
    (by rw [Nat.isValidChar]; omega)
  rw [pair, h]
  omega

theorem width_single_high {u : UInt16} (hu : isHigh u = true) : width (single u) = 3 := by
  rw [single, hu, Bool.true_or, if_pos rfl]
  decide

/-- A cut inside a pair leaves a lone surrogate, which takes less room. -/
theorem byteLength_take_le : ∀ (s : List UInt16) (n : ℕ), byteLength (s.take n) ≤ byteLength s
  | _, 0 => Nat.zero_le _
  | [], _ + 1 => Nat.le_refl _
  | [_], _ + 1 => by rw [take_succ_cons, take_nil]
  | u :: v :: s, 1 => by
    simp only [byteLength_eq, take_succ_cons, take_zero, scalars]
    split_ifs with h
    · obtain ⟨hu, hv⟩ := Bool.and_eq_true_iff.mp h
      have := three_le_width (le_toNat_pair hu hv)
      simp only [map_cons, map_nil, sum_cons, sum_nil, width_single_high hu]
      omega
    · simp only [map_cons, map_nil, sum_cons, sum_nil]
      omega
  | u :: v :: s, n + 2 => by
    have ih := byteLength_take_le s n
    have ih' := byteLength_take_le (v :: s) (n + 1)
    simp only [byteLength_eq, take_succ_cons, scalars] at ih ih' ⊢
    split_ifs
    · simp only [map_cons, sum_cons]
      omega
    · simp only [map_cons, sum_cons]
      omega

/-- What is kept fits exactly where the first 80 units do. -/
theorem truncated_fits_iff (reason : List UInt16) :
    byteLength (truncateCloseReason reason) ≤ 123 ↔
      byteLength ((sanitize reason).take 80) ≤ 123 := by
  rw [truncateCloseReason]
  split_ifs with h
  · have := byteLength_take_le ((sanitize reason).take 120) 80
    rw [take_take] at this
    exact iff_of_true h (this.trans h)
  · rw [take_take]
    rfl

/-! ### Teardown -/

/-- The browser's socket takes the code and the text, or needs no close. -/
def Closable (code : ℕ) (reason : List UInt16) (s : Session) : Prop :=
  s.browserOpen = false ∨
    isValidStatusCode code = true ∧ byteLength ((sanitize reason).take 80) ≤ 123

theorem closeBrowser_of_closable (h : Closable code reason s) :
    ∃ s', closeBrowser code reason s = .ok s' := by
  rw [closeBrowser]
  split_ifs with ho hv
  · exact ⟨_, rfl⟩
  · rw [Closable, ← truncated_fits_iff] at h
    simp_all
  · exact ⟨s, rfl⟩

/-- Where the close throws, the session is left as it was, its socket closing. -/
theorem closeBrowser_of_not_closable (h : ¬Closable code reason s) :
    closeBrowser code reason s = .error { s with readyState := .CLOSING } := by
  rw [Closable, ← truncated_fits_iff] at h
  rw [closeBrowser, if_pos (by simp_all), if_neg (by simp_all)]

theorem completes_finish (s : Session) : Completes (.ok (finish s)) := by
  rw [finish]
  split_ifs with h
  · exact ⟨h, s.unregistered h⟩
  · exact ⟨rfl, rfl⟩

/-- A close that is thrown on comes before `finish`. -/
theorem completes_closeBrowser_iff (code : ℕ) (reason : List UInt16) (s : Session)
    (f : Session → Session) :
    Completes (closeBrowser code reason s >>= fun s => .ok (finish (f s))) ↔
      Closable code reason s := by
  by_cases h : Closable code reason s
  · obtain ⟨s', hs⟩ := closeBrowser_of_closable h
    rw [hs]
    exact iff_of_true (completes_finish _) h
  · rw [closeBrowser_of_not_closable h]
    exact iff_of_false id h

end Bud.WebSocketTeardown
