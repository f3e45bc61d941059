import Bud.Stem.PlainTerm
import Bud.Stem.Session

/-!
# Cutting and resuming

Two laws one would like of a session's events, with `S` its output stream: that the way `S` is cut
into chunks is invisible, and that an attachment resuming at `r` continues one that stopped there.

The first holds outright, since markers are found byte by byte. The second is decided by where a
marker's offset lies relative to the byte that triggered it: one past it, or two past it when the
terminator is `ESC \` and the parser dispatched on the `ESC`. A resumed attachment emits every
marker with offset at least `r`, and so emits again a marker triggered below `r` whose offset is
not.
-/

namespace Bud.Session

open Semantic Modes Emulator Grid Vte List

section

variable {V T : Type} [Parser V] [Terminal T]

/-- **Chunking is invisible.** Two ways of cutting one stream give the same semantic events, in
kind, payload and order, and leave the same semantic state. -/
theorem chunking_invariant (emitFrom : ℕ) (emitModeChanges trackGrid : Bool) (inner : Inner V T)
    (offset : ℕ) {xs ys : List (List UInt8)} (h : xs.flatten = ys.flatten) :
    semantic (processChunks emitFrom emitModeChanges trackGrid inner offset xs).2
        = semantic (processChunks emitFrom emitModeChanges trackGrid inner offset ys).2 ∧
      (processChunks emitFrom emitModeChanges trackGrid inner offset xs).1.sem
        = (processChunks emitFrom emitModeChanges trackGrid inner offset ys).1.sem := by
  obtain ⟨hsem, hout, -⟩ :=
    processChunks_spec emitFrom emitModeChanges trackGrid inner offset xs
  obtain ⟨hsem', hout', -⟩ :=
    processChunks_spec emitFrom emitModeChanges trackGrid inner offset ys
  rw [hsem, hout, hsem', hout', h]
  exact ⟨rfl, rfl⟩

end

/-- A prompt marker cut inside its parameters, against the same bytes in one chunk. -/
theorem chunking_invariant_prompt :
    semantic (processChunks 0 true true (Inner.new 8 2 4 0 : Inner EscState PlainTerm) 0
        [[0x1b, 0x5d, 0x31, 0x33], [0x33, 0x3b, 0x41], [0x07]]).2
      = semantic (processChunks 0 true true (Inner.new 8 2 4 0 : Inner EscState PlainTerm) 0
        [[0x1b, 0x5d, 0x31, 0x33, 0x33, 0x3b, 0x41, 0x07]]).2 :=
  (chunking_invariant 0 true true _ 0 rfl).1

/-! ### Marker events -/

/-- The events that report a marker of the stream. -/
def isMarkerEvent : Event → Bool
  | .promptReady _ | .commandStarted _ _ _ | .commandFinished _ _ _ _ | .cwdChanged _
  | .bracketedPasteChanged _ => true
  | _ => false

def markerEvents (es : List Event) : List Event := (es.filter isMarkerEvent).map eraseScreen

/-- The kinds of markers that are reported as an event of their own. -/
def emits : ScanKind → Bool
  | .promptStart | .commandOutputStart | .commandEnd _ | .cwd _ | .bracketedPasteSet _ => true
  | .commandInputStart | .altScreenEnter | .altScreenLeave => false

theorem markerEvents_append (es fs : List Event) :
    markerEvents (es ++ fs) = markerEvents es ++ markerEvents fs := by
  simp [markerEvents]

theorem isMarkerEvent_eraseScreen (e : Event) :
    isMarkerEvent (eraseScreen e) = isMarkerEvent e := by
  cases e <;> rfl

theorem isSemantic_of_isMarkerEvent (h : isMarkerEvent e = true) : isSemantic e = true := by
  cases e <;> first | rfl | cases h

theorem markerEvents_eq_filter_semantic (es : List Event) :
    markerEvents es = (semantic es).filter isMarkerEvent := by
  have hcomp : isMarkerEvent ∘ eraseScreen = isMarkerEvent := funext isMarkerEvent_eraseScreen
  rw [markerEvents, semantic, filter_map, hcomp, filter_filter]
  congr 1
  apply filter_congr
  intro e _
  cases h : isMarkerEvent e with
  | false => rfl
  | true => rw [isSemantic_of_isMarkerEvent h]; rfl

namespace Sem

def reports (emitFrom : ℕ) (s : Sem) (evs : List ScanEvent) : List Event :=
  ((s.onMarkers emitFrom true evs).2).filter isMarkerEvent

theorem onMarkers_fst (emitFrom : ℕ) (emitModeChanges : Bool) (s : Sem) (evs : List ScanEvent) :
    (s.onMarkers emitFrom emitModeChanges evs).1 = (s.onMarkers 0 true evs).1 := by
  induction evs generalizing s with
  | nil => rfl
  | cons ev evs ih => exact ih _

theorem isMarkerEvent_of_mem_markerEvent {s : Sem} (h : s.markerEvent ev = some e) :
    isMarkerEvent e = true := by
  rw [markerEvent] at h
  cases hk : ev.kind <;> rw [hk] at h <;> cases h <;> rfl

theorem markerEvent_isSome (s : Sem) (ev : ScanEvent) :
    (s.markerEvent ev).isSome = emits ev.kind := by
  rw [markerEvent]
  cases ev.kind <;> rfl

theorem filter_modeEvents (emitModeChanges : Bool) (change : Option ModeChange) :
    (modeEvents emitModeChanges change).filter isMarkerEvent = [] := by
  cases change <;> cases emitModeChanges <;> rfl

theorem filter_onMarker (emitFrom : ℕ) (emitModeChanges : Bool) (s : Sem) (ev : ScanEvent) :
    ((s.onMarker emitFrom emitModeChanges ev).2).filter isMarkerEvent
      = if emitFrom ≤ ev.atOffset then (s.markerEvent ev).toList else [] := by
  simp only [onMarker, filter_append]
  rw [filter_modeEvents, nil_append]
  split_ifs
  · cases hm : s.markerEvent ev with
    | none => rfl
    | some e => simp [isMarkerEvent_of_mem_markerEvent hm]
  · rfl

theorem filter_onMarkers (emitFrom : ℕ) (emitModeChanges : Bool) (s : Sem) (evs : List ScanEvent) :
    ((s.onMarkers emitFrom emitModeChanges evs).2).filter isMarkerEvent
      = s.reports emitFrom evs := by
  rw [reports]
  induction evs generalizing s with
  | nil => rfl
  | cons ev evs ih =>
    simp only [onMarkers, filter_append, filter_onMarker]
    exact congrArg _ (ih _)

theorem reports_cons (emitFrom : ℕ) (s : Sem) (ev : ScanEvent) (evs : List ScanEvent) :
    s.reports emitFrom (ev :: evs)
      = (if emitFrom ≤ ev.atOffset then (s.markerEvent ev).toList else []) ++
        (s.onMarkers 0 true [ev]).1.reports emitFrom evs := by
  rw [reports, onMarkers, filter_append, filter_onMarker]
  rfl

theorem reports_append (emitFrom : ℕ) (s : Sem) (xs ys : List ScanEvent) :
    s.reports emitFrom (xs ++ ys)
      = s.reports emitFrom xs ++ (s.onMarkers 0 true xs).1.reports emitFrom ys := by
  rw [reports, onMarkers_append, filter_append, onMarkers_fst]
  rfl

theorem reports_eq_of_le (h : ∀ ev ∈ evs, emitFrom ≤ ev.atOffset) (s : Sem) :
    s.reports emitFrom evs = s.reports 0 evs := by
  induction evs generalizing s with
  | nil => rfl
  | cons ev evs ih =>
    rw [reports_cons, reports_cons, if_pos (h ev mem_cons_self), if_pos (Nat.zero_le _),
      ih fun e he => h e (mem_cons_of_mem _ he)]

/-- Nothing is reported exactly when every marker that would be lies below the resume offset. -/
theorem reports_eq_nil_iff (s : Sem) :
    s.reports emitFrom evs = [] ↔ ∀ ev ∈ evs, emits ev.kind = true → ev.atOffset < emitFrom := by
  induction evs generalizing s with
  | nil => simp [reports, onMarkers]
  | cons ev evs ih =>
    rw [reports_cons, append_eq_nil_iff, ih, forall_mem_cons]
    refine and_congr_left' ?_
    have hsome := markerEvent_isSome s ev
    by_cases hemit : emitFrom ≤ ev.atOffset
    · rw [if_pos hemit]
      cases hm : s.markerEvent ev with
      | none =>
        rw [hm] at hsome
        simp [← hsome]
      | some e =>
        rw [hm] at hsome
        simp [← hsome]
        omega
    · rw [if_neg hemit]
      simp
      omega

end Sem

/-! ### Resuming -/

section

variable {V T : Type} [Parser V] [Terminal T]

theorem markerEvents_processChunks (emitFrom : ℕ) (emitModeChanges trackGrid : Bool)
    (inner : Inner V T) (offset : ℕ) (chunks : List (List UInt8)) :
    markerEvents (processChunks emitFrom emitModeChanges trackGrid inner offset chunks).2
      = inner.sem.reports emitFrom (scan inner.scanner offset chunks.flatten).2 := by
  rw [markerEvents_eq_filter_semantic,
    (processChunks_spec emitFrom emitModeChanges trackGrid inner offset chunks).2.1,
    Sem.filter_onMarkers]

def liveEvents (inner : Inner V T) (offset : ℕ) (chunks : List (List UInt8)) : List Event :=
  (processChunks 0 true true inner offset chunks).2

/-- The state an attachment goes live with: replay tracks no grid and reports no mode changes, and
the scroll anchor is synced before the first live feed. -/
def afterReplay (inner : Inner V T) (resumeFrom : ℕ) (replay : List (List UInt8)) : Inner V T :=
  let inner := (processChunks resumeFrom false false inner 0 replay).1
  { inner with emu := inner.emu.syncScrollAnchor }

/-- The events of an attachment that resumes from `resumeFrom`: the ring from offset 0 is replayed
in the chunks `replay`, then output comes in live. -/
def resumeEvents (inner : Inner V T) (resumeFrom : ℕ) (replay live : List (List UInt8)) :
    List Event :=
  (processChunks resumeFrom false false inner 0 replay).2 ++
    liveEvents (afterReplay inner resumeFrom replay) replay.flatten.length live

/-- Markers triggered at or after an offset are past it. -/
theorem le_atOffset_of_mem_scan {v : V} (h : ev ∈ (scan v base bytes).2) : base < ev.atOffset := by
  obtain ⟨xs, b, ys, -, hb⟩ := mem_scan h
  have := atOffset_of_mem_scanByte hb
  omega

/-- **A resumed attachment, marker by marker.** It repeats the markers of the first `r` bytes whose
offset is not below `r`, and then reports the rest of the stream. -/
theorem markerEvents_resume (inner : Inner V T) {S : List UInt8} {r : ℕ} (hrn : r ≤ n)
    (hreplay : replay.flatten = S.take n) (hlive : live.flatten = S.drop n) (hn : n ≤ S.length) :
    markerEvents (resumeEvents inner r replay live)
      = inner.sem.reports r (scan inner.scanner 0 (S.take r)).2 ++
        (inner.sem.onMarkers 0 true (scan inner.scanner 0 (S.take r)).2).1.reports 0
          (scan (parse inner.scanner (S.take r)) r (S.drop r)).2 := by
  obtain ⟨hsem, -, hscan⟩ := processChunks_spec r false false inner 0 replay
  have hsem' : (afterReplay inner r replay).sem
      = (inner.sem.onMarkers 0 true (scan inner.scanner 0 (S.take n)).2).1 := by
    rw [← hreplay, ← Sem.onMarkers_fst r false]
    exact hsem
  have hscan' : (afterReplay inner r replay).scanner = parse inner.scanner (S.take n) := by
    rw [← hreplay]
    exact hscan
  have hlen : (S.take n).length = n := by rw [length_take]; omega
  have hlenr : (S.take r).length = r := by rw [length_take]; omega
  -- the bytes between the resume offset and the end of the replay
  set mid := (S.drop r).take (n - r) with hmid
  have htake : S.take n = S.take r ++ mid := by
    rw [hmid, ← take_add, Nat.add_sub_cancel' hrn]
  have hdrop : S.drop r = mid ++ S.drop n := by
    have := (take_append_drop (n - r) (S.drop r)).symm
    rwa [drop_drop, Nat.add_sub_cancel' hrn] at this
  have hmidlen : mid.length = n - r := by
    rw [hmid, length_take, length_drop]
    omega
  rw [resumeEvents, markerEvents_append, markerEvents_processChunks, liveEvents,
    markerEvents_processChunks, hsem', hscan', hreplay, hlive, hlen]
  rw [htake, scan_append, Sem.reports_append, parse_append, Sem.onMarkers_append, hdrop,
    scan_append, Sem.reports_append, append_assoc, hlenr, hmidlen,
    show r + (n - r) = n by omega, Nat.zero_add]
  rw [Sem.reports_eq_of_le fun ev hev => Nat.le_of_lt (le_atOffset_of_mem_scan hev)]

/-- What an attachment's emulator is created with. -/
structure Geometry where
  cols : ℕ
  rows : ℕ
  scrollbackLines : ℕ

/-- A fresh attachment to a ring that retains the stream from its start. -/
def attach (g : Geometry) : Inner V T := Inner.new g.cols g.rows g.scrollbackLines 0

/-- What a live parse reports does not depend on its geometry. -/
theorem markerEvents_live_attach (g : Geometry) (chunks : List (List UInt8)) :
    markerEvents (liveEvents (attach g : Inner V T) 0 chunks)
      = (Sem.new 0).reports 0 (scan (Parser.new : V) 0 chunks.flatten).2 :=
  markerEvents_processChunks ..

/-- **Exactly once, exactly when.** For every stream `S`, every resume offset `r` in it and every
way the two attachments and the uninterrupted one cut it, the marker events of the attachment that
stopped at `r` and of the one that resumed there are together those of the uninterrupted attachment
if and only if no marker the scanner reports within the first `r` bytes has an offset of `r` or
more. -/
theorem resume_exactly_once_iff (g₁ g₂ g : Geometry) {S : List UInt8} {r n : ℕ} (hrn : r ≤ n)
    (hn : n ≤ S.length) {whole first replay live : List (List UInt8)}
    (hwhole : whole.flatten = S) (hfirst : first.flatten = S.take r)
    (hreplay : replay.flatten = S.take n) (hlive : live.flatten = S.drop n) :
    (markerEvents (liveEvents (attach g₁ : Inner V T) 0 first) ++
        markerEvents (resumeEvents (attach g₂ : Inner V T) r replay live)).Perm
        (markerEvents (liveEvents (attach g : Inner V T) 0 whole)) ↔
      ∀ ev ∈ (scan (Parser.new : V) 0 (S.take r)).2, emits ev.kind = true → ev.atOffset < r := by
  have hlenr : (S.take r).length = r := by rw [length_take]; omega
  have hsplit : (scan (Parser.new : V) 0 S).2 = (scan (Parser.new : V) 0 (S.take r)).2 ++
      (scan (parse (Parser.new : V) (S.take r)) r (S.drop r)).2 := by
    have := scan_append (Parser.new : V) 0 (S.take r) (S.drop r)
    rwa [take_append_drop, hlenr, Nat.zero_add] at this
  rw [markerEvents_resume _ hrn hreplay hlive hn, markerEvents_live_attach,
    markerEvents_live_attach, attach, sem_new, scanner_new, hfirst, hwhole, hsplit,
    Sem.reports_append, perm_append_left_iff, ← Sem.reports_eq_nil_iff (Sem.new 0)]
  constructor
  · intro h
    have := h.length_eq
    rw [length_append] at this
    exact length_eq_zero_iff.mp (by omega)
  · intro h
    rw [h, nil_append]

end

/-- `ESC ] 133 ; A BEL`. -/
def promptBytes : List UInt8 := [0x1b, 0x5d, 0x31, 0x33, 0x33, 0x3b, 0x41, 0x07]

/-- A prompt marker of eight bytes and a character after it; resuming after the character. -/
theorem resume_exactly_once_after_prompt :
    (markerEvents (liveEvents (attach ⟨8, 2, 4⟩ : Inner EscState PlainTerm) 0
          [promptBytes, [0x24]]) ++
        markerEvents (resumeEvents (attach ⟨8, 2, 4⟩ : Inner EscState PlainTerm) 9
          [promptBytes ++ [0x24]] [[0x24]])).Perm
      (markerEvents (liveEvents (attach ⟨8, 2, 4⟩ : Inner EscState PlainTerm) 0
        [promptBytes, [0x24, 0x24]])) :=
  (resume_exactly_once_iff ⟨8, 2, 4⟩ ⟨8, 2, 4⟩ ⟨8, 2, 4⟩ (Nat.le_refl 9) (by decide)
    rfl rfl rfl rfl).mpr (by decide)

/-- Resuming right after the terminator of a prompt marker reports the prompt a second time. -/
theorem resume_repeats_prompt :
    ¬ (markerEvents (liveEvents (attach ⟨8, 2, 4⟩ : Inner EscState PlainTerm) 0 [promptBytes]) ++
        markerEvents (resumeEvents (attach ⟨8, 2, 4⟩ : Inner EscState PlainTerm) 8
          [promptBytes] [[0x24]])).Perm
      (markerEvents (liveEvents (attach ⟨8, 2, 4⟩ : Inner EscState PlainTerm) 0
        [promptBytes, [0x24]])) := by
  decide

end Bud.Session
