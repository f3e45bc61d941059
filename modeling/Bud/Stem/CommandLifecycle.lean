import Bud.Stem.Ordering

/-!
# The lifecycle of commands

A shell marks its commands with `C` and `D`, and its prompts with `A`, in whatever order its
integration gets them out. `process_chunk` keeps the open command, the next index and the offset
where the last region starts, and derives `commandStarted` and `commandFinished` from them. A
consumer sees the events alone: to it a command is open from its start to the next start, finish or
prompt (`stillOpen`).

Events below the offset that an attachment resumes from are not emitted, and the offset is that of
the chunk, so a consumer may see the end of a command whose start it has missed.
-/

namespace Bud.Session

open Semantic Modes Emulator Grid Vte List

/-! ### What a consumer sees -/

def startedIndex : Event → Option ℕ
  | .commandStarted index _ _ => some index
  | _ => none

def finishedIndex : Event → Option ℕ
  | .commandFinished index _ _ _ => some index
  | _ => none

def started (es : List Event) : List ℕ := es.filterMap startedIndex

def finished (es : List Event) : List ℕ := es.filterMap finishedIndex

def openAfter (current : Option (ℕ × ℕ)) : Event → Option (ℕ × ℕ)
  | .commandStarted index start _ => some (index, start)
  | .commandFinished .. => none
  | .promptReady _ => none
  | _ => current

def stillOpen (es : List Event) : Option (ℕ × ℕ) := es.foldl openAfter none

/-- Commands start in order and finish once, and what finishes is the command that is open, or has
an index that nothing starts with. -/
structure CommandLifecycle (es : List Event) : Prop where
  started_increasing : (started es).Pairwise (· < ·)
  finished_once : (finished es).Nodup
  finish_matches : ∀ before after index exitCode start stop,
    es = before ++ .commandFinished index exitCode start stop :: after →
      stillOpen before = some (index, start) ∨ index ∉ started es
  start_le_stop : ∀ index exitCode start stop,
    .commandFinished index exitCode start stop ∈ es → start ≤ stop

theorem started_append (es fs : List Event) : started (es ++ fs) = started es ++ started fs :=
  filterMap_append

theorem finished_append (es fs : List Event) : finished (es ++ fs) = finished es ++ finished fs :=
  filterMap_append

theorem stillOpen_concat (es : List Event) (e : Event) :
    stillOpen (es ++ [e]) = openAfter (stillOpen es) e := by
  rw [stillOpen, foldl_append]
  rfl

variable {es : List Event} {e : Event}

variable {index : ℕ}

theorem mem_finished {start stop : ℕ} {exitCode : Option ℤ}
    (h : .commandFinished index exitCode start stop ∈ es) : index ∈ finished es :=
  mem_filterMap.mpr ⟨_, h, rfl⟩

theorem concat_eq_append_cons {α : Type} {xs before after : List α} {x y : α}
    (h : xs ++ [x] = before ++ y :: after) :
    (xs = before ∧ x = y) ∨ ∃ rest, xs = before ++ y :: rest := by
  rcases eq_nil_or_concat after with rfl | ⟨rest, z, rfl⟩
  · obtain ⟨hxs, hx⟩ := append_inj' h rfl
    exact .inl ⟨hxs, head_eq_of_cons_eq hx⟩
  · rw [concat_eq_append, ← cons_append, ← append_assoc] at h
    exact .inr ⟨rest, (append_inj' h rfl).1⟩

/-- A start takes an index above all, and a finish one that has not finished. -/
theorem CommandLifecycle.concat (h : CommandLifecycle es)
    (hstart : ∀ index, startedIndex e = some index → (∀ i ∈ started es, i < index) ∧ index ∉
      finished es)
    (hfinish : ∀ index exitCode start stop, e = .commandFinished index exitCode start stop → index ∉
      finished es ∧ (stillOpen es = some (index, start) ∨ index ∉ started es) ∧ start ≤ stop) :
    CommandLifecycle (es ++ [e]) := by
  have hfresh : ∀ index ∈ finished es, startedIndex e ≠ some index := fun index hindex hsome =>
    (hstart index hsome).2 hindex
  have hstarted : ∀ index, startedIndex e ≠ some index → index ∉ started es →
      index ∉ started (es ++ [e]) := by
    intro index hne hnot hmem
    rw [started_append, mem_append] at hmem
    rcases hmem with hmem | hmem
    · exact hnot hmem
    · obtain ⟨e', he', hsome⟩ := mem_filterMap.mp hmem
      rw [mem_singleton.mp he'] at hsome
      exact hne hsome
  refine ⟨?_, ?_, ?_, ?_⟩
  · rw [started_append]
    refine pairwise_append.mpr ⟨h.started_increasing, ?_, ?_⟩
    · cases he : startedIndex e <;> simp [started, he]
    · intro i hi index hindex
      obtain ⟨e', he', hsome⟩ := mem_filterMap.mp hindex
      rw [mem_singleton.mp he'] at hsome
      exact (hstart index hsome).1 i hi
  · rw [finished_append]
    refine nodup_append.mpr ⟨h.finished_once, ?_, ?_⟩
    · cases he : finishedIndex e <;> simp [finished, he]
    · intro i hi index hindex heq
      obtain ⟨e', he', hsome⟩ := mem_filterMap.mp hindex
      rw [mem_singleton.mp he'] at hsome
      cases e with
      | commandFinished index' exitCode start stop =>
        cases hsome
        exact (hfinish _ _ _ _ rfl).1 (heq ▸ hi)
      | _ => cases hsome
  · intro before after index exitCode start stop heq
    rcases concat_eq_append_cons heq with ⟨rfl, rfl⟩ | ⟨rest, hes⟩
    · exact (hfinish _ _ _ _ rfl).2.1.imp id (hstarted index nofun)
    · have hmem : .commandFinished index exitCode start stop ∈ es := by
        rw [hes]
        exact mem_append_right _ mem_cons_self
      exact (h.finish_matches before rest index exitCode start stop hes).imp id
        (hstarted index (hfresh index (mem_finished hmem)))
  · intro index exitCode start stop hmem
    rcases mem_append.mp hmem with hmem | hmem
    · exact h.start_le_stop index exitCode start stop hmem
    · exact (hfinish _ _ _ _ (mem_singleton.mp hmem).symm).2.2

theorem started_concat_of_none (h : startedIndex e = none) : started (es ++ [e]) = started es := by
  rw [started_append, started, started, filterMap_cons_none h, filterMap_nil, append_nil]

theorem finished_concat_of_none (h : finishedIndex e = none) :
    finished (es ++ [e]) = finished es := by
  rw [finished_append, finished, finished, filterMap_cons_none h, filterMap_nil, append_nil]

theorem CommandLifecycle.concat_of_none (h : CommandLifecycle es) (hs : startedIndex e = none)
    (hf : finishedIndex e = none) : CommandLifecycle (es ++ [e]) := by
  refine h.concat (fun index hsome => ?_) ?_
  · rw [hs] at hsome
    cases hsome
  · rintro index exitCode start stop rfl
    cases hf

/-- An event that is no start, no finish and no prompt. -/
structure Neutral (e : Event) : Prop where
  started : startedIndex e = none
  finished : finishedIndex e = none
  openAfter : ∀ current, openAfter current e = current

section

variable {V T : Type}

theorem onMarkers_append_snd [Terminal T] (emitFrom : ℕ) (emitModeChanges : Bool)
    (inner : Inner V T) (xs ys : List ScanEvent) :
    (inner.onMarkers emitFrom emitModeChanges (xs ++ ys)).2
      = (inner.onMarkers emitFrom emitModeChanges xs).2 ++
        ((inner.onMarkers emitFrom emitModeChanges xs).1.onMarkers emitFrom emitModeChanges
          ys).2 := by
  induction xs generalizing inner with
  | nil => rfl
  | cons x xs ih => simp only [cons_append, Inner.onMarkers, ih, append_assoc]

/-! ### One marker -/

/-- What is remembered of the markers so far, none of them past `pos`, and of their events. -/
structure Inv (pos : ℕ) (inner : Inner V T) (es : List Event) : Prop where
  lifecycle : CommandLifecycle es
  started_lt : ∀ i ∈ started es, i < inner.nextCommandIndex
  finished_lt : ∀ i ∈ finished es, i < inner.nextCommandIndex
  region_le : inner.lastRegionStart ≤ pos
  open_lt : ∀ i start, inner.openCommand = some (i, start) → i < inner.nextCommandIndex
  open_unfinished : ∀ i start, inner.openCommand = some (i, start) → i ∉ finished es
  open_le : ∀ i start, inner.openCommand = some (i, start) → start ≤ pos
  open_seen : ∀ i start, inner.openCommand = some (i, start) → i ∈ started es →
    stillOpen es = some (i, start)

namespace Inv

variable {pos pos' : ℕ} {inner : Inner V T} {es : List Event}

theorem mono (h : Inv pos inner es) (hle : pos ≤ pos') : Inv pos' inner es :=
  { h with
    region_le := h.region_le.trans hle
    open_le := fun i start hopen => (h.open_le i start hopen).trans hle }

/-- What else a session has does not matter. -/
theorem congr (h : Inv pos inner es) {inner' : Inner V T}
    (hnext : inner'.nextCommandIndex = inner.nextCommandIndex)
    (hopen : inner'.openCommand = inner.openCommand)
    (hregion : inner'.lastRegionStart = inner.lastRegionStart) : Inv pos inner' es := by
  refine ⟨h.lifecycle, ?_, ?_, ?_, ?_, ?_, ?_, ?_⟩
  · rw [hnext]
    exact h.started_lt
  · rw [hnext]
    exact h.finished_lt
  · rw [hregion]
    exact h.region_le
  · rw [hopen, hnext]
    exact h.open_lt
  · rw [hopen]
    exact h.open_unfinished
  · rw [hopen]
    exact h.open_le
  · rw [hopen]
    exact h.open_seen

theorem neutral (h : Inv pos inner es) (he : Neutral e) : Inv pos inner (es ++ [e]) := by
  have hstarted : started (es ++ [e]) = started es := started_concat_of_none he.started
  have hfinished : finished (es ++ [e]) = finished es := finished_concat_of_none he.finished
  refine ⟨h.lifecycle.concat_of_none he.started he.finished, ?_, ?_, h.region_le, h.open_lt, ?_,
    h.open_le, ?_⟩
  · rw [hstarted]
    exact h.started_lt
  · rw [hfinished]
    exact h.finished_lt
  · rw [hfinished]
    exact h.open_unfinished
  · rw [hstarted, stillOpen_concat, he.openAfter]
    exact h.open_seen

theorem append_neutral (h : Inv pos inner es) (hout : ∀ e ∈ out, Neutral e) :
    Inv pos inner (es ++ out) := by
  induction out generalizing es with
  | nil => rwa [append_nil]
  | cons e out ih =>
    rw [append_cons]
    exact ih (h.neutral (hout e mem_cons_self)) fun e' he' => hout e' (.tail _ he')

/-- An event that starts and finishes nothing, where nothing is open. -/
theorem closed (h : Inv pos inner es) (hopen : inner.openCommand = none)
    (hs : startedIndex e = none) (hf : finishedIndex e = none) : Inv pos inner (es ++ [e]) := by
  have hnone : ∀ i start, inner.openCommand ≠ some (i, start) := by
    intro i start hsome
    rw [hopen] at hsome
    cases hsome
  refine ⟨h.lifecycle.concat_of_none hs hf, ?_, ?_, h.region_le, h.open_lt, ?_, h.open_le, ?_⟩
  · rw [started_concat_of_none hs]
    exact h.started_lt
  · rw [finished_concat_of_none hf]
    exact h.finished_lt
  all_goals exact fun i start hsome => absurd hsome (hnone i start)

theorem start (h : Inv pos inner es) {start : ℕ} (hopen : inner.openCommand = some (index, start))
    (hlt : ∀ i ∈ started es, i < index) (screen : List (List Char)) :
    Inv pos inner (es ++ [.commandStarted index start screen]) := by
  have hfinished : finished (es ++ [.commandStarted index start screen]) = finished es :=
    finished_concat_of_none rfl
  refine ⟨h.lifecycle.concat ?_ nofun, ?_, ?_, h.region_le, h.open_lt, ?_, h.open_le, ?_⟩
  · rintro _ ⟨⟩
    exact ⟨hlt, h.open_unfinished index start hopen⟩
  · intro i hi
    rw [started_append, mem_append] at hi
    rcases hi with hi | hi
    · exact h.started_lt i hi
    · rw [mem_singleton.mp hi]
      exact h.open_lt index start hopen
  · rw [hfinished]
    exact h.finished_lt
  · rw [hfinished]
    exact h.open_unfinished
  · intro i start' hsome _
    rw [stillOpen_concat, ← hsome, hopen]
    rfl

theorem finish (h : Inv pos inner es) {start : ℕ} (hopen : inner.openCommand = none)
    (hlt : index < inner.nextCommandIndex) (hunfinished : index ∉ finished es)
    (hmatches : stillOpen es = some (index, start) ∨ index ∉ started es) (hle : start ≤ stop)
    (exitCode : Option ℤ) : Inv pos inner (es ++ [.commandFinished index exitCode start stop]) := by
  have hnone : ∀ i start, inner.openCommand ≠ some (i, start) := by
    intro i start hsome
    rw [hopen] at hsome
    cases hsome
  refine ⟨h.lifecycle.concat nofun ?_, ?_, ?_, h.region_le, h.open_lt, ?_, h.open_le, ?_⟩
  · rintro _ _ _ _ ⟨⟩
    exact ⟨hunfinished, hmatches, hle⟩
  · rw [started_concat_of_none rfl]
    exact h.started_lt
  · intro i hi
    rw [finished_append, mem_append] at hi
    rcases hi with hi | hi
    · exact h.finished_lt i hi
    · rw [mem_singleton.mp hi]
      exact hlt
  all_goals exact fun i start hsome => absurd hsome (hnone i start)

/-- An event that may have been suppressed. -/
theorem emit (h : Inv pos inner es) (c : Prop) [Decidable c] (h' : Inv pos inner (es ++ [e])) :
    Inv pos inner (es ++ if c then (some e).toList else []) := by
  by_cases hc : c
  · rwa [if_pos hc]
  · rwa [if_neg hc, append_nil]

variable [Terminal T]

variable {ev : ScanEvent} {cwd : Option (List Char)}

/-- **What one marker keeps**, but for the mode machine. -/
theorem afterMarker (h : Inv pos inner es) (hle : pos ≤ ev.atOffset) (c : Prop) [Decidable c] :
    Inv ev.atOffset (inner.afterMarker ev)
      (es ++ if c then (inner.markerEvent ev).toList else []) := by
  have hmono := h.mono hle
  rw [Inner.afterMarker, Inner.markerEvent]
  cases ev.kind with
  | promptStart =>
    have hstate : Inv ev.atOffset
        { inner with
          sawRealMarkers := true
          lastRegionStart := ev.atOffset
          openCommand := none
          emu := inner.emu.resetCursorStyle } es := by
      refine ⟨h.lifecycle, h.started_lt, h.finished_lt, le_rfl, ?_, ?_, ?_, ?_⟩
      all_goals rintro _ _ ⟨⟩
    exact hstate.emit c (hstate.closed rfl rfl rfl)
  | commandInputStart =>
    have hstate : Inv ev.atOffset
        { inner with sawRealMarkers := true, lastRegionStart := ev.atOffset } es :=
      { hmono with region_le := le_rfl }
    simpa using hstate
  | commandOutputStart =>
    have hlt : inner.nextCommandIndex < inner.nextCommandIndex + 1 := Nat.lt_succ_self _
    have hstate : Inv ev.atOffset
        { inner with
          sawRealMarkers := true
          nextCommandIndex := inner.nextCommandIndex + 1
          openCommand := some (inner.nextCommandIndex, ev.atOffset) } es := by
      refine ⟨h.lifecycle, fun i hi => (h.started_lt i hi).trans hlt,
        fun i hi => (h.finished_lt i hi).trans hlt, hmono.region_le, ?_, ?_, ?_, ?_⟩
      · rintro _ _ ⟨⟩
        exact hlt
      · rintro _ _ ⟨⟩ hmem
        exact (h.finished_lt _ hmem).false
      · rintro _ _ ⟨⟩
        exact le_rfl
      · rintro _ _ ⟨⟩ hmem
        exact absurd (h.started_lt _ hmem) (lt_irrefl _)
    exact hstate.emit c (hstate.start rfl h.started_lt _)
  | commandEnd exitCode =>
    cases hopen : inner.openCommand with
    | some c =>
      obtain ⟨index, start⟩ := c
      have hstate : Inv ev.atOffset { inner with openCommand := none } es := by
        refine ⟨h.lifecycle, h.started_lt, h.finished_lt, hmono.region_le, ?_, ?_, ?_, ?_⟩
        all_goals rintro _ _ ⟨⟩
      have hmatches : stillOpen es = some (index, start) ∨ index ∉ started es := by
        by_cases hseen : index ∈ started es
        · exact .inl (h.open_seen index start hopen hseen)
        · exact .inr hseen
      exact hstate.emit c (hstate.finish rfl (h.open_lt _ _ hopen) (h.open_unfinished _ _ hopen)
        hmatches (hmono.open_le _ _ hopen) exitCode)
    | none =>
      have hlt : inner.nextCommandIndex < inner.nextCommandIndex + 1 := Nat.lt_succ_self _
      have hstate : Inv ev.atOffset
          { inner with
            nextCommandIndex := inner.nextCommandIndex + 1
            openCommand := none } es := by
        refine ⟨h.lifecycle, fun i hi => (h.started_lt i hi).trans hlt,
          fun i hi => (h.finished_lt i hi).trans hlt, hmono.region_le, ?_, ?_, ?_, ?_⟩
        all_goals rintro _ _ ⟨⟩
      exact hstate.emit c (hstate.finish rfl hlt (fun hmem => (h.finished_lt _ hmem).false)
        (.inr fun hmem => (h.started_lt _ hmem).false) hmono.region_le exitCode)
  | cwd path =>
    have hstate : Inv ev.atOffset { inner with lastCwd := some path } es :=
      hmono.congr rfl rfl rfl
    exact hstate.emit c (hstate.neutral ⟨rfl, rfl, fun _ => rfl⟩)
  | altScreenEnter | altScreenLeave => simpa using hmono
  | bracketedPasteSet enabled => exact hmono.emit c (hmono.neutral ⟨rfl, rfl, fun _ => rfl⟩)

/-- **What one marker keeps.** -/
theorem onMarker (h : Inv pos inner es) (hle : pos ≤ ev.atOffset) (emitFrom : ℕ)
    (emitModeChanges : Bool) : Inv ev.atOffset (inner.onMarker emitFrom emitModeChanges ev).1
      (es ++ (inner.onMarker emitFrom emitModeChanges ev).2) := by
  have hmodes : Inv pos { inner with modes := (inner.modes.onScan ev.kind).1 }
      (es ++ modeEvents emitModeChanges (inner.modes.onScan ev.kind).2) := by
    have hstate : Inv pos { inner with modes := (inner.modes.onScan ev.kind).1 } es :=
      h.congr rfl rfl rfl
    refine hstate.append_neutral fun e he => ?_
    obtain ⟨mode, integration, rfl⟩ := mem_modeEvents he
    exact ⟨rfl, rfl, fun _ => rfl⟩
  have hmarker := hmodes.afterMarker hle (decide (emitFrom ≤ ev.atOffset) = true)
  rwa [append_assoc] at hmarker

variable {evs : List ScanEvent} {ds : List Delivery} {emitModeChanges : Bool} {o : Option (ℕ × ℕ)}

theorem onMarkers_of_eq (h : Inv pos inner es) (hevs : ∀ ev ∈ evs, ev.atOffset = pos) (emitFrom : ℕ)
    (emitModeChanges : Bool) : Inv pos (inner.onMarkers emitFrom emitModeChanges evs).1
      (es ++ (inner.onMarkers emitFrom emitModeChanges evs).2) := by
  induction evs generalizing inner es with
  | nil => rwa [Inner.onMarkers, append_nil]
  | cons ev evs ih =>
    have hev := hevs ev mem_cons_self
    have hfirst := h.onMarker hev.ge emitFrom emitModeChanges
    rw [hev] at hfirst
    have hrest := ih hfirst fun ev' hev' => hevs ev' (.tail _ hev')
    rwa [append_assoc] at hrest

variable [Parser V]

/-! ### A chunk -/

/-- The markers of one byte have the offset after it, or there is one that is one further. -/
theorem scanByte (h : Inv (pos + 1) inner es) (v : V) (b : UInt8) (emitFrom : ℕ)
    (emitModeChanges : Bool) :
    Inv (pos + 2) (inner.onMarkers emitFrom emitModeChanges (Semantic.scanByte pos v b)).1
      (es ++ (inner.onMarkers emitFrom emitModeChanges (Semantic.scanByte pos v b)).2) := by
  rcases scanByte_cases pos v b with hall | ⟨params, kind, -, -, heq⟩
  · exact (h.onMarkers_of_eq hall emitFrom emitModeChanges).mono (Nat.le_succ _)
  · rw [heq]
    refine (h.mono (Nat.le_succ _)).onMarkers_of_eq (fun ev hev => ?_) emitFrom emitModeChanges
    rw [mem_singleton.mp hev]

theorem scan (h : Inv (pos + 1) inner es) (v : V) (bytes : List UInt8) (emitFrom : ℕ)
    (emitModeChanges : Bool) :
    Inv (pos + bytes.length + 1)
      (inner.onMarkers emitFrom emitModeChanges (Semantic.scan v pos bytes).2).1
      (es ++ (inner.onMarkers emitFrom emitModeChanges (Semantic.scan v pos bytes).2).2) := by
  induction bytes generalizing pos inner es v with
  | nil => simpa [Semantic.scan, Inner.onMarkers] using h
  | cons b bs ih =>
    have hrest := ih (h.scanByte v b emitFrom emitModeChanges) (Parser.advance v b).1
    rw [scan_cons, onMarkers_append_fst, onMarkers_append_snd, length_cons, ← append_assoc]
    rwa [show pos + (bs.length + 1) + 1 = pos + 1 + bs.length + 1 by omega]

theorem processChunk (h : Inv (offset + 1) inner es) (bytes : List UInt8) (emitFrom : ℕ)
    (emitModeChanges trackGrid : Bool) :
    Inv (offset + bytes.length + 1)
      (processChunk inner offset bytes emitFrom emitModeChanges trackGrid).1
      (es ++ (Session.processChunk inner offset bytes emitFrom emitModeChanges trackGrid).2.1) := by
  have houtput : Inv (offset + 1) (inner.feedChunk offset bytes trackGrid).1
      (es ++ chunkOutput offset bytes emitFrom) := by
    have hstate : Inv (offset + 1) (inner.feedChunk offset bytes trackGrid).1 es :=
      h.congr rfl rfl rfl
    refine hstate.append_neutral fun e he => ?_
    rw [chunkOutput] at he
    split_ifs at he
    · rw [mem_singleton.mp he]
      exact ⟨rfl, rfl, fun _ => rfl⟩
    · cases he
  have hscan := houtput.scan inner.scanner bytes emitFrom emitModeChanges
  rwa [append_assoc] at hscan

end Inv

/-! ### A run -/

variable [Terminal T] [Parser V]

/-- One call of `process_chunk`. -/
structure Delivery where
  offset : ℕ
  bytes : List UInt8
  emitFrom : ℕ
  emitModeChanges : Bool
  trackGrid : Bool

/-- Chunks one after the other, of the replay and of live output. -/
def deliver : Inner V T → List Delivery → Inner V T × List Event
  | inner, [] => (inner, [])
  | inner, d :: ds =>
    let (inner, out, _) :=
      processChunk inner d.offset d.bytes d.emitFrom d.emitModeChanges d.trackGrid
    let (inner, outs) := deliver inner ds
    (inner, out ++ outs)

/-- Chunks come in the order of the stream; bytes may be missing between them. -/
def InOrder : ℕ → List Delivery → Prop
  | _, [] => True
  | pos, d :: ds => pos ≤ d.offset ∧ InOrder (d.offset + d.bytes.length) ds

theorem Inv.deliver {pos : ℕ} {inner : Inner V T} (h : Inv (pos + 1) inner es)
    (hds : InOrder pos ds) :
    ∃ pos', Inv pos' (deliver inner ds).1 (es ++ (Session.deliver inner ds).2) := by
  induction ds generalizing pos inner es with
  | nil => exact ⟨pos + 1, by rwa [Session.deliver, append_nil]⟩
  | cons d ds ih =>
    have hchunk := (h.mono (Nat.succ_le_succ hds.1)).processChunk d.bytes d.emitFrom
      d.emitModeChanges d.trackGrid
    have hrest := ih hchunk hds.2
    rwa [append_assoc] at hrest

/-- The events of a run, each with the command that the session has open after the marker that the
event is about. -/
def traceMarkers (emitFrom : ℕ) (emitModeChanges : Bool) :
    Inner V T → List ScanEvent → List (Event × Option (ℕ × ℕ))
  | _, [] => []
  | inner, ev :: evs =>
    let (inner, out) := inner.onMarker emitFrom emitModeChanges ev
    out.map (fun e => (e, inner.openCommand)) ++ traceMarkers emitFrom emitModeChanges inner evs

def trace : Inner V T → List Delivery → List (Event × Option (ℕ × ℕ))
  | _, [] => []
  | inner, d :: ds =>
    let (fed, scanEvents, _) := inner.feedChunk d.offset d.bytes d.trackGrid
    (chunkOutput d.offset d.bytes d.emitFrom).map (fun e => (e, fed.openCommand)) ++
      traceMarkers d.emitFrom d.emitModeChanges fed scanEvents ++
      trace
        (processChunk inner d.offset d.bytes d.emitFrom d.emitModeChanges d.trackGrid).1 ds

omit [Parser V] in
theorem map_fst_traceMarkers (emitFrom : ℕ) (emitModeChanges : Bool) (inner : Inner V T)
    (evs : List ScanEvent) :
    (traceMarkers emitFrom emitModeChanges inner evs).map Prod.fst
      = (inner.onMarkers emitFrom emitModeChanges evs).2 := by
  induction evs generalizing inner with
  | nil => rfl
  | cons ev evs ih =>
    simp only [traceMarkers, Inner.onMarkers, map_append, map_map, ih]
    exact congrArg (· ++ _) (map_id _)

theorem map_fst_trace (inner : Inner V T) (ds : List Delivery) :
    (trace inner ds).map Prod.fst = (deliver inner ds).2 := by
  induction ds generalizing inner with
  | nil => rfl
  | cons d ds ih =>
    simp only [trace, deliver, processChunk, map_append, map_map, ih, map_fst_traceMarkers]
    exact congrArg (· ++ _ ++ _) (map_id _)

omit [Parser V] in
/-- A prompt is about a marker that closes. -/
theorem openCommand_of_promptReady {inner : Inner V T}
    (h : .promptReady cwd ∈ (inner.onMarker emitFrom emitModeChanges ev).2) :
    (inner.onMarker emitFrom emitModeChanges ev).1.openCommand = none := by
  rcases mem_append.mp h with h | h
  · obtain ⟨_, _, heq⟩ := mem_modeEvents h
    cases heq
  · split_ifs at h
    · rw [Inner.markerEvent] at h
      rw [Inner.onMarker]
      dsimp only
      rw [Inner.afterMarker]
      cases hk : ev.kind with
      | promptStart => rfl
      | commandEnd exitCode | _ =>
        rw [hk] at h
        simp at h
    · cases h

omit [Parser V] in
theorem traceMarkers_promptReady {inner : Inner V T}
    (h : (.promptReady cwd, o) ∈ traceMarkers emitFrom emitModeChanges inner evs) : o = none := by
  induction evs generalizing inner with
  | nil => cases h
  | cons ev evs ih =>
    rcases mem_append.mp h with h | h
    · obtain ⟨e, he, heq⟩ := mem_map.mp h
      obtain ⟨rfl, rfl⟩ := Prod.mk.inj heq
      exact openCommand_of_promptReady he
    · exact ih h

theorem trace_promptReady {inner : Inner V T} (h : (.promptReady cwd, o) ∈ trace inner ds) :
    o = none := by
  induction ds generalizing inner with
  | nil => cases h
  | cons d ds ih =>
    rcases mem_append.mp h with h | h
    · rcases mem_append.mp h with h | h
      · obtain ⟨e, he, heq⟩ := mem_map.mp h
        rw [chunkOutput] at he
        split_ifs at he
        · rw [mem_singleton.mp he] at heq
          cases heq
        · cases he
      · exact traceMarkers_promptReady h
    · exact ih h

/-- **The lifecycle of commands**, on a fresh session and whatever the markers are: commands start
in order and finish once, what finishes is open or was never started, its output does not end before
it starts, and nothing is open after a prompt. -/
theorem command_lifecycle (cols rows scrollbackLines ringOldest : ℕ) (ds : List Delivery)
    (hds : InOrder ringOldest ds) :
    let session : Inner V T := Inner.new cols rows scrollbackLines ringOldest
    CommandLifecycle (deliver session ds).2 ∧
      ∀ cwd o, (.promptReady cwd, o) ∈ trace session ds → o = none := by
  intro session
  have hnew : Inv (ringOldest + 1) session [] :=
    ⟨⟨Pairwise.nil, nodup_nil, fun before _ _ _ _ _ h => by simp at h, nofun⟩, nofun,
      nofun, Nat.le_succ _, nofun, nofun, nofun, nofun⟩
  obtain ⟨pos, hinv⟩ := hnew.deliver hds
  exact ⟨hinv.lifecycle, fun cwd o h => trace_promptReady h⟩

end

/-- `D`, `C` and `A`, and an end that comes too late. -/
def strayMarkers : List Delivery :=
  [⟨16, [0x1b, 0x5d, 0x31, 0x33, 0x33, 0x3b, 0x44, 0x07], 0, true, true⟩,
    ⟨24, [0x1b, 0x5d, 0x31, 0x33, 0x33, 0x3b, 0x43, 0x07, 0x24], 0, true, true⟩,
    ⟨33, [0x1b, 0x5d, 0x31, 0x33, 0x33, 0x3b, 0x41, 0x07], 0, true, true⟩,
    ⟨41, [0x1b, 0x5d, 0x31, 0x33, 0x33, 0x3b, 0x44, 0x07], 0, true, true⟩]

theorem command_lifecycle_strayMarkers :
    (finished (deliver (Inner.new 8 2 4 16 : Inner EscState PlainTerm) strayMarkers).2 = [0, 2] ∧
        started (deliver (Inner.new 8 2 4 16 : Inner EscState PlainTerm) strayMarkers).2 = [1]) ∧
      CommandLifecycle
        (deliver (Inner.new 8 2 4 16 : Inner EscState PlainTerm) strayMarkers).2 :=
  ⟨by decide,
    (command_lifecycle 8 2 4 16 strayMarkers ⟨le_rfl, le_rfl, le_rfl, le_rfl, trivial⟩).1⟩

end Bud.Session
