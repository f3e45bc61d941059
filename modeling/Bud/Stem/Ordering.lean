import Bud.Stem.Resume

/-!
# No event refers past the output delivered

The module documentation of `session.rs` states the rule: per chunk, `Output` first and then the
events derived from it, so that an event's byte references never point past output the consumer has
not received. To speak about the offset of a marker whose event does not carry it, the events are
listed together with the offset of the marker they derive from (`stamped`).

References to the start of a command's output are never the problem: such an offset belongs to an
earlier marker, triggered at least one byte before. A marker's own offset is at most one past the
byte that triggered it, or two past it when the terminator is `ESC \`; the latter exceeds the chunk
exactly when the chunk ends on the `ESC`.
-/

namespace Bud.Session

open Semantic Modes Emulator Grid Vte List Session.Inner

/-- The byte offsets an event carries. -/
def refs : Event → List ℕ
  | .commandStarted _ outputByteStart _ => [outputByteStart]
  | .commandFinished _ _ outputByteStart outputByteEnd => [outputByteStart, outputByteEnd]
  | _ => []

/-- The end of the output emitted so far, after one more event. -/
def outputEnd (stop : ℕ) : Event → ℕ
  | .output offset bytes => max stop (offset + bytes.length)
  | _ => stop

/-- With `stop` the end of the output already emitted: every marker event among the stamped events
refers to offsets up to the end of the output emitted before it. -/
def Ordered : ℕ → List (Option ℕ × Event) → Prop
  | _, [] => True
  | stop, (none, e) :: es => Ordered (outputEnd stop e) es
  | stop, (some offset, e) :: es =>
    (isMarkerEvent e = true → ∀ o ∈ offset :: refs e, o ≤ stop) ∧ Ordered (outputEnd stop e) es

section

variable {V T : Type} [Parser V] [Terminal T]

/-- What the marker loop emits, with each marker's offset. -/
def Inner.stampMarkers (emitFrom : ℕ) (emitModeChanges : Bool) :
    Inner V T → List ScanEvent → List (Option ℕ × Event)
  | _, [] => []
  | inner, ev :: evs =>
    (inner.onMarker emitFrom emitModeChanges ev).2.map (fun e => (some ev.atOffset, e)) ++
      (inner.onMarker emitFrom emitModeChanges ev).1.stampMarkers emitFrom emitModeChanges evs

/-- What consecutive chunks emit, with the offset of the marker each event derives from. -/
def stamped (emitFrom : ℕ) (emitModeChanges trackGrid : Bool) :
    Inner V T → ℕ → List (List UInt8) → List (Option ℕ × Event)
  | _, _, [] => []
  | inner, offset, bytes :: rest =>
    (chunkOutput offset bytes emitFrom).map (fun e => (none, e)) ++
      (inner.feedChunk offset bytes trackGrid).1.stampMarkers emitFrom emitModeChanges
        (scan inner.scanner offset bytes).2 ++
      stamped emitFrom emitModeChanges trackGrid
        (processChunk inner offset bytes emitFrom emitModeChanges trackGrid).1
        (offset + bytes.length) rest

omit [Parser V] in
theorem map_snd_stampMarkers (emitFrom : ℕ) (emitModeChanges : Bool) (inner : Inner V T)
    (evs : List ScanEvent) :
    (inner.stampMarkers emitFrom emitModeChanges evs).map Prod.snd
      = (inner.onMarkers emitFrom emitModeChanges evs).2 := by
  induction evs generalizing inner with
  | nil => rfl
  | cons ev evs ih =>
    simp only [stampMarkers, onMarkers, map_append, map_map, ih]
    exact congrArg (· ++ _) (map_id _)

theorem map_snd_stamped (emitFrom : ℕ) (emitModeChanges trackGrid : Bool) (inner : Inner V T)
    (offset : ℕ) (chunks : List (List UInt8)) :
    (stamped emitFrom emitModeChanges trackGrid inner offset chunks).map Prod.snd
      = (processChunks emitFrom emitModeChanges trackGrid inner offset chunks).2 := by
  induction chunks generalizing inner offset with
  | nil => rfl
  | cons bytes rest ih =>
    simp only [stamped, processChunks, processChunk, map_append, map_map, ih, map_snd_stampMarkers]
    exact congrArg (· ++ _ ++ _) (map_id _)

/-! ### What one chunk refers to -/

section

omit [Parser V]

theorem stampMarkers_append (emitFrom : ℕ) (emitModeChanges : Bool) (inner : Inner V T)
    (xs ys : List ScanEvent) :
    inner.stampMarkers emitFrom emitModeChanges (xs ++ ys)
      = inner.stampMarkers emitFrom emitModeChanges xs ++
        (inner.onMarkers emitFrom emitModeChanges xs).1.stampMarkers emitFrom emitModeChanges
          ys := by
  induction xs generalizing inner with
  | nil => rfl
  | cons x xs ih =>
    simp only [cons_append, stampMarkers, onMarkers, ih, append_assoc]

theorem onMarkers_append_fst (emitFrom : ℕ) (emitModeChanges : Bool) (inner : Inner V T)
    (xs ys : List ScanEvent) :
    (inner.onMarkers emitFrom emitModeChanges (xs ++ ys)).1
      = ((inner.onMarkers emitFrom emitModeChanges xs).1.onMarkers
          emitFrom emitModeChanges ys).1 := by
  induction xs generalizing inner with
  | nil => rfl
  | cons x xs ih =>
    simp only [cons_append, onMarkers, ih]

theorem isSome_markerEvent (inner : Inner V T) (ev : ScanEvent) :
    (inner.markerEvent ev).isSome = emits ev.kind := by
  rw [markerEvent]
  cases ev.kind <;> rfl

variable {ev : ScanEvent} {e : Event}

theorem isMarkerEvent_of_markerEvent {inner : Inner V T} (h : inner.markerEvent ev = some e) :
    isMarkerEvent e = true := by
  rw [markerEvent] at h
  cases hk : ev.kind <;> rw [hk] at h <;> cases h <;> rfl

/-- What one marker emits: mode changes, and its own event. -/
theorem mem_onMarker {inner : Inner V T} (h : e ∈ (inner.onMarker 0 true ev).2) :
    (∃ mode integration, e = .modeChanged mode integration) ∨
      ({ inner with modes := (inner.modes.onScan ev.kind).1 }).markerEvent ev = some e := by
  simp only [onMarker, Nat.zero_le, decide_true, if_true, mem_append, Option.mem_toList] at h
  exact h.imp mem_modeEvents id

theorem outputEnd_of_mem_onMarker {inner : Inner V T} (h : e ∈ (inner.onMarker 0 true ev).2)
    (stop : ℕ) : outputEnd stop e = stop := by
  rcases mem_onMarker h with ⟨mode, integration, rfl⟩ | hsome
  · rfl
  · have := isMarkerEvent_of_markerEvent hsome
    cases e <;> first | rfl | cases this

/-- The markers that are reported are those that emit. -/
theorem exists_mem_stampMarkers (inner : Inner V T) (evs : List ScanEvent) (offset : ℕ) :
    (∃ e, (some offset, e) ∈ inner.stampMarkers 0 true evs ∧ isMarkerEvent e = true) ↔
      ∃ ev ∈ evs, ev.atOffset = offset ∧ emits ev.kind = true := by
  induction evs generalizing inner with
  | nil => simp [stampMarkers]
  | cons ev evs ih =>
    have hhead : (∃ e, e ∈ (inner.onMarker 0 true ev).2 ∧ isMarkerEvent e = true) ↔
        emits ev.kind = true := by
      rw [← isSome_markerEvent { inner with modes := (inner.modes.onScan ev.kind).1 } ev]
      constructor
      · rintro ⟨e, he, hmarker⟩
        rcases mem_onMarker he with ⟨mode, integration, rfl⟩ | hsome
        · cases hmarker
        · rw [hsome]
          rfl
      · intro hsome
        obtain ⟨e, he⟩ := Option.isSome_iff_exists.mp hsome
        refine ⟨e, ?_, isMarkerEvent_of_markerEvent he⟩
        simp only [onMarker, Nat.zero_le, decide_true, if_true, mem_append]
        exact .inr (Option.mem_toList.mpr he)
    simp only [stampMarkers, mem_append, mem_map, Prod.mk.injEq,
      Option.some.injEq, mem_cons, exists_eq_or_imp]
    rw [← ih (inner.onMarker 0 true ev).1, ← hhead]
    constructor
    · rintro ⟨e, ⟨e', he', hoff, rfl⟩ | he, hmarker⟩
      · exact .inl ⟨hoff, e', he', hmarker⟩
      · exact .inr ⟨e, he, hmarker⟩
    · rintro (⟨hoff, e, he, hmarker⟩ | ⟨e, he, hmarker⟩)
      · exact ⟨e, .inl ⟨e, he, hoff, rfl⟩, hmarker⟩
      · exact ⟨e, .inr he, hmarker⟩

/-- Offsets remembered from earlier markers lie at most one past the position reached. -/
def Bounded (pos : ℕ) (inner : Inner V T) : Prop :=
  inner.lastRegionStart ≤ pos + 1 ∧ ∀ i start, inner.openCommand = some (i, start) → start ≤ pos + 1

variable {pos : ℕ}

theorem Bounded.onMarker {inner : Inner V T} (h : Bounded pos inner) (hev : ev.atOffset ≤ pos + 1) :
    Bounded pos (inner.onMarker 0 true ev).1 := by
  simp only [Inner.onMarker, Inner.afterMarker, Bounded] at h ⊢
  cases ev.kind with
  | commandEnd exitCode =>
    cases hopen : inner.openCommand with
    | none | some c => exact ⟨h.1, fun _ _ hsome => by cases hsome⟩
  | promptStart => exact ⟨hev, fun _ _ hsome => by cases hsome⟩
  | commandInputStart => exact ⟨hev, h.2⟩
  | commandOutputStart =>
    refine ⟨h.1, fun i start hsome => ?_⟩
    cases hsome
    exact hev
  | cwd _ | altScreenEnter | altScreenLeave | bracketedPasteSet _ => exact h

omit [Terminal T] in
theorem Bounded.mono {inner : Inner V T} (h : Bounded pos inner) (hle : pos ≤ pos') :
    Bounded pos' inner :=
  ⟨by have := h.1; omega, fun i start hsome => by have := h.2 i start hsome; omega⟩

/-- The offsets one marker's event carries are its own and remembered ones. -/
theorem Bounded.refs {inner : Inner V T} (h : Bounded pos inner)
    (he : e ∈ (inner.onMarker 0 true ev).2) :
    ∀ o ∈ Session.refs e, o = ev.atOffset ∨ o ≤ pos + 1 := by
  rcases mem_onMarker he with ⟨mode, integration, rfl⟩ | he
  · intro o ho
    cases ho
  · rw [markerEvent] at he
    cases hk : ev.kind with
    | commandEnd exitCode =>
      rw [hk] at he
      cases he
      intro o ho
      rcases mem_pair.mp ho with rfl | rfl
      · right
        cases hopen : inner.openCommand with
        | none => exact h.1
        | some c => exact h.2 c.1 c.2 hopen
      · exact .inl rfl
    | commandOutputStart =>
      rw [hk] at he
      cases he
      intro o ho
      exact .inl (mem_singleton.mp ho)
    | promptStart | cwd _ | bracketedPasteSet _ =>
      rw [hk] at he
      cases he
      intro o ho
      cases ho
    | commandInputStart | altScreenEnter | altScreenLeave =>
      rw [hk] at he
      cases he

/-- Markers whose offset is the position after one byte: nothing refers further. -/
theorem Bounded.onMarkers : ∀ {evs : List ScanEvent} {inner : Inner V T},
    Bounded pos inner → (∀ ev ∈ evs, ev.atOffset ≤ pos + 1) →
    Bounded pos (inner.onMarkers 0 true evs).1 ∧
      ∀ q ∈ inner.stampMarkers 0 true evs, ∀ o ∈ Session.refs q.2, o ≤ pos + 1 := by
  intro evs
  induction evs with
  | nil =>
    intro inner h _
    exact ⟨h, by simp [stampMarkers]⟩
  | cons ev evs ih =>
    intro inner h hevs
    have hev := hevs ev mem_cons_self
    obtain ⟨hb, hrefs⟩ := ih (h.onMarker hev) fun e he => hevs e (mem_cons_of_mem _ he)
    refine ⟨hb, ?_⟩
    intro q hq o ho
    rw [stampMarkers, mem_append] at hq
    rcases hq with hq | hq
    · obtain ⟨e, he, rfl⟩ := mem_map.mp hq
      have := h.refs he o ho
      omega
    · exact hrefs q hq o ho

end

/-- One byte: what its markers refer to, besides their own offset, is at most the position after
it. -/
theorem Bounded.scanByte {inner : Inner V T} (h : Bounded pos inner) (v : V) (b : UInt8) :
    Bounded (pos + 1) (inner.onMarkers 0 true (scanByte pos v b)).1 ∧
      ∀ offset e, (some offset, e) ∈ inner.stampMarkers 0 true (Semantic.scanByte pos v b) →
        ∀ o ∈ Session.refs e, o = offset ∨ o ≤ pos + 1 := by
  rcases scanByte_cases pos v b with hall | ⟨params, kind, -, -, heq⟩
  · obtain ⟨hb, hrefs⟩ := h.onMarkers fun ev hev => (hall ev hev).le
    exact ⟨hb.mono (Nat.le_succ pos), fun offset e hq o ho => .inr (hrefs _ hq o ho)⟩
  · rw [heq]
    refine ⟨(h.mono (Nat.le_succ pos)).onMarker (Nat.le_refl _), ?_⟩
    intro offset e hq o ho
    rw [stampMarkers, stampMarkers, append_nil] at hq
    obtain ⟨e', he', heq'⟩ := mem_map.mp hq
    cases heq'
    exact h.refs he' o ho

/-- One chunk: what its markers refer to, besides their own offset, is at most its end. -/
theorem Bounded.scan {inner : Inner V T} (h : Bounded pos inner) (v : V) (bytes : List UInt8) :
    Bounded (pos + bytes.length) (inner.onMarkers 0 true (scan v pos bytes).2).1 ∧
      ∀ offset e, (some offset, e) ∈ inner.stampMarkers 0 true (Semantic.scan v pos bytes).2 →
        ∀ o ∈ Session.refs e, o = offset ∨ o ≤ pos + bytes.length := by
  induction bytes generalizing pos inner v with
  | nil => exact ⟨h, fun offset e hq => by simp [Semantic.scan, stampMarkers] at hq⟩
  | cons b bs ih =>
    obtain ⟨hb, hrefs⟩ := h.scanByte v b
    obtain ⟨hb', hrefs'⟩ := ih hb (Parser.advance v b).1
    rw [scan_cons, onMarkers_append_fst, stampMarkers_append, length_cons]
    refine ⟨by rwa [show pos + (bs.length + 1) = pos + 1 + bs.length by omega], ?_⟩
    intro offset e hq o ho
    rcases mem_append.mp hq with hq | hq
    · have := hrefs offset e hq o ho
      omega
    · have := hrefs' offset e hq o ho
      omega

/-! ### The rule -/

/-- Whatever is reported on the last byte of the chunk `c` is an OSC string the parser dispatched on
the first byte of its two-byte terminator, and a marker that is reported as an event. -/
def EndsInTerminator (v : V) (c : List UInt8) : Prop :=
  ∃ xs b params kind, c = xs ++ [b] ∧
    (Parser.advance (parse v xs) b).2 = some (.osc params false) ∧
    oscKind params = some kind ∧ emits kind = true

theorem atOffset_le_iff (v : V) (pos : ℕ) (c : List UInt8) :
    (∀ ev ∈ (scan v pos c).2, emits ev.kind = true → ev.atOffset ≤ pos + c.length) ↔
      ¬ EndsInTerminator v c := by
  constructor
  · rintro h ⟨xs, b, params, kind, rfl, hd, hk, hemit⟩
    have hmem : (⟨pos + xs.length + 2, kind⟩ : ScanEvent) ∈ (scan v pos (xs ++ [b])).2 := by
      rw [scan_append, scan_cons]
      simp [scanByte, hd, onDispatch, hk]
    have := h _ hmem hemit
    simp at this
    omega
  · intro h ev hev hemit
    obtain ⟨xs, b, ys, rfl, hb⟩ := mem_scan hev
    rw [length_append, length_cons]
    rcases scanByte_cases (pos + xs.length) (parse v xs) b with hall | ⟨params, kind, hd, hk, heq⟩
    · rw [hall ev hb]
      omega
    · rw [heq, mem_singleton] at hb
      subst hb
      cases ys with
      | nil => exact absurd ⟨xs, b, params, kind, rfl, hd, hk, hemit⟩ h
      | cons y ys =>
        rw [length_cons]
        show pos + xs.length + 2 ≤ _
        omega

variable {stop : ℕ}

theorem ordered_append {xs ys : List (Option ℕ × Event)} : Ordered stop (xs ++ ys) ↔
      Ordered stop xs ∧ Ordered ((xs.map Prod.snd).foldl outputEnd stop) ys := by
  induction xs generalizing stop with
  | nil => simp [Ordered]
  | cons x xs ih =>
    obtain ⟨offset, e⟩ := x
    cases offset with
    | none => exact ih
    | some offset =>
      simp only [cons_append, Ordered, ih, and_assoc]
      rfl

/-- Events without output are all measured against the same end. -/
theorem ordered_iff_forall (hes : ∀ q ∈ es, q.1.isSome = true ∧ outputEnd stop q.2 = stop) :
    Ordered stop es ↔ ∀ offset e, (some offset, e) ∈ es → isMarkerEvent e = true →
      ∀ o ∈ offset :: refs e, o ≤ stop := by
  induction es with
  | nil => simp [Ordered]
  | cons q es ih =>
    obtain ⟨hsome, hend⟩ := hes q mem_cons_self
    obtain ⟨offset, e⟩ := q
    obtain ⟨offset, rfl⟩ := Option.isSome_iff_exists.mp hsome
    rw [Ordered, hend, ih fun q hq => hes q (mem_cons_of_mem _ hq)]
    constructor
    · rintro ⟨hhead, htail⟩ off e' hmem
      rcases mem_cons.mp hmem with heq | hmem
      · cases heq
        exact hhead
      · exact htail off e' hmem
    · intro h
      exact ⟨h offset e mem_cons_self, fun off e' hmem =>
        h off e' (mem_cons_of_mem _ hmem)⟩

omit [Parser V] in
theorem mem_stampMarkers {inner : Inner V T} (h : q ∈ inner.stampMarkers 0 true evs) :
    q.1.isSome = true ∧ ∀ stop, outputEnd stop q.2 = stop := by
  induction evs generalizing inner with
  | nil => cases h
  | cons ev evs ih =>
    rw [stampMarkers, mem_append] at h
    rcases h with h | h
    · obtain ⟨e, he, rfl⟩ := mem_map.mp h
      exact ⟨rfl, outputEnd_of_mem_onMarker he⟩
    · exact ih h

omit [Parser V] in
theorem foldl_outputEnd_stampMarkers (stop : ℕ) (inner : Inner V T) (evs : List ScanEvent) :
    ((inner.stampMarkers 0 true evs).map Prod.snd).foldl outputEnd stop = stop := by
  have hlist : ∀ es : List (Option ℕ × Event), (∀ q ∈ es, outputEnd stop q.2 = stop) →
      (es.map Prod.snd).foldl outputEnd stop = stop := by
    intro es
    induction es with
    | nil => intro _; rfl
    | cons q es ih =>
      intro hes
      rw [map_cons, foldl_cons, hes q mem_cons_self]
      exact ih fun q hq => hes q (mem_cons_of_mem _ hq)
  exact hlist _ fun q hq => (mem_stampMarkers hq).2 stop

/-- The markers of a non-empty chunk, measured against its end. -/
theorem ordered_chunk {inner : Inner V T} (h : Bounded pos inner) (v : V) (c : List UInt8) :
    Ordered (pos + c.length) (inner.stampMarkers 0 true (scan v pos c).2) ↔
      ¬ EndsInTerminator v c := by
  rw [← atOffset_le_iff v pos c,
    ordered_iff_forall fun q hq => ⟨(mem_stampMarkers hq).1, (mem_stampMarkers hq).2 _⟩]
  constructor
  · intro hall ev hev hemit
    obtain ⟨e, he, hmarker⟩ :=
      (exists_mem_stampMarkers inner (scan v pos c).2 ev.atOffset).mpr ⟨ev, hev, rfl, hemit⟩
    exact hall ev.atOffset e he hmarker ev.atOffset mem_cons_self
  · intro hall offset e he hmarker o ho
    have hoffset : offset ≤ pos + c.length := by
      obtain ⟨ev, hev, rfl, hemit⟩ :=
        (exists_mem_stampMarkers inner (scan v pos c).2 offset).mp ⟨e, he, hmarker⟩
      exact hall ev hev hemit
    rcases mem_cons.mp ho with rfl | ho
    · exact hoffset
    · have := (h.scan v c).2 offset e he o ho
      omega

theorem stamped_cons (inner : Inner V T) (pos : ℕ) (c : List UInt8) (rest : List (List UInt8)) :
    stamped 0 true true inner pos (c :: rest) = (chunkOutput pos c 0).map (fun e => (none, e)) ++
        ((inner.feedChunk pos c true).1.stampMarkers 0 true (scan inner.scanner pos c).2 ++
          stamped 0 true true (processChunk inner pos c 0 true true).1 (pos + c.length) rest) :=
  append_assoc ..

/-- The output of a chunk brings the end of the output to the end of the chunk. -/
theorem ordered_chunkOutput (hstop : stop ≤ pos) (c : List UInt8) (es : List (Option ℕ × Event)) :
    ∃ stop' ≤ pos + c.length, (c ≠ [] → stop' = pos + c.length) ∧
      (Ordered stop ((chunkOutput pos c 0).map (fun e => (none, e)) ++ es) ↔ Ordered stop' es) := by
  rw [chunkOutput]
  by_cases hpos : 0 < pos + c.length
  · refine ⟨max stop (pos + c.length), by omega, fun _ => by omega, ?_⟩
    rw [if_pos hpos]
    simp only [Nat.zero_sub, Nat.add_zero, drop_zero]
    rfl
  · refine ⟨stop, by omega, fun hc => ?_, ?_⟩
    · have := length_pos_iff.mpr hc
      omega
    · rw [if_neg hpos]
      rfl

/-- A property of every cut of a list, taken apart at the first element. -/
theorem forall_cuts_cons {α : Type} {P : List α → α → Prop} {x : α} {xs : List α} :
    (∀ pre c post, x :: xs = pre ++ c :: post → P pre c) ↔
      P [] x ∧ ∀ pre c post, xs = pre ++ c :: post → P (x :: pre) c := by
  constructor
  · intro h
    refine ⟨h [] x xs rfl, fun pre c post hxs => h (x :: pre) c post ?_⟩
    rw [hxs, cons_append]
  · rintro ⟨hx, hxs⟩ pre c post heq
    cases pre with
    | nil =>
      cases heq
      exact hx
    | cons y pre =>
      cases heq
      exact hxs pre c post rfl

theorem ordered_stamped_iff (chunks : List (List UInt8)) :
    ∀ {stop pos : ℕ} {inner : Inner V T}, stop ≤ pos → Bounded pos inner →
      (Ordered stop (stamped 0 true true inner pos chunks) ↔
        ∀ pre c post, chunks = pre ++ c :: post →
          ¬ EndsInTerminator (parse inner.scanner pre.flatten) c) := by
  induction chunks with
  | nil =>
    intro stop pos inner _ _
    simp [stamped, Ordered]
  | cons c rest ih =>
    intro stop pos inner hstop hb
    have hb' : Bounded pos (inner.feedChunk pos c true).1 := hb
    obtain ⟨stop', hle, heq, hout⟩ := ordered_chunkOutput hstop c
      ((inner.feedChunk pos c true).1.stampMarkers 0 true (scan inner.scanner pos c).2 ++
        stamped 0 true true (processChunk inner pos c 0 true true).1 (pos + c.length) rest)
    have hnext : Bounded (pos + c.length) (processChunk inner pos c 0 true true).1 :=
      (hb'.scan inner.scanner c).1
    have hscanner : (processChunk inner pos c 0 true true).1.scanner = parse inner.scanner c :=
      (processChunk_spec inner pos c 0 true true).2.2
    have hchunk : Ordered stop' ((inner.feedChunk pos c true).1.stampMarkers 0 true
        (scan inner.scanner pos c).2) ↔ ¬ EndsInTerminator inner.scanner c := by
      by_cases hc : c = []
      · subst hc
        simp [scan, stampMarkers, Ordered, EndsInTerminator]
      · rw [heq hc]
        exact ordered_chunk hb' inner.scanner c
    rw [stamped_cons, hout, ordered_append, foldl_outputEnd_stampMarkers, hchunk,
      ih hle hnext, forall_cuts_cons, hscanner]
    simp only [flatten_nil, flatten_cons, parse_append]
    rfl

/-- **The ordering rule, exactly.** For every stream and every way of cutting it into chunks fed to
a fresh attachment: every marker event refers only to offsets up to the end of the output emitted
before it if and only if no chunk ends on the first byte of the two-byte terminator of a marker
that is reported. -/
theorem ordered_iff (cols rows scrollbackLines base : ℕ) (chunks : List (List UInt8)) :
    Ordered 0 (stamped 0 true true
        (Inner.new cols rows scrollbackLines base : Inner V T) base chunks) ↔
      ∀ pre c post, chunks = pre ++ c :: post →
        ¬ EndsInTerminator (parse (Parser.new : V) pre.flatten) c :=
  ordered_stamped_iff chunks (Nat.zero_le _) ⟨Nat.le_succ base, fun _ _ hsome => by cases hsome⟩

end

/-- A prompt marker terminated by `ESC \`, cut between the two bytes: the prompt is reported at
offset 9 when only 8 bytes of output were emitted. -/
theorem not_ordered_split_terminator :
    stamped 0 true true (Inner.new 8 2 4 0 : Inner EscState PlainTerm) 0
        [[0x1b, 0x5d, 0x31, 0x33, 0x33, 0x3b, 0x41, 0x1b], [0x5c]]
      = [(none, .output 0 [0x1b, 0x5d, 0x31, 0x33, 0x33, 0x3b, 0x41, 0x1b]),
        (some 9, .modeChanged .shell .osc133), (some 9, .promptReady none),
        (none, .output 8 [0x5c])] ∧
      ¬ Ordered 0 (stamped 0 true true (Inner.new 8 2 4 0 : Inner EscState PlainTerm) 0
        [[0x1b, 0x5d, 0x31, 0x33, 0x33, 0x3b, 0x41, 0x1b], [0x5c]]) := by
  have htrace : stamped 0 true true (new 8 2 4 0 : Inner EscState PlainTerm) 0
        [[0x1b, 0x5d, 0x31, 0x33, 0x33, 0x3b, 0x41, 0x1b], [0x5c]]
      = [(none, .output 0 [0x1b, 0x5d, 0x31, 0x33, 0x33, 0x3b, 0x41, 0x1b]),
        (some 9, .modeChanged .shell .osc133), (some 9, .promptReady none),
        (none, .output 8 [0x5c])] := by
    decide
  refine ⟨htrace, ?_⟩
  rw [htrace]
  intro h
  exact absurd (h.2.1 rfl 9 mem_cons_self) (by decide)

end Bud.Session
