import Bud.PersonalData.PlacePresence
import Mathlib.Data.List.Chain

/-!
# The presence row and the published timeline

Whatever the order of the evidence, the row of a place stays well formed (`Row.Ok`): inside, the
stay begins no later than the newest evidence of it, and a departure waits only after that; outside,
nothing of a stay is left and a waiting arrival is no older than the row. What was published is a
timeline (`Timeline`) that ends at or before the row's `since`, in the row's state. Reports of a
geofence that was just added are recorded and not published, so the timeline is about the runs
without them.

Arrivals and departures alternate but for one case: a visit that arrives while another stay is open
is an arrival after an arrival. Then it is another visit, because a visit arrives only once: when
its row is new.
-/

namespace Bud.PlacePresence

open List Option Function

/-! ### The invariants -/

def Row.Ok (row : Row) : Prop :=
  match row.state with
  | .inside =>
    (∃ entered, row.lastEnteredAt = some entered ∧ row.since ≤ entered ∧
      ∀ leavingAt ∈ row.leavingAt, entered ≤ leavingAt) ∧
      row.arrivingAt = none ∧ row.approachingAt = none
  | .outside =>
    row.leavingAt = none ∧ row.lastEnteredAt = none ∧ row.visitId = none ∧
      ∀ arrivingAt ∈ row.arrivingAt, row.since ≤ arrivingAt

/-- What may follow a published change: arrivals and departures alternate, and an arrival may
follow an arrival when it comes from a different visit. -/
def Published.Follows (a b : Published) : Prop :=
  match b.transition with
  | .departed => a.transition = .arrived
  | .arrived =>
    a.transition = .departed ∨ b.source = .visit ∧ b.visitId.isSome ∧ a.visitId ≠ b.visitId

def Transition.after : Transition → State
  | .arrived => .inside
  | .departed => .outside

/-- A published list that begins with an arrival, goes on as it may, and ends in `state` no later
than `until`. Its visits have all been seen. -/
structure Timeline (seen : VisitId → Prop) (log : List Published) (state : State) (time : Time) :
    Prop where
  head : ∀ c ∈ log.head?, c.transition = .arrived
  chain : log.IsChain fun a b => a.time ≤ b.time ∧ a.Follows b
  last : ∀ c ∈ log.getLast?, c.time ≤ time ∧ c.transition.after = state
  arrived : state = .inside → log ≠ []
  seen : ∀ c ∈ log, ∀ v ∈ c.visitId, seen v

variable {seen seen' : VisitId → Prop} {log : List Published} {state : State} {time : Time}

theorem timeline_nil : Timeline seen [] .outside time where
  head := by simp
  chain := isChain_nil
  last := by simp
  arrived := by simp
  seen := by simp

namespace Timeline

theorem mono (h : Timeline seen log state time) {time' : Time} (ht : time ≤ time')
    (hs : ∀ v, seen v → seen' v) : Timeline seen' log state time' where
  head := h.head
  chain := h.chain
  last := fun c hc => ⟨(h.last c hc).1.trans ht, (h.last c hc).2⟩
  arrived := h.arrived
  seen := fun c hc v hv => hs v (h.seen c hc v hv)

/-- A change that may follow is published. -/
theorem append (h : Timeline seen log state time) {c : Published} (ht : time ≤ c.time)
    (hdep : c.transition = .departed → state = .inside)
    (harr : c.transition = .arrived →
      state = .outside ∨ c.source = .visit ∧ ∃ v, c.visitId = some v ∧ ¬ seen v)
    (hs : ∀ v, seen v → seen' v) (hc : ∀ v ∈ c.visitId, seen' v) :
    Timeline seen' (log ++ [c]) c.transition.after c.time := by
  have hlast : ∀ a ∈ log.getLast?, a.time ≤ c.time ∧ a.Follows c := by
    intro a ha
    obtain ⟨hat, hstate⟩ := h.last a ha
    refine ⟨hat.trans ht, ?_⟩
    unfold Published.Follows
    cases htr : c.transition with
    | departed =>
      rw [hdep htr] at hstate
      cases hta : a.transition <;> simp_all [Transition.after]
    | arrived =>
      rcases harr htr with hout | ⟨hsource, v, hv, hnew⟩
      · rw [hout] at hstate
        cases hta : a.transition <;> simp_all [Transition.after]
      · refine Or.inr ⟨hsource, by simp [hv], fun heq => hnew ?_⟩
        exact h.seen a (mem_of_getLast? ha) v (by rw [heq, hv]; rfl)
  constructor
  · intro d hd
    cases hlog : log with
    | nil =>
      obtain rfl : c = d := by simpa [hlog] using hd
      cases htr : c.transition with
      | arrived => rfl
      | departed => exact absurd hlog (h.arrived (hdep htr))
    | cons a log' => exact h.head d (by simpa [hlog] using hd)
  · refine IsChain.append h.chain (isChain_singleton c) ?_
    intro a ha b hb
    obtain rfl : c = b := by simpa using hb
    exact hlast a ha
  · simp
  · simp
  · intro d hd v hv
    rcases mem_append.mp hd with hd | hd
    · exact hs v (h.seen d hd v hv)
    · obtain rfl := mem_singleton.mp hd
      exact hc v hv

end Timeline

/-- The row is well formed and, as long as `logged`, what was published is a timeline up to it. -/
structure Sound (logged : Prop) (seen : VisitId → Prop) (p : Presence) : Prop where
  ok : ∀ row ∈ p.row, row.Ok
  timeline : logged → match p.row with
    | none => p.published = []
    | some row => Timeline seen p.published row.state row.since

variable {env : Env} {logged : Prop} {p : Presence} {row : Row} {change : Change}

theorem sound_none (h : p.row = none) (hp : p.published = []) : Sound logged seen p where
  ok := by simp [h]
  timeline := by simp [h, hp]

theorem sound_iff (h : p.row = some row) :
    Sound logged seen p ↔
      row.Ok ∧ (logged → Timeline seen p.published row.state row.since) := by
  constructor
  · intro hs
    exact ⟨hs.ok row h, fun hl => by simpa [h] using hs.timeline hl⟩
  · rintro ⟨hok, ht⟩
    exact ⟨fun r hr => by rw [h] at hr; cases hr; exact hok, fun hl => by simpa [h] using ht hl⟩

@[simp] theorem Presence.row_publishPresence (c : Published) :
    (p.publishPresence c).row = p.row := rfl

@[simp] theorem Presence.published_publishPresence (c : Published) :
    (p.publishPresence c).published = p.published ++ [c] := rfl

@[simp] theorem Presence.published_upsert (since : Time) (values : Row → Row) :
    (p.upsert since values).published = p.published := rfl

theorem Presence.row_upsert (h : p.row = some row) (since : Time) (values : Row → Row) :
    (p.upsert since values).row = some (values row) := by
  simp [upsert, h]

variable {since : Time} {placeId : PlaceId} {place : Place} {parsed : RegionTransition}

/-- What is left to show when only the row changes, in its state and with the same `since`. -/
theorem Sound.upsert (hs : Sound logged seen p) (h : p.row = some row) {values : Row → Row}
    (hok : (values row).Ok) (hstate : (values row).state = row.state)
    (hsince : (values row).since = row.since) (hseen : ∀ v, seen v → seen' v) :
    Sound logged seen' (p.upsert since values) := by
  rw [sound_iff (Presence.row_upsert h since values)]
  refine ⟨hok, fun hl => ?_⟩
  rw [hstate, hsince]
  exact (((sound_iff h).mp hs).2 hl).mono le_rfl hseen

/-- What is left to show when the row changes and a change is published. -/
theorem sound_publish (h : p.row = some row) {values : Row → Row} {c : Published}
    (hok : (values row).Ok)
    (ht : logged → Timeline seen (p.published ++ [c]) (values row).state (values row).since) :
    Sound logged seen ((p.upsert since values).publishPresence c) := by
  have hrow : ((p.upsert since values).publishPresence c).row = some (values row) :=
    Presence.row_upsert h since values
  exact (sound_iff hrow).mpr ⟨hok, ht⟩

theorem Sound.mono (hs : Sound logged seen p) (hseen : ∀ v, seen v → seen' v) :
    Sound logged seen' p := by
  cases h : p.row with
  | none => exact ⟨by simp [h], fun hl => by simpa [h] using hs.timeline hl⟩
  | some row =>
    obtain ⟨hok, ht⟩ := (sound_iff h).mp hs
    exact (sound_iff h).mpr ⟨hok, fun hl => (ht hl).mono le_rfl hseen⟩

/-! ### One piece of evidence -/

/-- What is asked of the visit of a change: it is known afterwards, and an arrival is the first. -/
structure Change.Fresh (seen seen' : VisitId → Prop) (change : Change) : Prop where
  mono : ∀ v, seen v → seen' v
  known : ∀ v ∈ change.linked, seen' v
  first : change.transition = .arrived → ∀ v ∈ change.linked, ¬ seen v

theorem fresh_of_linked_eq_none (h : change.linked = none) : change.Fresh seen seen where
  mono := fun _ hv => hv
  known := by simp [h]
  first := by simp [h]

theorem Row.ok_enter (row : Row) (time : Time) (visitId : Option VisitId) :
    (row.enter time visitId).Ok := by
  simp [Row.Ok, Row.enter]

/-- Ending an approach or a waiting arrival changes nothing else of a row that is outside. -/
theorem Row.Ok.clear {row : Row} (hok : row.Ok) (hout : row.state = .outside)
    {approachingAt arrivingAt : Option Time} {arrivingEventId : Option EventId}
    (harr : ∀ a ∈ arrivingAt, row.since ≤ a) :
    ({ row with approachingAt, arrivingAt, arrivingEventId } : Row).Ok := by
  simp only [Row.Ok, hout] at hok ⊢
  exact ⟨hok.1, hok.2.1, hok.2.2.1, harr⟩

/-- The row that `upsert` begins with, at a place the owner isn't at. -/
theorem Sound.getD (hs : Sound logged seen p) (hout : ∀ row ∈ p.row, row.state = .outside)
    (hr : p.row.getD { state := .outside, since } = row) :
    row.Ok ∧ row.state = .outside ∧ (logged → Timeline seen p.published .outside row.since) := by
  cases h : p.row with
  | none =>
    obtain rfl : _ = row := by simpa [h] using hr
    refine ⟨by simp [Row.Ok], rfl, fun hl => ?_⟩
    rw [show p.published = [] by simpa [h] using hs.timeline hl]
    exact timeline_nil
  | some row' =>
    obtain rfl : row' = row := by simpa [h] using hr
    obtain ⟨hok, ht⟩ := (sound_iff h).mp hs
    exact ⟨hok, hout row' h, by simpa [hout row' h] using ht⟩

theorem arrivedOutside_sound (hs : Sound logged seen p)
    (hout : ∀ row ∈ p.row, row.state = .outside) (hf : change.Fresh seen seen') :
    Sound logged seen' (arrivedOutside p change) := by
  unfold arrivedOutside
  split
  · exact hs.mono hf.mono
  · next hstale =>
    obtain ⟨row, hr⟩ : ∃ row, p.row.getD { state := .outside, since := change.time } = row :=
      ⟨_, rfl⟩
    obtain ⟨-, -, ht⟩ := hs.getD hout hr
    have hle : row.since ≤ change.time := by
      cases h : p.row with
      | none => simp [h] at hr; simp [← hr]
      | some row' => simp [h] at hr hstale; simpa [← hr] using hstale
    have hrow : ((p.upsert change.time fun row => row.enter change.time change.linked).publish
        change .arrived change.linked).row = some (row.enter change.time change.linked) := by
      rw [← hr]
      rfl
    refine (sound_iff hrow).mpr ⟨Row.ok_enter _ _ _, fun hl => ?_⟩
    exact (ht hl).append (c := ⟨.arrived, change.time, change.source, change.linked,
      change.rawEventId⟩) hle (by simp) (fun _ => Or.inl rfl) hf.mono hf.known

/-- Inside, what `Row.Ok` says about the times of the row. -/
theorem Row.Ok.inside (hok : row.Ok) (hin : row.state = .inside) :
    ∃ entered, row.lastEnteredAt = some entered ∧ row.since ≤ entered ∧
      (∀ leavingAt ∈ row.leavingAt, entered ≤ leavingAt) ∧
      row.arrivingAt = none ∧ row.approachingAt = none := by
  simp only [Row.Ok, hin] at hok
  obtain ⟨⟨entered, he, hsince, hleaving⟩, harr, happ⟩ := hok
  exact ⟨entered, he, hsince, hleaving, harr, happ⟩

theorem Row.ok_inside (hin : row.state = .inside) (he : row.lastEnteredAt = some entered)
    (hsince : row.since ≤ entered) (hleaving : ∀ leavingAt ∈ row.leavingAt, entered ≤ leavingAt)
    (harr : row.arrivingAt = none) (happ : row.approachingAt = none) : row.Ok := by
  simp only [Row.Ok, hin]
  exact ⟨⟨entered, he, hsince, hleaving⟩, harr, happ⟩

section Inside

variable (hs : Sound logged seen p) (h : p.row = some row) (hin : row.state = .inside)
  (hf : change.Fresh seen seen')

include hs h hin hf

theorem reenter_sound (hl : row.leavingAt = some leavingAt) (hle : leavingAt ≤ change.time) :
    Sound logged seen' (reenter p row change leavingAt) := by
  obtain ⟨hok, ht⟩ := (sound_iff h).mp hs
  obtain ⟨entered, he, hsince, hleaving, harr, happ⟩ := hok.inside hin
  have hentered : entered ≤ leavingAt := hleaving leavingAt hl
  unfold reenter
  split
  · refine hs.upsert h ?_ rfl rfl hf.mono
    exact Row.ok_inside hin rfl (hsince.trans (hentered.trans hle)) (by simp) harr happ
  · refine sound_publish (p := p.publishAt .departed leavingAt none) h
      (Row.ok_inside rfl rfl le_rfl (by simp) harr happ) fun hlog => ?_
    -- The departure at `leavingAt`, then the arrival.
    have hdep : Timeline seen (p.published ++ [⟨.departed, leavingAt, .region, none, none⟩])
        .outside leavingAt :=
      (ht hlog).append (c := ⟨.departed, leavingAt, .region, none, none⟩)
        (hsince.trans hentered) (fun _ => hin) (by simp) (fun _ hv => hv) (by simp)
    exact hdep.append (c := ⟨.arrived, change.time, change.source, change.linked,
      change.rawEventId⟩) hle (by simp) (fun _ => Or.inl rfl) hf.mono hf.known

theorem stillInside_sound (htr : change.transition = .arrived)
    (hbefore : ∀ l ∈ row.leavingAt, change.time < l) :
    Sound logged seen' (stillInside p row change) := by
  obtain ⟨hok, ht⟩ := (sound_iff h).mp hs
  obtain ⟨entered, he, hsince, hleaving, harr, happ⟩ := hok.inside hin
  unfold stillInside
  simp only [he, elim_some]
  split
  · next hother =>
    simp only [Row.otherStay, Bool.and_eq_true, decide_eq_true_eq] at hother
    obtain ⟨⟨⟨hsome, -⟩, hlt⟩, -⟩ := hother
    obtain ⟨v, hv⟩ := isSome_iff_exists.mp hsome
    have hvisit : change.source = .visit := by
      by_contra hne
      simp [Change.linked, hne] at hv
    refine sound_publish h (Row.ok_inside hin rfl (le_max_left _ _) (by simp) harr happ)
      fun hlog => ?_
    rw [show row.state = Transition.arrived.after from hin]
    exact (ht hlog).append (c := ⟨.arrived, change.time, change.source, change.linked,
      change.rawEventId⟩) hlt.le (by simp)
      (fun _ => Or.inr ⟨hvisit, v, hv, hf.first htr v hv⟩) hf.mono hf.known
  · refine hs.upsert h ?_ rfl rfl hf.mono
    refine Row.ok_inside hin rfl (hsince.trans (le_max_right _ _)) ?_ harr happ
    intro l hl
    exact max_le (hbefore l hl).le (hleaving l hl)

theorem arrivedInside_sound (htr : change.transition = .arrived) :
    Sound logged seen' (arrivedInside p row change) := by
  unfold arrivedInside
  split
  · next leavingAt hl =>
    obtain ⟨hl, hle⟩ := filter_eq_some_iff.mp hl
    exact reenter_sound hs h hin hf hl (by simpa using hle)
  · next hnone =>
    refine stillInside_sound hs h hin hf htr fun l hl => ?_
    have := filter_eq_none_iff.mp hnone l hl
    simpa using this

/-- A departure published at once leaves the place at its time, or at that of the exit waiting. -/
theorem departNow_sound (hle : row.since ≤ change.time) :
    Sound logged seen' (departNow env p row change) := by
  obtain ⟨hok, ht⟩ := (sound_iff h).mp hs
  obtain ⟨entered, he, hsince, hleaving, harr, happ⟩ := hok.inside hin
  have hout : ∀ (time : Time) (c : Published), c.transition = .departed → c.time = time →
      c.visitId = change.linked → row.since ≤ time →
      Sound logged seen' ((p.upsert change.time (·.leave time)).publishPresence c) := by
    rintro time c hc rfl hv hge
    refine sound_publish h (by simp [Row.Ok, Row.leave, harr]) fun hlog => ?_
    have := (ht hlog).append (c := c) hge (fun _ => hin) (by simp [hc]) hf.mono
      (by rw [hv]; exact hf.known)
    rwa [hc] at this
  unfold departNow
  split
  · next leftAt hleft =>
    split
    · exact hout leftAt _ rfl rfl rfl (hsince.trans (hleaving leftAt hleft))
    · exact hout change.time _ rfl rfl rfl hle
  · exact hout change.time _ rfl rfl rfl hle

theorem waitToLeave_sound (hnew : ∀ entered ∈ row.lastEnteredAt, entered ≤ change.time) :
    Sound logged seen' (waitToLeave p row change) := by
  obtain ⟨hok, -⟩ := (sound_iff h).mp hs
  obtain ⟨entered, he, hsince, hleaving, harr, happ⟩ := hok.inside hin
  unfold waitToLeave
  split
  · refine hs.upsert h ?_ rfl rfl hf.mono
    exact Row.ok_inside hin he hsince (by simpa using hnew entered he) harr happ
  · split
    · exact hs.upsert h (Row.ok_inside hin he hsince hleaving harr happ) rfl rfl hf.mono
    · exact hs.mono hf.mono

/-- A late exit ends the stay before the newest evidence and begins another at it. -/
theorem leaveLate_sound (hlast : row.lastEnteredAt = some lastEnteredAt)
    (hlt : change.time < lastEnteredAt) (hge : row.since ≤ change.time) :
    Sound logged seen' (leaveLate p change lastEnteredAt) := by
  obtain ⟨hok, ht⟩ := (sound_iff h).mp hs
  obtain ⟨-, -, -, -, harr, happ⟩ := hok.inside hin
  unfold leaveLate
  split
  · exact hs.mono hf.mono
  · refine sound_publish (p := p.publish change .departed none) h
      (Row.ok_inside hin hlast le_rfl (by simp) harr happ) fun hlog => ?_
    have hdep : Timeline seen (p.published ++
        [⟨.departed, change.time, change.source, none, change.rawEventId⟩]) .outside change.time :=
      (ht hlog).append (c := ⟨.departed, change.time, change.source, none, change.rawEventId⟩)
        hge (fun _ => hin) (by simp) (fun _ hv => hv) (by simp)
    rw [show row.state = Transition.arrived.after from hin]
    exact hdep.append (c := ⟨.arrived, lastEnteredAt, .region, none, none⟩) hlt.le (by simp)
      (fun _ => Or.inl rfl) hf.mono (by simp)

theorem departedInside_sound : Sound logged seen' (departedInside env p row change) := by
  obtain ⟨hok, ht⟩ := (sound_iff h).mp hs
  obtain ⟨entered, he, hsince, hleaving, harr, happ⟩ := hok.inside hin
  unfold departedInside
  split
  · split
    · exact hs.upsert h (Row.ok_inside hin he hsince hleaving harr happ) rfl rfl hf.mono
    · exact hs.mono hf.mono
  · next hstale =>
    have hge : row.since ≤ change.time := not_lt.mp hstale
    split
    · exact departNow_sound hs h hin hf hge
    · split
      · next lastEnteredAt hlate =>
        obtain ⟨hlast, hlt⟩ := filter_eq_some_iff.mp hlate
        exact leaveLate_sound hs h hin hf hlast (by simpa using hlt) hge
      · next hlate =>
        split
        · exact departNow_sound hs h hin hf hge
        · refine waitToLeave_sound hs h hin hf fun e he => ?_
          simpa using filter_eq_none_iff.mp hlate e he

end Inside

theorem departedOutside_sound (hs : Sound logged seen p) (h : p.row = some row)
    (hout : row.state = .outside) (hf : change.Fresh seen seen') :
    Sound logged seen' (departedOutside env placeId p row change) := by
  obtain ⟨hok, ht⟩ := (sound_iff h).mp hs
  have harr : ∀ a ∈ row.arrivingAt, row.since ≤ a := by
    simp only [Row.Ok, hout] at hok
    exact hok.2.2.2
  unfold departedOutside
  dsimp only
  split
  · next arrivedAt harriving =>
    obtain ⟨harriving, hle⟩ := filter_eq_some_iff.mp harriving
    split
    · -- It had arrived, at its first reading, and this exit starts the departure.
      refine departedInside_sound ?_ rfl rfl hf
      rw [sound_iff rfl]
      refine ⟨Row.ok_enter _ _ _, fun hl => ?_⟩
      exact (ht hl).append (c := ⟨.arrived, arrivedAt, _, none, row.arrivingEventId⟩)
        (harr arrivedAt harriving) (by simp) (fun _ => Or.inl hout) (fun _ hv => hv) (by simp)
    · exact hs.upsert h (hok.clear hout (by simp)) rfl rfl hf.mono
  · split
    · exact hs.upsert h (hok.clear hout harr) rfl rfl hf.mono
    · exact hs.mono hf.mono

/-- **One piece of evidence keeps the invariants.** -/
theorem applyPresence_sound (hs : Sound logged seen p) (hf : change.Fresh seen seen')
    (hinit : change.initial = false) : Sound logged seen' (applyPresence env placeId p change) := by
  unfold applyPresence
  rw [if_neg (by simp [hinit])]
  split
  · next h _ => exact arrivedOutside_sound hs (by simp [h]) hf
  · exact hs.mono hf.mono
  · next row h htr =>
    split
    · next hin => exact arrivedInside_sound hs h hin hf htr
    · next hin =>
      refine arrivedOutside_sound hs (fun r hr => ?_) hf
      obtain rfl : row = r := some.inj (h.symm.trans hr)
      cases hst : row.state with
      | inside => exact absurd hst hin
      | outside => rfl
  · next row h _ =>
    split
    · next hin => exact departedInside_sound hs h hin hf
    · next hin =>
      refine departedOutside_sound hs h ?_ hf
      cases hst : row.state with
      | inside => exact absurd hst hin
      | outside => rfl

theorem applyInitial_sound (hs : Sound logged seen p) :
    Sound False seen (applyInitial p change) := by
  refine ⟨fun row hrow => ?_, False.elim⟩
  unfold applyInitial at hrow
  split at hrow
  · exact hs.ok row hrow
  · obtain rfl : _ = row := some.inj hrow
    by_cases htr : change.transition = .arrived <;> simp [Row.Ok, htr]

/-! ### Readings and geofence reports -/

theorem State.eq_outside {state : State} (h : state ≠ .inside) : state = .outside := by
  cases state with
  | inside => exact absurd rfl h
  | outside => rfl

theorem noteInside_sound (hs : Sound logged seen p)
    (hbefore : ∀ row ∈ p.row, ∀ l ∈ row.leavingAt, time ≤ l) :
    Sound logged seen (noteInside p time) := by
  cases h : p.row with
  | none => exact ⟨by simp [noteInside, h], fun hl => by simpa [noteInside, h] using hs.timeline hl⟩
  | some row =>
    obtain ⟨hok, ht⟩ := (sound_iff h).mp hs
    by_cases hin : row.state = .inside
    · obtain ⟨entered, he, hsince, hleaving, harr, happ⟩ := hok.inside hin
      have hrow : (noteInside p time).row =
          some { row with lastEnteredAt := some (max entered time) } := by
        simp [noteInside, h, hin, he]
      refine (sound_iff hrow).mpr ⟨?_, ht⟩
      refine Row.ok_inside hin rfl (hsince.trans (le_max_left _ _)) (fun l hl => ?_) harr happ
      exact max_le (hleaving l hl) (hbefore row h l hl)
    · have hrow : (noteInside p time).row = some row := by simp [noteInside, h, hin]
      exact (sound_iff hrow).mpr ⟨hok, ht⟩

theorem insideEvidence_sound {rawEventId : EventId} (hs : Sound logged seen p) :
    Sound logged seen (insideEvidence env placeId p time rawEventId) := by
  unfold insideEvidence
  split
  · exact hs
  · next row h =>
    split
    · split
      · exact applyPresence_sound hs (fresh_of_linked_eq_none rfl) rfl
      · next hl =>
        refine noteInside_sound hs fun r hr l hlv => ?_
        obtain rfl : row = r := some.inj (h.symm.trans hr)
        rw [show row.leavingAt = some l from hlv] at hl
        exact (not_le.mp (by simpa using hl)).le
    · exact hs

/-- What a reading leaves waiting at a place the owner isn't at. -/
theorem wait_sound (hs : Sound logged seen p) (hout : ∀ row ∈ p.row, row.state = .outside)
    {approachingAt arrivingAt : Row → Option Time} {arrivingEventId : Row → Option EventId}
    (harr : ∀ row, p.row.getD { state := .outside, since } = row → ∀ a ∈ arrivingAt row, row.since ≤
      a) : Sound logged seen (p.upsert since fun row => { row with
      approachingAt := approachingAt row
      arrivingAt := arrivingAt row
      arrivingEventId := arrivingEventId row }) := by
  obtain ⟨row, hr⟩ : ∃ row, p.row.getD { state := .outside, since } = row := ⟨_, rfl⟩
  obtain ⟨hok, hst, ht⟩ := hs.getD hout hr
  have hrow : (p.upsert since fun row => { row with
      approachingAt := approachingAt row
      arrivingAt := arrivingAt row
      arrivingEventId := arrivingEventId row }).row = some { row with
        approachingAt := approachingAt row
        arrivingAt := arrivingAt row
        arrivingEventId := arrivingEventId row } := by
    rw [← hr]
    rfl
  refine (sound_iff hrow).mpr ⟨hok.clear hst (harr row hr), fun hl => ?_⟩
  rw [show row.state = .outside from hst]
  exact ht hl

/-- A second reading confirms the arrival, and the later of the two is the newest evidence. -/
theorem confirmed_sound (hs : Sound logged seen p) (h : p.row = some row)
    (hout : row.state = .outside) (htr : change.transition = .arrived)
    (hinit : change.initial = false) (hlinked : change.linked = none)
    (hge : row.since ≤ change.time) :
    Sound logged seen (noteInside (applyPresence env placeId p change) time) := by
  refine noteInside_sound (applyPresence_sound hs (fresh_of_linked_eq_none hlinked) hinit) ?_
  intro r hr l hl
  have henter : (applyPresence env placeId p change).row =
      some (row.enter change.time change.linked) := by
    simp [applyPresence, hinit, h, htr, hout, arrivedOutside, not_lt.mpr hge, Presence.publish,
      Presence.upsert]
  rw [henter] at hr
  obtain rfl := some.inj hr
  simp [Row.enter] at hl

variable (env) in
theorem arrivalSource_ne_visit (eventId : Option EventId) (placeId : PlaceId) :
    arrivalSource env eventId placeId ≠ .visit := by
  unfold arrivalSource
  split
  · simp
  · split <;> simp

theorem arriveOnReading_sound {source : Source} {rawEventId : EventId} {fix : FixReading}
    (hs : Sound logged seen p) (hsource : source ≠ .visit)
    (hgeometry : place.geometryChangedAt ≤ time) :
    Sound logged seen (arriveOnReading env place p time source rawEventId fix) := by
  unfold arriveOnReading
  dsimp only
  split
  · next h =>
    refine wait_sound hs (by simp [h]) fun row hr a ha => ?_
    obtain rfl : time = a := by simpa using ha
    obtain rfl : _ = row := by simpa [h] using hr
    exact hgeometry
  · next row h =>
    split
    · exact applyPresence_sound hs (fresh_of_linked_eq_none (by simp [Change.linked, hsource])) rfl
    · next hst =>
      have hout := State.eq_outside hst
      split
      · exact hs
      · next hstale =>
        have hwait : Sound logged seen (p.upsert place.geometryChangedAt fun row =>
            { row with arrivingAt := some time, arrivingEventId := some rawEventId }) := by
          refine wait_sound hs (by simpa [h] using hout) fun r hr a ha => ?_
          obtain rfl : time = a := by simpa using ha
          obtain rfl : row = r := by simpa [h] using hr
          exact not_lt.mp hstale
        split
        · exact hwait
        · next first hfirst =>
          split
          · have hok := hs.ok row h
            simp only [Row.Ok, hout] at hok
            split
            · exact confirmed_sound hs h hout rfl rfl (by simp [Change.linked, hsource])
                (not_lt.mp hstale)
            · refine confirmed_sound hs h hout rfl rfl ?_ (hok.2.2.2 first hfirst)
              have hne := arrivalSource_ne_visit env row.arrivingEventId place.id
              simp [Change.linked, hne]
          · split
            · exact hs
            · exact hwait

theorem clearArrival_sound (hs : Sound logged seen p)
    (hout : ∀ row ∈ p.row, row.state = .outside) : Sound logged seen (clearArrival p) := by
  cases h : p.row with
  | none =>
    exact ⟨by simp [clearArrival, h], fun hl => by simpa [clearArrival, h] using hs.timeline hl⟩
  | some row =>
    obtain ⟨hok, ht⟩ := (sound_iff h).mp hs
    have hrow : (clearArrival p).row =
        some { row with arrivingAt := none, arrivingEventId := none } := by
      simp [clearArrival, h]
    exact (sound_iff hrow).mpr ⟨hok.clear (hout row h) (by simp), ht⟩

theorem markApproaching_sound (hs : Sound logged seen p) :
    Sound logged seen (markApproaching place p time) := by
  unfold markApproaching
  split
  · exact hs
  · next hnot =>
    have hout : ∀ row ∈ p.row, row.state = .outside := by
      intro row h
      refine State.eq_outside fun hin => hnot ?_
      simp [mem_def.mp h, hin]
    refine wait_sound hs hout fun row hr a ha => ?_
    obtain ⟨hok, hst, -⟩ := hs.getD hout hr
    simp only [Row.Ok, hst] at hok
    exact hok.2.2.2 a ha

variable {all : List Place} {fix : FixReading} {rawEventId : EventId} {rows : Owned}

theorem readPlace_sound (hs : Sound logged seen p) (hp : rows place.id = p) :
    Sound logged seen (readPlace env all rows fix rawEventId place p) := by
  unfold readPlace
  dsimp only
  rw [hp]
  split
  · exact hs
  · next hgeometry =>
    simp only [Bool.or_eq_true, decide_eq_true_eq, not_or, not_lt] at hgeometry
    split
    · split
      · exact insideEvidence_sound hs
      · split
        · exact applyPresence_sound hs (fresh_of_linked_eq_none rfl) rfl
        · split
          · exact applyPresence_sound hs (fresh_of_linked_eq_none rfl) rfl
          · exact hs
    · next hout =>
      split
      · exact arriveOnReading_sound hs (by simp) hgeometry.1
      · split
        · refine clearArrival_sound hs fun row h => State.eq_outside fun hin => hout ?_
          simp [mem_def.mp h, hin]
        · exact hs

/-- A loop over distinct places changes each of them once. -/
theorem foldl_update_apply {f : PlaceId → Presence → Presence} {g : Owned → PlaceId → Owned}
    (hg : ∀ current id, g current id = update current id (f id (current id)))
    (id : PlaceId) : ∀ (ids : List PlaceId), ids.Nodup → ∀ rows : Owned,
      ids.foldl g rows id = if id ∈ ids then f id (rows id) else rows id := by
  intro ids
  induction ids with
  | nil => simp
  | cons i ids ih =>
    intro hnd rows
    obtain ⟨hi, hnd⟩ := nodup_cons.mp hnd
    rw [foldl_cons, ih hnd, hg]
    by_cases hid : id = i
    · subst hid
      simp [hi]
    · simp [hid]

theorem nodup_readingCandidates : (readingCandidates env all rows fix).Nodup := by
  unfold readingCandidates
  refine Nodup.append ((nodup_dedup _).filter _ |>.filter _)
    ((nodup_dedup _).filter _ |>.filter _) ?_
  intro id h h'
  have := (mem_filter.mp h).2
  have := (mem_filter.mp h').2
  simp_all

/-- A reading does to each place what it is evidence of, once. -/
theorem applyReading_sound {id : PlaceId} (hs : Sound logged seen (rows id)) :
    Sound logged seen (applyReading env all rows fix rawEventId except id) := by
  unfold applyReading
  split
  · exact hs
  · rw [foldl_update_apply (f := fun id p => (all.find? (·.id = id)).elim p fun place =>
        if some id = except then p else readPlace env all rows fix rawEventId place p)
      ?_ id _ nodup_readingCandidates]
    · split
      · cases hplace : all.find? (·.id = id) with
        | none => exact hs
        | some place =>
          have hid : place.id = id := by simpa using find?_some hplace
          rw [elim_some]
          split
          · exact hs
          · exact readPlace_sound hs (by rw [hid])
      · exact hs
    · intro current i
      cases all.find? (·.id = i) with
      | none => simp
      | some place =>
        by_cases he : some i = except
        · simp [he]
        · simp [he]

theorem Sound.imp {logged' : Prop} (hs : Sound logged seen p) (h : logged' → logged) :
    Sound logged' seen p :=
  ⟨hs.ok, fun hl => hs.timeline (h hl)⟩

/-- What a report says about its own place. A baseline is not published. -/
theorem regionPlace_sound (hs : Sound logged seen p) :
    Sound (logged ∧ parsed.isInitial place = false) seen
      (regionPlace env all rawEventId parsed place p) := by
  have happly : ∀ transition, Sound (logged ∧ parsed.isInitial place = false) seen
      (applyPresence env place.id p
        { transition, time := parsed.time, source := .region, rawEventId := some rawEventId,
          initial := parsed.isInitial place }) := by
    intro transition
    cases hi : parsed.isInitial place with
    | false =>
      exact (applyPresence_sound hs (fresh_of_linked_eq_none rfl) rfl).imp And.left
    | true =>
      have hinit : Sound False seen (applyInitial p
          { transition, time := parsed.time, source := .region, rawEventId := some rawEventId,
            initial := true }) := applyInitial_sound hs
      simpa [applyPresence] using hinit.imp (by simp)
  unfold regionPlace
  dsimp only
  split
  · exact happly _
  · next fix _ =>
    split
    · exact happly _
    · exact happly _
    · exact happly _
    · next hi _ =>
      refine (arriveOnReading_sound hs (by simp) ?_).imp And.left
      simp only [RegionTransition.isInitial, Bool.or_eq_false_iff, decide_eq_false_iff_not,
        not_lt] at hi
      exact hi.2
    · exact (markApproaching_sound hs).imp And.left
    · exact happly _
    · exact (insideEvidence_sound hs).imp And.left
    · exact hs.imp And.left

theorem settleRow_sound (hs : Sound logged seen p) : Sound logged seen (settleRow env now p) := by
  unfold settleRow
  split
  · exact hs
  · next row h =>
    split
    · exact hs
    · next leavingAt hl =>
      split
      · next hdue =>
        simp only [Bool.and_eq_true, decide_eq_true_eq] at hdue
        obtain ⟨⟨hin, -⟩, -⟩ := hdue
        obtain ⟨hok, ht⟩ := (sound_iff h).mp hs
        obtain ⟨entered, he, hsince, hleaving, harr, -⟩ := hok.inside hin
        rw [sound_iff rfl]
        refine ⟨by simp [Row.Ok, Row.leave, harr], fun hlog => ?_⟩
        exact (ht hlog).append (c := ⟨.departed, leavingAt, _, none, row.leavingEventId⟩)
          (hsince.trans (hleaving leavingAt hl)) (fun _ => hin) (by simp) (fun _ hv => hv)
          (by simp)
      · exact hs

/-! ### Runs -/

/-- The event is a baseline of the place: the first report of a geofence, or one from before it. -/
def Event.isBaseline (all : List Place) (id : PlaceId) : Event → Bool
  | .region _ parsed _ => parsed.placeId = id && (all.find? (·.id = id)).any parsed.isInitial
  | _ => false

def Sys.Seen (s : Sys) (v : VisitId) : Prop := (s.visit v).isSome

variable {s : Sys} {id : PlaceId}

theorem regionOthers_sound (hs : Sound logged seen (rows id)) :
    Sound logged seen (regionOthers env all rawEventId parsed place rows id) := by
  unfold regionOthers
  cases parsed.fix with
  | none => exact hs
  | some fix =>
    dsimp only
    split
    · exact applyReading_sound hs
    · exact hs

theorem processRegionTransition_sound (hs : Sound logged seen (rows id)) :
    Sound (logged ∧ Event.isBaseline all id (.region rawEventId parsed redelivered) = false) seen
      (processRegionTransition env all rows rawEventId parsed redelivered id) := by
  unfold processRegionTransition
  cases hplace : all.find? (·.id = parsed.placeId) with
  | none => exact hs.imp And.left
  | some place =>
    have hid : place.id = parsed.placeId := by simpa using find?_some hplace
    have hown : ∀ rows : Owned, Sound logged seen (rows id) → Sound
        (logged ∧ Event.isBaseline all id (.region rawEventId parsed redelivered) = false) seen
        (update rows place.id
          (regionPlace env all rawEventId parsed place (rows place.id)) id) := by
      intro rows hs
      by_cases h : id = place.id
      · subst h
        rw [update_self]
        refine (regionPlace_sound hs).imp fun hb => ⟨hb.1, ?_⟩
        simpa [Event.isBaseline, hid, hplace] using hb.2
      · rw [update_of_ne h]
        exact hs.imp And.left
    dsimp only
    split
    · exact hs.imp And.left
    · cases parsed.transition with
      | arrived => exact hown _ (regionOthers_sound hs)
      | departed => exact regionOthers_sound (hown rows hs)

theorem visitArrived_sound {place : Option Place} (hs : Sound logged seen (rows id))
    (hnew : ¬ seen key) :
    Sound logged (fun v => seen v ∨ v = key) (visitArrived env key visit place rows id) := by
  unfold visitArrived
  split
  · refine applyPresence_sound hs ⟨fun _ => Or.inl, ?_, ?_⟩ rfl
    · simp [Change.linked]
    · simpa [Change.linked] using hnew
  · exact hs.mono fun _ => Or.inl

theorem visitCompleted_sound {place : Option Place} (hs : Sound logged seen (rows id))
    (hkey : seen key) :
    Sound logged seen (visitCompleted env all key visit place departureAt rows id) := by
  unfold visitCompleted
  split
  · exact applyPresence_sound hs ⟨fun _ hv => hv, by simpa [Change.linked] using hkey, by simp⟩ rfl
  · exact hs

theorem seen_projectVisit (report : VisitReport) :
    (projectVisit env all s report).Seen = fun v => s.Seen v ∨ v = report.key := by
  funext v
  by_cases hv : v = report.key
  · subst hv
    simp [projectVisit, Sys.Seen]
  · simp [projectVisit, Sys.Seen, hv]

/-- A visit arrives only once: when its row is new. -/
theorem projectVisit_sound (hs : Sound logged s.Seen (s.presence id)) :
    Sound logged (projectVisit env all s report).Seen
      ((projectVisit env all s report).presence id) := by
  rw [seen_projectVisit]
  have harrived : Sound logged (fun v => s.Seen v ∨ v = report.key)
      ((if (s.visit report.key).isNone && (report.merge (s.visit report.key)).arrivalAt.isSome then
        visitArrived env report.key (report.merge (s.visit report.key))
          (visitAt all (report.merge (s.visit report.key)) report.place) s.presence
      else s.presence) id) := by
    split
    · next hnew =>
      refine visitArrived_sound hs ?_
      simp only [Bool.and_eq_true, isNone_iff_eq_none] at hnew
      simp [Sys.Seen, hnew.1]
    · exact hs.mono fun _ => Or.inl
  unfold projectVisit
  dsimp only
  cases (report.merge (s.visit report.key)).departureAt.filter
      fun _ => (s.visit report.key).all (·.departureAt.isNone) with
  | none => exact harrived
  | some departureAt => exact visitCompleted_sound harrived (Or.inr rfl)

theorem step_sound (hs : Sound logged s.Seen (s.presence id)) :
    Sound (logged ∧ e.isBaseline all id = false) (step env all s e).Seen
      ((step env all s e).presence id) := by
  cases e with
  | visit report => exact (projectVisit_sound hs).imp And.left
  | region rawEventId parsed redelivered => exact processRegionTransition_sound hs
  | reading rawEventId fix => exact (applyReading_sound hs).imp And.left
  | settle now => exact (settleRow_sound hs).imp And.left

/-- **Every run keeps the invariants of every place**, the timeline as long as no report is a
baseline of the place. -/
theorem sound_run (env : Env) (all : List Place) (events : List Event) (id : PlaceId) :
    Sound (∀ e ∈ events, e.isBaseline all id = false) (run env all events).Seen
      ((run env all events).presence id) := by
  induction events using reverseRecOn with
  | nil => exact sound_none rfl rfl
  | append_singleton events e ih =>
    rw [run, foldl_append]
    refine (step_sound ih).imp fun h => ?_
    exact ⟨fun e he => h e (by simp [he]), h e (by simp)⟩

/-- **The row and the published changes of a place after any run.** The row is well formed; and,
when no report was a baseline of the place, the times of the changes never decrease, and arrivals
and departures alternate, an arrival first, but for arrivals of different visits. -/
theorem presence_run (env : Env) (all : List Place) (events : List Event) (id : PlaceId) :
    (∀ row, ((run env all events).presence id).row = some row → row.Ok) ∧
      ((∀ e ∈ events, e.isBaseline all id = false) →
        (((run env all events).presence id).published.map Published.time).Pairwise (· ≤ ·) ∧
        (∀ c ∈ ((run env all events).presence id).published.head?, c.transition = .arrived) ∧
        ((run env all events).presence id).published.IsChain Published.Follows) := by
  have hs := sound_run env all events id
  refine ⟨hs.ok, fun hb => ?_⟩
  obtain ⟨state, time, ht⟩ : ∃ state time, Timeline (run env all events).Seen
      ((run env all events).presence id).published state time := by
    have ht := hs.timeline hb
    cases h : ((run env all events).presence id).row with
    | none =>
      rw [h] at ht
      exact ⟨.outside, 0, by rw [ht]; exact timeline_nil⟩
    | some row =>
      rw [h] at ht
      exact ⟨row.state, row.since, ht⟩
  refine ⟨?_, ht.head, ht.chain.imp fun _ _ h => h.2⟩
  rw [pairwise_map]
  have hle : ((run env all events).presence id).published.IsChain
      fun a b => a.time ≤ b.time := ht.chain.imp fun _ _ h => h.1
  have : IsTrans Published fun a b => a.time ≤ b.time := ⟨fun _ _ _ => le_trans⟩
  exact isChain_iff_pairwise.mp hle

/-- A place of an owner whose readings are all at its centre. -/
def exampleEnv : Env where
  distanceM := fun _ _ _ _ => 0
  rawEvent := fun _ => none

def examplePlace : Place :=
  { id := "home", latitude := 0, longitude := 0, radiusM := 50, geometryChangedAt := 0 }

/-- A report of the geofence of `examplePlace`, without a reading. -/
def exampleReport (rawEventId : EventId) (transition : Transition) (time : Time) : Event :=
  .region rawEventId
    { placeId := "home", transition, time, initial := false, revision := 0, fix := none } false

/-- A geofence stay that ends unseen: the visit of the next day is an arrival after an arrival. Its
departure is the first of the two reported. -/
def exampleEvents : List Event :=
  [exampleReport "e1" .arrived 60000,
   .visit { key := "v", arrivalAt := some 72000000, departureAt := none, receivedAt := 72000000,
            place := some "home" },
   exampleReport "e2" .departed 75000000,
   .settle 75180000]

theorem presence_run_exampleEvents :
    ((run exampleEnv [examplePlace] exampleEvents).presence "home").published.map
        (fun c => (c.transition, c.time, c.visitId)) =
      [(.arrived, 60000, none), (.arrived, 72000000, some "v"), (.departed, 75000000, none)] ∧
    ((run exampleEnv [examplePlace] exampleEvents).presence "home").published.IsChain
      Published.Follows :=
  ⟨by decide,
    ((presence_run exampleEnv [examplePlace] exampleEvents "home").2 (by decide)).2.2⟩

end Bud.PlacePresence
