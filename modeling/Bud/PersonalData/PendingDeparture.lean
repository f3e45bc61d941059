import Bud.PersonalData.PresenceInvariant

/-!
# Older evidence and a pending departure

A departure that waits in a row can settle, and evidence from before it is older. Most of it changes
what is known of the stay and leaves the departure waiting. Two kinds do not: a geofence exit that
is taken for a departure of its own because newer evidence of being inside was processed before it,
and a visit that is taken for another stay. Both write a stay whose departure is cleared, though the
one that was waiting is newer than either.
-/

namespace Bud.PlacePresence

variable {env : Env} {p : Presence} {row : Row} {change : Change}

def Row.Pending (row : Row) (time : Time) : Prop :=
  row.state = .inside ∧ row.leavingAt = some time ∧ row.leavingConfirmed = true

def Presence.LeftOr (p : Presence) (time : Time) : Prop :=
  ∃ row, p.row = some row ∧ (row.state = .outside ∨ row.Pending time)

/-- A geofence exit from during the stay, and so much older than the newest evidence of it that it
is taken for a departure of its own. -/
def Row.lateExit (row : Row) (change : Change) : Bool :=
  change.source = .region && row.since ≤ change.time &&
    row.lastEnteredAt.any (DEPARTURE_SETTLE_MS ≤ · - change.time)

/-- The evidence that clears a departure it is older than. -/
def Row.clearsDeparture (row : Row) (change : Change) : Bool :=
  match change.transition with
  | .arrived => row.otherStay change
  | .departed => row.lateExit change

section Pending

variable {leavingAt : Time} (h : p.row = some row) (hpending : row.Pending leavingAt)
  (holder : change.time < leavingAt)

include h

theorem departNow_leftOr : (departNow env p row change).LeftOr leavingAt := by
  have hrow : ∀ time, (p.upsert change.time (·.leave time)).row = some (row.leave time) :=
    fun time => Presence.row_upsert h change.time _
  unfold departNow
  dsimp only
  split
  · split
    all_goals exact ⟨_, hrow _, Or.inl rfl⟩
  · exact ⟨_, hrow _, Or.inl rfl⟩

include hpending

/-- The row is as it was, but for fields that have nothing to do with the departure. -/
theorem upsert_leftOr (hstate : (values row).state = row.state)
    (hleaving : (values row).leavingAt = row.leavingAt)
    (hconfirmed : (values row).leavingConfirmed = row.leavingConfirmed) :
    (p.upsert since values).LeftOr leavingAt := by
  obtain ⟨hin, hl, hc⟩ := hpending
  exact ⟨values row, Presence.row_upsert h since values,
    Or.inr ⟨hstate.trans hin, hleaving.trans hl, hconfirmed.trans hc⟩⟩

omit hpending in
/-- A new stay without a departure has lost it. -/
theorem not_leftOr_publish {since : Time} {values : Row → Row} {c : Published}
    (hin : (values row).state = .inside) (hnone : (values row).leavingAt = none) :
    ¬ ((p.upsert since values).publishPresence c).LeftOr leavingAt := by
  rintro ⟨row', hrow', hleft⟩
  obtain rfl : values row = row' :=
    Option.some.inj ((Presence.row_upsert h since values).symm.trans hrow')
  rcases hleft with hout | ⟨-, hl, -⟩
  · simp [hin] at hout
  · simp [hnone] at hl

include holder

/-- An older arrival leaves the departure pending, unless it is another stay. -/
theorem arrivedInside_leftOr_iff :
    (arrivedInside p row change).LeftOr leavingAt ↔ row.otherStay change = false := by
  obtain ⟨hin, hl, hc⟩ := hpending
  have hnone : row.leavingAt.filter (· ≤ change.time) = none := by
    simp [hl, holder]
  rw [arrivedInside, hnone]
  dsimp only
  unfold stillInside
  dsimp only
  cases hother : row.otherStay change with
  | true =>
    rw [if_pos rfl]
    refine iff_of_false ?_ (by simp)
    exact not_leftOr_publish h hin rfl
  | false =>
    rw [if_neg (by simp)]
    exact iff_of_true (upsert_leftOr h ⟨hin, hl, hc⟩ rfl rfl rfl) rfl

omit holder in
/-- A departure leaves the one that is pending or ends the stay, unless it is a late exit. -/
theorem departedInside_leftOr_iff :
    (departedInside env p row change).LeftOr leavingAt ↔ row.lateExit change = false := by
  have hkept : p.LeftOr leavingAt := ⟨row, h, Or.inr hpending⟩
  unfold departedInside
  split
  · next hstale =>
    -- Older than the stay.
    refine iff_of_true ?_ (by simp [Row.lateExit, hstale])
    split
    · exact upsert_leftOr h hpending rfl rfl rfl
    · exact hkept
  · next hstale =>
    split
    · next hvisit => exact iff_of_true (departNow_leftOr h) (by simp [Row.lateExit, hvisit])
    · next hvisit =>
      split
      · next entered he =>
        obtain ⟨he, -⟩ := Option.filter_eq_some_iff.mp he
        have hlate : row.lateExit change = true ↔
            change.source = .region ∧ DEPARTURE_SETTLE_MS ≤ entered - change.time := by
          simp [Row.lateExit, he, not_lt.mp hstale]
        unfold leaveLate
        split
        · next hkeep =>
          refine iff_of_true hkept ?_
          rw [← Bool.not_eq_true, hlate, not_and_or, not_le]
          rcases (Bool.or_eq_true _ _).mp hkeep with hreading | hwindow
          · left
            simp [of_decide_eq_true hreading]
          · exact Or.inr (of_decide_eq_true hwindow)
        · next hlose =>
          refine iff_of_false ?_ ?_
          · exact not_leftOr_publish (p := p.publish change .departed none) h hpending.1 rfl
          · simp only [Bool.or_eq_true, decide_eq_true_eq, not_or, not_lt] at hlose
            rw [Bool.not_eq_false, hlate]
            refine ⟨?_, hlose.2⟩
            cases hsource : change.source with
            | region => rfl
            | visit => exact absurd hsource hvisit
            | reading => exact absurd hsource hlose.1
      · next hnew =>
        have hlate : row.lateExit change = false := by
          rw [← Bool.not_eq_true]
          intro hlate
          simp only [Row.lateExit, Bool.and_eq_true, Option.any_eq_true, decide_eq_true_eq] at hlate
          obtain ⟨-, entered, he, hwindow⟩ := hlate
          have hle : entered ≤ change.time := by
            simpa using Option.filter_eq_none_iff.mp hnew entered he
          simp only [DEPARTURE_SETTLE_MS] at hwindow
          omega
        refine iff_of_true ?_ hlate
        split
        · exact departNow_leftOr h
        · unfold waitToLeave
          simp only [hpending.2.1, hpending.2.2, Bool.not_true, Bool.false_and]
          exact hkept

end Pending

/-- **Which older evidence keeps a pending departure.** Let a departure be pending in a row that
some run has reached, and let evidence that is no baseline be older than it. The owner has left
then, or the departure is still pending, exactly when the evidence is neither a visit taken for
another stay nor a geofence exit taken for a departure of its own. -/
theorem applyPresence_pending_iff (env : Env) (all : List Place) (events : List Event)
    (id : PlaceId) (row : Row) (leavingAt : Time) (change : Change)
    (h : ((run env all events).presence id).row = some row) (hpending : row.Pending leavingAt)
    (hinit : change.initial = false) (holder : change.time < leavingAt) :
    (applyPresence env id ((run env all events).presence id) change).LeftOr leavingAt ↔
      row.clearsDeparture change = false := by
  unfold applyPresence Row.clearsDeparture
  rw [if_neg (by simp [hinit]), h]
  cases change.transition with
  | arrived =>
    dsimp only
    rw [if_pos hpending.1]
    exact arrivedInside_leftOr_iff h hpending holder
  | departed =>
    dsimp only
    rw [if_pos hpending.1]
    exact departedInside_leftOr_iff h hpending

/-- An owner who left for a minute, came back, and left again. -/
def exampleReturn : List Event :=
  [exampleReport "e1" .arrived 0,
   exampleReport "e2" .departed 600000,
   exampleReport "e3" .arrived 660000,
   exampleReport "e4" .departed 1200000]

def exampleRow : Row :=
  { state := .inside, since := 0, leavingAt := some 1200000, lastEnteredAt := some 660000,
    leavingEventId := some "e4", leavingConfirmed := true }

/-- An exit from before the return, reported last. -/
def exampleLateExit : Change :=
  { transition := .departed, time := 300000, source := .region, rawEventId := some "e5" }

theorem applyPresence_pending_iff_reading :
    (applyPresence exampleEnv "home"
      ((run exampleEnv [examplePlace] exampleReturn).presence "home")
      { exampleLateExit with source := .reading }).LeftOr 1200000 :=
  (applyPresence_pending_iff exampleEnv [examplePlace] exampleReturn "home" exampleRow 1200000
    { exampleLateExit with source := .reading } (by decide) ⟨rfl, rfl, rfl⟩
      rfl (by decide)).mpr (by decide)

/-- The exit at 1200000 is pending, and the older exit clears it: the owner is taken to be inside
since 660000 with no departure waiting. -/
theorem not_leftOr_exampleLateExit :
    (∃ row, ((run exampleEnv [examplePlace] exampleReturn).presence "home").row = some row ∧
      row.Pending 1200000) ∧
    exampleLateExit.time < 1200000 ∧
    ¬ (applyPresence exampleEnv "home"
      ((run exampleEnv [examplePlace] exampleReturn).presence "home")
      exampleLateExit).LeftOr 1200000 := by
  refine ⟨⟨exampleRow, by decide, rfl, rfl, rfl⟩, by decide, ?_⟩
  rintro ⟨row, hrow, hleft⟩
  have hafter : (applyPresence exampleEnv "home"
      ((run exampleEnv [examplePlace] exampleReturn).presence "home") exampleLateExit).row =
      some { state := .inside, since := 660000, lastEnteredAt := some 660000,
             leavingEventId := some "e4", leavingConfirmed := true } := by
    decide
  obtain rfl := Option.some.inj (hafter.symm.trans hrow)
  rcases hleft with hout | ⟨-, hl, -⟩
  · simp at hout
  · simp at hl

end Bud.PlacePresence
