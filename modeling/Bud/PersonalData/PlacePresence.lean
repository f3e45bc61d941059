import Mathlib.Algebra.Order.Ring.Rat
import Mathlib.Data.List.Dedup

/-!
# Place presence

`place-presence.ts` keeps one row for each owner and place: whether the owner is there, since when,
and what is still waiting (a departure to settle, an arrival to confirm, an approach). Geofence
reports, visits and precise readings are its evidence, and they come late and in any order, so that
every decision goes by source times. What is decided is published as a list of changes.

Times are milliseconds, as `Date` has them. Distances are rationals and `distanceM`, a computation
in floating point, is a parameter. So is the table of raw events, which is only read here, for the
source of a change and for the reading it came with. All work of an owner is done under one lock,
so an event is one step.
-/

namespace Bud.PlacePresence

abbrev Time := ℤ

abbrev PlaceId := String

abbrev EventId := String

abbrev VisitId := String

/-- A region exit followed by re-entry within this window counts as staying. -/
def DEPARTURE_SETTLE_MS : ℤ := 3 * 60000

/-- A geofence stay with no exit for this long is assumed to have ended unseen. -/
def MISSED_EXIT_MS : ℤ := 12 * 3600000

def ARRIVAL_CONFIRM_MS : ℤ := 30000

def DEPARTURE_CONFIRM_MS : ℤ := 30000

def ARRIVAL_STAY_MS : ℤ := 5 * 60000

def STOPPED_MPS : ℚ := 1 / 2

def STILL_M : ℚ := 15

/-- A reading coarser than this can't confirm or reject a geofence report. -/
def FIX_MAX_ACCURACY_M : ℚ := 100

/-- Places this close are neighbours. -/
def NEARBY_PLACE_M : ℚ := 1000

inductive Transition
  | arrived
  | departed
  deriving DecidableEq

inductive Source
  | region
  | visit
  | reading
  deriving DecidableEq

inductive State
  | inside
  | outside
  deriving DecidableEq

/-- `PresenceChange`: one piece of evidence about one place. -/
structure Change where
  transition : Transition
  time : Time
  source : Source
  visitId : Option VisitId := none
  rawEventId : Option EventId := none
  visitDepartureAt : Option Time := none
  initial : Bool := false
  confirmed : Bool := false

structure FixReading where
  latitude : ℚ
  longitude : ℚ
  accuracyM : ℚ
  time : Time
  speedMps : Option ℚ := none

structure Place where
  id : PlaceId
  latitude : ℚ
  longitude : ℚ
  radiusM : ℚ
  geometryChangedAt : Time
  deriving DecidableEq

/-- A row of `place_presence`. -/
structure Row where
  state : State
  since : Time
  leavingAt : Option Time := none
  lastEnteredAt : Option Time := none
  visitId : Option VisitId := none
  leavingEventId : Option EventId := none
  leavingConfirmed : Bool := false
  approachingAt : Option Time := none
  arrivingAt : Option Time := none
  arrivingEventId : Option EventId := none
  deriving DecidableEq

/-- A row of `place_presence_event`. -/
structure Published where
  transition : Transition
  time : Time
  source : Source
  visitId : Option VisitId
  rawEventId : Option EventId

/-- What is stored for one place: its row, and what was published, oldest first. -/
structure Presence where
  row : Option Row := none
  published : List Published := []

/-- What is read of a raw event: whether it is a region report, of which place, and the precise
reading it carries (`storedReading`). -/
structure RawEvent where
  region : Bool
  placeId : Option PlaceId
  reading : Option FixReading

/-- What the functions read and never write. -/
structure Env where
  distanceM : ℚ → ℚ → ℚ → ℚ → ℚ
  rawEvent : EventId → Option RawEvent

variable (env : Env)

/-- The source of the exit that started a departure wait. -/
def exitSource (leavingEventId : Option EventId) : Source :=
  match leavingEventId.bind env.rawEvent with
  | none => .region
  | some exit => if exit.region then .region else .reading

/-- A waiting arrival started by this place's own geofence report came from the region. -/
def arrivalSource (eventId : Option EventId) (placeId : PlaceId) : Source :=
  match eventId.bind env.rawEvent with
  | none => .reading
  | some event =>
    if event.region && event.placeId = some placeId then .region else .reading

def storedReading (rawEventId : Option EventId) : Option FixReading :=
  (rawEventId.bind env.rawEvent).bind RawEvent.reading

namespace Presence

variable (p : Presence)

def publishPresence (change : Published) : Presence :=
  { p with published := p.published ++ [change] }

/-- Insert a row, outside since `since`, with the values, or else set the values in the row. -/
def upsert (since : Time) (values : Row → Row) : Presence :=
  { p with row := some (values (p.row.getD { state := .outside, since })) }

def publish (change : Change) (transition : Transition) (linked : Option VisitId) : Presence :=
  p.publishPresence
    { transition, time := change.time, source := change.source, visitId := linked,
      rawEventId := change.rawEventId }

/-- `publish` in `applyPresence` at a time taken from the row. -/
def publishAt (transition : Transition) (time : Time) (linked : Option VisitId) : Presence :=
  p.publishPresence
    { transition, time, source := .region, visitId := linked, rawEventId := none }

end Presence

/-! ### One piece of evidence -/

def Change.linked (change : Change) : Option VisitId :=
  if change.source = .visit then change.visitId else none

/-- The state a geofence reports when it's first added: recorded, never published. -/
def applyInitial (p : Presence) (change : Change) : Presence :=
  if p.row.any (change.time < ·.since) then p
  else
    let arrived := change.transition = .arrived
    p.upsert change.time fun row => { row with
      state := if arrived then .inside else .outside
      since := change.time
      leavingAt := none
      lastEnteredAt := if arrived then some change.time else none
      visitId := none
      approachingAt := none
      arrivingAt := none
      arrivingEventId := none }

def Row.enter (row : Row) (time : Time) (visitId : Option VisitId) : Row :=
  { row with
    state := .inside
    since := time
    leavingAt := none
    lastEnteredAt := some time
    visitId
    approachingAt := none
    arrivingAt := none
    arrivingEventId := none }

def Row.leave (row : Row) (time : Time) : Row :=
  { row with state := .outside, since := time, leavingAt := none, lastEnteredAt := none,
             visitId := none }

/-- An arrival at a place the owner isn't at. -/
def arrivedOutside (p : Presence) (change : Change) : Presence :=
  if p.row.any (change.time < ·.since) then p
  else
    (p.upsert change.time fun row => row.enter change.time change.linked).publish change .arrived
      change.linked

/-- Whether a visit is another stay, whose predecessor's departure was never reported (or, for a
geofence stay, the exit was missed for over 12 hours). -/
def Row.otherStay (row : Row) (change : Change) : Bool :=
  change.linked.isSome && change.linked ≠ row.visitId && row.since < change.time &&
    (row.visitId.isSome || MISSED_EXIT_MS < change.time - row.since)

/-- Back inside after an exit that was waiting. -/
def reenter (p : Presence) (row : Row) (change : Change) (leavingAt : Time) : Presence :=
  -- A re-entry within the window, or after an unconfirmed wait, means staying.
  if !row.leavingConfirmed || change.time - leavingAt < DEPARTURE_SETTLE_MS then
    p.upsert change.time fun row => { row with
      leavingAt := none, leavingConfirmed := false, lastEnteredAt := some change.time }
  else
    ((p.publishAt .departed leavingAt none).upsert change.time fun row => { row with
      state := .inside, since := change.time, leavingAt := none,
      lastEnteredAt := some change.time, visitId := change.linked }).publish change .arrived
        change.linked

/-- Evidence of being inside that no exit waits for: another stay, or the same one. -/
def stillInside (p : Presence) (row : Row) (change : Change) : Presence :=
  let lastEnteredAt := some (row.lastEnteredAt.elim change.time (max change.time))
  if row.otherStay change then
    (p.upsert change.time fun row => { row with
      since := change.time, leavingAt := none, lastEnteredAt,
      visitId := change.linked }).publish change .arrived change.linked
  else
    -- Link only a visit that overlaps this stay.
    let overlaps := change.visitDepartureAt.all (row.since ≤ ·)
    p.upsert change.time fun row => { row with
      lastEnteredAt
      visitId := if change.linked.isSome && row.visitId.isNone && overlaps then change.linked
        else row.visitId }

def arrivedInside (p : Presence) (row : Row) (change : Change) : Presence :=
  match row.leavingAt.filter (· ≤ change.time) with
  | some leavingAt => reenter p row change leavingAt
  | none => stillInside p row change

/-- A departure published at once: a completed visit, or a reading confirming the owner at another
place. An exit already waiting is the earlier evidence. -/
def departNow (p : Presence) (row : Row) (change : Change) : Presence :=
  let now := (p.upsert change.time (·.leave change.time)).publish change .departed change.linked
  match row.leavingAt with
  | some leftAt =>
    if leftAt < change.time &&
        (row.leavingConfirmed || change.time - leftAt ≤ DEPARTURE_SETTLE_MS) then
      (p.upsert change.time (·.leave leftAt)).publishPresence
        { transition := .departed, time := leftAt, source := exitSource env row.leavingEventId,
          visitId := change.linked, rawEventId := row.leavingEventId }
    else now
  | none => now

/-- An exit starts a wait. A geofence exit's can settle; a reading's needs a second outside reading
`DEPARTURE_CONFIRM_MS` later, or a geofence exit. -/
def waitToLeave (p : Presence) (row : Row) (change : Change) : Presence :=
  match row.leavingAt with
  | none => p.upsert change.time fun row => { row with
      leavingAt := some change.time, leavingEventId := change.rawEventId,
      leavingConfirmed := change.source = .region }
  | some leavingAt =>
    if !row.leavingConfirmed &&
        (change.source = .region || DEPARTURE_CONFIRM_MS ≤ change.time - leavingAt) then
      p.upsert change.time fun row => { row with leavingConfirmed := true }
    else p

/-- An exit or reading that arrived late: newer evidence of being inside was processed before. -/
def leaveLate (p : Presence) (change : Change) (lastEnteredAt : Time) : Presence :=
  -- One outside reading between inside evidence doesn't show a departure.
  if change.source = .reading || lastEnteredAt - change.time < DEPARTURE_SETTLE_MS then p
  else
    ((p.publish change .departed none).upsert change.time fun row => { row with
      since := lastEnteredAt, leavingAt := none, visitId := none }).publishAt .arrived
        lastEnteredAt none

def departedInside (p : Presence) (row : Row) (change : Change) : Presence :=
  if change.time < row.since then
    -- A linked visit that turns out to have ended before this stay began was never part of it.
    if change.linked.isSome && row.visitId = change.linked then
      p.upsert change.time fun row => { row with visitId := none }
    else p
  else if change.source = .visit then departNow env p row change
  else
    match row.lastEnteredAt.filter (change.time < ·) with
    | some lastEnteredAt => leaveLate p change lastEnteredAt
    | none => if change.confirmed then departNow env p row change else waitToLeave p row change

/-- A departure while outside ends an approach, or a waiting arrival, that never arrived, unless
the exit came long enough after it: then it arrived, and this exit starts the departure. -/
def departedOutside (placeId : PlaceId) (p : Presence) (row : Row) (change : Change) : Presence :=
  let approach := row.approachingAt.any (· ≤ change.time)
  let arriving := row.arrivingAt.filter (· ≤ change.time)
  match arriving with
  | some arrivedAt =>
    if change.source = .region && ARRIVAL_STAY_MS ≤ change.time - arrivedAt then
      let entered := row.enter arrivedAt none
      departedInside env
        (({ p with row := some entered } : Presence).publishPresence
          { transition := .arrived, time := arrivedAt,
            source := arrivalSource env row.arrivingEventId placeId, visitId := none,
            rawEventId := row.arrivingEventId })
        entered change
    else
      p.upsert change.time fun row => { row with
        approachingAt := if approach then none else row.approachingAt
        arrivingAt := none
        arrivingEventId := none }
  | none =>
    if approach then p.upsert change.time fun row => { row with approachingAt := none } else p

/-- One piece of evidence about one place. -/
def applyPresence (placeId : PlaceId) (p : Presence) (change : Change) : Presence :=
  if change.initial then applyInitial p change
  else
    match p.row, change.transition with
    | none, .arrived => arrivedOutside p change
    | none, .departed => p
    | some row, .arrived =>
      if row.state = .inside then arrivedInside p row change else arrivedOutside p change
    | some row, .departed =>
      if row.state = .inside then departedInside env p row change
      else departedOutside env placeId p row change

/-! ### Readings and geofence reports -/

/-- The newest evidence of being inside, so that a delayed exit from before it can't depart. -/
def noteInside (p : Presence) (time : Time) : Presence :=
  { p with row := p.row.map fun row =>
      if row.state = .inside then
        { row with lastEnteredAt := some (row.lastEnteredAt.elim time (max · time)) }
      else row }

/-- A definitely-inside reading while inside: a re-entry after a pending departure, otherwise newer
inside evidence. -/
def insideEvidence (placeId : PlaceId) (p : Presence) (time : Time) (rawEventId : EventId) :
    Presence :=
  match p.row with
  | none => p
  | some row =>
    if row.state = .inside then
      if row.leavingAt.any (· ≤ time) then
        applyPresence env placeId p
          { transition := .arrived, time, source := .reading, rawEventId := some rawEventId }
      else noteInside p time
    else p

/-- Whether `later` shows the owner stopped. -/
def stopped (later : FixReading) (earlier : Option FixReading) : Bool :=
  match later.speedMps with
  | some speed => speed < STOPPED_MPS
  | none => earlier.any fun earlier =>
      env.distanceM later.latitude later.longitude earlier.latitude earlier.longitude ≤ STILL_M

/-- Whether a second reading confirms the arrival that has been waiting since `first`. -/
def confirmsArrival (row : Row) (first time : Time) (fix : FixReading) : Bool :=
  let stored := storedReading env row.arrivingEventId
  ARRIVAL_CONFIRM_MS ≤ |time - first| &&
    if time < first then stored.any (stopped env · (some fix)) else stopped env fix stored

/-- A definitely-inside reading at a place. At one the owner isn't at, the first starts an arrival
and a later one, in either order, confirms it at the earlier time. -/
def arriveOnReading (place : Place) (p : Presence) (time : Time) (source : Source)
    (rawEventId : EventId) (fix : FixReading) : Presence :=
  let evidence : Change := { transition := .arrived, time, source, rawEventId := some rawEventId }
  -- A place never seen before starts outside as of its geometry, not this reading.
  let wait := p.upsert place.geometryChangedAt fun row =>
    { row with arrivingAt := some time, arrivingEventId := some rawEventId }
  match p.row with
  | none => wait
  | some row =>
    if row.state = .inside then applyPresence env place.id p evidence
    else if time < row.since then p
    else
      match row.arrivingAt with
      | none => wait
      | some first =>
        if confirmsArrival env row first time fix then
          let start : Change := if time < first then evidence
            else { transition := .arrived, time := first,
                   source := arrivalSource env row.arrivingEventId place.id,
                   rawEventId := row.arrivingEventId }
          noteInside (applyPresence env place.id p start) (max time first)
        else if first ≤ time then p
        else wait

def clearArrival (p : Presence) : Presence :=
  { p with row := p.row.map fun row => { row with arrivingAt := none, arrivingEventId := none } }

/-- A geofence entry the reading shows is still short of the place. Nothing publishes. -/
def markApproaching (place : Place) (p : Presence) (time : Time) : Presence :=
  if p.row.any fun row =>
      row.state = .inside || time < row.since || row.approachingAt.any (time ≤ ·) then p
  else p.upsert place.geometryChangedAt fun row => { row with approachingAt := some time }

inductive ReadingClass
  | inside
  | outside
  | uncertain
  | unknown
  deriving DecidableEq

/-- Where a precise reading puts the owner relative to a place. -/
def classifyReading (fix : FixReading) (place : Place) (owned : List Place) : ReadingClass :=
  let distance := env.distanceM fix.latitude fix.longitude place.latitude place.longitude
  if FIX_MAX_ACCURACY_M < fix.accuracyM then .unknown
  else if place.radiusM < distance - fix.accuracyM then .outside
  else if place.radiusM < distance + fix.accuracyM then .uncertain
  else if owned.any fun other =>
      other.id ≠ place.id &&
        (let d := env.distanceM fix.latitude fix.longitude other.latitude other.longitude
         d < distance && d ≤ other.radiusM + fix.accuracyM) then .uncertain
  else .inside

/-- What is stored for an owner, place by place. -/
abbrev Owned := PlaceId → Presence

def insideIds (all : List Place) (fix : FixReading) : List PlaceId :=
  (all.filter (classifyReading env fix · all = .inside)).map Place.id

/-- The owner has been confirmed since the reading at another place that is near. -/
def confirmedElsewhereAfter (all : List Place) (rows : Owned) (here : Place) (fix : FixReading) :
    Bool :=
  all.any fun there =>
    there.id ≠ here.id &&
      env.distanceM here.latitude here.longitude there.latitude there.longitude ≤ NEARBY_PLACE_M &&
      (rows there.id).row.any fun row =>
        row.state = .inside && fix.time < max row.since (row.lastEnteredAt.getD 0)

/-- A reading as evidence about one place: the body of the loop in `applyReading`. `rows` is what
was stored before the loop. -/
def readPlace (all : List Place) (rows : Owned) (fix : FixReading) (rawEventId : EventId)
    (place : Place) (p : Presence) : Presence :=
  let state := classifyReading env fix place all
  let insideElsewhere := (insideIds env all fix).any (· ≠ place.id)
  let departed : Change :=
    { transition := .departed, time := fix.time, source := .reading, rawEventId := some rawEventId }
  let row := (rows place.id).row
  if fix.time < place.geometryChangedAt || row.any (fix.time < ·.since) then p
  else if row.any (·.state = .inside) then
    if state = .inside then insideEvidence env place.id p fix.time rawEventId
    else if insideElsewhere && state ≠ .unknown then
      applyPresence env place.id p { departed with confirmed := true }
    else if state = .outside then applyPresence env place.id p departed
    else p
  else if state = .inside && !confirmedElsewhereAfter env all rows place fix then
    arriveOnReading env place p fix.time .reading rawEventId fix
  else if (row.bind Row.arrivingAt).any (· ≤ fix.time) &&
      (state = .outside || insideElsewhere && state ≠ .unknown) then clearArrival p
  else p

/-- The places a reading is evidence about: those the owner is at first. -/
def readingCandidates (all : List Place) (rows : Owned) (fix : FixReading) : List PlaceId :=
  let isInside := fun id => (rows id).row.any (·.state = .inside)
  let candidates := (all.map Place.id).dedup.filter fun id =>
    isInside id || ((rows id).row.bind Row.arrivingAt).isSome || id ∈ insideIds env all fix
  candidates.filter isInside ++ candidates.filter fun id => !isInside id

/-- A precise reading as evidence about every saved place but `except`. -/
def applyReading (all : List Place) (rows : Owned) (fix : FixReading) (rawEventId : EventId)
    (except : Option PlaceId) : Owned :=
  if FIX_MAX_ACCURACY_M < fix.accuracyM then rows
  else
    (readingCandidates env all rows fix).foldl (fun current id =>
      match all.find? (·.id = id) with
      | none => current
      | some place =>
        if some id = except then current
        else Function.update current id
          (readPlace env all rows fix rawEventId place (current id))) rows

/-- A parsed `location.region_transition.v1` report. -/
structure RegionTransition where
  placeId : PlaceId
  transition : Transition
  time : Time
  initial : Bool
  /-- The boundary it was installed for: `geometryRevision` is the time of the geometry. -/
  revision : Time
  fix : Option FixReading

/-- The report is a baseline of the place. -/
def RegionTransition.isInitial (parsed : RegionTransition) (place : Place) : Bool :=
  parsed.initial || parsed.time < place.geometryChangedAt

/-- What a region report says about its own place. -/
def regionPlace (all : List Place) (rawEventId : EventId) (parsed : RegionTransition)
    (place : Place) (p : Presence) : Presence :=
  let change : Change :=
    { transition := parsed.transition, time := parsed.time, source := .region,
      rawEventId := some rawEventId, initial := parsed.isInitial place }
  match parsed.fix with
  | none => applyPresence env place.id p change
  | some fix =>
    match classifyReading env fix place all, parsed.isInitial place, parsed.transition with
    | .unknown, _, _ => applyPresence env place.id p change
    | .inside, true, _ => applyPresence env place.id p { change with transition := .arrived }
    | _, true, _ => applyPresence env place.id p { change with transition := .departed }
    | .inside, false, .arrived =>
      arriveOnReading env place p parsed.time .region rawEventId fix
    | _, false, .arrived => markApproaching place p parsed.time
    | .outside, false, .departed =>
      applyPresence env place.id p { change with transition := .departed }
    | .inside, false, .departed => insideEvidence env place.id p fix.time rawEventId
    | .uncertain, false, .departed => p

/-- The report's reading counts for every other place too, unless the report is a baseline. -/
def regionOthers (all : List Place) (rawEventId : EventId) (parsed : RegionTransition)
    (place : Place) (rows : Owned) : Owned :=
  match parsed.fix with
  | none => rows
  | some fix =>
    if classifyReading env fix place all ≠ .unknown && !parsed.isInitial place then
      applyReading env all rows fix rawEventId (some place.id)
    else rows

/-- A region report. `redelivered` says that it repeats an earlier one (`isRedelivery`). The other
places come before its own for an entry, so their departures come before this arrival, and after it
for an exit. -/
def processRegionTransition (all : List Place) (rows : Owned) (rawEventId : EventId)
    (parsed : RegionTransition) (redelivered : Bool) : Owned :=
  match all.find? (·.id = parsed.placeId) with
  | none => rows
  | some place =>
    if parsed.revision ≠ place.geometryChangedAt || redelivered then rows
    else
      let own (rows : Owned) : Owned := Function.update rows place.id
        (regionPlace env all rawEventId parsed place (rows place.id))
      match parsed.transition with
      | .arrived => own (regionOthers env all rawEventId parsed place rows)
      | .departed => regionOthers env all rawEventId parsed place (own rows)

/-! ### Visits, departures that settle, and runs -/

/-- A row of `location_visit`, whose id stands for its key. -/
structure Visit where
  arrivalAt : Option Time
  departureAt : Option Time
  startedAt : Time

structure Sys where
  presence : Owned := fun _ => {}
  visit : VisitId → Option Visit := fun _ => none

/-- A visit report: the times it has, and the place `placeOfVisit` finds for the merged visit. -/
structure VisitReport where
  key : VisitId
  arrivalAt : Option Time
  departureAt : Option Time
  receivedAt : Time
  place : Option PlaceId

/-- The merged visit: the earliest arrival and the latest departure. -/
def VisitReport.merge (report : VisitReport) : Option Visit → Visit
  | none =>
    { arrivalAt := report.arrivalAt
      departureAt := report.departureAt
      startedAt := (report.arrivalAt.or report.departureAt).getD report.receivedAt }
  | some before =>
    let arrivalAt := Option.merge min before.arrivalAt report.arrivalAt
    { arrivalAt
      departureAt := Option.merge max before.departureAt report.departureAt
      startedAt := arrivalAt.getD before.startedAt }

/-- The place a visit was at, unless it was created or moved after the visit began. -/
def visitAt (all : List Place) (visit : Visit) (place : Option PlaceId) : Option Place :=
  (place.bind fun id => all.find? (·.id = id)).filter (·.geometryChangedAt ≤ visit.startedAt)

/-- A visit's arrival at the place it was at. -/
def visitArrived (key : VisitId) (visit : Visit) (place : Option Place) (rows : Owned) : Owned :=
  fun id =>
    if place.any (·.id = id) then
      applyPresence env id (rows id)
        { transition := .arrived, time := visit.arrivalAt.getD visit.startedAt, source := .visit,
          visitId := some key, visitDepartureAt := visit.departureAt }
    else rows id

/-- A visit's completion, at the place it was at and at the places it is linked to. -/
def visitCompleted (all : List Place) (key : VisitId) (visit : Visit) (place : Option Place)
    (departureAt : Time) (rows : Owned) : Owned :=
  fun id =>
    if place.any (·.id = id) || all.any (·.id = id) && (rows id).row.any fun row =>
        row.visitId = some key && row.state = .inside then
      applyPresence env id (rows id)
        { transition := .departed, time := departureAt, source := .visit, visitId := some key,
          visitDepartureAt := visit.departureAt }
    else rows id

/-- `projectVisit` and the `publishVisitEvents` it calls: the report is merged into its visit, which
arrives when its row is new and has an arrival, and completes when its departure is new. -/
def projectVisit (all : List Place) (s : Sys) (report : VisitReport) : Sys :=
  let before := s.visit report.key
  let after := report.merge before
  let place := visitAt all after report.place
  let arrived : Owned :=
    if before.isNone && after.arrivalAt.isSome then
      visitArrived env report.key after place s.presence
    else s.presence
  { presence :=
      match after.departureAt.filter fun _ => before.all (·.departureAt.isNone) with
      | some departureAt => visitCompleted env all report.key after place departureAt arrived
      | none => arrived
    visit := Function.update s.visit report.key (some after) }

/-- A departure that stayed out past the settle window is published. -/
def settleRow (now : Time) (p : Presence) : Presence :=
  match p.row with
  | none => p
  | some row =>
    match row.leavingAt with
    | none => p
    | some leavingAt =>
      if row.state = .inside && row.leavingConfirmed && leavingAt ≤ now - DEPARTURE_SETTLE_MS then
        ({ p with row := some (row.leave leavingAt) } : Presence).publishPresence
          { transition := .departed, time := leavingAt,
            source := exitSource env row.leavingEventId, visitId := none,
            rawEventId := row.leavingEventId }
      else p

def settleDepartures (now : Time) (rows : Owned) : Owned := fun id => settleRow env now (rows id)

inductive Event
  | visit (report : VisitReport)
  | region (rawEventId : EventId) (parsed : RegionTransition) (redelivered : Bool)
  | reading (rawEventId : EventId) (fix : FixReading)
  | settle (now : Time)

def step (all : List Place) (s : Sys) : Event → Sys
  | .visit report => projectVisit env all s report
  | .region rawEventId parsed redelivered =>
    { s with presence := processRegionTransition env all s.presence rawEventId parsed redelivered }
  | .reading rawEventId fix =>
    { s with presence := applyReading env all s.presence fix rawEventId none }
  | .settle now => { s with presence := settleDepartures env now s.presence }

def run (all : List Place) (events : List Event) : Sys :=
  events.foldl (step env all) {}

end Bud.PlacePresence
