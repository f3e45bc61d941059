import Bud.Browser.ControlSteps
import Mathlib.Data.Option.Basic

/-!
# What the transactions write

Every transaction is taken apart once, and what it does to the table of resources is said in terms
of `Write`. Most go through `withLocked`: they retire what is left of other owners and write the row
of the caller, which by the constraints is the only one of the Bud that is not retired.
-/

namespace Bud.BrowserControl

open Transaction Option

variable {s t : Store} {e : Event} {r q : Resource} {owner bud id : String}
  {condition : Resource → Bool} {update : Columns → Columns} {α : Type}

/-! ### Rules -/

variable {Q : Unit → Store → Prop} {requestId boot override callId codeHash bootId : String}
  {session : BrowserSession} {serviceNow : ℕ} {context : AgentContext}
  {identity : InvocationIdentity} {command : AgentCommand} {generated : Generated}
  {ensureOnly : EnsureOnly}

@[simp] theorem post_updateResources :
    Post (updateResources condition update) s Q ↔ Q () (s.writeResources condition update) :=
  post_modify

@[simp] theorem post_setTables {f : Tables → Tables} :
    Post (setTables f) s Q ↔ Q () { s with tables := f s.tables } := post_modify

variable {f : Session → Session} {operation : LifecycleOperation} {revision : ℕ}
  {generation viewer carrier : String} {initial : BrowserSession} {authority : Authority}
  {act : Act}

@[simp] theorem post_updateSessions {c : Session → Bool} : Post (updateSessions c f) s Q ↔
      Q () { s with tables := { s.tables with
        sessions := s.tables.sessions.map fun session =>
          if c session then f session else session } } := post_modify

@[simp] theorem post_updateHandoffs {c : Handoff → Bool} {f : Handoff → Handoff} :
    Post (updateHandoffs c f) s Q ↔
      Q () { s with tables := { s.tables with
        handoffs := s.tables.handoffs.map fun handoff =>
          if c handoff then f handoff else handoff } } := post_modify

@[simp] theorem post_updateActions {f : ActionRow → ActionRow} :
    Post (updateActions c f) s Q ↔
      Q () { s with tables := { s.tables with
        actions := s.tables.actions.map fun action =>
          if c action then f action else action } } := post_modify

@[simp] theorem post_update {Q : Resource → Store → Prop} :
    Post (r.update update) s Q ↔
      Q (r.write update) (s.writeResources (fun row => row.id = r.id) update) := by
  simp [Resource.update]

@[simp] theorem post_owned {Q : BrowserSession → Store → Prop} :
    Post (owned owner id) s Q ↔ ∀ session, s.owned? owner id = some session → Q session s := by
  simp [owned]

@[simp] theorem post_checkRevision {expected : ℕ} :
    Post (checkRevision r expected) s Q ↔ (r.revision = expected → Q () s) := by
  simp [checkRevision]

@[simp] theorem post_receipt {expected : Resource} :
    Post (receipt r expected kind) s Q ↔
      (r.revision = expected.revision → r.id = expected.id →
        r.controlEpoch = expected.controlEpoch → truthy (kind.field expected) = true →
        kind.field r = kind.field expected → r.profileGeneration = expected.profileGeneration →
        Q () s) := by
  simp [receipt, and_imp]

/-! ### The table -/

theorem get?_writeResources :
    (s.writeResources condition update).resources.get? id =
      (s.resources.get? id).map fun r => if condition r then r.write update else r := by
  rw [Store.writeResources, KeyedTable.get?_map]

/-- The table once what is left of other owners is retired. -/
def Store.retireOthers (s : Store) (owner bud : String) : Store :=
  s.writeResources (fun r => r.budId = bud && r.createdByUserId ≠ owner && r.retiredAt.isNone)
    fun c => c.retire s.now

/-- The row a transaction holds. -/
structure Locked (s : Store) (owner bud : String) (r : Resource) : Prop where
  get? : s.resources.get? r.id = some r
  budId : r.budId = bud
  createdByUserId : r.createdByUserId = owner
  active : r.retiredAt = none

/-- The retirement leaves the rows of the owner alone. -/
theorem get?_retireOthers (hr : s.resources.get? r.id = some r)
    (howner : r.createdByUserId = owner) :
    (s.retireOthers owner bud).resources.get? r.id = some r := by
  rw [Store.retireOthers, get?_writeResources, hr]
  simp [howner]

theorem locked_of_active? (h : (s.retireOthers owner bud).active? owner bud = some r) :
    Locked s owner bud r := by
  have hmem := List.mem_of_find?_eq_some h
  have hr := List.find?_some h
  simp only [Bool.and_eq_true, decide_eq_true_eq, isNone_iff_eq_none] at hr
  obtain ⟨⟨hbud, howner⟩, hactive⟩ := hr
  have hget := KeyedTable.get?_of_mem hmem
  rw [Store.retireOthers, get?_writeResources, map_eq_some_iff] at hget
  obtain ⟨r₀, hr₀, heq⟩ := hget
  -- A row that has been retired is not active.
  by_cases hcond : (decide (r₀.budId = bud) && decide (r₀.createdByUserId ≠ owner) &&
      r₀.retiredAt.isNone) = true
  · rw [if_pos hcond] at heq
    subst heq
    cases hactive
  · rw [if_neg hcond] at heq
    subst heq
    exact ⟨hr₀, hbud, howner, hactive⟩

theorem post_withLocked {operation : Resource → InTransaction α} {Q : α → Store → Prop}
    (h : ∀ r, Locked s owner bud r → Post (operation r) (s.retireOthers owner bud) Q) :
    Post (withLocked owner bud none operation) s Q := by
  simp only [withLocked, lockResource, post_bind, post_get, post_require, post_updateResources]
  intro _ _
  split
  · rename_i r hr
    exact (post_pure r).mpr (h r (locked_of_active? hr))
  · rename_i heq
    cases heq
  · exact post_throw _

/-! ### Moves -/

theorem not_advances_done : ¬Advances s .done id := by
  rintro ⟨⟩

theorem eq_of_advances_lifecycle (h : Advances s (.lifecycle operation r) id) : id = r.id := by
  cases h
  rfl

theorem recoverable_of_advances (h : Advances s .recovered id) :
    ∃ r, s.resources.get? id = some r ∧ r.recoverable = true := by
  cases h with
  | recover hr h => exact ⟨_, hr, h⟩

theorem eq_of_advances_ending (h : Advances s (.ending prepared) id) :
    id = prepared.resource.id := by
  cases h
  rfl

theorem Moves.of_write (ht : t.resources = (s.writeResources condition update).resources)
    (hfound : ∀ id, Advances s e id → ∃ r, s.resources.get? id = some r)
    (hkeep : ∀ r, s.resources.get? r.id = some r → condition r = false → ¬Advances s e r.id)
    (hwrite : ∀ r, s.resources.get? r.id = some r → condition r = true →
      Write s e r (r.write update)) : Moves s e t where
  found := hfound _
  row := by
    intro r hr
    rw [ht, get?_writeResources, hr, map_some]
    refine ⟨_, rfl, ?_⟩
    by_cases hc : condition r = true
    · rw [if_pos hc]
      exact hwrite r hr hc
    · rw [if_neg hc]
      exact .keep (hkeep r hr (Bool.not_eq_true _ ▸ hc))
  inserted := by
    intro id r' hnone hr'
    rw [ht, get?_writeResources, hnone] at hr'
    cases hr'

/-- The case of one that concerns no row. -/
theorem Moves.of_silent (ht : t.resources = (s.writeResources condition update).resources)
    (hnone : ∀ id, ¬Advances s e id)
    (hwrite : ∀ r, Write s e r (r.write update)) : Moves s e t :=
  .of_write ht (fun id h => absurd h (hnone id)) (fun r _ _ => hnone r.id) fun r _ _ => hwrite r

theorem Moves.of_eq (ht : t.resources = s.resources)
    (hkeep : ∀ id, ¬Advances s e id) : Moves s e t where
  found h := absurd h (hkeep _)
  row hr := ⟨_, ht ▸ hr, .keep (hkeep _)⟩
  inserted hnone hr' := by
    rw [ht, hnone] at hr'
    cases hr'

/-- A transaction that writes the row it has locked, if that meets a condition. -/
theorem Moves.of_locked (hr : Locked s owner bud r)
    (ht : t.resources = ((s.retireOthers owner bud).writeResources condition update).resources)
    (hcondition : ∀ q, condition q = true → q.id = r.id)
    (hothers : ∀ id, Advances s e id → id = r.id)
    (hwrite : Write s e r (if condition r then r.write update else r)) : Moves s e t where
  found h := ⟨r, hothers _ h ▸ hr.get?⟩
  row := by
    intro q hq
    by_cases hid : q.id = r.id
    · obtain rfl : q = r := some.inj (hq.symm.trans (hid ▸ hr.get?))
      rw [ht, get?_writeResources, get?_retireOthers hq hr.createdByUserId, map_some]
      exact ⟨_, rfl, hwrite⟩
    · have hkeep : ¬Advances s e q.id := fun h => hid (hothers q.id h)
      rw [ht, get?_writeResources, Store.retireOthers, get?_writeResources, hq, map_some, map_some]
      refine ⟨_, rfl, ?_⟩
      by_cases hretire : (decide (q.budId = bud) && decide (q.createdByUserId ≠ owner) &&
          q.retiredAt.isNone) = true
      · have hnot : condition (q.write fun c => c.retire s.now) ≠ true := fun h =>
          hid (hcondition (q.write fun c => c.retire s.now) h)
        rw [if_pos hretire, if_neg hnot]
        exact .retire _ hkeep
      · rw [if_neg hretire, if_neg fun h => hid (hcondition _ h)]
        exact .keep hkeep
  inserted := by
    intro id r' hnone hr'
    rw [ht, get?_writeResources, Store.retireOthers, get?_writeResources, hnone] at hr'
    cases hr'

/-- The case of a transaction that writes the row it has locked in any case. -/
theorem Moves.of_update (hr : Locked s owner bud r)
    (ht : t.resources = ((s.retireOthers owner bud).writeResources
      (fun row => row.id = r.id) update).resources)
    (hothers : ∀ id, Advances s e id → id = r.id) (hwrite : Write s e r (r.write update)) :
    Moves s e t :=
  .of_locked hr ht (fun _ h => of_decide_eq_true h) hothers (by simpa using hwrite)

/-- The case of one that only looks at it. -/
theorem Moves.of_retire (ht : t.resources = (s.retireOthers owner bud).resources)
    (hothers : ∀ id, ¬Advances s e id) : Moves s e t := by
  exact .of_silent (ht.trans rfl) hothers fun q => .retire _ (hothers q.id)

/-! ### The resource repository -/

theorem moves_ensure : Post (ensure owner bud id) s fun _ t => Moves s .done t := by
  simp only [ensure, withLocked, lockResource, post_bind, post_get, post_require,
    post_updateResources]
  intro owned _
  split
  · exact (post_pure _).mpr ((post_pure _).mpr (.of_retire rfl fun _ => not_advances_done))
  · rename_i create hnone hcreate
    obtain rfl := some.inj hcreate
    simp only [insertResource, post_bind, post_get, post_require, post_modify, post_pure]
    intro resources hresources
    have hget : ∀ k, resources.get? k =
        if id = k then some (.new ⟨id, bud, owner, owned.tenantId⟩)
        else (s.retireOthers owner bud).resources.get? k :=
      fun k => KeyedTable.get?_insert? hresources
    have hretire : Moves s .done (s.retireOthers owner bud) :=
      .of_retire rfl fun _ => not_advances_done
    have hfresh : (s.retireOthers owner bud).resources.get? id = none :=
      KeyedTable.get?_of_insert? hresources
    refine ⟨fun h => absurd h not_advances_done, fun {r} hr => ?_, fun {k r'} hk hr' => ?_⟩
    · obtain ⟨r', hr', hwrite⟩ := hretire.row hr
      refine ⟨r', ?_, hwrite⟩
      have hne : id ≠ r.id := by
        rintro rfl
        rw [hfresh] at hr'
        cases hr'
      rw [hget, if_neg hne, hr']
    · rw [hget] at hr'
      by_cases hid : id = k
      · rw [if_pos hid] at hr'
        cases hr'
        rfl
      · rw [if_neg hid] at hr'
        exact hretire.inserted hk hr'
  · exact post_throw _
/-- A transaction that writes nothing but the other tables. -/
def OnlyTables (x : InTransaction α) : Prop :=
  ∀ s, Post x s fun _ t => ∃ tables, t = { s with tables := tables }

@[simp] theorem exists_tables (s : Store) : ∃ tables, s = { s with tables := tables } :=
  ⟨s.tables, rfl⟩

theorem OnlyTables.post {x : InTransaction α} (h : OnlyTables x) {Q : α → Store → Prop}
    (hQ : ∀ a tables, Q a { s with tables := tables }) : Post x s Q := by
  refine (h s).mono ?_
  rintro a t ⟨tables, rfl⟩
  exact hQ a tables

theorem OnlyTables.forM {β : Type} {row : Option β} {f : β → InTransaction Unit}
    (h : ∀ b, OnlyTables (f b)) : OnlyTables (row.forM f) := by
  cases row with
  | none => exact fun s => (post_pure _).mpr ⟨s.tables, rfl⟩
  | some b => exact h b

theorem onlyTables_readySession (c : Tables → Session → Bool) : OnlyTables (readySession c) := by
  intro s
  simp [readySession]

theorem onlyTables_resolveHandoffs (restarted : Bool) :
    OnlyTables (resolveHandoffs r restarted) := by
  intro s
  simp [resolveHandoffs]

theorem moves_acknowledge (sent : Sent) :
    Post (acknowledge sent) s fun r' t => Moves s (.acknowledged sent r') t := by
  have hnone : ∀ r' id, ¬Advances s (.acknowledged sent r') id := by
    rintro _ _ ⟨⟩
  cases sent with
  | ending expected =>
    refine post_withLocked fun r hr => ?_
    simp only [Bool.false_eq_true, if_false, post_bind, post_receipt, post_check]
    intro hrevision hid _ _ _ _ _
    refine (OnlyTables.forM fun _ => onlyTables_readySession _).post fun _ _ => ?_
    refine (onlyTables_resolveHandoffs false).post fun _ tables => post_update.mpr ?_
    exact .of_update hr rfl (fun _ h => absurd h (hnone _ _)) (.returned rfl hid hrevision)
  | ensuring expected workspace =>
    refine post_withLocked fun r hr => ?_
    simp only [if_true, post_bind, post_checkRevision, post_check, Bool.and_eq_true,
      decide_eq_true_eq]
    rintro hrevision ⟨⟨⟨hid, _⟩, _⟩, _⟩
    refine (OnlyTables.forM fun _ => onlyTables_readySession _).post fun _ _ => ?_
    refine (onlyTables_resolveHandoffs true).post fun _ _ => post_update.mpr ?_
    exact .of_update hr rfl (fun _ h => absurd h (hnone _ _)) (.replaced rfl hid hrevision)
  | lifecycle expected =>
    refine post_withLocked fun r hr => ?_
    simp only [post_bind, post_receipt, post_check, post_get, post_updateSessions,
      post_updateHandoffs, post_update, decide_eq_true_eq]
    intro _ hid _ _ hrequest _ hpending
    exact .of_update hr rfl (fun _ h => absurd h (hnone _ _))
      (.acknowledgeLifecycle rfl hid hrequest hpending)

theorem moves_failControl (expected : Resource) :
    Post (failControl expected) s fun _ t => Moves s .done t := by
  simp only [failControl, post_bind, post_get, post_updateResources, post_pure]
  exact .of_silent rfl (fun _ => not_advances_done) fun _ => .fail not_advances_done

theorem moves_recover : Post recover s fun _ t => Moves s .recovered t := by
  refine post_updateResources.mpr (.of_write rfl (fun id h => ?_) (fun r hr hnot h => ?_) ?_)
  · obtain ⟨r, hr, _⟩ := recoverable_of_advances h
    exact ⟨r, hr⟩
  · obtain ⟨q, hq, hrecoverable⟩ := recoverable_of_advances h
    obtain rfl : r = q := some.inj (hr.symm.trans hq)
    exact Bool.false_ne_true (hnot.symm.trans hrecoverable)
  · exact fun r _ h => .recover rfl h

theorem moves_requestLifecycle :
    Post (requestLifecycle owner bud revision operation confirmedReset requestId) s
      fun r' t => Moves s (.lifecycle operation r') t := by
  rw [requestLifecycle, post_bind, post_check]
  refine fun _ => post_withLocked fun r hr => ?_
  simp only [post_bind, post_checkRevision, post_check, post_update]
  intro _ _
  refine .of_update hr rfl (fun _ h => ?_) (.requestLifecycle operation requestId owner rfl)
  have hid := eq_of_advances_lifecycle h
  exact hid

theorem moves_claimBud :
    Post (claimBud bud newOwner deviceSecret) s fun _ t => Moves s .done t := by
  simp only [claimBud, post_bind, post_get, post_updateResources, post_modify]
  exact .of_silent rfl (fun _ => not_advances_done) fun _ => .retire s.now not_advances_done
/-! ### Sessions and their resource -/

theorem exists_of_owned? (h : s.owned? owner id = some session) :
    s.tables.session? id = some session.workspace ∧ session.workspace.createdByUserId = owner ∧
      ∃ r, session.workspace.browserId = some r.id ∧ s.resources.get? r.id = some r ∧
        r.retiredAt = none ∧ r.desiredState = .opened := by
  simp only [Store.owned?, bind_eq_bind, bind_eq_some_iff, guard_eq_some',
    pure_def, some.injEq, exists_and_left] at h
  obtain ⟨workspace, hworkspace, ⟨howner, _, _⟩, _, _, _, _, _, browserId, hbrowser, r, hr,
    ⟨hactive, hopen⟩, _, rfl⟩ := h
  obtain rfl : r.id = browserId := KeyedTable.key_of_get? (t := s.resources) hr
  exact ⟨hworkspace, howner, r, hbrowser, hr, hactive, hopen⟩

/-- **The resource of an open session is the one its Bud's transactions hold.** -/
theorem browserId_of_owned? (hs : s.consistent = true) (h : s.owned? owner id = some session)
    (hr : Locked s owner session.workspace.budId r) :
    session.workspace.browserId = some r.id ∧ r.desiredState = .opened := by
  obtain ⟨hsession, howner, q, hbrowser, hq, hactive, hopen⟩ := exists_of_owned? h
  simp only [Store.consistent, Bool.and_eq_true, List.all_eq_true, decide_eq_true_eq] at hs
  have hlinked := hs.1 session.workspace (List.mem_of_find?_eq_some hsession)
  simp only [Store.linked, hbrowser, hq, all_some, any_some, Bool.and_eq_true,
    decide_eq_true_eq] at hlinked
  have hmem : ∀ {x}, s.resources.get? x.id = some x → x.retiredAt = none →
      x ∈ s.resources.rows.filter (·.retiredAt.isNone) := fun hx hnone =>
    List.mem_filter.mpr ⟨KeyedTable.mem_of_get? hx, by simp [hnone]⟩
  obtain rfl : q = r := List.inj_on_of_nodup_map hs.2 (hmem hq hactive) (hmem hr.get? hr.active)
    (hlinked.1.trans hr.budId.symm)
  exact ⟨hbrowser, hopen⟩

theorem session?_map (hf : ∀ session, (f session).id = session.id) (sessions : List Session) :
    (sessions.map f).find? (·.id = id) = (sessions.find? (·.id = id)).map f := by
  rw [List.find?_map]
  simp only [Function.comp_def, hf]

/-! ### The control repository -/

theorem post_writeControl
    (hcontrol : ∀ operation, request = .control operation → Q () (s.writeResources (fun row =>
      row.id = r.id) (·.control nextState sessionId requestId operation)))
    (hother : request.advance = false → Q () s) :
    Post (writeControl r sessionId requestId nextState request) s Q := by
  cases request with
  | control operation =>
    simp only [writeControl, post_bind, post_check, post_updateResources]
    exact fun _ => hcontrol operation rfl
  | renew | ensure | page => exact (post_pure _).mpr (hother rfl)

/-- An event of a viewer concerns the resource of the session, if it changes who has control. -/
theorem of_advances_viewer (h : Advances s (.viewer request session sent) id) :
    session.workspace.browserId = some id ∧ request.command.advance = true := by
  cases h with
  | pause hid | acquire hid => exact ⟨hid, rfl⟩

theorem moves_viewer (hs : s.consistent = true) (request : ViewerRequest) :
    Post (BrowserControlRepository.prepare owner id boot expectedRevision requestId request.command
      request.nextState generation serviceNow) s
      fun p t => Moves s (.viewer request p.1 p.2) t := by
  simp only [BrowserControlRepository.prepare, post_bind, post_owned]
  intro initial hinitial
  refine post_withLocked fun r hr => ?_
  obtain ⟨hbrowser, hopen⟩ := browserId_of_owned? hs hinitial hr
  simp only [post_bind, post_owned, post_check, post_checkRevision]
  intro current _ _ _
  -- The session that is returned is the one that was found, with other columns.
  have hfinal : ∀ {u : Store} {f : Session → Session} {final : BrowserSession},
      u.tables.sessions = s.tables.sessions.map f →
      (∀ session, (f session).id = session.id ∧ (f session).browserId = session.browserId) →
      u.owned? owner id = some final → final.workspace.browserId = some r.id := by
    intro u f final hu hf hfinal
    obtain ⟨hsession, _⟩ := exists_of_owned? hfinal
    obtain ⟨hinit, _⟩ := exists_of_owned? hinitial
    rw [Tables.session?, hu, session?_map fun session => (hf session).1] at hsession
    rw [← Tables.session?, hinit, map_some, some.injEq] at hsession
    rw [← hsession, (hf _).2, hbrowser]
  refine post_writeControl (fun operation hop => ?_) fun hop => ?_
  · simp only [post_updateSessions, post_pure]
    intro final hown
    refine .of_update hr rfl (fun k h => ?_) (.control request operation id requestId rfl hop hopen)
    have hk := (of_advances_viewer h).1
    rw [hfinal (f := _) rfl (fun session => ?_) hown] at hk
    · exact (some.inj hk).symm
    · split <;> exact ⟨rfl, rfl⟩
  · simp only [post_updateSessions, post_pure]
    intro final hown
    refine .of_retire rfl fun k h => ?_
    exact Bool.false_ne_true (hop.symm.trans (of_advances_viewer h).2)

theorem moves_grantOverride :
    Post (grantOverride owner initial revision override viewer carrier expires serviceNow) s
      fun _ t => Moves s .done t := by
  refine post_withLocked fun r hr => ?_
  simp only [post_bind, post_check, post_updateResources, post_updateHandoffs]
  intro _ _
  exact .of_update hr rfl (fun _ h => absurd h not_advances_done)
    (.grantOverride override viewer carrier expires not_advances_done)

theorem moves_renewOverride :
    Post (renewOverride owner id override viewer carrier) s fun _ t => Moves s .done t := by
  simp only [renewOverride, post_bind, post_get, post_updateResources, post_check]
  intro _
  exact .of_silent rfl (fun _ => not_advances_done) fun _ => .renewOverride _ not_advances_done

theorem moves_endOverride :
    Post (endOverride owner initial override reason) s fun _ t => Moves s .done t := by
  refine post_withLocked fun r hr => ?_
  simp only [post_bind, post_updateResources, post_pure]
  refine .of_locked hr rfl (fun q h => ?_) (fun _ h => absurd h not_advances_done) ?_
  · exact of_decide_eq_true (Bool.and_eq_true_iff.mp h).1
  · split
    · exact .endOverride reason not_advances_done
    · exact .keep not_advances_done

theorem moves_prepareEnd :
    Post (prepareEnd candidate boot requestId serviceNow) s fun prepared t =>
      Moves s (.ending prepared) t ∧
        t.resources.get? prepared.resource.id = some prepared.resource := by
  refine post_withLocked fun r hr => ?_
  simp only [post_bind, post_check, post_update, post_updateSessions, post_get, post_require,
    post_pure, Bool.and_eq_true, decide_eq_true_eq]
  rintro ⟨⟨_, hopen⟩, _⟩ _ _
  refine ⟨.of_update hr rfl (fun _ h => ?_) (.prepareEnd requestId rfl hopen), ?_⟩
  · have hid := eq_of_advances_ending h
    exact hid
  · show (((s.retireOthers _ _).writeResources _ _).resources).get? r.id = _
    rw [get?_writeResources, get?_retireOthers hr.get? hr.createdByUserId, map_some]
    simp

/-- Nothing is written to the row that is found. -/
theorem moves_prepareEnsure :
    Post (prepareEnsure owner id boot explicitUrl generation requestId serviceNow) s
      fun prepared t => Moves s (.ensuring prepared) t ∧
        t.resources.get? prepared.resource.id = some prepared.resource := by
  simp only [prepareEnsure, post_bind, post_owned]
  intro initial _
  refine post_withLocked fun r hr => ?_
  simp only [post_bind, post_check, post_owned, post_updateSessions, post_pure]
  intro _ _ _ _ _ _
  refine ⟨.of_retire rfl fun _ h => ?_, get?_retireOthers hr.get? hr.createdByUserId⟩
  cases h

theorem moves_ensured {session : Session} :
    Post (ensured owner session) s fun _ t => Moves s .done t := by
  refine post_withLocked fun r _ => ?_
  simp only [post_bind, post_check]
  intro _
  refine (onlyTables_readySession _).post fun _ _ => ?_
  exact .of_retire rfl fun _ => not_advances_done

theorem moves_requestClose :
    Post (requestClose owner id revision) s fun _ t => Moves s .done t := by
  simp only [requestClose, post_bind, post_owned, post_check, post_updateResources,
    post_updateSessions, post_get, post_pure]
  intro _ _ _
  exact .of_silent rfl (fun _ => not_advances_done) fun _ =>
    .endOverride "workspace_closed" not_advances_done

/-! ### The agent -/

/-- What admits a command admits it on the row. -/
def AdmittedOn (r : Resource) : Prepared → Prop
  | .admitted request =>
    request.browserId = r.id ∧ request.browserEpoch = r.controlEpoch ∧ r.controlState = .agent ∧
      r.privateContent = false
  | _ => True

theorem onlyTables_pure (a : α) : OnlyTables (pure a) := fun s => (post_pure a).mpr ⟨s.tables, rfl⟩

theorem onlyTables_checkCell : OnlyTables (checkCell context identity callId command codeHash) := by
  intro s
  by_cases hexec : command.action = "exec"
  · simp only [checkCell, if_pos hexec, post_bind, post_check, post_get, post_require]
    intro _ action _
    have hreceipt : OnlyTables ((action.evidence.bind (·.browserCell)).forM fun receipt => do
        check (receipt.codeHash = codeHash) (.browser "browser_cell_conflict")
        throw (.replay receipt.request (receipt.result.getD
          { ok := false
            outcome := .unknown
            error := some "browser_outcome_unknown"
            data := [("execution_state", "unknown")] }))) :=
      .forM fun receipt => by simp [OnlyTables]
    exact hreceipt.post fun _ _ => by simp
  · simp only [checkCell, if_neg hexec]
    exact onlyTables_pure () s

theorem onlyTables_workspace :
    OnlyTables (workspace context r authority bootId command generated) := by
  intro s
  simp only [workspace, post_bind, post_get]
  split
  · simp [insertSession]
  · simp [insertSession]

theorem post_admission {session : Session} :
    Post (admission context identity callId bootId r authority session command ensureOnly codeHash
      generated) s fun prepared t => (∃ tables, t = { s with tables := tables }) ∧
        AdmittedOn r prepared := by
  simp only [admission, post_bind, post_get, post_check, post_ite, post_updateActions]
  intro _
  refine ⟨fun _ => ?_, fun _ => ⟨fun _ => ?_, fun hagent => ?_⟩⟩
  · simp [AdmittedOn]
  · simp [park, AdmittedOn]
  · push Not at hagent
    simp [dispatch, AdmittedOn, agentRequest, hagent]

theorem post_prepareOn :
    Post (prepareOn context identity callId bootId r command ensureOnly codeHash generated) s
      fun prepared t => (∃ tables, t = { s with tables := tables }) ∧ AdmittedOn r prepared := by
  simp only [prepareOn, post_bind, post_check, post_get, post_require]
  intro _ authority _
  refine onlyTables_checkCell.post fun _ _ _ => onlyTables_workspace.post fun session _ => ?_
  cases session with
  | none => exact (post_pure _).mpr ⟨⟨_, rfl⟩, trivial⟩
  | some session => exact post_admission.mono fun _ _ h => h

theorem moves_prepare :
    Post (BrowserRepository.prepare context bootId command ensureOnly codeHash generated) s
      fun prepared t => Moves s (.agent prepared) t ∧
        ∃ r, t.resources.get? r.id = some r ∧ AdmittedOn r prepared := by
  simp only [BrowserRepository.prepare, agentResource, post_bind, post_require, post_get]
  intro identity _ callId _ r hr
  have hr : s.resources.get? r.id = some r :=
    KeyedTable.get?_of_mem (List.mem_of_find?_eq_some (filter_eq_some_iff.mp hr).1)
  have hnone : ∀ prepared id, ¬Advances s (.agent prepared) id := by
    rintro _ _ ⟨⟩
  rw [reopenStopped, post_ite]
  refine ⟨fun _ => post_update.mpr ?_, fun _ => (post_pure _).mpr ?_⟩
  · refine post_prepareOn.mono ?_
    rintro prepared t ⟨⟨tables, rfl⟩, hon⟩
    refine ⟨.of_silent rfl (hnone _) fun _ => .reopen rfl, _, ?_, hon⟩
    show (s.writeResources _ _).resources.get? r.id = _
    rw [get?_writeResources, hr]
    simp
  · refine post_prepareOn.mono ?_
    rintro prepared t ⟨⟨tables, rfl⟩, hon⟩
    exact ⟨.of_eq rfl (hnone _), r, hr, hon⟩

/-! ### Commits -/

/-- What an event shows of the table is so after it, and an acknowledgement is of what was held. -/
def Event.Shows (act : Act) : Event → Store → Prop
  | .acknowledged sent _, _ => act = .acknowledge sent
  | .ending prepared, t => t.resources.get? prepared.resource.id = some prepared.resource
  | .ensuring prepared, t => t.resources.get? prepared.resource.id = some prepared.resource
  | .agent prepared, t => ∃ r, t.resources.get? r.id = some r ∧ AdmittedOn r prepared
  | _, _ => True

theorem post_perform (hs : s.consistent = true) (act : Act) :
    Post (perform act) s fun e t => Moves s e t ∧ e.Shows act t := by
  have hdone : ∀ {β : Type} {x : InTransaction β}, (Post x s fun _ t => Moves s .done t) →
      Post (x >>= fun _ => pure Event.done) s fun e t => Moves s e t ∧ e.Shows act t := fun h =>
    post_bind.mpr (h.mono fun _ _ h => (post_pure _).mpr ⟨h, trivial⟩)
  have houtside : ∀ {f : Store → Store}, (∀ u, (f u).resources = u.resources) →
      Post (modify f : InTransaction Unit) s fun _ t => Moves s .done t := fun hf =>
    post_modify.mpr (.of_eq (hf s) fun _ => not_advances_done)
  cases act with
  | ensure => exact hdone moves_ensure
  | claimBud => exact hdone moves_claimBud
  | viewer request =>
    exact post_bind.mpr ((moves_viewer hs request).mono fun _ _ h => (post_pure _).mpr ⟨h, trivial⟩)
  | grantOverride => exact hdone moves_grantOverride
  | renewOverride => exact hdone moves_renewOverride
  | endOverride => exact hdone moves_endOverride
  | prepareEnd => exact post_bind.mpr (moves_prepareEnd.mono fun _ _ h => (post_pure _).mpr h)
  | prepareEnsure =>
    exact post_bind.mpr (moves_prepareEnsure.mono fun _ _ h => (post_pure _).mpr h)
  | ensured => exact hdone moves_ensured
  | pendingLifecycle =>
    simp only [perform, post_bind, post_get, post_pure]
    refine ⟨.of_eq rfl fun _ h => ?_, trivial⟩
    cases h
  | acknowledge sent =>
    exact post_bind.mpr ((moves_acknowledge sent).mono fun _ _ h => (post_pure _).mpr ⟨h, rfl⟩)
  | failControl expected => exact hdone (moves_failControl expected)
  | recover => exact post_bind.mpr (moves_recover.mono fun _ _ h => (post_pure _).mpr ⟨h, trivial⟩)
  | requestLifecycle =>
    exact post_bind.mpr (moves_requestLifecycle.mono fun _ _ h => (post_pure _).mpr ⟨h, trivial⟩)
  | requestClose => exact hdone moves_requestClose
  | prepare => exact post_bind.mpr (moves_prepare.mono fun _ _ h => (post_pure _).mpr h)
  | tick | outside | register => exact hdone (houtside fun _ => rfl)

theorem commit_eq_some {s : Sys} : commit s act = some (e, t) ↔
      s.enabled act = true ∧ (perform act).run s.store = .ok (e, t) ∧ t.consistent = true := by
  unfold commit
  by_cases henabled : s.enabled act = true
  · rw [if_pos henabled]
    cases hrun : (perform act).run s.store with
    | error => simp [henabled]
    | ok result =>
      obtain ⟨event, store⟩ := result
      by_cases hconsistent : store.consistent = true
      · simp only [if_pos hconsistent, henabled, true_and, some.injEq, Except.ok.injEq]
        constructor
        · rintro ⟨rfl, rfl⟩
          exact ⟨rfl, hconsistent⟩
        · exact fun h => h.1
      · simp only [if_neg hconsistent, henabled, true_and, Except.ok.injEq]
        constructor
        · rintro ⟨⟩
        · rintro ⟨⟨rfl, rfl⟩, h⟩
          exact absurd h hconsistent
  · simp [henabled]

/-- **What a committed transaction does to the rows.** -/
theorem moves_of_commit {s : Sys} (hs : s.store.consistent = true)
    (h : commit s act = some (e, t)) : Moves s.store e t :=
  (post_perform hs act e t (commit_eq_some.mp h).2.1).1

theorem shows_of_commit {s : Sys} (hs : s.store.consistent = true)
    (h : commit s act = some (e, t)) : e.Shows act t :=
  (post_perform hs act e t (commit_eq_some.mp h).2.1).2

end Bud.BrowserControl
