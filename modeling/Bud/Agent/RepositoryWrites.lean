import Bud.Agent.Repository
import Bud.Lib.Runs
import Mathlib.Logic.Relation

/-!
# What the repository writes

A method of the repository is a handful of writes. `Write act` is the list of all of them: the row
of an invocation as one of the methods leaves it, a claim, an action that is recorded, actions that
are moved on. A method that commits is some of its own writes, one after the other
(`writes_of_perform`), so what every write keeps is kept by every method, and along every run.
-/

namespace Bud.Repository

open Invocation Transaction Relation List Option

variable {s t : Store} {cap : ℕ} {act : Act}

/-! ### Writes -/

def Act.Applies (id : ℕ) (status : Status) (method : Method) : Act → Prop
  | .admission input _ => status = .waitingForUser ∧ method = .requestCancel input.owner
  | .heartbeat lease => id = lease.id ∧ method = .heartbeat lease
  | .start lease _ => id = lease.id ∧ method = .start lease
  | .defer lease deferral delaySeconds =>
    id = lease.id ∧ method = .defer lease deferral delaySeconds
  | .finish lease ending outcomeCode => id = lease.id ∧ method = .finish lease ending outcomeCode
  | .parkBrowserHandoff lease _ _ | .parkUserBrowserHandoff lease _ =>
    id = lease.id ∧ method = .parkBrowserHandoff lease
  | .parkQuestion lease _ _ | .parkAppDataRequest lease _ _ _ | .parkAutomationProposal lease _ _ _
  | .parkBootstrapProposal lease _ _ _ => id = lease.id ∧ method = .parkQuestion lease
  | .requestCancel owner canceled => id = canceled ∧ method = .requestCancel owner
  | .abandonReviewed owner _ reviewed expectedUpdatedAt _ =>
    id = reviewed ∧ method = .abandonReviewed owner expectedUpdatedAt
  | .expireQueued _ => method = .expireQueued
  | .recoverExpired _ _ => method = .recoverEnded ∨ method = .recoverExpired
  | _ => False

def Action.key (action : Action) : ℕ × String := (action.invocationId, action.callId)

def Store.keys (s : Store) : List (ℕ × String) := s.actions.map Action.key

variable (cap act) in
/-- One write of an act. -/
inductive Write (s : Store) : Store → Prop
  | method {id : ℕ} {entry : Entry} {method : Method}
      (happlies : act.Applies id entry.row.status method)
      (hentry : s.invocations[id]? = some entry)
      (hnext : method.next entry.identity entry.row (s.choice id entry.identity) = .write) :
      Write s (s.setRow id fun row => method.update entry.row row (s.choice id entry.identity))
  | lease {workerId : String} {id : ℕ} {acquired : Bool} {entry : Entry}
      (hact : act = .claim workerId id acquired) (hentry : s.invocations[id]? = some entry)
      (hclaimable : s.claimable cap id entry = true) :
      Write s (s.setRow id fun _ => entry.row.leasedTo workerId s.now)
  | elapse {workerId : String} {id : ℕ} {acquired : Bool} {entry : Entry}
      (hact : act = .claim workerId id acquired) (hentry : s.invocations[id]? = some entry)
      (hclaimable : s.claimable cap id entry = true)
      (hstatus : entry.row.status ≠ .waitingForUser) :
      Write s (s.setRow id fun row => row.startElapsed s.now)
  | superseded {input : Admission} {generatedClientId : String} {id : ℕ} {outcomeCode : String}
      (hact : act = .admission input generatedClientId) :
      Write s (s.setRow id fun row => { row with outcomeCode := some outcomeCode })
  | insert {input : Admission} {generatedClientId : String} {entry : Entry}
      (hact : act = .admission input generatedClientId) (hrow : entry.row = Row.new s.now) :
      Write s { s with invocations := s.invocations ++ [entry] }
  | record {action : Action} {entry : Entry}
      (hentry : s.invocations[action.invocationId]? = some entry)
      (hstatus : action.pending = true → entry.row.status = .running)
      (hnew : action.key ∉ s.keys) : Write s { s with actions := s.actions ++ [action] }
  /-- Actions keep their call, and none that was completed becomes pending again. -/
  | actions {update : Action → Action} (hkey : ∀ action, (update action).key = action.key)
      (hpending : ∀ action, (update action).pending = true → action.pending = true) :
      Write s { s with actions := s.actions.map update }
  | tables (tables : Outside) : Write s { s with tables := tables }
  | tick (seconds : ℕ) : Write s { s with now := s.now + seconds }

/-! ### Leases -/

variable {lease : Lease} {statuses : List Status} {allowCancellation : Bool} {id : ℕ}
  {entry : Entry} {method : Method} {Q : Unit → Store → Prop} {condition : Action → Bool}
  {failure : Failure} {callId owner : String} {u : Store} {update : Row → Row} {ids : List ℕ}

/-- `lockedLease` throws unless the lease is good, and never writes. -/
@[simp] theorem post_lockedLease {Q : Entry → Store → Prop} :
    Post (lockedLease lease statuses allowCancellation) s Q ↔
      ∀ entry, s.invocations[lease.id]? = some entry →
        lease.matches entry.identity entry.row s.now = true → entry.row.status ∈ statuses →
        (entry.row.cancelRequestedAt = none ∨ allowCancellation = true) →
        s.tables.ownsThread entry.identity.threadId entry.identity.createdByUserId = true →
        Q entry s := by
  simp only [lockedLease, post_bind, post_get, post_require, post_check, post_pure,
    filter_eq_some_iff, Bool.and_eq_true, decide_eq_true_eq, Bool.or_eq_true,
    isNone_iff_eq_none]
  constructor
  · intro h entry hentry hmatches hstatus
    exact h entry ⟨hentry, hmatches, hstatus⟩
  · rintro h entry ⟨hentry, hmatches, hstatus⟩
    exact h entry hentry hmatches hstatus

variable {identity : Identity} {action : Action} {tool : RequestTool} {choice : RequestChoice}
  {threadId generatedClientId workerId : String} {other candidate : ℕ} {input : Admission}
  {acquired : Bool} {I : Store → Prop}

theorem lockedLease_eq {next : Next} (hmatches : lease.matches identity row now = true)
    (hstatus : row.status ∈ statuses)
    (hcancel : row.cancelRequestedAt = none ∨ allowCancellation = true) :
    Invocation.lockedLease lease identity row now statuses allowCancellation next = next := by
  unfold Invocation.lockedLease
  rcases hcancel with hcancel | hcancel
  all_goals simp [hmatches, hstatus, hcancel]

/-! ### The statements of a method -/

@[simp] theorem post_write : Post (write id entry method) s Q ↔
      Q () (s.setRow id fun row => method.update entry.row row (s.choice id entry.identity)) :=
  post_modify

@[simp] theorem post_setTables {update : Outside → Outside} :
    Post (setTables update) s Q ↔ Q () { s with tables := update s.tables } :=
  post_modify

@[simp] theorem post_setActions {update : Action → Action} :
    Post (setActions condition update) s Q ↔
      Q () { s with
        actions := s.actions.map fun action =>
          if condition action then update action else action } :=
  post_modify

@[simp] theorem post_updateActions {update : Action → Action} :
    Post (updateActions condition update failure) s Q ↔
      (s.actions.any condition = true → Q () { s with
        actions := s.actions.map fun action =>
          if condition action then update action else action }) := by
  simp only [updateActions, post_bind, post_get, post_check, post_setActions]

@[simp] theorem post_insertAction : Post (insertAction action failure) s Q ↔
      (action.key ∉ s.keys → Q () { s with actions := s.actions ++ [action] }) := by
  have hkey : (!s.actions.any fun other =>
      other.invocationId = action.invocationId && other.callId = action.callId) = true ↔
      action.key ∉ s.keys := by
    simp [Store.keys, Action.key, Prod.ext_iff]
  simp only [insertAction, post_bind, post_get, post_check, post_modify, hkey]

@[simp] theorem post_cancelHandoffs : Post (cancelHandoffs id) s Q ↔ Q () { s with
      tables := { s.tables with
        handoffs := s.tables.handoffs.map fun handoff =>
          if handoff.invocationId = some id && handoff.status = .pending then handoff.cancel s.now
          else handoff } } := by
  simp only [cancelHandoffs, post_bind, post_get, post_setTables]

/-! ### Methods are their writes -/

variable (cap act) in
/-- A transaction that, started after some writes of the act, only adds to them. -/
def Only (x : InTransaction Unit) : Prop :=
  ∀ s u, ReflTransGen (Write cap act) s u → Post x u fun _ t => ReflTransGen (Write cap act) s t

theorem Write.updateActions {update : Action → Action}
    (hkey : ∀ action, (update action).key = action.key)
    (hpending : ∀ action, condition action = true → (update action).pending = true → action.pending
      = true) : Write cap act s { s with
      actions := s.actions.map fun action =>
        if condition action then update action else action } := by
  refine .actions (fun action => ?_) (fun action => ?_)
  · split
    · exact hkey action
    · rfl
  · split
    · exact hpending action ‹_›
    · exact id

theorem pending_of_parkable (h : parkable lease callId action = true) : action.pending = true := by
  simp only [parkable, Bool.and_eq_true, decide_eq_true_eq] at h
  simp [Action.pending, h.2]

theorem Only.check (h : Only cap act x) {condition : Bool} :
    Only cap act (Transaction.check condition failure >>= fun _ => x) :=
  fun s u hu => post_bind.mpr (post_check.mpr fun _ => h s u hu)

/-- A method called with a lease may write the invocation once it has found the lease good. -/
theorem only_of_lease (happlies : ∀ status, act.Applies lease.id status method)
    (hnext : ∀ identity row choice, method.next identity row choice = Invocation.lockedLease lease
      identity row choice.now statuses allowCancellation .write)
    (hf : ∀ entry s u, ReflTransGen (Write cap act) s u → u.invocations[lease.id]? = some entry →
      entry.row.status ∈ statuses → (∀ v, v.invocations = u.invocations → v.now = u.now → Write cap
      act v (v.setRow lease.id fun row => method.update entry.row row (v.choice lease.id
      entry.identity))) → Post (f entry) u fun _ t => ReflTransGen (Write cap act) s t) :
    Only cap act (lockedLease lease statuses allowCancellation >>= f) := by
  intro s u hu
  simp only [post_bind, post_lockedLease]
  intro entry hentry hmatches hstatus hcancel _
  refine hf entry s u hu hentry hstatus fun v hinvocations hnow => ?_
  have hmatches' : lease.matches entry.identity entry.row v.now = true := by
    rw [hnow]
    exact hmatches
  refine .method (happlies _) (hinvocations ▸ hentry) ?_
  rw [hnext]
  exact lockedLease_eq hmatches' hstatus hcancel

theorem only_heartbeat : Only cap (.heartbeat lease) (heartbeat lease) := by
  have happlies : ∀ current, (Act.heartbeat lease).Applies lease.id current (.heartbeat lease) :=
    fun _ => ⟨rfl, rfl⟩
  refine only_of_lease happlies (fun _ _ _ => rfl) fun entry s u hu _ _ hwrite => ?_
  exact post_write.mpr (hu.tail (hwrite u rfl rfl))

theorem only_start : Only cap (.start lease paused) (start lease paused) := by
  have happlies : ∀ current, (Act.start lease paused).Applies lease.id current (.start lease) :=
    fun _ => ⟨rfl, rfl⟩
  refine only_of_lease happlies (fun _ _ _ => rfl) fun entry s u hu _ _ hwrite => ?_
  simp only [post_bind, post_ite, post_option_forM, post_throw, post_get, post_check, post_write,
    implies_true, and_true]
  exact ⟨fun _ _ _ => hu.tail (hwrite u rfl rfl), fun _ _ => hu.tail (hwrite u rfl rfl)⟩

theorem only_defer :
    Only cap (.defer lease status delaySeconds) (defer lease status delaySeconds) := by
  have happlies : ∀ current, (Act.defer lease status delaySeconds).Applies lease.id current
      (.defer lease status delaySeconds) := fun _ => ⟨rfl, rfl⟩
  refine Only.check (only_of_lease happlies (fun _ _ _ => rfl) fun entry s u hu _ _ hwrite => ?_)
  exact post_write.mpr (hu.tail (hwrite u rfl rfl))

theorem only_finish :
    Only cap (.finish lease status outcomeCode) (finish lease status outcomeCode) := by
  have happlies : ∀ current, (Act.finish lease status outcomeCode).Applies lease.id current
      (.finish lease status outcomeCode) := fun _ => ⟨rfl, rfl⟩
  refine only_of_lease happlies (fun _ _ _ => rfl) fun entry s u hu _ _ hwrite => ?_
  simp only [post_bind, post_get, post_ite, post_cancelHandoffs, post_write]
  refine ⟨fun _ => ?_, fun _ => hu.tail (hwrite u rfl rfl)⟩
  exact (hu.tail (.tables _)).tail (hwrite _ rfl rfl)

theorem only_recordAction :
    Only cap (.recordAction lease callId kind) (recordAction lease callId kind) := by
  intro s u hu
  simp only [recordAction, post_bind, post_lockedLease, post_insertAction]
  intro entry hentry _ hstatus _ _ hnew
  exact hu.tail (.record hentry (fun _ => mem_singleton.mp hstatus) hnew)

theorem only_completeAction :
    Only cap (.completeAction lease callId) (completeAction lease callId) := by
  intro s u hu
  simp only [completeAction, post_bind, post_lockedLease, post_updateActions]
  intro entry _ _ _ _ _ _
  exact hu.tail (.updateActions (fun _ => rfl) (fun action _ h => by simp [Action.pending] at h))

/-! ### Parks -/

theorem only_parkBrowserHandoff :
    Only cap (.parkBrowserHandoff lease callId handoffId)
      (parkBrowserHandoff lease callId handoffId) := by
  have happlies : ∀ current, (Act.parkBrowserHandoff lease callId handoffId).Applies lease.id
      current (.parkBrowserHandoff lease) := fun _ => ⟨rfl, rfl⟩
  refine only_of_lease happlies (fun _ _ _ => rfl) fun entry s u hu _ _ hwrite => ?_
  simp only [post_bind, post_get, post_check, post_updateActions, post_write]
  intro _ _
  refine ReflTransGen.tail ?_ (hwrite _ rfl rfl)
  refine hu.tail (.updateActions (fun _ => rfl) fun action h _ => ?_)
  exact pending_of_parkable h

theorem only_parkUserBrowserHandoff :
    Only cap (.parkUserBrowserHandoff lease nextCall) (parkUserBrowserHandoff lease nextCall) := by
  have happlies : ∀ current, (Act.parkUserBrowserHandoff lease nextCall).Applies lease.id current
      (.parkBrowserHandoff lease) := fun _ => ⟨rfl, rfl⟩
  refine only_of_lease happlies (fun _ _ _ => rfl) fun entry s u hu hentry hstatus hwrite => ?_
  simp only [post_bind, post_get, post_option_forM, post_insertAction, post_setTables, post_write]
  refine ⟨fun _ => hu, fun handoff _ hnew => ?_⟩
  have hrunning : entry.row.status = .running := mem_singleton.mp hstatus
  exact ((hu.tail (.record hentry (fun _ => hrunning) hnew)).tail (.tables _)).tail
    (hwrite _ rfl rfl)

theorem only_parkQuestion :
    Only cap (.parkQuestion lease callId questionRequestId)
      (parkQuestion lease callId questionRequestId) := by
  have happlies : ∀ current, (Act.parkQuestion lease callId questionRequestId).Applies lease.id
      current (.parkQuestion lease) := fun _ => ⟨rfl, rfl⟩
  refine only_of_lease happlies (fun _ _ _ => rfl) fun entry s u hu _ _ hwrite => ?_
  simp only [post_bind, post_get, post_check, post_updateActions, post_write]
  intro _ _
  refine ReflTransGen.tail ?_ (hwrite _ rfl rfl)
  refine hu.tail (.updateActions (fun _ => rfl) fun action h _ => ?_)
  exact pending_of_parkable (Bool.and_eq_true_iff.mp h).1

theorem only_insertRequest {threadId : String} {requests : Option Request}
    (hu : ReflTransGen (Write cap act) s u) : Post
      (match requests with
        | some request => pure (some request.id)
        | none => do
          if choice.noWork then return none
          setTables fun o => tool.setRequests o (tool.requests o ++
            [{ id := choice.id
               invocationId := lease.id
               threadId := threadId
               callId := callId
               createdByUserId := lease.createdByUserId
               status := .pending }])
          return some choice.id : InTransaction (Option String)) u
      fun _ t => ReflTransGen (Write cap act) s t := by
  cases requests with
  | some request => exact (post_pure _).mpr hu
  | none =>
    simp only [post_ite, post_pure, post_bind, post_setTables]
    exact ⟨fun _ => hu, fun _ => hu.tail (.tables _)⟩

theorem only_requestInTransaction (hu : ReflTransGen (Write cap act) s u) :
    Post (requestInTransaction tool lease callId choice) u fun _ t =>
      ReflTransGen (Write cap act) s t := by
  simp only [requestInTransaction, post_bind, post_get, post_require, post_check, post_ite,
    post_option_forM, post_throw, implies_true, and_true]
  intro entry _
  exact ⟨fun _ _ _ _ _ => only_insertRequest hu, fun _ _ _ _ => only_insertRequest hu⟩

theorem only_parkRequest (happlies : ∀ status, act.Applies lease.id status (.parkQuestion lease)) :
    Only cap act (parkRequest tool lease callId clientId choice) := by
  refine Only.check fun s u hu => post_bind.mpr ?_
  refine (only_requestInTransaction hu).mono fun request t ht => ?_
  refine post_option_forM.mpr ⟨fun _ => ht, fun ref _ => ?_⟩
  refine only_of_lease happlies (fun _ _ _ => rfl) (fun entry s u hu _ _ hwrite => ?_) s t ht
  simp only [post_bind, post_updateActions, post_write]
  intro _
  refine ReflTransGen.tail ?_ (hwrite _ rfl rfl)
  refine hu.tail (.updateActions (fun _ => rfl) fun action h _ => ?_)
  exact pending_of_parkable (Bool.and_eq_true_iff.mp h).1

theorem only_prepareQuestionContinuation :
    Only cap (.prepareQuestionContinuation lease ledger)
      (prepareQuestionContinuation lease ledger) := by
  intro s u hu
  simp only [prepareQuestionContinuation, post_bind, post_lockedLease, post_get]
  intro entry _ _ _ _ _
  refine post_forM (I := fun _ v => ReflTransGen _ s v) (fun pending l v hv => ?_) hu
  simp only [post_bind, post_option_forM, post_throw, implies_true, and_true, post_setActions]
  intro _ _
  exact hv.tail (.updateActions (fun _ => rfl) fun action _ h => by simp [Action.pending] at h)

/-! ### The owner -/

@[simp] theorem post_cancelWaits (h : ∀ tables, Q () { s with tables := tables }) :
    Post (cancelWaits id identity owner) s Q := by
  simp only [cancelWaits, post_bind, post_get, post_setTables]
  exact h _

theorem entry?_eq_some : s.entry? id owner = some entry ↔
      s.invocations[id]? = some entry ∧ entry.identity.createdByUserId = owner := by
  simp [Store.entry?, filter_eq_some_iff]

theorem only_requestCancel (hu : ReflTransGen (Write cap act) s u)
    (happlies : ∀ entry, u.invocations[id]? = some entry → act.Applies id entry.row.status
      (.requestCancel owner)) :
    Post (requestCancel owner id) u fun _ t => ReflTransGen (Write cap act) s t := by
  simp only [requestCancel, post_bind, post_get, post_require, post_ite, post_pure, entry?_eq_some]
  rintro entry ⟨hentry, howner⟩
  refine ⟨fun hstatus => post_cancelWaits fun tables => ?_, fun _ => hu⟩
  refine post_write.mpr ((hu.tail (.tables tables)).tail
    (.method (happlies entry hentry) hentry ?_))
  simp [Method.next, howner, hstatus]

theorem only_abandonReviewed :
    Only cap (.abandonReviewed owner threadId id expectedUpdatedAt audit)
      (abandonReviewed owner threadId id expectedUpdatedAt audit) := by
  intro s u hu
  simp only [abandonReviewed, post_bind, post_get, post_require, post_ite, post_pure, post_check,
    post_insertAction, filter_eq_some_iff, entry?_eq_some, Bool.and_eq_true,
    decide_eq_true_eq]
  rintro entry ⟨⟨hentry, howner⟩, _⟩
  refine ⟨fun hnot hreview hnew => post_cancelWaits fun tables => ?_, fun _ => hu⟩
  have hrecord := hu.tail (.record hentry (by simp [Action.pending]) hnew)
  refine post_write.mpr ((hrecord.tail (.tables tables)).tail (.method ⟨rfl, rfl⟩ hentry ?_))
  simp [Method.next, howner, hreview.1, hreview.2]

/-! ### Admission and claims -/

theorem setRow_ne (hne : id ≠ other) :
    (s.setRow id update).invocations[other]? = s.invocations[other]? := by
  simp [Store.setRow, hne]

/-- The tasks that are left to supersede: each once, and each waiting for the user. -/
def Superseding (ids : List ℕ) (s : Store) : Prop :=
  ids.Nodup ∧ ∀ id ∈ ids, ∀ entry, s.invocations[id]? = some entry →
    entry.row.status = .waitingForUser

theorem superseding_browserTasks : Superseding (s.browserTasks threadId owner) s := by
  refine ⟨nodup_range.filter _, fun id hid entry hentry => ?_⟩
  have hid := (mem_filter.mp hid).2
  simp only [Store.entry?, hentry, Bool.and_eq_true, Option.any_eq_true,
    filter_eq_some_iff, decide_eq_true_eq] at hid
  obtain ⟨⟨found, ⟨hfound, _⟩, _, hstatus⟩, _⟩ := hid
  obtain rfl := some.inj hfound
  exact hstatus

/-- What a cancellation writes, it writes to one invocation. -/
theorem post_requestCancel : Post (requestCancel owner id) s fun _ t => ∀ other, other ≠ id →
      t.invocations[other]? = s.invocations[other]? := by
  simp only [requestCancel, post_bind, post_get, post_require, post_ite, post_pure]
  intro entry _
  refine ⟨fun _ => post_cancelWaits fun tables => post_write.mpr ?_, fun _ _ _ => trivial⟩
  exact fun other hne => setRow_ne hne.symm

theorem only_supersede (hu : ReflTransGen (Write cap (.admission input generatedClientId)) s u)
    (h : Superseding (id :: ids) u) : Post (supersede input.owner id) u fun _ t =>
      ReflTransGen (Write cap (.admission input generatedClientId)) s t ∧ Superseding ids t := by
  obtain ⟨hnodup, hids⟩ := h
  obtain ⟨hid, hnodup⟩ := nodup_cons.mp hnodup
  have hcancel := only_requestCancel hu fun entry hentry =>
    (⟨hids id mem_cons_self entry hentry, rfl⟩ :
      (Act.admission input generatedClientId).Applies id _ (.requestCancel input.owner))
  refine post_bind.mpr ((hcancel.and post_requestCancel).mono ?_)
  rintro _ t ⟨ht, hother⟩
  refine post_modify.mpr ⟨ht.tail (.superseded rfl), hnodup, fun other hmem entry hentry => ?_⟩
  have hne : other ≠ id := fun heq => hid (heq ▸ hmem)
  rw [setRow_ne hne.symm, hother other hne] at hentry
  exact hids other (mem_cons_of_mem id hmem) entry hentry

theorem only_admission :
    Only cap (.admission input generatedClientId) (admission input generatedClientId) := by
  refine Only.check fun s u hu => ?_
  simp only [post_bind, post_get, post_require]
  intro thread _
  cases u.invocations.find? fun entry =>
      entry.identity.createdByUserId = input.owner &&
        entry.admission.idempotencyKey = input.idempotencyKey with
  | some existing => exact post_check.mpr fun _ => hu
  | none =>
    simp only [post_bind, post_ite, post_modify]
    refine ⟨fun _ => ?_, fun _ => hu.tail (.insert rfl rfl)⟩
    refine Post.mono (post_forM (I := fun ids v => ReflTransGen _ s v ∧ Superseding ids v)
      (fun id ids v hv => only_supersede hv.1 hv.2) ⟨hu, superseding_browserTasks⟩) ?_
    exact fun _ t ht => ht.1.tail (.insert rfl rfl)

theorem only_claim (hu : ReflTransGen (Write cap (.claim workerId candidate acquired)) s u) :
    Post (claim cap workerId candidate acquired) u fun _ t =>
      ReflTransGen (Write cap (.claim workerId candidate acquired)) s t := by
  simp only [claim, post_bind, post_check, post_get]
  intro _
  cases hcandidate : u.invocations[candidate]?.filter (u.claimable cap candidate) with
  | none => exact (post_pure _).mpr hu
  | some entry =>
    obtain ⟨hentry, hclaimable⟩ := filter_eq_some_iff.mp hcandidate
    simp only [post_ite, post_bind, post_modify, post_pure, leaseTo, post_get, post_setActions]
    refine ⟨fun h => hu.tail (.elapse rfl hentry hclaimable h.2.2), fun _ => ⟨fun _ => hu, ?_⟩⟩
    refine fun _ => (hu.tail (.lease rfl hentry hclaimable)).tail ?_
    exact .updateActions (fun _ => rfl) fun action _ h => h

theorem setRow_getElem? (h : s.invocations[id]? = some entry) :
    (s.setRow id update).invocations[id]? = some { entry with row := update entry.row } := by
  simp [Store.setRow, h]

/-- A claim raises the fence, and the lease it returns is the row's. -/
theorem post_claim :
    Post (claim cap workerId candidate acquired) s fun leased t => ∀ lease, leased = some lease →
      ∃ entry entry', s.invocations[lease.id]? = some entry ∧
        s.claimable cap lease.id entry = true ∧ t.invocations[lease.id]? = some entry' ∧
        entry'.row.fence = entry.row.fence + 1 ∧ lease = entry'.lease lease.id := by
  simp only [claim, post_bind, post_check, post_get]
  intro _
  cases hcandidate : s.invocations[candidate]?.filter (s.claimable cap candidate) with
  | none => simp
  | some entry =>
    obtain ⟨hentry, hclaimable⟩ := filter_eq_some_iff.mp hcandidate
    simp only [post_ite, post_bind, post_modify, post_pure, leaseTo, post_get, post_setActions]
    refine ⟨fun _ => (by simp), fun _ => ⟨fun _ => (by simp), fun _ => ?_⟩⟩
    rintro lease ⟨⟩
    exact ⟨entry, _, hentry, hclaimable, setRow_getElem? hentry, rfl, rfl⟩

/-! ### Sweeps -/

/-- Every row in a sweep is there once, and is one that its method writes. -/
def Sweeping (method : Method) (ids : List ℕ) (s : Store) : Prop :=
  ids.Nodup ∧ ∀ id ∈ ids, ∃ entry, s.invocations[id]? = some entry ∧
    method.next entry.identity entry.row (s.choice id entry.identity) = .write

theorem sweeping_swept : Sweeping method (s.swept ids method) s := by
  constructor
  · exact ((nodup_dedup ids).filter _).sublist (take_sublist _ _)
  · intro id hid
    have hid := mem_of_mem_take hid
    simpa [Option.any_eq_true] using (mem_filter.mp hid).2

/-- Once a sweep has written one row, the others are still as they were. -/
theorem Sweeping.tail
    (hchoice : ∀ identity row (choice choice' : Choice), choice.now = choice'.now →
      choice.continuation = choice'.continuation → choice.browserWait = choice'.browserWait →
      method.next identity row choice = method.next identity row choice')
    (h : Sweeping method (id :: ids) s) :
    Sweeping method ids ({ s with tables := tables }.setRow id update) := by
  obtain ⟨hnodup, hids⟩ := h
  obtain ⟨hid, hnodup⟩ := nodup_cons.mp hnodup
  refine ⟨hnodup, fun other hother => ?_⟩
  obtain ⟨entry, hentry, hnext⟩ := hids other (mem_cons_of_mem id hother)
  have hne : id ≠ other := fun heq => hid (heq ▸ hother)
  refine ⟨entry, by rw [setRow_ne hne]; exact hentry, ?_⟩
  rw [← hnext]
  exact hchoice _ _ _ _ rfl rfl rfl

theorem only_sweep
    (hchoice : ∀ identity row (choice choice' : Choice), choice.now = choice'.now →
      choice.continuation = choice'.continuation → choice.browserWait = choice'.browserWait →
      method.next identity row choice = method.next identity row choice')
    (happlies : ∀ id status, act.Applies id status method)
    (hf : ∀ id u entry (Q : Unit → Store → Prop), u.invocations[id]? = some entry → (∀ tables, Q ()
      ({ u with tables := tables }.setRow id fun row => method.update entry.row row (Store.choice {
      u with tables := tables } id entry.identity))) → Post (f id) u Q)
    (hu : ReflTransGen (Write cap act) s u) :
    Post ((u.swept ids method).forM f) u fun _ t => ReflTransGen (Write cap act) s t := by
  refine Post.mono (post_forM (I := fun ids v => ReflTransGen (Write cap act) s v ∧
    Sweeping method ids v) ?_ ⟨hu, sweeping_swept⟩) fun _ t ht => ht.1
  rintro id ids v ⟨hv, hsweeping⟩
  obtain ⟨entry, hentry, hnext⟩ := hsweeping.2 id mem_cons_self
  refine hf id v entry _ hentry fun tables => ⟨?_, hsweeping.tail hchoice⟩
  refine (hv.tail (.tables tables)).tail (.method (happlies id _) hentry ?_)
  rw [← hnext]
  exact hchoice _ _ _ _ rfl rfl rfl

theorem only_expireQueued : Only cap (.expireQueued ids) (expireQueued ids) := by
  intro s u hu
  refine post_bind.mpr (post_get.mpr ?_)
  refine only_sweep (fun _ _ _ _ hnow hcontinuation _ => ?_) (fun _ _ => by exact rfl)
    (fun id u entry Q hentry hQ => ?_) hu
  · simp only [Method.next, hnow, hcontinuation]
  · simp only [post_bind, post_get, hentry, post_option_forM, post_write]
    refine ⟨fun h => (by cases h), fun _ h => ?_⟩
    cases h
    exact hQ u.tables

theorem only_recoverExpired :
    Only cap (.recoverExpired ended expired) (recoverExpired ended expired) := by
  have hended : ∀ id status,
      (Act.recoverExpired ended expired).Applies id status .recoverEnded := fun _ _ => .inl rfl
  have hexpired : ∀ id status,
      (Act.recoverExpired ended expired).Applies id status .recoverExpired := fun _ _ => .inr rfl
  intro s u hu
  refine post_bind.mpr (post_get.mpr (post_bind.mpr ?_))
  refine Post.mono (only_sweep (fun _ _ _ _ _ _ hbrowserWait => ?_) hended
    (fun id u entry Q hentry hQ => ?_) hu) fun _ t ht => ?_
  · simp only [Method.next, hbrowserWait]
  · simp only [post_bind, post_cancelHandoffs, post_get, hentry, post_option_forM, post_write]
    refine ⟨fun h => (by cases h), fun _ h => ?_⟩
    cases h
    exact hQ _
  refine post_bind.mpr (post_get.mpr ?_)
  refine only_sweep (fun _ _ _ _ hnow _ _ => ?_) hexpired (fun id u entry Q hentry hQ => ?_) ht
  · simp only [Method.next, hnow]
  · simp only [post_bind, post_get, hentry, post_option_forM, post_ite, post_cancelHandoffs,
      post_write]
    refine ⟨fun h => (by cases h), fun _ h => ?_⟩
    cases h
    exact ⟨fun _ => hQ _, fun _ => hQ u.tables⟩

/-! ### Runs -/

/-- **A method that commits does its own writes only.** -/
theorem writes_of_perform (act : Act) :
    Post (perform cap act) s fun _ t => ReflTransGen (Write cap act) s t := by
  have hstart {x : InTransaction Unit} (h : Only cap act x) :
      Post x s fun _ t => ReflTransGen (Write cap act) s t := h s s .refl
  cases act with
  | admission => exact hstart only_admission
  | claim => exact post_bind.mpr ((only_claim .refl).mono fun _ t ht => (post_pure _).mpr ht)
  | heartbeat => exact hstart only_heartbeat
  | start => exact hstart only_start
  | defer => exact hstart only_defer
  | recordAction => exact hstart only_recordAction
  | completeAction => exact hstart only_completeAction
  | finish => exact hstart only_finish
  | parkBrowserHandoff => exact hstart only_parkBrowserHandoff
  | parkUserBrowserHandoff => exact hstart only_parkUserBrowserHandoff
  | parkQuestion => exact hstart only_parkQuestion
  | parkAppDataRequest | parkAutomationProposal | parkBootstrapProposal =>
    exact hstart (only_parkRequest fun _ => ⟨rfl, rfl⟩)
  | prepareQuestionContinuation => exact hstart only_prepareQuestionContinuation
  | requestCancel => exact only_requestCancel .refl fun _ _ => ⟨rfl, rfl⟩
  | abandonReviewed => exact hstart only_abandonReviewed
  | expireQueued => exact hstart only_expireQueued
  | recoverExpired => exact hstart only_recoverExpired
  | tick seconds => exact post_modify.mpr (.single (.tick seconds))
  | outside tables => exact post_modify.mpr (.single (.tables tables))

theorem writes_of_step (h : step cap s act = some t) : ReflTransGen (Write cap act) s t := by
  obtain rfl := some.inj h
  exact after_of_post .refl (writes_of_perform act)

theorem invariant_of_writes (hwrite : ∀ s t, I s → Write cap act s t → I t)
    (h : ReflTransGen (Write cap act) s t) (hs : I s) : I t := by
  induction h with
  | refl => exact hs
  | tail _ hw ih => exact hwrite _ _ ih hw

/-- **What every write keeps, every run keeps.** -/
theorem invariant_of_write (hwrite : ∀ act s t, I s → Write cap act s t → I t)
    (h : Runs.run (step cap) acts s = some t) (hs : I s) : I t :=
  Runs.invariant (fun _ act _ hs hstep =>
    invariant_of_writes (hwrite act) (writes_of_step hstep) hs) h hs

/-! ### The row of one invocation -/

variable (cap act) in
/-- What one write of an act makes of an invocation. -/
inductive Moved (s : Store) (id : ℕ) (entry : Entry) : Row → Prop
  | same : Moved s id entry entry.row
  | method {method : Method} (happlies : act.Applies id entry.row.status method)
      (hnext : method.next entry.identity entry.row (s.choice id entry.identity) = .write) :
      Moved s id entry (method.update entry.row entry.row (s.choice id entry.identity))
  | lease {workerId : String} {acquired : Bool} (hact : act = .claim workerId id acquired)
      (hclaimable : s.claimable cap id entry = true) :
      Moved s id entry (entry.row.leasedTo workerId s.now)
  | elapse {workerId : String} {acquired : Bool} (hact : act = .claim workerId id acquired)
      (hclaimable : s.claimable cap id entry = true)
      (hstatus : entry.row.status ≠ .waitingForUser) :
      Moved s id entry (entry.row.startElapsed s.now)
  | superseded {input : Admission} {generatedClientId outcomeCode : String}
      (hact : act = .admission input generatedClientId) :
      Moved s id entry { entry.row with outcomeCode := some outcomeCode }

theorem moved_of_setRow (hentry : s.invocations[id]? = some entry)
    (hwritten : s.invocations[other]? = some written)
    (hmoved : Moved cap act s other written (update written.row)) :
    ∃ row, (s.setRow other update).invocations[id]? = some { entry with row := row } ∧
      Moved cap act s id entry row := by
  by_cases heq : other = id
  · subst heq
    obtain rfl : entry = written := some.inj (hentry.symm.trans hwritten)
    exact ⟨_, setRow_getElem? hentry, hmoved⟩
  · exact ⟨entry.row, by rw [setRow_ne heq, hentry], .same⟩

theorem Write.moved (h : Write cap act s t) (hentry : s.invocations[id]? = some entry) :
    ∃ row, t.invocations[id]? = some { entry with row := row } ∧ Moved cap act s id entry row := by
  cases h with
  | method happlies hwritten hnext =>
    exact moved_of_setRow hentry hwritten (.method happlies hnext)
  | lease hact hwritten hclaimable =>
    exact moved_of_setRow hentry hwritten (.lease hact hclaimable)
  | elapse hact hwritten hclaimable hstatus =>
    exact moved_of_setRow hentry hwritten (.elapse hact hclaimable hstatus)
  | @superseded _ _ other outcomeCode hact =>
    by_cases heq : other = id
    · subst heq
      exact ⟨_, setRow_getElem? hentry, .superseded hact⟩
    · exact ⟨entry.row, by rw [setRow_ne heq, hentry], .same⟩
  | insert =>
    have hlt : id < s.invocations.length := (List.getElem?_eq_some_iff.mp hentry).1
    exact ⟨entry.row, by rw [getElem?_append_left hlt, hentry], .same⟩
  | record | actions | tables | tick => exact ⟨entry.row, hentry, .same⟩

theorem setRow_eq_none (h : s.invocations[id]? = none) :
    (s.setRow other update).invocations[id]? = none := by
  rw [Store.setRow, getElem?_modify, h]
  rfl

theorem Write.row_eq_new (h : Write cap act s t) (hnone : s.invocations[id]? = none)
    (hentry : t.invocations[id]? = some entry) : entry.row = Row.new s.now := by
  cases h with
  | method | lease | elapse | superseded =>
    rw [setRow_eq_none hnone] at hentry
    cases hentry
  | insert hact hrow =>
    have hle : s.invocations.length ≤ id := List.getElem?_eq_none_iff.mp hnone
    rw [getElem?_append_right hle] at hentry
    obtain rfl := mem_singleton.mp (mem_of_getElem? hentry)
    exact hrow
  | record | actions | tables | tick =>
    rw [hnone] at hentry
    cases hentry

end Bud.Repository
