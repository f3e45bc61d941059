import Bud.Gateway.Challenges

/-!
# Presence of a Bud

When nothing is pending, a Bud's stored status should be `online` exactly if the map holds a tracker
of it whose socket is open. Three orders break this. A connection that closes marks the Bud offline
some awaits after its tracker has been taken out of the map, and by then another connection may have
registered one. A connection may close while it is being authenticated, and the authentication goes
on to register a tracker whose socket is closed. And a connection that says hello once more waits
for a proof again, so that its close does not take the tracker out that it has in the map.

In every other order the status agrees. The invariant accounts for it: the Bud is online if there is
a tracker in the map or an authentication that is about to put one there, and if it is online there
is one of these, or a handler that is about to mark it offline.
-/

namespace Bud.Gateway

open List Option Function

variable {B N S D I : Type*}

def State.Quiescent (s : State B N S D I) : Prop :=
  s.hellos = [] ∧ (∀ a ∈ s.authentications, a.left = []) ∧ ∀ closing ∈ s.closings, closing.left = []

/-- The stored status is `online` exactly if the map holds a tracker whose socket is open. -/
def Agrees (b : B) (s : State B N S D I) : Prop :=
  (s.rows b).online = true ↔
    ∃ tracker, s.sessions b = some tracker ∧ (s.connections tracker.connection).closed = false

instance (s : State B N S D I) : Decidable s.Quiescent :=
  decidable_of_iff (s.hellos.isEmpty ∧ (∀ a ∈ s.authentications, a.left.isEmpty) ∧
    ∀ closing ∈ s.closings, closing.left.isEmpty) (by simp only [List.isEmpty_iff]; rfl)

instance (b : B) (s : State B N S D I) : Decidable (Agrees b s) :=
  decidable_of_iff ((s.rows b).online = true ↔
      ∃ tracker ∈ s.sessions b, (s.connections tracker.connection).closed = false) Iff.rfl

def OfBud (b : B) : Act B N S D I → Prop
  | .hello _ frame => ∀ b' ∈ frame.budId, b' = b
  | _ => True

/-- The authentication has marked the Bud online, and has yet to register its tracker. -/
def Authentication.Entering (a : Authentication B N S I) : Prop :=
  a.Pending ∧ .markOnline ∉ a.left

instance (a : Authentication B N S I) : Decidable a.Entering :=
  inferInstanceAs (Decidable (_ ∧ _))

def ConnectionState.isConnected : ConnectionState B N S I → Bool
  | .connected _ => true
  | _ => false

theorem isConnected_iff {state : ConnectionState B N S I} :
    state.isConnected = true ↔ ∃ budId, state = .connected budId := by
  cases state <;> simp [ConnectionState.isConnected]

/-- A connection does not close under an authentication, or waiting for a proof with a tracker in
the map; and the Bud is marked offline only while there is no tracker in the map and none about to
be. -/
def Undisturbed (b : B) (s : State B N S D I) : Act B N S D I → Prop
  | .close c => (∀ a ∈ s.authentications, a.connection = c → ¬ a.Pending) ∧
    ((s.connections c).state.isConnected = true ∨
      ∀ tracker ∈ s.sessions b, tracker.connection ≠ c)
  | .closing k => ∀ closing ∈ s.closings[k]?, closing.left.head? = some .markOffline →
    s.sessions b = none ∧ ∀ a ∈ s.authentications, ¬ a.Entering
  | _ => True

instance [DecidableEq B] (b : B) : DecidablePred (OfBud b (N := N) (S := S) (D := D) (I := I))
  | .hello _ frame => inferInstanceAs (Decidable (∀ b' ∈ frame.budId, b' = b))
  | .found .. | .proof .. | .authenticate _ | .close _ | .closing _ | .timeout _ | .stored .. =>
    inferInstanceAs (Decidable True)

instance (b : B) (s : State B N S D I) : DecidablePred (Undisturbed b s)
  | .close _ => inferInstanceAs (Decidable (_ ∧ (_ ∨ _)))
  | .closing k => inferInstanceAs (Decidable (∀ closing ∈ s.closings[k]?,
      closing.left.head? = some .markOffline → _ ∧ _))
  | .hello .. | .found .. | .proof .. | .authenticate _ | .timeout _ | .stored .. =>
    inferInstanceAs (Decidable True)

structure PresenceInv (b : B) (s : State B N S D I) : Prop where
  hellos : ∀ hello ∈ s.hellos, hello.budId = b
  states : ∀ c, ∀ b' ∈ (s.connections c).state.budId?, b' = b
  challenges : ∀ a ∈ s.authentications, a.challenge.budId = b
  trackers : ∀ c, ∀ tracker ∈ (s.connections c).tracker, tracker.budId = b
  registered : ∀ r ∈ s.registered, r.tracker.budId = b
  closings : ∀ closing ∈ s.closings, closing.budId = b ∧
    ∀ c ∈ closing.owner, (s.connections c).closed = true
  left : ∀ a ∈ s.authentications, a.left <:+ authSteps a.challenge.installationId.isSome
  current : ∀ tracker, s.sessions b = some tracker →
    (s.connections tracker.connection).closed = false ∧
      (s.connections tracker.connection).tracker = some tracker
  pending : ∀ a ∈ s.authentications, a.Pending → (s.connections a.connection).closed = false
  online : s.sessions b ≠ none ∨ (∃ a ∈ s.authentications, a.Entering) → (s.rows b).online = true
  accounted : (s.rows b).online = true → s.sessions b ≠ none ∨
    (∃ a ∈ s.authentications, a.Entering) ∨ ∃ closing ∈ s.closings, .markOffline ∈ closing.left

theorem presenceInv_init (b : B) : PresenceInv b (init : State B N S D I) where
  hellos := nofun
  states := nofun
  challenges := nofun
  trackers := nofun
  registered := nofun
  closings := nofun
  left := nofun
  current := nofun
  pending := nofun
  online := by
    rintro (h | ⟨a, ha, -⟩)
    · exact absurd rfl h
    · exact absurd ha not_mem_nil
  accounted := nofun

variable {b budId : B} {s : State B N S D I} {left : List AuthStep} {c : ℕ}
  {challenge : Challenge B N S I} {next : AuthStep} {owner : Option ℕ}

theorem PresenceInv.agrees (h : PresenceInv b s) (hq : s.Quiescent) : Agrees b s := by
  obtain ⟨-, hauth, hclosings⟩ := hq
  constructor
  · intro honline
    rcases h.accounted honline with hsome | ⟨a, ha, hpending, -⟩ | ⟨closing, hmem, hoffline⟩
    · obtain ⟨tracker, htracker⟩ := ne_none_iff_exists'.mp hsome
      exact ⟨tracker, htracker, (h.current tracker htracker).1⟩
    · rw [Authentication.Pending, hauth a ha] at hpending
      exact absurd hpending not_mem_nil
    · rw [hclosings closing hmem] at hoffline
      exact absurd hoffline not_mem_nil
  · rintro ⟨tracker, htracker, -⟩
    exact h.online (.inl (by rw [htracker]; nofun))

/-! ### The steps of an authentication -/

/-- The tracker is yet to be registered when the Bud is marked online. -/
theorem of_markOnline (h : .markOnline :: left <:+ authSteps flow) :
    .registerTransport ∈ left ∧ .markOnline ∉ left := by
  have hall : ∀ l ∈ (authSteps flow).tails, l.head? = some .markOnline →
      .registerTransport ∈ l.tail ∧ .markOnline ∉ l.tail := by
    cases flow <;> decide
  exact hall _ ((mem_tails _ _).mpr h) rfl

/-- When the tracker is registered the Bud has been marked online. -/
theorem not_markOnline_of_registerTransport (h : .registerTransport :: left <:+ authSteps flow) :
    .markOnline ∉ left := by
  have hall : ∀ l ∈ (authSteps flow).tails, l.head? = some .registerTransport →
      .markOnline ∉ l.tail := by
    cases flow <;> decide
  exact hall _ ((mem_tails _ _).mpr h) rfl

theorem not_entering_authSteps (flow : Bool) :
    ¬ (⟨c, challenge, authSteps flow⟩ : Authentication B N S I).Entering := by
  rintro ⟨-, h⟩
  cases flow <;> exact h (mem_cons_of_mem _ (mem_cons_self ..))

/-- A step that neither marks the Bud online nor registers the tracker. -/
theorem entering_iff (hm : next ≠ .markOnline) (hr : next ≠ .registerTransport) :
    (⟨c, challenge, next :: left⟩ : Authentication B N S I).Entering ↔
      (⟨c, challenge, left⟩ : Authentication B N S I).Entering := by
  rw [Authentication.Entering, Authentication.Pending, Authentication.Entering,
    Authentication.Pending, mem_cons, mem_cons]
  simp [hm.symm, hr.symm]

/-! ### What a step may change -/

/-- An entry is changed to one with the same property. -/
theorem exists_mem_set_iff {α : Type*} {P : α → Prop} {l : List α} {k : ℕ} {x y : α}
    (hk : l[k]? = some x) (hxy : P x ↔ P y) : (∃ a ∈ l.set k y, P a) ↔ ∃ a ∈ l, P a := by
  constructor
  · rintro ⟨a, ha, hp⟩
    rcases mem_or_eq_of_mem_set ha with ha | rfl
    · exact ⟨a, ha, hp⟩
    · exact ⟨x, mem_of_getElem? hk, hxy.mpr hp⟩
  · rintro ⟨a, ha, hp⟩
    obtain ⟨j, hj⟩ := getElem?_of_mem ha
    by_cases hjk : j = k
    · subst hjk
      obtain rfl : x = a := some.inj (hk.symm.trans hj)
      exact ⟨y, mem_set (List.getElem?_eq_some_iff.mp hk).1 y, hxy.mp hp⟩
    · exact ⟨a, mem_of_getElem? (i := j) (by rw [getElem?_set_ne (Ne.symm hjk), hj]), hp⟩

variable {connection : Connection B N S I} {connections : ℕ → Connection B N S I}
  {tracker : SessionTracker B}

/-- A connection comes to wait for a proof, is connected, or reaches its end. -/
theorem PresenceInv.setConnection (h : PresenceInv b s)
    (hstate : ∀ b' ∈ connection.state.budId?, b' = b)
    (hclosed : connection.closed = (s.connections c).closed)
    (htracker : connection.tracker = (s.connections c).tracker ∨ connection.tracker = none ∧
      (s.connections c).closed = true) : PresenceInv b (s.setConnection c connection) := by
  have hclosed' : ∀ c', ((s.setConnection c connection).connections c').closed =
      (s.connections c').closed := fun _ => closed_setConnection hclosed
  refine { h with states := ?_, trackers := ?_, closings := ?_, current := ?_, pending := ?_ }
  · exact forall_setConnection (P := fun _ x => ∀ b' ∈ x.state.budId?, b' = b) hstate
      fun c' _ => h.states c'
  · refine forall_setConnection (P := fun _ x => ∀ tracker ∈ x.tracker, tracker.budId = b) ?_
      fun c' _ => h.trackers c'
    intro tracker ht
    rcases htracker with htracker | ⟨htracker, -⟩
    · exact h.trackers c tracker (htracker ▸ ht)
    · rw [htracker] at ht
      cases ht
  · intro closing hmem
    refine ⟨(h.closings closing hmem).1, fun c' hc' => ?_⟩
    rw [hclosed']
    exact (h.closings closing hmem).2 c' hc'
  · intro tracker ht
    obtain ⟨hopen, hcurrent⟩ := h.current tracker ht
    refine ⟨(hclosed' _).trans hopen, ?_⟩
    by_cases hcc : tracker.connection = c
    · rw [hcc] at hopen hcurrent ⊢
      rw [connections_setConnection_self]
      rcases htracker with htracker | ⟨-, hc⟩
      · exact htracker.trans hcurrent
      · exact absurd (hopen.symm.trans hc) nofun
    · rw [connections_setConnection_of_ne s _ hcc]
      exact hcurrent
  · intro a ha hp
    rw [hclosed']
    exact h.pending a ha hp

/-- A closing takes a step that does not mark the Bud offline. -/
theorem PresenceInv.setClosing (h : PresenceInv b s) {k : ℕ} {next : CloseStep}
    {left : List CloseStep} (hk : s.closings[k]? = some ⟨owner, budId, next :: left⟩)
    (hnext : next ≠ .markOffline) (hbud : budId' = b) :
    PresenceInv b { s with closings := s.closings.set k ⟨owner, budId', left⟩ } := by
  have howner := (h.closings _ (mem_of_getElem? hk)).2
  refine { h with closings := ?_, accounted := ?_ }
  · intro closing hclosing
    rcases mem_or_eq_of_mem_set hclosing with hclosing | rfl
    · exact h.closings closing hclosing
    · exact ⟨hbud, howner⟩
  · intro honline
    refine (h.accounted honline).imp_right fun hrest => hrest.imp_right ?_
    have hiff : CloseStep.markOffline ∈ next :: left ↔ .markOffline ∈ left := by
      rw [mem_cons, or_iff_right hnext.symm]
    exact (@exists_mem_set_iff _ (fun closing : Closing B => .markOffline ∈ closing.left) _ _
      ⟨owner, budId, next :: left⟩ ⟨owner, budId', left⟩ hk hiff).mpr

section Steps

variable {b : B} {s : State B N S D I} {k c : ℕ} {challenge : Challenge B N S I} {next : AuthStep}
  {left : List AuthStep}

theorem PresenceInv.challenges_set (h : PresenceInv b s)
    (hk : s.authentications[k]? = some ⟨c, challenge, next :: left⟩) :
    ∀ a ∈ s.authentications.set k ⟨c, challenge, left⟩, a.challenge.budId = b := by
  intro a ha
  rcases mem_or_eq_of_mem_set ha with ha | rfl
  · exact h.challenges a ha
  · have hbud := h.challenges _ (mem_of_getElem? hk)
    exact hbud

theorem PresenceInv.left_set (h : PresenceInv b s)
    (hk : s.authentications[k]? = some ⟨c, challenge, next :: left⟩) :
    ∀ a ∈ s.authentications.set k ⟨c, challenge, left⟩,
      a.left <:+ authSteps a.challenge.installationId.isSome := by
  intro a ha
  rcases mem_or_eq_of_mem_set ha with ha | rfl
  · exact h.left a ha
  · exact (suffix_cons next left).trans (h.left _ (mem_of_getElem? hk))

theorem PresenceInv.pending_set (h : PresenceInv b s)
    (hk : s.authentications[k]? = some ⟨c, challenge, next :: left⟩) :
    ∀ a ∈ s.authentications.set k ⟨c, challenge, left⟩, a.Pending →
      (s.connections a.connection).closed = false := by
  intro a ha hp
  rcases mem_or_eq_of_mem_set ha with ha | rfl
  · exact h.pending a ha hp
  · have hopen := h.pending _ (mem_of_getElem? hk)
    exact hopen (mem_cons_of_mem next hp)

end Steps

/-- An authentication takes a step that neither marks the Bud online nor registers the tracker. -/
theorem PresenceInv.setAuthentication (h : PresenceInv b s) {k : ℕ}
    (hk : s.authentications[k]? = some ⟨c, challenge, next :: left⟩) (hm : next ≠ .markOnline)
    (hr : next ≠ .registerTransport) :
    PresenceInv b { s with authentications := s.authentications.set k ⟨c, challenge, left⟩ } := by
  have hentering := @exists_mem_set_iff _ Authentication.Entering _ _ _ _ hk (entering_iff hm hr)
  refine ⟨h.hellos, h.states, h.challenges_set hk, h.trackers, h.registered, h.closings,
    h.left_set hk, h.current, h.pending_set hk, ?_, ?_⟩
  · exact fun hor => h.online (hor.imp_right hentering.mp)
  · exact fun honline => (h.accounted honline).imp_right fun hor => hor.imp_left hentering.mpr

/-- Sockets have closed, with no authentication pending on them. -/
structure Closes (b : B) (s : State B N S D I) (connections : ℕ → Connection B N S I) :
    Prop where
  states : ∀ c, ∀ b' ∈ (connections c).state.budId?, b' = b
  trackers : ∀ c, ∀ tracker ∈ (connections c).tracker, tracker.budId = b
  closed : ∀ c, (s.connections c).closed = true → (connections c).closed = true
  pending : ∀ a ∈ s.authentications, a.Pending → (connections a.connection).closed = false

theorem PresenceInv.refl_closes (h : PresenceInv b s) :
    Closes b s s.connections := { h with closed := fun _ => id }

theorem PresenceInv.closes (h : PresenceInv b s)
    (hidle : ∀ a ∈ s.authentications, a.connection = c → ¬ a.Pending)
    (hclosed : connection.closed = true) (hstate : ∀ b' ∈ connection.state.budId?, b' = b)
    (htracker : ∀ tracker ∈ connection.tracker, tracker.budId = b) :
    Closes b s (s.setConnection c connection).connections := by
  constructor
  · exact forall_setConnection (P := fun _ x => ∀ b' ∈ x.state.budId?, b' = b) hstate
      fun c' _ => h.states c'
  · exact forall_setConnection (P := fun _ x => ∀ tracker ∈ x.tracker, tracker.budId = b) htracker
      fun c' _ => h.trackers c'
  · exact forall_setConnection (P := fun c' x => (s.connections c').closed = true →
      x.closed = true) (fun _ => hclosed) fun _ _ => id
  · intro a ha hp
    rw [connections_setConnection_of_ne s _ fun hcc => hidle a ha hcc hp]
    exact h.pending a ha hp

theorem PresenceInv.close (h : PresenceInv b s) (hcloses : Closes b s connections)
    (hcurrent : ∀ tracker, s.sessions b = some tracker → connections tracker.connection =
      s.connections tracker.connection) : PresenceInv b { s with connections := connections } := by
  refine ⟨h.hellos, hcloses.states, h.challenges, hcloses.trackers, h.registered, ?_, h.left, ?_,
    hcloses.pending, h.online, h.accounted⟩
  · intro closing hclosing
    obtain ⟨hb, ho⟩ := h.closings closing hclosing
    exact ⟨hb, fun c hc => hcloses.closed c (ho c hc)⟩
  · intro tracker ht
    show (connections tracker.connection).closed = false ∧
      (connections tracker.connection).tracker = some tracker
    rw [hcurrent tracker ht]
    exact h.current tracker ht

theorem PresenceInv.superseded (h : PresenceInv b s) (hc : (s.connections c).closed = true)
    (hbud : budId = b) :
    PresenceInv b { s with closings := s.closings ++ [⟨some c, budId, supersededSteps⟩] } := by
  refine { h with closings := ?_, accounted := ?_ }
  · exact forall_mem_append.mpr
      ⟨h.closings, forall_mem_singleton.mpr ⟨hbud, fun c' hc' => some.inj hc' ▸ hc⟩⟩
  · exact fun honline => (h.accounted honline).imp_right fun hor => hor.imp_right
      fun ⟨closing, hmem, hoffline⟩ => ⟨closing, mem_append_left _ hmem, hoffline⟩

/-! ### Challenges and proofs -/

theorem presenceInv_issueChallenge [DecidableEq I] (h : PresenceInv b s) (hbud : hello.budId = b)
    (nonce : N) : PresenceInv b (issueChallenge s hello nonce) := by
  rw [issueChallenge]
  dsimp only
  split
  · exact h
  · split
    · exact h
    · next deviceSecret _ _ =>
      have hset : PresenceInv b (s.setState hello.connection
          (.awaitingProof ⟨hello.budId, deviceSecret, nonce, hello.installationId⟩)) :=
        h.setConnection (fun b' hb' => (some.inj hb').symm.trans hbud) rfl (.inl rfl)
      exact { hset with }

theorem presenceInv_handleHelloProof [DecidableEq D] {hmac : S → N → D} (h : PresenceInv b s)
    (hopen : (s.connections c).closed = false) (digest : D) :
    PresenceInv b (handleHelloProof hmac s c digest) := by
  rw [handleHelloProof]
  dsimp only
  split
  · next challenge hstate =>
    split
    · refine { h with challenges := ?_, left := ?_, pending := ?_, online := ?_, accounted := ?_ }
      · exact forall_mem_append.mpr
          ⟨h.challenges, forall_mem_singleton.mpr (h.states c _ (by rw [hstate]; rfl))⟩
      · intro a ha
        rcases mem_append.mp ha with ha | ha
        · exact h.left a ha
        · rw [mem_singleton.mp ha]
      · intro a ha hp
        rcases mem_append.mp ha with ha | ha
        · exact h.pending a ha hp
        · rw [mem_singleton.mp ha]
          exact hopen
      · rintro (hsome | ⟨a, ha, hentering⟩)
        · exact h.online (.inl hsome)
        · rcases mem_append.mp ha with ha | ha
          · exact h.online (.inr ⟨a, ha, hentering⟩)
          · rw [mem_singleton.mp ha] at hentering
            exact absurd hentering (not_entering_authSteps _)
      · exact fun honline => (h.accounted honline).imp_right fun hor => hor.imp_left
          (Exists.imp fun _ => And.imp_left (mem_append_left _))
    · exact { h with }
  · exact { h with }

/-! ### Registering -/

variable [DecidableEq B]

theorem presenceInv_markOnline (h : PresenceInv b s) {k : ℕ}
    (hk : s.authentications[k]? = some ⟨c, challenge, .markOnline :: left⟩) :
    PresenceInv b (authStep
      { s with authentications := s.authentications.set k ⟨c, challenge, left⟩ }
      ⟨c, challenge, left⟩ .markOnline) := by
  have hmem := mem_of_getElem? hk
  obtain ⟨hpending, hnot⟩ := of_markOnline (h.left _ hmem)
  have hbud : challenge.budId = b := h.challenges _ hmem
  refine ⟨h.hellos, h.states, h.challenges_set hk, h.trackers, h.registered, h.closings,
    h.left_set hk, h.current, h.pending_set hk, ?_, ?_⟩
  · intro _
    show (update s.rows challenge.budId _ b).online = true
    rw [hbud, update_self]
  · exact fun _ => .inr (.inl ⟨_, mem_set (List.getElem?_eq_some_iff.mp hk).1 _, hpending, hnot⟩)

theorem presenceInv_registerSession (h : PresenceInv b s) {k : ℕ}
    (hk : s.authentications[k]? = some ⟨c, challenge, .registerTransport :: left⟩) :
    PresenceInv b (registerSession
      { s with authentications := s.authentications.set k ⟨c, challenge, left⟩ }
      ⟨c, challenge, left⟩) := by
  have hmem := mem_of_getElem? hk
  have hleft := h.left _ hmem
  have hbud : challenge.budId = b := h.challenges _ hmem
  have hopen : (s.connections c).closed = false := h.pending _ hmem (mem_cons_self ..)
  have honline : (s.rows b).online = true := h.online (.inr ⟨_, hmem, mem_cons_self ..,
    fun hm => not_markOnline_of_registerTransport hleft ((mem_cons.mp hm).resolve_left nofun)⟩)
  generalize htracker : (⟨s.nextTracker, challenge.budId, c⟩ : SessionTracker B) = tracker
  have htb : tracker.budId = b := by rw [← htracker, ← hbud]
  have htc : tracker.connection = c := by rw [← htracker]
  have hclosed : ∀ c', ((s.setConnection c { s.connections c with tracker := some tracker
      }).connections c').closed = (s.connections c').closed := fun _ => closed_setConnection rfl
  have hsessions : registerActiveSessionTracker s.sessions tracker b = some tracker := by
    rw [registerActiveSessionTracker, htb, update_self]
  rw [registerSession, htracker]
  refine ⟨h.hellos, ?_, h.challenges_set hk, ?_, ?_, ?_, h.left_set hk, ?_, ?_, fun _ => honline,
    ?_⟩
  · exact forall_setConnection (P := fun _ x => ∀ b' ∈ x.state.budId?, b' = b) (h.states c)
      fun c' _ => h.states c'
  · exact forall_setConnection (P := fun _ x => ∀ tracker ∈ x.tracker, tracker.budId = b)
      (fun _ ht => some.inj ht ▸ htb) fun c' _ => h.trackers c'
  · exact forall_mem_append.mpr ⟨h.registered, forall_mem_singleton.mpr htb⟩
  · intro closing hclosing
    exact ⟨(h.closings closing hclosing).1, fun c' hc' =>
      (hclosed c').trans ((h.closings closing hclosing).2 c' hc')⟩
  · intro tracker' ht
    obtain rfl : tracker = tracker' := some.inj (hsessions.symm.trans ht)
    refine ⟨(hclosed _).trans (htc ▸ hopen), ?_⟩
    show ((s.setConnection c _).connections tracker.connection).tracker = some tracker
    rw [htc, connections_setConnection_self]
  · exact fun a ha hp => (hclosed _).trans (h.pending_set hk a ha hp)
  · exact fun _ => .inl fun hnone => nomatch hsessions.symm.trans hnone

/-! ### Closing -/

/-- A tracker is taken out of the map, and the Bud is going to be marked offline. -/
theorem PresenceInv.delete (h : PresenceInv b s) (ht : tracker.budId = b)
    (hcloses : Closes b s connections) (howner : ∀ c ∈ owner, (connections c).closed = true)
    (hbud : budId = b) : PresenceInv b
      { s with
        connections := connections
        sessions := update s.sessions tracker.budId none
        closings := s.closings ++ [⟨owner, budId, offlineSteps⟩] } := by
  have hnone : update s.sessions tracker.budId none b = none := by
    rw [ht, update_self]
  refine ⟨h.hellos, hcloses.states, h.challenges, hcloses.trackers, h.registered, ?_, h.left, ?_,
    hcloses.pending, ?_, ?_⟩
  · intro closing hclosing
    rcases mem_append.mp hclosing with hclosing | hclosing
    · obtain ⟨hb, ho⟩ := h.closings closing hclosing
      exact ⟨hb, fun c hc => hcloses.closed c (ho c hc)⟩
    · rw [mem_singleton.mp hclosing]
      exact ⟨hbud, howner⟩
  · exact fun tracker' ht' => nomatch hnone.symm.trans ht'
  · exact fun hor => h.online (.inr (hor.resolve_left fun hsome => hsome hnone))
  · exact fun _ => .inr (.inr ⟨_, mem_append_right _ (mem_singleton_self _),
      (show .markOffline ∈ offlineSteps by decide)⟩)

theorem deleteSessionTrackerIfCurrent_eq_some {sessions : B → Option (SessionTracker B)}
    {tracker : Option (SessionTracker B)}
    (h : deleteSessionTrackerIfCurrent sessions tracker = some sessions') :
    ∃ current, tracker = some current ∧ sessions current.budId = some current ∧
      sessions' = update sessions current.budId none := by
  cases tracker with
  | none => cases h
  | some current =>
    rw [deleteSessionTrackerIfCurrent] at h
    split at h
    · next hcurrent => exact ⟨current, rfl, hcurrent, (some.inj h).symm⟩
    · cases h

theorem presenceInv_handleClose (h : PresenceInv b s)
    (hidle : ∀ a ∈ s.authentications, a.connection = c → ¬ a.Pending)
    (hheld : (s.connections c).state.isConnected = true ∨ ∀ tracker ∈ s.sessions b,
      tracker.connection ≠ c) : PresenceInv b (handleClose s c) := by
  rw [handleClose]
  dsimp only
  split
  · next budId hstate =>
    have hbud : budId = b := h.states c budId (by rw [hstate]; rfl)
    have hcloses : Closes b s
        (s.setConnection c { s.connections c with closed := true }).connections :=
      h.closes hidle rfl (h.states c) (h.trackers c)
    have hclosed : ((s.setConnection c { s.connections c with closed := true }).connections
        c).closed = true := by
      rw [connections_setConnection_self]
    split
    · next sessions hdelete =>
      obtain ⟨tracker, ht, -, rfl⟩ := deleteSessionTrackerIfCurrent_eq_some hdelete
      exact h.delete (h.trackers c tracker ht) hcloses (fun c' hc' => some.inj hc' ▸ hclosed) hbud
    · next hdelete =>
      refine PresenceInv.superseded (h.close hcloses fun tracker ht => ?_) hclosed hbud
      -- the current tracker is that of another connection
      refine connections_setConnection_of_ne s _ fun hcc => ?_
      have htracker := (h.current tracker ht).2
      rw [hcc] at htracker
      have htb := h.trackers c tracker htracker
      change deleteSessionTrackerIfCurrent s.sessions (s.connections c).tracker = none at hdelete
      rw [htracker, deleteSessionTrackerIfCurrent, htb, if_pos ht] at hdelete
      cases hdelete
  · next hstate =>
    refine h.close (h.closes hidle rfl (by rintro _ ⟨⟩) (by rintro _ ⟨⟩)) fun tracker ht =>
      connections_setConnection_of_ne s _ (hheld.resolve_left ?_ tracker ht)
    intro hconnected
    obtain ⟨budId, hs⟩ := isConnected_iff.mp hconnected
    exact hstate budId hs

/-! ### The other handlers -/

theorem presenceInv_authStep (h : PresenceInv b s) {k : ℕ}
    (hk : s.authentications[k]? = some ⟨c, challenge, next :: left⟩) : PresenceInv b (authStep
      { s with authentications := s.authentications.set k ⟨c, challenge, left⟩ }
      ⟨c, challenge, left⟩ next) := by
  have hbud := h.challenges _ (mem_of_getElem? hk)
  cases next with
  | markOnline => exact presenceInv_markOnline h hk
  | registerTransport => exact presenceInv_registerSession h hk
  | connect =>
    exact (h.setAuthentication hk nofun nofun).setConnection
      (fun b' hb' => (some.inj hb').symm.trans hbud) rfl (.inl rfl)
  | resolveName | completeFlow | registerDevice | acknowledge | emitOnline =>
    exact h.setAuthentication hk nofun nofun

/-- The Bud is marked offline with no tracker in the map and none about to be. -/
theorem presenceInv_markOffline (h : PresenceInv b s) {k : ℕ} {left : List CloseStep}
    (hk : s.closings[k]? = some ⟨owner, budId, .markOffline :: left⟩) (hnone : s.sessions b = none)
    (hidle : ∀ a ∈ s.authentications, ¬ a.Entering) :
    PresenceInv b (closeStep { s with closings := s.closings.set k ⟨owner, budId, left⟩ }
      ⟨owner, budId, left⟩ .markOffline) := by
  obtain ⟨hbud, howner⟩ := h.closings _ (mem_of_getElem? hk)
  have hrow : (update s.rows budId { s.rows budId with online := false } b).online = false := by
    rw [show budId = b from hbud, update_self]
  refine { h with closings := ?_, online := ?_, accounted := ?_ }
  · intro closing hclosing
    rcases mem_or_eq_of_mem_set hclosing with hclosing | rfl
    · exact h.closings closing hclosing
    · exact ⟨hbud, howner⟩
  · rintro (hsome | ⟨a, ha, hentering⟩)
    · exact absurd hnone hsome
    · exact absurd hentering (hidle a ha)
  · exact fun honline => nomatch hrow.symm.trans honline

theorem presenceInv_closing (h : PresenceInv b s) {k : ℕ} {next : CloseStep} {left : List CloseStep}
    (hk : s.closings[k]? = some ⟨owner, budId, next :: left⟩)
    (hoff : next = .markOffline → s.sessions b = none ∧ ∀ a ∈ s.authentications, ¬ a.Entering) :
    PresenceInv b (closeStep
      { s with closings := s.closings.set k ⟨owner, closingBud s owner budId next, left⟩ }
      ⟨owner, closingBud s owner budId next, left⟩ next) := by
  obtain ⟨hbud, howner⟩ := h.closings _ (mem_of_getElem? hk)
  have hbud : budId = b := hbud
  cases next with
  | markOffline => exact presenceInv_markOffline h hk (hoff rfl).1 (hoff rfl).2
  | closeTransport =>
    refine h.setClosing hk nofun ?_
    cases owner with
    | none => exact hbud
    | some c =>
      show (s.connections c).state.budId?.getD budId = b
      cases hb : (s.connections c).state.budId? with
      | none => exact hbud
      | some b' => exact h.states c b' hb
  | finish =>
    have hset := h.setClosing hk nofun hbud
    cases owner with
    | none => exact hset
    | some c => exact hset.setConnection nofun rfl (.inr ⟨rfl, howner c rfl⟩)
  | rejectPending | clearCaches | clearEventBuffers | suspendSessions | emitOffline =>
    exact h.setClosing hk nofun hbud

theorem presenceInv_handleTrackerTimeout (h : PresenceInv b s) (ht : tracker.budId = b) :
    PresenceInv b (handleTrackerTimeout s tracker) := by
  rw [handleTrackerTimeout]
  split
  · next sessions hdelete =>
    obtain ⟨current, hcurrent, -, rfl⟩ := deleteSessionTrackerIfCurrent_eq_some hdelete
    obtain rfl : tracker = current := some.inj hcurrent
    have howner : ∀ c ∈ (none : Option ℕ), (s.connections c).closed = true := by rintro _ ⟨⟩
    exact h.delete ht h.refl_closes howner ht
  · exact h

/-! ### Runs -/

variable [DecidableEq N] [DecidableEq D] [DecidableEq I] {hmac : S → N → D}

/-- **What an undisturbed step preserves.** -/
theorem presenceInv_step (h : PresenceInv b s) (hbud : OfBud b a) (hok : Undisturbed b s a)
    (hs : step hmac s a = some s') : PresenceInv b s' := by
  cases a with
  | hello c frame =>
    rw [step] at hs
    split at hs <;> cases hs
    rw [handleHello]
    split
    · exact h
    · split
      · exact h
      · next budId hframe =>
        refine { h with hellos := ?_ }
        exact forall_mem_append.mpr ⟨h.hellos, forall_mem_singleton.mpr (hbud budId hframe)⟩
  | found k nonce =>
    rw [step] at hs
    split at hs
    · next hello hk =>
      split at hs <;> cases hs
      refine presenceInv_issueChallenge ?_ (h.hellos hello (mem_of_getElem? hk)) nonce
      exact { h with hellos := fun hello hhello => h.hellos hello (mem_of_mem_eraseIdx hhello) }
    · cases hs
  | proof c digest =>
    obtain ⟨hopen, rfl⟩ := Runs.of_guard_not hs
    exact presenceInv_handleHelloProof h (by simpa using hopen) digest
  | authenticate k =>
    rw [step] at hs
    split at hs
    · next c challenge next left hk =>
      cases hs
      exact presenceInv_authStep h hk
    · cases hs
  | close c =>
    rw [step] at hs
    split at hs <;> cases hs
    exact presenceInv_handleClose h hok.1 hok.2
  | closing k =>
    rw [step] at hs
    split at hs
    · next owner budId next left hk =>
      cases hs
      exact presenceInv_closing h hk fun hnext => hok _ hk (congrArg some hnext)
    · cases hs
  | timeout tracker =>
    obtain ⟨hmem, rfl⟩ := Runs.of_guard hs
    obtain ⟨r, hr, rfl⟩ := mem_map.mp hmem
    exact presenceInv_handleTrackerTimeout h (h.registered r hr)
  | stored budId deviceSecret installationId =>
    cases hs
    have hrow : (update s.rows budId
        { s.rows budId with
          deviceSecret := deviceSecret
          installationId := installationId } b).online = (s.rows b).online := by
      by_cases hbb : b = budId
      · rw [hbb, update_self]
      · rw [update_of_ne hbb]
    exact { h with online := fun hor => hrow.trans (h.online hor), accounted := fun honline =>
        h.accounted (hrow.symm.trans honline) }

/-- **Presence.** In every run of the connections of one Bud in which no close disturbs an
authentication and no late transition a newer tracker, the Bud's stored status is `online` exactly
if the map holds a tracker of it whose socket is open, whenever no handler is pending. -/
theorem presence_agrees (hmac : S → N → D) (b : B) :
    ∀ (acts : List (Act B N S D I)) s,
      Runs.Along (step hmac) (fun s a => OfBud b a ∧ Undisturbed b s a) acts init →
        Runs.run (step hmac) acts init = some s → s.Quiescent → Agrees b s := by
  intro acts s hok hrun hq
  have hinv : PresenceInv b s := Runs.invariant_along
    (fun _ _ _ hi hok hs => presenceInv_step hi hok.1 hok.2 hs) hok hrun (presenceInv_init b)
  exact hinv.agrees hq

/-- Of the digests only those of this secret and these nonces are needed. -/
def twoNonces (deviceSecret nonce : String) : String :=
  if deviceSecret = "secret" ∧ nonce = "other" then "aUmY-8WKgcwsuMvyz4Ctx7yGgJKUWgML29wrIKwnYQI"
  else sampleHmac deviceSecret nonce

/-- The second connection is authenticated. -/
def reconnected : List (Act ℕ String String String ℕ) :=
  [.hello 1 ⟨false, some 0, none⟩, .found 0 "other",
    .proof 1 "aUmY-8WKgcwsuMvyz4Ctx7yGgJKUWgML29wrIKwnYQI"] ++ authenticated 1

/-- Closing `k` takes all the steps of an offline transition. -/
def wentOffline (k : ℕ) : List (Act ℕ String String String ℕ) :=
  List.replicate 8 (.closing k)

/-- The first connection is authenticated and closes, and then there is a second. -/
def oneAfterTheOther : List (Act ℕ String String String ℕ) :=
  toChallenge ++ [answer 0] ++ authenticated 0 ++ [.close 0] ++ wentOffline 0 ++ reconnected

theorem presence_agrees_oneAfterTheOther :
    ∃ s, Runs.run (step twoNonces) oneAfterTheOther init = some s ∧ s.Quiescent ∧ Agrees 0 s := by
  obtain ⟨s, hs, hq⟩ := @Runs.exists_end _ _ (step twoNonces) State.Quiescent _ oneAfterTheOther
    init (by decide +kernel)
  exact ⟨s, hs, hq, presence_agrees twoNonces 0 oneAfterTheOther s (by decide +kernel) hs hq⟩

/-- The second connection is authenticated while the first one is on its way offline. -/
def lateTransition : List (Act ℕ String String String ℕ) :=
  toChallenge ++ [answer 0] ++ authenticated 0 ++ [.close 0] ++ reconnected ++ wentOffline 0

/-- The connection closes under its authentication. -/
def closedTooEarly : List (Act ℕ String String String ℕ) :=
  closedUnderProof ++ authenticated 0

/-- The connection says hello once more, and closes. -/
def closedUnproven : List (Act ℕ String String String ℕ) :=
  toChallenge ++ [answer 0] ++ authenticated 0 ++
    [.hello 0 ⟨false, some 0, none⟩, .found 0 "other", .close 0]

/-- **Presence that disagrees.** A Bud with an open tracker is offline for good, and a Bud is online
whose only tracker has a closed socket. -/
theorem presence_disagrees :
    (∃ s, Runs.run (step twoNonces) lateTransition init = some s ∧ s.Quiescent ∧ ¬ Agrees 0 s) ∧
      (∃ s, Runs.run (step twoNonces) closedTooEarly init = some s ∧ s.Quiescent ∧ ¬ Agrees 0 s) ∧
        ∃ s, Runs.run (step twoNonces) closedUnproven init = some s ∧ s.Quiescent ∧
          ¬ Agrees 0 s :=
  ⟨Runs.exists_end (by decide), Runs.exists_end (by decide),
    Runs.exists_end (by decide)⟩

end Bud.Gateway
