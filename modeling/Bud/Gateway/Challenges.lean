import Bud.Gateway.Connections
import Mathlib.Data.List.Infix
import Mathlib.Data.List.Nodup

/-!
# One challenge, one session

A tracker is registered only after a proof with the digest of a nonce that was issued on the same
connection for the same Bud: that holds of every run. That a nonce leads to one session at most does
not: the state stays `awaiting_proof` while the first proof waits for the database, so a second
proof for the same nonce is taken as well. Nor is it so that nothing is registered after the
connection has closed, because an authentication that is under way goes on.

The invariant for one connection, as long as its proofs come one at a time and it does not close
under an authentication: every nonce of a registered tracker, of an authentication that has yet to
register one, and of the challenge that waits for a proof is used only once.
-/

namespace Bud.Gateway

open List

variable {B N S D I : Type*}

def Authentication.Pending (a : Authentication B N S I) : Prop := .registerTransport ∈ a.left

instance (a : Authentication B N S I) : Decidable a.Pending :=
  inferInstanceAs (Decidable (_ ∈ _))

def State.registeredOn (s : State B N S D I) (c : ℕ) : List (Registration B N) :=
  s.registered.filter fun r => r.tracker.connection = c

/-- A proof with the digest of the tracker's nonce, issued on this connection for this Bud, has been
received. -/
def Proven (hmac : S → N → D) (s : State B N S D I) (r : Registration B N) : Prop :=
  ∃ challenge, (r.tracker.connection, challenge) ∈ s.issued ∧
    challenge.budId = r.tracker.budId ∧ challenge.nonce = r.nonce ∧
      (r.tracker.connection, hmac challenge.deviceSecret challenge.nonce) ∈ s.proofs

/-- A proof that is right is the first for its nonce that is under way on the connection. -/
def FirstProof (hmac : S → N → D) (s : State B N S D I) (c : ℕ) (digest : D) :
    ConnectionState B N S I → Prop
  | .awaitingProof challenge => hmac challenge.deviceSecret challenge.nonce = digest →
    ∀ a ∈ s.authentications, a.connection = c → a.challenge.nonce ≠ challenge.nonce
  | _ => True

/-- On the connection, proofs come one at a time, and it does not close under an authentication. -/
def OneAtATime (hmac : S → N → D) (c : ℕ) (s : State B N S D I) : Act B N S D I → Prop
  | .proof c' digest => c' = c → FirstProof hmac s c digest (s.connections c).state
  | .close c' => c' = c → ∀ a ∈ s.authentications, a.connection = c → ¬ a.Pending
  | _ => True

instance [DecidableEq N] [DecidableEq D] (hmac : S → N → D) (s : State B N S D I) (c : ℕ)
    (digest : D) : ∀ state, Decidable (FirstProof hmac s c digest state)
  | .awaitingProof _ => inferInstanceAs (Decidable (_ → ∀ _ ∈ _, _))
  | .awaitingHello | .connected _ | .closed => inferInstanceAs (Decidable True)

instance [DecidableEq N] [DecidableEq D] (hmac : S → N → D) (c : ℕ) (s : State B N S D I) :
    ∀ a, Decidable (OneAtATime hmac c s a)
  | .proof _ _ => inferInstanceAs (Decidable (_ → FirstProof _ _ _ _ _))
  | .close _ => inferInstanceAs (Decidable (_ → ∀ _ ∈ _, _))
  | .hello _ _ | .found _ _ | .authenticate _ | .closing _ | .timeout _ | .stored _ _ _ =>
    inferInstanceAs (Decidable True)

/-! ### The steps of an authentication -/

variable {left : List AuthStep} {s s' : State B N S D I} {c c' : ℕ} {a : Act B N S D I}

/-- Nothing is left to connect or register once the tracker has been registered. -/
theorem of_registerTransport (h : .registerTransport :: left <:+ authSteps flow) :
    .registerTransport ∉ left ∧ .connect ∉ left := by
  have hall : ∀ l ∈ (authSteps flow).tails, l.head? = some .registerTransport →
      .registerTransport ∉ l.tail ∧ .connect ∉ l.tail := by
    cases flow <;> decide
  exact hall _ ((mem_tails _ _).mpr h) rfl

theorem connect_mem_authSteps (flow : Bool) : .connect ∈ authSteps flow := by
  cases flow <;> decide

/-! ### What has been proven -/

/-- The histories only grow. -/
structure Grows (s s' : State B N S D I) : Prop where
  issued : ∀ x ∈ s.issued, x ∈ s'.issued
  proofs : ∀ x ∈ s.proofs, x ∈ s'.proofs

theorem Proven.mono {hmac : S → N → D} (h : Proven hmac s r) (hg : Grows s s') :
    Proven hmac s' r := by
  obtain ⟨challenge, hissued, hbud, hnonce, hproof⟩ := h
  exact ⟨challenge, hg.issued _ hissued, hbud, hnonce, hg.proofs _ hproof⟩

/-- An authentication answers a challenge that was issued on its connection, with its digest. -/
structure Answers (hmac : S → N → D) (s : State B N S D I) (a : Authentication B N S I) : Prop where
  issued : (a.connection, a.challenge) ∈ s.issued
  proof : (a.connection, hmac a.challenge.deviceSecret a.challenge.nonce) ∈ s.proofs
  left : a.left <:+ authSteps a.challenge.installationId.isSome

structure ProvenInv (hmac : S → N → D) (s : State B N S D I) : Prop where
  nonces : (s.issued.map fun c => c.2.nonce).Nodup
  awaiting : ∀ c challenge, (s.connections c).state = .awaitingProof challenge →
    (c, challenge) ∈ s.issued
  authentications : ∀ a ∈ s.authentications, Answers hmac s a
  registered : ∀ r ∈ s.registered, Proven hmac s r

theorem provenInv_init (hmac : S → N → D) : ProvenInv hmac (init : State B N S D I) :=
  ⟨nodup_nil, nofun, nofun, nofun⟩

/-! ### What is used only once -/

theorem mem_registeredOn : r ∈ s.registeredOn c ↔ r ∈ s.registered ∧ r.tracker.connection = c := by
  rw [State.registeredOn, mem_filter, decide_eq_true_iff]

structure OnceInv (c : ℕ) (s : State B N S D I) : Prop where
  single : ∀ (i j : ℕ) (a b : Authentication B N S I), s.authentications[i]? = some a →
    s.authentications[j]? = some b → a.connection = c → b.connection = c → a.Pending → b.Pending →
      a.challenge.nonce = b.challenge.nonce → i = j
  apart : ∀ a ∈ s.authentications, a.connection = c → a.Pending →
    ∀ r ∈ s.registeredOn c, r.nonce ≠ a.challenge.nonce
  nodup : ((s.registeredOn c).map Registration.nonce).Nodup
  awaiting : ∀ challenge, (s.connections c).state = .awaitingProof challenge →
    (∀ r ∈ s.registeredOn c, r.nonce ≠ challenge.nonce) ∧
      ∀ a ∈ s.authentications, a.connection = c → a.challenge.nonce = challenge.nonce →
        .connect ∈ a.left
  closed : (s.connections c).closed = true →
    ∀ a ∈ s.authentications, a.connection = c → ¬ a.Pending

theorem onceInv_init (c : ℕ) : OnceInv c (init : State B N S D I) :=
  ⟨nofun, nofun, nodup_nil, nofun, nofun⟩

theorem OnceInv.keep (h : OnceInv c s) (hauth : s'.authentications = s.authentications)
    (hreg : s'.registered = s.registered)
    (hstate : ∀ challenge, (s'.connections c).state = .awaitingProof challenge → (s.connections
      c).state = .awaitingProof challenge)
    (hclosed : (s'.connections c).closed = true → (s.connections c).closed = true ∨ ∀ a ∈
      s.authentications, a.connection = c → ¬ a.Pending) : OnceInv c s' := by
  have hregOn : s'.registeredOn c = s.registeredOn c := by
    rw [State.registeredOn, hreg, State.registeredOn]
  refine ⟨hauth ▸ h.single, ?_, ?_, ?_, ?_⟩
  · rw [hauth, hregOn]
    exact h.apart
  · rw [hregOn]
    exact h.nodup
  · intro challenge hc
    rw [hauth, hregOn]
    exact h.awaiting challenge (hstate challenge hc)
  · intro hc
    rw [hauth]
    exact (hclosed hc).elim h.closed id

/-- The authentications after one of them has taken a step: each is what it was, or has less left.
-/
theorem authentication_of_set {l : List (Authentication B N S I)} {challenge : Challenge B N S I}
    {next : AuthStep} (hk : l[k]? = some ⟨c', challenge, next :: left⟩)
    (hb : (l.set k ⟨c', challenge, left⟩)[i]? = some b) :
    (i = k ∧ b = ⟨c', challenge, left⟩) ∨ i ≠ k ∧ l[i]? = some b := by
  by_cases hik : i = k
  · subst hik
    rw [getElem?_set_self (List.getElem?_eq_some_iff.mp hk).1] at hb
    exact .inl ⟨rfl, (Option.some.inj hb).symm⟩
  · rw [getElem?_set_ne (Ne.symm hik)] at hb
    exact .inr ⟨hik, hb⟩

theorem OnceInv.step (h : OnceInv c s) {k : ℕ} {challenge : Challenge B N S I} {next : AuthStep}
    (hk : s.authentications[k]? = some ⟨c', challenge, next :: left⟩)
    (hleft : next :: left <:+ authSteps challenge.installationId.isSome)
    (hauth : s'.authentications = s.authentications.set k ⟨c', challenge, left⟩)
    (hreg : s'.registeredOn c = s.registeredOn c ∨ next = .registerTransport ∧ c' = c ∧ ∃ r :
      Registration B N, r.nonce = challenge.nonce ∧ s'.registeredOn c = s.registeredOn c ++ [r])
    (hstate : ∀ challenge', (s'.connections c).state = .awaitingProof challenge' → (s.connections
      c).state = .awaitingProof challenge' ∧ (c' = c → next ≠ .connect))
    (hclosed : (s'.connections c).closed = (s.connections c).closed) : OnceInv c s' := by
  have hmem := mem_of_getElem? hk
  -- what was pending is, and what is left was
  have hold : ∀ (i : ℕ) (b : Authentication B N S I), s'.authentications[i]? = some b →
      ∃ a, s.authentications[i]? = some a ∧ b.connection = a.connection ∧
        b.challenge = a.challenge ∧ (b.Pending → a.Pending) := by
    intro i b hb
    rw [hauth] at hb
    rcases authentication_of_set hk hb with ⟨rfl, rfl⟩ | ⟨-, hb⟩
    · exact ⟨_, hk, rfl, rfl, fun hp => mem_cons_of_mem _ hp⟩
    · exact ⟨b, hb, rfl, rfl, id⟩
  refine ⟨?_, ?_, ?_, ?_, ?_⟩
  · intro i j a b ha hb hac hbc hap hbp hnonce
    obtain ⟨a₀, ha₀, hac₀, hach, hap₀⟩ := hold i a ha
    obtain ⟨b₀, hb₀, hbc₀, hbch, hbp₀⟩ := hold j b hb
    exact h.single i j a₀ b₀ ha₀ hb₀ (hac₀ ▸ hac) (hbc₀ ▸ hbc) (hap₀ hap) (hbp₀ hbp)
      (hach ▸ hbch ▸ hnonce)
  · intro b hb hbc hbp r hr
    obtain ⟨i, hi⟩ := getElem?_of_mem hb
    obtain ⟨a, ha, hac, hach, hap⟩ := hold i b hi
    rw [hach]
    have hapart := h.apart a (mem_of_getElem? ha) (hac ▸ hbc) (hap hbp)
    rcases hreg with hreg | ⟨rfl, rfl, r', hr', hreg⟩
    · exact hapart r (hreg ▸ hr)
    · rw [hreg] at hr
      rcases mem_append.mp hr with hr | hr
      · exact hapart r hr
      · -- the one that registers the tracker is no longer pending
        rw [mem_singleton.mp hr, hr']
        intro hnonce
        obtain rfl : k = i := h.single k i _ a hk ha rfl (hac ▸ hbc) (mem_cons_self ..)
          (hap hbp) hnonce
        rw [hauth] at hi
        rcases authentication_of_set hk hi with ⟨-, rfl⟩ | ⟨hne, -⟩
        · exact (of_registerTransport hleft).1 hbp
        · exact hne rfl
  · rcases hreg with hreg | ⟨rfl, rfl, r', hr', hreg⟩
    · rw [hreg]
      exact h.nodup
    · rw [hreg, map_append, nodup_append]
      refine ⟨h.nodup, nodup_singleton _, ?_⟩
      rintro n hn m hm rfl
      obtain ⟨r, hr, rfl⟩ := mem_map.mp hn
      refine h.apart _ hmem rfl (mem_cons_self ..) r hr ?_
      rw [← hr']
      exact mem_singleton.mp hm
  · intro challenge' hc
    obtain ⟨hc, hconnect⟩ := hstate challenge' hc
    obtain ⟨hregs, hauths⟩ := h.awaiting challenge' hc
    constructor
    · intro r hr
      rcases hreg with hreg | ⟨rfl, rfl, r', hr', hreg⟩
      · exact hregs r (hreg ▸ hr)
      · rw [hreg] at hr
        rcases mem_append.mp hr with hr | hr
        · exact hregs r hr
        · rw [mem_singleton.mp hr, hr']
          intro hnonce
          rcases mem_cons.mp (hauths _ hmem rfl hnonce) with hcon | hcon
          · cases hcon
          · exact (of_registerTransport hleft).2 hcon
    · intro b hb hbc hnonce
      rw [hauth] at hb
      rcases mem_or_eq_of_mem_set hb with hb | rfl
      · exact hauths b hb hbc hnonce
      · refine (mem_cons.mp (hauths _ hmem hbc hnonce)).resolve_left ?_
        exact fun hcon => hconnect hbc hcon.symm
  · intro hc b hb hbc hbp
    obtain ⟨i, hi⟩ := getElem?_of_mem hb
    obtain ⟨a, ha, hac, -, hap⟩ := hold i b hi
    exact h.closed (hclosed ▸ hc) a (mem_of_getElem? ha) (hac ▸ hbc) (hap hbp)

/-! ### What a step does -/

/-- Beside the connections only what is not read here has changed. -/
structure Beside (s s' : State B N S D I) : Prop where
  authentications : s'.authentications = s.authentications
  registered : s'.registered = s.registered
  issued : s'.issued = s.issued
  proofs : s'.proofs = s.proofs

/-- What a step does to the connections, and what it adds to the authentications and the
histories. -/
inductive Went [DecidableEq B] (hmac : S → N → D) (s : State B N S D I) :
    Act B N S D I → State B N S D I → Prop
  | aside {act t} : t.connections = s.connections → Beside s t → Went hmac s act t
  | connection {act t} (c : ℕ) (connection : Connection B N S I) :
    connection.closed = (s.connections c).closed ∨ act = .close c ∧ connection.closed = true →
    (∀ challenge, connection.state = .awaitingProof challenge →
      (s.connections c).state = .awaitingProof challenge) →
    t.connections = (s.setConnection c connection).connections → Beside s t → Went hmac s act t
  | challenged {act t} (c : ℕ) (challenge : Challenge B N S I) :
    challenge.nonce ∉ s.issued.map (fun c => c.2.nonce) →
    t.connections = (s.setState c (.awaitingProof challenge)).connections →
    Beside { s with issued := s.issued ++ [(c, challenge)] } t → Went hmac s act t
  | proof {c digest t} : (s.connections c).closed = false → t.connections = s.connections →
    (Beside { s with proofs := s.proofs ++ [(c, digest)] } t ∨
      ∃ challenge, (s.connections c).state = .awaitingProof challenge ∧
        hmac challenge.deviceSecret challenge.nonce = digest ∧
        Beside { s with
          proofs := s.proofs ++ [(c, digest)]
          authentications :=
            s.authentications ++ [⟨c, challenge, authSteps challenge.installationId.isSome⟩] } t) →
    Went hmac s (.proof c digest) t
  | authenticated {act} (k c : ℕ) (challenge : Challenge B N S I) (next : AuthStep)
      (left : List AuthStep) : s.authentications[k]? = some ⟨c, challenge, next :: left⟩ →
    Went hmac s act (authStep
      { s with authentications := s.authentications.set k ⟨c, challenge, left⟩ }
      ⟨c, challenge, left⟩ next)

theorem went_of_step [DecidableEq B] [DecidableEq N] [DecidableEq D] [DecidableEq I]
    {hmac : S → N → D} (hs : step hmac s a = some s') : Went hmac s a s' := by
  cases a with
  | hello c frame =>
    obtain ⟨-, rfl⟩ := Runs.of_guard_not hs
    rw [handleHello]
    split
    · exact .aside rfl ⟨rfl, rfl, rfl, rfl⟩
    · split <;> exact .aside rfl ⟨rfl, rfl, rfl, rfl⟩
  | found k nonce =>
    rw [step] at hs
    split at hs
    · next hello hk =>
      obtain ⟨hfresh, rfl⟩ := Runs.of_guard_not hs
      rw [issueChallenge]
      dsimp only
      split
      · exact .aside rfl ⟨rfl, rfl, rfl, rfl⟩
      · split
        · exact .aside rfl ⟨rfl, rfl, rfl, rfl⟩
        · exact .challenged hello.connection _ hfresh rfl ⟨rfl, rfl, rfl, rfl⟩
    · cases hs
  | proof c digest =>
    obtain ⟨hopen, rfl⟩ := Runs.of_guard_not hs
    rw [handleHelloProof]
    dsimp only
    split
    · next challenge hc =>
      split
      · next hdigest =>
        exact .proof (by simpa using hopen) rfl
          (.inr ⟨challenge, hc, hdigest, ⟨rfl, rfl, rfl, rfl⟩⟩)
      · exact .proof (by simpa using hopen) rfl (.inl ⟨rfl, rfl, rfl, rfl⟩)
    · exact .proof (by simpa using hopen) rfl (.inl ⟨rfl, rfl, rfl, rfl⟩)
  | authenticate k =>
    rw [step] at hs
    split at hs
    · next hk =>
      cases hs
      exact .authenticated k _ _ _ _ hk
    · cases hs
  | close c =>
    obtain ⟨-, rfl⟩ := Runs.of_guard_not hs
    rw [handleClose]
    dsimp only
    split
    · split <;>
        exact .connection c { s.connections c with closed := true } (.inr ⟨rfl, rfl⟩) (fun _ => id)
          rfl ⟨rfl, rfl, rfl, rfl⟩
    · exact .connection c ⟨.closed, none, true⟩ (.inr ⟨rfl, rfl⟩) nofun rfl ⟨rfl, rfl, rfl, rfl⟩
  | closing k =>
    rw [step] at hs
    split at hs
    · next owner budId next left hk =>
      cases hs
      cases next with
      | finish =>
        cases owner with
        | none => exact .aside rfl ⟨rfl, rfl, rfl, rfl⟩
        | some c =>
          exact .connection c ⟨.closed, none, (s.connections c).closed⟩ (.inl rfl) nofun rfl
            ⟨rfl, rfl, rfl, rfl⟩
      | _ => exact .aside rfl ⟨rfl, rfl, rfl, rfl⟩
    · cases hs
  | timeout tracker =>
    obtain ⟨-, rfl⟩ := Runs.of_guard hs
    rw [handleTrackerTimeout]
    split <;> exact .aside rfl ⟨rfl, rfl, rfl, rfl⟩
  | stored budId deviceSecret installationId =>
    cases hs
    exact .aside rfl ⟨rfl, rfl, rfl, rfl⟩

/-! ### The connections -/

variable {connection : Connection B N S I} {challenge challenge' : Challenge B N S I}

theorem state_setConnection
    (h : ∀ challenge, connection.state = .awaitingProof challenge →
      (s.connections c).state = .awaitingProof challenge) (c' : ℕ)
    (challenge : Challenge B N S I) :
    ((s.setConnection c connection).connections c').state = .awaitingProof challenge →
      (s.connections c').state = .awaitingProof challenge :=
  forall_setConnection (P := fun c' x => x.state = .awaitingProof challenge →
    (s.connections c').state = .awaitingProof challenge) (h challenge) (fun _ _ => id) c'

theorem state_setState
    (h : ((s.setState c' (.awaitingProof challenge)).connections c).state =
      .awaitingProof challenge') :
    c = c' ∧ challenge' = challenge ∨ (s.connections c).state = .awaitingProof challenge' := by
  by_cases hcc : c = c'
  · subst hcc
    rw [State.setState, connections_setConnection_self] at h
    cases h
    exact .inl ⟨rfl, rfl⟩
  · rw [State.setState, connections_setConnection_of_ne s _ hcc] at h
    exact .inr h

theorem closed_setState : ((s.setState c' state).connections c).closed = (s.connections c).closed :=
  closed_setConnection rfl

theorem connections_authStep [DecidableEq B] (s : State B N S D I) (a : Authentication B N S I)
    (next : AuthStep) (c : ℕ) :
    ((authStep s a next).connections c).closed = (s.connections c).closed ∧
      ∀ challenge, ((authStep s a next).connections c).state = .awaitingProof challenge →
        (s.connections c).state = .awaitingProof challenge ∧
          (a.connection = c → next ≠ .connect) := by
  cases next with
  | connect =>
    refine ⟨closed_setConnection rfl, fun challenge hc => ?_⟩
    have hc : ((s.setState a.connection (.connected a.challenge.budId)).connections c).state =
        .awaitingProof challenge := hc
    by_cases hcc : c = a.connection
    · subst hcc
      rw [State.setState, connections_setConnection_self] at hc
      cases hc
    · rw [State.setState, connections_setConnection_of_ne s _ hcc] at hc
      exact ⟨hc, fun hac => absurd hac.symm hcc⟩
  | registerTransport =>
    have hstate := @state_setConnection B N S D I s a.connection
      { s.connections a.connection with
        tracker := some ⟨s.nextTracker, a.challenge.budId, a.connection⟩ } (fun _ => id)
    exact ⟨closed_setConnection rfl, fun challenge hc => ⟨hstate c challenge hc, fun _ => nofun⟩⟩
  | _ => exact ⟨rfl, fun challenge hc => ⟨hc, fun _ => nofun⟩⟩

theorem registeredOn_authStep [DecidableEq B] (s : State B N S D I) (a : Authentication B N S I)
    (next : AuthStep) (c : ℕ) : (authStep s a next).registeredOn c = s.registeredOn c ∨
      next = .registerTransport ∧ a.connection = c ∧
        ∃ r : Registration B N, r.nonce = a.challenge.nonce ∧
          (authStep s a next).registeredOn c = s.registeredOn c ++ [r] := by
  cases next with
  | registerTransport =>
    show (filter _ (s.registered ++ [_])) = _ ∨ _
    by_cases hcc : a.connection = c
    · refine .inr ⟨rfl, hcc, ⟨⟨s.nextTracker, a.challenge.budId, a.connection⟩,
        a.challenge.nonce⟩, rfl, ?_⟩
      show filter _ (s.registered ++ [_]) = _
      rw [filter_append, filter_cons_of_pos (by simpa using hcc), filter_nil]
      rfl
    · left
      rw [filter_append, filter_cons_of_neg (by simpa using hcc), filter_nil,
        append_nil]
      rfl
  | _ => exact .inl rfl

/-! ### One step -/

variable {hmac : S → N → D}

theorem ProvenInv.keep (h : ProvenInv hmac s) (hissued : s'.issued = s.issued)
    (hproofs : s'.proofs = s.proofs)
    (hstate : ∀ c challenge, (s'.connections c).state = .awaitingProof challenge → (s.connections
      c).state = .awaitingProof challenge) (hauth : ∀ a ∈ s'.authentications, Answers hmac s a)
    (hreg : ∀ r ∈ s'.registered, Proven hmac s r) : ProvenInv hmac s' where
  nonces := hissued ▸ h.nonces
  awaiting c challenge hc := hissued ▸ h.awaiting c challenge (hstate c challenge hc)
  authentications a ha := by
    obtain ⟨hi, hp, hl⟩ := hauth a ha
    exact ⟨hissued ▸ hi, hproofs ▸ hp, hl⟩
  registered r hr :=
    (hreg r hr).mono ⟨fun _ hx => hissued ▸ hx, fun _ hx => hproofs ▸ hx⟩

theorem ProvenInv.beside (h : ProvenInv hmac s) (hb : Beside s s')
    (hstate : ∀ c challenge, (s'.connections c).state = .awaitingProof challenge →
      (s.connections c).state = .awaitingProof challenge) : ProvenInv hmac s' :=
  h.keep hb.issued hb.proofs hstate (hb.authentications ▸ h.authentications)
    (hb.registered ▸ h.registered)

theorem ProvenInv.grow (h : ProvenInv hmac s) (hg : Grows s s')
    (hauth : ∀ a ∈ s'.authentications, a ∈ s.authentications ∨ Answers hmac s' a)
    (hreg : s'.registered = s.registered) (hnonces : (s'.issued.map fun c => c.2.nonce).Nodup)
    (hawaiting : ∀ c challenge, (s'.connections c).state = .awaitingProof challenge →
      (c, challenge) ∈ s'.issued) : ProvenInv hmac s' where
  nonces := hnonces
  awaiting := hawaiting
  authentications a ha := (hauth a ha).elim (fun ha =>
    have h := h.authentications a ha
    ⟨hg.issued _ h.issued, hg.proofs _ h.proof, h.left⟩) id
  registered r hr := (h.registered r (hreg ▸ hr)).mono hg

variable [DecidableEq B]

theorem provenInv_authStep (h : ProvenInv hmac s) {a : Authentication B N S I}
    (ha : Answers hmac s a) (next : AuthStep) : ProvenInv hmac (authStep s a next) := by
  have hstate : ∀ c challenge, ((authStep s a next).connections c).state =
      .awaitingProof challenge → (s.connections c).state = .awaitingProof challenge :=
    fun c challenge hc => ((connections_authStep s a next c).2 challenge hc).1
  cases next with
  | registerTransport =>
    refine h.keep rfl rfl hstate h.authentications fun r hr => ?_
    rcases mem_append.mp hr with hr | hr
    · exact h.registered r hr
    · rw [mem_singleton.mp hr]
      exact ⟨a.challenge, ha.issued, rfl, rfl, ha.proof⟩
  | _ => exact h.keep rfl rfl hstate h.authentications h.registered

variable [DecidableEq N] [DecidableEq D] [DecidableEq I]

theorem proven_step (h : ProvenInv hmac s) (hs : step hmac s a = some s') : ProvenInv hmac s' := by
  cases went_of_step hs with
  | aside hconn hb => exact h.beside hb fun _ _ hc => hconn ▸ hc
  | connection c connection _ hstate hconn hb =>
    exact h.beside hb fun c' challenge hc => state_setConnection hstate c' challenge (hconn ▸ hc)
  | challenged c challenge hfresh hconn hb =>
    refine h.grow ⟨hb.issued ▸ fun _ => mem_append_left _, hb.proofs ▸ fun _ => id⟩
      (fun a ha => .inl (hb.authentications ▸ ha)) hb.registered ?_ fun c' challenge' hc => ?_
    · rw [hb.issued, map_append, nodup_append]
      refine ⟨h.nonces, nodup_singleton _, ?_⟩
      rintro n hn m hm rfl
      rw [mem_singleton.mp hm] at hn
      exact hfresh hn
    · rw [hb.issued]
      rcases state_setState (hconn ▸ hc) with ⟨rfl, rfl⟩ | hc
      · exact mem_append_right _ (mem_singleton_self _)
      · exact mem_append_left _ (h.awaiting c' challenge' hc)
  | @proof c digest _ _ hconn hb =>
    have hgrow : s'.issued = s.issued → s'.proofs = s.proofs ++ [(c, digest)] →
        s'.registered = s.registered → (∀ a ∈ s'.authentications, a ∈ s.authentications ∨
          Answers hmac s' a) → ProvenInv hmac s' := fun hissued hproofs hreg hauth =>
      h.grow ⟨hissued ▸ fun _ => id, hproofs ▸ fun _ => mem_append_left _⟩ hauth hreg
        (hissued ▸ h.nonces) fun c challenge hc => hissued ▸ h.awaiting c challenge (hconn ▸ hc)
    rcases hb with hb | ⟨challenge, hc, hdigest, hb⟩
    · exact hgrow hb.issued hb.proofs hb.registered fun a ha => .inl (hb.authentications ▸ ha)
    · refine hgrow hb.issued hb.proofs hb.registered fun a ha => ?_
      rw [hb.authentications] at ha
      refine (mem_append.mp ha).imp_right fun ha => ?_
      rw [mem_singleton.mp ha]
      refine ⟨hb.issued ▸ h.awaiting c challenge hc, ?_, suffix_refl _⟩
      rw [hb.proofs, hdigest]
      exact mem_append_right _ (mem_singleton_self _)
  | authenticated k c challenge next left hk =>
    obtain ⟨hissued, hproof, hleft⟩ := h.authentications _ (mem_of_getElem? hk)
    have ha : Answers hmac s ⟨c, challenge, left⟩ :=
      ⟨hissued, hproof, (suffix_cons next left).trans hleft⟩
    have hset : ProvenInv hmac
        { s with authentications := s.authentications.set k ⟨c, challenge, left⟩ } := by
      refine h.keep rfl rfl (fun _ _ => id) (fun b hb => ?_) h.registered
      rcases mem_or_eq_of_mem_set hb with hb | rfl
      · exact h.authentications b hb
      · exact ha
    exact provenInv_authStep hset ⟨ha.issued, ha.proof, ha.left⟩ next

omit [DecidableEq B] [DecidableEq N] [DecidableEq D] [DecidableEq I] in
theorem OnceInv.challenged (h : OnceInv c s) (hproven : ProvenInv hmac s)
    (hfresh : challenge.nonce ∉ s.issued.map fun c => c.2.nonce)
    (hconn : s'.connections = (s.setState c' (.awaitingProof challenge)).connections)
    (hauth : s'.authentications = s.authentications) (hreg : s'.registered = s.registered) :
    OnceInv c s' := by
  have hused : ∀ x ∈ s.issued, x.2.nonce ≠ challenge.nonce := fun x hx heq =>
    hfresh (heq ▸ mem_map_of_mem hx)
  have hregOn : s'.registeredOn c = s.registeredOn c := by
    rw [State.registeredOn, hreg, State.registeredOn]
  refine ⟨hauth ▸ h.single, ?_, hregOn ▸ h.nodup, fun challenge' hc => ?_, fun hc => ?_⟩
  · rw [hauth, hregOn]
    exact h.apart
  · rw [hauth, hregOn]
    rcases state_setState (hconn ▸ hc) with ⟨rfl, rfl⟩ | hc
    · constructor
      · intro r hr
        obtain ⟨challenge, hissued, -, hnonce, -⟩ := hproven.registered r (mem_registeredOn.mp hr).1
        rw [← hnonce]
        exact hused _ hissued
      · intro a ha _ hnonce
        exact absurd hnonce (hused _ (hproven.authentications a ha).issued)
    · exact h.awaiting challenge' hc
  · rw [hauth]
    rw [hconn, closed_setState] at hc
    exact h.closed hc

omit [DecidableEq B] [DecidableEq N] [DecidableEq D] [DecidableEq I] in
/-- An authentication begins, with a proof that is the first for its nonce. -/
theorem OnceInv.append (h : OnceInv c s) {new : Authentication B N S I}
    (hconn : s'.connections = s.connections) (hreg : s'.registered = s.registered)
    (hauth : s'.authentications = s.authentications ++ [new])
    (hc : (s.connections new.connection).state = .awaitingProof new.challenge)
    (hopen : (s.connections new.connection).closed = false) (hleft : .connect ∈ new.left)
    (hother : new.connection = c → ∀ a ∈ s.authentications, a.connection = c →
      a.challenge.nonce ≠ new.challenge.nonce) : OnceInv c s' := by
  have hregOn : s'.registeredOn c = s.registeredOn c := by
    rw [State.registeredOn, hreg, State.registeredOn]
  have hget : ∀ (i : ℕ) (a : Authentication B N S I), s'.authentications[i]? = some a →
      s.authentications[i]? = some a ∨ i = s.authentications.length ∧ a = new := by
    intro i a ha
    rw [hauth] at ha
    rcases Nat.lt_or_ge i s.authentications.length with hi | hi
    · exact .inl (getElem?_append_left hi ▸ ha)
    · rw [getElem?_append_right hi] at ha
      obtain ⟨hlt, heq⟩ := List.getElem?_eq_some_iff.mp ha
      have hlt : i - s.authentications.length < 1 := hlt
      exact .inr ⟨by omega, heq ▸ mem_singleton.mp (getElem_mem _)⟩
  refine ⟨?_, ?_, hregOn ▸ h.nodup, ?_, ?_⟩
  · intro i j a b ha hb hac hbc hap hbp hnonce
    rcases hget i a ha with ha' | ⟨rfl, rfl⟩
    · rcases hget j b hb with hb' | ⟨rfl, rfl⟩
      · exact h.single i j a b ha' hb' hac hbc hap hbp hnonce
      · exact absurd hnonce (hother hbc a (mem_of_getElem? ha') hac)
    · rcases hget j b hb with hb' | ⟨rfl, rfl⟩
      · exact absurd hnonce.symm (hother hac b (mem_of_getElem? hb') hbc)
      · rfl
  · rw [hauth, hregOn]
    intro a ha hac hap
    rcases mem_append.mp ha with ha | ha
    · exact h.apart a ha hac hap
    · obtain rfl := mem_singleton.mp ha
      exact (h.awaiting _ (hac ▸ hc)).1
  · rw [hconn, hauth, hregOn]
    intro challenge' hc'
    refine (h.awaiting challenge' hc').imp_right fun hauths a ha hac hnonce => ?_
    rcases mem_append.mp ha with ha | ha
    · exact hauths a ha hac hnonce
    · rwa [mem_singleton.mp ha]
  · rw [hconn, hauth]
    intro hclosed a ha hac
    rcases mem_append.mp ha with ha | ha
    · exact h.closed hclosed a ha hac
    · obtain rfl := mem_singleton.mp ha
      subst hac
      exact absurd (hopen.symm.trans hclosed) nofun

theorem once_step (h : OnceInv c s) (hproven : ProvenInv hmac s) (hok : OneAtATime hmac c s a)
    (hs : step hmac s a = some s') : OnceInv c s' := by
  cases went_of_step hs with
  | aside hconn hb =>
    exact h.keep hb.authentications hb.registered (fun _ hc => hconn ▸ hc) fun hc =>
      .inl (hconn ▸ hc)
  | connection c' connection hclosed hstate hconn hb =>
    refine h.keep hb.authentications hb.registered
      (fun challenge hc => state_setConnection hstate c challenge (hconn ▸ hc)) fun hc => ?_
    rcases hclosed with hclosed | ⟨rfl, -⟩
    · rw [hconn, closed_setConnection hclosed] at hc
      exact .inl hc
    · by_cases hcc : c = c'
      · exact .inr (hok hcc.symm)
      · rw [hconn, connections_setConnection_of_ne s _ hcc] at hc
        exact .inl hc
  | challenged c' challenge hfresh hconn hb =>
    exact h.challenged hproven hfresh hconn hb.authentications hb.registered
  | @proof c' digest _ hopen hconn hb =>
    rcases hb with hb | ⟨challenge, hc, hdigest, hb⟩
    · exact h.keep hb.authentications hb.registered (fun _ hc => hconn ▸ hc) fun hc =>
        .inl (hconn ▸ hc)
    · refine h.append hconn hb.registered hb.authentications hc hopen (connect_mem_authSteps _) ?_
      rintro rfl
      have hfirst : FirstProof hmac s c' digest (s.connections c').state := hok rfl
      rw [hc] at hfirst
      exact hfirst hdigest
  | authenticated k c' challenge next left hk =>
    obtain ⟨hclosed, hstate⟩ := connections_authStep
      { s with authentications := s.authentications.set k ⟨c', challenge, left⟩ }
      ⟨c', challenge, left⟩ next c
    refine h.step hk (hproven.authentications _ (mem_of_getElem? hk)).left ?_
      (registeredOn_authStep _ _ next c) hstate hclosed
    cases next <;> rfl

/-! ### After the connection has closed -/

theorem closed_step (hc : (s.connections c).closed = true) (hs : step hmac s a = some s') :
    (s'.connections c).closed = true := by
  cases went_of_step hs with
  | aside hconn _ | proof _ hconn _ => rwa [hconn]
  | connection c' connection hclosed _ hconn _ =>
    rw [hconn]
    rcases hclosed with hclosed | ⟨-, hclosed⟩
    · rwa [closed_setConnection hclosed]
    · by_cases hcc : c = c'
      · subst hcc
        rwa [connections_setConnection_self]
      · rwa [connections_setConnection_of_ne s _ hcc]
  | challenged c' challenge _ hconn _ => rwa [hconn, closed_setState]
  | authenticated k c' challenge next left hk => rwa [(connections_authStep _ _ _ c).1]

theorem registeredOn_step (hidle : ∀ a ∈ s.authentications, a.connection = c → ¬ a.Pending)
    (hs : step hmac s a = some s') : s'.registeredOn c = s.registeredOn c := by
  have hkept : s'.registered = s.registered → s'.registeredOn c = s.registeredOn c := fun hreg => by
    rw [State.registeredOn, hreg, State.registeredOn]
  cases went_of_step hs with
  | aside _ hb | connection _ _ _ _ _ hb | challenged _ _ _ _ hb => exact hkept hb.registered
  | proof _ _ hb => exact hkept (hb.elim (·.registered) fun ⟨_, _, _, hb⟩ => hb.registered)
  | authenticated k c' challenge next left hk =>
    rcases registeredOn_authStep
      { s with authentications := s.authentications.set k ⟨c', challenge, left⟩ }
      ⟨c', challenge, left⟩ next c with hreg | ⟨rfl, hcc, -⟩
    · exact hreg
    · exact absurd (mem_cons_self ..) (hidle _ (mem_of_getElem? hk) hcc)

/-! ### Runs -/

/-- **One challenge, one session.** In every run a tracker is registered only after its nonce,
issued on this connection for this Bud, has been proven. In every run that is one at a time on a
connection, a nonce leads to one tracker of it at most, and to none once it has closed. -/
theorem challenge_once (hmac : S → N → D) :
    (∀ (acts : List (Act B N S D I)) s, Runs.run (step hmac) acts init = some s →
      ∀ r ∈ s.registered, Proven hmac s r) ∧
      ∀ c (acts : List (Act B N S D I)) s, Runs.Along (step hmac) (OneAtATime hmac c) acts init →
        Runs.run (step hmac) acts init = some s →
          ((s.registeredOn c).map Registration.nonce).Nodup ∧
            ∀ bs cs t, acts = bs ++ cs → Runs.run (step hmac) bs init = some t →
              (t.connections c).closed = true → s.registeredOn c = t.registeredOn c := by
  have hproven : ∀ (acts : List (Act B N S D I)) s, Runs.run (step hmac) acts init = some s →
      ProvenInv hmac s :=
    fun acts s hrun => Runs.invariant (fun _ _ _ hi hs => proven_step hi hs) hrun
      (provenInv_init hmac)
  have honce : ∀ c (acts : List (Act B N S D I)) s,
      Runs.Along (step hmac) (OneAtATime hmac c) acts init →
        Runs.run (step hmac) acts init = some s → OnceInv c s ∧ ProvenInv hmac s :=
    fun c acts s hok hrun => @Runs.invariant_along _ _ (step hmac)
      (fun s => OnceInv c s ∧ ProvenInv hmac s) (OneAtATime hmac c)
      (fun _ _ _ hi hok hs => ⟨once_step hi.1 hi.2 hok hs, proven_step hi.2 hs⟩) acts init s hok
      hrun ⟨onceInv_init c, provenInv_init hmac⟩
  refine ⟨fun acts s hrun => (hproven acts s hrun).registered, ?_⟩
  intro c acts s hok hrun
  refine ⟨(honce c acts s hok hrun).1.nodup, ?_⟩
  rintro bs cs t rfl ht hc
  have hsplit := Runs.along_append.mp hok
  rw [Runs.run_append, ht] at hrun
  -- nothing is pending on the connection from here on
  obtain ⟨hi, hp⟩ := honce c bs t hsplit.1 ht
  exact (@Runs.invariant_along _ _ (step hmac)
    (fun u => OnceInv c u ∧ ProvenInv hmac u ∧ (u.connections c).closed = true ∧
      u.registeredOn c = t.registeredOn c) (OneAtATime hmac c)
    (fun _ _ _ hi hok hs =>
      ⟨once_step hi.1 hi.2.1 hok hs, proven_step hi.2.1 hs, closed_step hi.2.2.1 hs,
        (registeredOn_step (hi.1.closed hi.2.2.1) hs).trans hi.2.2.2⟩)
    cs t s (hsplit.2 t ht) hrun ⟨hi, hp, hc, rfl⟩).2.2.2

/-- Of the digests only the one of this secret and this nonce is needed. -/
def sampleHmac (deviceSecret nonce : String) : String :=
  if deviceSecret = "secret" ∧ nonce = "nonce" then "BC3yX50ZgYZt_KuLzm9ONyEWhhawoC2UqHnCnp9xC1g"
  else ""

/-- The Bud has a secret, and the first connection is challenged. -/
def toChallenge : List (Act ℕ String String String ℕ) :=
  [.stored 0 (some "secret") none, .hello 0 ⟨false, some 0, none⟩, .found 0 "nonce"]

def answer (c : ℕ) : Act ℕ String String String ℕ :=
  .proof c "BC3yX50ZgYZt_KuLzm9ONyEWhhawoC2UqHnCnp9xC1g"

/-- Authentication `k` takes all its steps. -/
def authenticated (k : ℕ) : List (Act ℕ String String String ℕ) :=
  List.replicate 7 (.authenticate k)

def oneProof : List (Act ℕ String String String ℕ) :=
  toChallenge ++ [answer 0] ++ authenticated 0 ++ [.close 0]

theorem challenge_once_oneProof :
    ∃ s, Runs.run (step sampleHmac) oneProof init = some s ∧
      (∀ r ∈ s.registered, Proven sampleHmac s r) ∧
        ((s.registeredOn 0).map Registration.nonce).Nodup ∧
          ∀ bs cs t, oneProof = bs ++ cs → Runs.run (step sampleHmac) bs init = some t →
            (t.connections 0).closed = true → s.registeredOn 0 = t.registeredOn 0 := by
  obtain ⟨hproven, honce⟩ := @challenge_once ℕ String String String ℕ _ _ _ _ sampleHmac
  obtain ⟨s, hs, -⟩ := @Runs.exists_end _ _ (step sampleHmac) (fun _ => True) _ oneProof init
    (by decide)
  exact ⟨s, hs, hproven oneProof s hs, honce 0 oneProof s (by decide) hs⟩

/-- Two proofs while the first is under way. -/
def twoProofs : List (Act ℕ String String String ℕ) :=
  toChallenge ++ [answer 0, answer 0] ++ authenticated 0 ++ authenticated 1

/-- The connection closes while the proof is under way. -/
def closedUnderProof : List (Act ℕ String String String ℕ) :=
  toChallenge ++ [answer 0, .close 0]

/-- **One challenge, two sessions.** A nonce that is proven twice registers two trackers, and a
tracker is registered on a connection that has closed. -/
theorem challenge_twice :
    (∃ s, Runs.run (step sampleHmac) twoProofs init = some s ∧
        (s.registeredOn 0).map Registration.nonce = ["nonce", "nonce"]) ∧
      ∃ t s, Runs.run (step sampleHmac) closedUnderProof init = some t ∧
        Runs.run (step sampleHmac) (authenticated 0) t = some s ∧
          (t.connections 0).closed = true ∧ s.registeredOn 0 ≠ t.registeredOn 0 := by
  constructor
  · exact Runs.exists_end (by decide)
  · obtain ⟨t, ht, hc, hnone⟩ := @Runs.exists_end _ _ (step sampleHmac)
      (fun t => (t.connections 0).closed = true ∧ t.registeredOn 0 = []) _ closedUnderProof init
      (by decide)
    obtain ⟨s, hs, hsome⟩ := @Runs.exists_end _ _ (step sampleHmac)
      (fun s => s.registeredOn 0 ≠ []) _ (closedUnderProof ++ authenticated 0) init
      (by decide)
    rw [Runs.run_append, ht] at hs
    exact ⟨t, s, ht, hs, hc, by rw [hnone]; exact hsome⟩

end Bud.Gateway
