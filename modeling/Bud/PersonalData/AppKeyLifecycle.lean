import Bud.Lib.Pointwise
import Bud.Lib.Throws
import Bud.PersonalData.AppKeys

/-!
# The life of an app data key

A key waits for its installation with an encrypted envelope, is installed by a proof or fails, and
ends. The limits count what is installed or may still be: a key whose setup has expired is not
counted, and must then not be installed. Counting and installing both compare with the clock, under
the lock, and the clock does not go back.
-/

namespace Bud.AppKeys

open List Option Pointwise Except
open Automations (DataRequestError)
open Throws (ok_of_bind ok_of_ite ok_of_map)

variable {δ : Type} {sha256 : String → String}
  {verifyAppKeyProof : ProofCheck} {s t u : State δ} {act : Act δ} {env : Env} {clock : Clock}

/-! ### Keys -/

def KeyStatus.Next (status status' : KeyStatus) : Prop :=
  status = .handoffPending ∧ status' ≠ .handoffPending ∨ status = .installed ∧ status' = .revoked

/-- What may happen to a key: it is used, or its status changes, and with it its version. -/
structure Key.Moves (key key' : Key) : Prop where
  id : key'.id = key.id
  requestId : key'.requestId = key.requestId
  verificationHash : key'.verificationHash = key.verificationHash
  ciphertextDigest : key'.ciphertextDigest = key.ciphertextDigest
  setupExpiresAt : key'.setupExpiresAt = key.setupExpiresAt
  status : key'.status = key.status ∧ key'.version = key.version ∧
      key'.encryptedEnvelope = key.encryptedEnvelope ∨
    key.status.Next key'.status ∧ key.version < key'.version ∧ key'.encryptedEnvelope = none

/-- The act installs a key: it has a proof for the recipient of the approved request and the stored
digest, and comes in time. -/
def Act.Proves (act : Act δ) (verifyAppKeyProof : ProofCheck) (s : State δ) (key : Key) : Prop :=
  ∃ env clock signature, act = .handoff env clock key.id .installed signature ∧
    s.clock ≤ clock.first ∧ clock.first < key.setupExpiresAt ∧
    ∃ request ∈ s.requests, request.id = key.requestId ∧ request.status = .approved ∧
      verifyAppKeyProof request.definition.destination.publicKey .installed (key.context request)
        signature (some key.ciphertextDigest) = true

def Key.Sealed (key : Key) : Prop := key.encryptedEnvelope.isSome ↔ key.status = .handoffPending

theorem Key.Moves.refl (key : Key) : key.Moves key :=
  ⟨rfl, rfl, rfl, rfl, rfl, .inl ⟨rfl, rfl, rfl⟩⟩

variable {key : Key} {now : ℕ} {row : Request} {id ulid : String}

variable {key' : Key} {later : ℕ} {keyId secret credential : String} {authority : AppKeyAuthority}
  {phase : Phase δ}

theorem Key.Moves.sealed (h : key.Moves key') (hsealed : key.Sealed) : key'.Sealed := by
  rw [Key.Sealed] at hsealed ⊢
  obtain ⟨hstatus, _, henvelope⟩ | ⟨hnext, _, henvelope⟩ := h.status
  · rw [hstatus, henvelope, hsealed]
  · rw [henvelope]
    constructor
    · exact fun hsome => nomatch hsome
    · intro hpending
      obtain ⟨_, hne⟩ | ⟨_, hrevoked⟩ := hnext
      · exact absurd hpending hne
      · exact nomatch hpending.symm.trans hrevoked

theorem Key.active_iff : key.active now = true ↔
    key.status = .installed ∨ key.status = .handoffPending ∧ now < key.setupExpiresAt := by
  simp only [Key.active, Bool.or_eq_true, Bool.and_eq_true, decide_eq_true_eq]

theorem Key.active_of_le (hle : now ≤ later) (h : key.active later = true) :
    key.active now = true := by
  rw [Key.active_iff] at h ⊢
  exact h.imp_right fun ⟨hpending, hlt⟩ => ⟨hpending, hle.trans_lt hlt⟩

/-- The key has been updated, at a time after `now`: it is not counted if it was not counted then,
and if it is installed, that is by a proof. -/
structure Updated (verifyAppKeyProof : ProofCheck) (s : State δ) (act : Act δ) (now : ℕ)
    (key key' : Key) : Prop where
  moves : key.Moves key'
  active : key'.active now = true → key.active now = true
  installed : key.status ≠ .installed → key'.status = .installed →
    act.Proves verifyAppKeyProof s key

theorem Updated.refl (s : State δ) (act : Act δ) (now : ℕ) (key : Key) :
    Updated verifyAppKeyProof s act now key key :=
  ⟨.refl key, id, fun hne h => absurd h hne⟩

theorem Updated.of_eq (hmoves : key.Moves key') (hstatus : key'.status = key.status) :
    Updated verifyAppKeyProof s act now key key' where
  moves := hmoves
  active := by
    rw [Key.active_iff, Key.active_iff, hstatus, hmoves.setupExpiresAt]
    exact id
  installed hne h := absurd (hstatus.symm.trans h) hne

theorem Updated.of_ended (hmoves : key.Moves key')
    (hstatus : key'.status = .revoked ∨ key'.status = .setupFailed) :
    Updated verifyAppKeyProof s act now key key' where
  moves := hmoves
  active := by
    rw [Key.active_iff]
    obtain h | h := hstatus <;> rw [h] <;> rintro (h | ⟨h, _⟩) <;> cases h
  installed _ h := by
    obtain h' | h' := hstatus <;> exact nomatch h'.symm.trans h

/-- What a step does to the keys: they are updated, at some time between the two readings of the
clock, or one is added. -/
inductive KeysStepped (verifyAppKeyProof : ProofCheck) (s : State δ) (act : Act δ)
    (t : State δ) : Prop where
  | updated (now : ℕ) (le : s.clock ≤ now) (le' : now ≤ t.clock)
      (keys : Forall₂ (Updated verifyAppKeyProof s act now) s.keys t.keys)
  | issued (now : ℕ) (le : s.clock ≤ now) (le' : now ≤ t.clock)
      (limit : s.activeKeys now < activeKeysPerOwner) (key : Key)
      (fresh : ∀ other ∈ s.keys, other.id ≠ key.id) (status : key.status = .handoffPending)
      (sealed : key.encryptedEnvelope.isSome = true) (keys : t.keys = s.keys ++ [key])

theorem KeysStepped.of_eq (hclock : s.clock ≤ t.clock) (h : t.keys = s.keys) :
    KeysStepped verifyAppKeyProof s act t :=
  .updated s.clock le_rfl hclock (h ▸ refl (.refl s act _) _)

/-! ### What the tables keep to -/

/-- What the tables keep to, at the last reading of the clock and from then on. -/
structure Sound (s : State δ) : Prop where
  keyIds : (s.keys.map (·.id)).Nodup
  requestIds : (s.requests.map (·.id)).Nodup
  sealed : ∀ key ∈ s.keys, key.Sealed
  activeKeys : ∀ now, s.clock ≤ now → s.activeKeys now ≤ activeKeysPerOwner
  pendingRequests : ∀ now, s.clock ≤ now → s.pendingRequests now ≤ pendingRequestsPerOwner

theorem sound_init : Sound (init : State δ) where
  keyIds := nodup_nil
  requestIds := nodup_nil
  sealed _ h := nomatch h
  activeKeys _ _ := Nat.zero_le _
  pendingRequests _ _ := Nat.zero_le _

theorem activeKeys_le_of_le (s : State δ) (hle : now ≤ later) :
    s.activeKeys later ≤ s.activeKeys now :=
  countP_mono_left fun _ _ h => Key.active_of_le hle h

theorem pendingRequests_le_of_le (s : State δ) (hle : now ≤ later) :
    s.pendingRequests later ≤ s.pendingRequests now := by
  refine countP_mono_left fun row _ h => ?_
  rw [Bool.and_eq_true, decide_eq_true_eq, decide_eq_true_eq] at h ⊢
  exact ⟨h.1, hle.trans_lt h.2⟩

theorem nodup_append_fresh {α β : Type} {f : α → β} {l : List α} {a : α} (hnodup : (l.map f).Nodup)
    (hfresh : ∀ b ∈ l, f b ≠ f a) : ((l ++ [a]).map f).Nodup := by
  rw [map_append, nodup_append]
  refine ⟨hnodup, nodup_singleton _, ?_⟩
  rintro _ hb _ ha rfl
  obtain ⟨b, hmem, hb⟩ := mem_map.mp hb
  exact hfresh b hmem (hb.trans (mem_singleton.mp ha))

/-- **The keys keep to it.** -/
theorem KeysStepped.sound (h : KeysStepped verifyAppKeyProof s act t) (hs : Sound s) :
    (t.keys.map (·.id)).Nodup ∧ (∀ key ∈ t.keys, key.Sealed) ∧
      ∀ now, t.clock ≤ now → t.activeKeys now ≤ activeKeysPerOwner := by
  cases h with
  | updated now le le' keys =>
    refine ⟨?_, fun key hkey => ?_, fun later hlater => ?_⟩
    · rw [map_eq (fun _ _ hupdated => hupdated.moves.id) keys]
      exact hs.keyIds
    · obtain ⟨before, hbefore, hupdated⟩ := mem_right keys hkey
      exact hupdated.moves.sealed (hs.sealed before hbefore)
    · calc t.activeKeys later ≤ t.activeKeys now := activeKeys_le_of_le t (le'.trans hlater)
        _ ≤ s.activeKeys now := countP_le (fun _ _ hupdated => hupdated.active) keys
        _ ≤ activeKeysPerOwner := hs.activeKeys now le
  | issued now le le' limit key fresh status sealed keys =>
    refine ⟨?_, ?_, fun later hlater => ?_⟩
    · rw [keys]
      exact nodup_append_fresh hs.keyIds fresh
    · rw [keys]
      exact forall_mem_append.mpr ⟨hs.sealed, forall_mem_singleton.mpr
        ⟨fun _ => status, fun _ => sealed⟩⟩
    · calc t.activeKeys later ≤ t.activeKeys now := activeKeys_le_of_le t (le'.trans hlater)
        _ = s.activeKeys now + [key].countP (·.active now) := by
          rw [State.activeKeys, keys, countP_append]
          rfl
        _ ≤ s.activeKeys now + 1 := Nat.add_le_add_left countP_le_length _
        _ ≤ activeKeysPerOwner := limit

/-! ### Requests -/

/-- The request has been updated, or decided on. -/
structure Request.Moves (row row' : Request) : Prop where
  id : row'.id = row.id
  pending : row'.status = .pending → row.status = .pending ∧ row'.expiresAt = row.expiresAt

/-- What a step does to the requests: they are updated, or one is added. -/
inductive RequestsStepped (s t : State δ) : Prop where
  | updated (requests : Forall₂ Request.Moves s.requests t.requests)
  | added (now : ℕ) (le : s.clock ≤ now) (le' : now ≤ t.clock)
      (limit : s.pendingRequests now < pendingRequestsPerOwner) (row : Request)
      (fresh : ∀ other ∈ s.requests, other.id ≠ row.id)
      (requests : t.requests = s.requests ++ [row])

theorem Request.Moves.refl (row : Request) : row.Moves row := ⟨rfl, fun h => ⟨h, rfl⟩⟩

theorem Request.Moves.of_decided (hid : row'.id = row.id) (hstatus : row'.status ≠ .pending) :
    row.Moves row' := ⟨hid, fun h => absurd h hstatus⟩

theorem RequestsStepped.of_eq (h : t.requests = s.requests) : RequestsStepped s t :=
  .updated (h ▸ refl .refl _)

/-- **The requests keep to it.** -/
theorem RequestsStepped.sound (h : RequestsStepped s t) (hs : Sound s)
    (hclock : s.clock ≤ t.clock) :
    (t.requests.map (·.id)).Nodup ∧
      ∀ now, t.clock ≤ now → t.pendingRequests now ≤ pendingRequestsPerOwner := by
  cases h with
  | updated requests =>
    refine ⟨?_, fun now hnow => ?_⟩
    · rw [map_eq (fun _ _ hmoves => hmoves.id) requests]
      exact hs.requestIds
    · refine (countP_le ?_ requests).trans (hs.pendingRequests now (hclock.trans hnow))
      intro row row' hmoves h
      rw [Bool.and_eq_true, decide_eq_true_eq, decide_eq_true_eq] at h ⊢
      obtain ⟨hpending, hexpires⟩ := hmoves.pending h.1
      exact ⟨hpending, hexpires ▸ h.2⟩
  | added now le le' limit row fresh requests =>
    refine ⟨?_, fun later hlater => ?_⟩
    · rw [requests]
      exact nodup_append_fresh hs.requestIds fresh
    · calc t.pendingRequests later ≤ t.pendingRequests now :=
            pendingRequests_le_of_le t (le'.trans hlater)
        _ = s.pendingRequests now + [row].countP fun row =>
            decide (row.status = .pending) && decide (now < row.expiresAt) := by
          rw [State.pendingRequests, requests, countP_append]
          rfl
        _ ≤ s.pendingRequests now + 1 := Nat.add_le_add_left countP_le_length _
        _ ≤ pendingRequestsPerOwner := limit

/-! ### Transactions on keys -/

theorem forall₂_updateKey (hnodup : (s.keys.map (·.id)).Nodup) (hkey : key ∈ s.keys)
    (h : Updated verifyAppKeyProof s act now key (update key)) :
    Forall₂ (Updated verifyAppKeyProof s act now) s.keys (s.updateKey key.id update).keys := by
  refine map fun row hrow => ?_
  split
  · next hid =>
    obtain rfl := inj_on_of_nodup_map hnodup hrow hkey hid
    exact h
  · exact .refl s act now row

theorem mem_of_find?_id {keys : List Key} (h : keys.find? (·.id = id) = some key) :
    key ∈ keys ∧ key.id = id :=
  ⟨mem_of_find?_eq_some h, by simpa using find?_some h⟩

/-- **A revocation** ends a key that waits or is installed. -/
theorem keys_revoke (hs : Sound s) {value : Revocation} (now : ℕ)
    (h : s.revoke clock keyId value = .ok t) :
    Forall₂ (Updated verifyAppKeyProof s act now) s.keys t.keys ∧ t.requests = s.requests ∧
      t.queries = s.queries := by
  rw [State.revoke] at h
  cases hfound : s.keys.find? (·.id = keyId) with
  | none =>
    simp only [hfound] at h
    cases h
  | some key =>
    obtain ⟨hkey, rfl⟩ := mem_of_find?_id hfound
    simp only [hfound] at h
    split at h
    · obtain rfl := ok.inj h
      exact ⟨refl (.refl s act now) _, rfl, rfl⟩
    · obtain ⟨hguard, h⟩ := ok_of_ite h
      obtain rfl := ok.inj h
      obtain ⟨_, hstatus⟩ := not_or.mp hguard
      refine ⟨forall₂_updateKey hs.keyIds hkey (.of_ended ?_ (.inl rfl)), rfl, rfl⟩
      refine ⟨rfl, rfl, rfl, rfl, rfl, .inr ⟨?_, Nat.lt_succ_self _, rfl⟩⟩
      rcases not_not.mp hstatus with hpending | hinstalled
      · exact .inl ⟨hpending, KeyStatus.noConfusion⟩
      · exact .inr ⟨hinstalled, rfl⟩

theorem load_eq_ok (h : s.load id = .ok row) : row ∈ s.requests ∧ row.id = id := by
  rw [State.load] at h
  split at h
  · next hfound =>
    obtain rfl := ok.inj h
    exact ⟨mem_of_find?_eq_some hfound, by simpa using find?_some hfound⟩
  · cases h

/-- **A handoff** installs a key that waits, by a proof, or ends it. -/
theorem keys_handoff (hs : Sound s) (hclock : s.clock ≤ clock.first) {action : HandoffAction}
    (h : s.handoff verifyAppKeyProof env clock keyId action signature = .ok (t, result)) :
    Forall₂ (Updated verifyAppKeyProof s (.handoff env clock keyId action signature) clock.first)
        s.keys t.keys ∧
      t.requests = s.requests ∧ t.queries = s.queries := by
  rw [State.handoff] at h
  cases hfound : s.keys.find? (·.id = keyId) with
  | none =>
    simp only [hfound] at h
    cases h
  | some key =>
    obtain ⟨hkey, rfl⟩ := mem_of_find?_id hfound
    simp only [hfound] at h
    obtain ⟨request, hload, h⟩ := ok_of_bind h
    obtain ⟨hrequest, hid⟩ := load_eq_ok hload
    obtain ⟨hproof, h⟩ := ok_of_ite h
    rw [Bool.not_eq_true, Bool.not_eq_false'] at hproof
    split at h
    · obtain ⟨rfl, _⟩ := Prod.mk.inj (ok.inj h)
      exact ⟨refl (.refl _ _ _) _, rfl, rfl⟩
    · next hstatus =>
      rw [not_not] at hstatus
      split at h
      · obtain ⟨rfl, _⟩ := Prod.mk.inj (ok.inj h)
        refine ⟨forall₂_updateKey hs.keyIds hkey (.of_ended ?_ (.inr rfl)), rfl, rfl⟩
        exact ⟨rfl, rfl, rfl, rfl, rfl,
          .inr ⟨.inl ⟨hstatus, KeyStatus.noConfusion⟩, Nat.lt_succ_self _, rfl⟩⟩
      · next hgood =>
        obtain ⟨hexpires, hvalid⟩ := not_or.mp hgood
        obtain ⟨happroved, _⟩ := not_or.mp hvalid
        rw [not_le] at hexpires
        cases action with
        | retrieve =>
          obtain ⟨rfl, _⟩ := Prod.mk.inj (ok.inj h)
          exact ⟨refl (.refl _ _ _) _, rfl, rfl⟩
        | installed =>
          obtain ⟨rfl, _⟩ := Prod.mk.inj (ok.inj h)
          refine ⟨forall₂_updateKey hs.keyIds hkey ⟨?_, fun _ => ?_, fun _ _ => ?_⟩, rfl, rfl⟩
          · exact ⟨rfl, rfl, rfl, rfl, rfl,
              .inr ⟨.inl ⟨hstatus, KeyStatus.noConfusion⟩, Nat.lt_succ_self _, rfl⟩⟩
          · -- it was counted already
            exact Key.active_iff.mpr (.inr ⟨hstatus, hexpires⟩)
          · exact ⟨env, clock, signature, rfl, hclock, hexpires, request, hrequest, hid,
              not_not.mp happroved, hproof⟩

theorem of_mem_chosen {α : Type} {f : α → String} {l : List α} (hnodup : (l.map f).Nodup)
    {p : α → Bool} {r : α → α → Prop} [DecidableRel r] {a : α} (ha : a ∈ l)
    (h : f a ∈ (((l.filter p).insertionSort r).take n).map f) : p a = true := by
  obtain ⟨b, hb, heq⟩ := mem_map.mp h
  have hmem := (perm_insertionSort r (l.filter p)).mem_iff.mp (mem_of_mem_take hb)
  obtain ⟨hb, hp⟩ := mem_filter.mp hmem
  exact inj_on_of_nodup_map hnodup hb ha heq ▸ hp

/-- **The maintenance job** ends keys that have waited too long. -/
theorem keys_expireNext (hs : Sound s) (now now' : ℕ) :
    Forall₂ (Updated verifyAppKeyProof s act now) s.keys (s.expireNext now').keys := by
  refine map fun key hkey => ?_
  split
  · next hchosen =>
    have hp := of_mem_chosen hs.keyIds hkey hchosen
    rw [Bool.and_eq_true, decide_eq_true_eq] at hp
    refine .of_ended ⟨rfl, rfl, rfl, rfl, rfl, .inr ⟨?_, Nat.lt_succ_self _, rfl⟩⟩ (.inr rfl)
    exact .inl ⟨hp.1, KeyStatus.noConfusion⟩
  · exact .refl s act now key

/-- **A confirmation** uses a key that is installed, at the version it authenticated with. -/
theorem keys_confirmCurrent (now : ℕ) (h : s.confirmCurrent env clock authority = .ok t) :
    Forall₂ (Updated verifyAppKeyProof s act now) s.keys t.keys ∧ t.requests = s.requests ∧
      t.queries = s.queries ∧ ∃ key ∈ s.keys, key.id = authority.keyId ∧
        key.status = .installed ∧ key.version = authority.version := by
  rw [State.confirmCurrent] at h
  cases hfound : s.keys.find? fun key => decide (key.id = authority.keyId) &&
      decide (key.version = authority.version) && decide (key.status = .installed) with
  | none =>
    simp only [hfound] at h
    cases h
  | some key =>
    simp only [hfound] at h
    have hcurrent := find?_some hfound
    simp only [Bool.and_eq_true, decide_eq_true_eq] at hcurrent
    split at h
    · obtain ⟨_, h⟩ := ok_of_ite h
      obtain rfl := ok.inj h
      refine ⟨map fun row _ => ?_, rfl, rfl, key, mem_of_find?_eq_some hfound,
        hcurrent.1.1, hcurrent.2, hcurrent.1.2⟩
      split
      · exact .of_eq ⟨rfl, rfl, rfl, rfl, rfl, .inl ⟨rfl, rfl, rfl⟩⟩ rfl
      · exact .refl s act now row
    · cases h

/-! ### Transactions on requests -/

/-- **An approval** issues one key, if there are not too many. -/
theorem approve_eq_ok (h : s.approve sha256 env clock prior ulid secret = .ok t) :
    s.activeKeys clock.second < activeKeysPerOwner ∧ ∃ key,
      t = { s with keys := s.keys ++ [key] } ∧ (∀ other ∈ s.keys, other.id ≠ key.id) ∧
        key.status = .handoffPending ∧ key.encryptedEnvelope.isSome = true := by
  obtain ⟨_, h⟩ := ok_of_ite h
  obtain ⟨hlimit, h⟩ := ok_of_ite h
  rw [State.issue] at h
  split at h
  · obtain ⟨hfresh, h⟩ := ok_of_ite h
    obtain rfl := ok.inj h
    refine ⟨not_le.mp hlimit, _, rfl, fun other hother hid => hfresh ?_, rfl, rfl⟩
    exact List.any_eq_true.mpr ⟨other, hother, Bool.or_eq_true_iff.mpr (.inl (decide_eq_true hid))⟩
  · cases h

theorem forall₂_updateRequest (hid : ∀ row, (update row).id = row.id)
    (hstatus : ∀ row, (update row).status ≠ .pending) :
    Forall₂ Request.Moves s.requests (s.updateRequest id update).requests := by
  refine map fun row _ => ?_
  split
  · exact .of_decided (hid row) (hstatus row)
  · exact .refl row

/-- **A decision** issues a key only if it approves, and the request is not pending then. -/
theorem decide_eq_ok (h : s.decide sha256 env clock ulid secret id value = .ok t) :
    Forall₂ Request.Moves s.requests t.requests ∧ t.queries = s.queries ∧
      (t.keys = s.keys ∨ s.activeKeys clock.second < activeKeysPerOwner ∧ ∃ key,
        t.keys = s.keys ++ [key] ∧ (∀ other ∈ s.keys, other.id ≠ key.id) ∧
          key.status = .handoffPending ∧ key.encryptedEnvelope.isSome = true) := by
  obtain ⟨prior, _, h⟩ := ok_of_bind h
  split at h
  · obtain ⟨_, h⟩ := ok_of_ite h
    obtain rfl := ok.inj h
    exact ⟨refl .refl _, rfl, .inl rfl⟩
  obtain ⟨_, h⟩ := ok_of_ite h
  obtain ⟨_, h⟩ := ok_of_ite h
  split at h
  · obtain rfl := ok.inj h
    refine ⟨forall₂_updateRequest (fun _ => rfl) fun _ => ?_, rfl, .inl rfl⟩
    show (if _ then RequestStatus.expired else .canceled) ≠ _
    split <;> exact RequestStatus.noConfusion
  cases hvalue : value.decision with
  | approve =>
    simp only [hvalue] at h
    obtain ⟨issued, hissued, h⟩ := ok_of_bind h
    obtain rfl := ok.inj h
    obtain ⟨hlimit, key, rfl, hkey⟩ := approve_eq_ok hissued
    exact ⟨forall₂_updateRequest (fun _ => rfl) fun _ => RequestStatus.noConfusion, rfl,
      .inr ⟨hlimit, key, rfl, hkey⟩⟩
  | decline =>
    simp only [hvalue] at h
    obtain rfl := ok.inj h
    exact ⟨forall₂_updateRequest (fun _ => rfl) fun _ => RequestStatus.noConfusion, rfl, .inl rfl⟩

/-- **A request** is added, if there are not too many that are pending. -/
theorem requestInTransaction_eq_ok
    (h : s.requestInTransaction env clock ulid context value = .ok (t, row)) :
    t = s ∨ s.pendingRequests clock.second < pendingRequestsPerOwner ∧
      (∀ other ∈ s.requests, other.id ≠ row.id) ∧
        t = { s with requests := s.requests ++ [row] } := by
  rw [State.requestInTransaction] at h
  split at h
  · obtain ⟨_, h⟩ := ok_of_ite h
    obtain ⟨_, h⟩ := ok_of_ite h
    split at h
    · obtain ⟨_, h⟩ := ok_of_ite h
      obtain ⟨rfl, _⟩ := Prod.mk.inj (ok.inj h)
      exact .inl rfl
    · obtain ⟨_, h⟩ := ok_of_ite h
      obtain ⟨hlimit, h⟩ := ok_of_ite h
      obtain ⟨hfresh, h⟩ := ok_of_ite h
      obtain ⟨rfl, rfl⟩ := Prod.mk.inj (ok.inj h)
      refine .inr ⟨not_le.mp hlimit, fun other hother hid => hfresh ?_, rfl⟩
      exact List.any_eq_true.mpr ⟨other, hother, decide_eq_true hid⟩
  · cases h

theorem forall₂_cancelInvocation (s : State δ) (invocationId : String) :
    Forall₂ Request.Moves s.requests (s.cancelInvocation invocationId).requests := by
  refine map fun row _ => ?_
  split
  · exact .of_decided rfl RequestStatus.noConfusion
  · exact .refl row

theorem requests_expireNext (s : State δ) (now : ℕ) :
    Forall₂ Request.Moves s.requests (s.expireNext now).requests := by
  refine map fun row _ => ?_
  split
  · exact .of_decided rfl RequestStatus.noConfusion
  · exact .refl row

/-! ### Queries -/

/-- The key is installed, at the version that was authenticated with. -/
def State.Current (s : State δ) (authority : AppKeyAuthority) : Prop :=
  ∃ key ∈ s.keys, key.id = authority.keyId ∧ key.status = .installed ∧
    key.version = authority.version

/-- What a step does to the queries: one that begins has a current key, and one that returns its
data has it still. -/
structure QueriesStepped (s : State δ) (act : Act δ) (t : State δ) : Prop where
  began : ∀ (i : ℕ) (query : Query δ), t.queries[i]? = some query →
    (∃ before, s.queries[i]? = some before ∧ before.authority = query.authority) ∨
      s.Current query.authority
  returned : ∀ (i : ℕ) (query : Query δ) (data : δ), t.queries[i]? = some query →
    query.phase = .returned data →
      s.queries[i]? = some query ∨
        s.Current query.authority ∧ ∃ env clock, act = .confirmQuery env clock i

theorem QueriesStepped.of_eq (h : t.queries = s.queries) : QueriesStepped s act t where
  began _ query hquery := .inl ⟨query, h ▸ hquery, rfl⟩
  returned _ _ _ hquery _ := .inl (h ▸ hquery)

theorem getElem?_setPhase {id : ℕ} (h : (s.setPhase id phase).queries[i]? = some query) :
    ∃ before, s.queries[i]? = some before ∧ before.authority = query.authority ∧
      (i = id ∧ query.phase = phase ∨ before = query) := by
  rw [State.setPhase, getElem?_modify] at h
  obtain ⟨before, hbefore, rfl⟩ := map_eq_some_iff.mp h
  refine ⟨before, hbefore, ?_⟩
  split
  · next heq => exact ⟨rfl, .inl ⟨heq.symm, rfl⟩⟩
  · exact ⟨rfl, .inr rfl⟩

theorem QueriesStepped.of_setPhase {id : ℕ} (hphase : ∀ data, phase ≠ .returned data)
    (h : t.queries = (s.setPhase id phase).queries) : QueriesStepped s act t where
  began _ query hquery := by
    obtain ⟨before, hbefore, hauthority, _⟩ := getElem?_setPhase (h ▸ hquery)
    exact .inl ⟨before, hbefore, hauthority⟩
  returned _ query data hquery hreturned := by
    obtain ⟨before, hbefore, _, ⟨_, hset⟩ | rfl⟩ := getElem?_setPhase (h ▸ hquery)
    · exact absurd (hset.symm.trans hreturned) (hphase data)
    · exact .inl hbefore

theorem authenticate_eq_ok (h : s.authenticate sha256 env credential = .ok authority) :
    s.Current authority := by
  obtain ⟨_, h⟩ := ok_of_ite h
  cases hfound : s.keys.find? fun key =>
      decide (key.id = credentialKeyId credential) && decide (key.status = .installed) with
  | none =>
    simp only [hfound] at h
    cases h
  | some key =>
    simp only [hfound] at h
    have hinstalled := find?_some hfound
    simp only [Bool.and_eq_true, decide_eq_true_eq] at hinstalled
    split at h
    · obtain ⟨_, h⟩ := ok_of_ite h
      obtain rfl := ok.inj h
      exact ⟨key, mem_of_find?_eq_some hfound, hinstalled.1, hinstalled.2, rfl⟩
    · cases h

/-- **A query** begins with a key that is installed. -/
theorem beginQuery_eq_ok (h : s.beginQuery sha256 env credential operation parsed = .ok t) :
    t.keys = s.keys ∧ t.requests = s.requests ∧ t.clock = s.clock ∧ QueriesStepped s act t := by
  obtain ⟨authority, hauthority, h⟩ := ok_of_bind h
  obtain ⟨_, h⟩ := ok_of_ite h
  obtain ⟨_, h⟩ := ok_of_ite h
  obtain rfl := ok.inj h
  have hnew : ∀ (i : ℕ) (query : Query δ),
      (s.queries ++ [{ authority, operation, phase := .reading }])[i]? = some query →
        s.queries[i]? = some query ∨ query = { authority, operation, phase := .reading } := by
    intro i query hquery
    rw [getElem?_append] at hquery
    split at hquery
    · exact .inl hquery
    · exact .inr (mem_singleton.mp (mem_of_getElem? hquery))
  refine ⟨rfl, rfl, rfl, fun i query hquery => ?_, fun i query data hquery hreturned => ?_⟩
  · obtain hbefore | rfl := hnew i query hquery
    · exact .inl ⟨query, hbefore, rfl⟩
    · exact .inr (authenticate_eq_ok hauthority)
  · obtain hbefore | rfl := hnew i query hquery
    · exact .inl hbefore
    · cases hreturned

/-! ### Steps -/

structure Stepped (verifyAppKeyProof : ProofCheck) (s : State δ) (act : Act δ)
    (t : State δ) : Prop where
  clock : s.clock ≤ t.clock
  keys : KeysStepped verifyAppKeyProof s act t
  requests : RequestsStepped s t
  queries : QueriesStepped s act t

theorem Stepped.sound (h : Stepped verifyAppKeyProof s act t) (hs : Sound s) : Sound t := by
  obtain ⟨hkeyIds, hsealed, hactive⟩ := h.keys.sound hs
  obtain ⟨hrequestIds, hpending⟩ := h.requests.sound hs h.clock
  exact ⟨hkeyIds, hrequestIds, hsealed, hactive, hpending⟩

theorem tick_eq_some (h : s.tick clock x = some t) :
    s.clock ≤ clock.first ∧ t = { x with clock := clock.third } := by
  rw [State.tick] at h
  split at h
  · next hle => exact ⟨hle, (some.inj h).symm⟩
  · cases h

theorem Clock.first_le_third (clock : Clock) : clock.first ≤ clock.third :=
  clock.first_le.trans clock.second_le

/-- A transaction that has not thrown, or has left everything as it is. -/
theorem commit_cases {ε : Type} (s : State δ) (x : Except ε (State δ)) :
    s.commit x = s ∨ ∃ t, x = .ok t ∧ s.commit x = t := by
  cases x with
  | ok t => exact .inr ⟨t, rfl, rfl⟩
  | error => exact .inl rfl

theorem Stepped.of_eq (hclock : s.clock ≤ t.clock) (hkeys : t.keys = s.keys)
    (hrequests : t.requests = s.requests) (hqueries : t.queries = s.queries) :
    Stepped verifyAppKeyProof s act t :=
  ⟨hclock, .of_eq hclock hkeys, .of_eq hrequests, .of_eq hqueries⟩

/-- What is left of a transaction, once it has not thrown. -/
theorem Stepped.of_tick {ε : Type} {x : Except ε (State δ)}
    (h : s.tick clock (s.commit x) = some t)
    (hok : ∀ u, x = .ok u → s.clock ≤ clock.first → s.clock ≤ clock.third →
      Stepped verifyAppKeyProof s act { u with clock := clock.third }) :
    Stepped verifyAppKeyProof s act t := by
  obtain ⟨hle, rfl⟩ := tick_eq_some h
  have hle' := hle.trans clock.first_le_third
  obtain hsame | ⟨u, hu, hcommit⟩ := commit_cases s x
  · rw [hsame]
    exact .of_eq hle' rfl rfl rfl
  · rw [hcommit]
    exact hok u hu hle hle'

/-- **One step.** -/
theorem stepped_of_step (hs : Sound s) (h : step sha256 verifyAppKeyProof s act = some t) :
    Stepped verifyAppKeyProof s act t := by
  cases act with
  | request env clock ulid context value =>
    refine .of_tick h fun u hu hle hle' => ?_
    obtain ⟨⟨_, row⟩, hrequest, rfl⟩ := ok_of_map hu
    obtain rfl | ⟨hlimit, hfresh, rfl⟩ := requestInTransaction_eq_ok hrequest
    · exact .of_eq hle' rfl rfl rfl
    · exact ⟨hle', .of_eq hle' rfl, .added clock.second (hle.trans clock.first_le)
        clock.second_le hlimit row hfresh rfl, .of_eq rfl⟩
  | decide env clock ulid secret id value =>
    refine .of_tick h fun u hu hle hle' => ?_
    obtain ⟨hrequests, hqueries, hkeys | ⟨hlimit, key, hkeys, hfresh, hstatus, hsealed⟩⟩ :=
      decide_eq_ok hu
    · exact ⟨hle', .of_eq hle' hkeys, .updated hrequests, .of_eq hqueries⟩
    · exact ⟨hle', .issued clock.second (hle.trans clock.first_le) clock.second_le hlimit key
        hfresh hstatus hsealed hkeys, .updated hrequests, .of_eq hqueries⟩
  | cancelInvocation invocationId =>
    obtain rfl := some.inj h
    exact ⟨le_rfl, .of_eq le_rfl rfl, .updated (forall₂_cancelInvocation s invocationId),
      .of_eq rfl⟩
  | revoke clock keyId value =>
    refine .of_tick h fun u hu hle hle' => ?_
    obtain ⟨hkeys, hrequests, hqueries⟩ := keys_revoke hs clock.first hu
    exact ⟨hle', .updated clock.first hle clock.first_le_third hkeys, .of_eq hrequests,
      .of_eq hqueries⟩
  | handoff env clock keyId action signature =>
    refine .of_tick h fun u hu hle hle' => ?_
    obtain ⟨⟨_, result⟩, hhandoff, rfl⟩ := ok_of_map hu
    obtain ⟨hkeys, hrequests, hqueries⟩ := keys_handoff hs hle hhandoff
    exact ⟨hle', .updated clock.first hle clock.first_le_third hkeys, .of_eq hrequests,
      .of_eq hqueries⟩
  | expireNext now =>
    obtain rfl := some.inj h
    exact ⟨le_max_left _ _, .updated s.clock le_rfl (le_max_left _ _) (keys_expireNext hs _ now),
      .updated (requests_expireNext s now), .of_eq rfl⟩
  | beginQuery env credential operation parsed =>
    obtain rfl := some.inj h
    obtain hsame | ⟨u, hu, hcommit⟩ := commit_cases s
      (s.beginQuery sha256 env credential operation parsed)
    · rw [hsame]
      exact .of_eq le_rfl rfl rfl rfl
    · rw [hcommit]
      obtain ⟨hkeys, hrequests, hclock, hqueries⟩ := beginQuery_eq_ok hu
      exact ⟨hclock.ge, .of_eq hclock.ge hkeys, .of_eq hrequests, hqueries⟩
  | readQuery id result =>
    obtain ⟨query, hquery, h⟩ := bind_eq_some_iff.mp h
    cases hphase : query.phase with
    | reading =>
      simp only [hphase] at h
      obtain rfl := some.inj h
      have hset : ∀ phase : Phase δ, (∀ data, phase ≠ .returned data) →
          Stepped verifyAppKeyProof s (.readQuery id result) (s.setPhase id phase) :=
        fun phase hphase => ⟨le_rfl, .of_eq le_rfl rfl, .of_eq rfl, .of_setPhase hphase rfl⟩
      cases result with
      | ok data | error error => exact hset _ fun _ h => nomatch h
    | _ => simp only [hphase] at h; cases h
  | confirmQuery env clock id =>
    obtain ⟨u, hconfirm, h⟩ := bind_eq_some_iff.mp h
    obtain ⟨hle, rfl⟩ := tick_eq_some h
    have hle' := hle.trans clock.first_le_third
    obtain ⟨query, hquery, hconfirm⟩ := bind_eq_some_iff.mp hconfirm
    cases hphase : query.phase with
    | read data =>
      simp only [hphase] at hconfirm
      obtain rfl := some.inj hconfirm
      cases hcurrent : s.confirmCurrent env clock query.authority with
      | error error =>
        exact ⟨hle', .of_eq hle' rfl, .of_eq rfl, .of_setPhase (fun _ h => by cases h) rfl⟩
      | ok v =>
        obtain ⟨hkeys, hrequests, hqueries, hcurrent⟩ :=
          keys_confirmCurrent clock.first hcurrent
        refine ⟨hle', .updated clock.first hle clock.first_le_third hkeys, .of_eq hrequests, ?_, ?_⟩
        · intro i after hafter
          obtain ⟨before, hbefore, hauthority, _⟩ := getElem?_setPhase hafter
          exact .inl ⟨before, hqueries ▸ hbefore, hauthority⟩
        · intro i after data' hafter _
          obtain ⟨before, hbefore, hauthority, ⟨rfl, _⟩ | rfl⟩ := getElem?_setPhase hafter
          · rw [hqueries, hquery] at hbefore
            obtain rfl := some.inj hbefore
            exact .inr ⟨hauthority ▸ hcurrent, env, clock, rfl⟩
          · exact .inl (hqueries ▸ hbefore)
    | _ => simp only [hphase] at hconfirm; cases hconfirm

/-! ### Runs -/

variable (sha256 verifyAppKeyProof) in
/-- **The life of a key.** In every run a key has an envelope exactly while it waits, and the limits
hold at every reading of the clock. Every step moves keys along their statuses, with a new version;
one is installed only by a proof that comes in time; and a query returns its data only if its key is
still installed at the version that it authenticated with. -/
theorem keys_lifecycle (acts : List (Act δ)) (s : State δ)
    (hrun : Runs.run (step sha256 verifyAppKeyProof) acts init = some s) :
    (∀ key ∈ s.keys, key.encryptedEnvelope.isSome ↔ key.status = .handoffPending) ∧
      (∀ now, s.clock ≤ now → s.activeKeys now ≤ activeKeysPerOwner ∧
        s.pendingRequests now ≤ pendingRequestsPerOwner) ∧
      ∀ act t, step sha256 verifyAppKeyProof s act = some t →
        (∃ kept new, t.keys = kept ++ new ∧ Forall₂ Key.Moves s.keys kept ∧
          ∀ key ∈ new, key.status = .handoffPending) ∧
        (∀ key ∈ s.keys, ∀ key' ∈ t.keys, key'.id = key.id → key.status ≠ .installed →
          key'.status = .installed → act.Proves verifyAppKeyProof s key) ∧
        QueriesStepped s act t := by
  have hs : Sound s := by
    refine Runs.invariant (fun _ _ _ hs hstep => ?_) hrun sound_init
    exact (stepped_of_step hs hstep).sound hs
  refine ⟨hs.sealed, fun now hnow => ⟨hs.activeKeys now hnow, hs.pendingRequests now hnow⟩,
    fun act t hstep => ?_⟩
  obtain ⟨_, hkeys, _, hqueries⟩ := stepped_of_step hs hstep
  cases hkeys with
  | updated now le le' keys =>
    refine ⟨⟨t.keys, [], (append_nil _).symm, keys.imp fun _ _ h => h.moves,
      fun _ h => nomatch h⟩, fun key hkey key' hkey' hid => ?_, hqueries⟩
    obtain ⟨before, hbefore, hupdated⟩ := mem_right keys hkey'
    obtain rfl := inj_on_of_nodup_map hs.keyIds hbefore hkey (hupdated.moves.id.symm.trans hid)
    exact hupdated.installed
  | issued now le le' limit new fresh status sealed keys =>
    refine ⟨⟨s.keys, [new], keys, refl .refl _, forall_mem_singleton.mpr status⟩,
      fun key hkey key' hkey' hid hne hinstalled => ?_, hqueries⟩
    rw [keys] at hkey'
    rcases mem_append.mp hkey' with hbefore | hnew
    · obtain rfl := inj_on_of_nodup_map hs.keyIds hbefore hkey hid
      exact absurd hinstalled hne
    · obtain rfl := mem_singleton.mp hnew
      exact absurd hid.symm (fresh key hkey)

/-- The clock, read three times at once. -/
def exampleClock (now : ℕ) : Clock :=
  { first := now, second := now, third := now, first_le := le_rfl, second_le := le_rfl }

def examplePublicKey : String :=
  "-----BEGIN PUBLIC KEY-----\n" ++
    "MIIBojANBgkqhkiG9w0BAQEFAAOCAY8AMIIBigKCAYEAqb77l6SkkbtkIccS4CLA\n" ++
    "o9jOSjEP780jOdMCGDGiclQnYn91D5OnMNN0HQyZHw9FRWhfw4yem7NAQ/gT45VZ\n" ++
    "BfJ+ZmuBI6Rc9SgANo2KbNfRroNDI5U1W/HFGWYyaUdXj6ky9UXN6cvbwHcv+Haq\n" ++
    "yCa7kV19ed1cySlMgm2fyEWwSEeLgJJsX0rM0n8kTcMvtajCfwv6rESz2Hvlx/1b\n" ++
    "v/p0LaThN1lsrqA5TxLwPwWE1BESRY+3OJYWykKE9lciPAMc23wu/89Bapc2aMiP\n" ++
    "viAfhqoY/pZn6ZoXuWbuflsiav4UXocVREqGKxk4QKbGdDB/zgEWCUHG7NrfjbrV\n" ++
    "f+gUEyikMYw6A317tyzruOHnq7wueEh1N6qdFEy1KjNTiRHbyHY7kK2qGDIPNmC6\n" ++
    "aP4DJgD/8rg4N+BZi8/wzL3isMndFdrbDkOlBWulEao4LPBdZCQfwpjhJYH9DPwA\n" ++
    "NDfmt9TGNd5XTpsaS+YXQTHokwpy4khahVnL7DF2pj7bAgMBAAE=\n" ++
    "-----END PUBLIC KEY-----\n"

/-- What the public key makes of the credential and its context. -/
def exampleCiphertext : String :=
  "UzGLqiHlqFVf9R72Qz8Zl838Pl5oGtKWPMkxBmdnire9YMxH4Ve_p8tcWaYmNeULNrVAtb5uMvxMQ9Ml6fpHBMeJwr" ++
  "Ick3Vz-jrnPhbcrcpMbXHGgbY84OiVCsOZzc3BOUa5kjhvi_IgvVsTbFb65hhUFGCMpehB4mdTLJMu0pfjJMLal65M" ++
  "n6Vpk2TuCP-n-3r8LhgKxWeqC0jFg0eVRDDiP2tBb65S0g1l8ESPp_tpvSn9CHFOd-z_0HEC3Ud_470gzhsz3oDY8z" ++
  "vAfA28QpJuEx3yOEtvsYat2jiFdkVavPl-vgmKaVisT0eylMAZ1ZnNJnrcDlTIx_FFVEmrMUBI-OTPK-RsmVQvWvvC" ++
  "x63qcpuigt5NxhpUZmV9o6bCkMnKM0DCRhfUF9OA3k6cn2N_PyQbI_Zh_Hx8-qTy28mxBlwkV2XwowhC-rgU4LELtc" ++
  "jXPi7Ov1ZJl8O0uJmI4Rp1rqAYXD5cZObg0xoqh2o-5050A3WMRRQp6Y0ksIif"

def exampleRetrieve : String :=
  "P0am6hXP3lQ2TH2ntjzQdz8wvt_LXaQd_O2pAFeyfG0T70AJiSfCi6MGNliilxKZkPr27u3cRh0M1G2HYKN_Xp8HrG" ++
  "O0mvV9NlaWacgeZtaJy5l59oxAR5w-OAqQ-569Pd3PJDmYVl-uTHONz7OhuvfAcB4yGrVtZ586zNyWAX3230kAbm4q" ++
  "PEL43DRJwNDqG6mBX74MbOtFKuE7wjZ3wD3wpnIsTjgfR6Cf7sf0yBdrLNlSNyIKznDWKkl3wEkCHoMvypGtHUNUT7" ++
  "BgsGj5iqfIzhu5gxr2of_WSrWruIuI7m2HhXnjFbsSYghxsWyEGjZLaCcuHRI25qGQ4zA8_MfjlQmJPsDngaVow3U0" ++
  "PBv5gxEQwN5B5wNphWpCRJcBymoOy4xPZ7RuTmP8MZAwn7CNUzWi1L-GrswvmOuQXaXAE3RMTHClH4zgxaYnCmgxHX" ++
  "qlGwmpS85nHt0ChHuSEErpvt5OhQLpPd58YLHEDTcQ7-NfFBsU5Td8pquevjML"

def exampleInstalled : String :=
  "m4f4nC9vqJRfIySN0xqdv0gaDdVfQuClhiOmWJXrNBkIaYSnmXR-VLvXHciTOgm6kx4-FKM820N8RWbU9Dyco9lCWG" ++
  "AGgzr9mOFl5WZPKzWdD-9qo9rKt-l5bysLRAewhAAxlCv4Ck1YRMuBfC6f0KbvsBktCrg8MZPJkkXDnTbSIP0_qiEn" ++
  "j9o8X85DqL9naMP_5kuMAVhX8owdAb2tEpEpmtfIdKVjious1rJp7gbEl2SCjk9FNd-8atRug_OPGvEYXX1LYjq2DU" ++
  "_HjD18lkMopk8VyeNJMHYoYvJVwikeqZONyqNCffaz757EhoYPXrmLxld2AXKmfaG_TWrsk6SIhue7WVIbIPBti9lO" ++
  "Gn7eZM3pmWVQ9wPSrR84WvIT5UEXmNTHW2u1JD9tVhEoHCLDbFF6RX5BtoeLRe-rMmdwUZdfEw1IE-89FvabdlH-Ky" ++
  "bDPFlYAvpX4U_7YGUrWtKyZ2dE30MbSra3XIiOG-2nIx2qdYxseYvXdvziOqY6"

def exampleRecipient : AppKeyRecipient :=
  { publicKey := examplePublicKey
    fingerprint := "4f98807ae6879a8efa3a1e7feec2f6ac03dff4f83addef040bd28cda8ca53c03" }

def exampleDigest : String := "c62c3ca3d1fc246812ef2dbafacf505d640146dcbd5744acc3febb03b99510ef"

/-- The two signatures of the example that are the private key's. -/
def exampleProof (recipient : AppKeyRecipient) (action : HandoffAction) (context : AppKeyContext)
    (signature : String) (digest : Option String) : Bool :=
  recipient.fingerprint = exampleRecipient.fingerprint && context.expiresAt = 86400110 &&
    match action with
    | .retrieve => signature = exampleRetrieve && digest = none
    | .installed => signature = exampleInstalled && digest = some exampleDigest

def exampleEnv : Env :=
  { invocation := fun _ =>
      some
        { Invocation.Row.new 0 with
          status := .running
          fence := 1
          workerId := some "worker"
          leaseExpiresAt := some 130
          budId := "bud" }
    intent := fun _ => true
    validSite := fun _ _ => true
    sealCredential := fun _ _ context =>
      some { context with ciphertext := exampleCiphertext, ciphertextSha256 := exampleDigest } }

def exampleDefinition : AppKeyRequestDefinition :=
  { appLabel := "App"
    purpose := "Sleep"
    dataAccess :=
      { scopes := [.healthRead]
        contactFields := []
        healthTypes := [.sleep]
        locationPrecision := .none
        historyDays := 30 }
    destination :=
      { proxiedSiteId := "site", publicKey := exampleRecipient } }

def exampleUlid : String := "01ARZ3NDEKTSV4RRFFQ69G5FAV"

def exampleSecret : String := "abcdefghijklmnopqrstuvwxyzabcdefghijklmnopq"

/-- The digest of the credential of the example, which is all that is digested. -/
def exampleSha256 (_ : String) : String :=
  "f42433d436d6a4533103dbfe8ee8c1b294d60191a0a966d656dac2fcd425f74a"

/-- A key is asked for, approved and installed, and a query returns what it has read. -/
def exampleActs : List (Act String) :=
  [.request exampleEnv (exampleClock 100) exampleUlid
    { invocationId := "invocation", workerId := "worker", fence := 1, callId := "call" }
    exampleDefinition,
   .decide exampleEnv (exampleClock 110) exampleUlid exampleSecret ("dar_" ++ exampleUlid)
    { decision := .approve, expectedVersion := 0, idempotencyKey := "key" },
   .handoff exampleEnv (exampleClock 120) ("dak_" ++ exampleUlid) .retrieve
    exampleRetrieve,
   .handoff exampleEnv (exampleClock 120) ("dak_" ++ exampleUlid) .installed
    exampleInstalled,
   .beginQuery exampleEnv ("dak_" ++ exampleUlid ++ "." ++ exampleSecret) .healthSleep true,
   .readQuery 0 (.ok "data"),
   .confirmQuery exampleEnv (exampleClock 130) 0]

theorem keys_lifecycle_installed :
    ∃ s, Runs.run (step exampleSha256 exampleProof) exampleActs init = some s ∧
      s.keys.map (fun key => (key.status, key.version)) = [(.installed, 1)] ∧
      s.queries.map (·.phase) = [.returned "data"] ∧
      ∀ now, 130 ≤ now → s.activeKeys now ≤ activeKeysPerOwner := by
  obtain ⟨s, hrun, hkeys, hqueries, hclock⟩ :
      ∃ s, Runs.run (step exampleSha256 exampleProof) exampleActs init = some s ∧
        s.keys.map (fun key => (key.status, key.version)) = [(.installed, 1)] ∧
        s.queries.map (·.phase) = [.returned "data"] ∧ s.clock = 130 :=
    Runs.exists_end (by decide +kernel)
  obtain ⟨_, hlimits, _⟩ :=
    keys_lifecycle exampleSha256 exampleProof exampleActs s hrun
  exact ⟨s, hrun, hkeys, hqueries, fun now hnow => (hlimits now (hclock ▸ hnow)).1⟩

end Bud.AppKeys
