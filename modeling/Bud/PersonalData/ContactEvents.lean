import Bud.PersonalData.ContactCollecting

/-!
# The contacts a scan adds

Whatever scans a source sends, a contact has one revision for each scan that has been published, and
is added, if it is, by the scan that it appears in first.
-/

namespace Bud.Contacts

open List Option

variable {F : Type} {sha256 : String → String} {parse : String → ℕ} {s t u : State F}
  {manifest : Manifest} {rebuild : Bool}

def State.Has (s : State F) (id : String) : Prop := (s.contact? id).isSome = true

/-- `new` are the contacts that have been added, none of which was there. -/
structure Adds (s t : State F) (new : List String) : Prop where
  added : t.added = s.added ++ new
  nodup : new.Nodup
  fresh : ∀ id ∈ new, ¬ s.Has id
  has : ∀ id ∈ new, t.Has id
  kept : ∀ id, s.Has id → t.Has id

theorem Adds.none (hadded : t.added = s.added) (hcontacts : t.contacts = s.contacts) :
    Adds s t [] := by
  refine ⟨by simp [hadded], nodup_nil, fun _ h => (nomatch h), fun _ h => (nomatch h), ?_⟩
  intro id hid
  rw [State.Has, State.contact?, hcontacts]
  exact hid

theorem Adds.trans (h : Adds s t new) (h' : Adds t u new') : Adds s u (new ++ new') := by
  constructor
  · rw [h'.added, h.added, append_assoc]
  · refine nodup_append.mpr ⟨h.nodup, h'.nodup, ?_⟩
    rintro id hid _ hid' rfl
    exact h'.fresh id hid' (h.has id hid)
  · intro id hid
    rcases mem_append.mp hid with hid | hid
    · exact h.fresh id hid
    · exact fun hhas => h'.fresh id hid (h.kept id hhas)
  · intro id hid
    rcases mem_append.mp hid with hid | hid
    · exact h'.kept id (h.has id hid)
    · exact h'.has id hid
  · exact fun id hid => h'.kept id (h.kept id hid)

/-- A source whose contacts have at most one revision from each scan. -/
structure Recorded (s : State F) : Prop where
  oneEach : OneEach s
  manifest : ∀ row ∈ s.scans, ∀ manifest, row.manifest = some manifest →
    manifest.context.generation = row.generation
  revision_le : ∀ revision ∈ s.revisions, revision.generation ≤ s.generation
  once : ∀ generation id, s.applied generation id ≤ 1

theorem recorded_init (jobs : List (Event F)) : Recorded (init jobs) :=
  ⟨nodup_nil, fun _ h => (nomatch h), fun _ h => (nomatch h), fun _ _ => Nat.zero_le 1⟩

theorem Recorded.of_scans (h : Recorded s) (hs : t = { s with scans := t.scans, jobs := t.jobs })
    (hmanifest : ∀ row ∈ t.scans, ∀ manifest, row.manifest = some manifest →
      manifest.context.generation = row.generation) : Recorded t := by
  rw [hs]
  exact { h with manifest := hmanifest }

theorem manifest_setScan
    (h : ∀ row ∈ s.scans, ∀ manifest, row.manifest = some manifest → manifest.context.generation =
      row.generation)
    (hupdate : ∀ row ∈ s.scans, row.generation = generation → (∀ manifest, row.manifest = some
      manifest → manifest.context.generation = row.generation) → ∀ manifest, (update row).manifest =
      some manifest → manifest.context.generation = (update row).generation) :
    ∀ row ∈ (s.setScan generation update).scans, ∀ manifest, row.manifest = some manifest →
      manifest.context.generation = row.generation := by
  intro row hrow
  obtain ⟨before, hbefore, rfl⟩ := mem_map.mp hrow
  split
  · next heq => exact hupdate before hbefore heq (h before hbefore)
  · exact h before hbefore

theorem manifest_openScan (context : Context)
    (h : ∀ row ∈ s.scans, ∀ manifest, row.manifest = some manifest →
      manifest.context.generation = row.generation) :
    ∀ row ∈ (s.openScan context).scans, ∀ manifest, row.manifest = some manifest →
      manifest.context.generation = row.generation := by
  unfold State.openScan
  split
  · exact h
  · exact forall_mem_append.mpr ⟨h, forall_mem_singleton.mpr (fun _ h => nomatch h)⟩

theorem processNext_keeps (event : Event F) :
    (s.processNext event).1 =
      { s with scans := (s.processNext event).1.scans, jobs := (s.processNext event).1.jobs } := by
  unfold State.processNext
  dsimp only
  split
  · rfl
  · split
    · rfl
    · have hopened := @openScan_keeps F s event.payload.context
      generalize s.openScan event.payload.context = opened at hopened ⊢
      rw [hopened]
      split
      · rfl
      · split <;> rfl

theorem Recorded.processNext (h : Recorded s) (event : Event F) :
    Recorded (s.processNext event).1 := by
  refine h.of_scans (processNext_keeps event) ?_
  unfold State.processNext
  dsimp only
  split
  · exact h.manifest
  · split
    · exact h.manifest
    · have hopened := manifest_openScan event.payload.context h.manifest
      split
      · exact manifest_setScan hopened fun row _ _ hrow => hrow
      · split
        · exact hopened
        · refine manifest_setScan hopened fun row _ hgeneration hrow manifest hmanifest => ?_
          unfold ScanRow.store at hmanifest ⊢
          split at hmanifest
          · next heq =>
            obtain rfl := some.inj hmanifest
            rw [heq] at hgeneration
            exact hgeneration.symm
          · exact hrow manifest hmanifest

/-! ### Publishing -/

variable [Inhabited F]

variable (parse s manifest rebuild) in
theorem adds_publishRecord (record : Record F) :
    ∃ new, Adds s (s.publishRecord parse rebuild manifest record) new := by
  have hkept : ∀ id, s.Has id → (s.publishRecord parse rebuild manifest record).Has id := by
    intro id hid
    rw [State.Has, contact?_publishRecord]
    split
    · rfl
    · exact hid
  have hhas : (s.publishRecord parse rebuild manifest record).Has record.sourceContactId := by
    rw [State.Has, contact?_publishRecord, if_pos rfl]
    rfl
  by_cases hnew : (!rebuild && (s.contact? record.sourceContactId).isNone &&
      (record.written parse manifest (s.contact? record.sourceContactId)).visible &&
        record.newlyObserved && manifest.context.scanMode = .incremental) = true
  · refine ⟨[record.sourceContactId], ?_, nodup_singleton _, ?_, ?_, hkept⟩
    · simp only [State.publishRecord]
      exact if_pos hnew
    · intro id hid
      obtain rfl := mem_singleton.mp hid
      simp only [Bool.and_eq_true] at hnew
      rw [State.Has, isNone_iff_eq_none.mp hnew.1.1.1.2]
      exact Bool.false_ne_true
    · intro id hid
      obtain rfl := mem_singleton.mp hid
      exact hhas
  · refine ⟨[], ?_, nodup_nil, fun _ h => absurd h not_mem_nil, fun _ h => absurd h not_mem_nil,
      hkept⟩
    simp only [State.publishRecord]
    rw [if_neg hnew, append_nil]

variable (parse s manifest rebuild) in
theorem adds_foldl (records : List (Record F)) :
    ∃ new, Adds s (records.foldl (State.publishRecord parse rebuild manifest) s) new := by
  induction records generalizing s with
  | nil => exact ⟨[], .none rfl rfl⟩
  | cons record records ih =>
    obtain ⟨new, hnew⟩ := adds_publishRecord parse s manifest rebuild record
    obtain ⟨new', hnew'⟩ := ih (s.publishRecord parse rebuild manifest record)
    exact ⟨new ++ new', hnew.trans hnew'⟩

variable (parse s manifest) in
theorem adds_repair (generation : ℕ) :
    ∃ new, Adds s (s.repair parse manifest generation) new := by
  obtain ⟨new, hnew⟩ :=
    adds_foldl parse s manifest true ((s.absent generation).map manifest.omits)
  exact ⟨new, hnew.added, hnew.nodup, hnew.fresh, hnew.has, hnew.kept⟩

/-- What a scan that is published comes to, before its row is closed. -/
def projected (parse : String → ℕ) (s : State F) (rebuild : Bool) (generation : ℕ)
    (manifest : Manifest) (records : List (Record F)) : State F :=
  let s := records.foldl (State.publishRecord parse rebuild manifest) s
  if manifest.context.repair then s.repair parse manifest generation else s

variable (parse s manifest rebuild) in
theorem adds_projected (generation : ℕ) (records : List (Record F)) :
    ∃ new, Adds s (projected parse s rebuild generation manifest records) new := by
  obtain ⟨new, hnew⟩ := adds_foldl parse s manifest rebuild records
  unfold projected
  dsimp only
  split
  · obtain ⟨new', hnew'⟩ := adds_repair parse
      (records.foldl (State.publishRecord parse rebuild manifest) s) manifest generation
    exact ⟨new ++ new', hnew.trans hnew'⟩
  · exact ⟨new, hnew⟩

variable {records : List (Record F)}

omit [Inhabited F] in
theorem countP_le_one (h : Separate records) (id : String) :
    records.countP (·.sourceContactId = id) ≤ 1 := by
  have hcount := nodup_iff_count_le_one.mp h id
  rw [count, countP_map] at hcount
  refine (countP_congr fun record _ => ?_).trans_le hcount
  simp

theorem generation_of_foldl
    (h : revision ∈ (records.foldl (State.publishRecord parse rebuild manifest) s).revisions) :
    revision ∈ s.revisions ∨ revision.generation = manifest.context.generation := by
  induction records generalizing s with
  | nil => exact .inl h
  | cons record records ih =>
    rcases ih h with h | h
    · rcases mem_append.mp h with h | h
      · exact .inl h
      · obtain rfl := mem_singleton.mp h
        exact .inr rfl
    · exact .inr h

theorem generation_of_projected
    (h : revision ∈ (projected parse s rebuild generation manifest records).revisions) :
    revision ∈ s.revisions ∨ revision.generation = manifest.context.generation := by
  unfold projected at h
  dsimp only at h
  split at h
  · exact (generation_of_foldl h).elim generation_of_foldl .inr
  · exact generation_of_foldl h

theorem oneEach_projected (hs : OneEach s) (generation : ℕ) (records : List (Record F)) :
    OneEach (projected parse s rebuild generation manifest records) := by
  unfold projected
  dsimp only
  split
  · exact hs.foldl.foldl
  · exact hs.foldl

/-- **A contact has at most one revision from each scan.** A repair makes up records only for
contacts that it has none of. -/
theorem applied_projected (hs : Recorded s) (hseparate : Separate records)
    (hlt : s.generation < manifest.context.generation) (generation : ℕ) (id : String) :
    (projected parse s rebuild manifest.context.generation manifest records).applied generation id
      ≤ 1 := by
  have hnone : s.applied manifest.context.generation id = 0 := by
    refine countP_eq_zero.mpr fun revision hrevision heq => ?_
    have hle := hs.revision_le revision hrevision
    have hgeneration : revision.generation = manifest.context.generation := by
      simpa using (Bool.and_eq_true_iff.mp heq).1
    omega
  have hfirst : (records.foldl (State.publishRecord parse rebuild manifest) s).applied
      generation id ≤ 1 := by
    rw [applied_foldl]
    split
    · next heq =>
      rw [heq, hnone, Nat.zero_add]
      exact countP_le_one hseparate id
    · exact hs.once generation id
  unfold projected
  dsimp only
  split
  · change State.applied (((State.absent _ _).map manifest.omits).foldl
      (State.publishRecord parse true manifest) _) generation id ≤ 1
    rw [applied_foldl]
    split
    · next heq =>
      by_cases hmem : ∃ record ∈ records, record.sourceContactId = id
      · obtain ⟨record, hrecord, rfl⟩ := hmem
        have habsent : (((records.foldl (State.publishRecord parse rebuild manifest) s).absent
            manifest.context.generation).map manifest.omits).countP
              (·.sourceContactId = record.sourceContactId) = 0 := by
          refine countP_eq_zero.mpr fun other hother hid => ?_
          obtain ⟨contact, hcontact, rfl⟩ := mem_map.mp hother
          obtain ⟨hin, _, hold⟩ := mem_absent.mp hcontact
          have hsame : contact.sourceContactId = record.sourceContactId := of_decide_eq_true hid
          obtain ⟨prior, hprior⟩ : ∃ prior,
              (records.foldl (State.publishRecord parse rebuild manifest) s).contact?
                record.sourceContactId = some (record.written parse manifest prior) :=
            contact?_foldl_of_mem hseparate hrecord
          have hget := contact?_of_mem hs.oneEach.foldl hin
          rw [hsame, hprior] at hget
          rw [← some.inj hget] at hold
          exact absurd hold (Nat.lt_irrefl _)
        rw [habsent]
        exact hfirst
      · have hzero : records.countP (·.sourceContactId = id) = 0 :=
          countP_eq_zero.mpr fun record hrecord hid =>
            hmem ⟨record, hrecord, by simpa using hid⟩
        rw [applied_foldl, if_pos heq, heq, hnone, hzero, Nat.zero_add]
        exact countP_le_one (separate_absent hs.oneEach.foldl _) id
    · exact hfirst
  · exact hfirst

/-! ### Steps -/

omit [Inhabited F] in
/-- A scan is closed once it has been published, or turns out not to match its manifest. -/
theorem Recorded.setScan (h : Recorded s) (generation : ℕ) (status : ScanStatus) :
    Recorded (s.setScan generation ({ · with status := status })) :=
  h.of_scans rfl (manifest_setScan h.manifest fun _ _ _ hrow => hrow)

theorem scans_projected (rebuild : Bool) (generation : ℕ) (records : List (Record F)) :
    ∀ row ∈ (projected parse s rebuild generation manifest records).scans,
      ∃ before ∈ s.scans, row.manifest = before.manifest ∧ row.generation = before.generation := by
  have hfoldl : (records.foldl (State.publishRecord parse rebuild manifest) s).scans = s.scans :=
    foldl_keeps.1
  unfold projected
  dsimp only
  split
  · intro row hrow
    obtain ⟨before, hbefore, rfl⟩ := mem_map.mp hrow
    rw [foldl_keeps.1, hfoldl] at hbefore
    refine ⟨before, hbefore, ?_⟩
    split <;> exact ⟨rfl, rfl⟩
  · intro row hrow
    rw [hfoldl] at hrow
    exact ⟨row, hrow, rfl, rfl⟩

/-- A scan that is published is a newer one, of different contacts. -/
theorem publishNext_keeps (h : Recorded s) (hscan : scan ∈ s.scans)
    (hmanifest : scan.manifest = some manifest) (hlt : s.generation < scan.generation) :
    Recorded (s.publishNext sha256 parse rebuild scan manifest rows) ∧
      ∃ new, Adds s (s.publishNext sha256 parse rebuild scan manifest rows) new := by
  unfold State.publishNext
  split
  · exact ⟨h.setScan _ _, [], .none rfl rfl⟩
  · next hverified =>
    have hgeneration := h.manifest scan hscan manifest hmanifest
    have hseparate : Separate (rows.map (·.payload)) := by
      simp only [verifyContactScan, Bool.or_eq_true, not_or, Bool.not_eq_true',
        Bool.not_eq_false, Bool.and_eq_true, decide_eq_true_eq] at hverified
      rw [Separate, List.map_map]
      exact hverified.1.1.1.2
    obtain ⟨new, hnew⟩ :=
      adds_projected parse s manifest rebuild scan.generation (rows.map (·.payload))
    refine ⟨?_, new, hnew.added, hnew.nodup, hnew.fresh, hnew.has, hnew.kept⟩
    have hrecorded : Recorded
        { projected parse s rebuild scan.generation manifest (rows.map (·.payload)) with
          generation := scan.generation
          observedAt := some (parse manifest.context.observedAt) } := by
      constructor
      · exact oneEach_projected h.oneEach _ _
      · intro row hrow other hother
        obtain ⟨before, hbefore, hsame, hrowgeneration⟩ := scans_projected rebuild _ _ row hrow
        exact (h.manifest before hbefore other (hsame ▸ hother)).trans hrowgeneration.symm
      · intro revision hrevision
        rcases generation_of_projected hrevision with hold | heq
        · exact (h.revision_le revision hold).trans hlt.le
        · exact (heq.trans hgeneration).le
      · rw [← hgeneration] at hlt ⊢
        exact applied_projected h hseparate hlt
    exact hrecorded.setScan scan.generation .published

variable [DecidableEq F]

/-- **A step of the processor** adds contacts that were not there. -/
theorem step_keeps (h : Recorded s) (hstep : step sha256 parse s act = some t) :
    Recorded t ∧ ∃ new, Adds s t new := by
  cases act with
  | process event =>
    obtain ⟨_, hstep⟩ := ite_none_right_eq_some.mp hstep
    have hkeeps := @processNext_keeps F s event
    have hrecorded := h.processNext event
    generalize s.processNext event = result at hkeeps hrecorded hstep
    obtain ⟨u, outcome⟩ := result
    have hwritten : Recorded { u with jobs := s.jobs.erase event } ∧
        ∃ new, Adds s { u with jobs := s.jobs.erase event } new := by
      have hadded := congrArg State.added hkeeps
      have hcontacts := congrArg State.contacts hkeeps
      exact ⟨hrecorded.of_scans rfl hrecorded.manifest, [], .none hadded hcontacts⟩
    cases outcome with
    | failed =>
      obtain rfl := some.inj hstep
      exact ⟨h, [], .none rfl rfl⟩
    | processed | superseded | invalid =>
      obtain rfl := some.inj hstep
      exact hwritten
  | publish rebuild generation rows =>
    obtain ⟨scan, hscan, hstep⟩ := bind_eq_some_iff.mp hstep
    obtain ⟨manifest, hmanifest, hstep⟩ := bind_eq_some_iff.mp hstep
    obtain ⟨⟨hdue, _⟩, hstep⟩ := ite_none_right_eq_some.mp hstep
    obtain rfl := some.inj hstep
    refine publishNext_keeps h (scan?_eq_some hscan).1 hmanifest ?_
    simp only [State.due, hmanifest, any_some, Bool.and_eq_true, Bool.or_eq_true,
      decide_eq_true_eq] at hdue
    rcases hdue.2.1 with hnext | ⟨_, hlt⟩
    · exact hnext ▸ Nat.lt_succ_self _
    · exact hlt

end Bud.Contacts
