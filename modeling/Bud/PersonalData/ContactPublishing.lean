import Bud.PersonalData.Contacts

/-!
# What publishing contacts does

Publishing a record writes one contact and adds one revision. For records of different contacts the
order does not matter, and what is visible afterwards can be read off the records.
-/

namespace Bud.Contacts

open List Option

variable {F : Type} {parse : String → ℕ} {s : State F} {rebuild : Bool} {manifest : Manifest}
  {record : Record F} {records : List (Record F)} {id : String}

def Record.shown (record : Record F) : Option F :=
  if record.change = .upsert then record.contact else none

/-- An upsert has the contact's fields. -/
def Record.Filled (record : Record F) : Prop := record.change = .upsert → record.contact ≠ none

def Separate (records : List (Record F)) : Prop := (records.map (·.sourceContactId)).Nodup

/-! ### Contacts -/

def OneEach (s : State F) : Prop := (s.contacts.map (·.sourceContactId)).Nodup

variable {contact : Contact F}

theorem contact?_eq_some (h : s.contact? id = some contact) :
    contact ∈ s.contacts ∧ contact.sourceContactId = id :=
  ⟨mem_of_find?_eq_some h, by simpa using find?_some h⟩

theorem contact?_of_mem (hs : OneEach s) (h : contact ∈ s.contacts) :
    s.contact? contact.sourceContactId = some contact := by
  obtain ⟨found, hfound⟩ : ∃ found, s.contact? contact.sourceContactId = some found := by
    refine isSome_iff_exists.mp (find?_isSome.mpr ⟨contact, h, by simp⟩)
  obtain ⟨hmem, hid⟩ := contact?_eq_some hfound
  rw [hfound, inj_on_of_nodup_map hs hmem h hid]

theorem find?_putContact (s : State F) (contact : Contact F) (id : String) :
    (s.putContact contact).find? (·.sourceContactId = id) =
      if id = contact.sourceContactId then some contact else s.contact? id := by
  unfold State.putContact
  split
  · next hprior =>
    obtain ⟨prior, hprior⟩ := isSome_iff_exists.mp hprior
    have hsame : ((fun other : Contact F => decide (other.sourceContactId = id)) ∘ fun other =>
        if other.sourceContactId = contact.sourceContactId then contact else other) =
          fun other => decide (other.sourceContactId = id) := by
      funext other
      by_cases heq : other.sourceContactId = contact.sourceContactId
      · simp [heq]
      · simp [heq]
    rw [find?_map, hsame]
    split
    · next hid =>
      subst hid
      have hfound := contact?_eq_some hprior
      rw [State.contact?] at hprior
      rw [hprior, map_some, if_pos hfound.2]
    · next hid =>
      cases hfound : s.contacts.find? (·.sourceContactId = id) with
      | none => rw [State.contact?, hfound, map_none]
      | some found =>
        have hfound' := (contact?_eq_some hfound).2
        rw [State.contact?, hfound, map_some, if_neg (hfound' ▸ hid)]
  · next hprior =>
    rw [find?_append]
    split
    · next hid =>
      subst hid
      rw [State.contact?, not_isSome_iff_eq_none] at hprior
      simp [hprior]
    · next hid => simp [State.contact?, Ne.symm hid]

theorem OneEach.putContact (hs : OneEach s) (contact : Contact F) :
    ((s.putContact contact).map (·.sourceContactId)).Nodup := by
  unfold State.putContact
  split
  · rw [List.map_map]
    refine (map_congr_left fun other _ => ?_) ▸ hs
    simp only [Function.comp_apply]
    split
    · next heq => exact heq
    · rfl
  · next hprior =>
    rw [map_append]
    refine nodup_append.mpr ⟨hs, nodup_singleton _, ?_⟩
    intro id hid other hother heq
    obtain ⟨found, hfound, rfl⟩ := mem_map.mp hid
    obtain rfl := mem_singleton.mp hother
    refine hprior (find?_isSome.mpr ⟨found, hfound, by simpa using heq⟩)

theorem separate_absent (hs : OneEach s) (generation : ℕ) :
    Separate ((s.absent generation).map manifest.omits) := by
  rw [Separate, List.map_map]
  exact hs.sublist (filter_sublist.map _)

theorem mem_absent : contact ∈ s.absent generation ↔
      contact ∈ s.contacts ∧ contact.visible = true ∧ contact.generation < generation := by
  rw [State.absent, mem_filter]
  simp

variable [Inhabited F]

theorem contact?_publishRecord (id : String) :
    (s.publishRecord parse rebuild manifest record).contact? id =
      if id = record.sourceContactId then
        some (record.written parse manifest (s.contact? record.sourceContactId))
      else s.contact? id :=
  find?_putContact s _ id

theorem shown_written (h : record.Filled) (prior : Option (Contact F)) :
    (if (record.written parse manifest prior).visible then
      some (record.written parse manifest prior).fields else none) = record.shown := by
  unfold Record.written Record.shown
  by_cases hchange : record.change = .upsert
  · obtain ⟨fields, hfields⟩ := ne_none_iff_exists'.mp (h hchange)
    simp [hchange, hfields]
  · simp [hchange]

/-! ### Some records -/

theorem contact?_foldl_of_not_mem (h : id ∉ records.map (·.sourceContactId)) :
    (records.foldl (State.publishRecord parse rebuild manifest) s).contact? id = s.contact? id := by
  induction records generalizing s with
  | nil => rfl
  | cons record records ih =>
    rw [map_cons, mem_cons, not_or] at h
    rw [foldl_cons, ih h.2, contact?_publishRecord, if_neg h.1]

theorem contact?_foldl_of_mem (hseparate : Separate records) (h : record ∈ records) :
    ∃ prior, (records.foldl (State.publishRecord parse rebuild manifest) s).contact?
      record.sourceContactId = some (record.written parse manifest prior) := by
  induction records generalizing s with
  | nil => cases h
  | cons first records ih =>
    obtain ⟨hfirst, hseparate⟩ := nodup_cons.mp hseparate
    rw [foldl_cons]
    rcases mem_cons.mp h with rfl | h
    · rw [contact?_foldl_of_not_mem hfirst, contact?_publishRecord, if_pos rfl]
      exact ⟨_, rfl⟩
    · exact ih hseparate h

/-- **What is visible after some records** of different contacts. -/
theorem view_foldl_of_mem (hseparate : Separate records) (hfilled : record.Filled)
    (h : record ∈ records) :
    (records.foldl (State.publishRecord parse rebuild manifest) s).view record.sourceContactId =
      record.shown := by
  obtain ⟨prior, hprior⟩ := contact?_foldl_of_mem hseparate h
  rw [State.view, hprior, bind_some, shown_written hfilled]

theorem view_foldl_of_not_mem (h : id ∉ records.map (·.sourceContactId)) :
    (records.foldl (State.publishRecord parse rebuild manifest) s).view id = s.view id := by
  rw [State.view, contact?_foldl_of_not_mem h, State.view]

theorem foldl_keeps :
    (records.foldl (State.publishRecord parse rebuild manifest) s).scans = s.scans ∧
      (records.foldl (State.publishRecord parse rebuild manifest) s).jobs = s.jobs := by
  induction records generalizing s with
  | nil => exact ⟨rfl, rfl⟩
  | cons record records ih => exact ih

theorem OneEach.foldl (hs : OneEach s) :
    OneEach (records.foldl (State.publishRecord parse rebuild manifest) s) := by
  induction records generalizing s with
  | nil => exact hs
  | cons record records ih => exact ih (hs.putContact _)

theorem contact_le_foldl
    (h : ∀ contact ∈ s.contacts, contact.generation ≤ manifest.context.generation)
    (hs : OneEach s) :
    ∀ contact ∈ (records.foldl (State.publishRecord parse rebuild manifest) s).contacts,
      contact.generation ≤ manifest.context.generation := by
  induction records generalizing s with
  | nil => exact h
  | cons record records ih =>
    refine ih (fun contact hcontact => ?_) (hs.putContact _)
    have hget := contact?_of_mem (s := s.publishRecord parse rebuild manifest record)
      (hs.putContact _) hcontact
    rw [contact?_publishRecord] at hget
    split at hget
    · obtain rfl := some.inj hget
      exact Nat.le_refl _
    · exact h contact (contact?_eq_some hget).1

def State.applied (s : State F) (generation : ℕ) (id : String) : ℕ :=
  s.revisions.countP fun revision =>
    revision.generation = generation && revision.sourceContactId = id

theorem applied_foldl (generation : ℕ) (id : String) :
    (records.foldl (State.publishRecord parse rebuild manifest) s).applied generation id =
      s.applied generation id + if generation = manifest.context.generation then
        records.countP (·.sourceContactId = id) else 0 := by
  induction records generalizing s with
  | nil => simp
  | cons record records ih =>
    have hone : (s.publishRecord parse rebuild manifest record).applied generation id =
        s.applied generation id + if generation = manifest.context.generation ∧
          record.sourceContactId = id then 1 else 0 := by
      rw [State.applied, State.applied, State.publishRecord, countP_append, countP_singleton]
      refine congrArg _ (if_congr ?_ rfl rfl)
      rw [Bool.and_eq_true, decide_eq_true_eq, decide_eq_true_eq, Record.written]
      exact and_congr_left' eq_comm
    rw [foldl_cons, ih, hone, countP_cons]
    by_cases hgeneration : generation = manifest.context.generation
    · by_cases hid : record.sourceContactId = id
      · simp [hgeneration, hid, Nat.add_assoc, Nat.add_comm 1]
      · simp [hgeneration, hid]
    · simp [hgeneration]

omit [Inhabited F] in
theorem countP_of_mem (hseparate : Separate records) (h : record ∈ records) :
    records.countP (·.sourceContactId = record.sourceContactId) = 1 := by
  have hone := count_eq_one_of_mem hseparate (mem_map_of_mem h)
  rw [count, countP_map] at hone
  rw [← hone]
  refine countP_congr fun other _ => ?_
  simp

/-- A contact that has been added is there, and has been added once. -/
structure Noted (s : State F) : Prop where
  nodup : s.added.Nodup
  isSome : ∀ id ∈ s.added, (s.contact? id).isSome = true

theorem Noted.publishRecord (hs : Noted s) (record : Record F) :
    Noted (s.publishRecord parse rebuild manifest record) := by
  have hstays : ∀ id, (s.contact? id).isSome = true →
      ((s.publishRecord parse rebuild manifest record).contact? id).isSome = true := by
    intro id hid
    rw [contact?_publishRecord]
    split
    · rfl
    · exact hid
  have hnow : ((s.publishRecord parse rebuild manifest record).contact?
      record.sourceContactId).isSome = true := by
    rw [contact?_publishRecord, if_pos rfl]
    rfl
  have hadded : (s.publishRecord parse rebuild manifest record).added = s.added ∨
      (s.contact? record.sourceContactId).isNone = true ∧
        (s.publishRecord parse rebuild manifest record).added =
          s.added ++ [record.sourceContactId] := by
    simp only [State.publishRecord]
    split
    · next hnew =>
      simp only [Bool.and_eq_true] at hnew
      exact .inr ⟨hnew.1.1.1.2, rfl⟩
    · exact .inl rfl
  rcases hadded with hadded | ⟨hnone, hadded⟩
  · constructor
    · rw [hadded]
      exact hs.nodup
    · intro id hid
      rw [hadded] at hid
      exact hstays id (hs.isSome id hid)
  · constructor
    · rw [hadded]
      refine nodup_append.mpr ⟨hs.nodup, nodup_singleton _, ?_⟩
      intro id hid other hother heq
      obtain rfl := mem_singleton.mp hother
      have hsome := hs.isSome _ (heq ▸ hid)
      rw [isNone_iff_eq_none.mp hnone] at hsome
      cases hsome
    · intro id hid
      rw [hadded] at hid
      rcases mem_append.mp hid with hid | hid
      · exact hstays id (hs.isSome id hid)
      · obtain rfl := mem_singleton.mp hid
        exact hnow

/-- **A contact is added at most once.** -/
theorem Noted.foldl (hs : Noted s) :
    Noted (records.foldl (State.publishRecord parse rebuild manifest) s) := by
  induction records generalizing s with
  | nil => exact hs
  | cons record records ih => exact ih (hs.publishRecord record)

/-! ### Repairs -/

/-- **A repair leaves visible only the contacts it has**, which are those of its generation. -/
theorem view_repair (hs : OneEach s) (generation : ℕ) (id : String) :
    (s.repair parse manifest generation).view id = (s.contact? id).bind fun contact =>
        if contact.visible = true ∧ ¬ contact.generation < generation then some contact.fields
        else none := by
  change State.view (((s.absent generation).map manifest.omits).foldl
    (State.publishRecord parse true manifest) s) id = _
  by_cases habsent : ∃ contact ∈ s.absent generation, contact.sourceContactId = id
  · obtain ⟨contact, hcontact, rfl⟩ := habsent
    obtain ⟨hmem, hvisible, hlt⟩ := mem_absent.mp hcontact
    have hfilled : (manifest.omits contact).Filled := fun h => by cases h
    have hview : State.view (((s.absent generation).map manifest.omits).foldl
        (State.publishRecord parse true manifest) s) contact.sourceContactId =
          (manifest.omits contact).shown :=
      view_foldl_of_mem (separate_absent hs generation) hfilled (mem_map_of_mem hcontact)
    rw [contact?_of_mem hs hmem]
    simpa [Record.shown, Manifest.omits, Nat.not_le.mpr hlt] using hview
  · rw [view_foldl_of_not_mem, State.view]
    · cases hfound : s.contact? id with
      | none => rfl
      | some contact =>
        have hge : contact.visible = true → ¬ contact.generation < generation := by
          intro hvisible hlt
          obtain ⟨hmem, hid⟩ := contact?_eq_some hfound
          exact habsent ⟨contact, mem_absent.mpr ⟨hmem, hvisible, hlt⟩, hid⟩
        by_cases hvisible : contact.visible = true
        · simp [hvisible, hge hvisible]
        · simp [hvisible]
    · intro hid
      rw [List.map_map] at hid
      obtain ⟨contact, hcontact, heq⟩ := mem_map.mp hid
      exact habsent ⟨contact, hcontact, heq⟩

end Bud.Contacts
