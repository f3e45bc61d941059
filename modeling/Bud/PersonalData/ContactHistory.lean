import Bud.PersonalData.ContactPublishing

/-!
# What a phone sends, and what it comes to

A producer's history is its scans in order. What they come to is the fold of the scans: each one
overwrites the contacts it has records of, and a repair starts from nothing.
-/

namespace Bud.Contacts

open List

variable {F : Type} (sha256 : String → String) (parse : String → ℕ)

structure Scan (F : Type) where
  context : Context
  manifestEventId : String
  rows : List (RecordRow F)
  deriving DecidableEq

def Scan.manifest (scan : Scan F) : Manifest :=
  { context := scan.context
    expectedEventCount := scan.rows.length
    eventIdsSha256 := contactManifestDigest sha256 (scan.rows.map (·.clientEventId)) }

def Scan.manifestEvent (scan : Scan F) : Event F :=
  { eventId := scan.manifestEventId, payload := .manifest (scan.manifest sha256) }

def RecordRow.event (row : RecordRow F) : Event F :=
  { eventId := row.clientEventId, payload := .record row.payload }

def Scan.events (scan : Scan F) : List (Event F) :=
  scan.manifestEvent sha256 :: scan.rows.map (·.event)

def events (scans : List (Scan F)) : List (Event F) := scans.flatMap (·.events sha256)

/-- The records of a scan are about it and about different contacts. -/
structure Scan.WellFormed (scan : Scan F) : Prop where
  context : ∀ row ∈ scan.rows, row.payload.context = scan.context
  isUuid : ∀ row ∈ scan.rows, isUuid row.clientEventId = true
  filled : ∀ row ∈ scan.rows, row.payload.Filled
  nodup : (scan.rows.map (·.clientEventId)).Nodup
  separate : (scan.rows.map (·.payload.sourceContactId)).Nodup
  length_le : scan.rows.length ≤ 20000

def lastObserved (scans : List (Scan F)) : Option ℕ :=
  scans.getLast?.map fun scan => parse scan.context.observedAt

/-- Generations are consecutive, and a scan that is no repair names the time of the one before. -/
structure WellFormed (scans : List (Scan F)) : Prop where
  scan : ∀ scan ∈ scans, scan.WellFormed
  generation : scans.map (·.context.generation) = List.range' 1 scans.length
  scanIds : (scans.map (·.context.scanId)).Nodup
  previous : ∀ scan ∈ scans, scan.context.repair = false →
    scan.context.previousObservedAt.map parse =
      lastObserved parse (scans.take (scan.context.generation - 1))

/-! ### What the scans come to -/

/-- What is visible after a scan. -/
def Scan.apply (view : String → Option F) (scan : Scan F) : String → Option F := fun id =>
  match scan.rows.find? (·.payload.sourceContactId = id) with
  | some row => row.payload.shown
  | none => if scan.context.repair then none else view id

def viewOf (scans : List (Scan F)) : String → Option F := scans.foldl Scan.apply fun _ => none

variable {sha256 parse} {scans : List (Scan F)} {scan : Scan F}

@[simp] theorem context_manifest : (scan.manifest sha256).context = scan.context := rfl

theorem apply_of_mem (h : scan.WellFormed) (hrow : row ∈ scan.rows) (view : String → Option F) :
    scan.apply view row.payload.sourceContactId = row.payload.shown := by
  obtain ⟨found, hfound⟩ : ∃ found, scan.rows.find?
      (·.payload.sourceContactId = row.payload.sourceContactId) = some found :=
    Option.isSome_iff_exists.mp (find?_isSome.mpr ⟨row, hrow, by simp⟩)
  have heq : found = row :=
    inj_on_of_nodup_map h.separate (mem_of_find?_eq_some hfound) hrow
      (by simpa using find?_some hfound)
  rw [Scan.apply, hfound, heq]

theorem apply_of_not_mem {id : String} (h : id ∉ scan.rows.map (·.payload.sourceContactId))
    (view : String → Option F) :
    scan.apply view id = if scan.context.repair then none else view id := by
  have hnone : scan.rows.find? (·.payload.sourceContactId = id) = none := by
    refine find?_eq_none.mpr fun row hrow heq => h ?_
    exact mem_map.mpr ⟨row, hrow, by simpa using heq⟩
  rw [Scan.apply, hnone]

/-! ### Generations -/

namespace WellFormed

variable (h : WellFormed parse scans)

include h

theorem nodup_generation : (scans.map (·.context.generation)).Nodup := by
  rw [h.generation]
  exact nodup_range'

theorem eq_of_generation (ha : a ∈ scans) (hb : b ∈ scans)
    (heq : a.context.generation = b.context.generation) : a = b :=
  inj_on_of_nodup_map h.nodup_generation ha hb heq

theorem eq_of_scanId (ha : a ∈ scans) (hb : b ∈ scans) (heq : a.context.scanId = b.context.scanId) :
    a = b :=
  inj_on_of_nodup_map h.scanIds ha hb heq

theorem getElem?_generation (hscan : scan ∈ scans) :
    1 ≤ scan.context.generation ∧ scans[scan.context.generation - 1]? = some scan := by
  obtain ⟨i, hi⟩ := getElem?_of_mem hscan
  have hlt : i < scans.length := (List.getElem?_eq_some_iff.mp hi).1
  have hgeneration : scan.context.generation = i + 1 := by
    have hmap : (scans.map (·.context.generation))[i]? = some scan.context.generation := by
      rw [getElem?_map, hi, Option.map_some]
    rw [h.generation, getElem?_range' hlt] at hmap
    have heq := Option.some.inj hmap
    omega
  rw [hgeneration]
  exact ⟨Nat.succ_pos i, hi⟩

theorem generation_le (hscan : scan ∈ scans) : scan.context.generation ≤ scans.length := by
  obtain ⟨hpos, hget⟩ := h.getElem?_generation hscan
  have hlt := (List.getElem?_eq_some_iff.mp hget).1
  omega

theorem exists_generation {generation : ℕ} (hlt : generation < scans.length) :
    ∃ scan ∈ scans, scan.context.generation = generation + 1 := by
  have hmem : generation + 1 ∈ scans.map (·.context.generation) := by
    rw [h.generation, mem_range'_1]
    omega
  exact mem_map.mp hmem

theorem take_generation (hscan : scan ∈ scans) :
    scans.take scan.context.generation = scans.take (scan.context.generation - 1) ++ [scan] := by
  obtain ⟨hpos, hget⟩ := h.getElem?_generation hscan
  obtain ⟨g, hg⟩ : ∃ g, scan.context.generation = g + 1 := ⟨_, (Nat.succ_pred_eq_of_pos hpos).symm⟩
  rw [hg, Nat.add_sub_cancel] at hget ⊢
  rw [take_add_one, hget]
  rfl

theorem viewOf_take (hscan : scan ∈ scans) :
    viewOf (scans.take scan.context.generation) =
      scan.apply (viewOf (scans.take (scan.context.generation - 1))) := by
  rw [h.take_generation hscan, viewOf, foldl_append]
  rfl

theorem lastObserved_take (hscan : scan ∈ scans) :
    lastObserved parse (scans.take scan.context.generation) =
      some (parse scan.context.observedAt) := by
  rw [h.take_generation hscan, lastObserved, getLast?_append]
  rfl

end WellFormed

/-! ### Events -/

theorem context_of_mem_events (h : scan.WellFormed) (hevent : event ∈ scan.events sha256) :
    event.payload.context = scan.context := by
  rcases mem_cons.mp hevent with rfl | hevent
  · rfl
  · obtain ⟨row, hrow, rfl⟩ := mem_map.mp hevent
    exact h.context row hrow

theorem not_mem_events (hwf : WellFormed parse scans) {scan : Scan F} (hscan : scan ∈ scans)
    (hother : other ∈ scans) (hne : other ≠ scan) (h : event ∈ scan.events sha256) :
    event ∉ other.events sha256 := by
  intro h'
  refine hne (hwf.eq_of_generation hother hscan ?_)
  rw [← context_of_mem_events (hwf.scan scan hscan) h,
    ← context_of_mem_events (hwf.scan other hother) h']

theorem event_injective : Function.Injective (RecordRow.event (F := F)) := by
  rintro ⟨_, _⟩ ⟨_, _⟩ heq
  cases heq
  rfl

theorem nodup_rows (h : scan.WellFormed) : scan.rows.Nodup := h.nodup.of_map _

/-- **Nothing is sent twice.** -/
theorem nodup_events (h : WellFormed parse scans) : (events sha256 scans).Nodup := by
  refine nodup_flatMap.mpr ⟨fun scan hscan => ?_, ?_⟩
  · refine nodup_cons.mpr ⟨fun hmem => ?_, (nodup_rows (h.scan scan hscan)).map event_injective⟩
    obtain ⟨row, _, heq⟩ := mem_map.mp hmem
    cases congrArg Event.payload heq
  · refine (pairwise_map.mp h.nodup_generation).imp_of_mem ?_
    intro a b ha hb hne event hevent hevent'
    refine hne ?_
    rw [← context_of_mem_events (h.scan a ha) hevent, ← context_of_mem_events (h.scan b hb) hevent']

/-- **A manifest is about the records of its scan**, in any order. -/
theorem verify_of_perm [DecidableEq F] (h : scan.WellFormed) {rows : List (RecordRow F)}
    (hrows : rows.Perm scan.rows) :
    verifyContactScan sha256 (scan.manifest sha256) rows = true := by
  have hdigest : contactManifestDigest sha256 (rows.map (·.clientEventId)) =
      contactManifestDigest sha256 (scan.rows.map (·.clientEventId)) := by
    unfold contactManifestDigest
    have hsorted : (rows.map (·.clientEventId)).insertionSort (· ≤ ·) =
        (scan.rows.map (·.clientEventId)).insertionSort (· ≤ ·) :=
      ((perm_insertionSort _ _).trans ((hrows.map _).trans
        (perm_insertionSort _ _).symm)).eq_of_pairwise'
          (pairwise_insertionSort _ _) (pairwise_insertionSort _ _)
    rw [hsorted]
  simp only [verifyContactScan, Bool.and_eq_true, decide_eq_true_eq, all_eq_true]
  refine ⟨⟨⟨⟨hrows.length_eq, ?_⟩, ?_⟩, ?_⟩, hdigest⟩
  · exact (hrows.map _).nodup_iff.mpr h.nodup
  · exact (hrows.map _).nodup_iff.mpr h.separate
  · intro row hrow
    have hmem := hrows.mem_iff.mp hrow
    exact ⟨h.isUuid row hmem, h.context row hmem⟩

end Bud.Contacts
