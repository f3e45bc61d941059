import Bud.PersonalData.AdmissionSteps

/-!
# How many deliveries share a run

"At most this many deliveries share one run", `GROUP_LIMIT` says, which is 20. The limit is on the
other deliveries that are looked at when a run is started, so it leaves out the one that starts it;
and a straggler joins a run whatever its number.
-/

namespace Bud.Admission

open List

def State.members (s : State) (id : ℕ) : ℕ := s.deliveries.countP (·.invocationId = some id)

/-- All the others that a run may be started with are there and can share it. -/
def Crowded (revisions : String → ℕ → Option Revision) (env : Env) (s : State)
    (first : Prepared) : Prop :=
  isLocationTrigger first.definition = true ∧ (s.others env first).length = groupLimit ∧
    ∀ delivery ∈ s.others env first, (share revisions env s first delivery).isSome = true

instance (revisions : String → ℕ → Option Revision) (env : Env) (s : State) (first : Prepared) :
    Decidable (Crowded revisions env s first) :=
  inferInstanceAs (Decidable (_ ∧ _ ∧ _))

/-- A straggler only joins a run that has room, and a run is not started with a full group of
others. -/
def Plan.Fits (revisions : String → ℕ → Option Revision) (env : Env) (s : State) : Plan → Prop
  | .join _ id => s.members id < groupLimit
  | .start first => ¬ Crowded revisions env s first
  | _ => True

instance (revisions : String → ℕ → Option Revision) (env : Env) (s : State) :
    ∀ plan : Plan, Decidable (plan.Fits revisions env s)
  | .join _ id => inferInstanceAs (Decidable (s.members id < groupLimit))
  | .start first => inferInstanceAs (Decidable (¬ Crowded revisions env s first))
  | .idle | .settle _ _ | .fold _ => .isTrue trivial

def Fits (revisions : String → ℕ → Option Revision) (s : State) : Act → Prop
  | .admitNext env => (s.plan revisions env).Fits revisions env s
  | _ => True

instance (revisions : String → ℕ → Option Revision) (s : State) :
    ∀ act : Act, Decidable (Fits revisions s act)
  | .admitNext env => inferInstanceAs (Decidable ((s.plan revisions env).Fits revisions env s))
  | .deliver _ | .cancelPending _ | .progress _ _ => .isTrue trivial

variable {revisions : String → ℕ → Option Revision} {owner : String} {s t : State} {env : Env}
  {act : Act}

/-! ### Counting -/

theorem countP_eq_add {α : Type} {p q r : α → Bool} {l : List α}
    (h : ∀ a ∈ l, p a = (q a || r a) ∧ (q a && r a) = false) :
    l.countP p = l.countP q + l.countP r := by
  induction l with
  | nil => rfl
  | cons a l ih =>
    have ha := h a mem_cons_self
    rw [countP_cons, countP_cons, countP_cons, ih fun b hb =>
      h b (mem_cons_of_mem _ hb), ha.1]
    cases hq : q a with
    | false => simp [Nat.add_assoc]
    | true =>
      have hr : r a = false := by simpa [hq] using ha.2
      simp [hr, Nat.add_right_comm]

theorem countP_mem_ids {ids : List ℕ} (hdistinct : Distinct s) (hnodup : ids.Nodup)
    (hmem : ∀ id ∈ ids, ∃ delivery ∈ s.deliveries, delivery.id = id) :
    s.deliveries.countP (·.id ∈ ids) = ids.length := by
  have hperm : ((s.deliveries.map (·.id)).filter (· ∈ ids)).Perm ids := by
    refine (perm_ext_iff_of_nodup (hdistinct.filter _) hnodup).mpr fun id => ?_
    simp only [mem_filter, mem_map, decide_eq_true_eq]
    exact ⟨fun h => h.2, fun h => ⟨hmem id h, h⟩⟩
  rw [← hperm.length_eq, ← countP_eq_length_filter, countP_map]
  rfl

/-- Giving deliveries that have none a run adds them to it, and to no other. -/
theorem members_of_assigned {ids : List ℕ} {r : ℕ} (h : Assigned ids r s t)
    (hdistinct : Distinct s) (hnodup : ids.Nodup)
    (hnone : ∀ id ∈ ids, ∃ delivery ∈ s.deliveries,
      delivery.id = id ∧ delivery.invocationId = none) (id : ℕ) :
    t.members id = s.members id + if id = r then ids.length else 0 := by
  have hids : ∀ delivery ∈ s.deliveries, delivery.id ∈ ids → delivery.invocationId = none := by
    intro delivery hdelivery hid
    obtain ⟨other, hother, heq, hnone⟩ := hnone _ hid
    rwa [hdistinct.eq hdelivery hother heq.symm]
  obtain ⟨g, hg, hkept⟩ := h
  rw [State.members, State.members, hg, countP_map]
  split
  · next heq =>
    subst heq
    rw [← countP_mem_ids hdistinct hnodup fun id hid =>
      (hnone id hid).imp fun delivery hdelivery => ⟨hdelivery.1, hdelivery.2.1⟩]
    refine countP_eq_add fun delivery hdelivery => ?_
    rw [Function.comp_apply, (hkept delivery hdelivery).invocationId]
    by_cases hid : delivery.id ∈ ids
    · simp [hid, hids delivery hdelivery hid]
    · simp [hid]
  · next hne =>
    rw [Nat.add_zero]
    refine countP_congr fun delivery hdelivery => ?_
    rw [Function.comp_apply, (hkept delivery hdelivery).invocationId]
    by_cases hid : delivery.id ∈ ids
    · simp [hid, hids delivery hdelivery hid, Ne.symm hne]
    · simp [hid]

theorem Sound.members_length (hs : Sound s) : s.members s.runs.length = 0 := by
  refine countP_eq_zero.mpr fun delivery hdelivery hid => ?_
  exact absurd (hs.lt_length delivery hdelivery _ (by simpa using hid)) (lt_irrefl _)

theorem siblings_length_le (first : Prepared) :
    (siblings revisions env s first).length ≤ groupLimit := by
  unfold siblings
  split
  · exact (length_filterMap_le _ _).trans (length_take_le _ _)
  · exact Nat.zero_le _

/-- A group has more than the limit exactly when all the others share the run. -/
theorem crowded_iff (first : Prepared) :
    Crowded revisions env s first ↔ (siblings revisions env s first).length = groupLimit := by
  unfold Crowded siblings
  have hothers : (s.others env first).length ≤ groupLimit := length_take_le _ _
  have hshare := length_filterMap_le (share revisions env s first) (s.others env first)
  split
  · next hlocation =>
    simp only [hlocation, true_and]
    rw [← filterMap_length_eq_length]
    omega
  · next hlocation => simp [hlocation, groupLimit]

/-! ### Runs -/

/-- The limit, and what is needed to count. -/
structure Within (s : State) : Prop extends Sound s where
  members_le : ∀ id, s.members id ≤ groupLimit

theorem within_init : Within init := ⟨.init, fun _ => Nat.zero_le _⟩

/-- **A step keeps the limit exactly when it fits.** -/
theorem fits_iff_within (hs : Within s) (hstep : step revisions owner s act = some t) :
    Fits revisions s act ↔ Within t := by
  have hstepped := stepped_of_step hs.distinct hstep
  have ht := hs.toSound.step hstepped
  cases hstepped with
  | deliver hnone =>
    refine iff_of_true trivial ⟨ht, fun id => ?_⟩
    rw [State.members, countP_append]
    simpa [hnone, State.members] using hs.members_le id
  | quiet hassigned hruns hplan =>
    refine iff_of_true ?_ ⟨ht, fun id => ?_⟩
    · cases act with
      | admitNext env =>
        obtain ⟨hjoin, hstart⟩ := hplan env rfl
        unfold Fits Plan.Fits
        dsimp only
        split
        · next heq => exact absurd heq (hjoin _ _)
        · next heq => exact absurd heq (hstart _)
        · trivial
      | _ => trivial
    · have hmembers := members_of_assigned (hassigned 0) hs.distinct nodup_nil (by simp) id
      rw [hmembers, length_nil, ite_self]
      exact hs.members_le id
  | @join env item run t hplan hassigned =>
    cases planned_of_plan hplan with
    | join _ hmem hpending =>
      have hmembers := members_of_assigned hassigned hs.distinct (nodup_singleton _)
        (by simpa using ⟨_, hmem, rfl, invocationId_of_pending hpending⟩)
      simp only [Fits, hplan, Plan.Fits]
      constructor
      · refine fun hfits => ⟨ht, fun id => ?_⟩
        rw [hmembers]
        split
        · next heq => exact heq ▸ hfits
        · exact hs.members_le id
      · intro hwithin
        have hle := hwithin.members_le run
        rw [hmembers, if_pos rfl] at hle
        exact hle
  | @start env first t hplan _ hassigned =>
    cases planned_of_plan hplan with
    | start _ hmem hpending =>
      have hmembers := members_of_assigned hassigned hs.distinct (nodup_group hs.distinct) (by
        intro id hid
        obtain ⟨item, hitem, rfl⟩ := mem_map.mp hid
        obtain ⟨hmem, hpending⟩ := mem_group hmem hpending hitem
        exact ⟨_, hmem, rfl, invocationId_of_pending hpending⟩)
      rw [length_map, length_cons] at hmembers
      have hle := @siblings_length_le revisions s env first
      simp only [Fits, hplan, Plan.Fits, crowded_iff]
      constructor
      · refine fun hfits => ⟨ht, fun id => ?_⟩
        rw [hmembers]
        split
        · next heq =>
          rw [heq, hs.members_length]
          omega
        · exact hs.members_le id
      · intro hwithin
        have hlength := hwithin.members_le s.runs.length
        rw [hmembers, if_pos rfl, hs.members_length] at hlength
        omega
  | progress => exact iff_of_true trivial ⟨ht, hs.members_le⟩

/-- **When at most twenty deliveries share a run.** In every sequence of steps, the runs have at
most `groupLimit` deliveries in every state reached exactly when no run is started with a full group
of others and no straggler joins a run that is full. -/
theorem members_le_groupLimit_iff (revisions : String → ℕ → Option Revision) (owner : String)
    (acts : List Act) (s : State) (h : Runs.run (step revisions owner) acts init = some s) :
    Runs.Along (step revisions owner) (Fits revisions) acts init ↔
      ∀ bs cs t, acts = bs ++ cs → Runs.run (step revisions owner) bs init = some t →
        ∀ id, t.members id ≤ groupLimit := by
  rw [Runs.along_iff_forall_prefix (fun _ _ _ hs hstep => fits_iff_within hs hstep) h within_init]
  constructor
  · intro hwithin bs cs t heq hrun
    exact (hwithin bs cs t heq hrun).members_le
  · intro hle bs cs t heq hrun
    exact ⟨.of_run hrun, hle bs cs t heq hrun⟩

/-! ### A day with many arrivals -/

def exampleRevisions : String → ℕ → Option Revision :=
  fun _ _ => some { definition := exampleDefinition, grantVersion := 1 }

/-- Deliveries that come in while nothing is admitted, and one step of admission. -/
def exampleDay (n : ℕ) : List Act :=
  (List.range n).map (fun id => .deliver (exampleDelivery id)) ++ [.admitNext exampleEnv]

theorem members_le_groupLimit_iff_three :
    ∃ s, Runs.run (step exampleRevisions "owner") (exampleDay 3) init = some s ∧
      s.members 0 = 3 ∧ s.members 0 ≤ groupLimit := by
  refine ⟨_, rfl, by decide, ?_⟩
  exact (members_le_groupLimit_iff exampleRevisions "owner" (exampleDay 3) _ rfl).mp
    (by decide) (exampleDay 3) [] _ rfl rfl 0

set_option maxRecDepth 8192 in
/-- Twenty-one deliveries that are due together share one run. -/
theorem groupLimit_lt_members_exampleDay :
    ∃ s, Runs.run (step exampleRevisions "owner") (exampleDay 21) init = some s ∧
      groupLimit < s.members 0 := by
  have hmembers : (Runs.run (step exampleRevisions "owner") (exampleDay 21) init).map
      (·.members 0) = some 21 := by
    decide
  obtain ⟨s, hrun, hs⟩ := Option.map_eq_some_iff.mp hmembers
  exact ⟨s, hrun, by rw [hs]; decide⟩

end Bud.Admission
