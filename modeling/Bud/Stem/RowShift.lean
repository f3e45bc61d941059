import Bud.Stem.GridTracking
import Mathlib.Data.List.MinMax

/-!
# The row shift is sound

A take with a pending repaint ships a shift and the rows that it does not explain. The shift is the
one with the most votes, and a vote can be wrong: blank rows have equal contents, and a region that
was reordered votes for several shifts at once. Whatever shift wins, `detect_row_shift` looks at
every row once more and marks those dirty that are not, by identity, the row that the shift brings
there. So the client gets the current rows for any shift that is returned, and the votes only
decide how much is shipped.

Row numbers are `u16` in the source: `i as u16` is modulo `2 ^ 16`, and a viewport has no more rows.
-/

namespace Bud.Grid

open Emulator Session List

section

variable {R : Type}

/-! ### What a client does -/

/-- `new[i] = old[i + shift]`; what is exposed is whatever the client has there. -/
def shiftRows (shift : ℤ) (exposed : ℕ → R) (rows : List R) : List R :=
  (List.range rows.length).map fun i : ℕ =>
    let source := (i : ℤ) + shift
    if 0 ≤ source then (rows[source.toNat]?).getD (exposed i) else exposed i

def patchRows (contents : ℕ → R) (dirty : List ℕ) (rows : List R) : List R :=
  dirty.foldl (fun rows i => rows.set i (contents i)) rows

theorem length_patchRows (contents : ℕ → R) (dirty : List ℕ) (rows : List R) :
    (patchRows contents dirty rows).length = rows.length := by
  induction dirty generalizing rows with
  | nil => rfl
  | cons d dirty ih => exact (ih _).trans (length_set ..)

theorem getElem?_patchRows (contents : ℕ → R) (dirty : List ℕ) (hi : i < rows.length) :
    (patchRows contents dirty rows)[i]? = if i ∈ dirty then some (contents i) else rows[i]? := by
  induction dirty generalizing rows with
  | nil => simp [patchRows]
  | cons d dirty ih =>
    have hlen : i < (rows.set d (contents d)).length := by rwa [length_set]
    show (patchRows contents dirty (rows.set d (contents d)))[i]? = _
    rw [ih hlen]
    by_cases hmem : i ∈ dirty
    · rw [if_pos hmem, if_pos (mem_cons_of_mem _ hmem)]
    · rw [if_neg hmem]
      by_cases hd : d = i
      · subst hd
        rw [getElem?_set_self hi, if_pos mem_cons_self]
      · have hnot : i ∉ d :: dirty := by
          rw [mem_cons, not_or]
          exact ⟨Ne.symm hd, hmem⟩
        rw [getElem?_set_ne hd, if_neg hnot]

/-- **Shifting and patching gives the new rows**, if a row that is not patched is the one that the
shift brings there. -/
theorem patchRows_shiftRows {dirty : List ℕ}
    (h : ∀ i < n, i ∉ dirty → ∃ j < n, (j : ℤ) = i + shift ∧ new i = old j) :
    patchRows new dirty (shiftRows shift exposed ((range n).map old)) = (range n).map new := by
  have hlength : (shiftRows shift exposed ((range n).map old)).length = n := by
    simp [shiftRows]
  refine ext_getElem? fun i => ?_
  by_cases hi : i < n
  · rw [getElem?_patchRows new dirty (by rwa [hlength])]
    have hnew : ((range n).map new)[i]? = some (new i) := by simp [hi]
    rw [hnew]
    by_cases hmem : i ∈ dirty
    · rw [if_pos hmem]
    · obtain ⟨j, hj, hshift, heq⟩ := h i hi hmem
      rw [if_neg hmem, heq]
      have hsource : 0 ≤ (i : ℤ) + shift := by omega
      have htoNat : ((i : ℤ) + shift).toNat = j := by omega
      simp [shiftRows, hi, hsource, htoNat, hj]
  · have hout : (patchRows new dirty (shiftRows shift exposed ((range n).map old))).length ≤ i := by
      rw [length_patchRows, hlength]
      omega
    rw [getElem?_eq_none hout, getElem?_eq_none (by simpa using hi)]

end

/-! ### Detection -/

/-- What is returned: a baseline of the same geometry, and every row that is not matched. -/
theorem detectRowShift_eq_some {shift : ℤ}
    (h : detectRowShift choice baseline cols rows current = some (shift, dirty)) :
    ∃ base, baseline = some base ∧ base.ids.length = current.length ∧
      dirty = ((current.zipIdx).filter fun entry =>
        !rowMatched base.ids shift entry.2 entry.1).map Prod.snd := by
  cases baseline with
  | none => cases h
  | some base =>
    rw [detectRowShift] at h
    split_ifs at h with hgeometry
    rw [not_or, not_or, not_not, not_not, not_not] at hgeometry
    cases hpick : choice.pick (shiftVotes base.ids current) with
    | none =>
      rw [hpick] at h
      cases h
    | some vote =>
      rw [hpick] at h
      simp only at h
      split_ifs at h
      obtain ⟨rfl, rfl⟩ := Prod.mk.inj (Option.some.inj h)
      exact ⟨base, rfl, hgeometry.2.2, rfl⟩

theorem rowMatched_iff {prev : List (ℕ × UInt64)} {id : ℕ × UInt64} :
    rowMatched prev shift i id = true ↔ ∃ j : ℕ, (j : ℤ) = i + shift ∧ prev[j]? = some id := by
  simp only [rowMatched, Bool.and_eq_true, decide_eq_true_eq, beq_iff_eq]
  constructor
  · rintro ⟨hnonneg, hid⟩
    exact ⟨_, Int.toNat_of_nonneg hnonneg, hid⟩
  · rintro ⟨j, hj, hid⟩
    rw [← hj, Int.toNat_natCast]
    exact ⟨Int.natCast_nonneg j, hid⟩

/-- **The shift is sound**, whichever of the most voted wins: a client that shifts the rows of the
last frame and replaces those that are reported has the current rows, and every row that is not the
one the shift brings there is reported. -/
theorem detectRowShift_sound {R : Type} (choice : MostVoted) (baseline : Option RowIdBaseline)
    (cols rows : ℕ) (current : List (ℕ × UInt64)) (shift : ℤ) (dirty : List ℕ)
    (hrows : current.length ≤ 2 ^ 16)
    (h : detectRowShift choice baseline cols rows current = some (shift, dirty)) :
    ∃ base, baseline = some base ∧
      (∀ old new exposed : ℕ → R,
        (∀ (i j : ℕ) id, current[i]? = some id → base.ids[j]? = some id → new i = old j) →
          patchRows new (dirty.map (· % 2 ^ 16))
              (shiftRows shift exposed ((List.range base.ids.length).map old))
            = (List.range current.length).map new) ∧
      ∀ (i : ℕ) id, current[i]? = some id →
        (∀ j : ℕ, (j : ℤ) = i + shift → base.ids[j]? ≠ some id) →
          i ∈ dirty.map (· % 2 ^ 16) := by
  obtain ⟨base, rfl, hlength, rfl⟩ := detectRowShift_eq_some h
  have hunmatched : ∀ (i : ℕ) id, current[i]? = some id → rowMatched base.ids shift i id = false →
      i ∈ (((current.zipIdx).filter fun entry =>
        !rowMatched base.ids shift entry.2 entry.1).map Prod.snd).map (· % 2 ^ 16) := by
    intro i id hid hnot
    have hi : i < 2 ^ 16 := (List.getElem?_eq_some_iff.mp hid).1.trans_le hrows
    refine mem_map.mpr ⟨i, mem_map.mpr ⟨(id, i), ?_, rfl⟩, Nat.mod_eq_of_lt hi⟩
    refine mem_filter.mpr ⟨mem_zipIdx_iff_getElem?.mpr hid, ?_⟩
    rw [hnot]
    rfl
  refine ⟨base, rfl, fun old new exposed hsound => ?_, fun i id hid hnone => ?_⟩
  · rw [hlength]
    refine patchRows_shiftRows fun i hi hclean => ?_
    obtain ⟨id, hid⟩ : ∃ id, current[i]? = some id := ⟨_, getElem?_eq_getElem hi⟩
    have hmatched : rowMatched base.ids shift i id = true := by
      by_contra hnot
      exact hclean (hunmatched i id hid (Bool.not_eq_true _ ▸ hnot))
    obtain ⟨j, hj, hprev⟩ := rowMatched_iff.mp hmatched
    have hlt : j < current.length := by
      rw [← hlength]
      exact (List.getElem?_eq_some_iff.mp hprev).1
    exact ⟨j, hlt, hj, hsound i j id hid hprev⟩
  · refine hunmatched i id hid ?_
    by_contra hmatched
    obtain ⟨j, hj, hprev⟩ := rowMatched_iff.mp (Bool.not_eq_false _ ▸ hmatched)
    exact hnone j hj hprev

/-- `max_by_key`, when the votes are iterated in the order of their first rows. -/
def lastMostVoted : MostVoted where
  pick votes := votes.reverse.argmax Prod.snd
  mem h := List.mem_reverse.mp (List.argmax_mem h)
  most h _ hw := List.le_of_mem_argmax (List.mem_reverse.mpr hw) h
  eq_none := List.argmax_eq_none.trans List.reverse_eq_nil_iff

/-- The identities before and after a scroll by one line, with a line that was written since. -/
def unscrolledIds : List (ℕ × UInt64) := [(1, 10), (2, 20), (3, 30)]

def scrolledIds : List (ℕ × UInt64) := [(2, 20), (3, 30), (1, 40)]

def hashAt (ids : List (ℕ × UInt64)) (i : ℕ) : Option UInt64 := (ids[i]?).map Prod.snd

theorem detectRowShift_sound_scrolled :
    detectRowShift lastMostVoted (some ⟨8, 3, unscrolledIds⟩) 8 3 scrolledIds = some (1, [2]) ∧
      patchRows (hashAt scrolledIds) ([2].map (· % 2 ^ 16))
          (shiftRows 1 (fun _ => none) ((List.range 3).map (hashAt unscrolledIds)))
        = (List.range 3).map (hashAt scrolledIds) := by
  have hdetect : detectRowShift lastMostVoted (some ⟨8, 3, unscrolledIds⟩) 8 3 scrolledIds
      = some (1, [2]) := by decide +kernel
  obtain ⟨base, hbase, hpatch, -⟩ := detectRowShift_sound lastMostVoted _ 8 3 scrolledIds 1 [2]
    (by decide) hdetect
  obtain rfl := Option.some.inj hbase
  refine ⟨hdetect, hpatch _ _ _ fun i j id hi hj => ?_⟩
  rw [hashAt, hashAt, hi]
  exact congrArg (Option.map Prod.snd) hj.symm

end Bud.Grid
