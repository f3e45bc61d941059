import Mathlib.Data.List.Nodup

/-!
# Calls that wait for a verdict

Calls are issued under keys and wait in a table. An event gives some of the waiting calls a verdict,
by the key and what is kept with the call, and takes them out of the table. As long as no key is
issued twice, a call is settled by the first event after it that has a verdict for it, once, and it
waits until then and no longer (`settled_by_first`).

## Main definitions

* `Op` — a call is issued, or an event decides
* `Calls`, `Calls.apply` — the table, and the verdicts so far
-/

namespace PendingCalls

open List

variable {κ ε ο : Type*}

inductive Op (κ ε ο : Type*) where
  | issue (key : κ) (entry : ε)
  | decide (verdict : κ → ε → Option ο)

structure Calls (κ ε ο : Type*) where
  pending : List (κ × ε)
  settled : List (κ × ο)

namespace Calls

def empty : Calls κ ε ο := { pending := [], settled := [] }

def apply (c : Calls κ ε ο) : Op κ ε ο → Calls κ ε ο
  | .issue key entry => { c with pending := c.pending ++ [(key, entry)] }
  | .decide verdict =>
    { pending := c.pending.filter fun call => (verdict call.1 call.2).isNone
      settled := c.settled ++ c.pending.filterMap fun call =>
        (verdict call.1 call.2).map fun o => (call.1, o) }

def applyAll (c : Calls κ ε ο) (ops : List (Op κ ε ο)) : Calls κ ε ο := ops.foldl apply c

theorem applyAll_append (c : Calls κ ε ο) (ops ops' : List (Op κ ε ο)) :
    c.applyAll (ops ++ ops') = (c.applyAll ops).applyAll ops' := foldl_append

end Calls

/-- The verdict of an event for a call. -/
def Op.verdict (key : κ) (entry : ε) : Op κ ε ο → Option ο
  | .issue _ _ => none
  | .decide verdict => verdict key entry

def Op.issued : Op κ ε ο → Option κ
  | .issue key _ => some key
  | .decide _ => none

variable [DecidableEq κ]

def under (key : κ) {α : Type*} (l : List (κ × α)) : List α :=
  (l.filter fun x => decide (x.1 = key)).map Prod.snd

@[simp] theorem under_append (key : κ) {α : Type*} (l m : List (κ × α)) :
    under key (l ++ m) = under key l ++ under key m := by
  simp [under]

variable {key : κ} {entry : ε} {verdict : Option ο}

/-- What a list holds nothing under is not one of its keys. -/
theorem under_ne_nil_iff {α : Type*} {l : List (κ × α)} :
    under key l ≠ [] ↔ key ∈ l.map Prod.fst := by
  rw [under, Ne, map_eq_nil_iff, filter_eq_nil_iff, mem_map]
  push Not
  simp only [decide_eq_true_eq]

/-- Of the waiting calls, an event leaves under a key those it has no verdict for. -/
theorem under_filter (key : κ) (l : List (κ × ε)) (verdict : κ → ε → Option ο) :
    under key (l.filter fun call => (verdict call.1 call.2).isNone)
      = (under key l).filter fun entry => (verdict key entry).isNone := by
  induction l with
  | nil => rfl
  | cons call l ih =>
    simp only [under] at ih ⊢
    by_cases hkey : call.1 = key <;> by_cases hnone : (verdict call.1 call.2).isNone = true <;>
      simp_all

theorem under_filterMap (key : κ) (l : List (κ × ε)) (verdict : κ → ε → Option ο) :
    under key (l.filterMap fun call => (verdict call.1 call.2).map fun o => (call.1, o))
      = (under key l).filterMap (verdict key) := by
  induction l with
  | nil => rfl
  | cons call l ih =>
    simp only [under] at ih ⊢
    by_cases hkey : call.1 = key
    · subst hkey
      cases hv : verdict call.1 call.2 <;> simp_all
    · cases hv : verdict call.1 call.2 <;> simp_all

/-- How a call stands: it waits, or it has its one verdict. -/
structure Stands (c : Calls κ ε ο) (key : κ) (entry : ε) (verdict : Option ο) : Prop where
  pending : under key c.pending = if verdict.isNone then [entry] else []
  settled : under key c.settled = verdict.toList

theorem Stands.mem_pending_iff {c : Calls κ ε ο} (h : Stands c key entry verdict) :
    key ∈ c.pending.map Prod.fst ↔ verdict = none := by
  rw [← under_ne_nil_iff, h.pending]
  cases verdict <;> simp

theorem stands_issue {c : Calls κ ε ο} (entry : ε) (hpending : under key c.pending = [])
    (hsettled : under key c.settled = []) : Stands (c.apply (.issue key entry)) key entry none := by
  constructor
  · rw [Calls.apply, under_append, hpending]
    simp [under]
  · exact hsettled

/-- **The first verdict stays.** -/
theorem Stands.apply {c : Calls κ ε ο} (h : Stands c key entry verdict) {op : Op κ ε ο}
    (hop : op.issued ≠ some key) :
    Stands (c.apply op) key entry (verdict.or (op.verdict key entry)) := by
  cases op with
  | issue key' entry' =>
    have hne : key' ≠ key := fun heq => hop (congrArg some heq)
    refine ⟨?_, ?_⟩
    · rw [Calls.apply, under_append, h.pending, Op.verdict, Option.or_none]
      simp [under, hne]
    · rw [Op.verdict, Option.or_none]
      exact h.settled
  | decide f =>
    refine ⟨?_, ?_⟩
    · rw [Calls.apply, under_filter, h.pending, Op.verdict]
      cases verdict with
      | some o => simp
      | none => cases hf : f key entry <;> simp [hf]
    · rw [Calls.apply, under_append, under_filterMap, h.pending, h.settled, Op.verdict]
      cases verdict with
      | some o => simp
      | none => cases hf : f key entry <;> simp [hf]

theorem Stands.applyAll {c : Calls κ ε ο} {ops : List (Op κ ε ο)} (h : Stands c key entry verdict)
    (hops : ∀ op ∈ ops, op.issued ≠ some key) :
    Stands (c.applyAll ops) key entry (verdict.or (ops.findSome? (Op.verdict key entry))) := by
  induction ops generalizing c verdict with
  | nil => simpa [Calls.applyAll] using h
  | cons op ops ih =>
    have hone := h.apply (hops op (mem_cons_self ..))
    have hrest := ih hone fun op' hop' => hops op' (mem_cons_of_mem _ hop')
    have hverdict : verdict.or ((op :: ops).findSome? (Op.verdict key entry))
        = (verdict.or (op.verdict key entry)).or (ops.findSome? (Op.verdict key entry)) := by
      rw [Option.or_assoc, findSome?_cons]
      cases op.verdict key entry <;> rfl
    rw [hverdict]
    exact hrest

theorem absent_applyAll {ops : List (Op κ ε ο)} {c : Calls κ ε ο}
    (hpending : under key c.pending = []) (hsettled : under key c.settled = [])
    (hops : ∀ op ∈ ops, op.issued ≠ some key) :
    under key (c.applyAll ops).pending = [] ∧ under key (c.applyAll ops).settled = [] := by
  induction ops generalizing c with
  | nil => exact ⟨hpending, hsettled⟩
  | cons op ops ih =>
    have hop := hops op (mem_cons_self ..)
    have hstep : under key (c.apply op).pending = [] ∧ under key (c.apply op).settled = [] := by
      cases op with
      | issue key' entry' =>
        have hne : key' ≠ key := fun heq => hop (congrArg some heq)
        refine ⟨?_, hsettled⟩
        rw [Calls.apply, under_append, hpending]
        simp [under, hne]
      | decide f =>
        refine ⟨?_, ?_⟩
        · rw [Calls.apply, under_filter, hpending]
          rfl
        · rw [Calls.apply, under_append, under_filterMap, hpending, hsettled]
          rfl
    exact ih hstep.1 hstep.2 fun op' hop' => hops op' (mem_cons_of_mem _ hop')

/-- **A call is settled by the first event that has a verdict for it**, and by no other; until then
it waits. -/
theorem settled_by_first {before after : List (Op κ ε ο)}
    (hnodup : ((before ++ .issue key entry :: after).filterMap Op.issued).Nodup) :
    Stands (Calls.empty.applyAll (before ++ .issue key entry :: after)) key entry
      (after.findSome? (Op.verdict key entry)) := by
  have hissued : Op.issued (.issue key entry : Op κ ε ο) = some key := rfl
  rw [filterMap_append, filterMap_cons_some hissued] at hnodup
  obtain ⟨-, hafter, hapart⟩ := nodup_append.mp hnodup
  have hbefore : ∀ op ∈ before, op.issued ≠ some key := fun op hop heq =>
    hapart key (mem_filterMap.mpr ⟨op, hop, heq⟩) key (mem_cons_self ..) rfl
  have hlater : ∀ op ∈ after, op.issued ≠ some key := fun op hop heq =>
    (nodup_cons.mp hafter).1 (mem_filterMap.mpr ⟨op, hop, heq⟩)
  obtain ⟨hpending, hsettled⟩ :=
    @absent_applyAll κ ε ο _ key before Calls.empty rfl rfl hbefore
  rw [Calls.applyAll_append]
  have hstands := (stands_issue entry hpending hsettled).applyAll hlater
  rw [Option.none_or] at hstands
  exact hstands

end PendingCalls
