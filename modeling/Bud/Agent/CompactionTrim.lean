import Bud.Agent.Conversation
import Bud.Lib.Precedence

/-!
# Trimming a compaction request

`context-compactor.ts`: a request that is too large for the model loses its second message, and with
it one message that holds the other half of a tool call, until it fits or only two messages are
left.

A message is an object: `Ref` is its identity and `deref` its content, so that no reference occurs
twice in a request though two messages may say the same. Copying a request copies its contents.

`Paired` is what providers ask of a request: each tool call is answered further down, and each
result answers a call further up. The partner of the removed message is one message, while a message
may hold several calls that are answered in several others. The trimmed request is paired exactly
when the two removed messages leave nothing behind that needs them (`Detached`).
-/

namespace Bud.Compaction

open Conversation Precedence List Option

variable {Ref : Type} (deref : Ref → CanonicalMessage)

/-! ### The trimming -/

/-- `messages.findIndex((message, index) => p(message, index))`. -/
def findIndex (p : Ref → ℕ → Bool) (messages : List Ref) : Option ℕ :=
  (messages.zipIdx.find? fun x => p x.1 x.2).map (·.2)

/-- The greatest index below `bound` whose message is as `p` says. -/
def findLastIndexBelow (bound : ℕ) (p : Ref → Bool) (messages : List Ref) : Option ℕ :=
  ((messages.take bound).zipIdx.reverse.find? fun x => p x.1).map (·.2)

def intersects (left right : List String) : Bool := left.any fun value => right.contains value

/-- `removePairedToolMessage` when the removed message has tool calls: the first message behind it
that answers one of them goes. -/
def removeAnswer (messages : List Ref) (removed : Ref) (removedIndex : ℕ) : List Ref :=
  let removedToolUseIds := (deref removed).uses
  if removedToolUseIds.isEmpty then messages
  else
    match findIndex (fun message index => decide (removedIndex ≤ index) &&
      intersects (deref message).results removedToolUseIds) messages with
    | some pairIndex => messages.eraseIdx pairIndex
    | none => messages

/-- `removePairedToolMessage` when the removed message has results: the last message in front of it
that made one of the calls goes. -/
def removeCall (messages : List Ref) (removed : Ref) (removedIndex : ℕ) : List Ref :=
  let removedToolResultIds := (deref removed).results
  if removedToolResultIds.isEmpty then messages
  else
    match findLastIndexBelow removedIndex
      (fun message => intersects (deref message).uses removedToolResultIds) messages with
    | some index => messages.eraseIdx index
    | none => messages

def removePairedToolMessage (messages : List Ref) (removed : Ref) (removedIndex : ℕ) : List Ref :=
  removeCall deref (removeAnswer deref messages removed removedIndex) removed removedIndex

def removeMessage (messages : List Ref) (removableIndex : ℕ) : List Ref :=
  match messages[removableIndex]? with
  | some removed =>
    removePairedToolMessage deref (messages.eraseIdx removableIndex) removed removableIndex
  | none => messages

def trimCompactionRequest (messages : List Ref) : Option (List Ref) :=
  if messages.length ≤ 2 then none
  else
    match findIndex (fun _ index => decide (0 < index) && decide (index < messages.length - 1))
      messages with
    | none => none
    | some removableIndex =>
      let trimmed := removeMessage deref messages removableIndex
      if trimmed.length < messages.length then some trimmed else none

theorem length_lt_of_trim {messages trimmed : List Ref}
    (h : trimCompactionRequest deref messages = some trimmed) :
    trimmed.length < messages.length := by
  rw [trimCompactionRequest] at h
  split at h
  · contradiction
  split at h
  · contradiction
  dsimp only at h
  split at h
  next hlt =>
    obtain rfl := some.inj h
    exact hlt
  next => contradiction

/-- The loop of `trimCompactionRequestToEstimatedBudget`. -/
def trimWhile (estimate : List CanonicalMessage → ℤ) (maxTokens : ℤ) (messages : List Ref) :
    List Ref :=
  if estimate (messages.map deref) > maxTokens then
    match _h : trimCompactionRequest deref messages with
    | some next => trimWhile estimate maxTokens next
    | none => messages
  else messages
termination_by messages.length
decreasing_by exact length_lt_of_trim deref _h

/-- A budget of `null`, or of `0`, is no budget. -/
def trimCompactionRequestToEstimatedBudget (estimate : List CanonicalMessage → ℤ)
    (maxTokens : Option ℤ) (messages : List Ref) : List Ref :=
  match maxTokens with
  | none => messages
  | some maxTokens =>
    if maxTokens = 0 then messages else trimWhile deref estimate maxTokens messages

/-! ### Paired requests -/

/-- Each tool call is answered by a later message, and each result answers a call of an earlier
one. -/
structure Paired (messages : List Ref) : Prop where
  answered : ∀ m ∈ messages, ∀ id ∈ (deref m).uses,
    ∃ a, Precedes messages m a ∧ id ∈ (deref a).results
  called : ∀ m ∈ messages, ∀ id ∈ (deref m).results,
    ∃ c, Precedes messages c m ∧ id ∈ (deref c).uses

/-- What stays does not need what goes: a result for a call that goes has another call, and a call
that loses a result has another result. -/
structure Detached (messages : List Ref) (gone : Ref → Prop) : Prop where
  called : ∀ m ∈ messages, ¬ gone m → ∀ id ∈ (deref m).results, ∀ g, gone g → id ∈ (deref g).uses →
    ∃ c, Precedes messages c m ∧ ¬ gone c ∧ id ∈ (deref c).uses
  answered : ∀ m ∈ messages, ¬ gone m → ∀ id ∈ (deref m).uses, ∀ g, gone g →
    id ∈ (deref g).results → ∃ a, Precedes messages m a ∧ ¬ gone a ∧ id ∈ (deref a).results

/-- The second message holds no results; the first message behind it that answers one of its calls
is not the last; and what stays does not need the two. -/
def Separable (messages : List Ref) : Prop :=
  ∀ first removed rest, messages = first :: removed :: rest → rest ≠ [] →
    (deref removed).results = [] ∧
      ∀ partner,
        rest.find? (fun m => intersects (deref m).results (deref removed).uses) = some partner →
        rest.getLast? ≠ some partner ∧
          Detached deref messages fun m => m = removed ∨ m = partner

/-- The request is still paired and has the first and the last message it had. -/
structure Keeps (messages trimmed : List Ref) : Prop where
  paired : Paired deref trimmed
  first : trimmed.head? = messages.head?
  last : trimmed.getLast? = messages.getLast?

variable {deref} {messages trimmed rest before after : List Ref} {first removed partner : Ref}

variable {left right : List String} {p : Ref → Bool} {estimate : List CanonicalMessage → ℤ}
  {maxTokens : ℤ}

theorem mem_of_intersects (h : intersects left right = true) : ∃ id, id ∈ left ∧ id ∈ right := by
  simpa [intersects] using h

theorem intersects_of_mem {id : String} (hl : id ∈ left) (hr : id ∈ right) :
    intersects left right = true := by
  simpa [intersects] using ⟨id, hl, hr⟩

/-- A part of a paired request is paired exactly when it does not need the rest. -/
theorem paired_iff_detached (hnodup : messages.Nodup) (hpaired : Paired deref messages)
    {gone : Ref → Prop} (hsub : trimmed.Sublist messages)
    (hmem : ∀ m, m ∈ trimmed ↔ m ∈ messages ∧ ¬ gone m) :
    Paired deref trimmed ↔ Detached deref messages gone := by
  have hprec := fun a b => precedes_iff_of_sublist (a := a) (b := b) hsub hnodup
  constructor
  · intro h
    refine ⟨fun m hm hstays id hid g _ _ => ?_, fun m hm hstays id hid g _ _ => ?_⟩
    · obtain ⟨c, hc, hcid⟩ := h.called m ((hmem m).mpr ⟨hm, hstays⟩) id hid
      obtain ⟨hc, hcin, -⟩ := (hprec c m).mp hc
      exact ⟨c, hc, ((hmem c).mp hcin).2, hcid⟩
    · obtain ⟨a, ha, haid⟩ := h.answered m ((hmem m).mpr ⟨hm, hstays⟩) id hid
      obtain ⟨ha, -, hain⟩ := (hprec m a).mp ha
      exact ⟨a, ha, ((hmem a).mp hain).2, haid⟩
  · intro h
    refine ⟨fun m hin id hid => ?_, fun m hin id hid => ?_⟩
    · obtain ⟨hm, hstays⟩ := (hmem m).mp hin
      have hother : ∃ a, Precedes messages m a ∧ ¬ gone a ∧ id ∈ (deref a).results := by
        obtain ⟨a, ha, haid⟩ := hpaired.answered m hm id hid
        by_cases hga : gone a
        · exact h.answered m hm hstays id hid a hga haid
        · exact ⟨a, ha, hga, haid⟩
      obtain ⟨a, ha, hga, haid⟩ := hother
      exact ⟨a, (hprec m a).mpr ⟨ha, hin, (hmem a).mpr ⟨ha.mem.2, hga⟩⟩, haid⟩
    · obtain ⟨hm, hstays⟩ := (hmem m).mp hin
      have hother : ∃ c, Precedes messages c m ∧ ¬ gone c ∧ id ∈ (deref c).uses := by
        obtain ⟨c, hc, hcid⟩ := hpaired.called m hm id hid
        by_cases hgc : gone c
        · exact h.called m hm hstays id hid c hgc hcid
        · exact ⟨c, hc, hgc, hcid⟩
      obtain ⟨c, hc, hgc, hcid⟩ := hother
      exact ⟨c, (hprec c m).mpr ⟨hc, (hmem c).mpr ⟨hc.mem.1, hgc⟩, hin⟩, hcid⟩

/-! ### One step -/

theorem findIndex_removable (hrest : rest ≠ []) :
    findIndex (fun _ index => decide (0 < index) &&
      decide (index < (first :: removed :: rest).length - 1)) (first :: removed :: rest) =
      some 1 := by
  have hpos := length_pos_iff.mpr hrest
  have hlast : decide (1 < rest.length + 1 + 1 - 1) = true := decide_eq_true (by omega)
  simp only [findIndex, zipIdx_cons, find?_cons, length_cons, Nat.lt_irrefl, decide_false,
    Bool.false_and, Nat.zero_add, Nat.zero_lt_one, decide_true, hlast, Bool.and_self,
    Option.map_some]

variable {k : ℕ} {l : List Ref}

theorem find?_zipIdx_of_none (h : rest.find? p = none) :
    (rest.zipIdx n).find? (fun x => decide (k ≤ x.2) && p x.1) = none := by
  rw [find?_eq_none] at h ⊢
  intro x hx
  simp [h x.1 (fst_mem_of_mem_zipIdx hx)]

theorem find?_zipIdx_append (hbefore : ∀ m ∈ before, (!p m) = true) (hpartner : p partner = true)
    (hk : k ≤ n) :
    ((before ++ partner :: after).zipIdx n).find? (fun x => decide (k ≤ x.2) && p x.1) =
      some (partner, n + before.length) := by
  induction before generalizing n with
  | nil => simp [zipIdx_cons, hk, hpartner]
  | cons m before ih =>
    have hm : p m = false := by simpa using hbefore m mem_cons_self
    have hrest := ih (fun m hm => hbefore m (mem_cons_of_mem _ hm)) (Nat.le_succ_of_le hk)
    rw [cons_append, zipIdx_cons, find?_cons, hm, Bool.and_false]
    simp only [hrest, length_cons]
    congr 2
    omega

theorem findIndex_behind_head (p : Ref → Bool) :
    findIndex (fun m index => decide (1 ≤ index) && p m) (first :: rest) =
      ((rest.zipIdx 1).find? fun x => decide (1 ≤ x.2) && p x.1).map (·.2) :=
  rfl

/-- What answers the removed message, in the messages behind it. -/
def answer? (deref : Ref → CanonicalMessage) (removed : Ref) (rest : List Ref) : Option Ref :=
  rest.find? fun m => intersects (deref m).results (deref removed).uses

theorem removeAnswer_of_none (h : answer? deref removed rest = none) :
    removeAnswer deref (first :: rest) removed 1 = first :: rest := by
  rw [removeAnswer]
  split
  · rfl
  · rw [findIndex_behind_head, find?_zipIdx_of_none h]
    rfl

theorem removeAnswer_of_some (first : Ref) (h : answer? deref removed rest = some partner) :
    ∃ before after, rest = before ++ partner :: after ∧
      removeAnswer deref (first :: rest) removed 1 = first :: (before ++ after) := by
  obtain ⟨hpartner, before, after, rfl, hbefore⟩ := find?_eq_some_iff_append.mp h
  refine ⟨before, after, rfl, ?_⟩
  have huses : (deref removed).uses.isEmpty = false := by
    obtain ⟨id, -, hid⟩ := mem_of_intersects hpartner
    rcases hu : (deref removed).uses with _ | ⟨u, us⟩
    · rw [hu] at hid
      contradiction
    · rfl
  rw [removeAnswer, huses, findIndex_behind_head,
    find?_zipIdx_append hbefore hpartner (Nat.le_refl 1)]
  show (first :: (before ++ partner :: after)).eraseIdx (1 + before.length) = _
  rw [Nat.add_comm, eraseIdx_cons_succ, eraseIdx_append_of_length_le (Nat.le_refl _),
    Nat.sub_self, eraseIdx_cons_zero]

theorem removeCall_of_nil (h : (deref removed).results = []) (messages : List Ref) (index : ℕ) :
    removeCall deref messages removed index = messages := by
  rw [removeCall, h]
  rfl

/-- A result in the second message is one for a call of the first, which goes. -/
theorem removeCall_of_ne_nil (hresults : (deref removed).results ≠ [])
    (hcalls : ∀ id ∈ (deref removed).results, id ∈ (deref first).uses) :
    removeCall deref (first :: rest) removed 1 = rest := by
  obtain ⟨id, ids, hids⟩ := exists_cons_of_ne_nil hresults
  have hid : id ∈ (deref removed).results := hids ▸ mem_cons_self
  have hfirst := intersects_of_mem (hcalls id hid) hid
  have hindex : findLastIndexBelow 1
      (fun m => intersects (deref m).uses (deref removed).results) (first :: rest) = some 0 := by
    show (find? _ [(first, 0)]).map _ = _
    simp [hfirst]
  rw [removeCall, hindex, hids]
  rfl

theorem removeAnswer_sublist (messages : List Ref) (removed : Ref) (index : ℕ) :
    (removeAnswer deref messages removed index).Sublist messages := by
  rw [removeAnswer]
  split
  · exact Sublist.refl _
  split
  · exact eraseIdx_sublist _ _
  · exact Sublist.refl _

theorem removeCall_sublist (messages : List Ref) (removed : Ref) (index : ℕ) :
    (removeCall deref messages removed index).Sublist messages := by
  rw [removeCall]
  split
  · exact Sublist.refl _
  split
  · exact eraseIdx_sublist _ _
  · exact Sublist.refl _

theorem removePairedToolMessage_sublist (messages : List Ref) (removed : Ref) (index : ℕ) :
    (removePairedToolMessage deref messages removed index).Sublist messages :=
  (removeCall_sublist _ _ _).trans (removeAnswer_sublist _ _ _)

theorem trimCompactionRequest_eq (hrest : rest ≠ []) :
    trimCompactionRequest deref (first :: removed :: rest) =
      some (removePairedToolMessage deref (first :: rest) removed 1) := by
  have hpos := length_pos_iff.mpr hrest
  have hle : (removePairedToolMessage deref (first :: rest) removed 1).length ≤
      (first :: rest).length :=
    (removePairedToolMessage_sublist _ _ _).length_le
  rw [trimCompactionRequest, if_neg (by simp only [length_cons]; omega),
    findIndex_removable hrest]
  refine if_pos ?_
  show (removePairedToolMessage deref (first :: rest) removed 1).length < _
  simp only [length_cons] at hle ⊢
  omega

/-- Only requests of three messages or more are trimmed. -/
theorem exists_of_trim (h : trimCompactionRequest deref messages = some trimmed) :
    ∃ first removed rest, messages = first :: removed :: rest ∧ rest ≠ [] ∧
      trimmed = removePairedToolMessage deref (first :: rest) removed 1 := by
  rcases messages with _ | ⟨first, _ | ⟨removed, rest⟩⟩
  · contradiction
  · contradiction
  rcases rest.eq_nil_or_concat with rfl | hrest
  · contradiction
  · have hne : rest ≠ [] := by
      obtain ⟨l, a, rfl⟩ := hrest
      simp
    rw [trimCompactionRequest_eq hne] at h
    exact ⟨first, removed, rest, rfl, hne, (some.inj h).symm⟩

/-! ### When a step keeps the pairs -/

section Step

variable (hnodup : (first :: removed :: rest).Nodup)
  (hpaired : Paired deref (first :: removed :: rest))

include hnodup hpaired

/-- A result in the second message makes the first one go. -/
theorem not_keeps_of_results (hresults : (deref removed).results ≠ []) :
    ¬ Keeps deref (first :: removed :: rest)
      (removePairedToolMessage deref (first :: rest) removed 1) := by
  intro hkeeps
  have hcalls : ∀ id ∈ (deref removed).results, id ∈ (deref first).uses := by
    intro id hid
    obtain ⟨c, hc, hcid⟩ := hpaired.called removed (by simp) id hid
    rcases precedes_cons_iff.mp hc with ⟨rfl, -⟩ | hc
    · exact hcid
    · exact absurd hc (not_precedes_head (nodup_cons.mp hnodup).2)
  obtain ⟨rest', hsub, hanswer⟩ : ∃ rest' : List Ref, rest'.Sublist rest ∧
      removeAnswer deref (first :: rest) removed 1 = first :: rest' := by
    rcases h : answer? deref removed rest with _ | partner
    · exact ⟨rest, Sublist.refl _, removeAnswer_of_none h⟩
    · obtain ⟨before, after, hrest, heq⟩ := removeAnswer_of_some first h
      refine ⟨before ++ after, ?_, heq⟩
      rw [hrest]
      exact (sublist_cons_self partner after).append_left before
  have hfirst := hkeeps.first
  rw [removePairedToolMessage, hanswer, removeCall_of_ne_nil hresults hcalls] at hfirst
  have hmem : first ∈ rest := hsub.subset (mem_of_head? hfirst)
  exact (nodup_cons.mp hnodup).1 (mem_cons_of_mem _ hmem)

/-- Without an answer behind it the second message goes alone. -/
theorem keeps_of_none (hrest : rest ≠ []) (hresults : (deref removed).results = [])
    (h : answer? deref removed rest = none) :
    Keeps deref (first :: removed :: rest)
      (removePairedToolMessage deref (first :: rest) removed 1) := by
  rw [removePairedToolMessage, removeAnswer_of_none h, removeCall_of_nil hresults]
  have hmem : ∀ m, m ∈ first :: rest ↔ m ∈ first :: removed :: rest ∧ ¬ m = removed := by
    intro m
    grind
  have hsub : (first :: rest).Sublist (first :: removed :: rest) :=
    (sublist_cons_self removed rest).cons_cons first
  refine ⟨(paired_iff_detached hnodup hpaired hsub hmem).mpr ⟨?_, ?_⟩, rfl, ?_⟩
  · rintro m hm hstays id hid g rfl hgid
    have hlone := find?_eq_none.mp h
    rcases mem_cons.mp ((hmem m).mpr ⟨hm, hstays⟩) with rfl | hm
    · obtain ⟨c, hc, -⟩ := hpaired.called m hm id hid
      exact absurd hc (not_precedes_head hnodup)
    · exact absurd (intersects_of_mem hid hgid) (hlone m hm)
  · rintro m - - id - g rfl hgid
    rw [hresults] at hgid
    contradiction
  · obtain ⟨x, xs, rfl⟩ := exists_cons_of_ne_nil hrest
    rfl

/-- With an answer behind it the two go together. -/
theorem keeps_iff_of_some (hresults : (deref removed).results = [])
    (h : answer? deref removed rest = some partner) :
    Keeps deref (first :: removed :: rest)
        (removePairedToolMessage deref (first :: rest) removed 1) ↔
      rest.getLast? ≠ some partner ∧
        Detached deref (first :: removed :: rest) fun m => m = removed ∨ m = partner := by
  obtain ⟨before, after, rfl, heq⟩ := removeAnswer_of_some first h
  rw [removePairedToolMessage, heq, removeCall_of_nil hresults]
  have hmem : ∀ m, m ∈ first :: (before ++ after) ↔
      m ∈ first :: removed :: (before ++ partner :: after) ∧ ¬ (m = removed ∨ m = partner) := by
    intro m
    grind
  have hsub : (first :: (before ++ after)).Sublist
      (first :: removed :: (before ++ partner :: after)) :=
    (((sublist_cons_self partner after).append_left before).cons removed).cons_cons first
  have hlast : (first :: (before ++ after)).getLast? =
      (first :: removed :: (before ++ partner :: after)).getLast? ↔
        (before ++ partner :: after).getLast? ≠ some partner := by
    rcases after.eq_nil_or_concat with rfl | ⟨l, a, rfl⟩
    · refine ⟨fun hsame => ?_, fun hne => absurd (by simp) hne⟩
      have hpartner : (first :: before).getLast? = some partner := by
        simpa [getLast?_cons] using hsame
      have := mem_of_getLast? hpartner
      grind
    · have hne : a ≠ partner := by grind
      simp [getLast?_cons, hne]
  constructor
  · intro hkeeps
    exact ⟨hlast.mp hkeeps.last, (paired_iff_detached hnodup hpaired hsub hmem).mp hkeeps.paired⟩
  · rintro ⟨hne, hdetached⟩
    exact ⟨(paired_iff_detached hnodup hpaired hsub hmem).mpr hdetached, rfl, hlast.mpr hne⟩

end Step

/-- One trimming step is safe exactly where the request is separable. -/
theorem trimCompactionRequest_keeps_iff (hnodup : messages.Nodup)
    (hpaired : Paired deref messages) :
    (∀ trimmed, trimCompactionRequest deref messages = some trimmed →
      Keeps deref messages trimmed) ↔ Separable deref messages := by
  constructor
  · rintro h first removed rest rfl hrest
    have hkeeps := h _ (trimCompactionRequest_eq hrest)
    have hresults : (deref removed).results = [] := by
      by_contra hne
      exact not_keeps_of_results hnodup hpaired hne hkeeps
    exact ⟨hresults, fun partner hpartner =>
      (keeps_iff_of_some hnodup hpaired hresults hpartner).mp hkeeps⟩
  · intro h trimmed ht
    obtain ⟨first, removed, rest, rfl, hrest, rfl⟩ := exists_of_trim ht
    obtain ⟨hresults, hpartners⟩ := h first removed rest rfl hrest
    rcases hanswer : answer? deref removed rest with _ | partner
    · exact keeps_of_none hnodup hpaired hrest hresults hanswer
    · exact (keeps_iff_of_some hnodup hpaired hresults hanswer).mpr (hpartners partner hanswer)

/-! ### The loop -/

variable (deref) in
/-- The request after `k` steps, if it can be trimmed so often. -/
def trimTimes : ℕ → List Ref → Option (List Ref)
  | 0, messages => some messages
  | k + 1, messages => (trimCompactionRequest deref messages).bind (trimTimes k)

theorem trimTimes_succ (k : ℕ) (messages : List Ref) :
    trimTimes deref (k + 1) messages =
      (trimTimes deref k messages).bind (trimCompactionRequest deref) := by
  induction k generalizing messages with
  | zero =>
    show (trimCompactionRequest deref messages).bind some = trimCompactionRequest deref messages
    exact bind_fun_some _
  | succ k ih =>
    show (trimCompactionRequest deref messages).bind (trimTimes deref (k + 1)) = _
    rw [trimTimes, bind_assoc]
    exact congrArg _ (funext ih)

theorem length_trimTimes (h : trimTimes deref k messages = some l) :
    l.length + k ≤ messages.length := by
  induction k generalizing messages with
  | zero =>
    obtain rfl := some.inj h
    exact Nat.le_refl _
  | succ k ih =>
    obtain ⟨next, hnext, hl⟩ := bind_eq_some_iff.mp h
    have hlt := length_lt_of_trim deref hnext
    have hle := ih hl
    omega

theorem sublist_of_trim (h : trimCompactionRequest deref messages = some trimmed) :
    trimmed.Sublist messages := by
  obtain ⟨first, removed, rest, rfl, -, rfl⟩ := exists_of_trim h
  exact (removePairedToolMessage_sublist _ _ _).trans
    ((sublist_cons_self removed rest).cons_cons first)

/-- Steps from separable requests only keep the pairs, and the first and the last message. -/
theorem keeps_of_trimTimes (hnodup : messages.Nodup) (hpaired : Paired deref messages)
    (hsep : ∀ j < k, ∀ l, trimTimes deref j messages = some l → Separable deref l)
    (h : trimTimes deref k messages = some l) : l.Nodup ∧ Keeps deref messages l := by
  induction k generalizing l with
  | zero =>
    obtain rfl := some.inj h
    exact ⟨hnodup, hpaired, rfl, rfl⟩
  | succ k ih =>
    rw [trimTimes_succ] at h
    obtain ⟨prev, hprev, hl⟩ := bind_eq_some_iff.mp h
    obtain ⟨hprevNodup, hprevKeeps⟩ := ih (fun j hj => hsep j (Nat.lt_succ_of_lt hj)) hprev
    have hstep := (trimCompactionRequest_keeps_iff hprevNodup hprevKeeps.paired).mpr
      (hsep k (Nat.lt_succ_self k) prev hprev) l hl
    exact ⟨hprevNodup.sublist (sublist_of_trim hl), hstep.paired,
      hstep.first.trans hprevKeeps.first, hstep.last.trans hprevKeeps.last⟩

theorem trimWhile_of_some (hlarge : estimate (messages.map deref) > maxTokens)
    (h : trimCompactionRequest deref messages = some trimmed) :
    trimWhile deref estimate maxTokens messages = trimWhile deref estimate maxTokens trimmed := by
  rw [trimWhile, if_pos hlarge]
  split
  next next hnext => rw [some.inj (h.symm.trans hnext)]
  next hnone => rw [h] at hnone; contradiction

theorem trimWhile_of_none (h : trimCompactionRequest deref messages = none) :
    trimWhile deref estimate maxTokens messages = messages := by
  rw [trimWhile]
  split
  · split
    next next hnext => rw [h] at hnext; contradiction
    next => rfl
  · rfl

/-- The loop stops after finitely many steps, because the request fits or cannot be trimmed. -/
theorem trimWhile_spec (estimate : List CanonicalMessage → ℤ) (maxTokens : ℤ)
    (messages : List Ref) :
    ∃ k, trimTimes deref k messages = some (trimWhile deref estimate maxTokens messages) ∧
      (estimate ((trimWhile deref estimate maxTokens messages).map deref) ≤ maxTokens ∨
        trimCompactionRequest deref (trimWhile deref estimate maxTokens messages) = none) := by
  induction hn : messages.length using Nat.strongRecOn generalizing messages with
  | ind n ih =>
    by_cases hlarge : estimate (messages.map deref) > maxTokens
    · rcases hnext : trimCompactionRequest deref messages with _ | next
      · rw [trimWhile_of_none hnext]
        exact ⟨0, rfl, .inr hnext⟩
      · rw [trimWhile_of_some hlarge hnext]
        obtain ⟨k, hk, hend⟩ := ih _ (hn ▸ length_lt_of_trim deref hnext) next rfl
        exact ⟨k + 1, by rw [trimTimes, hnext]; exact hk, hend⟩
    · rw [trimWhile, if_neg hlarge]
      exact ⟨0, rfl, .inl (Int.not_lt.mp hlarge)⟩

/-- Every request that the steps pass through is returned for some estimate and budget. -/
theorem trimWhile_length (h : trimTimes deref k messages = some l) :
    trimWhile deref (fun ms => ms.length + 1) (l.length + 1) messages = l := by
  induction k generalizing messages with
  | zero =>
    obtain rfl := some.inj h
    rw [trimWhile, if_neg (by rw [length_map]; omega)]
  | succ k ih =>
    have hlength := length_trimTimes h
    obtain ⟨next, hnext, hl⟩ := bind_eq_some_iff.mp h
    rw [trimWhile_of_some (by rw [length_map]; omega) hnext]
    exact ih hl

theorem trimToBudget_spec (estimate : List CanonicalMessage → ℤ) (maxTokens : Option ℤ)
    (messages : List Ref) :
    ∃ k, trimTimes deref k messages =
      some (trimCompactionRequestToEstimatedBudget deref estimate maxTokens messages) := by
  rcases maxTokens with _ | maxTokens
  · exact ⟨0, rfl⟩
  · rw [trimCompactionRequestToEstimatedBudget]
    split
    · exact ⟨0, rfl⟩
    · obtain ⟨k, hk, -⟩ := trimWhile_spec estimate maxTokens messages
      exact ⟨k, hk⟩

/-- A paired request stays paired and keeps its first and its last message, in one step exactly
where it is separable, and for every estimate and every budget exactly where every request that the
steps pass through is. The loop always ends. -/
theorem trimming_keeps_iff (hnodup : messages.Nodup) (hpaired : Paired deref messages) :
    ((∀ trimmed, trimCompactionRequest deref messages = some trimmed →
      Keeps deref messages trimmed) ↔ Separable deref messages) ∧
    ((∀ estimate maxTokens, Keeps deref messages
        (trimCompactionRequestToEstimatedBudget deref estimate maxTokens messages)) ↔
      ∀ k l, trimTimes deref k messages = some l → Separable deref l) ∧
    (∀ estimate maxTokens, ∃ k ≤ messages.length, trimTimes deref k messages =
      some (trimCompactionRequestToEstimatedBudget deref estimate maxTokens messages)) := by
  refine ⟨trimCompactionRequest_keeps_iff hnodup hpaired, ⟨?_, ?_⟩, fun estimate maxTokens => ?_⟩
  · -- each request on the way is one that some budget returns
    have hreturned : (∀ estimate maxTokens, Keeps deref messages
        (trimCompactionRequestToEstimatedBudget deref estimate maxTokens messages)) →
        ∀ k l, trimTimes deref k messages = some l → Keeps deref messages l := by
      intro h k l hl
      have hkeeps := h (fun ms => ms.length + 1) (some (l.length + 1))
      rwa [trimCompactionRequestToEstimatedBudget, if_neg (by omega), trimWhile_length hl]
        at hkeeps
    intro h k
    have hall := hreturned h
    induction k using Nat.strongRecOn with
    | ind k ih =>
      intro l hl
      obtain ⟨hlNodup, hlKeeps⟩ := keeps_of_trimTimes hnodup hpaired ih hl
      refine (trimCompactionRequest_keeps_iff hlNodup hlKeeps.paired).mp fun trimmed ht => ?_
      have hnext := hall (k + 1) trimmed (by rw [trimTimes_succ, hl]; exact ht)
      exact ⟨hnext.paired, hnext.first.trans hlKeeps.first.symm,
        hnext.last.trans hlKeeps.last.symm⟩
  · intro h estimate maxTokens
    obtain ⟨k, hk⟩ := trimToBudget_spec estimate maxTokens messages
    exact (keeps_of_trimTimes hnodup hpaired (fun j _ => h j) hk).2
  · obtain ⟨k, hk⟩ := trimToBudget_spec estimate maxTokens messages
    have := length_trimTimes hk
    exact ⟨k, by omega, hk⟩

/-- An assistant that makes two calls at once, whose results are two rows of the transcript. -/
def parallelCalls : Fin 5 → CanonicalMessage
  | 0 => ⟨.system, [.text "You are Bud." none]⟩
  | 1 => ⟨.assistant, [.toolUse ⟨"call_a", "terminal.run", []⟩,
      .toolUse ⟨"call_b", "terminal.run", []⟩]⟩
  | 2 => ⟨.user, [.toolResult "call_a" (.text "done")]⟩
  | 3 => ⟨.user, [.toolResult "call_b" (.text "done")]⟩
  | 4 => ⟨.user, [.text "Summarize." none]⟩

/-- One of the two results is left behind. -/
theorem trim_parallelCalls :
    Paired parallelCalls [0, 1, 2, 3, 4] ∧
      trimCompactionRequest parallelCalls [0, 1, 2, 3, 4] = some [0, 3, 4] ∧
      ¬ Paired parallelCalls [0, 3, 4] := by
  refine ⟨⟨by decide, by decide⟩, by decide, fun h => ?_⟩
  obtain ⟨c, hc, hid⟩ := h.called 3 (by decide) "call_b" (by decide)
  revert c
  decide

theorem trimming_keeps_iff_parallelCalls :
    (∀ estimate maxTokens, Keeps parallelCalls [0, 1, 2, 3, 4]
        (trimCompactionRequestToEstimatedBudget parallelCalls estimate maxTokens
          [0, 1, 2, 3, 4])) ↔
      ∀ k l, trimTimes parallelCalls k [0, 1, 2, 3, 4] = some l → Separable parallelCalls l :=
  (trimming_keeps_iff (by decide) trim_parallelCalls.1).2.1

end Bud.Compaction
