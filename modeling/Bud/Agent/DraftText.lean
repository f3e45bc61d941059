import Bud.Agent.ModelStream

/-!
# The draft and the text that completes it

The texts of a stream come one after another, by increasing index. What has been sent of them is
then known from a list (`Drafted`): the blocks that have a text by now, each with what separates it
from the ones before it. Nothing separates the first block that was started, and a line break any
other. The text that completes the draft is those blocks again, with nothing before the first that
has a text. So the two are the same unless the first block that was started is left without one.
-/

namespace Bud.ModelStream

open JsText JsValue Llm SortedMap List
open Conversation (Phase)

/-! ### What has been sent -/

def Emitted.delta : Emitted → Text
  | .messageDelta delta => delta
  | _ => []

/-- The concatenation of the pieces. -/
def draftOf (emitted : List Emitted) : Text := emitted.flatMap Emitted.delta

/-- What the runtime has been given is what `draftText` says. -/
structure Sent (s : Stream) : Prop where
  draft : draftOf s.emitted = s.draftText
  drafted : s.hasDraftText = true ↔ s.draftText ≠ []

theorem sent_empty : Sent Stream.empty := ⟨rfl, by simp [Stream.empty]⟩

variable {s t : Stream} {event : CanonicalStreamEvent}

theorem draftOf_append (emitted : List Emitted) (e : Emitted) :
    draftOf (emitted ++ [e]) = draftOf emitted ++ e.delta := by
  simp [draftOf]

theorem Sent.of_eq (h : Sent s) (hemitted : t.emitted = s.emitted)
    (htext : t.draftText = s.draftText) (hdrafted : t.hasDraftText = s.hasDraftText) : Sent t :=
  ⟨by rw [hemitted, htext, h.draft], by rw [hdrafted, htext, h.drafted]⟩

/-- Something else than a piece of the draft is sent. -/
theorem Sent.of_emit {e : Emitted} (h : Sent s) (he : e.delta = [])
    (hemitted : t.emitted = s.emitted ++ [e]) (htext : t.draftText = s.draftText)
    (hdrafted : t.hasDraftText = s.hasDraftText) : Sent t :=
  ⟨by rw [hemitted, draftOf_append, he, append_nil, htext, h.draft],
    by rw [hdrafted, htext, h.drafted]⟩

theorem Sent.emitAssistantDraftDelta (h : Sent s) (delta : Text) :
    Sent (s.emitAssistantDraftDelta delta) := by
  unfold Stream.emitAssistantDraftDelta
  split
  · exact h
  · next hne =>
    have hstart : draftOf s.emitAssistantDraftStart.emitted = s.draftText ∧
        s.emitAssistantDraftStart.draftText = s.draftText ∧
        s.emitAssistantDraftStart.hasDraftText = true := by
      unfold Stream.emitAssistantDraftStart
      split
      · exact ⟨h.draft, rfl, ‹_›⟩
      · exact ⟨by simp [Stream.emit, draftOf_append, h.draft, Emitted.delta], rfl, rfl⟩
    obtain ⟨hdraft, htext, hdrafted⟩ := hstart
    refine ⟨?_, ?_⟩
    · simp only [Stream.emit, draftOf_append, hdraft, htext, Emitted.delta]
    · simp [Stream.emit, hdrafted, hne]

theorem Sent.ensureReasoningDraft (h : Sent s) (index : ℕ) :
    Sent (s.ensureReasoningDraft index) := by
  unfold Stream.ensureReasoningDraft
  split
  · exact h
  · exact h.of_emit (e := .reasoningStart index) rfl rfl rfl rfl

theorem Sent.emitReasoningDelta (h : Sent s) (index : ℕ) (delta : Text) :
    Sent (s.emitReasoningDelta index delta) := by
  unfold Stream.emitReasoningDelta
  split
  · exact h
  · exact (h.ensureReasoningDraft index).of_emit (e := .reasoningDelta index delta) rfl rfl rfl rfl

theorem Sent.reasoningDone (h : Sent s) (index : ℕ) (block : ReasoningBlock) :
    Sent (s.reasoningDone index block) := by
  have hstored : Sent { s with reasoningBlocks := s.reasoningBlocks.insert index block } :=
    h.of_eq rfl rfl rfl
  unfold Stream.reasoningDone
  cases block with
  | redacted => exact hstored
  | reasoning finalText providerData =>
    simp only
    split
    · exact hstored
    · have hensured := hstored.ensureReasoningDraft index
      split
      · exact (hensured.emitReasoningDelta index _).of_eq rfl rfl rfl
      · exact hensured.of_eq rfl rfl rfl

theorem Sent.sendPrefix (h : Sent s) (index : ℕ) : Sent (s.sendPrefix index) := by
  unfold Stream.sendPrefix
  split
  · refine Sent.emitAssistantDraftDelta ?_ _
    exact h.of_eq rfl rfl rfl
  · split
    · exact h
    · refine Sent.emitAssistantDraftDelta ?_ _
      exact h.of_eq rfl rfl rfl

theorem Sent.textStart (h : Sent s) (index : ℕ) (assistantPhase : Option Phase) :
    Sent (s.textStart index assistantPhase) := by
  unfold Stream.textStart
  cases assistantPhase with
  | none =>
    simp only
    split
    · exact h
    · exact h.of_eq rfl rfl rfl
  | some phase =>
    simp only
    split
    all_goals exact h.of_eq rfl rfl rfl

/-- What is sent is what `draftText` says, after every event. -/
theorem sent_consume (h : Sent s) (hstep : consume s event = some t) : Sent t := by
  cases event with
  | contentStart index contentType assistantPhase =>
    cases contentType with
    | text =>
      obtain rfl := Option.some.inj hstep
      exact h.textStart index assistantPhase
    | toolUse | reasoning =>
      obtain rfl := Option.some.inj hstep
      exact h
  | textDelta index delta assistantPhase =>
    obtain rfl := Option.some.inj hstep
    have happended : Sent ((s.sendPrefix index).appendText index delta assistantPhase) :=
      (h.sendPrefix index).of_eq rfl rfl rfl
    exact happended.emitAssistantDraftDelta delta
  | reasoningDelta index delta =>
    obtain rfl := Option.some.inj hstep
    exact h.emitReasoningDelta index delta
  | reasoningDone index block =>
    obtain rfl := Option.some.inj hstep
    exact h.reasoningDone index block
  | error => cases hstep
  | messageStart | messageDone | contentDone | toolUseStart | toolUseDelta | toolUseDone
  | reasoningStart | reasoningRedacted =>
    obtain rfl := Option.some.inj hstep
    exact h.of_eq rfl rfl rfl

/-! ### The blocks that have a text -/

/-- What separates a block from those before it: nothing, if it was the first to be started. -/
def separator (seen : List ℕ) (i : ℕ) : Text := if seen.head? = some i then [] else lit "\n"

def seeing (seen : List ℕ) (i : ℕ) : List ℕ := if i ∈ seen then seen else seen ++ [i]

variable {seen : List ℕ} {i : ℕ} {events : List CanonicalStreamEvent}

theorem mem_seeing : j ∈ seeing seen i ↔ j ∈ seen ∨ j = i := by
  unfold seeing
  split
  · exact ⟨Or.inl, fun h => h.elim id fun heq => heq ▸ ‹_›⟩
  · simp

theorem separator_seeing (hj : j ∈ seen) : separator (seeing seen i) j = separator seen j := by
  unfold seeing
  split
  · rfl
  · obtain ⟨k, rest, rfl⟩ := exists_cons_of_ne_nil (ne_nil_of_mem hj)
    rfl

theorem separator_new (hi : i ∉ seen) :
    separator (seeing seen i) i = if 0 < seen.length then lit "\n" else [] := by
  rw [seeing, if_neg hi]
  cases seen with
  | nil => simp [separator]
  | cons k rest =>
    have hne : k ≠ i := fun heq => hi (heq ▸ mem_cons_self)
    simp [separator, hne]

/-- What has been sent, block by block. -/
structure Drafted (s : Stream) (blocks : List (ℕ × Text)) : Prop where
  sorted : (blocks.map Prod.fst).Pairwise (· < ·)
  texts : ∀ i text, (i, text) ∈ blocks ↔
    ∃ block, s.textBlocks.lookup i = some block ∧ block.text = text
  seen : ∀ x ∈ blocks, x.1 ∈ s.seenTextIndexes
  /-- What is still to be sent before a block. -/
  pending : ∀ i, s.pendingTextPrefixes.lookup i =
    if i ∈ s.seenTextIndexes ∧ i ∉ blocks.map Prod.fst then some (separator s.seenTextIndexes i)
    else none
  count : s.textBlockCount = s.seenTextIndexes.length
  draft : s.draftText = blocks.flatMap fun x => separator s.seenTextIndexes x.1 ++ x.2

theorem drafted_empty : Drafted Stream.empty [] :=
  ⟨.nil, by simp [Stream.empty], by simp, by simp [Stream.empty], rfl, rfl⟩

variable {blocks : List (ℕ × Text)} {index : ℕ}

structure SameText (s t : Stream) : Prop where
  texts : t.textBlocks = s.textBlocks
  pending : t.pendingTextPrefixes = s.pendingTextPrefixes
  seen : t.seenTextIndexes = s.seenTextIndexes
  count : t.textBlockCount = s.textBlockCount
  draft : t.draftText = s.draftText

theorem Drafted.of_same (h : Drafted s blocks) (hsame : SameText s t) : Drafted t blocks :=
  ⟨h.sorted, by rw [hsame.texts]; exact h.texts, by rw [hsame.seen]; exact h.seen,
    by rw [hsame.pending, hsame.seen]; exact h.pending,
    by rw [hsame.count, hsame.seen]; exact h.count,
    by rw [hsame.draft, hsame.seen]; exact h.draft⟩

theorem SameText.trans (h : SameText s t) (h' : SameText t u) : SameText s u :=
  ⟨h'.texts.trans h.texts, h'.pending.trans h.pending, h'.seen.trans h.seen,
    h'.count.trans h.count, h'.draft.trans h.draft⟩

theorem same_ensureReasoningDraft (s : Stream) (index : ℕ) :
    SameText s (s.ensureReasoningDraft index) := by
  unfold Stream.ensureReasoningDraft
  split <;> exact ⟨rfl, rfl, rfl, rfl, rfl⟩

theorem same_emitReasoningDelta (s : Stream) (index : ℕ) (delta : Text) :
    SameText s (s.emitReasoningDelta index delta) := by
  unfold Stream.emitReasoningDelta
  split
  · exact ⟨rfl, rfl, rfl, rfl, rfl⟩
  · have hensured := same_ensureReasoningDraft s index
    exact { hensured with }

theorem same_reasoningDone (s : Stream) (index : ℕ) (block : ReasoningBlock) :
    SameText s (s.reasoningDone index block) := by
  unfold Stream.reasoningDone
  cases block with
  | redacted => exact ⟨rfl, rfl, rfl, rfl, rfl⟩
  | reasoning finalText providerData =>
    simp only
    split
    · exact ⟨rfl, rfl, rfl, rfl, rfl⟩
    · have hensured := (SameText.mk rfl rfl rfl rfl rfl : SameText s { s with
        reasoningBlocks := s.reasoningBlocks.insert index (.reasoning finalText providerData) }
        ).trans (same_ensureReasoningDraft _ index)
      split
      · exact (hensured.trans (same_emitReasoningDelta _ _ _)).trans ⟨rfl, rfl, rfl, rfl, rfl⟩
      · exact hensured.trans ⟨rfl, rfl, rfl, rfl, rfl⟩

theorem Drafted.nextPrefix (h : Drafted s blocks) (hindex : index ∉ s.seenTextIndexes) :
    s.nextPrefix = separator (seeing s.seenTextIndexes index) index := by
  rw [separator_new hindex, Stream.nextPrefix, h.count]

/-- What has been sent before the blocks stays as it is when another is seen. -/
theorem Drafted.flatMap_seeing (h : Drafted s blocks) :
    (blocks.flatMap fun x => separator (seeing s.seenTextIndexes index) x.1 ++ x.2) =
      s.draftText := by
  rw [h.draft]
  exact flatMap_congr fun x hx => by rw [separator_seeing (h.seen x hx)]

theorem Drafted.textStart (h : Drafted s blocks) (assistantPhase : Option Phase) :
    Drafted (s.textStart index assistantPhase) blocks ∧
      (s.textStart index assistantPhase).seenTextIndexes = seeing s.seenTextIndexes index := by
  have hphases : ∃ u, SameText s u ∧ s.textStart index assistantPhase =
        if index ∈ u.seenTextIndexes then u
        else { u with
          pendingTextPrefixes :=
            u.pendingTextPrefixes.insert index u.nextPrefix }.seeText index := by
    cases assistantPhase with
    | none => exact ⟨s, ⟨rfl, rfl, rfl, rfl, rfl⟩, rfl⟩
    | some phase =>
      exact ⟨{ s with textPhases := s.textPhases.insert index phase }, ⟨rfl, rfl, rfl, rfl, rfl⟩,
        rfl⟩
  obtain ⟨u, hsame, hstart⟩ := hphases
  have hu := h.of_same hsame
  rw [hstart, ← hsame.seen]
  by_cases hindex : index ∈ u.seenTextIndexes
  · rw [if_pos hindex, seeing, if_pos hindex]
    exact ⟨hu, rfl⟩
  · have hsee : u.seenTextIndexes ++ [index] = seeing u.seenTextIndexes index := by
      rw [seeing, if_neg hindex]
    rw [if_neg hindex]
    refine ⟨⟨hu.sorted, hu.texts, ?_, ?_, ?_, ?_⟩, hsee⟩
    · exact fun x hx => mem_append_left _ (hu.seen x hx)
    · intro i
      simp only [Stream.seeText, hsee]
      by_cases heq : i = index
      · subst heq
        have hnot : i ∉ blocks.map Prod.fst := by
          intro hmem
          obtain ⟨x, hx, rfl⟩ := mem_map.mp hmem
          exact hindex (hu.seen x hx)
        rw [AList.lookup_insert, if_pos ⟨mem_seeing.mpr (.inr rfl), hnot⟩, hu.nextPrefix hindex]
      · rw [AList.lookup_insert_ne heq, hu.pending i]
        simp only [mem_seeing, heq, or_false]
        split
        · next hi => rw [separator_seeing hi.1]
        · rfl
    · simp [Stream.seeText, hu.count]
    · simp only [Stream.seeText, hsee]
      exact hu.flatMap_seeing.symm

/-! ### A piece of a text -/

@[simp] theorem draftText_emitDelta :
    (s.emitAssistantDraftDelta delta).draftText = s.draftText ++ delta := by
  unfold Stream.emitAssistantDraftDelta Stream.emitAssistantDraftStart
  split
  · next hnil => rw [hnil, append_nil]
  · split <;> rfl

theorem frame_emitDelta (s : Stream) (delta : Text) :
    (s.emitAssistantDraftDelta delta).textBlocks = s.textBlocks ∧
      (s.emitAssistantDraftDelta delta).pendingTextPrefixes = s.pendingTextPrefixes ∧
      (s.emitAssistantDraftDelta delta).seenTextIndexes = s.seenTextIndexes ∧
      (s.emitAssistantDraftDelta delta).textBlockCount = s.textBlockCount := by
  unfold Stream.emitAssistantDraftDelta Stream.emitAssistantDraftStart
  split
  · exact ⟨rfl, rfl, rfl, rfl⟩
  · split <;> exact ⟨rfl, rfl, rfl, rfl⟩

/-- The block that is about to have some text has had sent what is to stand before it. -/
structure Opened (s t : Stream) (blocks : List (ℕ × Text)) (index : ℕ) : Prop where
  texts : t.textBlocks = s.textBlocks
  seen : t.seenTextIndexes = seeing s.seenTextIndexes index
  pending : ∀ i, t.pendingTextPrefixes.lookup i =
    if i ∈ t.seenTextIndexes ∧ i ∉ blocks.map Prod.fst ∧ i ≠ index then
      some (separator t.seenTextIndexes i)
    else none
  count : t.textBlockCount = t.seenTextIndexes.length
  draft : t.draftText = (blocks.flatMap fun x => separator t.seenTextIndexes x.1 ++ x.2) ++
    if index ∈ blocks.map Prod.fst then [] else separator t.seenTextIndexes index

theorem Drafted.sendPrefix (h : Drafted s blocks) :
    Opened s (s.sendPrefix index) blocks index := by
  -- The prefix is sent from a state that has none pending for the block.
  have hsend : ∀ u : Stream, u.textBlocks = s.textBlocks →
      u.seenTextIndexes = seeing s.seenTextIndexes index →
      u.textBlockCount = (seeing s.seenTextIndexes index).length → u.draftText = s.draftText →
      u.pendingTextPrefixes = s.pendingTextPrefixes → index ∉ blocks.map Prod.fst →
      Opened s ({ u with
        pendingTextPrefixes := u.pendingTextPrefixes.erase index }.emitAssistantDraftDelta
          (separator (seeing s.seenTextIndexes index) index)) blocks index := by
    intro u htexts hseen hcount hdraft hpending hmem
    obtain ⟨hframe₁, hframe₂, hframe₃, hframe₄⟩ := frame_emitDelta
      { u with pendingTextPrefixes := u.pendingTextPrefixes.erase index }
      (separator (seeing s.seenTextIndexes index) index)
    refine ⟨hframe₁.trans htexts, hframe₃.trans hseen, fun i => ?_, ?_, ?_⟩
    · rw [hframe₂, hframe₃, hseen, hpending]
      by_cases heq : i = index
      · subst heq
        rw [AList.lookup_erase, if_neg fun hall => hall.2.2 rfl]
      · rw [AList.lookup_erase_ne heq, h.pending i]
        by_cases hi : i ∈ s.seenTextIndexes
        · rw [separator_seeing hi]
          exact if_congr (by simp [mem_seeing, hi, heq]) rfl rfl
        · rw [if_neg fun hboth => hi hboth.1, if_neg]
          exact fun hall => (mem_seeing.mp hall.1).elim hi heq
    · rw [hframe₄, hframe₃, hseen]
      exact hcount
    · rw [draftText_emitDelta, hframe₃, hseen, if_neg hmem, h.flatMap_seeing, hdraft]
  have hnew : index ∉ s.seenTextIndexes → index ∉ blocks.map Prod.fst := by
    intro hindex hmem
    obtain ⟨x, hx, rfl⟩ := mem_map.mp hmem
    exact hindex (h.seen x hx)
  have hpending := h.pending index
  unfold Stream.sendPrefix
  by_cases hindex : index ∈ s.seenTextIndexes
  · have hsee : seeing s.seenTextIndexes index = s.seenTextIndexes := by rw [seeing, if_pos hindex]
    by_cases hmem : index ∈ blocks.map Prod.fst
    · rw [if_neg fun hboth => hboth.2 hmem] at hpending
      simp only [hpending, if_pos hindex]
      refine ⟨rfl, hsee.symm, fun i => ?_, h.count, by rw [if_pos hmem, append_nil, h.draft]⟩
      rw [h.pending i]
      refine if_congr (and_congr_right fun _ => ?_) rfl rfl
      exact ⟨fun hi => ⟨hi, fun heq => hi (heq ▸ hmem)⟩, fun hi => hi.1⟩
    · rw [if_pos ⟨hindex, hmem⟩] at hpending
      simp only [hpending]
      have hsent := hsend s rfl hsee.symm (by rw [hsee]; exact h.count) rfl rfl hmem
      rw [hsee] at hsent
      exact hsent
  · rw [if_neg fun hboth => hindex hboth.1] at hpending
    simp only [hpending, if_neg hindex, h.nextPrefix hindex]
    have hsee : s.seenTextIndexes ++ [index] = seeing s.seenTextIndexes index := by
      rw [seeing, if_neg hindex]
    refine hsend (s.seeText index) rfl hsee ?_ rfl rfl (hnew hindex)
    rw [← hsee, length_append, ← h.count]
    rfl

theorem Drafted.textAt (h : Drafted s blocks) (hmem : (index, text) ∈ blocks) :
    s.textAt index = text := by
  obtain ⟨block, hblock, rfl⟩ := (h.texts index text).mp hmem
  rw [Stream.textAt, hblock]
  rfl

theorem Drafted.textAt_new (h : Drafted s blocks) (hmem : index ∉ blocks.map Prod.fst) :
    s.textAt index = [] := by
  cases hlookup : s.textBlocks.lookup index with
  | none => rw [Stream.textAt, hlookup]; rfl
  | some block =>
    refine absurd (mem_map.mpr ⟨(index, block.text), ?_, rfl⟩) hmem
    exact (h.texts index block.text).mpr ⟨block, hlookup, rfl⟩

theorem Drafted.exists_rest (h : Drafted s blocks) (hlast : ∀ j ∈ s.seenTextIndexes, j ≤ index) :
    ∃ rest : List (ℕ × Text), (∀ x ∈ rest, x.1 < index) ∧
      blocks = rest ++
        if index ∈ blocks.map Prod.fst then [(index, s.textAt index)] else [] := by
  by_cases hmem : index ∈ blocks.map Prod.fst
  · obtain ⟨⟨_, text⟩, hx, rfl⟩ := mem_map.mp hmem
    obtain ⟨rest, later, hsplit⟩ := append_of_mem hx
    have hsorted := h.sorted
    rw [hsplit, map_append, map_cons, pairwise_append, pairwise_cons] at hsorted
    obtain ⟨_, ⟨hlater, _⟩, hrest⟩ := hsorted
    have hnil : later = [] := by
      refine eq_nil_iff_forall_not_mem.mpr fun y hy => ?_
      have hle : y.1 ≤ _ := hlast y.1 (h.seen y (by rw [hsplit]; simp [hy]))
      exact absurd (hlater y.1 (mem_map.mpr ⟨y, hy, rfl⟩)) (Nat.not_lt.mpr hle)
    refine ⟨rest, fun x hrest' => ?_, ?_⟩
    · exact hrest x.1 (mem_map.mpr ⟨x, hrest', rfl⟩) _ mem_cons_self
    · rw [if_pos hmem, h.textAt hx, hsplit, hnil]
  · refine ⟨blocks, fun x hx => ?_, by rw [if_neg hmem, append_nil]⟩
    refine lt_of_le_of_ne (hlast x.1 (h.seen x hx)) fun heq => hmem ?_
    exact mem_map.mpr ⟨x, hx, heq⟩

/-- **A piece of a text is sent behind the text that has been sent.** -/
theorem Drafted.textDelta (h : Drafted s blocks) (hlast : ∀ j ∈ s.seenTextIndexes, j ≤ index)
    (delta : Text) (assistantPhase : Option Phase) :
    (s.textDelta index delta assistantPhase).seenTextIndexes = seeing s.seenTextIndexes index ∧
      ∃ blocks', Drafted (s.textDelta index delta assistantPhase) blocks' ∧
        ∀ i, i ∈ blocks'.map Prod.fst ↔ i ∈ blocks.map Prod.fst ∨ i = index := by
  unfold Stream.textDelta
  obtain ⟨rest, hrest, hblocks⟩ := h.exists_rest hlast
  obtain ⟨htexts, hseen, hpending, hcount, hdraft⟩ : Opened s (s.sendPrefix index) blocks index :=
    h.sendPrefix
  have htextAt : (s.sendPrefix index).textAt index = s.textAt index := by
    rw [Stream.textAt, htexts, Stream.textAt]
  obtain ⟨hframe₁, hframe₂, hframe₃, hframe₄⟩ :=
    frame_emitDelta ((s.sendPrefix index).appendText index delta assistantPhase) delta
  have hkeys : ∀ i, i ∈ (rest ++ [(index, s.textAt index ++ delta)]).map Prod.fst ↔
      i ∈ blocks.map Prod.fst ∨ i = index := by
    intro i
    by_cases hmem : index ∈ blocks.map Prod.fst
    · rw [if_pos hmem] at hblocks
      rw [hblocks]
      simp
    · rw [if_neg hmem, append_nil] at hblocks
      rw [hblocks]
      simp
  have hold : ∀ i text, i ≠ index → ((i, text) ∈ rest ↔ (i, text) ∈ blocks) := by
    intro i text hne
    rw [hblocks]
    split <;> simp [hne]
  refine ⟨hframe₃.trans hseen, _, ⟨?_, ?_, ?_, ?_, ?_, ?_⟩, hkeys⟩
  · rw [map_append, pairwise_append]
    refine ⟨?_, pairwise_singleton _ _, fun i hi j hj => ?_⟩
    · have hsorted := h.sorted
      rw [hblocks, map_append, pairwise_append] at hsorted
      exact hsorted.1
    · obtain ⟨x, hx, rfl⟩ := mem_map.mp hi
      obtain rfl := mem_singleton.mp hj
      exact hrest x hx
  · intro i text
    rw [hframe₁]
    simp only [Stream.appendText, htexts, htextAt]
    by_cases heq : i = index
    · subst heq
      have hnot : (i, text) ∉ rest := fun hmem => Nat.lt_irrefl _ (hrest _ hmem)
      simp [AList.lookup_insert, hnot, eq_comm]
    · rw [AList.lookup_insert_ne heq, ← h.texts, ← hold i text heq]
      simp [heq]
  · intro x hx
    rw [hframe₃]
    refine hseen ▸ mem_seeing.mpr ?_
    rcases (hkeys x.1).mp (mem_map.mpr ⟨x, hx, rfl⟩) with hmem | heq
    · obtain ⟨y, hy, hxy⟩ := mem_map.mp hmem
      exact .inl (hxy ▸ h.seen y hy)
    · exact .inr heq
  · intro i
    rw [hframe₂, hframe₃]
    refine (hpending i).trans (if_congr (and_congr_right fun _ => ?_) rfl rfl)
    rw [hkeys, not_or]
  · rw [hframe₄, hframe₃]
    exact hcount
  · rw [draftText_emitDelta, hframe₃]
    have hdraft : ((s.sendPrefix index).appendText index delta assistantPhase).draftText =
      _ := hdraft
    rw [hdraft]
    by_cases hmem : index ∈ blocks.map Prod.fst
    · rw [if_pos hmem] at hblocks
      rw [if_pos hmem, hblocks]
      simp [Stream.appendText]
    · rw [if_neg hmem, append_nil] at hblocks
      rw [if_neg hmem, hblocks, h.textAt_new hmem]
      simp [Stream.appendText]

/-! ### Streams -/

def CanonicalStreamEvent.textIndex : CanonicalStreamEvent → Option ℕ
  | .contentStart index .text _ => some index
  | .textDelta index _ _ => some index
  | _ => none

def CanonicalStreamEvent.deltaIndex : CanonicalStreamEvent → Option ℕ
  | .textDelta index _ _ => some index
  | _ => none

def CanonicalStreamEvent.isError : CanonicalStreamEvent → Bool
  | .error _ => true
  | _ => false

theorem Drafted.consume (h : Drafted s blocks)
    (hlast : ∀ i ∈ event.textIndex, ∀ j ∈ s.seenTextIndexes, j ≤ i)
    (hstep : ModelStream.consume s event = some t) :
    t.seenTextIndexes = event.textIndex.elim s.seenTextIndexes (seeing s.seenTextIndexes) ∧
      ∃ blocks', Drafted t blocks' ∧
        ∀ i, i ∈ blocks'.map Prod.fst ↔ i ∈ blocks.map Prod.fst ∨ event.deltaIndex = some i := by
  have hsame : SameText s t → event.textIndex = none → event.deltaIndex = none →
      t.seenTextIndexes = event.textIndex.elim s.seenTextIndexes (seeing s.seenTextIndexes) ∧
        ∃ blocks', Drafted t blocks' ∧ ∀ i, i ∈ blocks'.map Prod.fst ↔
          i ∈ blocks.map Prod.fst ∨ event.deltaIndex = some i := by
    intro hsame htext hdelta
    rw [htext, hdelta]
    exact ⟨hsame.seen, blocks, h.of_same hsame, by simp⟩
  cases event with
  | contentStart index contentType assistantPhase =>
    cases contentType with
    | text =>
      obtain rfl := Option.some.inj hstep
      obtain ⟨hdrafted, hseen⟩ := h.textStart assistantPhase
      exact ⟨hseen, blocks, hdrafted, by simp [CanonicalStreamEvent.deltaIndex]⟩
    | toolUse | reasoning =>
      obtain rfl := Option.some.inj hstep
      exact hsame ⟨rfl, rfl, rfl, rfl, rfl⟩ rfl rfl
  | textDelta index delta assistantPhase =>
    obtain rfl := Option.some.inj hstep
    obtain ⟨hseen, blocks', hdrafted, hkeys⟩ := h.textDelta (hlast index rfl) delta assistantPhase
    refine ⟨hseen, blocks', hdrafted, fun i => (hkeys i).trans (or_congr_right ?_)⟩
    exact eq_comm.trans (Option.some_inj (a := index) (b := i)).symm
  | reasoningDelta index delta =>
    obtain rfl := Option.some.inj hstep
    exact hsame (same_emitReasoningDelta s index delta) rfl rfl
  | reasoningDone index block =>
    obtain rfl := Option.some.inj hstep
    exact hsame (same_reasoningDone s index block) rfl rfl
  | error => cases hstep
  | messageStart | messageDone | contentDone | toolUseStart | toolUseDelta | toolUseDone
  | reasoningStart | reasoningRedacted =>
    obtain rfl := Option.some.inj hstep
    exact hsame ⟨rfl, rfl, rfl, rfl, rfl⟩ rfl rfl

/-- The blocks of text that a stream is about, in the order of its events. -/
def textIndexes (events : List CanonicalStreamEvent) : List ℕ :=
  events.filterMap CanonicalStreamEvent.textIndex

/-- **What a run makes of the blocks**: those that have a piece, if they come one after another. -/
theorem Drafted.run (h : Drafted s blocks) (hordered : (textIndexes events).Pairwise (· ≤ ·))
    (hlast : ∀ i ∈ textIndexes events, ∀ j ∈ s.seenTextIndexes, j ≤ i)
    (hrun : Runs.run ModelStream.consume events s = some t) :
    t.seenTextIndexes.head? = s.seenTextIndexes.head?.or (textIndexes events).head? ∧
      ∃ blocks', Drafted t blocks' ∧ ∀ i, i ∈ blocks'.map Prod.fst ↔
        i ∈ blocks.map Prod.fst ∨ ∃ event ∈ events, event.deltaIndex = some i := by
  induction events generalizing s blocks with
  | nil =>
    obtain rfl := Option.some.inj hrun
    exact ⟨by simp [textIndexes], blocks, h, by simp⟩
  | cons event events ih =>
    obtain ⟨u, hstep, hrun⟩ := Runs.run_cons_eq_some.mp hrun
    have hcons : textIndexes (event :: events) = event.textIndex.toList ++ textIndexes events := by
      cases htext : event.textIndex <;> simp [textIndexes, htext]
    rw [hcons] at hordered hlast ⊢
    have hevent : ∀ i ∈ event.textIndex, ∀ j ∈ s.seenTextIndexes, j ≤ i := fun i hi =>
      hlast i (mem_append_left _ (Option.mem_toList.mpr hi))
    obtain ⟨hseen, blocks₁, hdrafted, hkeys₁⟩ := h.consume hevent hstep
    have hrest : (∀ i ∈ textIndexes events, ∀ j ∈ u.seenTextIndexes, j ≤ i) ∧
        u.seenTextIndexes.head?.or (textIndexes events).head? =
          s.seenTextIndexes.head?.or (event.textIndex.toList ++ textIndexes events).head? := by
      cases htext : event.textIndex with
      | none =>
        rw [htext] at hseen hlast
        rw [hseen]
        exact ⟨hlast, rfl⟩
      | some index =>
        rw [htext] at hseen hlast hordered
        rw [hseen]
        refine ⟨fun i hi j hj => ?_, ?_⟩
        · rcases mem_seeing.mp hj with hj | rfl
          · exact hlast i (mem_append_right _ hi) j hj
          · exact (pairwise_cons.mp hordered).1 i hi
        · simp only [Option.elim_some, Option.toList_some, seeing]
          cases s.seenTextIndexes with
          | nil => rfl
          | cons k seen => split <;> rfl
    obtain ⟨hlast', hhead⟩ := hrest
    have hordered' := (pairwise_append.mp hordered).2.1
    obtain ⟨hhead', blocks', hdrafted', hkeys'⟩ := ih hdrafted hordered' hlast' hrun
    refine ⟨hhead'.trans hhead, blocks', hdrafted', fun i => ?_⟩
    rw [hkeys', hkeys₁, or_assoc]
    simp

/-! ### The text that completes the draft -/

theorem intercalate_cons {α : Type} (sep a : List α) (l : List (List α)) :
    sep.intercalate (a :: l) = a ++ l.flatMap fun b => sep ++ b := by
  induction l generalizing a with
  | nil => simp
  | cons b l ih => rw [intercalate_cons_cons, ih b]; simp

/-- A sorted list of blocks is sent as its join, behind what is sent before the first. -/
theorem flatMap_separator (hfirst : seen.head? = some first) (hle : first ≤ i)
    (hsorted : (((i, text) :: blocks).map Prod.fst).Pairwise (· < ·)) :
    (((i, text) :: blocks).flatMap fun x => separator seen x.1 ++ x.2) =
      (if first = i then [] else [10]) ++
        [10].intercalate (((i, text) :: blocks).map Prod.snd) := by
  have hrest : ∀ x ∈ blocks, separator seen x.1 = [10] := by
    intro x hx
    have hlt : i < x.1 := (pairwise_cons.mp hsorted).1 x.1 (mem_map.mpr ⟨x, hx, rfl⟩)
    rw [separator, hfirst, if_neg fun heq => ?_]
    · rfl
    · exact absurd (Option.some.inj heq) (by omega)
  have hhead : separator seen i = if first = i then [] else [10] := by
    rw [separator, hfirst]
    exact if_congr Option.some_inj rfl rfl
  rw [map_cons, intercalate_cons, flatMap_cons, hhead, append_assoc, flatMap_map]
  congr 2
  exact flatMap_congr fun x hx => by rw [hrest x hx]

theorem Drafted.collectText (h : Drafted s blocks) (newId : Text) :
    Llm.collectText (s.response newId).content = [10].intercalate (blocks.map Prod.snd) := by
  rw [collectText_response, map_sortedValues h.sorted h.texts]

/-- The first text that is started has no piece, and some other text has one. -/
def FirstLeftEmpty (events : List CanonicalStreamEvent) : Prop :=
  ∃ first, (textIndexes events).head? = some first ∧
    (∀ event ∈ events, event.deltaIndex ≠ some first) ∧
    ∃ event ∈ events, event.deltaIndex ≠ none

theorem exists_first (hordered : (textIndexes events).Pairwise (· ≤ ·))
    (hi : i ∈ textIndexes events) :
    ∃ first, (textIndexes events).head? = some first ∧ first ≤ i := by
  obtain ⟨first, rest, hcons⟩ := exists_cons_of_ne_nil (ne_nil_of_mem hi)
  rw [hcons] at hi hordered ⊢
  refine ⟨first, rfl, ?_⟩
  rcases mem_cons.mp hi with rfl | hi
  · exact Nat.le_refl _
  · exact (pairwise_cons.mp hordered).1 i hi

theorem textIndex_of_deltaIndex (h : event.deltaIndex = some i) : event.textIndex = some i := by
  cases event with
  | textDelta => exact h
  | _ => cases h

/-- **What has been sent of a stream**: its text, behind a line break if the first of its texts has
been left empty. -/
theorem draftOf_invokeModel (hordered : (textIndexes events).Pairwise (· ≤ ·))
    (hresult : invokeModel newId events = some result) :
    (result.drafted = true ↔ draftOf result.emitted ≠ []) ∧
      ((FirstLeftEmpty events ∧
          draftOf result.emitted = [10] ++ Llm.collectText result.response.content) ∨
        (¬FirstLeftEmpty events ∧
          draftOf result.emitted = Llm.collectText result.response.content)) := by
  obtain ⟨s, hrun, rfl⟩ := Option.map_eq_some_iff.mp hresult
  have hsent : Sent s := Runs.invariant (fun _ _ _ h hstep => sent_consume h hstep) hrun sent_empty
  obtain ⟨hhead, blocks, hdrafted, hkeys⟩ := drafted_empty.run hordered
    (fun _ _ _ hj => by simp [Stream.empty] at hj) hrun
  simp only [hsent.draft, hsent.drafted, true_and]
  rw [hdrafted.collectText, hdrafted.draft]
  cases blocks with
  | nil =>
    refine .inr ⟨?_, rfl⟩
    rintro ⟨_, _, _, event, hevent, hdelta⟩
    obtain ⟨i, hi⟩ := Option.ne_none_iff_exists'.mp hdelta
    have hmem := (hkeys i).mpr (.inr ⟨event, hevent, hi⟩)
    cases hmem
  | cons x rest =>
    obtain ⟨i, text⟩ := x
    have hdelta : ∃ event ∈ events, event.deltaIndex = some i := by
      simpa using (hkeys i).mp mem_cons_self
    obtain ⟨event, hevent, hi⟩ := hdelta
    have hitext : i ∈ textIndexes events :=
      mem_filterMap.mpr ⟨event, hevent, textIndex_of_deltaIndex hi⟩
    obtain ⟨first, hfirst, hle⟩ := exists_first hordered hitext
    rw [flatMap_separator (hhead.trans (by simpa [Stream.empty] using hfirst)) hle hdrafted.sorted]
    by_cases heq : first = i
    · refine .inr ⟨?_, by rw [if_pos heq, nil_append]⟩
      rintro ⟨first', hfirst', hnone, _⟩
      obtain rfl := Option.some.inj (hfirst.symm.trans hfirst')
      exact hnone event hevent (heq ▸ hi)
    · refine .inl ⟨⟨first, hfirst, fun event' hevent' hdelta => ?_, event, hevent, ?_⟩, ?_⟩
      · have hmem := (hkeys first).mpr (.inr ⟨event', hevent', hdelta⟩)
        rcases mem_cons.mp hmem with hhere | hlater
        · exact heq hhere
        · have hlt := (pairwise_cons.mp hdrafted.sorted).1 first hlater
          exact absurd hle (Nat.not_le.mpr hlt)
      · rw [hi]
        exact Option.some_ne_none i
      · rw [if_neg heq]

/-- A stream is read to its end unless it breaks off. -/
theorem run_eq_none_iff :
    Runs.run consume events s = none ↔ events.any CanonicalStreamEvent.isError := by
  induction events generalizing s with
  | nil => simp
  | cons event events ih =>
    have hstep : consume s event = none ↔ event.isError = true := by
      cases event with
      | contentStart _ contentType =>
        cases contentType <;> simp [consume, CanonicalStreamEvent.isError]
      | _ => simp [consume, CanonicalStreamEvent.isError]
    rw [any_cons, Bool.or_eq_true, ← hstep, Runs.run]
    cases consume s event with
    | none => simp
    | some t => simp [ih]

def DraftAgrees (events : List CanonicalStreamEvent) : Prop :=
  ∀ newId result segmentKind text, invokeModel newId events = some result →
    completeAssistantDraft result segmentKind = some (.messageDone text segmentKind) →
    draftOf result.emitted = text

/-- **The draft agrees with the text that completes it** exactly when the stream breaks off, has no
piece of a text, or has one of the first text that it starts. -/
theorem draft_agrees_iff {events : List CanonicalStreamEvent}
    (hordered : (textIndexes events).Pairwise (· ≤ ·)) :
    DraftAgrees events ↔
      events.any CanonicalStreamEvent.isError ∨
        (∀ event ∈ events, event.deltaIndex = none) ∨
        ∃ first, (textIndexes events).head? = some first ∧
          ∃ event ∈ events, event.deltaIndex = some first := by
  constructor
  · intro hagrees
    by_contra hnot
    simp only [not_or, not_forall, not_exists, not_and] at hnot
    obtain ⟨herror, ⟨event, hevent, hdelta⟩, hfirst⟩ := hnot
    have hempty : FirstLeftEmpty events := by
      obtain ⟨i, hi⟩ := Option.ne_none_iff_exists'.mp hdelta
      obtain ⟨first, hhead, _⟩ := exists_first hordered
        (mem_filterMap.mpr ⟨event, hevent, textIndex_of_deltaIndex hi⟩)
      exact ⟨first, hhead, hfirst first hhead, event, hevent, hdelta⟩
    rw [← run_eq_none_iff (s := Stream.empty)] at herror
    obtain ⟨s, hrun⟩ := Option.ne_none_iff_exists'.mp herror
    obtain ⟨result, hresult⟩ : ∃ result, invokeModel [] events = some result :=
      ⟨_, by rw [invokeModel, hrun]; rfl⟩
    obtain ⟨hdrafted, ⟨_, hdraft⟩ | ⟨hfull, _⟩⟩ := draftOf_invokeModel hordered hresult
    · have hdone := hagrees [] result .final _ hresult
        (if_pos (hdrafted.mpr (by rw [hdraft]; exact cons_ne_nil _ _)))
      rw [hdraft] at hdone
      exact absurd hdone (cons_ne_self _ _)
    · exact hfull hempty
  · intro hwhen newId result segmentKind text hresult hdone
    obtain ⟨_, ⟨⟨first, hfirst, hnone, event, hevent, hdelta⟩, _⟩ | ⟨_, hdraft⟩⟩ :=
      draftOf_invokeModel hordered hresult
    · rcases hwhen with herror | hall | ⟨first', hfirst', event', hevent', hdelta'⟩
      · rw [invokeModel, run_eq_none_iff.mpr herror] at hresult
        cases hresult
      · exact absurd (hall event hevent) hdelta
      · obtain rfl := Option.some.inj (hfirst.symm.trans hfirst')
        exact absurd hdelta' (hnone event' hevent')
    · rw [completeAssistantDraft] at hdone
      split at hdone
      · cases hdone
        exact hdraft
      · cases hdone

theorem draft_agrees_two : DraftAgrees
    [.contentStart 0 .text none, .textDelta 0 (lit "a") none, .textDelta 1 (lit "b") none] :=
  (draft_agrees_iff (by decide)).mpr
    (.inr (.inr ⟨0, rfl, .textDelta 0 (lit "a") none, by simp, rfl⟩))

/-- The first text is started and left empty: the draft is the line break and the second. -/
theorem empty_first_text_disagrees : ¬DraftAgrees
    [.contentStart 0 .text none, .contentStart 1 .text none, .textDelta 1 (lit "b") none] := by
  intro h
  have hdone := h [] _ .final (lit "b") rfl rfl
  exact absurd hdone (by decide)

end Bud.ModelStream
