import Bud.Lib.JsText
import Bud.Lib.Trimming

/-!
# Reasoning between think tags

The content deltas of `transformChatCompletionsStream` (`bud-local-chat.ts`): `emitContent` and the
flush at the end, with the reasoning deltas and the text deltas put together. White space after
`</think>` is dropped from the delta that ends the tag only, so that it can make a difference where
the content is cut.
-/

namespace Bud.ThinkTags

open List JsText

abbrev Text := List UInt16

inductive ThinkMode
  | undecided
  | inside
  | after

structure State where
  thinkMode : ThinkMode
  thinkBuffer : Text

/-- The reasoning and the visible text of some deltas. -/
structure Emitted where
  reasoning : Text
  text : Text
  deriving DecidableEq

def Emitted.append (a b : Emitted) : Emitted := ⟨a.reasoning ++ b.reasoning, a.text ++ b.text⟩

def opening : Text := lit "<think>"

def closing : Text := lit "</think>"

/-- What comes before the first closing tag, and what comes after it. -/
def closeAt : Text → Option (Text × Text)
  | [] => none
  | u :: s =>
    if closing <+: u :: s then some ([], (u :: s).drop 8)
    else (closeAt s).map fun r => (u :: r.1, r.2)

def trimStart (s : Text) : Text := s.dropWhile isSpace

def emitInside (buffer : Text) : State × Emitted :=
  match closeAt buffer with
  | some (reasoning, rest) => (⟨.after, []⟩, ⟨reasoning, trimStart rest⟩)
  | none =>
    -- all but what may be the start of a closing tag
    let safe := buffer.length - 7
    (⟨.inside, buffer.drop safe⟩, ⟨buffer.take safe, []⟩)

def emitContent (s : State) (raw : Text) : State × Emitted :=
  match s.thinkMode with
  | .undecided =>
    let buffer := s.thinkBuffer ++ raw
    let trimmed := trimStart buffer
    if trimmed = [] then (⟨.undecided, buffer⟩, ⟨[], []⟩)
    else if opening <+: trimmed then emitInside (trimmed.drop 7)
    else if trimmed <+: opening then (⟨.undecided, buffer⟩, ⟨[], []⟩)
    else (⟨.after, []⟩, ⟨[], buffer⟩)
  | .inside => emitInside (s.thinkBuffer ++ raw)
  | .after => (s, ⟨[], raw⟩)

def flush (s : State) : Emitted :=
  match s.thinkMode with
  | .undecided => ⟨[], if trim s.thinkBuffer = [] then [] else s.thinkBuffer⟩
  | .inside => ⟨s.thinkBuffer, []⟩
  | .after => ⟨[], []⟩

def contentFrom (s : State) : List Text → Emitted
  | [] => flush s
  | raw :: deltas => (emitContent s raw).2.append (contentFrom (emitContent s raw).1 deltas)

def transformContent (deltas : List Text) : Emitted := contentFrom ⟨.undecided, []⟩ deltas

/-- No white space after the first closing tag. -/
def Bare (s : Text) : Prop := ∀ a u rest, closeAt s = some (a, u :: rest) → isSpace u = false

/-- The content opens with a think tag, and white space follows the first closing one. -/
def SpaceAfterTag (s : Text) : Prop := opening <+: trimStart s ∧ ¬Bare ((trimStart s).drop 7)

/-! ### The closing tag -/

theorem closeAt_cons (u : UInt16) (s : Text) : closeAt (u :: s) =
    if closing <+: u :: s then some ([], (u :: s).drop 8)
    else (closeAt s).map fun r => (u :: r.1, r.2) := rfl

theorem closeAt_eq_some (h : closeAt s = some (a, rest)) : s = a ++ (closing ++ rest) := by
  induction s generalizing a with
  | nil => cases h
  | cons u s ih =>
    rw [closeAt_cons] at h
    split_ifs at h with hp
    · obtain ⟨t, ht⟩ := hp
      cases h
      rw [← ht]
      rfl
    · obtain ⟨r, hr, heq⟩ := Option.map_eq_some_iff.mp h
      cases heq
      exact congrArg (u :: ·) (ih hr)

theorem not_closing_append (h : ¬closing <+: u :: s) (hlen : 7 ≤ s.length) (t : Text) :
    ¬closing <+: u :: (s ++ t) := by
  have hclosing : closing.length ≤ (u :: s).length := Nat.succ_le_succ hlen
  exact fun hpre => h (prefix_of_prefix_length_le hpre (prefix_append (u :: s) t) hclosing)

theorem closeAt_append_of_some (h : closeAt s = some (a, rest)) (t : Text) :
    closeAt (s ++ t) = some (a, rest ++ t) := by
  induction s generalizing a with
  | nil => cases h
  | cons u s ih =>
    rw [closeAt_cons] at h
    rw [cons_append, closeAt_cons]
    split_ifs at h with hp
    · obtain ⟨v, hv⟩ := hp
      cases h
      rw [← cons_append, ← hv, if_pos ((prefix_append _ _).trans (prefix_append _ _))]
      rfl
    · obtain ⟨r, hr, heq⟩ := Option.map_eq_some_iff.mp h
      cases heq
      have hlen : 8 ≤ s.length := by
        rw [closeAt_eq_some hr, length_append, length_append]
        exact Nat.le_add_right_of_le (Nat.le_refl 8) |>.trans (Nat.le_add_left ..)
      rw [if_neg (not_closing_append hp (Nat.le_of_lt hlen) t), ih hr]
      rfl

/-- Seven units are enough to tell a tag that goes on. -/
theorem closeAt_append_of_none (hlen : e = [] ∨ 7 ≤ b.length) (h : closeAt (e ++ b) = none)
    (t : Text) : closeAt (e ++ (b ++ t)) = (closeAt (b ++ t)).map fun r => (e ++ r.1, r.2) := by
  induction e with
  | nil => simp
  | cons u e ih =>
    rw [cons_append, closeAt_cons] at h ⊢
    split_ifs at h with hp
    have hlen' : 7 ≤ b.length := hlen.resolve_left nofun
    have hp' := not_closing_append hp (by rw [length_append]; omega) t
    rw [append_assoc] at hp'
    rw [if_neg hp', ih (.inr hlen') (Option.map_eq_none_iff.mp h), Option.map_map]
    rfl

theorem closeAt_cut (h : closeAt (a ++ (closing ++ rest)) = some (a, rest)) :
    closeAt (a ++ closing) = some (a, []) := by
  induction a with
  | nil => decide
  | cons u a ih =>
    rw [cons_append, closeAt_cons] at h ⊢
    split_ifs at h with hp
    · cases h
    have hp' : ¬closing <+: u :: (a ++ closing) := by
      intro hpre
      rw [← append_assoc, ← cons_append] at hp
      exact hp (hpre.trans (prefix_append _ _))
    obtain ⟨r, hr, heq⟩ := Option.map_eq_some_iff.mp h
    cases heq
    rw [if_neg hp', ih hr]
    rfl

/-! ### One delta after the other -/

def finish (s : Text) : Emitted :=
  match closeAt s with
  | some (reasoning, rest) => ⟨reasoning, rest⟩
  | none => ⟨s, []⟩

theorem contentFrom_after (buffer : Text) (deltas : List Text) :
    contentFrom ⟨.after, buffer⟩ deltas = ⟨[], deltas.flatten⟩ := by
  induction deltas with
  | nil => rfl
  | cons raw deltas ih =>
    rw [contentFrom, emitContent, ih]
    rfl

theorem contentFrom_closed (h : closeAt s = some (a, rest)) (hbare : Bare (s ++ deltas.flatten)) :
    (emitInside s).2.append (contentFrom (emitInside s).1 deltas) =
      finish (s ++ deltas.flatten) := by
  have hclose := closeAt_append_of_some h deltas.flatten
  have htrim : trimStart rest = rest := by
    cases rest with
    | nil => rfl
    | cons u rest => exact dropWhile_cons_of_neg (by rw [hbare _ _ _ hclose]; exact nofun)
  simp only [finish, hclose, emitInside, h, htrim, contentFrom_after, Emitted.append, append_nil]

/-- Inside the tags, what is left of the deltas before is read with the next one. -/
theorem contentFrom_emitInside (s : Text) (hbare : Bare (s ++ deltas.flatten)) :
    (emitInside s).2.append (contentFrom (emitInside s).1 deltas) =
      finish (s ++ deltas.flatten) := by
  induction deltas generalizing s with
  | nil =>
    cases h : closeAt s with
    | some r => exact contentFrom_closed h hbare
    | none => simp [emitInside, finish, h, contentFrom, flush, Emitted.append]
  | cons raw deltas ih =>
    cases h : closeAt s with
    | some r => exact contentFrom_closed h hbare
    | none =>
      set e := s.take (s.length - 7) with he
      set b := s.drop (s.length - 7) with hb
      have hs : e ++ b = s := take_append_drop _ s
      have hlen : e = [] ∨ 7 ≤ b.length := by
        rw [he, hb, take_eq_nil_iff, length_drop]
        omega
      have hclose := closeAt_append_of_none hlen (hs ▸ h) (raw ++ deltas.flatten)
      rw [← append_assoc, hs] at hclose
      have hfinish : finish (s ++ (raw ++ deltas.flatten)) =
          Emitted.append ⟨e, []⟩ (finish (b ++ (raw ++ deltas.flatten))) := by
        rw [finish, finish, hclose]
        cases closeAt (b ++ (raw ++ deltas.flatten)) with
        | some r => rfl
        | none =>
          rw [← hs, append_assoc]
          rfl
      have hemit : emitInside s = (⟨.inside, b⟩, ⟨e, []⟩) := by rw [emitInside, h]
      rw [flatten_cons, hfinish, hemit, contentFrom, emitContent, ih, append_assoc]
      intro a u rest ha
      rw [append_assoc] at ha
      exact hbare _ u rest (by rw [flatten_cons, hclose, ha]; rfl)

def whole (s : Text) : Emitted :=
  if opening <+: trimStart s then finish ((trimStart s).drop 7)
  else ⟨[], if trim s = [] then [] else s⟩

theorem trim_eq_nil_iff : trim s = [] ↔ trimStart s = [] := by
  rw [trimStart, dropWhile_eq_nil_iff]
  exact Trimming.trimBy_eq_nil_iff

/-- Before it is decided whether there is a tag, all that came is kept. -/
theorem contentFrom_undecided (buffer : Text) (hundecided : ¬opening <+: trimStart buffer)
    (hbare : ¬SpaceAfterTag (buffer ++ deltas.flatten)) :
    contentFrom ⟨.undecided, buffer⟩ deltas = whole (buffer ++ deltas.flatten) := by
  induction deltas generalizing buffer with
  | nil =>
    rw [flatten_nil, append_nil, whole, if_neg hundecided]
    rfl
  | cons raw deltas ih =>
    rw [flatten_cons, ← append_assoc] at hbare ⊢
    rw [contentFrom, emitContent]
    dsimp only
    have hmore : trimStart (buffer ++ raw) ≠ [] →
        trimStart (buffer ++ raw ++ deltas.flatten) =
          trimStart (buffer ++ raw) ++ deltas.flatten := by
      intro hne
      exact dropWhile_append.trans (if_neg (isEmpty_iff.not.mpr hne))
    split_ifs with hnil hopen hpart
    · refine ih _ (fun h => ?_) hbare
      rw [hnil] at h
      exact absurd h (by decide)
    · have hprefix := hopen.trans (prefix_append _ deltas.flatten)
      have hdrop := @drop_append_of_le_length _ _ deltas.flatten _ hopen.length_le
      rw [SpaceAfterTag, hmore hnil, not_and_not_right] at hbare
      have hinside := contentFrom_emitInside _ (hdrop ▸ hbare hprefix)
      rw [whole, hmore hnil, if_pos hprefix]
      exact hinside.trans (congrArg finish hdrop.symm)
    · exact ih _ hopen hbare
    · have hplain : ¬opening <+: trimStart (buffer ++ raw ++ deltas.flatten) := by
        rw [hmore hnil]
        intro h
        have hor := prefix_or_prefix_of_prefix h (prefix_append _ _)
        exact hor.elim hopen hpart
      have htrim : ¬trim (buffer ++ raw ++ deltas.flatten) = [] := by
        rw [trim_eq_nil_iff, hmore hnil]
        exact fun h => hnil (append_eq_nil_iff.mp h).1
      rw [whole, if_neg hplain, if_neg htrim, contentFrom_after]
      rfl

theorem emitContent_of_opening (h : opening <+: trimStart raw) :
    emitContent ⟨.undecided, []⟩ raw = emitInside ((trimStart raw).drop 7) := by
  have hne : trimStart raw ≠ [] := fun hnil => by
    rw [hnil] at h
    exact absurd h (by decide)
  rw [emitContent]
  dsimp only
  rw [nil_append, if_neg hne, if_pos h]

/-- In one delta the white space goes, in two that part after the tag it does not. -/
theorem two_deltas_ne (h : SpaceAfterTag s) : ∃ p q : Text, p ++ q = s ∧ p ≠ [] ∧ q ≠ [] ∧
    transformContent [s] ≠ transformContent [p, q] := by
  obtain ⟨hopen, hspace⟩ := h
  simp only [Bare, not_forall, Bool.not_eq_false] at hspace
  obtain ⟨a, u, rest, hclose, hu⟩ := hspace
  have hone := emitContent_of_opening hopen
  obtain ⟨r, hr⟩ := hopen
  rw [← hr, show (opening ++ r).drop 7 = r from rfl] at hclose hone
  have hcut := closeAt_eq_some hclose
  have hp : trimStart (s.takeWhile isSpace ++ (opening ++ (a ++ closing))) =
      opening ++ (a ++ closing) :=
    (dropWhile_append_of_pos fun _ => mem_takeWhile_imp).trans rfl
  have htwo := emitContent_of_opening (hp ▸ prefix_append _ _)
  rw [hp, show (opening ++ (a ++ closing)).drop 7 = a ++ closing from rfl] at htwo
  refine ⟨s.takeWhile isSpace ++ (opening ++ (a ++ closing)), u :: rest, ?_, ?_, cons_ne_nil _ _,
    fun heq => ?_⟩
  · rw [append_assoc, append_assoc, append_assoc, ← hcut, hr]
    exact takeWhile_append_dropWhile
  · exact append_ne_nil_of_right_ne_nil _ (cons_ne_nil _ _)
  · have hstrip : (trimStart (u :: rest)).length ≤ rest.length := by
      rw [trimStart, dropWhile_cons_of_pos hu]
      exact length_dropWhile_le ..
    have htext := congrArg (fun e => e.text.length) heq
    simp only [transformContent, contentFrom, hone, htwo, emitInside, hclose,
      closeAt_cut (hcut ▸ hclose)] at htext
    simp only [Emitted.append, flush, append_nil, trimStart, emitContent, dropWhile_nil, nil_append,
      length_cons] at htext hstrip
    omega

/-- **The deltas make a difference exactly where white space follows the closing tag.** -/
theorem chunking_iff (s : Text) :
    (∀ cs ds : List Text, cs.flatten = s → ds.flatten = s → (∀ c ∈ cs, c ≠ []) →
      (∀ d ∈ ds, d ≠ []) → transformContent cs = transformContent ds) ↔ ¬SpaceAfterTag s := by
  constructor
  · intro h hspace
    obtain ⟨p, q, hpq, hp, hq, hne⟩ := two_deltas_ne hspace
    have hs : s ≠ [] := hpq ▸ append_ne_nil_of_left_ne_nil hp q
    exact hne (h [s] [p, q] (by simp) (by simpa using hpq) (by simpa using hs) (by simp [hp, hq]))
  · intro h cs ds hcs hds _ _
    have hwhole : ∀ ds : List Text, ds.flatten = s → transformContent ds = whole s := by
      rintro ds rfl
      exact contentFrom_undecided [] (by decide) h
    rw [hwhole cs hcs, hwhole ds hds]

theorem newline_after_tag : transformContent [lit "<think>a</think>\n\nhello"] ≠
    transformContent [lit "<think>a</think>", lit "\n\nhello"] := by
  decide

end Bud.ThinkTags
