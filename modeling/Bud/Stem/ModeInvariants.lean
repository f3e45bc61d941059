import Bud.Stem.Modes
import Mathlib.Data.List.Infix

/-!
# What the mode machine keeps in every order of its inputs

Scanner facts, quiet cursor lines and the caller's two integration marks reach the machine in any
order, and the alternate screen parks a classification that the others keep changing while it is
up. `underlying` is the classification as it would be without the alternate screen: the mode, or
the one that a TUI has put aside.

`Consistent` is what one state says about its own fields. The rest is about the inputs so far, and
is kept as two facts beside it: that a Shell classification has a marker behind it that no expired
detection window came after (`MarkerSeen`), and that a miss streak of one has its quiet line in the
history, with the machine in `repl` ever since (`Missed`).
-/

namespace Bud.Modes

open Semantic List

/-- The calls that move the machine. -/
inductive Input where
  | scan (kind : ScanKind)
  | quiet (line : List Char)
  | noIntegration
  | sentinelIntegration

def IsMarker : ScanKind → Prop
  | .promptStart | .commandInputStart | .commandOutputStart | .commandEnd _ => True
  | _ => False

namespace ModeMachine

variable (isMatch : List Char → Option String)

def input (m : ModeMachine) : Input → ModeMachine × Option ModeChange
  | .scan kind => m.onScan kind
  | .quiet line => m.onQuietCursorLine isMatch line
  | .noIntegration => m.markNoIntegration
  | .sentinelIntegration => m.markSentinelIntegration

def after (m : ModeMachine) (i : Input) : ModeMachine := (m.input isMatch i).1

def machine (inputs : List Input) : ModeMachine := inputs.foldl (after isMatch) new

def changes : ModeMachine → List Input → List ModeChange
  | _, [] => []
  | m, i :: is => (m.input isMatch i).2.toList ++ changes (m.after isMatch i) is

/-- The mode, or the one saved under a TUI. -/
def underlying (m : ModeMachine) : Mode := if m.mode = .tui then m.priorNonTui else m.mode

variable {isMatch}

theorem machine_concat (inputs : List Input) (i : Input) :
    machine isMatch (inputs ++ [i]) = (machine isMatch inputs).after isMatch i := by
  rw [machine, foldl_append]
  rfl

/-! ### One state -/

/-- What the fields of the machine say about each other. -/
structure Consistent (m : ModeMachine) : Prop where
  label : m.replLabel.isSome ↔ m.mode = .repl
  priorLabel : m.mode = .tui → (m.priorReplLabel.isSome ↔ m.priorNonTui = .repl)
  prior : m.priorNonTui ≠ .tui
  shell : m.mode = .shell ∨ m.priorNonTui = .shell → m.integration ≠ .none
  repl : m.mode = .repl → m.integration ≠ .osc133
  streak : m.replMissStreak ≤ 1
  missed : m.replMissStreak = 1 → m.mode = .repl

theorem consistent_new : Consistent new where
  label := by decide
  priorLabel := by decide
  prior := by decide
  shell := by decide
  repl := by decide
  streak := by decide
  missed := by decide

namespace Consistent

variable {m : ModeMachine}

theorem classifyShellFromMarker (h : Consistent m) {integration : Integration}
    (hint : integration ≠ .none) :
    Consistent (ModeMachine.classifyShellFromMarker { m with integration := integration }) := by
  rw [ModeMachine.classifyShellFromMarker]
  split
  · next htui =>
    exact
      { label := h.label
        priorLabel := fun _ => by simp
        prior := by simp
        shell := fun _ => hint
        repl := fun hrepl => absurd (htui.symm.trans hrepl) (by simp)
        streak := h.streak
        missed := h.missed }
  · exact
      { label := by simp
        priorLabel := by simp
        prior := h.prior
        shell := fun _ => hint
        repl := by simp
        streak := Nat.zero_le 1
        missed := by simp }

theorem altScreenEnter (h : Consistent m) : Consistent (m.afterScan .altScreenEnter) := by
  rw [ModeMachine.afterScan]
  split
  · next hne =>
    exact
      { label := by simp
        priorLabel := fun _ => h.label
        prior := hne
        shell := fun hs => h.shell (Or.inl (hs.resolve_left (by simp)))
        repl := by simp
        streak := Nat.zero_le 1
        missed := by simp }
  · exact h

theorem altScreenLeave (h : Consistent m) : Consistent (m.afterScan .altScreenLeave) := by
  rw [ModeMachine.afterScan]
  split
  · next htui =>
    split
    · next hosc =>
      exact
        { label := by simp
          priorLabel := by simp
          prior := h.prior
          shell := fun _ => by simp [hosc]
          repl := by simp
          streak := Nat.zero_le 1
          missed := by simp }
    · next hosc =>
      exact
        { label := by
            show (if m.priorNonTui = .repl then m.priorReplLabel else none).isSome ↔ _
            split
            · next hrepl => exact h.priorLabel htui
            · next hrepl => simpa using hrepl
          priorLabel := fun hp => absurd hp h.prior
          prior := h.prior
          shell := fun hs => h.shell (Or.inr (or_self_iff.mp hs))
          repl := fun _ => hosc
          streak := Nat.zero_le 1
          missed := by simp }
  · exact h

theorem afterScan (h : Consistent m) (kind : ScanKind) : Consistent (m.afterScan kind) := by
  cases kind with
  | promptStart | commandInputStart | commandOutputStart =>
    exact h.classifyShellFromMarker (by simp)
  | commandEnd =>
    rw [ModeMachine.afterScan]
    split
    · exact h.classifyShellFromMarker (by simp)
    · next hint => exact h.classifyShellFromMarker hint
  | cwd | bracketedPasteSet => exact h
  | altScreenEnter => exact h.altScreenEnter
  | altScreenLeave => exact h.altScreenLeave

theorem afterQuiet (h : Consistent m) (hosc : m.integration ≠ .osc133) (line : List Char) :
    Consistent (m.afterQuiet isMatch line) := by
  rw [ModeMachine.afterQuiet]
  split
  · next label =>
    exact
      { label := by simp
        priorLabel := by simp
        prior := h.prior
        shell := fun hs => h.shell (Or.inr (hs.resolve_left (by simp)))
        repl := fun _ => hosc
        streak := Nat.zero_le 1
        missed := by simp }
  · split
    · next hrepl =>
      dsimp only
      split
      · exact
          { label := by simp
            priorLabel := by simp
            prior := h.prior
            shell := fun hs => h.shell (Or.inr (hs.resolve_left (by simp)))
            repl := by simp
            streak := Nat.zero_le 1
            missed := by simp }
      · next hstreak =>
        exact
          { h with
            streak := by
              show min (m.replMissStreak + 1) 255 ≤ 1
              omega
            missed := fun _ => hrepl }
    · exact h

theorem markNoIntegration (h : Consistent m) : Consistent m.markNoIntegration.1 where
  label := by
    show m.replLabel.isSome ↔ (if m.mode = .shell then Mode.unknown else m.mode) = .repl
    rw [h.label]
    split
    · next hs => simp [hs]
    · exact Iff.rfl
  priorLabel := by
    intro htui
    have hmode : m.mode = .tui := by
      change (if m.mode = .shell then Mode.unknown else m.mode) = .tui at htui
      split at htui
      · simp at htui
      · exact htui
    show m.priorReplLabel.isSome ↔
      (if m.priorNonTui = .shell then Mode.unknown else m.priorNonTui) = .repl
    rw [h.priorLabel hmode]
    split
    · next hs => simp [hs]
    · exact Iff.rfl
  prior := by
    show (if m.priorNonTui = .shell then Mode.unknown else m.priorNonTui) ≠ .tui
    split
    · simp
    · exact h.prior
  shell := by
    have hdemoted (x : Mode) : (if x = .shell then Mode.unknown else x) ≠ .shell := by
      split <;> simp_all
    rintro (hs | hs)
    all_goals exact absurd hs (hdemoted _)
  repl := by simp [ModeMachine.markNoIntegration]
  streak := h.streak
  missed := by
    intro hstreak
    show (if m.mode = .shell then Mode.unknown else m.mode) = .repl
    rw [h.missed hstreak]
    rfl

theorem markSentinelIntegration (h : Consistent m) : Consistent m.markSentinelIntegration.1 := by
  rw [ModeMachine.markSentinelIntegration]
  dsimp only
  split
  · exact
      { h with
        shell := by simp
        repl := by simp }
  · exact h

/-- **Every input keeps the fields consistent.** -/
theorem after (h : Consistent m) (i : Input) : Consistent (m.after isMatch i) := by
  cases i with
  | scan kind => exact h.afterScan kind
  | quiet line =>
    show Consistent (m.onQuietCursorLine isMatch line).1
    rw [onQuietCursorLine]
    split
    · exact h
    · next hready => exact h.afterQuiet (not_or.mp hready).2 line
  | noIntegration => exact h.markNoIntegration
  | sentinelIntegration => exact h.markSentinelIntegration

end Consistent

/-! ### The inputs behind a state -/

/-- A marker is among the inputs, and no detection window expired after it. -/
def MarkerSeen (inputs : List Input) : Prop :=
  ∃ pre kind post, inputs = pre ++ .scan kind :: post ∧ IsMarker kind ∧ .noIntegration ∉ post

variable (isMatch) in
/-- The last quiet line did not match, and the mode is `repl` since before it. -/
def Missed (inputs : List Input) : Prop :=
  ∃ pre line post, inputs = pre ++ .quiet line :: post ∧ isMatch line = none ∧
    (∀ l, .quiet l ∉ post) ∧ ∀ t, pre <+: t → t <+: inputs → (machine isMatch t).mode = .repl

/-- What the machine holds only on the evidence of a marker. -/
def ClaimsShell (m : ModeMachine) : Prop :=
  m.integration = .osc133 ∨ m.mode = .shell ∨ m.priorNonTui = .shell

variable {m : ModeMachine} {inputs : List Input} {i : Input}

theorem MarkerSeen.concat (h : MarkerSeen inputs) (hi : i ≠ .noIntegration) :
    MarkerSeen (inputs ++ [i]) := by
  obtain ⟨pre, kind, post, rfl, hkind, hpost⟩ := h
  refine ⟨pre, kind, post ++ [i], by simp, hkind, ?_⟩
  rw [mem_append, mem_singleton]
  exact not_or.mpr ⟨hpost, hi.symm⟩

theorem markerSeen_concat (hkind : IsMarker kind) : MarkerSeen (inputs ++ [.scan kind]) :=
  ⟨inputs, kind, [], rfl, hkind, not_mem_nil⟩

theorem Missed.concat (h : Missed isMatch inputs) (hi : ∀ l, i ≠ .quiet l)
    (hrepl : (machine isMatch (inputs ++ [i])).mode = .repl) : Missed isMatch (inputs ++ [i]) := by
  obtain ⟨pre, line, post, heq, hline, hpost, hall⟩ := h
  refine ⟨pre, line, post ++ [i], by simp [heq], hline, ?_, ?_⟩
  · intro l hl
    rw [mem_append, mem_singleton] at hl
    exact hl.elim (hpost l) fun h => hi l h.symm
  · intro t hpre ht
    rcases prefix_concat_iff.mp ht with rfl | ht
    · exact hrepl
    · exact hall t hpre ht

theorem missed_concat (hline : isMatch line = none)
    (hbefore : (machine isMatch inputs).mode = .repl)
    (hrepl : (machine isMatch (inputs ++ [.quiet line])).mode = .repl) :
    Missed isMatch (inputs ++ [.quiet line]) := by
  refine ⟨inputs, line, [], rfl, hline, fun _ => not_mem_nil, fun t hpre ht => ?_⟩
  rcases prefix_concat_iff.mp ht with rfl | ht
  · exact hrepl
  · rwa [ht.eq_of_length_le hpre.length_le]

/-- Only a marker gives the machine a claim to a shell, and an expired window takes all of it. -/
theorem claimsShell_after (h : ClaimsShell (m.after isMatch i)) :
    (∃ kind, i = .scan kind ∧ IsMarker kind) ∨ i ≠ .noIntegration ∧ ClaimsShell m := by
  cases i with
  | scan kind =>
    by_cases hkind : IsMarker kind
    · exact Or.inl ⟨kind, rfl, hkind⟩
    · refine Or.inr ⟨by simp, ?_⟩
      change ClaimsShell (m.afterScan kind) at h
      cases kind with
      | promptStart | commandInputStart | commandOutputStart | commandEnd =>
        exact absurd trivial hkind
      | cwd | bracketedPasteSet => exact h
      | altScreenEnter =>
        rw [afterScan] at h
        split at h
        · rcases h with h | h | h
          · exact Or.inl h
          · simp at h
          · exact Or.inr (Or.inl h)
        · exact h
      | altScreenLeave =>
        rw [afterScan] at h
        split at h
        · split at h
          · next hosc => exact Or.inl hosc
          · rcases h with h | h | h
            · exact Or.inl h
            all_goals exact Or.inr (Or.inr h)
        · exact h
  | quiet line =>
    refine Or.inr ⟨by simp, ?_⟩
    change ClaimsShell (m.onQuietCursorLine isMatch line).1 at h
    rw [onQuietCursorLine] at h
    split at h
    · exact h
    · rw [afterQuiet] at h
      split at h
      · rcases h with h | h | h
        · exact Or.inl h
        · simp at h
        · exact Or.inr (Or.inr h)
      · split at h
        · dsimp only at h
          split at h
          · rcases h with h | h | h
            · exact Or.inl h
            · simp at h
            · exact Or.inr (Or.inr h)
          · exact h
        · exact h
  | noIntegration =>
    have hdemoted (x : Mode) : (if x = .shell then Mode.unknown else x) ≠ .shell := by
      split <;> simp_all
    rcases h with h | h | h
    · simp [after, input, markNoIntegration] at h
    all_goals exact absurd h (hdemoted _)
  | sentinelIntegration =>
    refine Or.inr ⟨by simp, ?_⟩
    change ClaimsShell m.markSentinelIntegration.1 at h
    rw [markSentinelIntegration] at h
    dsimp only at h
    split at h
    · exact Or.inr (h.resolve_left (by simp))
    · exact h

/-- A streak of one comes from a miss in `repl`, and no quiet line leaves it as it is. -/
theorem streak_after (hm : Consistent m) (h : (m.after isMatch i).replMissStreak = 1) :
    (∃ line, i = .quiet line ∧ isMatch line = none ∧ m.mode = .repl) ∨
      (∀ l, i ≠ .quiet l) ∧ m.replMissStreak = 1 := by
  cases i with
  | scan kind =>
    refine Or.inr ⟨by simp, ?_⟩
    change (m.afterScan kind).replMissStreak = 1 at h
    have hclassify (m : ModeMachine) (h : m.classifyShellFromMarker.replMissStreak = 1) :
        m.replMissStreak = 1 := by
      rw [classifyShellFromMarker] at h
      split at h
      · exact h
      · simp at h
    cases kind with
    | promptStart | commandInputStart | commandOutputStart =>
      exact hclassify { m with integration := .osc133 } h
    | commandEnd =>
      rw [afterScan] at h
      split at h
      · exact hclassify { m with integration := .osc133 } h
      · exact hclassify m h
    | cwd | bracketedPasteSet => exact h
    | altScreenEnter =>
      rw [afterScan] at h
      split at h
      · simp at h
      · exact h
    | altScreenLeave =>
      rw [afterScan] at h
      split at h
      · split at h <;> simp at h
      · exact h
  | quiet line =>
    refine Or.inl ⟨line, rfl, ?_⟩
    change (m.onQuietCursorLine isMatch line).1.replMissStreak = 1 at h
    rw [onQuietCursorLine] at h
    split at h
    · next hidle =>
      -- a streak is kept in `repl` only, where lines are never ignored
      have hrepl := hm.missed h
      rw [hrepl] at hidle
      exact absurd (hidle.resolve_left (by simp)) (hm.repl hrepl)
    · rw [afterQuiet] at h
      split at h
      · simp at h
      · next hline =>
        split at h
        · next hrepl => exact ⟨hline, hrepl⟩
        · next hrepl => exact absurd (hm.missed h) hrepl
  | noIntegration => exact Or.inr ⟨by simp, h⟩
  | sentinelIntegration =>
    refine Or.inr ⟨by simp, ?_⟩
    change m.markSentinelIntegration.1.replMissStreak = 1 at h
    rw [markSentinelIntegration] at h
    dsimp only at h
    split at h
    all_goals exact h

@[simp] theorem underlying_classifyShellFromMarker :
    m.classifyShellFromMarker.underlying = .shell := by
  rw [classifyShellFromMarker]
  split
  · next htui => exact if_pos htui
  · rfl

theorem underlying_altScreenEnter : (m.afterScan .altScreenEnter).underlying = m.underlying := by
  rw [afterScan]
  split
  · next hne => exact (if_neg hne).symm
  · rfl

theorem underlying_altScreenLeave (hrepl : m.underlying = .repl) :
    (m.afterScan .altScreenLeave).underlying ≠ .unknown := by
  rw [afterScan]
  split
  · next htui =>
    have hprior : m.priorNonTui = .repl := by rwa [underlying, if_pos htui] at hrepl
    split
    · simp [underlying]
    · simp [underlying, hprior]
  · simp [hrepl]

theorem underlying_markNoIntegration (hrepl : m.underlying = .repl) :
    m.markNoIntegration.1.underlying = .repl := by
  by_cases htui : m.mode = .tui
  · have hprior : m.priorNonTui = .repl := by rwa [underlying, if_pos htui] at hrepl
    simp [underlying, markNoIntegration, htui, hprior]
  · have hmode : m.mode = .repl := by rwa [underlying, if_neg htui] at hrepl
    simp [underlying, markNoIntegration, hmode]

/-- **The one step that gives up a REPL**, in the open or under a TUI. -/
theorem demoted_after (hm : Consistent m) (hrepl : m.underlying = .repl)
    (h : (m.after isMatch i).underlying = .unknown) :
    m.replMissStreak = 1 ∧ ∃ line, i = .quiet line ∧ isMatch line = none := by
  have hkept (heq : m.underlying = .unknown) : False := by simp [hrepl] at heq
  cases i with
  | scan kind =>
    change (m.afterScan kind).underlying = .unknown at h
    cases kind with
    | promptStart | commandInputStart | commandOutputStart | commandEnd =>
      simp [afterScan] at h
    | cwd | bracketedPasteSet => exact (hkept h).elim
    | altScreenEnter => exact (hkept (underlying_altScreenEnter ▸ h)).elim
    | altScreenLeave => exact absurd h (underlying_altScreenLeave hrepl)
  | quiet line =>
    change (m.onQuietCursorLine isMatch line).1.underlying = .unknown at h
    rw [onQuietCursorLine] at h
    split at h
    · exact (hkept h).elim
    · next hready =>
      have hmode : m.mode = .repl := by
        rwa [underlying, if_neg (not_or.mp hready).1] at hrepl
      rw [afterQuiet] at h
      split at h
      · simp [underlying] at h
      · next hline =>
        rw [if_pos hmode] at h
        dsimp only at h
        split at h
        · next hstreak =>
          have hle := hm.streak
          exact ⟨by omega, line, rfl, hline⟩
        · exact (hkept h).elim
  | noIntegration =>
    have hstays : (m.after isMatch .noIntegration).underlying = .repl :=
      underlying_markNoIntegration hrepl
    simp [hstays] at h
  | sentinelIntegration =>
    change m.markSentinelIntegration.1.underlying = .unknown at h
    rw [markSentinelIntegration] at h
    dsimp only at h
    split at h <;> exact (hkept h).elim

/-! ### The events -/

/-- What a reader of the changes takes over from one. -/
def applyChange (_ : Mode × Integration × Option String) (change : ModeChange) :
    Mode × Integration × Option String :=
  (change.mode, change.integration, change.replLabel)

theorem fold_changeSince (before : Mode × Integration × Option String) :
    (m.changeSince before).toList.foldl applyChange before = m.snapshot := by
  rw [changeSince]
  split
  · next hsame => exact hsame.symm
  · rfl

theorem fold_input (i : Input) :
    (m.input isMatch i).2.toList.foldl applyChange m.snapshot = (m.after isMatch i).snapshot := by
  cases i with
  | scan kind | noIntegration | sentinelIntegration => exact fold_changeSince m.snapshot
  | quiet line =>
    show (m.onQuietCursorLine isMatch line).2.toList.foldl applyChange m.snapshot =
      (m.onQuietCursorLine isMatch line).1.snapshot
    rw [onQuietCursorLine]
    split
    · rfl
    · exact fold_changeSince m.snapshot

theorem fold_changes (inputs : List Input) (m : ModeMachine) :
    (changes isMatch m inputs).foldl applyChange m.snapshot =
      (inputs.foldl (after isMatch) m).snapshot := by
  induction inputs generalizing m with
  | nil => rfl
  | cons i is ih =>
    show ((m.input isMatch i).2.toList ++ changes isMatch (m.after isMatch i) is).foldl
        applyChange m.snapshot = _
    rw [foldl_append, fold_input, ih]
    rfl

/-! ### Every order of inputs -/

/-- What the inputs say about the machine they lead to. -/
structure Evidence (isMatch : List Char → Option String) (inputs : List Input) : Prop where
  consistent : Consistent (machine isMatch inputs)
  shell : ClaimsShell (machine isMatch inputs) → MarkerSeen inputs
  missed : (machine isMatch inputs).replMissStreak = 1 → Missed isMatch inputs

theorem evidence (isMatch : List Char → Option String) (inputs : List Input) :
    Evidence isMatch inputs := by
  induction inputs using reverseRecOn with
  | nil =>
    exact
      { consistent := consistent_new
        shell := by simp [ClaimsShell, machine, new]
        missed := by simp [machine, new] }
  | append_singleton inputs i ih =>
    have hconsistent : Consistent (machine isMatch (inputs ++ [i])) := by
      rw [machine_concat]
      exact ih.consistent.after i
    refine { consistent := hconsistent, shell := fun h => ?_, missed := fun h => ?_ }
    · rw [machine_concat] at h
      rcases claimsShell_after h with ⟨kind, rfl, hkind⟩ | ⟨hi, hbefore⟩
      · exact markerSeen_concat hkind
      · exact (ih.shell hbefore).concat hi
    · have hrepl := hconsistent.missed h
      rw [machine_concat] at h
      rcases streak_after ih.consistent h with ⟨line, rfl, hline, hbefore⟩ | ⟨hi, hbefore⟩
      · exact missed_concat hline hbefore hrepl
      · exact (ih.missed hbefore).concat hi hrepl

/-- **The mode machine in every order of its inputs.** The label is there exactly in a REPL; a
shell, in the open or under a TUI, has an integration and a marker behind it; a REPL is given up at
the second quiet line in a row that does not match, with the machine in `repl` since before the
first; and who replays the changes has the machine's snapshot. -/
theorem modeMachine_invariants (isMatch : List Char → Option String) (inputs : List Input) :
    ((machine isMatch inputs).replLabel.isSome ↔ (machine isMatch inputs).mode = .repl) ∧
    ((machine isMatch inputs).underlying = .shell →
      (machine isMatch inputs).integration ≠ .none ∧ MarkerSeen inputs) ∧
    (∀ i, (machine isMatch inputs).underlying = .repl →
      (machine isMatch (inputs ++ [i])).underlying = .unknown →
      Missed isMatch inputs ∧ ∃ line, i = .quiet line ∧ isMatch line = none) ∧
    (changes isMatch new inputs).foldl applyChange new.snapshot =
      (machine isMatch inputs).snapshot := by
  obtain ⟨hm, hshell, hmissed⟩ := evidence isMatch inputs
  refine ⟨hm.label, fun h => ?_, fun i hrepl h => ?_, fold_changes inputs new⟩
  · have hclaim : (machine isMatch inputs).mode = .shell ∨
        (machine isMatch inputs).priorNonTui = .shell := by
      rw [underlying] at h
      split at h
      · exact Or.inr h
      · exact Or.inl h
    exact ⟨hm.shell hclaim, hshell (Or.inr hclaim)⟩
  · rw [machine_concat] at h
    obtain ⟨hstreak, hline⟩ := demoted_after hm hrepl h
    exact ⟨hmissed hstreak, hline⟩

/-! ### Under the alternate screen -/

variable {t : ModeMachine}

/-- An input that says nothing of what is under the alternate screen, and does not leave it. -/
def Above : Input → Prop
  | .scan kind => ¬ IsMarker kind ∧ kind ≠ .altScreenLeave
  | .quiet _ | .sentinelIntegration => True
  | .noIntegration => False

/-- `m` is under the alternate screen of `t`. -/
structure Under (m t : ModeMachine) : Prop where
  mode : t.mode = .tui
  prior : t.priorNonTui = m.mode
  priorLabel : t.priorReplLabel = m.replLabel
  integration : t.integration = .osc133 ↔ m.integration = .osc133

theorem Under.after (h : Under m t) (hi : Above i) : Under m (t.after isMatch i) := by
  cases i with
  | scan kind =>
    show Under m (t.afterScan kind)
    cases kind with
    | promptStart | commandInputStart | commandOutputStart | commandEnd =>
      exact absurd trivial hi.1
    | cwd | bracketedPasteSet => exact h
    | altScreenEnter =>
      rw [afterScan, if_neg (not_not.mpr h.mode)]
      exact h
    | altScreenLeave => exact absurd rfl hi.2
  | quiet line =>
    show Under m (t.onQuietCursorLine isMatch line).1
    rw [onQuietCursorLine, if_pos (.inl h.mode)]
    exact h
  | noIntegration => exact hi.elim
  | sentinelIntegration =>
    show Under m t.markSentinelIntegration.1
    rw [ModeMachine.markSentinelIntegration]
    dsimp only
    split
    · next hne => exact { h with integration := by simp [← h.integration, hne] }
    · exact h

theorem Under.foldl {is : List Input} (h : Under m t) (his : ∀ i ∈ is, Above i) :
    Under m (is.foldl (ModeMachine.after isMatch) t) := by
  induction is generalizing t with
  | nil => exact h
  | cons i is ih =>
    exact ih (h.after (his i mem_cons_self)) fun j hj => his j (mem_cons_of_mem _ hj)

theorem Under.leave (h : Under m t) (hm : Consistent m) :
    (t.afterScan .altScreenLeave).mode =
        (if m.integration = .osc133 then .shell else m.mode) ∧
      (t.afterScan .altScreenLeave).replLabel =
        if m.integration = .osc133 then none else m.replLabel := by
  rw [afterScan, if_pos h.mode]
  by_cases hosc : m.integration = .osc133
  · rw [if_pos (h.integration.mpr hosc), if_pos hosc, if_pos hosc]
    exact ⟨rfl, rfl⟩
  · rw [if_neg (mt h.integration.mp hosc), if_neg hosc, if_neg hosc, h.prior, h.priorLabel]
    refine ⟨rfl, ?_⟩
    dsimp only
    split
    · rfl
    · next hne => exact (Option.not_isSome_iff_eq_none.mp (mt hm.label.mp hne)).symm

/-- **The alternate screen changes nothing under it.** Once it is left, the machine is a shell if it
has OSC 133, and what it was before otherwise. -/
theorem alternate_screen_restores (isMatch : List Char → Option String)
    (inputs between : List Input) (hmode : (machine isMatch inputs).mode ≠ .tui)
    (hbetween : ∀ i ∈ between, Above i) :
    let before := machine isMatch inputs
    let left := machine isMatch
      (inputs ++ .scan .altScreenEnter :: (between ++ [.scan .altScreenLeave]))
    left.mode = (if before.integration = .osc133 then .shell else before.mode) ∧
      left.replLabel = if before.integration = .osc133 then none else before.replLabel := by
  intro before left
  have hentered : Under before (before.after isMatch (.scan .altScreenEnter)) := by
    show Under before (before.afterScan .altScreenEnter)
    rw [afterScan, if_pos hmode]
    exact ⟨rfl, rfl, rfl, Iff.rfl⟩
  have hleft : left = (between.foldl (ModeMachine.after isMatch)
      (before.after isMatch (.scan .altScreenEnter))).afterScan .altScreenLeave := by
    show foldl _ _ _ = _
    rw [foldl_append, foldl_cons, foldl_append]
    rfl
  rw [hleft]
  exact (hentered.foldl hbetween).leave (evidence isMatch inputs).consistent

/-- A REPL that has shown a pager. -/
theorem alternate_screen_restores_repl :
    (machine (fun _ => some "python") [.quiet [], .scan .altScreenEnter, .quiet [],
      .scan .altScreenLeave]).mode = .repl :=
  (alternate_screen_restores (fun _ => some "python") [.quiet []] [.quiet []] (by decide)
    (by simp [Above])).1

end ModeMachine

end Bud.Modes
