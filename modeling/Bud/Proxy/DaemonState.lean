import Bud.Lib.Settling
import Mathlib.Data.List.Basic

/-!
# The durable rows of a proxied request

`daemon-state.ts`: an operation and its stream each have a row whose state only moves along the
allowed transitions. A transition names the states it starts from, and is refused as a whole if one
of them may not reach the target; otherwise it is one conditional update of the row.

## Modelling notes

Only the state of a row is kept. `open` is a word of Lean, and the stream state of that name is
`opened` here. A caller that writes `.catch(() => null)` goes on after a refusal, with the row as it
was.
-/

namespace Bud.Proxy

/-! ### States -/

inductive OperationState where
  | offered
  | accepted
  | rejected
  | running
  | succeeded
  | failed
  | canceled
  | unknown
  | expired
  deriving DecidableEq

inductive StreamState where
  | opening
  | opened
  | halfClosedLocal
  | halfClosedRemote
  | closed
  | reset
  | unknown
  | expired
  deriving DecidableEq

def operationTerminalStates : List OperationState :=
  [.succeeded, .failed, .canceled, .unknown, .expired]

def streamTerminalStates : List StreamState := [.closed, .reset, .unknown, .expired]

/-- The states of a stream that has not ended, as the callers list them. -/
def liveStreamStates : List StreamState :=
  [.opening, .opened, .halfClosedLocal, .halfClosedRemote]

def allowedOperationTransitions : OperationState → List OperationState
  | .offered => [.accepted, .rejected, .canceled, .expired, .unknown]
  | .accepted => [.running, .succeeded, .failed, .canceled, .unknown, .expired]
  | .rejected => []
  | .running => [.succeeded, .failed, .canceled, .unknown, .expired]
  | .succeeded => []
  | .failed => []
  | .canceled => []
  | .unknown => [.offered, .accepted, .running, .failed, .canceled, .expired]
  | .expired => []

def allowedStreamTransitions : StreamState → List StreamState
  | .opening => [.opened, .reset, .unknown, .expired]
  | .opened => [.halfClosedLocal, .halfClosedRemote, .closed, .reset, .unknown, .expired]
  | .halfClosedLocal => [.closed, .reset, .unknown, .expired]
  | .halfClosedRemote => [.closed, .reset, .unknown, .expired]
  | .closed => []
  | .reset => []
  | .unknown => [.opening, .opened, .reset, .expired]
  | .expired => []

def isAllowedOperationTransition (source target : OperationState) : Bool :=
  source == target || (allowedOperationTransitions source).contains target

def isAllowedStreamTransition (source target : StreamState) : Bool :=
  source == target || (allowedStreamTransitions source).contains target

/-! ### Updates -/

structure Rows where
  operation : OperationState
  stream : StreamState
  deriving DecidableEq

/-- What a caller asks for. -/
inductive Update where
  | operation (sources : List OperationState) (target : OperationState)
  | stream (sources : List StreamState) (target : StreamState)
  deriving DecidableEq

/-- `invalid_operation_transition` and `invalid_stream_transition`. -/
inductive Refusal where
  | operation (source target : OperationState)
  | stream (source target : StreamState)

def transitionOperation (row : OperationState) (sources : List OperationState)
    (target : OperationState) : Except Refusal OperationState :=
  match sources.find? fun source => !isAllowedOperationTransition source target with
  | some source => .error (.operation source target)
  | none => .ok (if row ∈ sources then target else row)

def transitionStream (row : StreamState) (sources : List StreamState) (target : StreamState) :
    Except Refusal StreamState :=
  match sources.find? fun source => !isAllowedStreamTransition source target with
  | some source => .error (.stream source target)
  | none => .ok (if row ∈ sources then target else row)

def Rows.apply (rows : Rows) : Update → Except Refusal Rows
  | .operation sources target =>
    (transitionOperation rows.operation sources target).map fun state =>
      { rows with operation := state }
  | .stream sources target =>
    (transitionStream rows.stream sources target).map fun state => { rows with stream := state }

/-- A transition whose refusal is caught. -/
def Rows.update (u : Update) (rows : Rows) : Rows :=
  match rows.apply u with
  | .ok rows => rows
  | .error _ => rows

/-- The first update of `markUnknownForTransportSession`. -/
def Rows.markOperationUnknown (rows : Rows) : Rows :=
  if rows.operation ∈ [.offered, .accepted, .running] then { rows with operation := .unknown }
  else rows

def Rows.markStreamUnknown (rows : Rows) : Rows :=
  if rows.stream ∈ [.opening, .opened, .halfClosedLocal, .halfClosedRemote] then
    { rows with stream := .unknown }
  else rows

/-! ### Ends -/

def OperationState.Ended (state : OperationState) : Prop :=
  state = .rejected ∨ state ∈ operationTerminalStates

def StreamState.Ended (state : StreamState) : Prop := state ∈ streamTerminalStates

instance (state : OperationState) : Decidable state.Ended :=
  inferInstanceAs (Decidable (_ ∨ _))

instance (state : StreamState) : Decidable state.Ended :=
  inferInstanceAs (Decidable (_ ∈ streamTerminalStates))

/-- The operation states nothing leads out of. -/
def OperationState.Final (state : OperationState) : Prop :=
  state ∈ [OperationState.succeeded, .failed, .canceled, .rejected, .expired]

def StreamState.Final (state : StreamState) : Prop :=
  state ∈ [StreamState.closed, .reset, .expired]

/-- Rows that are final stay what they are. -/
def Rows.KeepsFinal (rows rows' : Rows) : Prop :=
  (rows.operation.Final → rows'.operation = rows.operation) ∧
    (rows.stream.Final → rows'.stream = rows.stream)

theorem Rows.KeepsFinal.refl (rows : Rows) : rows.KeepsFinal rows := ⟨fun _ => rfl, fun _ => rfl⟩

theorem allowed_of_final_operation (h : source.Final)
    (ha : isAllowedOperationTransition source target = true) : target = source := by
  cases source <;> simp_all [OperationState.Final, isAllowedOperationTransition,
    allowedOperationTransitions]

theorem allowed_of_final_stream (h : source.Final)
    (ha : isAllowedStreamTransition source target = true) : target = source := by
  cases source <;> simp_all [StreamState.Final, isAllowedStreamTransition, allowedStreamTransitions]

/-- **No transition leaves a final state.** -/
theorem keepsFinal_apply {rows : Rows} (h : rows.apply u = .ok rows') : rows.KeepsFinal rows' := by
  cases u with
  | operation sources target =>
    rw [Rows.apply, transitionOperation] at h
    split at h
    · cases h
    · next hfind =>
      cases h
      refine ⟨fun hfinal => ?_, fun _ => rfl⟩
      have hallowed := List.find?_eq_none.mp hfind
      dsimp only
      split
      · next hmem =>
        exact allowed_of_final_operation hfinal (by simpa using hallowed rows.operation hmem)
      · rfl
  | stream sources target =>
    rw [Rows.apply, transitionStream] at h
    split at h
    · cases h
    · next hfind =>
      cases h
      refine ⟨fun _ => rfl, fun hfinal => ?_⟩
      have hallowed := List.find?_eq_none.mp hfind
      dsimp only
      split
      · next hmem =>
        exact allowed_of_final_stream hfinal (by simpa using hallowed rows.stream hmem)
      · rfl

theorem keepsFinal_update (u : Update) (rows : Rows) : rows.KeepsFinal (rows.update u) := by
  rw [Rows.update]
  split
  · next h => exact keepsFinal_apply h
  · exact Rows.KeepsFinal.refl rows

theorem keepsFinal_markOperationUnknown (rows : Rows) :
    rows.KeepsFinal rows.markOperationUnknown := by
  rw [Rows.markOperationUnknown]
  split
  · next hmem =>
    refine ⟨fun hfinal => ?_, fun _ => rfl⟩
    rcases rows with ⟨operation, stream⟩
    cases operation <;> simp_all [OperationState.Final]
  · exact Rows.KeepsFinal.refl rows

theorem keepsFinal_markStreamUnknown (rows : Rows) : rows.KeepsFinal rows.markStreamUnknown := by
  rw [Rows.markStreamUnknown]
  split
  · next hmem =>
    refine ⟨fun _ => rfl, fun hfinal => ?_⟩
    rcases rows with ⟨operation, stream⟩
    cases stream <;> simp_all [StreamState.Final]
  · exact Rows.KeepsFinal.refl rows

/-! ### Progress -/

def OperationState.rank : OperationState → ℕ
  | .offered => 0
  | .accepted => 1
  | .running => 2
  | .rejected | .succeeded | .failed | .canceled | .unknown | .expired => 3

def StreamState.rank : StreamState → ℕ
  | .opening => 0
  | .opened => 1
  | .halfClosedLocal | .halfClosedRemote => 2
  | .closed | .reset | .unknown | .expired => 3

theorem OperationState.rank_le (state : OperationState) : state.rank ≤ 3 := by
  cases state <;> decide

theorem StreamState.rank_le (state : StreamState) : state.rank ≤ 3 := by
  cases state <;> decide

theorem operation_ended_iff {state : OperationState} : state.Ended ↔ 3 ≤ state.rank := by
  cases state <;> decide

theorem stream_ended_iff {state : StreamState} : state.Ended ↔ 3 ≤ state.rank := by
  cases state <;> decide

/-- Rows are ordered by how far both have come. -/
instance : Preorder Rows :=
  Preorder.lift fun rows => (rows.operation.rank, rows.stream.rank)

def Update.Forward : Update → Prop
  | .operation sources target => ∀ source ∈ sources, source.rank ≤ target.rank
  | .stream sources target => ∀ source ∈ sources, source.rank ≤ target.rank

instance : ∀ u : Update, Decidable u.Forward
  | .operation sources target =>
    inferInstanceAs (Decidable (∀ source ∈ sources, source.rank ≤ target.rank))
  | .stream sources target =>
    inferInstanceAs (Decidable (∀ source ∈ sources, source.rank ≤ target.rank))

theorem le_update (h : u.Forward) (rows : Rows) : rows ≤ rows.update u := by
  cases u with
  | operation sources target =>
    rw [Rows.update, Rows.apply, transitionOperation]
    split
    · next hok =>
      split at hok
      · cases hok
      · cases hok
        refine ⟨?_, Nat.le_refl _⟩
        dsimp only
        split
        · next hmem => exact h _ hmem
        · exact Nat.le_refl _
    · exact le_rfl
  | stream sources target =>
    rw [Rows.update, Rows.apply, transitionStream]
    split
    · next hok =>
      split at hok
      · cases hok
      · cases hok
        refine ⟨Nat.le_refl _, ?_⟩
        dsimp only
        split
        · next hmem => exact h _ hmem
        · exact Nat.le_refl _
    · exact le_rfl

theorem le_markOperationUnknown (rows : Rows) : rows ≤ rows.markOperationUnknown := by
  rw [Rows.markOperationUnknown]
  split
  · exact ⟨rows.operation.rank_le, Nat.le_refl _⟩
  · exact le_rfl

theorem le_markStreamUnknown (rows : Rows) : rows ≤ rows.markStreamUnknown := by
  rw [Rows.markStreamUnknown]
  split
  · exact ⟨Nat.le_refl _, rows.stream.rank_le⟩
  · exact le_rfl

end Bud.Proxy
