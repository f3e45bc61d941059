import Bud.Stem.Damage
import Mathlib.Data.Int.Range

/-!
# How many lines a feed scrolled

`feed` compares history sizes, and once the history is full it looks for the row that was on top.
`ScrollsOff` says what scrolling lines off the primary screen does to the terminal, and
`accountScroll_tracks` what the count is then worth: it is the number of lines that scrolled off,
or the report says that the count was lost, or there is nothing yet to count from.
-/

namespace Bud.Emulator

open Terminal List

/-- Reporting damage leaves the history alone. -/
class LawfulScrollback (T : Type) [Terminal T] : Prop extends LawfulTerminal T where
  historySize_damage : ∀ t : T, historySize (damage t).2 = historySize t
  historySize_resetDamage : ∀ t : T, historySize (resetDamage t) = historySize t

section

variable {T : Type} [Terminal T]

/-- **Lines scrolled off** the primary screen: the history grew by them up to its cap, its newest
lines are the newest of them, and the row that was on top is now as many rows further up, unless it
has left the history. Its buffer is not seen anywhere else. -/
structure ScrollsOff (e : Emu T) (since : List (List StyledRun)) : Prop where
  size : historySize e.term = min (e.primaryHistWatermark + since.length) e.scrollbackCap
  lines : ∀ i < min since.length (historySize e.term),
    since.reverse[i]? = some (e.lineRuns (-(i + 1 : ℤ)))
  top : ∀ addr ∈ e.primaryTopId, ∀ line : ℤ, -(historySize e.term : ℤ) ≤ line → line < e.rows →
    (rowAddr e.term line = addr ↔ line = -(since.length : ℤ))

instance (e : Emu T) (since : List (List StyledRun)) : Decidable (ScrollsOff e since) :=
  decidable_of_iff
    (historySize e.term = min (e.primaryHistWatermark + since.length) e.scrollbackCap ∧
      (∀ i < min since.length (historySize e.term),
        since.reverse[i]? = some (e.lineRuns (-(i + 1 : ℤ)))) ∧
      ∀ addr ∈ e.primaryTopId, ∀ line : ℤ, -(historySize e.term : ℤ) ≤ line → line < e.rows →
        (rowAddr e.term line = addr ↔ line = -(since.length : ℤ)))
    ⟨fun h => ⟨h.1, h.2.1, h.2.2⟩, fun h => ⟨h.size, h.lines, h.top⟩⟩

/-- Nothing to count from: the first feed of a screen, or of an attachment, or no history. -/
def Unanchored (e : Emu T) : Prop :=
  e.anchorPendingAltExit = true ∨ e.primaryTopId = none ∨ e.scrollbackCap = 0

namespace Emu

variable {e : Emu T} {since : List (List StyledRun)} {bytes : List UInt8}

theorem find?_history (h : ScrollsOff e since) (haddr : addr ∈ e.primaryTopId) :
    (range (historySize e.term)).find? (fun k : ℕ => rowAddr e.term (-(k + 1 : ℤ)) == addr)
      = if 0 < since.length ∧ since.length ≤ historySize e.term then some (since.length - 1)
        else none := by
  have hrow : ∀ k < historySize e.term, rowAddr e.term (-(k + 1 : ℤ)) = addr ↔
      k + 1 = since.length := fun k hk => by
    rw [h.top addr haddr _ (by omega) (by omega)]
    omega
  split_ifs with hin
  · rw [find?_range_eq_some]
    refine ⟨?_, by rw [mem_range]; omega, fun k hk => ?_⟩
    · rw [beq_iff_eq, hrow _ (by omega)]
      omega
    · rw [Bool.not_eq_true', beq_eq_false_iff_ne, Ne, hrow k (by omega)]
      omega
  · rw [find?_eq_none]
    intro k hk hfound
    rw [mem_range] at hk
    rw [beq_iff_eq, hrow k hk] at hfound
    omega

theorem locateRow_tracks (h : ScrollsOff e since) (haddr : addr ∈ e.primaryTopId) :
    e.locateRow addr (historySize e.term) = .viewport ∧ since.length = 0 ∨
      e.locateRow addr (historySize e.term) = .history since.length ∧
        since.length ≤ historySize e.term ∨
      e.locateRow addr (historySize e.term) = .gone := by
  rw [locateRow]
  split_ifs with hview
  · -- a visible row is as far down as before
    left
    obtain ⟨r, hr, hfound⟩ := any_eq_true.mp hview
    rw [mem_range] at hr
    rw [beq_iff_eq, h.top addr haddr _ (by omega) (by omega)] at hfound
    exact ⟨rfl, by omega⟩
  · right
    rw [find?_history h haddr]
    split_ifs with hin
    · left
      refine ⟨?_, hin.2⟩
      show RowLocation.history (since.length - 1 + 1) = .history since.length
      rw [Nat.sub_add_cancel hin.1]
    · exact Or.inr rfl

/-- **The count of a feed**: no more lines than scrolled off and than the history has, and all of
them unless the report says otherwise or there was nothing to count from. -/
theorem accountScroll_tracks (hprimary : (mode e.term).altScreen = false) (h : ScrollsOff e since) :
    e.accountScroll.2.1 ≤ since.length ∧ e.accountScroll.2.1 ≤ historySize e.term ∧
      (e.accountScroll.2.1 = since.length ∨ Unanchored e ∨ e.accountScroll.2.2 = true) := by
  have hsize := h.size
  simp only [accountScroll, hprimary, Bool.false_eq_true, if_false]
  split_ifs with halt hloss hfull
  · exact ⟨Nat.zero_le _, Nat.zero_le _, Or.inr (Or.inl (Or.inl halt))⟩
  · exact ⟨Nat.zero_le _, Nat.zero_le _, Or.inr (Or.inr rfl)⟩
  · cases htop : e.primaryTopId with
    | none => exact ⟨by simp only; omega, by simp only; omega,
      Or.inr (Or.inl (Or.inr (Or.inl htop)))⟩
    | some addr =>
      rcases locateRow_tracks h (Option.mem_def.mpr htop) with
        ⟨hrow, hzero⟩ | ⟨hrow, hle⟩ | hrow
      · simp only [hrow]
        exact ⟨by omega, by omega, Or.inl (by omega)⟩
      · simp only [hrow]
        exact ⟨le_rfl, hle, Or.inl trivial⟩
      · simp only [hrow]
        exact ⟨by omega, by omega, Or.inr (Or.inr trivial)⟩
  · -- the history is not full, so its size says how many lines came in
    refine ⟨by simp only; omega, by simp only; omega, ?_⟩
    by_cases hnone : e.scrollbackCap = 0
    · exact Or.inr (Or.inl (Or.inr (Or.inr hnone)))
    · left
      simp only
      omega

theorem accountScroll_alt (halt : (mode e.term).altScreen = true) :
    e.accountScroll = (e, 0, false) := by
  rw [accountScroll, if_pos halt]

/-- After an accounting there is something to count from, if there is a history. -/
theorem unanchored_accountScroll (hprimary : (mode e.term).altScreen = false) :
    Unanchored e.accountScroll.1 ↔ e.scrollbackCap = 0 := by
  have hanchor : e.accountScroll.1.anchorPendingAltExit = false ∧
      e.accountScroll.1.primaryTopId = some (rowAddr e.term 0) ∧
      e.accountScroll.1.scrollbackCap = e.scrollbackCap := by
    simp only [accountScroll, hprimary, Bool.false_eq_true, if_false]
    split_ifs with halt hloss hfull
    · exact ⟨rfl, trivial, rfl⟩
    · exact ⟨by simpa using halt, trivial, rfl⟩
    · cases e.primaryTopId with
      | none => exact ⟨by simpa using halt, trivial, rfl⟩
      | some addr =>
        simp only
        cases e.locateRow addr (historySize e.term) <;> exact ⟨by simpa using halt, trivial, rfl⟩
    · exact ⟨by simpa using halt, trivial, rfl⟩
  obtain ⟨halt, htop, hcap⟩ := hanchor
  rw [Unanchored, halt, htop, hcap]
  simp

/-! ### The feed -/

/-- The emulator a feed accounts for: advanced, its damage not yet taken. -/
def advanced (e : Emu T) (bytes : List UInt8) : Emu T := { e with term := advance e.term bytes }

theorem feed_scroll (e : Emu T) (bytes : List UInt8) :
    (e.feed bytes).2.scrolledLines = (e.advanced bytes).accountScroll.2.1 ∧
      (e.feed bytes).2.scrollHistoryLost = (e.advanced bytes).accountScroll.2.2 ∧
      (e.feed bytes).1 = { (e.advanced bytes).accountScroll.1 with
        term := (e.feed bytes).1.term } := by
  rw [feed, advanced]
  simp only
  cases (damage (accountScroll { e with term := advance e.term bytes }).1.term).1 <;>
    exact ⟨rfl, rfl, rfl⟩

variable [LawfulScrollback T]

theorem historySize_feed (e : Emu T) (bytes : List UInt8) :
    historySize (e.feed bytes).1.term = historySize (e.advanced bytes).term := by
  rw [(feed_spec e bytes).1, LawfulScrollback.historySize_resetDamage,
    LawfulScrollback.historySize_damage, advanced]

theorem lineRuns_feed (e : Emu T) (bytes : List UInt8) (line : ℤ) :
    (e.feed bytes).1.lineRuns line = (e.advanced bytes).lineRuns line := by
  have hcells : lineCells e.cols (e.feed bytes).1.term line
      = lineCells e.cols (advance e.term bytes) line :=
    map_congr_left fun col _ => cell_feed e bytes line col
  rw [lineRuns, (feed_spec e bytes).2.1, hcells, lineRuns, advanced]

/-- **The lines that are read** for a count are the newest that scrolled off. -/
theorem recentHistoryRuns_feed (h : ScrollsOff (e.advanced bytes) since) (hn : n ≤ since.length)
    (hhistory : n ≤ historySize (e.advanced bytes).term) :
    (e.feed bytes).1.recentHistoryRuns n = since.drop (since.length - n) := by
  have htake : (range n).map (fun i : ℕ => (e.advanced bytes).lineRuns (-(i + 1 : ℤ)))
      = since.reverse.take n := by
    refine ext_getElem? fun i => ?_
    by_cases hi : i < n
    · rw [getElem?_map, getElem?_range hi, Option.map_some, getElem?_take_of_lt hi,
        h.lines i (by omega)]
    · rw [getElem?_eq_none (by simpa using hi), getElem?_eq_none]
      rw [length_take]
      omega
  have hlines : (fun i : ℕ => (e.feed bytes).1.lineRuns (-(i + 1 : ℤ)))
      = fun i : ℕ => (e.advanced bytes).lineRuns (-(i + 1 : ℤ)) :=
    funext fun i => lineRuns_feed e bytes _
  rw [recentHistoryRuns, historySize_feed, Nat.min_eq_left hhistory, hlines, map_reverse,
    htake, reverse_take, reverse_reverse, length_reverse]

omit [LawfulScrollback T] in
theorem feed_alt (halt : (e.advanced bytes).altScreenActive = true) :
    (e.feed bytes).2.scrolledLines = 0 ∧ (e.feed bytes).2.scrollHistoryLost = false ∧
      (Unanchored (e.feed bytes).1 ↔ Unanchored e) := by
  obtain ⟨hscrolled, hlost, hemu⟩ := feed_scroll e bytes
  rw [accountScroll_alt halt] at hscrolled hlost hemu
  rw [hemu]
  exact ⟨hscrolled, hlost, Iff.rfl⟩

theorem feed_primary (hprimary : (e.advanced bytes).altScreenActive = false)
    (h : ScrollsOff (e.advanced bytes) since) : (e.feed bytes).2.scrolledLines ≤ since.length ∧
      (e.feed bytes).1.recentHistoryRuns (e.feed bytes).2.scrolledLines
        = since.drop (since.length - (e.feed bytes).2.scrolledLines) ∧
      ((e.feed bytes).2.scrolledLines = since.length ∨ Unanchored e ∨
        (e.feed bytes).2.scrollHistoryLost = true) ∧
      (Unanchored (e.feed bytes).1 → Unanchored e ∧ (e.feed bytes).2.scrolledLines = 0) := by
  obtain ⟨hscrolled, hlost, hemu⟩ := feed_scroll e bytes
  obtain ⟨hle, hhistory, hcount⟩ := accountScroll_tracks hprimary h
  rw [← hscrolled] at hle hhistory hcount
  rw [← hlost] at hcount
  refine ⟨hle, recentHistoryRuns_feed h hle hhistory, hcount, fun hnone => ?_⟩
  rw [hemu] at hnone
  have hcap : e.scrollbackCap = 0 := (unanchored_accountScroll hprimary).mp hnone
  have hsize : historySize (e.advanced bytes).term ≤ e.scrollbackCap := by
    rw [h.size]
    exact Nat.min_le_right _ _
  exact ⟨Or.inr (Or.inr hcap), by omega⟩

end Emu

end

end Bud.Emulator
