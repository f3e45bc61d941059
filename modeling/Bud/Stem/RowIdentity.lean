import Bud.Stem.PlainTerm
import Mathlib.Data.List.Forall2
import Mathlib.Data.Set.Function

/-!
# What the hash of a row sees

A row is told apart from other rows by `row_content_hash` and drawn by `line_runs`: two walks over
the same cells, which should look at the same things. The hash mixes four values a cell, its
character, its two colours and its flags. It has nothing of the zero-width characters attached to
the cell, and `color_hash` gives the default colours, which are the named colours 256 and 257, the
values of the indexed colours 0 and 1. So a row may be drawn differently and keep its hash.

These are all the ways in which it may. The hash is taken to be injective on the values it mixes.
-/

namespace Bud.Emulator

open Terminal List

/-! ### What is mixed -/

section

variable (T : Type) [Terminal T]

def hashValues (cells : List Cell) : List UInt64 :=
  cells.flatMap fun cell =>
    [UInt64.ofNat cell.c.toNat, colorHash cell.fg, colorHash cell.bg, flagBits T cell.flags]

variable {T}

end

/-- A cell by what is seen both by the hash and by the drawing. -/
def SameGlyph (a b : Cell) : Prop := a.c = b.c ∧ a.flags = b.flags

theorem toNat_injective_uint64 {d : Char} (h : UInt64.ofNat c.toNat = UInt64.ofNat d.toNat) :
    c = d := by
  have hlt : ∀ e : Char, e.toNat < 2 ^ 64 := fun e => e.val.toNat_lt.trans (by decide)
  have hnat := congrArg UInt64.toNat h
  rw [UInt64.toNat_ofNat_of_lt' (hlt c), UInt64.toNat_ofNat_of_lt' (hlt d)] at hnat
  exact Char.toNat_inj.mp hnat

variable {r₁ r₂ cells : List Cell} {a : Cell} {width : Char → ℕ}

/-- Rows with the same values have the same characters and flags, cell by cell. -/
theorem sameGlyph_of_hashValues {T : Type} [Terminal T]
    (hbits : Set.InjOn (flagBits T) {flags | ∃ cell ∈ r₁ ++ r₂, cell.flags = flags})
    (h : hashValues T r₁ = hashValues T r₂) : Forall₂ SameGlyph r₁ r₂ := by
  induction r₁ generalizing r₂ with
  | nil =>
    cases r₂ with
    | nil => exact .nil
    | cons b r₂ => simp [hashValues] at h
  | cons a r₁ ih =>
    cases r₂ with
    | nil => simp [hashValues] at h
    | cons b r₂ =>
      simp only [hashValues, flatMap_cons, cons_append, nil_append, cons.injEq] at h
      obtain ⟨hc, -, -, hflags, hrest⟩ := h
      refine .cons ⟨toNat_injective_uint64 hc, hbits ?_ ?_ hflags⟩ (ih ?_ hrest)
      · exact ⟨a, by simp, rfl⟩
      · exact ⟨b, by simp, rfl⟩
      · refine hbits.mono ?_
        rintro flags ⟨cell, hcell, rfl⟩
        refine ⟨cell, ?_, rfl⟩
        simp only [mem_append, mem_cons] at hcell ⊢
        tauto

/-! ### What is drawn -/

/-- The cells of a row that runs are made of. -/
def drawnCells (cells : List Cell) : List Cell :=
  ((cells.reverse.dropWhile isTrailingBlank).reverse).filter fun cell => !isSpacer cell

theorem runsOfCells_eq (cells : List Cell) :
    runsOfCells cells = (drawnCells cells).foldl pushCell [] := rfl

def Drawn (cells : List Cell) (i : ℕ) : Prop :=
  (∃ cell, cells[i]? = some cell ∧ isSpacer cell = false) ∧
    ∃ j cell, i ≤ j ∧ cells[j]? = some cell ∧ isTrailingBlank cell = false

/-- What is drawn of a cell and is not in its glyph. -/
structure SameLook (a b : Cell) : Prop where
  zerowidth : a.zerowidth.getD [] = b.zerowidth.getD []
  fg : convertColor a.fg = convertColor b.fg
  bg : convertColor a.bg = convertColor b.bg

/-- **Nothing is hidden from the hash**: where a cell of either row is drawn, so is that of the
other, with the same zero-width characters and the same colours. -/
def NoHiddenChange (r₁ r₂ : List Cell) : Prop :=
  ∀ (i : ℕ) a b, r₁[i]? = some a → r₂[i]? = some b → Drawn r₁ i ∨ Drawn r₂ i →
    Drawn r₁ i ∧ Drawn r₂ i ∧ SameLook a b

def AllBlank (cells : List Cell) : Prop := ∀ cell ∈ cells, isTrailingBlank cell = true

instance (cells : List Cell) : Decidable (AllBlank cells) :=
  inferInstanceAs (Decidable (∀ cell ∈ cells, _))

theorem drawn_succ : Drawn (a :: cells) (i + 1) ↔ Drawn cells i := by
  simp only [Drawn, getElem?_cons_succ]
  refine and_congr_right fun _ => ?_
  constructor
  · rintro ⟨j, cell, hle, hcell, hblank⟩
    obtain ⟨k, rfl⟩ : ∃ k, j = k + 1 := ⟨j - 1, by omega⟩
    exact ⟨k, cell, by omega, hcell, hblank⟩
  · rintro ⟨j, cell, hle, hcell, hblank⟩
    exact ⟨j + 1, cell, by omega, hcell, hblank⟩

theorem drawn_zero : Drawn (a :: cells) 0 ↔ isSpacer a = false ∧ ¬AllBlank (a :: cells) := by
  have hblank : (∃ j cell, 0 ≤ j ∧ (a :: cells)[j]? = some cell ∧ isTrailingBlank cell = false) ↔
      ¬AllBlank (a :: cells) := by
    constructor
    · rintro ⟨j, cell, -, hcell, hnot⟩ hall
      rw [hall cell (mem_of_getElem? hcell)] at hnot
      cases hnot
    · intro hnot
      rw [AllBlank, not_forall] at hnot
      obtain ⟨cell, hcell⟩ := hnot
      rw [Classical.not_imp, Bool.not_eq_true] at hcell
      obtain ⟨j, hj⟩ := mem_iff_getElem?.mp hcell.1
      exact ⟨j, cell, Nat.zero_le j, hj, hcell.2⟩
  rw [Drawn, hblank]
  simp

theorem not_drawn_of_allBlank (h : AllBlank cells) (i : ℕ) : ¬Drawn cells i := by
  rintro ⟨-, j, cell, -, hcell, hnot⟩
  rw [h cell (mem_of_getElem? hcell)] at hnot
  cases hnot

theorem drawnCells_of_allBlank (h : AllBlank cells) : drawnCells cells = [] := by
  have hdrop : cells.reverse.dropWhile isTrailingBlank = [] :=
    dropWhile_eq_nil_iff.mpr fun cell hcell => h cell (mem_reverse.mp hcell)
  rw [drawnCells, hdrop]
  rfl

/-- The first cell of a row that is not blank is drawn, unless it is a spacer. -/
theorem drawnCells_cons (h : ¬AllBlank (a :: cells)) :
    drawnCells (a :: cells) = (if isSpacer a then [] else [a]) ++ drawnCells cells := by
  have hkept : ((a :: cells).reverse.dropWhile isTrailingBlank).reverse
      = a :: (cells.reverse.dropWhile isTrailingBlank).reverse := by
    rw [reverse_cons, dropWhile_append]
    split_ifs with hempty
    · have hall : ∀ cell ∈ cells, isTrailingBlank cell = true := fun cell hcell =>
        dropWhile_eq_nil_iff.mp (List.isEmpty_iff.mp hempty) cell (mem_reverse.mpr hcell)
      have ha : ¬isTrailingBlank a = true := fun ha => h fun cell hcell => by
        rcases mem_cons.mp hcell with rfl | hcell
        · exact ha
        · exact hall cell hcell
      rw [List.isEmpty_iff.mp hempty, dropWhile_cons_of_neg ha]
      rfl
    · rw [reverse_append]
      rfl
  rw [drawnCells, hkept, filter_cons, drawnCells]
  cases isSpacer a <;> rfl

/-- A row of which nothing is left to draw has no cell that is drawn. -/
theorem not_drawn_of_drawnCells (h : drawnCells cells = []) (i : ℕ) : ¬Drawn cells i := by
  induction cells generalizing i with
  | nil => rintro ⟨⟨cell, hcell, -⟩, -⟩; simp at hcell
  | cons a cells ih =>
    by_cases hall : AllBlank (a :: cells)
    · exact not_drawn_of_allBlank hall i
    · rw [drawnCells_cons hall, append_eq_nil_iff] at h
      cases i with
      | zero =>
        intro hdrawn
        rw [(drawn_zero.mp hdrawn).1] at h
        simp at h
      | succ i =>
        rw [drawn_succ]
        exact ih h.2 i

theorem noHiddenChange_cons : NoHiddenChange (a :: r₁) (b :: r₂) ↔
      (Drawn (a :: r₁) 0 ∨ Drawn (b :: r₂) 0 →
        Drawn (a :: r₁) 0 ∧ Drawn (b :: r₂) 0 ∧ SameLook a b) ∧ NoHiddenChange r₁ r₂ := by
  constructor
  · intro h
    refine ⟨h 0 a b rfl rfl, fun i a' b' ha hb hdrawn => ?_⟩
    have hi := h (i + 1) a' b' ha hb
    rw [drawn_succ, drawn_succ] at hi
    exact hi hdrawn
  · rintro ⟨hhead, htail⟩ i a' b' ha hb
    cases i with
    | zero =>
      cases ha
      cases hb
      exact hhead
    | succ i =>
      rw [drawn_succ, drawn_succ]
      exact htail i a' b' ha hb

/-! ### Nothing hidden, nothing lost -/

theorem isSpacer_congr (h : SameGlyph a b) : isSpacer a = isSpacer b := by
  rw [isSpacer, isSpacer, h.2]

def SameCell (a b : Cell) : Prop := SameGlyph a b ∧ SameLook a b

theorem pushCell_congr (h : SameCell a b) (runs : List StyledRun) :
    pushCell runs a = pushCell runs b := by
  obtain ⟨⟨hc, hflags⟩, hzero, hfg, hbg⟩ := h
  have htext : cellText a = cellText b := by rw [cellText, cellText, hc, hzero]
  rw [pushCell, pushCell, htext, hfg, hbg, hflags]

theorem foldl_pushCell_congr (h : Forall₂ SameCell xs ys) (runs : List StyledRun) :
    xs.foldl pushCell runs = ys.foldl pushCell runs := by
  induction h generalizing runs with
  | nil => rfl
  | cons hcell _ ih => rw [foldl_cons, foldl_cons, pushCell_congr hcell, ih]

theorem forall₂_drawnCells (hglyphs : Forall₂ SameGlyph r₁ r₂) (h : NoHiddenChange r₁ r₂) :
    Forall₂ SameCell (drawnCells r₁) (drawnCells r₂) := by
  induction hglyphs with
  | nil => exact .nil
  | @cons a b r₁ r₂ hglyph _ ih =>
    obtain ⟨hhead, htail⟩ := noHiddenChange_cons.mp h
    have hrest := ih htail
    by_cases h₁ : AllBlank (a :: r₁)
    · rw [drawnCells_of_allBlank h₁]
      by_cases h₂ : AllBlank (b :: r₂)
      · rw [drawnCells_of_allBlank h₂]
        exact .nil
      · have hb : isSpacer b = true := by
          by_contra hnot
          exact not_drawn_of_allBlank h₁ 0
            (hhead (.inr (drawn_zero.mpr ⟨Bool.not_eq_true _ ▸ hnot, h₂⟩))).1
        rw [drawnCells_of_allBlank fun cell hcell => h₁ cell (.tail _ hcell)] at hrest
        rw [drawnCells_cons h₂, if_pos hb, nil_append]
        exact hrest
    · by_cases h₂ : AllBlank (b :: r₂)
      · have ha : isSpacer a = true := by
          by_contra hnot
          exact not_drawn_of_allBlank h₂ 0
            (hhead (.inl (drawn_zero.mpr ⟨Bool.not_eq_true _ ▸ hnot, h₁⟩))).2.1
        rw [drawnCells_of_allBlank fun cell hcell => h₂ cell (.tail _ hcell)] at hrest
        rw [drawnCells_of_allBlank h₂, drawnCells_cons h₁, if_pos ha, nil_append]
        exact hrest
      · rw [drawnCells_cons h₁, drawnCells_cons h₂, ← isSpacer_congr hglyph]
        cases ha : isSpacer a with
        | true => simpa using hrest
        | false =>
          have hlook := (hhead (.inl (drawn_zero.mpr ⟨ha, h₁⟩))).2.2
          simpa using ⟨⟨hglyph, hlook⟩, hrest⟩

/-! ### What runs say -/

abbrev Style := Option CellColor × Option CellColor × UInt8

def cellStyle (cell : Cell) : Style :=
  (convertColor cell.fg, convertColor cell.bg, attrBits cell.flags)

def styledText (cell : Cell) : List (Char × Style) :=
  (cellText cell).map fun c => (c, cellStyle cell)

def runText (run : StyledRun) : List (Char × Style) :=
  run.text.map fun c => (c, run.fg, run.bg, run.attrs)

theorem runText_pushCell (runs : List StyledRun) (cell : Cell) :
    (pushCell runs cell).flatMap runText = runs.flatMap runText ++ styledText cell := by
  rw [pushCell]
  cases hlast : runs.getLast? with
  | none =>
    rw [getLast?_eq_none_iff.mp hlast]
    simp [runText, styledText, cellStyle]
  | some run =>
    have hruns : runs = runs.dropLast ++ [run] := (dropLast_append_getLast? run hlast).symm
    simp only
    split_ifs with hsame
    · rw [flatMap_append]
      conv_rhs => rw [hruns, flatMap_append]
      simp [runText, styledText, cellStyle, hsame]
    · rw [flatMap_append]
      simp [runText, styledText, cellStyle]

/-- Runs have the characters of the cells that are drawn. -/
theorem runText_runsOfCells (cells : List Cell) :
    (runsOfCells cells).flatMap runText = (drawnCells cells).flatMap styledText := by
  have hfold : ∀ (xs : List Cell) (runs : List StyledRun),
      (xs.foldl pushCell runs).flatMap runText = runs.flatMap runText ++ xs.flatMap styledText := by
    intro xs
    induction xs with
    | nil => intro runs; simp
    | cons x xs ih =>
      intro runs
      rw [foldl_cons, ih, runText_pushCell, append_assoc, flatMap_cons]
  exact hfold (drawnCells cells) []

/-- A row as a terminal stores it: the characters of cells have a width, and those attached to them
have none. -/
structure Stored (width : Char → ℕ) (cells : List Cell) : Prop where
  base : ∀ cell ∈ cells, 0 < width (displayChar cell.c)
  attached : ∀ cell ∈ cells, ∀ z ∈ cell.zerowidth.getD [], width z = 0

theorem Stored.tail (h : Stored width (a :: cells)) : Stored width cells :=
  ⟨fun cell hcell => h.base cell (.tail _ hcell), fun cell hcell => h.attached cell (.tail _ hcell)⟩

theorem mem_of_mem_drawnCells {cell : Cell} (h : cell ∈ drawnCells cells) : cell ∈ cells :=
  mem_reverse.mp ((dropWhile_suffix _).subset (mem_reverse.mp (mem_filter.mp h).1))

/-- What is attached to a cell ends where the next cell begins. -/
theorem append_inj_of_width {xs : List (Char × Style)} (hxs : ∀ x ∈ xs, width x.1 = 0)
    (hys : ∀ y ∈ ys, width y.1 = 0) (h₁ : Stored width r₁) (h₂ : Stored width r₂)
    (h : xs ++ (drawnCells r₁).flatMap styledText = ys ++ (drawnCells r₂).flatMap styledText) :
    xs = ys ∧ (drawnCells r₁).flatMap styledText = (drawnCells r₂).flatMap styledText := by
  have hstop : ∀ {r : List Cell}, Stored width r →
      ((drawnCells r).flatMap styledText).takeWhile (fun x => decide (width x.1 = 0)) = [] := by
    intro r hr
    cases hd : drawnCells r with
    | nil => rfl
    | cons cell cells =>
      have hpos := hr.base cell (mem_of_mem_drawnCells (by rw [hd]; exact mem_cons_self))
      have hne : ¬width (displayChar cell.c) = 0 := by omega
      simp [styledText, cellText, hne]
  have htake := congrArg (takeWhile fun x => decide (width x.1 = 0)) h
  rw [takeWhile_append_of_pos (by simpa using hxs),
    takeWhile_append_of_pos (by simpa using hys), hstop h₁, hstop h₂, append_nil,
    append_nil] at htake
  subst htake
  exact ⟨rfl, append_cancel_left h⟩

theorem drawnCells_eq_nil_of_styledText (h : (drawnCells cells).flatMap styledText = []) :
    drawnCells cells = [] := by
  cases hd : drawnCells cells with
  | nil => rfl
  | cons cell rest =>
    rw [hd] at h
    simp [styledText, cellText] at h

/-- Rows that are drawn the same hide nothing. -/
theorem noHiddenChange_of_styledText (h₁ : Stored width r₁) (h₂ : Stored width r₂)
    (hglyphs : Forall₂ SameGlyph r₁ r₂)
    (h : (drawnCells r₁).flatMap styledText = (drawnCells r₂).flatMap styledText) :
    NoHiddenChange r₁ r₂ := by
  have hnone : ∀ {r₁ r₂ : List Cell}, drawnCells r₁ = [] → drawnCells r₂ = [] →
      NoHiddenChange r₁ r₂ := fun hd₁ hd₂ i _ _ _ _ hdrawn =>
    hdrawn.elim (fun hd => absurd hd (not_drawn_of_drawnCells hd₁ i))
      fun hd => absurd hd (not_drawn_of_drawnCells hd₂ i)
  induction hglyphs with
  | nil => exact hnone rfl rfl
  | @cons a b r₁ r₂ hglyph _ ih =>
    by_cases hb₁ : AllBlank (a :: r₁)
    · have hd₁ := drawnCells_of_allBlank hb₁
      rw [hd₁] at h
      exact hnone hd₁ (drawnCells_eq_nil_of_styledText h.symm)
    by_cases hb₂ : AllBlank (b :: r₂)
    · have hd₂ := drawnCells_of_allBlank hb₂
      rw [hd₂] at h
      exact hnone (drawnCells_eq_nil_of_styledText h) hd₂
    rw [drawnCells_cons hb₁, drawnCells_cons hb₂, ← isSpacer_congr hglyph] at h
    refine noHiddenChange_cons.mpr ?_
    cases ha : isSpacer a with
    | true =>
      -- a spacer is not drawn
      simp only [ha, if_true, nil_append] at h
      refine ⟨fun hdrawn => ?_, ih h₁.tail h₂.tail h⟩
      rw [drawn_zero, drawn_zero, ← isSpacer_congr hglyph, ha] at hdrawn
      simp at hdrawn
    | false =>
      simp only [ha, Bool.false_eq_true, if_false, flatMap_cons,
        styledText, cellText, map_cons, cons_append, cons.injEq] at h
      obtain ⟨hfirst, hrest⟩ := h
      have hstyle : cellStyle a = cellStyle b := (Prod.mk.inj hfirst).2
      obtain ⟨hzero, htail⟩ := append_inj_of_width (by
          intro x hx
          obtain ⟨z, hz, rfl⟩ := mem_map.mp hx
          exact h₁.attached a mem_cons_self z hz)
        (by
          intro x hx
          obtain ⟨z, hz, rfl⟩ := mem_map.mp hx
          exact h₂.attached b mem_cons_self z hz) h₁.tail h₂.tail hrest
      have hchars := congrArg (map Prod.fst) hzero
      rw [map_map, map_map] at hchars
      have hlook : SameLook a b :=
        ⟨by simpa [Function.comp_def] using hchars, (Prod.mk.inj hstyle).1,
          (Prod.mk.inj (Prod.mk.inj hstyle).2).1⟩
      refine ⟨fun _ => ⟨drawn_zero.mpr ⟨ha, hb₁⟩, drawn_zero.mpr ⟨?_, hb₂⟩, hlook⟩,
        ih h₁.tail h₂.tail htail⟩
      rw [← isSpacer_congr hglyph, ha]

/-- **Rows with the same values are drawn the same if nothing is hidden from the hash**, and rows
as a terminal stores them only then. -/
theorem runsOfCells_eq_iff {T : Type} [Terminal T] (r₁ r₂ : List Cell)
    (hbits : Set.InjOn (flagBits T) {flags | ∃ cell ∈ r₁ ++ r₂, cell.flags = flags})
    (hvalues : hashValues T r₁ = hashValues T r₂) :
    (NoHiddenChange r₁ r₂ → runsOfCells r₁ = runsOfCells r₂) ∧
      ∀ width : Char → ℕ, Stored width r₁ → Stored width r₂ →
        (runsOfCells r₁ = runsOfCells r₂ ↔ NoHiddenChange r₁ r₂) := by
  have hglyphs := sameGlyph_of_hashValues hbits hvalues
  have hdrawn : NoHiddenChange r₁ r₂ → runsOfCells r₁ = runsOfCells r₂ := by
    intro h
    rw [runsOfCells_eq, runsOfCells_eq]
    exact foldl_pushCell_congr (forall₂_drawnCells hglyphs h) []
  refine ⟨hdrawn, fun width h₁ h₂ => ⟨fun h => ?_, hdrawn⟩⟩
  refine noHiddenChange_of_styledText h₁ h₂ hglyphs ?_
  rw [← runText_runsOfCells, h, runText_runsOfCells]

/-! ### Rows that are taken for one another -/

/-- A cell of the default colours, and the same in palette colour 0, as `ESC [ 38;5;0 m` has it. -/
def defaultCell : Cell := PlainTerm.plainCell 'x'

def indexedCell : Cell := { defaultCell with fg := .indexed 0 }

def accentedCell : Cell := { defaultCell with extra := some { zerowidth := ['\u0301'], rest := 0 } }

theorem runsOfCells_eq_iff_indexedCell :
    runsOfCells [defaultCell] = runsOfCells [indexedCell]
      ↔ NoHiddenChange [defaultCell] [indexedCell] := by
  refine (@runsOfCells_eq_iff PlainTerm _ _ _ ?_ (by decide +kernel)).2
    (fun c => if c = '\u0301' then 0 else 1) ⟨by decide, forall_mem_singleton.mpr nofun⟩
    ⟨by decide +kernel, forall_mem_singleton.mpr nofun⟩
  · rintro flags ⟨cell, hcell, rfl⟩ flags' ⟨cell', hcell', rfl⟩ -
    simp only [singleton_append, mem_cons, not_mem_nil, or_false] at hcell hcell'
    rcases hcell with rfl | rfl <;> rcases hcell' with rfl | rfl <;> rfl

/-- A colour and an accent that the hash does not see. -/
theorem not_hash_sound :
    (hashValues PlainTerm [defaultCell] = hashValues PlainTerm [indexedCell] ∧
        runsOfCells [defaultCell] ≠ runsOfCells [indexedCell]) ∧
      hashValues PlainTerm [defaultCell] = hashValues PlainTerm [accentedCell] ∧
        runsOfCells [defaultCell] ≠ runsOfCells [accentedCell] := by
  decide +kernel

end Bud.Emulator
