import Bud.Lib.JsValue

/-!
# Reading server-sent events

`readSseData` of the provider `ds4.ts`. Each chunk is decoded and appended to what is left of the
last line, and the lines that it completes are processed. What is left is never split again, so
it makes no difference where the chunks are cut: not even a carriage return at the end of one is
taken for the end of a line before the next has come.

## Modelling notes

The decoder is a parameter; `Incremental` is what the reader relies on.
-/

namespace Bud.SseReader

open List JsText JsValue

/-! ### The reader -/

/-- A `TextDecoder`; `flush` is the last call, without a chunk. -/
structure TextDecoder where
  State : Type
  init : State
  decode : State → List UInt8 → Text × State
  flush : State → Text

/-- `split(/\r?\n/)`: the lines that end, and what is left. -/
def split : Text → List Text × Text
  | [] => ([], [])
  | 13 :: 10 :: rest => ([] :: (split rest).1, (split rest).2)
  | 10 :: rest => ([] :: (split rest).1, (split rest).2)
  | u :: rest =>
    match split rest with
    | ([], left) => ([], u :: left)
    | (line :: lines, left) => ((u :: line) :: lines, left)

def trimStart (s : Text) : Text := s.dropWhile isSpace

def dataOf (line : Text) : Option Text :=
  if lit "data:" <+: line then some (trimStart (line.drop 5)) else none

def joinLines (dataLines : List Text) : Text := [10].intercalate dataLines

/-- `processLine`: what it yields, and the lines of data that are left. -/
def processLine (dataLines : List Text) (line : Text) : List Text × List Text :=
  if line = [] then
    if dataLines ≠ [] then ([joinLines dataLines], []) else ([], dataLines)
  else
    match dataOf line with
    | some data => ([], dataLines ++ [data])
    | none => ([], dataLines)

def processLines (dataLines : List Text) : List Text → List Text × List Text
  | [] => ([], dataLines)
  | line :: lines =>
    let (out, dataLines) := processLine dataLines line
    let (outs, dataLines) := processLines dataLines lines
    (out ++ outs, dataLines)

/-- The loop of `readSseData`, from a read on. -/
def readFrom (decoder : TextDecoder) (state : decoder.State) (buffer : Text)
    (dataLines : List Text) : List (List UInt8) → List Text
  | [] =>
    let buffer := buffer ++ decoder.flush state
    let (out, dataLines) :=
      if 0 < buffer.length then processLine dataLines buffer else ([], dataLines)
    out ++ (processLine dataLines []).1
  | value :: chunks =>
    let (text, state) := decoder.decode state value
    let (lines, buffer) := split (buffer ++ text)
    let (out, dataLines) := processLines dataLines lines
    out ++ readFrom decoder state buffer dataLines chunks

def readSseData (decoder : TextDecoder) (chunks : List (List UInt8)) : List Text :=
  readFrom decoder decoder.init [] [] chunks

/-! ### What is read -/

def TextDecoder.textFrom (decoder : TextDecoder) (state : decoder.State) :
    List (List UInt8) → Text
  | [] => decoder.flush state
  | value :: chunks =>
    (decoder.decode state value).1 ++ decoder.textFrom (decoder.decode state value).2 chunks

def TextDecoder.text (decoder : TextDecoder) (chunks : List (List UInt8)) : Text :=
  decoder.textFrom decoder.init chunks

/-- The decoder makes the same text of the same bytes, however they are cut, and no lines of an
incomplete character. -/
structure TextDecoder.Incremental (decoder : TextDecoder) : Prop where
  text : ∀ chunks, decoder.text chunks = decoder.text [chunks.flatten]
  flush : ∀ state, 10 ∉ decoder.flush state

/-- The data of each run of lines between empty ones. -/
def runs (lines : List Text) : List (List Text) :=
  (lines.splitOnP (·.isEmpty)).map (·.filterMap dataOf)

def payload (dataLines : List Text) : Option Text :=
  if dataLines = [] then none else some (joinLines dataLines)

def linesOf (text : Text) : List Text := (split text).1 ++ [(split text).2]

/-! ### Splitting -/

theorem split_left {text : Text} (h : (split text).1 = []) : (split text).2 = text := by
  fun_induction split text <;> simp_all

theorem split_append (a b : Text) :
    split (a ++ b) =
      ((split a).1 ++ (split ((split a).2 ++ b)).1, (split ((split a).2 ++ b)).2) := by
  fun_induction split a with
  | case1 => rfl
  | case2 rest ih | case3 rest ih => simp [split, ih]
  | case4 u rest hcrlf hlf left h ih =>
    obtain rfl : left = rest := by simpa [h] using split_left (congrArg Prod.fst h)
    rfl
  | case5 u rest hcrlf hlf line lines left h ih =>
    cases rest with
    | nil => cases h
    | cons v rest =>
      have hcrlf' : ∀ rest', u = 13 → v :: rest ++ b = 10 :: rest' → False := by
        intro rest' hu hv
        exact hcrlf rest hu (congrArg (· :: rest) (cons.inj hv).1)
      rw [cons_append, split.eq_4 _ _ hcrlf' hlf, ih, h]
      rfl

theorem not_mem_left (text : Text) : 10 ∉ (split text).2 := by
  fun_induction split text with
  | case1 => exact not_mem_nil
  | case2 rest ih | case3 rest ih => exact ih
  | case4 u rest hcrlf hlf left h ih =>
    rw [h] at ih
    exact not_mem_cons_of_ne_of_not_mem (fun hu => hlf hu.symm) ih
  | case5 u rest hcrlf hlf line lines left h ih =>
    rw [h] at ih
    exact ih

theorem split_of_not_mem {text : Text} (h : 10 ∉ text) : split text = ([], text) := by
  fun_induction split text <;> simp_all

/-! ### Processing -/

variable {decoder : TextDecoder} {dataLines : List Text}

/-- What the lines yield, and an empty one after them. -/
def flushed (dataLines : List Text) : List Text → List Text
  | [] => (processLine dataLines []).1
  | line :: lines => (processLine dataLines line).1 ++ flushed (processLine dataLines line).2 lines

theorem flushed_append (dataLines : List Text) (lines lines' : List Text) :
    flushed dataLines (lines ++ lines') =
      (processLines dataLines lines).1 ++ flushed (processLines dataLines lines).2 lines' := by
  induction lines generalizing dataLines with
  | nil => rfl
  | cons line lines ih => simp [flushed, processLines, ih]

theorem runs_cons (line : Text) (lines : List Text) :
    runs (line :: lines) =
      if line = [] then [] :: runs lines
      else (runs lines).modifyHead ((dataOf line).toList ++ ·) := by
  rw [runs, splitOnP_cons_eq_if_modifyHead]
  by_cases hline : line = []
  · simp [hline, runs]
  · rw [if_neg (by simpa using hline), if_neg hline]
    cases h : lines.splitOnP (·.isEmpty) with
    | nil => exact absurd h (splitOnP_ne_nil _ _)
    | cons run rest => cases hdata : dataOf line <;> simp [runs, h, hdata]

theorem modifyHead_nil_append (lines : List (List Text)) : lines.modifyHead ([] ++ ·) = lines := by
  cases lines <;> rfl

/-- The data that is left belongs to the first run. -/
theorem flushed_eq (dataLines lines : List Text) :
    flushed dataLines lines = ((runs lines).modifyHead (dataLines ++ ·)).filterMap payload := by
  induction lines generalizing dataLines with
  | nil => by_cases h : dataLines = [] <;> simp [flushed, runs, processLine, payload, h]
  | cons line lines ih =>
    rw [flushed, ih, runs_cons]
    by_cases hline : line = []
    · rw [if_pos hline, processLine, if_pos hline]
      split
      · next h =>
        have hpayload : payload dataLines = some (joinLines dataLines) := if_neg h
        rw [modifyHead_nil_append, modifyHead_cons, append_nil, filterMap_cons_some hpayload]
        rfl
      · next h =>
        obtain rfl := of_not_not h
        have hpayload : payload [] = none := if_pos rfl
        rw [modifyHead_nil_append, modifyHead_cons, append_nil, filterMap_cons_none hpayload]
        rfl
    · rw [if_neg hline, processLine, if_neg hline, modifyHead_modifyHead]
      cases hdata : dataOf line <;> simp [Function.comp_def]

/-! ### Reading -/

/-- The reader has only to be told the text. -/
theorem readFrom_eq (hflush : ∀ state, 10 ∉ decoder.flush state) (chunks : List (List UInt8))
    (state : decoder.State) {buffer : Text} (hbuffer : 10 ∉ buffer) :
    readFrom decoder state buffer dataLines chunks =
      flushed dataLines (linesOf (buffer ++ decoder.textFrom state chunks)) := by
  induction chunks generalizing state buffer dataLines with
  | nil =>
    have hleft : 10 ∉ buffer ++ decoder.flush state :=
      fun h => (mem_append.mp h).elim hbuffer (hflush state)
    rw [readFrom, TextDecoder.textFrom, linesOf, split_of_not_mem hleft]
    cases buffer ++ decoder.flush state with
    | nil => by_cases h : dataLines = [] <;> simp [flushed, processLine, h]
    | cons u left => simp [flushed]
  | cons value chunks ih =>
    rw [TextDecoder.textFrom, ← append_assoc, linesOf, split_append, append_assoc, flushed_append]
    exact congrArg (_ ++ ·) (ih _ (not_mem_left _))

/-- **Reading does not depend on the chunks.** Whatever chunks the bytes come in, what is read is
the payloads of the runs of lines of their text. -/
theorem readSseData_eq (h : decoder.Incremental) (chunks : List (List UInt8)) :
    readSseData decoder chunks =
      (runs (linesOf (decoder.text [chunks.flatten]))).filterMap payload := by
  rw [readSseData, readFrom_eq h.flush chunks _ not_mem_nil, nil_append, flushed_eq,
    modifyHead_nil_append, ← h.text chunks]
  rfl

/-- What a `TextDecoder` does to ASCII. -/
def asciiDecoder : TextDecoder where
  State := Unit
  init := ()
  decode _ bytes := (bytes.map UInt8.toUInt16, ())
  flush _ := []

theorem readSseData_cut :
    readSseData asciiDecoder
        [[100, 97, 116], [97, 58, 32, 65, 13], [10, 100, 97, 116, 97, 58, 66, 10, 13, 10, 58]] =
      [[65, 10, 66]] := by
  refine (readSseData_eq ⟨fun chunks => ?_, fun _ => not_mem_nil⟩ _).trans (by decide)
  have htext : ∀ chunks, asciiDecoder.text chunks = chunks.flatten.map UInt8.toUInt16 := by
    intro chunks
    induction chunks with
    | nil => rfl
    | cons value chunks ih =>
      rw [flatten_cons, map_append, ← ih]
      rfl
  rw [htext, htext, flatten_singleton]

end Bud.SseReader
