import Bud.Lib.Occurrences
import Bud.Lib.Utf8

/-!
# Pasted text

`keys.rs`: literal text for the PTY. With bracketed paste on, a multi-line text and one sent as an
explicit paste go verbatim between `ESC [ 200 ~` and `ESC [ 201 ~`; everything else is typed, with
its line ends turned into carriage returns.
-/

namespace Bud.Keys

open Occurrences

/-- `KeyModes`, as far as text depends on it. -/
structure KeyModes where
  /-- Application enabled bracketed paste (`?2004h`). -/
  bracketedPaste : Bool

/-- `ESC [ 200 ~` -/
def pasteStart : List UInt8 := [0x1B, 0x5B, 0x32, 0x30, 0x30, 0x7E]

/-- `ESC [ 201 ~` -/
def pasteEnd : List UInt8 := [0x1B, 0x5B, 0x32, 0x30, 0x31, 0x7E]

/-- `replace("\r\n", "\r")` -/
def replaceCrlf : List Char → List Char
  | '\r' :: '\n' :: s => '\r' :: replaceCrlf s
  | c :: s => c :: replaceCrlf s
  | [] => []

/-- `replace('\n', "\r")` -/
def replaceNewline (s : List Char) : List Char := s.map fun c => if c = '\n' then '\r' else c

def multiLine (text : List Char) : Bool := text.contains '\n' || text.contains '\r'

/-- Encode literal text for the PTY. -/
def encodePaste (text : List Char) (modes : KeyModes) (forcePaste : Bool) : List UInt8 :=
  if modes.bracketedPaste && (multiLine text || forcePaste) then
    pasteStart ++ Utf8.encode text ++ pasteEnd
  else
    Utf8.encode (replaceNewline (replaceCrlf text))

/-! ### Typed text -/

theorem replaceCrlf_of_notMem (h : '\n' ∉ s) : replaceCrlf s = s := by
  induction s using replaceCrlf.induct with
  | case1 s ih => simp at h
  | case2 c s hne ih =>
    rw [replaceCrlf, ih fun hs => h (List.mem_cons_of_mem c hs)]
    exact hne
  | case3 => rfl

theorem replaceNewline_of_notMem (h : '\n' ∉ s) : replaceNewline s = s := by
  rw [replaceNewline]
  conv_rhs => rw [← List.map_id s]
  refine List.map_congr_left fun c hc => if_neg ?_
  rintro rfl
  exact h hc

variable {text : List Char}

theorem typed_of_singleLine (h : multiLine text = false) :
    replaceNewline (replaceCrlf text) = text := by
  rw [multiLine, Bool.or_eq_false_iff, List.contains_eq_mem, decide_eq_false_iff_not] at h
  rw [replaceCrlf_of_notMem h.1, replaceNewline_of_notMem h.1]

/-! ### Bracketed text -/

theorem encodePaste_of_brackets (h : multiLine text = true ∨ forcePaste = true) :
    encodePaste text { bracketedPaste := true } forcePaste =
      pasteStart ++ Utf8.encode text ++ pasteEnd := by
  rw [encodePaste, if_pos]
  rw [Bool.true_and, Bool.or_eq_true]
  exact h

theorem pasteEnd_infix_start_append : pasteEnd <:+: pasteStart ++ bytes ↔ pasteEnd <:+: bytes := by
  -- the two brackets part at their fifth byte, and only their first is an escape
  simp [pasteStart, pasteEnd, List.infix_cons_iff, List.cons_prefix_cons]

/-- **The brackets contain the text** exactly when it does not have the closing one in it. -/
theorem onlyAtEnd_brackets_iff (h : multiLine text = true ∨ forcePaste = true) :
    OnlyAtEnd pasteEnd (encodePaste text { bracketedPaste := true } forcePaste) ↔
      ¬ pasteEnd <:+: Utf8.encode text := by
  rw [encodePaste_of_brackets h, ← pasteEnd_infix_start_append]
  exact onlyAtEnd_append_iff (by decide)

/-- **Text under bracketed paste.** A multi-line text and an explicit paste are sent between the
brackets, and the closing one is the last of the bytes and nowhere else in them if the text does
not have it; a single line that is not a paste is sent as it is. -/
theorem encodePaste_bracketed (text : List Char) (forcePaste : Bool) :
    (multiLine text = true ∨ forcePaste = true →
      encodePaste text { bracketedPaste := true } forcePaste =
        pasteStart ++ Utf8.encode text ++ pasteEnd ∧
      (¬ pasteEnd <:+: Utf8.encode text →
        OnlyAtEnd pasteEnd (encodePaste text { bracketedPaste := true } forcePaste))) ∧
    (multiLine text = false → forcePaste = false →
      encodePaste text { bracketedPaste := true } forcePaste = Utf8.encode text) := by
  refine ⟨fun h => ⟨encodePaste_of_brackets h, (onlyAtEnd_brackets_iff h).mpr⟩, ?_⟩
  intro hline hforce
  rw [encodePaste, hline, hforce, if_neg (by simp), typed_of_singleLine hline]

/-- **A paste is contained**, its end being the last of the bytes and nowhere else in them, exactly
when a text that goes between the brackets does not have the closing one in it. A single line that
is not a paste has no brackets: what is typed ends so only if the line itself does. -/
theorem onlyAtEnd_encodePaste_iff (text : List Char) (forcePaste : Bool) :
    OnlyAtEnd pasteEnd (encodePaste text { bracketedPaste := true } forcePaste) ↔
      if multiLine text || forcePaste then ¬ pasteEnd <:+: Utf8.encode text
      else OnlyAtEnd pasteEnd (Utf8.encode text) := by
  obtain ⟨-, htyped⟩ := encodePaste_bracketed text forcePaste
  split
  · next hbrackets => exact onlyAtEnd_brackets_iff (by rwa [Bool.or_eq_true] at hbrackets)
  · next hnone =>
    obtain ⟨hline, hforce⟩ := Bool.or_eq_false_iff.mp ((Bool.not_eq_true _).mp hnone)
    rw [htyped hline hforce]

/-- Two lines go between the brackets. -/
theorem onlyAtEnd_encodePaste_two_lines :
    OnlyAtEnd pasteEnd (encodePaste ['a', '\n', 'b'] { bracketedPaste := true } false) :=
  (onlyAtEnd_encodePaste_iff ['a', '\n', 'b'] false).mpr (by rw [if_pos (by decide)]; decide)

/-- A pasted text can close its own brackets, and a single line has none. -/
theorem paste_not_contained :
    ¬ OnlyAtEnd pasteEnd (encodePaste
        ['a', '\x1b', '[', '2', '0', '1', '~', '\r', 'i', 'd', '\r'] { bracketedPaste := true }
        true) ∧
      ¬ OnlyAtEnd pasteEnd (encodePaste ['h', 'i'] { bracketedPaste := true } false) := by
  constructor
  · rintro ⟨-, h⟩
    exact absurd (h 7 (by decide)) (by decide)
  · rintro ⟨h, -⟩
    exact absurd h (by decide)

end Bud.Keys
