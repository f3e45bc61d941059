import Mathlib.Data.List.Basic

/-!
# The escape-sequence parser

The scanner and the emulator each drive a `vte::Parser`. What the scanner uses of it is one call
per byte and the two callbacks it overrides, so the parser is a parameter: a state, and for each
byte the next state and the dispatch it triggered, if any. A byte ends at most one sequence.

`EscState` is the part of the parser that the sequences at hand exercise, and what concrete runs
are computed with.
-/

namespace Bud.Vte

/-- The callbacks of `vte::Perform` the scanner overrides. -/
inductive Dispatch where
  /-- `osc_dispatch`, with the parameters split at `;`. `bellTerminated` is `false` for `ESC \`
  (dispatched on the `ESC`) and for a sequence cancelled by `CAN` or `SUB`. -/
  | osc (params : List (List UInt8)) (bellTerminated : Bool)
  | csi (params : List (List ℕ)) (intermediates : List UInt8) (ignore : Bool) (action : Char)

class Parser (V : Type) where
  new : V
  advance : V → UInt8 → V × Option Dispatch

/-! ### A parser for OSC strings and private modes -/

inductive EscState where
  | ground
  | escape
  /-- Inside an OSC string: the parameters finished so far and the current one. -/
  | osc (done : List (List UInt8)) (current : List UInt8)
  /-- Inside a CSI sequence: intermediates, finished parameters, current parameter. -/
  | csi (intermediates : List UInt8) (done : List (List ℕ)) (current : ℕ)
  deriving DecidableEq

namespace EscState

def advance : EscState → UInt8 → EscState × Option Dispatch
  | .ground, b => (if b = 0x1b then .escape else .ground, none)
  | .escape, b =>
    (if b = 0x5d then .osc [] [] else if b = 0x5b then .csi [] [] 0
      else if b = 0x1b then .escape else .ground, none)
  | .osc done current, b =>
    if b = 0x07 then (.ground, some (.osc (done ++ [current]) true))
    else if b = 0x18 ∨ b = 0x1a then (.ground, some (.osc (done ++ [current]) false))
    else if b = 0x1b then (.escape, some (.osc (done ++ [current]) false))
    else if b = 0x3b then (.osc (done ++ [current]) [], none)
    else if b < 0x20 then (.osc done current, none)
    else (.osc done (current ++ [b]), none)
  | .csi intermediates done current, b =>
    if b = 0x1b then (.escape, none)
    else if 0x30 ≤ b ∧ b ≤ 0x39 then
      (.csi intermediates done (current * 10 + (b.toNat - 0x30)), none)
    else if b = 0x3b then (.csi intermediates (done ++ [[current]]) 0, none)
    else if 0x3c ≤ b ∧ b ≤ 0x3f then (.csi (intermediates ++ [b]) done current, none)
    else if 0x40 ≤ b ∧ b ≤ 0x7e then
      (.ground, some (.csi (done ++ [[current]]) intermediates false (Char.ofNat b.toNat)))
    else (.csi intermediates done current, none)

instance : Parser EscState where
  new := .ground
  advance := advance

end EscState

end Bud.Vte
