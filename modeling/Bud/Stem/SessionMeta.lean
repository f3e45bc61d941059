import Bud.Lib.Occurrences
import Bud.Lib.RustText

/-!
# `meta.json`

`holder.rs` writes the metadata of a session as one flat JSON object, and `registry.rs` reads it
back: not with a JSON parser, but by looking for each key between quotes in the raw text and
reading the value after its colon.
-/

namespace Bud.Registry

open Occurrences RustText

/-! ### The writer -/

def hexDigit (n : ℕ) : Char := if n < 10 then Char.ofNat (48 + n) else Char.ofNat (87 + n)

/-- `{:04x}`, of a number below `0x10000` -/
def hex4 (n : ℕ) : List Char :=
  [hexDigit (n / 4096), hexDigit (n / 256 % 16), hexDigit (n / 16 % 16), hexDigit (n % 16)]

def escapeChar (c : Char) : List Char :=
  if c = '"' then ['\\', '"']
  else if c = '\\' then ['\\', '\\']
  else if c = '\n' then ['\\', 'n']
  else if c = '\r' then ['\\', 'r']
  else if c = '\t' then ['\\', 't']
  else if c.toNat < 0x20 then '\\' :: 'u' :: hex4 c.toNat
  else [c]

/-- `json_string` of the writer. -/
def jsonString (s : List Char) : List Char := '"' :: (s.flatMap escapeChar ++ ['"'])

def renderMetaJson (pid : Int32) (startedAtUnix : UInt64) (holderVersion : List Char)
    (ipcProtoVersion : UInt16) (shell cwd : List Char) (childPid : Int32) : List Char :=
  '{' :: "\"pid\":".toList ++ showInt pid.toInt ++
    ",\"started_at_unix\":".toList ++ showInt startedAtUnix.toNat ++
    ",\"holder_version\":".toList ++ jsonString holderVersion ++
    ",\"ipc_proto_version\":".toList ++ showInt ipcProtoVersion.toNat ++
    ",\"shell\":".toList ++ jsonString shell ++
    ",\"cwd\":".toList ++ jsonString cwd ++
    ",\"child_pid\":".toList ++ showInt childPid.toInt ++ ['}', '\n']

/-! ### The reader -/

structure SessionMeta where
  holderPid : Int32
  childPid : Int32
  startedAtUnix : UInt64
  holderVersion : List Char
  ipcProtoVersion : UInt16
  deriving DecidableEq

/-- The key as it stands in the text. -/
def needle (key : List Char) : List Char := '"' :: (key ++ ['"'])

/-- Position just after `"key"` and its colon. -/
def afterKey (raw key : List Char) : Option (List Char) := do
  let rest ← afterFirst (needle key) raw
  let rest ← stripPrefix [':'] (trimStart rest)
  return trimStart rest

def jsonNumber (raw key : List Char) : Option ℤ := do
  let rest ← afterKey raw key
  parseI64 (rest.takeWhile fun c => c.isDigit || c == '-')

/-- The characters up to the closing quote, with the escapes undone. -/
def readString : List Char → Option (List Char)
  | [] => none
  | c :: cs =>
    if c = '"' then some []
    else if c = '\\' then
      match cs with
      | [] => none
      | e :: cs =>
        if e = 'n' then (readString cs).map ('\n' :: ·)
        else if e = 'r' then (readString cs).map ('\r' :: ·)
        else if e = 't' then (readString cs).map ('\t' :: ·)
        else if e = 'u' then
          match cs with
          | h₁ :: h₂ :: h₃ :: h₄ :: cs =>
            ((parseHex [h₁, h₂, h₃, h₄]).bind charFromU32).bind fun u =>
              (readString cs).map (u :: ·)
          -- the digits are the rest of the text, and no closing quote comes after them
          | _ => none
        else (readString cs).map (e :: ·)
    else (readString cs).map (c :: ·)

/-- `json_string` of the reader. -/
def jsonStringAt (raw key : List Char) : Option (List Char) := do
  let rest ← afterKey raw key
  let rest ← stripPrefix ['"'] rest
  readString rest

def parseMetaJson (raw : List Char) : Option SessionMeta := do
  let holderPid ← jsonNumber raw "pid".toList
  let childPid ← jsonNumber raw "child_pid".toList
  let startedAtUnix ← jsonNumber raw "started_at_unix".toList
  let holderVersion ← jsonStringAt raw "holder_version".toList
  let ipcProtoVersion ← jsonNumber raw "ipc_proto_version".toList
  return {
    holderPid := .ofInt holderPid
    childPid := .ofInt childPid
    startedAtUnix := .ofInt startedAtUnix
    holderVersion := holderVersion
    ipcProtoVersion := .ofInt ipcProtoVersion }

example : parseMetaJson (renderMetaJson 1234 1700000000 "0.1.0".toList 3 "/bin/\"odd\"\\zsh".toList
    "/home/user".toList 5678) = some {
      holderPid := 1234
      childPid := 5678
      startedAtUnix := 1700000000
      holderVersion := "0.1.0".toList
      ipcProtoVersion := 3 } := by decide +kernel

end Bud.Registry
