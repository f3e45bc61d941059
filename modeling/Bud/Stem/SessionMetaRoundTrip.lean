import Bud.Stem.SessionMeta

/-!
# Reading the metadata back

The reader takes the first place where a key stands between quotes. The writer escapes every quote
inside a value, so what is inside cannot look like a key, with one exception: the quotes around the
value itself, and an escaped quote before its end. A value that is a key, or ends in a quote and a
key (`Hides`), puts the key before the place where the writer has it, if that is further on; and
what follows there is a comma.

`renderFields` is the writer's text as a list of fields, and `lookup` what the search finds in it.
-/

namespace Bud.Registry

open Occurrences RustText List Option

/-! ### Quoted values -/

def isWordChar (c : Char) : Bool := (97 ≤ c.toNat && c.toNat ≤ 122) || c == '_'

def Word (key : List Char) : Prop := ∀ c ∈ key, isWordChar c = true

/-- The quoted value has the quoted key at its end. -/
def Hides (key v : List Char) : Prop := '"' :: key <:+ '"' :: v

instance (key : List Char) : Decidable (Word key) :=
  List.decidableBAll _ key

instance (key v : List Char) : Decidable (Hides key v) :=
  inferInstanceAs (Decidable ('"' :: key <:+ '"' :: v))

variable {c : Char} {key v rest raw : List Char}

theorem ne_of_isWordChar (hc : isWordChar c = true) (hd : isWordChar d = false) : c ≠ d := by
  rintro rfl
  rw [hc] at hd
  exact Bool.noConfusion hd

theorem escapeChar_of_isWordChar (h : isWordChar c = true) : escapeChar c = [c] := by
  have hge : ¬ c.toNat < 0x20 := by
    rw [isWordChar, Bool.or_eq_true, Bool.and_eq_true, decide_eq_true_eq, beq_iff_eq] at h
    rcases h with h | rfl
    · omega
    · decide
  rw [escapeChar, if_neg (ne_of_isWordChar h rfl), if_neg (ne_of_isWordChar h rfl),
    if_neg (ne_of_isWordChar h rfl), if_neg (ne_of_isWordChar h rfl),
    if_neg (ne_of_isWordChar h rfl), if_neg hge]

theorem quote_notMem_hex4 : ∀ n < 0x20, '"' ∉ hex4 n := by decide

theorem quote_notMem_escapeChar (h : c ≠ '"') : '"' ∉ escapeChar c := by
  rw [escapeChar, if_neg h]
  split
  · decide
  split
  · decide
  split
  · decide
  split
  · decide
  split
  · next hlt =>
    rw [List.mem_cons, List.mem_cons]
    rintro (h | h | h)
    · simp at h
    · simp at h
    · exact quote_notMem_hex4 _ hlt h
  · rw [List.mem_singleton]
    exact h.symm

/-- What a character is written as does not begin with a quote, and begins as a key does only if it
is that character. -/
theorem escapeChar_head (c : Char) :
    ∃ d e, escapeChar c = d :: e ∧ d ≠ '"' ∧ (isWordChar d = true → d = c ∧ e = []) := by
  rw [escapeChar]
  split
  · exact ⟨'\\', ['"'], rfl, by decide, fun h => absurd h (by decide)⟩
  · next hquote =>
    split
    · exact ⟨'\\', ['\\'], rfl, by decide, fun h => absurd h (by decide)⟩
    split
    · exact ⟨'\\', ['n'], rfl, by decide, fun h => absurd h (by decide)⟩
    split
    · exact ⟨'\\', ['r'], rfl, by decide, fun h => absurd h (by decide)⟩
    split
    · exact ⟨'\\', ['t'], rfl, by decide, fun h => absurd h (by decide)⟩
    split
    · exact ⟨'\\', 'u' :: hex4 c.toNat, rfl, by decide, fun h => absurd h (by decide)⟩
    · exact ⟨c, [], rfl, hquote, fun _ => ⟨rfl, rfl⟩⟩

theorem escape_word (hkey : Word key) : key.flatMap escapeChar = key := by
  induction key with
  | nil => rfl
  | cons k key ih =>
    rw [List.flatMap_cons, escapeChar_of_isWordChar (hkey k List.mem_cons_self),
      ih fun c hc => hkey c (List.mem_cons_of_mem k hc)]
    rfl

/-- A key closed by a quote begins a value's text only if it is the value. -/
theorem prefix_escaped_iff (hkey : Word key) :
    key ++ ['"'] <+: v.flatMap escapeChar ++ '"' :: rest ↔ v = key := by
  induction key generalizing v with
  | nil =>
    cases v with
    | nil => simp
    | cons c v =>
      obtain ⟨d, e, hd, hquote, -⟩ := escapeChar_head c
      simp [hd, hquote.symm]
  | cons k key ih =>
    have hk : isWordChar k = true := hkey k List.mem_cons_self
    cases v with
    | nil => simp [List.cons_prefix_cons, ne_of_isWordChar hk (d := '"') rfl]
    | cons c v =>
      rw [flatMap_cons, cons_eq_cons]
      constructor
      · intro h
        obtain ⟨d, e, hd, -, hplain⟩ := escapeChar_head c
        rw [hd, cons_append, cons_append, cons_append, cons_prefix_cons] at h
        obtain ⟨rfl, rfl⟩ := hplain (h.1 ▸ hk)
        exact ⟨h.1.symm, (ih fun c hc => hkey c (mem_cons_of_mem k hc)).mp h.2⟩
      · rintro ⟨rfl, rfl⟩
        rw [escapeChar_of_isWordChar hk, escape_word fun d hd => hkey d (mem_cons_of_mem c hd)]
        simp

theorem clear_needle {a : List Char} (h : '"' ∉ a) (key b : List Char) :
    Clear (needle key) a b :=
  clear_of_notMem h b

theorem afterFirst_skip (h : x ≠ '"') :
    afterFirst (needle key) (x :: rest) = afterFirst (needle key) rest :=
  afterFirst_append (a := [x]) (clear_needle (by simpa using h.symm) key rest)

/-- The search at a quote inside a value, or before it. -/
theorem afterFirst_quote (hkey : Word key) :
    afterFirst (needle key) ('"' :: (v.flatMap escapeChar ++ '"' :: rest)) =
      if v = key then some rest
      else afterFirst (needle key) (v.flatMap escapeChar ++ '"' :: rest) := by
  split
  · next hv =>
    subst hv
    rw [escape_word hkey]
    have hself := afterFirst_self (c := '"') (v ++ ['"']) rest
    rwa [List.cons_append, List.append_assoc] at hself
  · next hv =>
    have hnot : ¬ needle key <+: '"' :: (v.flatMap escapeChar ++ '"' :: rest) := by
      rw [needle, List.cons_prefix_cons, prefix_escaped_iff hkey]
      exact fun h => hv h.2
    rw [afterFirst, if_neg hnot]

/-- The search behind the opening quote of a value. -/
theorem afterFirst_body (hkey : Word key) (hx : isWordChar x = false) (hquote : x ≠ '"') :
    afterFirst (needle key) (v.flatMap escapeChar ++ '"' :: x :: rest) =
      if '"' :: key <:+ v then some (x :: rest) else afterFirst (needle key) (x :: rest) := by
  induction v with
  | nil =>
    have hclosed : ¬ needle key <+: '"' :: x :: rest := by
      rw [needle, List.cons_prefix_cons]
      rintro ⟨-, h⟩
      cases key with
      | nil => exact hquote (List.cons_prefix_cons.mp h).1.symm
      | cons k key =>
        exact ne_of_isWordChar (hkey k List.mem_cons_self) hx (List.cons_prefix_cons.mp h).1
    rw [List.flatMap_nil, List.nil_append, afterFirst, if_neg hclosed, if_neg (by simp)]
  | cons c v ih =>
    rw [List.flatMap_cons, List.append_assoc, if_congr List.suffix_cons_iff rfl rfl]
    by_cases hc : c = '"'
    · subst hc
      show afterFirst (needle key) ('\\' :: '"' :: (v.flatMap escapeChar ++ '"' :: x :: rest)) = _
      rw [afterFirst_skip (by decide), afterFirst_quote hkey, ih, ite_or]
      exact if_congr (by simp [eq_comm]) rfl rfl
    · rw [afterFirst_append (clear_needle (quote_notMem_escapeChar hc) key _), ih]
      exact if_congr (by simp [Ne.symm hc]) rfl rfl

/-- **The search in a quoted value** finds the key at its end or not at all. -/
theorem afterFirst_jsonString (hkey : Word key) (hx : isWordChar x = false) (hquote : x ≠ '"') :
    afterFirst (needle key) (jsonString v ++ x :: rest) =
      if Hides key v then some (x :: rest) else afterFirst (needle key) (x :: rest) := by
  show _ = if '"' :: key <:+ '"' :: v then _ else _
  rw [jsonString, List.cons_append, List.append_assoc, List.singleton_append,
    afterFirst_quote hkey, afterFirst_body hkey hx hquote,
    if_congr List.suffix_cons_iff rfl rfl, ite_or]
  exact if_congr (by simp [eq_comm]) rfl rfl

/-! ### The writer's text, field by field -/

inductive Value where
  | number (n : ℤ)
  | text (s : List Char)

def renderValue : Value → List Char
  | .number n => showInt n
  | .text s => jsonString s

/-- The fields, each behind `lead` or a comma, and the end of the object. -/
def renderFields (lead : Char) : List (List Char × Value) → List Char
  | [] => ['}', '\n']
  | (key, value) :: fs =>
    lead :: (jsonString key ++ ':' :: (renderValue value ++ renderFields ',' fs))

/-- What the search finds: the field, or the end of a value that hides the key before it. -/
def lookup (key : List Char) : List (List Char × Value) → Option (List Char)
  | [] => none
  | (k, value) :: fs =>
    if key = k then some (':' :: (renderValue value ++ renderFields ',' fs))
    else
      match value with
      | .number _ => lookup key fs
      | .text s => if Hides key s then some (renderFields ',' fs) else lookup key fs

/-- What comes after a value ends it. -/
theorem exists_renderFields_eq (fs : List (List Char × Value)) :
    ∃ x rest, renderFields ',' fs = x :: rest ∧ isWordChar x = false ∧ x ≠ '"' ∧
      (x.isDigit || x == '-') = false := by
  cases fs with
  | nil => exact ⟨'}', ['\n'], rfl, by decide, by decide, by decide⟩
  | cons f fs => exact ⟨',', _, rfl, by decide, by decide, by decide⟩

theorem hides_word_iff (hk : Word k) : Hides key k ↔ key = k := by
  show '"' :: key <:+ '"' :: k ↔ _
  rw [suffix_cons_iff, cons_eq_cons]
  constructor
  · rintro (⟨-, h⟩ | h)
    · exact h
    · have hquote := hk '"' (h.mem List.mem_cons_self)
      exact absurd hquote (by decide)
  · exact fun h => Or.inl ⟨rfl, h⟩

theorem quote_notMem_showInt (n : ℤ) : '"' ∉ showInt n := by
  intro h
  rcases mem_showInt h with h | h <;> simp at h

/-- **The search in the writer's text** finds the field, unless a value before it hides the
key. -/
theorem afterFirst_renderFields (hkey : Word key) :
    ∀ {fs : List (List Char × Value)} {lead : Char}, (∀ f ∈ fs, Word f.1) → lead ≠ '"' →
      afterFirst (needle key) (renderFields lead fs) = lookup key fs := by
  intro fs
  induction fs with
  | nil =>
    intro lead _ _
    have := afterFirst_append (clear_needle (a := ['}', '\n']) (by decide) key [])
    rwa [List.append_nil] at this
  | cons f fs ih =>
    obtain ⟨k, value⟩ := f
    intro lead hfs hlead
    have hrest : afterFirst (needle key) (renderFields ',' fs) = lookup key fs :=
      ih (fun f hf => hfs f (List.mem_cons_of_mem _ hf)) (by decide)
    rw [renderFields, afterFirst_skip hlead, afterFirst_jsonString hkey (by decide) (by decide),
      if_congr (hides_word_iff (hfs (k, value) List.mem_cons_self)) rfl rfl, lookup.eq_def]
    dsimp only
    congr 1
    rw [afterFirst_skip (by decide)]
    cases value with
    | number n =>
      exact (afterFirst_append (clear_needle (quote_notMem_showInt n) key _)).trans hrest
    | text s =>
      obtain ⟨x, rest, hx, hword, hquote, -⟩ := exists_renderFields_eq fs
      show afterFirst (needle key) (jsonString s ++ renderFields ',' fs) = if _ then _ else _
      rw [← hrest, hx]
      exact afterFirst_jsonString hkey hword hquote

/-! ### Reading a value -/

theorem parseHex_hex4 : ∀ n < 0x20, (parseHex (hex4 n)).bind charFromU32 = some (Char.ofNat n) := by
  decide

theorem readString_plain (hquote : c ≠ '"') (hslash : c ≠ '\\') (tail : List Char) :
    readString (c :: tail) = (readString tail).map (c :: ·) := by
  rw [readString.eq_def]
  exact (if_neg hquote).trans (if_neg hslash)

theorem readString_hex4 (h : n < 0x20) (tail : List Char) :
    readString ('\\' :: 'u' :: (hex4 n ++ tail)) = (readString tail).map (Char.ofNat n :: ·) := by
  have hhex := parseHex_hex4 n h
  rw [hex4] at hhex ⊢
  rw [readString.eq_def]
  simp [hhex]

/-- What a character is written as is read as that character. -/
theorem readString_escapeChar (c : Char) (tail : List Char) :
    readString (escapeChar c ++ tail) = (readString tail).map (c :: ·) := by
  have hescape (e : Char) (hu : e ≠ 'u') :
      readString ('\\' :: e :: tail) = (readString tail).map
        ((if e = 'n' then '\n' else if e = 'r' then '\r' else if e = 't' then '\t' else e)
          :: ·) := by
    rw [readString.eq_def]
    simp only [Char.reduceEq, if_false, if_true, hu]
    split
    · rfl
    split
    · rfl
    split <;> rfl
  rw [escapeChar]
  split
  · next h =>
    subst h
    exact hescape '"' (by decide)
  · next hquote =>
    split
    · next h =>
      subst h
      exact hescape '\\' (by decide)
    · next hslash =>
      split
      · next h =>
        subst h
        exact hescape 'n' (by decide)
      split
      · next h =>
        subst h
        exact hescape 'r' (by decide)
      split
      · next h =>
        subst h
        exact hescape 't' (by decide)
      split
      · next hlt =>
        have hhex := readString_hex4 hlt tail
        rwa [Char.ofNat_toNat] at hhex
      · exact readString_plain hquote hslash tail

/-- **The reader undoes the escapes** and stops at the closing quote. -/
theorem readString_escaped (s rest : List Char) :
    readString (s.flatMap escapeChar ++ '"' :: rest) = some s := by
  induction s with
  | nil =>
    rw [flatMap_nil, nil_append, readString.eq_def]
    exact if_pos rfl
  | cons c s ih =>
    rw [flatMap_cons, append_assoc, readString_escapeChar, ih]
    rfl

theorem trimStart_cons (h : isWhitespace c = false) (s : List Char) :
    trimStart (c :: s) = c :: s := by
  rw [trimStart, dropWhile_cons, h]
  rfl

theorem afterKey_of_found (hc : isWhitespace c = false)
    (h : afterFirst (needle key) raw = some (':' :: c :: rest)) :
    afterKey raw key = some (c :: rest) := by
  rw [afterKey, h]
  show (stripPrefix [':'] (trimStart (':' :: c :: rest))).bind
    (fun rest => some (trimStart rest)) = _
  rw [trimStart_cons (by decide)]
  show some (trimStart (c :: rest)) = _
  rw [trimStart_cons hc]

theorem afterKey_of_hidden {fs : List (List Char × Value)}
    (h : afterFirst (needle key) raw = some (renderFields ',' fs)) : afterKey raw key = none := by
  rw [afterKey, h]
  cases fs with
  | nil | cons f fs => rfl

theorem isWhitespace_of_mem_showInt {n : ℤ} (h : c ∈ showInt n) : isWhitespace c = false := by
  rcases mem_showInt h with h | rfl
  · have := Char.isDigit_iff_toNat.mp h
    simp at this
    simp [isWhitespace]
    omega
  · decide

theorem takeWhile_showInt (n : ℤ) (fs : List (List Char × Value)) :
    (showInt n ++ renderFields ',' fs).takeWhile (fun c => c.isDigit || c == '-') = showInt n := by
  obtain ⟨x, rest, hx, -, -, hend⟩ := exists_renderFields_eq fs
  rw [hx, takeWhile_append_of_pos, takeWhile_cons, hend]
  · simp
  · intro c hc
    rcases mem_showInt hc with h | rfl
    · rw [h, Bool.true_or]
    · rfl

theorem jsonNumber_of_found {fs : List (List Char × Value)}
    (h : afterFirst (needle key) raw = some (':' :: (showInt n ++ renderFields ',' fs))) :
    jsonNumber raw key = if -2 ^ 63 ≤ n ∧ n < 2 ^ 63 then some n else none := by
  obtain ⟨c, cs, hcs⟩ := exists_cons_of_ne_nil (showInt_ne_nil n)
  have hspace : isWhitespace c = false := isWhitespace_of_mem_showInt (n := n) (by simp [hcs])
  have hnumber := takeWhile_showInt n fs
  rw [hcs, cons_append] at h hnumber
  rw [jsonNumber, afterKey_of_found hspace h, bind_eq_bind, bind_some, hnumber, ← hcs,
    parseI64_showInt]

theorem jsonStringAt_of_found
    (h : afterFirst (needle key) raw = some (':' :: (jsonString s ++ rest))) :
    jsonStringAt raw key = some s := by
  rw [jsonString, cons_append, append_assoc] at h
  rw [jsonStringAt, afterKey_of_found (by decide) h]
  exact readString_escaped s rest

section Fields

variable {key : List Char} {fs rest : List (List Char × Value)}

theorem jsonNumber_renderFields {n : ℤ} (hkey : Word key) (hfs : ∀ f ∈ fs, Word f.1)
    (h : lookup key fs = some (':' :: (showInt n ++ renderFields ',' rest))) :
    jsonNumber (renderFields '{' fs) key = if -2 ^ 63 ≤ n ∧ n < 2 ^ 63 then some n else none :=
  jsonNumber_of_found ((afterFirst_renderFields hkey hfs (by decide)).trans h)

theorem jsonNumber_renderFields_hidden (hkey : Word key) (hfs : ∀ f ∈ fs, Word f.1)
    (h : lookup key fs = some (renderFields ',' rest)) :
    jsonNumber (renderFields '{' fs) key = none := by
  rw [jsonNumber, afterKey_of_hidden ((afterFirst_renderFields hkey hfs (by decide)).trans h)]
  rfl

theorem jsonStringAt_renderFields (hkey : Word key) (hfs : ∀ f ∈ fs, Word f.1)
    (h : lookup key fs = some (':' :: (jsonString s ++ renderFields ',' rest))) :
    jsonStringAt (renderFields '{' fs) key = some s :=
  jsonStringAt_of_found ((afterFirst_renderFields hkey hfs (by decide)).trans h)

end Fields

/-! ### The round trip -/

section RoundTrip

variable (pid : Int32) (startedAtUnix : UInt64) (holderVersion : List Char)
  (ipcProtoVersion : UInt16) (shell cwd : List Char) (childPid : Int32)

/-- The fields in the writer's order. -/
def fields : List (List Char × Value) :=
  [ ("pid".toList, .number pid.toInt),
    ("started_at_unix".toList, .number startedAtUnix.toNat),
    ("holder_version".toList, .text holderVersion),
    ("ipc_proto_version".toList, .number ipcProtoVersion.toNat),
    ("shell".toList, .text shell),
    ("cwd".toList, .text cwd),
    ("child_pid".toList, .number childPid.toInt) ]

theorem renderMetaJson_eq :
    renderMetaJson pid startedAtUnix holderVersion ipcProtoVersion shell cwd childPid =
      renderFields '{'
        (fields pid startedAtUnix holderVersion ipcProtoVersion shell cwd childPid) := by
  simp [renderMetaJson, fields, renderFields, renderValue, jsonString, escapeChar]

theorem word_fields :
    ∀ f ∈ fields pid startedAtUnix holderVersion ipcProtoVersion shell cwd childPid, Word f.1 := by
  simp only [fields, forall_mem_cons]
  decide +kernel

theorem jsonNumber_childPid :
    jsonNumber (renderFields '{'
        (fields pid startedAtUnix holderVersion ipcProtoVersion shell cwd childPid))
      "child_pid".toList =
      if Hides "child_pid".toList holderVersion ∨ Hides "child_pid".toList shell ∨
          Hides "child_pid".toList cwd then none
      else some childPid.toInt := by
  have hwords := word_fields pid startedAtUnix holderVersion ipcProtoVersion shell cwd childPid
  have hword : Word "child_pid".toList := hwords (_, .number childPid.toInt) (mem_of_getLast? rfl)
  have hle := childPid.le_toInt
  have hlt := childPid.toInt_lt
  by_cases hversion : Hides "child_pid".toList holderVersion
  · rw [if_pos (Or.inl hversion)]
    exact jsonNumber_renderFields_hidden hword hwords (if_pos hversion)
  by_cases hshell : Hides "child_pid".toList shell
  · rw [if_pos (Or.inr (Or.inl hshell))]
    exact jsonNumber_renderFields_hidden hword hwords
      ((if_neg hversion).trans (if_pos hshell))
  by_cases hcwd : Hides "child_pid".toList cwd
  · rw [if_pos (Or.inr (Or.inr hcwd))]
    exact jsonNumber_renderFields_hidden hword hwords
      ((if_neg hversion).trans ((if_neg hshell).trans (if_pos hcwd)))
  · have hfound : lookup "child_pid".toList
        (fields pid startedAtUnix holderVersion ipcProtoVersion shell cwd childPid) =
          some (':' :: (showInt childPid.toInt ++ renderFields ',' [])) :=
      (if_neg hversion).trans ((if_neg hshell).trans (if_neg hcwd))
    rw [if_neg (not_or.mpr ⟨hversion, not_or.mpr ⟨hshell, hcwd⟩⟩),
      jsonNumber_renderFields hword hwords hfound, if_pos (by omega)]

theorem jsonNumber_ipcProtoVersion :
    jsonNumber (renderFields '{'
        (fields pid startedAtUnix holderVersion ipcProtoVersion shell cwd childPid))
      "ipc_proto_version".toList =
      if Hides "ipc_proto_version".toList holderVersion then none
      else some (ipcProtoVersion.toNat : ℤ) := by
  have hwords := word_fields pid startedAtUnix holderVersion ipcProtoVersion shell cwd childPid
  have hword := hwords _ (.tail _ (.tail _ (.tail _ (.head _))))
  have hlt := ipcProtoVersion.toNat_lt
  split
  · next hversion =>
    exact jsonNumber_renderFields_hidden hword hwords (if_pos hversion)
  · next hversion =>
    have hfound : lookup "ipc_proto_version".toList
        (fields pid startedAtUnix holderVersion ipcProtoVersion shell cwd childPid) =
          some (':' :: (showInt ipcProtoVersion.toNat ++ renderFields ','
            [("shell".toList, .text shell), ("cwd".toList, .text cwd),
              ("child_pid".toList, .number childPid.toInt)])) :=
      if_neg hversion
    rw [jsonNumber_renderFields hword hwords hfound, if_pos (by omega)]

theorem jsonNumber_pid :
    jsonNumber (renderFields '{'
        (fields pid startedAtUnix holderVersion ipcProtoVersion shell cwd childPid))
      "pid".toList = some pid.toInt := by
  have hwords := word_fields pid startedAtUnix holderVersion ipcProtoVersion shell cwd childPid
  have hle := pid.le_toInt
  have hlt := pid.toInt_lt
  rw [jsonNumber_renderFields (hwords _ (.head _)) hwords rfl, if_pos (by omega)]

theorem jsonNumber_startedAtUnix :
    jsonNumber (renderFields '{'
        (fields pid startedAtUnix holderVersion ipcProtoVersion shell cwd childPid))
      "started_at_unix".toList =
      if startedAtUnix.toNat < 2 ^ 63 then some (startedAtUnix.toNat : ℤ) else none := by
  have hwords := word_fields pid startedAtUnix holderVersion ipcProtoVersion shell cwd childPid
  rw [jsonNumber_renderFields (n := startedAtUnix.toNat) (hwords _ (.tail _ (.head _))) hwords rfl]
  exact if_congr (by omega) rfl rfl

theorem jsonStringAt_holderVersion :
    jsonStringAt (renderFields '{'
        (fields pid startedAtUnix holderVersion ipcProtoVersion shell cwd childPid))
      "holder_version".toList = some holderVersion :=
  have hwords := word_fields pid startedAtUnix holderVersion ipcProtoVersion shell cwd childPid
  jsonStringAt_renderFields (hwords _ (.tail _ (.tail _ (.head _)))) hwords rfl

@[simp] theorem ofInt_natCast_toNat (n : UInt64) : UInt64.ofInt (n.toNat : ℤ) = n := by
  have hlt := n.toNat_lt
  rw [UInt64.ofInt, Int.emod_eq_of_lt (by omega) (by omega), Int.toNat_natCast, UInt64.ofNat_toNat]

@[simp] theorem ofInt_natCast_toNat' (n : UInt16) : UInt16.ofInt (n.toNat : ℤ) = n := by
  have hlt := n.toNat_lt
  rw [UInt16.ofInt, Int.emod_eq_of_lt (by omega) (by omega), Int.toNat_natCast, UInt16.ofNat_toNat]

/-- **The metadata come back** exactly when no value hides the key of a number behind it, and the
start time is one that the reader's number type holds. -/
theorem parseMetaJson_renderMetaJson_iff :
    parseMetaJson
        (renderMetaJson pid startedAtUnix holderVersion ipcProtoVersion shell cwd childPid) =
      some
        { holderPid := pid
          childPid := childPid
          startedAtUnix := startedAtUnix
          holderVersion := holderVersion
          ipcProtoVersion := ipcProtoVersion } ↔
      startedAtUnix.toNat < 2 ^ 63 ∧ ¬ Hides "ipc_proto_version".toList holderVersion ∧
        ¬ (Hides "child_pid".toList holderVersion ∨ Hides "child_pid".toList shell ∨
          Hides "child_pid".toList cwd) := by
  rw [renderMetaJson_eq, parseMetaJson, jsonNumber_pid, jsonNumber_childPid,
    jsonNumber_startedAtUnix, jsonStringAt_holderVersion, jsonNumber_ipcProtoVersion]
  split
  · next hchild =>
    refine iff_of_false (fun h => ?_) (fun h => h.2.2 hchild)
    exact some_ne_none _ (Eq.symm h)
  split
  · next hchild hstarted =>
    split
    · next hversion =>
      refine iff_of_false (fun h => ?_) (fun h => h.2.1 hversion)
      exact some_ne_none _ (Eq.symm h)
    · next hversion =>
      refine iff_of_true ?_ ⟨hstarted, hversion, hchild⟩
      simp only [bind_eq_bind, bind_some, Int32.ofInt_toInt, ofInt_natCast_toNat,
        ofInt_natCast_toNat']
      rfl
  · next hstarted =>
    refine iff_of_false (fun h => ?_) (fun h => hstarted h.1)
    exact some_ne_none _ (Eq.symm h)

end RoundTrip

/-- A directory named like the last key, behind a quote, hides it. -/
theorem meta_not_recovered :
    parseMetaJson (renderMetaJson 10 1700000000 "0.1.0".toList 3 "/bin/sh".toList
      "/tmp/\"child_pid".toList 11) = none := by
  decide +kernel

end Bud.Registry
