import Mathlib.Data.Finmap

/-!
# The browser's recovery hints

`Recovery` of `browser/recovery.rs`, for a store that has a profile, and so a path. `File` is what
stands there. A call of `save`, `save_batch` or `forget` may have one step of `persist` fail; the
rename is atomic. Where the directory's sync fails the file is the new one already, while memory
goes back.

`Serde` is `serde_json` at `Manifest`, of which only the round trip within the size bound is used,
and `Url::parse`; a `BTreeMap` is a finite map. Reading a file does not fail by itself.
-/

namespace Bud.RecoveryHints

open List

def MAX_BYTES : ℕ := 256 * 1024

structure Pages where
  urls : List String
  selected : ℕ
  deriving DecidableEq

abbrev Workspaces := Finmap fun _ : String => Pages

structure Manifest where
  version : ℕ
  workspaces : Workspaces
  deriving DecidableEq

/-- What `storable` asks of an address. -/
structure Url where
  scheme : String
  username : String
  password : Option String

structure Serde where
  to_vec : Manifest → List UInt8
  from_slice : List UInt8 → Option Manifest
  parse : String → Option Url
  from_slice_to_vec : ∀ m, (to_vec m).length ≤ MAX_BYTES → from_slice (to_vec m) = some m

inductive Error
  | browser_recovery_unavailable
  | browser_invalid_workspace
  | browser_recovery_limit
  | io

/-- What stands at `bud-pages.json`: `other` is a link, no regular file, or not readable. -/
inductive File
  | missing
  | other
  | regular (mode : ℕ) (bytes : List UInt8)
  deriving DecidableEq

/-- The steps of `persist`, in order. -/
inductive FsStep
  | new_in
  | write_all
  | sync_file
  | rename
  | open_directory
  | sync_directory

/-- What becomes of the move of an old checkpoint to its backup: `failed` leaves it in place. -/
inductive Migration
  | done
  | failed
  | unsynced
  deriving DecidableEq

structure Recovery where
  manifest : Manifest
  writable : Bool
  deriving DecidableEq

structure State where
  store : Recovery
  file : File
  deriving DecidableEq

variable (serde : Serde)

/-! ### Definitions -/

def storable (url : String) : Bool :=
  url.utf8ByteSize ≤ 8192 && (serde.parse url).any fun u =>
    (u.scheme = "http" || u.scheme = "https") && u.username = "" && u.password.isNone

def valid_pages (p : Pages) : Bool :=
  !p.urls.isEmpty && p.urls.length ≤ 16 && p.selected < p.urls.length &&
    p.urls.all fun u => u = "" || storable serde u

/-- An entry that `read` takes. -/
def validEntry (e : Sigma fun _ : String => Pages) : Prop :=
  e.1 ≠ "" ∧ e.1.utf8ByteSize ≤ 128 ∧ valid_pages serde e.2 = true

instance : DecidablePred (validEntry serde) := fun _ => inferInstanceAs (Decidable (_ ∧ _))

def read : File → Except Error (Option Manifest)
  | .missing => .ok none
  | .other => .error .browser_recovery_unavailable
  | .regular mode bytes =>
    if MAX_BYTES < bytes.length ∨ mode &&& 0o077 ≠ 0 then .error .browser_recovery_unavailable
    else match serde.from_slice bytes with
    | none => .error .browser_recovery_unavailable
    | some m =>
      if (m.version = 1 ∨ m.version = 2) ∧ ∀ e ∈ m.workspaces.entries, validEntry serde e then
        .ok (some m)
      else .error .browser_recovery_unavailable

def load (migration : Migration) (file : File) : State :=
  let store : Recovery := ⟨⟨2, ∅⟩, true⟩
  match read serde file with
  | .ok (some m) =>
    if m.version = 1 then
      ⟨{ store with writable := migration = .done },
        if migration = .failed then file else .missing⟩
    else ⟨{ store with manifest := m }, file⟩
  | .ok none => ⟨store, file⟩
  | .error _ => ⟨{ store with writable := false }, file⟩

/-- The changes of a batch, all of them checked before any is kept. -/
def change : List (String × Option Pages) → Workspaces → Except Error Workspaces
  | [], next => .ok next
  | (workspace, pages) :: changes, next =>
    if workspace = "" ∨ 128 < workspace.utf8ByteSize then .error .browser_invalid_workspace
    else match pages with
    | none => change changes (next.erase workspace)
    | some p =>
      if valid_pages serde p then change changes (next.insert workspace p)
      else .error .browser_recovery_unavailable

/-- The file afterwards, and whether `persist` returns an error. -/
def persist (fault : Option FsStep) (m : Manifest) (file : File) : Except Error Unit × File :=
  let bytes := serde.to_vec m
  if MAX_BYTES < bytes.length then (.error .browser_recovery_limit, file)
  else match fault with
  | none => (.ok (), .regular 0o600 bytes)
  | some .open_directory | some .sync_directory => (.error .io, .regular 0o600 bytes)
  | some _ => (.error .io, file)

def save_batch (fault : Option FsStep) (changes : List (String × Option Pages)) (s : State) :
    Except Error Unit × State :=
  if s.store.writable then
    match change serde changes s.store.manifest.workspaces with
    | .error e => (.error e, s)
    | .ok next =>
      if next = s.store.manifest.workspaces then (.ok (), s)
      else
        let m := { s.store.manifest with workspaces := next }
        match persist serde fault m s.file with
        | (.ok _, file) => (.ok (), ⟨{ s.store with manifest := m }, file⟩)
        | (.error e, file) => (.error e, { s with file := file })
  else (.error .browser_recovery_unavailable, s)

def save (fault : Option FsStep) (workspace : String) (pages : Option Pages) (s : State) :
    Except Error Unit × State :=
  save_batch serde fault [(workspace, pages)] s

def forget (fault : Option FsStep) (workspace : String) (s : State) : Except Error Unit × State :=
  if s.store.writable then save serde fault workspace none s else (.ok (), s)

inductive Call
  | save (workspace : String) (pages : Option Pages) (fault : Option FsStep)
  | save_batch (changes : List (String × Option Pages)) (fault : Option FsStep)
  | forget (workspace : String) (fault : Option FsStep)
  | reload (migration : Migration)

def call (s : State) : Call → Except Error Unit × State
  | .save workspace pages fault => save serde fault workspace pages s
  | .save_batch changes fault => save_batch serde fault changes s
  | .forget workspace fault => forget serde fault workspace s
  | .reload migration => (.ok (), load serde migration s.file)

def Writes (s : State) (changes : List (String × Option Pages)) : Prop :=
  ∃ next, change serde changes s.store.manifest.workspaces = .ok next ∧
    next ≠ s.store.manifest.workspaces ∧
    (serde.to_vec { s.store.manifest with workspaces := next }).length ≤ MAX_BYTES

def Synced (fault : Option FsStep) : Prop :=
  fault ≠ some .open_directory ∧ fault ≠ some .sync_directory

/-- No step fails after a rename. -/
def Call.Clean (s : State) : Call → Prop
  | .save workspace pages fault => Writes serde s [(workspace, pages)] → Synced fault
  | .save_batch changes fault => Writes serde s changes → Synced fault
  | .forget workspace fault => Writes serde s [(workspace, none)] → Synced fault
  | .reload _ => True

def run : List Call → State → State
  | [], s => s
  | c :: calls, s => run calls (call serde s c).2

def CleanRun : List Call → State → Prop
  | [], _ => True
  | c :: calls, s => c.Clean serde s ∧ CleanRun calls (call serde s c).2

/-- What memory holds is what `load` reads back. -/
def Agrees (s : State) : Prop :=
  ∀ migration, (load serde migration s.file).store.manifest.workspaces =
    s.store.manifest.workspaces

/-- A call leaves memory and file in agreement, changes neither where it fails, and writes only
what `read` takes. -/
def AllOrNothing (s : State) (r : Except Error Unit × State) : Prop :=
  Agrees serde r.2 ∧ (∀ e, r.1 = .error e → r.2 = s) ∧
    (r.2.file = s.file ∨ ∃ m, read serde r.2.file = .ok (some m))

/-! ### The invariant -/

structure Inv (s : State) : Prop where
  writable : s.store.writable = true
  version : s.store.manifest.version = 2
  valid : ∀ e ∈ s.store.manifest.workspaces.entries, validEntry serde e
  file : read serde s.file = .ok (some s.store.manifest) ∨
    read serde s.file = .ok none ∧ s.store.manifest.workspaces = ∅

variable {serde}

theorem Inv.load_eq (h : Inv serde s) (migration : Migration) :
    load serde migration s.file = s := by
  obtain ⟨⟨⟨version, workspaces⟩, writable⟩, file⟩ := s
  obtain ⟨rfl, rfl, _, hfile | ⟨hfile, rfl⟩⟩ := h
  · rw [load, hfile]
    rfl
  · rw [load, hfile]

theorem Inv.agrees (h : Inv serde s) : Agrees serde s := fun migration => by rw [h.load_eq]

theorem read_some (h : read serde file = .ok (some m)) :
    (m.version = 1 ∨ m.version = 2) ∧ ∀ e ∈ m.workspaces.entries, validEntry serde e := by
  unfold read at h
  split at h
  · cases h
  · cases h
  · split_ifs at h
    split at h
    · cases h
    · split_ifs at h with hm
      obtain rfl : _ = m := Option.some.inj (Except.ok.inj h)
      exact hm

theorem read_to_vec {m : Manifest} (hlen : ¬MAX_BYTES < (serde.to_vec m).length)
    (hversion : m.version = 2) (hvalid : ∀ e ∈ m.workspaces.entries, validEntry serde e) :
    read serde (.regular 0o600 (serde.to_vec m)) = .ok (some m) := by
  have hguard : ¬(MAX_BYTES < (serde.to_vec m).length ∨ 0o600 &&& 0o077 ≠ 0) :=
    not_or.mpr ⟨hlen, by decide⟩
  rw [read, if_neg hguard, serde.from_slice_to_vec m (not_lt.mp hlen)]
  exact if_pos ⟨.inr hversion, hvalid⟩

theorem no_entries : ∀ e ∈ (∅ : Workspaces).entries, validEntry serde e :=
  fun e he => absurd he (Multiset.notMem_zero e)

theorem inv_load (h : (load serde migration file).store.writable = true) :
    Inv serde (load serde migration file) := by
  unfold load at h ⊢
  cases hread : read serde file with
  | error e =>
    rw [hread] at h
    cases h
  | ok r =>
    rw [hread] at h
    cases r with
    | none => exact ⟨rfl, rfl, no_entries, .inr ⟨hread, rfl⟩⟩
    | some m =>
      by_cases hv : m.version = 1
      · simp only [if_pos hv, decide_eq_true_eq] at h ⊢
        subst h
        exact ⟨rfl, rfl, no_entries, .inr ⟨rfl, rfl⟩⟩
      · obtain ⟨hversion, hvalid⟩ := read_some hread
        simp only [if_neg hv]
        exact ⟨rfl, hversion.resolve_left hv, hvalid, .inl hread⟩

theorem change_valid : ∀ {changes : List (String × Option Pages)} {next next' : Workspaces},
    change serde changes next = .ok next' → (∀ e ∈ next.entries, validEntry serde e) →
      ∀ e ∈ next'.entries, validEntry serde e
  | [], next, next', h, hvalid => by cases h; exact hvalid
  | (workspace, pages) :: changes, next, next', h, hvalid => by
    unfold change at h
    split_ifs at h with hname
    split at h
    · refine change_valid h fun ⟨k, p⟩ he => hvalid _ (Finmap.mem_lookup_iff.mp ?_)
      have hk := Finmap.mem_lookup_iff.mpr he
      by_cases heq : k = workspace
      · subst heq
        rw [Finmap.lookup_erase] at hk
        cases hk
      · rwa [Finmap.lookup_erase_ne heq] at hk
    · split_ifs at h with hp
      refine change_valid h fun ⟨k, p⟩ he => ?_
      have hk := Finmap.mem_lookup_iff.mpr he
      by_cases heq : k = workspace
      · subst heq
        rw [Finmap.lookup_insert] at hk
        cases hk
        exact ⟨fun h => hname (.inl h), not_lt.mp fun h => hname (.inr h), hp⟩
      · rw [Finmap.lookup_insert_of_ne _ heq] at hk
        exact hvalid _ (Finmap.mem_lookup_iff.mp hk)

/-- `persist`, where the directory syncs: the new file, or an error and the old one. -/
theorem persist_cases (serde : Serde) (m : Manifest) (file : File)
    (hfault : (serde.to_vec m).length ≤ MAX_BYTES → Synced fault) :
    persist serde fault m file = (.ok (), .regular 0o600 (serde.to_vec m)) ∧
        ¬MAX_BYTES < (serde.to_vec m).length ∨
      ∃ e, persist serde fault m file = (.error e, file) := by
  by_cases hlen : MAX_BYTES < (serde.to_vec m).length
  · exact .inr ⟨_, if_pos hlen⟩
  · obtain ⟨hopen, hsync⟩ := hfault (not_lt.mp hlen)
    simp only [persist, if_neg hlen]
    split
    · exact .inl ⟨rfl, hlen⟩
    · exact absurd rfl hopen
    · exact absurd rfl hsync
    · exact .inr ⟨_, rfl⟩

theorem allOrNothing_self (h : Inv serde s) (r : Except Error Unit) :
    Inv serde s ∧ AllOrNothing serde s (r, s) :=
  ⟨h, h.agrees, fun _ _ => rfl, .inl rfl⟩

theorem save_batch_allOrNothing (h : Inv serde s) (changes : List (String × Option Pages))
    (hfault : Writes serde s changes → Synced fault) :
    Inv serde (save_batch serde fault changes s).2 ∧
      AllOrNothing serde s (save_batch serde fault changes s) := by
  rw [save_batch, if_pos h.writable]
  cases hnext : change serde changes s.store.manifest.workspaces with
  | error e => exact allOrNothing_self h _
  | ok next =>
    dsimp only
    split_ifs with hne
    · exact allOrNothing_self h _
    · have hvalid := change_valid hnext h.valid
      rcases persist_cases serde { s.store.manifest with workspaces := next } s.file
        fun hlen => hfault ⟨next, hnext, hne, hlen⟩ with ⟨hp, hlen⟩ | ⟨e, hp⟩
      · rw [hp]
        have hread := read_to_vec hlen h.version hvalid
        have hinv : Inv serde ⟨⟨{ s.store.manifest with workspaces := next }, s.store.writable⟩,
            .regular 0o600 (serde.to_vec { s.store.manifest with workspaces := next })⟩ :=
          ⟨h.writable, h.version, hvalid, .inl hread⟩
        exact ⟨hinv, hinv.agrees, fun _ => nofun, .inr ⟨_, hread⟩⟩
      · rw [hp]
        exact allOrNothing_self h _

theorem call_allOrNothing (h : Inv serde s) (c : Call) (hc : c.Clean serde s) :
    Inv serde (call serde s c).2 ∧ AllOrNothing serde s (call serde s c) := by
  cases c with
  | save workspace pages fault => exact save_batch_allOrNothing h _ hc
  | save_batch changes fault => exact save_batch_allOrNothing h changes hc
  | forget workspace fault =>
    rw [call, forget, if_pos h.writable]
    exact save_batch_allOrNothing h _ hc
  | reload migration =>
    rw [call, h.load_eq]
    exact allOrNothing_self h _

theorem inv_run : ∀ {calls : List Call} {s : State}, Inv serde s → CleanRun serde calls s →
    Inv serde (run serde calls s)
  | [], _, h, _ => h
  | c :: calls, s, h, hc => by
    rw [run]
    exact inv_run (call_allOrNothing h c hc.1).1 hc.2

/-- In any run of calls on a writable store in which no step fails after a rename. -/
theorem all_or_nothing (serde : Serde) (migration : Migration) (file : File) (calls : List Call)
    (c : Call) (hw : (load serde migration file).store.writable = true)
    (hcalls : CleanRun serde calls (load serde migration file))
    (hc : c.Clean serde (run serde calls (load serde migration file))) :
    AllOrNothing serde (run serde calls (load serde migration file))
      (call serde (run serde calls (load serde migration file)) c) :=
  (call_allOrNothing (inv_run (inv_load hw) hcalls) c hc).2

/-! ### One workspace -/

def hint : Pages := ⟨["http://a/"], 0⟩

def stored : Manifest := ⟨2, Finmap.singleton "a" hint⟩

def bytes (text : String) : List UInt8 := text.toList.map fun c => UInt8.ofNat c.toNat

def storedJson : List UInt8 :=
  bytes "\x7b\"version\":2,\"workspaces\":" ++
    bytes "\x7b\"a\":\x7b\"urls\":[\"http://a/\"],\"selected\":0\x7d\x7d\x7d"

def emptied : Manifest := ⟨2, ∅⟩

def emptiedJson : List UInt8 := bytes "\x7b\"version\":2,\"workspaces\":\x7b\x7d\x7d"

/-- The two libraries at this workspace. -/
def sample : Serde where
  to_vec m :=
    if m = stored then storedJson
    else if m = emptied then emptiedJson
    else replicate (MAX_BYTES + 1) 0
  from_slice bytes :=
    if bytes = storedJson then some stored
    else if bytes = emptiedJson then some emptied
    else none
  parse url := if url = "http://a/" then some ⟨"http", "", none⟩ else none
  from_slice_to_vec m hlen := by
    by_cases hstored : m = stored
    · rw [hstored, if_pos rfl, if_pos rfl]
    · rw [if_neg hstored] at hlen ⊢
      by_cases hemptied : m = emptied
      · rw [hemptied, if_pos rfl, if_neg (by decide), if_pos rfl]
      · rw [if_neg hemptied, length_replicate] at hlen
        omega

/-- A workspace is saved, and the rename of its removal fails. -/
theorem all_or_nothing_renaming :
    let s := run sample [.save "a" (some hint) none] (load sample .done .missing)
    (call sample s (.forget "a" (some .rename))).1 = .error .io ∧
      AllOrNothing sample s (call sample s (.forget "a" (some .rename))) :=
  ⟨rfl, all_or_nothing sample .done .missing [.save "a" (some hint) none]
    (.forget "a" (some .rename)) rfl ⟨fun _ => ⟨nofun, nofun⟩, trivial⟩
      fun _ => ⟨nofun, nofun⟩⟩

/-- The first save puts the new file in place, then fails to sync: memory forgets the workspace. -/
theorem unsynced_save_diverges :
    let s := load sample .done .missing
    ¬AllOrNothing sample s (call sample s (.save "a" (some hint) (some .sync_directory))) :=
  fun h => absurd (h.2.1 .io rfl) (by decide)

end Bud.RecoveryHints
