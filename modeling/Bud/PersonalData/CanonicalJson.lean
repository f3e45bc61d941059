import Mathlib.Data.List.Perm.Basic
import Mathlib.Data.List.Sort
import Mathlib.Data.Rat.Encodable
import Bud.Lib.Pointwise
import Bud.PersonalData.Batch

/-!
# The canonical text of JSON

The hash of an event is that of its canonical text, in which the keys of every object are sorted.
The text can be read in one way only: a string ends at its closing quote, a number before a
delimiter, and an array or an object at its closing bracket. So it determines the value, up to the
order of the keys.
-/

namespace Bud.PersonalData.Batch

open JsText List Option

/-- The values are equal up to the order of the keys of objects. -/
inductive Json.Same : Json → Json → Prop
  | null : Same .null .null
  | bool (b : Bool) : Same (.bool b) (.bool b)
  | num (n : Option ℚ) : Same (.num n) (.num n)
  | str (s : Str) : Same (.str s) (.str s)
  | arr {as bs : List Json} : Forall₂ Same as bs → Same (.arr as) (.arr bs)
  | obj {as cs bs : List (Str × Json)} : as.Perm cs → cs.map Prod.fst = bs.map Prod.fst →
      Forall₂ Same (cs.map Prod.snd) (bs.map Prod.snd) → Same (.obj as) (.obj bs)

/-- No object has a key twice, as no object of the language has. -/
inductive Json.Distinct : Json → Prop
  | null : Distinct .null
  | bool (b : Bool) : Distinct (.bool b)
  | num (n : Option ℚ) : Distinct (.num n)
  | str (s : Str) : Distinct (.str s)
  | arr {values : List Json} : (∀ v ∈ values, Distinct v) → Distinct (.arr values)
  | obj {fields : List (Str × Json)} : (fields.map Prod.fst).Nodup →
      (∀ field ∈ fields, Distinct field.2) → Distinct (.obj fields)

/-- What ends a value: a comma or a closing bracket. -/
def isDelimiter (u : UInt16) : Bool := u = 0x2c || u = 0x5d || u = 0x7d

/-- What a number is written with: digits, signs, a point and an exponent. -/
def isNumeric (u : UInt16) : Bool :=
  (0x30 ≤ u && u ≤ 0x39) || u = 0x2d || u = 0x2b || u = 0x2e || u = 0x65

/-- How `JSON.stringify` writes scalars. -/
structure Prints (rt : Runtime) : Prop where
  null : rt.stringify .null = lit "null"
  bool : ∀ b, rt.stringify (.bool b) = lit (if b then "true" else "false")
  str_head : ∀ s, (rt.stringify (.str s)).head? = some 0x22
  /-- A string ends at its closing quote. -/
  str : ∀ s t xs ys, rt.stringify (.str s) ++ xs = rt.stringify (.str t) ++ ys → s = t ∧ xs = ys
  num_ne : ∀ n, rt.stringify (.num (some n)) ≠ []
  num_units : ∀ n, ∀ u ∈ rt.stringify (.num (some n)), isNumeric u = true
  num : ∀ m n, rt.stringify (.num (some m)) = rt.stringify (.num (some n)) → m = n

def Ends (xs : Str) : Prop := xs.head?.all isDelimiter = true

variable {rt : Runtime} {α : Type} {R : α → α → Prop} {f : α → Option Str} {fuel : ℕ}

/-- Texts that can be read in one way only, if something ends them. -/
def Unambiguous (R : α → α → Prop) (f : α → Option Str) : Prop :=
  ∀ a b ta tb xs ys, f a = some ta → f b = some tb → Ends xs → Ends ys →
    ta ++ xs = tb ++ ys → R a b ∧ xs = ys

/-- No text is empty or begins with a delimiter. -/
def Starts (f : α → Option Str) : Prop :=
  ∀ a ta, f a = some ta → ∃ u rest, ta = u :: rest ∧ isDelimiter u = false

/-! ### Reading a text -/

def afterItem (close : UInt16) (ts : List Str) (xs : Str) : Str :=
  if ts = [] then close :: xs else 0x2c :: ((ts.intersperse (lit ",")).flatten ++ close :: xs)

theorem flatten_cons (close : UInt16) (t : Str) (ts : List Str) (xs : Str) :
    ((t :: ts).intersperse (lit ",")).flatten ++ close :: xs = t ++ afterItem close ts xs := by
  cases ts with
  | nil => simp [afterItem]
  | cons u us => simp [afterItem, show lit "," = [0x2c] from rfl]

theorem items_unambiguous (hf : Unambiguous R f) (hs : Starts f) (close : UInt16)
    (hclose : isDelimiter close = true) (hcomma : close ≠ 0x2c) {as bs : List α} {ts us : List Str}
    (hts : Forall₂ (fun a t => f a = some t) as ts) (hus : Forall₂ (fun b u => f b = some u) bs us)
    {xs ys : Str} (h : (ts.intersperse (lit ",")).flatten ++ close :: xs =
      (us.intersperse (lit ",")).flatten ++ close :: ys) : Forall₂ R as bs ∧ xs = ys := by
  have hends : ∀ ts xs, Ends (afterItem close ts xs) := fun ts xs => by
    rw [afterItem]
    split_ifs
    · exact hclose
    · rfl
  have hfirst : ∀ a t zs zs', f a = some t → close :: zs ≠ t ++ zs' := fun a t zs zs' ht heq => by
    obtain ⟨u, rest, rfl, hu⟩ := hs a t ht
    rw [(List.cons.inj heq).1, hu] at hclose
    cases hclose
  induction hts generalizing bs us with
  | nil =>
    cases hus with
    | nil => exact ⟨.nil, (List.cons.inj h).2⟩
    | cons hu => exact absurd (h.trans (flatten_cons ..)) (hfirst _ _ _ _ hu)
  | @cons a t as ts ha has ih =>
    cases hus with
    | nil => exact absurd (h.symm.trans (flatten_cons ..)) (hfirst _ _ _ _ ha)
    | @cons b u bs us hb hbs =>
      rw [flatten_cons, flatten_cons] at h
      obtain ⟨hab, hrest⟩ := hf a b t u _ _ ha hb (hends ts xs) (hends us ys) h
      rw [afterItem, afterItem] at hrest
      split_ifs at hrest with hnil hnil' hnil'
      · subst hnil hnil'
        cases has
        cases hbs
        exact ⟨.cons hab .nil, (List.cons.inj hrest).2⟩
      · exact absurd (List.cons.inj hrest).1 hcomma
      · exact absurd (List.cons.inj hrest).1.symm hcomma
      · exact (ih hbs (List.cons.inj hrest).2).imp_left (.cons hab)

/-- What a value's text begins with. -/
def Json.Lead : Json → UInt16 → Prop
  | .null, u => u = 0x6e
  | .bool b, u => u = if b then 0x74 else 0x66
  | .num _, u => isNumeric u = true
  | .str _, u => u = 0x22
  | .arr _, u => u = 0x5b
  | .obj _, u => u = 0x7b

/-- A field's text: the key, a colon and the value. -/
def fieldText (rt : Runtime) (fuel : ℕ) (field : Str × Json) : Option Str := do
  let key ← canonicalJson rt fuel (.str field.1)
  let text ← canonicalJson rt fuel field.2
  return key ++ lit ":" ++ text

variable {value : Json} {text : Str} {cs bs : List (Str × Json)}

theorem canonicalJson_eq_some : canonicalJson rt (fuel + 1) value = some text ↔
      match value with
      | .str s => validText s = true ∧ rt.stringify (.str s) = text
      | .num none => False
      | .arr values => ∃ texts, Forall₂ (fun v t => canonicalJson rt fuel v = some t) values texts ∧
        lit "[" ++ (texts.intersperse (lit ",")).flatten ++ lit "]" = text
      | .obj fields => ∃ texts, Forall₂ (fun v t => fieldText rt fuel v = some t)
          (fields.mergeSort fun a b => keyLe a.1 b.1) texts ∧
        lit "\x7b" ++ (texts.intersperse (lit ",")).flatten ++ lit "\x7d" = text
      | value => rt.stringify value = text := by
  cases value with
  | num n => cases n <;> simp [canonicalJson]
  | arr values =>
    simp only [canonicalJson, ← Pointwise.mapM_eq_some]
    simp [bind_eq_some_iff]
  | obj fields =>
    simp only [canonicalJson, ← Pointwise.mapM_eq_some]
    change (List.mapM (fieldText rt fuel) _ >>= _) = _ ↔ _
    simp [bind_eq_some_iff]
  | _ => simp [canonicalJson]

theorem canonicalJson_lead (h : Prints rt) (htext : canonicalJson rt fuel value = some text) :
    ∃ u rest, text = u :: rest ∧ value.Lead u := by
  cases fuel with
  | zero => cases htext
  | succ fuel =>
    rw [canonicalJson_eq_some] at htext
    cases value with
    | null => exact ⟨_, _, htext.symm.trans h.null, rfl⟩
    | bool b =>
      rw [← htext, h.bool]
      cases b <;> exact ⟨_, _, rfl, rfl⟩
    | num n =>
      cases n with
      | none => exact htext.elim
      | some n =>
        obtain ⟨u, rest, hcons⟩ := exists_cons_of_ne_nil (h.num_ne n)
        exact ⟨u, rest, htext ▸ hcons, h.num_units n u (hcons ▸ mem_cons_self)⟩
    | str s =>
      obtain ⟨rest, hcons⟩ := head?_eq_some_iff.mp (h.str_head s)
      exact ⟨0x22, rest, htext.2 ▸ hcons, rfl⟩
    | arr values | obj fields =>
      obtain ⟨texts, -, rfl⟩ := htext
      exact ⟨_, _, rfl, rfl⟩

theorem not_isDelimiter_of_isNumeric {u : UInt16} (hu : isNumeric u = true) :
    isDelimiter u = false := by
  refine Bool.eq_false_iff.mpr fun hd => ?_
  simp only [isDelimiter, Bool.or_eq_true, decide_eq_true_eq] at hd
  rcases hd with (rfl | rfl) | rfl <;> exact absurd hu (by decide)

theorem Json.Lead.not_isDelimiter {u : UInt16} (hu : value.Lead u) : isDelimiter u = false := by
  cases value with
  | num n => exact not_isDelimiter_of_isNumeric hu
  | bool b =>
    subst hu
    cases b <;> rfl
  | _ =>
    subst hu
    rfl

theorem canonicalJson_starts (h : Prints rt) : Starts (canonicalJson rt fuel) :=
  fun _ _ htext =>
    let ⟨u, rest, heq, hu⟩ := canonicalJson_lead h htext
    ⟨u, rest, heq, hu.not_isDelimiter⟩

/-- Which kind of value is read, by its first unit. -/
def leadIdx (u : UInt16) : ℕ :=
  if isNumeric u then 2
  else if u = 0x6e then 0
  else if u = 0x74 || u = 0x66 then 1
  else if u = 0x22 then 3
  else if u = 0x5b then 4
  else 5

theorem Json.Lead.ctorIdx_eq {u : UInt16} (hu : value.Lead u) : value.ctorIdx = leadIdx u := by
  cases value with
  | num n => exact (if_pos hu).symm
  | bool b =>
    subst hu
    cases b <;> rfl
  | _ =>
    subst hu
    rfl

/-- A number is read up to a delimiter. -/
theorem numeric_unambiguous {s t xs ys : Str} (hs : ∀ u ∈ s, isNumeric u = true)
    (ht : ∀ u ∈ t, isNumeric u = true) (hxs : Ends xs) (hys : Ends ys) (heq : s ++ xs = t ++ ys) :
    s = t ∧ xs = ys := by
  have hcut : ∀ s xs : Str, (∀ u ∈ s, isNumeric u = true) → Ends xs →
      (s ++ xs).takeWhile isNumeric = s := fun s xs hs hxs => by
    rw [takeWhile_append_of_pos hs]
    cases xs with
    | nil => simp
    | cons x xs =>
      have hx : ¬isNumeric x = true := fun hx =>
        Bool.false_ne_true ((not_isDelimiter_of_isNumeric hx).symm.trans hxs)
      rw [takeWhile_cons_of_neg hx, append_nil]
  have hst : s = t := by rw [← hcut s xs hs hxs, heq, hcut t ys ht hys]
  exact ⟨hst, append_cancel_left (hst ▸ heq)⟩

/-! ### The text determines the value -/

/-- The fields have one key, and values that are equal up to the order of keys. -/
def SameField (p q : Str × Json) : Prop := p.1 = q.1 ∧ p.2.Same q.2

theorem canonicalJson_str {s : Str} (h : canonicalJson rt fuel (.str s) = some text) :
    text = rt.stringify (.str s) := by
  cases fuel with
  | zero => cases h
  | succ fuel => exact (canonicalJson_eq_some.mp h).2.symm

theorem fieldText_eq_some {field : Str × Json} (h : fieldText rt fuel field = some text) :
    ∃ t, canonicalJson rt fuel field.2 = some t ∧
      text = rt.stringify (.str field.1) ++ 0x3a :: t := by
  simp only [fieldText, bind_eq_bind, bind_eq_some_iff] at h
  obtain ⟨key, hkey, t, ht, htext⟩ := h
  refine ⟨t, ht, ?_⟩
  rw [← some.inj htext, canonicalJson_str hkey]
  simp [show lit ":" = [0x3a] from rfl]

theorem fieldText_starts (h : Prints rt) : Starts (fieldText rt fuel) := fun field text htext => by
  obtain ⟨t, -, rfl⟩ := fieldText_eq_some htext
  obtain ⟨rest, hcons⟩ := head?_eq_some_iff.mp (h.str_head field.1)
  exact ⟨0x22, _, by rw [hcons, cons_append], rfl⟩

theorem fieldText_unambiguous (h : Prints rt)
    (hvalue : Unambiguous Json.Same (canonicalJson rt fuel)) :
    Unambiguous SameField (fieldText rt fuel) := by
  intro p q tp tq xs ys hp hq hxs hys heq
  obtain ⟨t, ht, rfl⟩ := fieldText_eq_some hp
  obtain ⟨u, hu, rfl⟩ := fieldText_eq_some hq
  rw [append_assoc, append_assoc] at heq
  obtain ⟨hkey, hrest⟩ := h.str _ _ _ _ heq
  obtain ⟨hsame, hends⟩ := hvalue _ _ _ _ xs ys ht hu hxs hys (cons.inj hrest).2
  exact ⟨⟨hkey, hsame⟩, hends⟩

/-- Lists whose sorted forms agree item by item agree up to their order. -/
theorem exists_perm_of_sorted {R : α → α → Prop} {as as' bs bs' : List α} (has : as'.Perm as)
    (hbs : bs'.Perm bs) (h : Forall₂ R as' bs') : ∃ cs, as.Perm cs ∧ Forall₂ R cs bs := by
  obtain ⟨cs, hcs, hperm⟩ := perm_comp_forall₂ hbs.symm h.flip
  exact ⟨cs, has.symm.trans hperm.symm, hcs.flip⟩

theorem Json.Same.of_fields {as : List (Str × Json)} (hperm : as.Perm cs)
    (h : Forall₂ SameField cs bs) : (Json.obj as).Same (.obj bs) := by
  refine .obj hperm (Pointwise.map_eq_map (fun p q hpq => hpq.1) h.flip) ?_
  rw [forall₂_map_left_iff, forall₂_map_right_iff]
  exact h.imp fun _ _ hpq => hpq.2

/-- The value, and what follows its text, are determined. -/
theorem canonicalJson_unambiguous (h : Prints rt) :
    Unambiguous Json.Same (canonicalJson rt fuel) := by
  induction fuel with
  | zero => exact fun a b ta tb xs ys ha => by cases ha
  | succ fuel ih =>
    intro a b ta tb xs ys ha hb hxs hys heq
    obtain ⟨u, ra, hra, hu⟩ := canonicalJson_lead h ha
    obtain ⟨v, rb, hrb, hv⟩ := canonicalJson_lead h hb
    have huv : u = v := by
      rw [hra, hrb] at heq
      exact (cons.inj heq).1
    have hkind : a.ctorIdx = b.ctorIdx := by rw [hu.ctorIdx_eq, hv.ctorIdx_eq, huv]
    rw [canonicalJson_eq_some] at ha hb
    cases a <;> cases b <;> cases hkind
    case null.null.refl =>
      rw [← ha, ← hb] at heq
      exact ⟨.null, append_cancel_left heq⟩
    case bool.bool.refl c d =>
      obtain rfl : c = d := by
        have hcd : (if c then (0x74 : UInt16) else 0x66) = if d then 0x74 else 0x66 :=
          hu.symm.trans (huv.trans hv)
        cases c <;> cases d <;> first | rfl | exact absurd hcd (by decide)
      rw [← ha, ← hb] at heq
      exact ⟨.bool c, append_cancel_left heq⟩
    case num.num.refl m n =>
      cases m with
      | none => exact ha.elim
      | some m =>
        cases n with
        | none => exact hb.elim
        | some n =>
          rw [← ha, ← hb] at heq
          obtain ⟨hmn, hrest⟩ := numeric_unambiguous (h.num_units _) (h.num_units _) hxs hys heq
          exact ⟨h.num m n hmn ▸ .num _, hrest⟩
    case str.str.refl s t =>
      rw [← ha.2, ← hb.2] at heq
      obtain ⟨rfl, hrest⟩ := h.str _ _ _ _ heq
      exact ⟨.str s, hrest⟩
    case arr.arr.refl as bs =>
      obtain ⟨ts, hts, rfl⟩ := ha
      obtain ⟨us, hus, rfl⟩ := hb
      obtain ⟨hall, hrest⟩ := items_unambiguous ih (canonicalJson_starts h) 0x5d rfl (by decide) hts
        hus (by simpa [show lit "[" = [0x5b] from rfl, show lit "]" = [0x5d] from rfl] using heq)
      exact ⟨.arr hall, hrest⟩
    case obj.obj.refl as bs =>
      obtain ⟨ts, hts, rfl⟩ := ha
      obtain ⟨us, hus, rfl⟩ := hb
      obtain ⟨hall, hrest⟩ := items_unambiguous (fieldText_unambiguous h ih) (fieldText_starts h)
        0x7d rfl (by decide) hts hus (by
          simpa [show lit "\x7b" = [0x7b] from rfl, show lit "\x7d" = [0x7d] from rfl] using heq)
      obtain ⟨cs, hperm, hcs⟩ :=
        exists_perm_of_sorted (mergeSort_perm as _) (mergeSort_perm bs _) hall
      exact ⟨.of_fields hperm hcs, hrest⟩

/-! ### The value determines the text -/

theorem mapM_congr {as bs : List α} (h : Forall₂ R as bs)
    (hf : ∀ a ∈ as, ∀ b ∈ bs, R a b → f a = f b) : as.mapM f = bs.mapM f := by
  induction h with
  | nil => rfl
  | cons hab _ ih =>
    rw [mapM_cons, mapM_cons, hf _ mem_cons_self _ mem_cons_self hab,
      ih fun a ha b hb => hf a (mem_cons_of_mem _ ha) b (mem_cons_of_mem _ hb)]

theorem keyLe_trans (a b c : Str) (hab : keyLe a b = true) (hbc : keyLe b c = true) :
    keyLe a c = true :=
  decide_eq_true (le_trans (of_decide_eq_true hab) (of_decide_eq_true hbc))

theorem keyLe_total (a b : Str) : (keyLe a b || keyLe b a) = true := by
  simpa [keyLe] using le_total (a.map UInt16.toNat) (b.map UInt16.toNat)

theorem keyLe_antisymm {a b : Str} (hab : keyLe a b = true) (hba : keyLe b a = true) : a = b :=
  map_injective_iff.mpr (fun _ _ => UInt16.toNat.inj)
    (le_antisymm (of_decide_eq_true hab) (of_decide_eq_true hba))

theorem sameField_of_columns (hkeys : cs.map Prod.fst = bs.map Prod.fst)
    (h : Forall₂ Json.Same (cs.map Prod.snd) (bs.map Prod.snd)) : Forall₂ SameField cs bs := by
  induction cs generalizing bs with
  | nil =>
    rw [map_eq_nil_iff.mp hkeys.symm]
    exact .nil
  | cons c cs ih =>
    cases bs with
    | nil => cases hkeys
    | cons b bs =>
      obtain ⟨hkey, hkeys⟩ := cons.inj hkeys
      cases h with
      | cons hvalue h => exact .cons ⟨hkey, hvalue⟩ (ih hkeys h)

/-- Objects with distinct keys that agree up to the order of the fields agree when sorted. -/
theorem sorted_of_perm {as : List (Str × Json)} (hperm : as.Perm cs) (h : Forall₂ SameField cs bs)
    (hnodup : (bs.map Prod.fst).Nodup) : Forall₂ SameField (as.mergeSort fun p q => keyLe p.1 q.1)
      (bs.mergeSort fun p q => keyLe p.1 q.1) := by
  have hsorted : ∀ l : List (Str × Json),
      ((l.mergeSort fun p q => keyLe p.1 q.1).map Prod.fst).Pairwise fun a b => keyLe a b = true :=
    fun l => pairwise_map.mpr (@pairwise_mergeSort _ (fun p q => keyLe p.1 q.1)
      (fun p q r => keyLe_trans p.1 q.1 r.1) (fun p q => keyLe_total p.1 q.1) l)
  obtain ⟨ds, hds, hdperm⟩ := perm_comp_forall₂ ((mergeSort_perm as _).trans hperm) h
  have hkeys := Pointwise.map_eq_map (fun p q hpq => hpq.1) hds.flip
  suffices heq : ds = bs.mergeSort fun p q => keyLe p.1 q.1 from heq ▸ hds
  refine Perm.eq_of_pairwise (fun p q hp hq hpq hqp => ?_)
    (pairwise_map.mp (hkeys ▸ hsorted as)) (pairwise_map.mp (hsorted bs))
    (hdperm.trans (mergeSort_perm bs _).symm)
  exact inj_on_of_nodup_map hnodup (hdperm.mem_iff.mp hp) (mem_mergeSort.mp hq)
    (keyLe_antisymm hpq hqp)

theorem canonicalJson_congr {a b : Json} (ha : a.Distinct) (hb : b.Distinct) (h : a.Same b) :
    canonicalJson rt fuel a = canonicalJson rt fuel b := by
  induction fuel generalizing a b with
  | zero => rfl
  | succ fuel ih =>
    cases h with
    | arr hall =>
      cases ha with
      | arr ha =>
        cases hb with
        | arr hb =>
          simp only [canonicalJson]
          rw [mapM_congr hall fun v hv w hw => ih (ha v hv) (hb w hw)]
    | @obj as cs bs hperm hkeys hall =>
      cases ha with
      | obj hna ha =>
        cases hb with
        | obj hnb hb =>
          have hmapM := mapM_congr (sorted_of_perm hperm (sameField_of_columns hkeys hall) hnb)
            fun p hp q hq hpq => show fieldText rt fuel p = fieldText rt fuel q by
              rw [fieldText, fieldText, hpq.1,
                ih (ha p (mem_mergeSort.mp hp)) (hb q (mem_mergeSort.mp hq)) hpq.2]
          simp only [canonicalJson]
          exact congrArg (· >>= _) hmapM
    | _ => rfl

/-! ### Events -/

theorem validateEvent_payloadHash {line : ℕ} {context : IngestContext} {e : ValidEvent}
    (htext : canonicalJson rt 65 value = some text)
    (h : validateEvent rt value line context = .inl e) : e.payloadHash = rt.sha256 text := by
  unfold validateEvent at h
  simp only [htext] at h
  repeat' split at h
  all_goals first | cases h; rfl | cases h

/-- Two values have one canonical text if and only if they are equal up to the order of keys, and
so have the hashes of two events unless their texts collide. -/
theorem canonical_json_faithful (h : Prints rt) {a b : Json} (ha : a.Distinct) (hb : b.Distinct)
    {ta tb : Str} (hta : canonicalJson rt 65 a = some ta) (htb : canonicalJson rt 65 b = some tb) :
    (ta = tb ↔ a.Same b) ∧
    ((rt.sha256 ta = rt.sha256 tb → ta = tb) →
      ∀ line line' context context' e e', validateEvent rt a line context = .inl e →
        validateEvent rt b line' context' = .inl e' →
        (e.payloadHash = e'.payloadHash ↔ a.Same b)) := by
  have htexts : ta = tb ↔ a.Same b := by
    constructor
    · rintro rfl
      exact (canonicalJson_unambiguous h a b ta ta [] [] hta htb rfl rfl rfl).1
    · intro hsame
      rw [canonicalJson_congr ha hb hsame, htb] at hta
      exact (some.inj hta).symm
  refine ⟨htexts, fun hcollision line line' context context' e e' he he' => ?_⟩
  rw [validateEvent_payloadHash hta he, validateEvent_payloadHash htb he', ← htexts]
  exact ⟨hcollision, congrArg rt.sha256⟩

def quote (s : Str) : Str :=
  0x22 :: s.flatMap (fun u => if u = 0x22 ∨ u = 0x5c then [0x5c, u] else [u]) ++ [0x22]

theorem quote_unambiguous {s t xs ys : Str} (h : quote s ++ xs = quote t ++ ys) :
    s = t ∧ xs = ys := by
  simp only [quote, cons_append, append_assoc, nil_append, cons.injEq, true_and] at h
  induction s generalizing t with
  | nil =>
    cases t with
    | nil => simpa using h
    | cons v t =>
      rw [flatMap_cons] at h
      split_ifs at h with hv
      · simp at h
      · simp at h
        exact absurd (Or.inl h.1.symm) hv
  | cons u s ih =>
    cases t with
    | nil =>
      rw [flatMap_cons] at h
      split_ifs at h with hu
      · simp at h
      · simp at h
        exact absurd (Or.inl h.1) hu
    | cons v t =>
      rw [flatMap_cons, flatMap_cons] at h
      split_ifs at h with hu hv hv
      · simp at h
        exact (ih h.2).imp_left fun hst => by rw [h.1, hst]
      · simp at h
        exact absurd (Or.inr h.1.symm) hv
      · simp at h
        exact absurd (Or.inr h.1) hu
      · simp at h
        exact (ih h.2).imp_left fun hst => by rw [h.1, hst]

/-- A runtime that prints strings, and counts numbers out. -/
def sample : Runtime where
  gunzip := fun _ _ => none
  parseJson := fun _ => none
  stringify
    | .null => lit "null"
    | .bool b => lit (if b then "true" else "false")
    | .str s => quote s
    | .num (some n) => replicate (Encodable.encode n + 1) 0x31
    | _ => lit "null"
  sha256 := fun _ => ""
  parseDate := fun _ => none

theorem prints_sample : Prints sample where
  null := rfl
  bool := fun _ => rfl
  str_head := fun _ => rfl
  str := fun _ _ _ _ => quote_unambiguous
  num_ne := fun _ => cons_ne_nil _ _
  num_units := fun _ _ hu => by
    rw [eq_of_mem_replicate hu]
    rfl
  num := fun m n h => by
    have hlength := congrArg length h
    exact Encodable.encode_injective (by simpa [sample] using hlength)

/-- The keys of one object stand in another order than those of the other. -/
theorem canonical_json_faithful_keys :
    let a := Json.obj [(lit "b", .arr [.bool true]), (lit "a", .null)]
    let b := Json.obj [(lit "a", .null), (lit "b", .arr [.bool true])]
    ∃ text, canonicalJson sample 65 a = some text ∧ canonicalJson sample 65 b = some text ∧
      (text = text ↔ a.Same b) := by
  have hd : ∀ v ∈ [Json.bool true], v.Distinct := by simp [Json.Distinct.bool]
  have hfields : ∀ field ∈ [(lit "b", Json.arr [.bool true]), (lit "a", .null)],
      field.2.Distinct := by simp [Json.Distinct.null, Json.Distinct.arr hd]
  have hb : canonicalJson sample 65 (.obj [(lit "a", .null), (lit "b", .arr [.bool true])]) =
      some (lit "\x7b\"a\":null,\"b\":[true]\x7d") := by
    refine canonicalJson_eq_some.mpr ⟨[lit "\"a\":null", lit "\"b\":[true]"], ?_, rfl⟩
    rw [mergeSort_of_pairwise (by decide)]
    exact .cons rfl (.cons rfl .nil)
  have ha : canonicalJson sample 65 (.obj [(lit "b", .arr [.bool true]), (lit "a", .null)]) =
      some (lit "\x7b\"a\":null,\"b\":[true]\x7d") := by
    rw [← hb]
    refine canonicalJson_congr (.obj (by decide) hfields)
      (.obj (by decide) (by simpa [and_comm] using hfields)) (.obj (.swap _ _ _) rfl ?_)
    exact .cons .null (.cons (.arr (.cons (.bool true) .nil)) .nil)
  exact ⟨_, ha, hb, (canonical_json_faithful prints_sample (.obj (by decide) hfields)
    (.obj (by decide) (by simpa [and_comm] using hfields)) ha hb).1⟩

end Bud.PersonalData.Batch
