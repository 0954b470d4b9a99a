import Mathlib.Data.List.Forall2
import Rollcall.Json.Record

/-!
# Ways to write a record

Whoever writes a record as an object is free to put the members into any order, to spell the keys with
any escapes, and to add members that are no fields. Such a `Variant` has the same fields for a reader,
`fields?_variant`. Nobody is free to give a field twice, or with a value that the field does not admit:
from such a `Faulty` object nothing is read, `bind_fields?_of_faulty`.

A key is a text here; a string that stands for none, because its bytes are no characters or a surrogate
in it stands alone, is no key of an object.
-/

namespace Rollcall.Json

open Text (Bytes)

/-! ## Members by their keys -/

/-- The text that a key stands for. -/
def keyText? (raw : Bytes) : Option String := (unescape? raw).map String.ofList

/-- Whether all keys are texts. -/
def Keyed (ms : List (Bytes × Value)) : Prop := ∀ m ∈ ms, (keyText? m.1).isSome = true

/-- The values that are given for a key, however the key is written. -/
def valuesOf (name : String) (ms : List (Bytes × Value)) : List Value :=
  (ms.filter fun m => keyText? m.1 = some name).map (·.2)

/-- The one value of a list, if it is not empty; several values are an error. -/
def only? : List Value → Option (Option Value)
  | [] => some none
  | [v] => some (some v)
  | _ => none

variable {name : String} {names : List String} {ms : List (Bytes × Value)}
  {vs : List (Option Value)} {v : Value}

theorem mem_valuesOf : v ∈ valuesOf name ms ↔ ∃ m ∈ ms, keyText? m.1 = some name ∧ m.2 = v := by
  simp [valuesOf, and_assoc]

theorem valuesOf_append (name : String) (ms ms' : List (Bytes × Value)) :
    valuesOf name (ms ++ ms') = valuesOf name ms ++ valuesOf name ms' := by
  simp [valuesOf]

theorem field?_eq_only? (members : List (String × Value)) (name : String) :
    field? members name = only? ((members.filter (·.1 = name)).map (·.2)) := by
  rw [field?]
  cases members.filter (·.1 = name) with
  | nil => rfl
  | cons m rest =>
      cases rest with
      | nil => rfl
      | cons other rest => rfl

theorem keyed?_cons (raw : Bytes) (v : Value) (ms : List (Bytes × Value)) : keyed? ((raw, v) :: ms) =
    (keyText? raw).bind fun key => (keyed? ms).map fun members => (key, v) :: members := by
  rw [keyed?, List.mapM_cons, keyText?]
  dsimp only
  cases unescape? raw with
  | none => rfl
  | some chars =>
      show (keyed? ms).bind _ = _
      cases keyed? ms with
      | none => rfl
      | some members => rfl

theorem exists_keyed? (h : Keyed ms) : ∃ members, keyed? ms = some members := by
  induction ms with
  | nil => exact ⟨[], rfl⟩
  | cons m ms ih =>
      obtain ⟨hm, hms⟩ := List.forall_mem_cons.mp h
      obtain ⟨key, hkey⟩ := Option.isSome_iff_exists.mp hm
      obtain ⟨members, hmembers⟩ := ih hms
      exact ⟨_, by rw [keyed?_cons, hkey, hmembers]; rfl⟩

theorem of_keyed? {members : List (String × Value)} (h : keyed? ms = some members) :
    Keyed ms ∧ ∀ name, (members.filter (·.1 = name)).map (·.2) = valuesOf name ms := by
  induction ms generalizing members with
  | nil =>
      obtain rfl := Option.some.inj h
      exact ⟨nofun, fun _ => rfl⟩
  | cons m ms ih =>
      rw [keyed?_cons] at h
      obtain ⟨key, hkey, h⟩ := Option.bind_eq_some_iff.mp h
      obtain ⟨rest, hrest, rfl⟩ := Option.map_eq_some_iff.mp h
      obtain ⟨hkeyed, hvalues⟩ := ih hrest
      refine ⟨List.forall_mem_cons.mpr ⟨Option.isSome_iff_exists.mpr ⟨key, hkey⟩, hkeyed⟩,
        fun name => ?_⟩
      have hname := hvalues name
      by_cases heq : key = name
      · simp_all [valuesOf]
      · simp_all [valuesOf]

/-- The fields of an object are what is given for them, each at most once. Members that are no
fields play no part. -/
theorem fields?_object_eq_some_iff : fields? names (.object ms) = some vs ↔
    Keyed ms ∧ names.mapM (fun name => only? (valuesOf name ms)) = some vs := by
  have hmapM {members : List (String × Value)} (h : keyed? ms = some members) :
      names.mapM (field? members) = names.mapM fun name => only? (valuesOf name ms) := by
    refine congrArg (names.mapM ·) (funext fun name => ?_)
    rw [field?_eq_only?, (of_keyed? h).2 name]
  constructor
  · intro h
    obtain ⟨members, hmembers, h⟩ := Option.bind_eq_some_iff.mp h
    exact ⟨(of_keyed? hmembers).1, hmapM hmembers ▸ h⟩
  · rintro ⟨hkeyed, h⟩
    obtain ⟨members, hmembers⟩ := exists_keyed? hkeyed
    rw [fields?, hmembers]
    exact (hmapM hmembers).trans h

/-! ## Variants -/

/-- Whether two members have the same key, however it is written, and values that are the `same`. -/
def SameMember (same : Value → Value → Prop) (m m' : Bytes × Value) : Prop :=
  keyText? m'.1 = keyText? m.1 ∧ same m.2 m'.2

/-- Whether one object is a variant of another one that has been written for a record: it has the same
members, and any others whose keys are not among the names of the fields, all of them in any order. -/
inductive Variant (names : List String) (same : Value → Value → Prop) : Value → Value → Prop
  | object {ms kept extra ms' : List (Bytes × Value)} (hkept : List.Forall₂ (SameMember same) ms kept)
    (hextra : ∀ m ∈ extra, ∃ key, keyText? m.1 = some key ∧ key ∉ names)
    (hperm : ms'.Perm (kept ++ extra)) : Variant names same (.object ms) (.object ms')

variable {same : Value → Value → Prop} {kept extra : List (Bytes × Value)}

/-! ### Members that are kept -/

theorem keyed_kept (h : List.Forall₂ (SameMember same) ms kept) (hms : Keyed ms) : Keyed kept := by
  induction h with
  | nil => nofun
  | cons hm _ ih =>
      obtain ⟨hkey, hms⟩ := List.forall_mem_cons.mp hms
      exact List.forall_mem_cons.mpr ⟨hm.1 ▸ hkey, ih hms⟩

theorem valuesOf_kept (h : List.Forall₂ (SameMember same) ms kept) (name : String) :
    List.Forall₂ same (valuesOf name ms) (valuesOf name kept) := by
  unfold valuesOf
  induction h with
  | nil => exact .nil
  | @cons m m' ms kept hm _ ih =>
      by_cases hkey : keyText? m.1 = some name
      · rw [List.filter_cons_of_pos (by simpa using hkey),
          List.filter_cons_of_pos (by simpa [hm.1] using hkey)]
        exact .cons hm.2 ih
      · rw [List.filter_cons_of_neg (by simpa using hkey),
          List.filter_cons_of_neg (by simpa [hm.1] using hkey)]
        exact ih

theorem valuesOf_extra (h : ∀ m ∈ extra, ∃ key, keyText? m.1 = some key ∧ key ∉ names)
    (hname : name ∈ names) : valuesOf name extra = [] := by
  refine List.eq_nil_iff_forall_not_mem.mpr fun v hv => ?_
  obtain ⟨m, hm, hkey, -⟩ := mem_valuesOf.mp hv
  obtain ⟨key, hkey', hnot⟩ := h m hm
  rw [hkey'] at hkey
  obtain rfl := Option.some.inj hkey
  exact hnot hname

theorem valuesOf_perm {ms ms' : List (Bytes × Value)} (h : ms.Perm ms') (name : String) :
    (valuesOf name ms).Perm (valuesOf name ms') := (h.filter _).map _

/-! ### What is found -/

theorem only?_perm {us ws : List Value} (h : us.Perm ws) : only? us = only? ws := by
  match us with
  | [] => rw [List.nil_perm.mp h]
  | [u] => rw [List.singleton_perm.mp h]
  | u :: u' :: us =>
      have hlength := h.length_eq
      match ws with
      | [] | [_] => simp at hlength
      | _ :: _ :: _ => rfl

theorem only?_forall₂ {same : Value → Value → Prop} {us ws : List Value}
    (h : List.Forall₂ same us ws) {v? : Option Value} (hv : only? us = some v?) :
    ∃ w?, only? ws = some w? ∧ Option.Rel same v? w? := by
  cases h with
  | nil =>
      obtain rfl := Option.some.inj hv
      exact ⟨none, rfl, .none⟩
  | cons hfirst hrest =>
      cases hrest with
      | nil =>
          obtain rfl := Option.some.inj hv
          exact ⟨_, rfl, .some hfirst⟩
      | cons => cases hv

theorem mapM_forall₂ {α α' β β' : Type} {r : α → α' → Prop} {s : β → β' → Prop} {f : α → Option β}
    {g : α' → Option β'} {xs : List α} {xs' : List α'} {ys : List β} (hxs : List.Forall₂ r xs xs')
    (h : ∀ x ∈ xs, ∀ x', r x x' → ∀ y, f x = some y → ∃ y', g x' = some y' ∧ s y y')
    (hys : xs.mapM f = some ys) : ∃ ys', xs'.mapM g = some ys' ∧ List.Forall₂ s ys ys' := by
  induction hxs generalizing ys with
  | nil =>
      obtain rfl := Option.some.inj hys
      exact ⟨[], rfl, .nil⟩
  | cons hx _ ih =>
      obtain ⟨hfirst, hrest⟩ := List.forall_mem_cons.mp h
      rw [List.mapM_cons] at hys
      obtain ⟨y, hy, hys⟩ := Option.bind_eq_some_iff.mp hys
      obtain ⟨rest, hread, hys⟩ := Option.bind_eq_some_iff.mp hys
      obtain rfl := Option.some.inj hys
      obtain ⟨y', hy', hrel⟩ := hfirst _ hx y hy
      obtain ⟨ys', hys', hrels⟩ := ih hrest hread
      refine ⟨y' :: ys', ?_, .cons hrel hrels⟩
      rw [List.mapM_cons, hy', hys']
      rfl

/-- The fields of a variant are the same: neither the order of its members, nor how they are
written, nor unknown members change them. -/
theorem fields?_variant {v w : Value} (h : Variant names same v w) (hv : fields? names v = some vs) :
    ∃ ws, fields? names w = some ws ∧ List.Forall₂ (Option.Rel same) vs ws := by
  obtain @⟨ms, kept, extra, ms', hkept, hextra, hperm⟩ := h
  obtain ⟨hkeyed, hvs⟩ := fields?_object_eq_some_iff.mp hv
  have hfield (name : String) (hname : name ∈ names) (name' : String) (heq : name = name')
      (v? : Option Value) (hv : only? (valuesOf name ms) = some v?) :
      ∃ w?, only? (valuesOf name' ms') = some w? ∧ Option.Rel same v? w? := by
    subst heq
    have hperm := valuesOf_perm hperm name
    rw [valuesOf_append, valuesOf_extra hextra hname, List.append_nil] at hperm
    rw [only?_perm hperm]
    exact only?_forall₂ (valuesOf_kept hkept name) hv
  obtain ⟨ws, hws, hrel⟩ := mapM_forall₂ (List.forall₂_refl names) hfield hvs
  refine ⟨ws, fields?_object_eq_some_iff.mpr ⟨fun m hm => ?_, hws⟩, hrel⟩
  rcases List.mem_append.mp (hperm.subset hm) with hm | hm
  · exact keyed_kept hkept hkeyed m hm
  · obtain ⟨key, hkey, -⟩ := hextra m hm
    rw [hkey]
    rfl

/-! ## Faults -/

inductive Kind where
  | null
  | bool
  | number
  | string
  | array
  | object
  deriving Repr, DecidableEq

def Value.kind : Value → Kind
  | .null => .null
  | .bool _ => .bool
  | .number _ => .number
  | .string _ => .string
  | .array _ => .array
  | .object _ => .object

section Fields

variable {φ α : Type} {key : φ → String} {fields : List φ} {admits : φ → Value → Prop}

/-- Whether an object is no record: a field is given twice, or with a value that it does not
admit. -/
inductive Faulty (key : φ → String) (fields : List φ) (admits : φ → Value → Prop) : Value → Prop
  | twice {ms : List (Bytes × Value)} {f : φ} (hf : f ∈ fields)
    (htwice : 2 ≤ (valuesOf (key f) ms).length) : Faulty key fields admits (.object ms)
  | unfit {ms : List (Bytes × Value)} {f : φ} {v : Value} (hf : f ∈ fields)
    (hv : v ∈ valuesOf (key f) ms) (hunfit : ¬ admits f v) : Faulty key fields admits (.object ms)

theorem only?_eq_some_iff {ws : List Value} {v? : Option Value} :
    only? ws = some v? ↔ ws = v?.toList := by
  match ws, v? with
  | [], none | [], some _ | [_], none | [_], some _ => simp [only?]
  | _ :: _ :: _, none | _ :: _ :: _, some _ => simp [only?]

/-- What a reader has found for the fields is what is given for them. -/
theorem exists_given (h : fields? (fields.map key) (.object ms) = some vs) :
    ∃ given : φ → Option Value, vs = fields.map given ∧
      ∀ f ∈ fields, valuesOf (key f) ms = (given f).toList := by
  have hvs := (fields?_object_eq_some_iff.mp h).2
  clear h
  refine ⟨fun f => (only? (valuesOf (key f) ms)).getD none, ?_⟩
  induction fields generalizing vs with
  | nil =>
      obtain rfl := Option.some.inj hvs
      exact ⟨rfl, nofun⟩
  | cons f fields ih =>
      rw [List.map_cons, List.mapM_cons] at hvs
      obtain ⟨v?, hv, hvs⟩ := Option.bind_eq_some_iff.mp hvs
      obtain ⟨rest, hrest, hvs⟩ := Option.bind_eq_some_iff.mp hvs
      obtain rfl := Option.some.inj hvs
      obtain ⟨hmap, hgiven⟩ := ih hrest
      refine ⟨by rw [List.map_cons, ← hmap, hv]; rfl, List.forall_mem_cons.mpr ⟨?_, hgiven⟩⟩
      show _ = ((only? (valuesOf (key f) ms)).getD none).toList
      rw [hv]
      exact only?_eq_some_iff.mp hv

/-- A record is not read from a faulty object, if its fields are only read from what they admit. -/
theorem bind_fields?_of_faulty {read : List (Option Value) → Option α}
    (hread : ∀ given a, read (fields.map given) = some a →
      ∀ f ∈ fields, ∀ v, given f = some v → admits f v)
    {v : Value} (h : Faulty key fields admits v) : (fields? (fields.map key) v).bind read = none := by
  refine Option.eq_none_iff_forall_ne_some.mpr fun a ha => ?_
  obtain ⟨vs, hvs, ha⟩ := Option.bind_eq_some_iff.mp ha
  cases h with
  | @twice ms f hf htwice =>
      obtain ⟨given, -, hgiven⟩ := exists_given hvs
      rw [hgiven f hf] at htwice
      cases hv : given f with
      | none => simp [hv] at htwice
      | some v => simp [hv] at htwice
  | @unfit ms f v hf hv hunfit =>
      obtain ⟨given, rfl, hgiven⟩ := exists_given hvs
      rw [hgiven f hf, Option.mem_toList] at hv
      exact hunfit (hread given a ha f hf v hv)

end Fields
end Rollcall.Json
