import Rollcall.Patch
import Rollcall.Proofs.Json.Length
import Rollcall.Proofs.Net.IPv6

/-!
# Registrations are read back

A role of its own can have the name of a known one, and a reader takes it for that one. A role, a set
of roles or a registration is `Canonical` if no such role is in it; what a reader makes of any other
one is its `normal` form.

* `Role.canonical_iff` — the roles in disguise are the custom ones with the name of a known one;
* `Registration.ofBytes?_bytes` — what is written for a registration is read as its normal form;
* `Registration.normal_eq_self_iff` — which is the registration itself if it is canonical;
* `Registration.canonical_of_ofBytes?` — and a reader gives canonical registrations only.
-/

namespace Rollcall

open Json (Value)

/-! ## Roles -/

namespace Role

/-- The role that a reader takes a role for: the one that its name stands for. -/
def normal (r : Role) : Role := ofText r.text

/-- Whether a role is no known role in disguise, that is not a custom one with the name of a known
one. -/
def Canonical (r : Role) : Prop := r.normal = r

theorem canonical_ofText (name : String) : (ofText name).Canonical := by
  rw [Canonical, normal, text_ofText]

theorem canonical_normal (r : Role) : r.normal.Canonical := canonical_ofText r.text

theorem eq_custom_of_not_known {r : Role} (h : r.known = false) : r = .custom r.text := by
  cases r with
  | custom name => rfl
  | _ => cases h

/-- The roles in disguise are the custom ones with the name of a known one. -/
theorem canonical_iff {r : Role} :
    r.Canonical ↔ ∀ other : Role, other.known = true → r ≠ .custom other.text := by
  constructor
  · rintro h other hknown rfl
    have hother : other = .custom other.text := (ofText_text_of_known hknown).symm.trans h
    rw [hother] at hknown
    cases hknown
  · intro h
    cases hr : r.known with
    | true => exact ofText_text_of_known hr
    | false =>
        rw [eq_custom_of_not_known hr] at h ⊢
        cases hback : (ofText r.text).known with
        | true => exact absurd (by rw [text_ofText]) (h _ hback)
        | false =>
            have hcustom := eq_custom_of_not_known hback
            rwa [text_ofText] at hcustom

theorem ofJson?_toJson (r : Role) : ofJson? r.toJson = some r.normal := by
  rw [ofJson?, toJson, Json.text?_text]
  rfl

theorem canonical_of_ofJson? {v : Value} {r : Role} (h : ofJson? v = some r) : r.Canonical := by
  obtain ⟨name, -, rfl⟩ := Option.map_eq_some_iff.mp h
  exact canonical_ofText name

theorem before_irrefl (r : Role) : ¬ r.Before r := by
  simp [Before, Std.ReflOrd.compare_self]

theorem before_asymm {a b : Role} (h : a.Before b) : ¬ b.Before a :=
  fun hback => before_irrefl a (before_trans h hback)

end Role

namespace RoleSet

theorem ext {s s' : RoleSet} (h : s.toList = s'.toList) : s = s' := by
  cases s
  cases s'
  cases h
  rfl

theorem insertSorted_last {r : Role} {xs : List Role} (h : ∀ x ∈ xs, x.Before r) :
    insertSorted r xs = xs ++ [r] := by
  induction xs with
  | nil => rfl
  | cons x xs ih =>
      obtain ⟨hx, hxs⟩ := List.forall_mem_cons.mp h
      have hne : r ≠ x := by
        rintro rfl
        exact Role.before_irrefl _ hx
      rw [insertSorted, if_neg (Role.before_asymm hx), if_neg hne, ih hxs, List.cons_append]

theorem toList_foldl_insert {s : RoleSet} {xs : List Role}
    (h : (s.toList ++ xs).Pairwise Role.Before) :
    (xs.foldl insert s).toList = s.toList ++ xs := by
  induction xs generalizing s with
  | nil => exact (List.append_nil _).symm
  | cons x xs ih =>
      have hlast : (s.insert x).toList = s.toList ++ [x] := by
        refine insertSorted_last fun y hy => ?_
        exact (List.pairwise_append.mp h).2.2 y hy x List.mem_cons_self
      have hrest : ((s.insert x).toList ++ xs).Pairwise Role.Before := by
        rwa [hlast, List.append_assoc]
      rw [List.foldl_cons, ih hrest, hlast, List.append_assoc]
      rfl

/-- A set is the set of its members. -/
theorem ofList_toList (s : RoleSet) : ofList s.toList = s := by
  refine ext ?_
  rw [ofList, toList_foldl_insert (s := {}) s.sorted]
  rfl

theorem mem_foldl_insert {s : RoleSet} {xs : List Role} {r : Role} :
    r ∈ (xs.foldl insert s).toList ↔ r ∈ s.toList ∨ r ∈ xs := by
  induction xs generalizing s with
  | nil => simp
  | cons x xs ih =>
      rw [List.foldl_cons, ih, mem_insert, List.mem_cons]
      grind

theorem mem_ofList {xs : List Role} {r : Role} : r ∈ (ofList xs).toList ↔ r ∈ xs := by
  rw [ofList, mem_foldl_insert]
  simp

def normal (s : RoleSet) : RoleSet := ofList (s.toList.map Role.normal)

def Canonical (s : RoleSet) : Prop := ∀ r ∈ s.toList, r.Canonical

theorem canonical_ofList {xs : List Role} (h : ∀ r ∈ xs, r.Canonical) : (ofList xs).Canonical :=
  fun r hr => h r (mem_ofList.mp hr)

theorem canonical_normal (s : RoleSet) : s.normal.Canonical := by
  refine canonical_ofList fun r hr => ?_
  obtain ⟨x, -, rfl⟩ := List.mem_map.mp hr
  exact x.canonical_normal

theorem normal_eq_self_iff {s : RoleSet} : s.normal = s ↔ s.Canonical := by
  constructor
  · intro h
    rw [← h]
    exact s.canonical_normal
  · intro h
    have hmap : s.toList.map Role.normal = s.toList := by
      rw [List.map_congr_left h, List.map_id']
    rw [normal, hmap, ofList_toList]

theorem ofJson?_toJson (s : RoleSet) : ofJson? s.toJson = some s.normal := by
  rw [ofJson?, toJson, Json.list?_map fun r _ => Role.ofJson?_toJson r]
  rfl

theorem canonical_of_ofJson? {v : Value} {s : RoleSet} (h : ofJson? v = some s) : s.Canonical := by
  obtain ⟨roles, hread, rfl⟩ := Option.map_eq_some_iff.mp h
  obtain ⟨items, -, hitems⟩ := Option.bind_eq_some_iff.mp hread
  refine canonical_ofList fun r hr => ?_
  obtain ⟨item, -, hitem⟩ := Json.exists_of_mem_mapM hitems hr
  exact Role.canonical_of_ofJson? hitem

theorem canonical_empty : Canonical {} := nofun

end RoleSet

/-! ## Registrations -/

namespace Registration

variable (reg : Registration)

def normal : Registration := { reg with role := reg.role.normal, requires := reg.requires.normal }

def Canonical : Prop := reg.role.Canonical ∧ reg.requires.Canonical

theorem canonical_normal : reg.normal.Canonical :=
  ⟨reg.role.canonical_normal, reg.requires.canonical_normal⟩

theorem normal_eq_self_iff : reg.normal = reg ↔ reg.Canonical := by
  constructor
  · intro h
    rw [← h]
    exact reg.canonical_normal
  · rintro ⟨hrole, hrequires⟩
    rw [normal, RoleSet.normal_eq_self_iff.mpr hrequires, show reg.role.normal = reg.role from hrole]

theorem names_nodup : (Field.all.map Field.name).Nodup := by decide

theorem orDefault_tags : orDefault [] (Value.list? Value.text?) (reg.field? .tags) = some reg.tags := by
  rw [field?]
  split
  · next h =>
    rw [List.isEmpty_iff.mp h]
    rfl
  · exact (Json.list?_map fun tag _ => Json.text?_text tag).trans (by rw [List.map_id'])

theorem optional_text {α : Type} {read : Value → Option α} {write : α → String}
    (h : ∀ x, read (.text (write x)) = some x) (x? : Option α) :
    optional read (x?.map fun x => Value.text (write x)) = some x? := by
  cases x? with
  | none => rfl
  | some x =>
      rw [Option.map_some]
      exact congrArg (Option.map some) (h x)

theorem ofFields?_fields : ofFields? (Field.all.map reg.field?) = some reg.normal := by
  -- One field at a time: what is written for it is read back, up to its normal form.
  have hid : orDefault {} InstanceId.ofJson? (reg.field? .id) = some reg.id := by
    rw [field?, orDefault, InstanceId.ofJson?, InstanceId.toJson, Json.text?_text]
    rfl
  have h4 : optional (fun v => v.text?.bind Net.IPv4.ofText?) (reg.field? .publicIPv4) =
      some reg.publicIPv4 := by
    refine optional_text (fun ip => ?_) reg.publicIPv4
    rw [Json.text?_text, Option.bind_some, Net.IPv4.ofText?_text]
  have h6 : optional (fun v => v.text?.bind Net.IPv6.ofText?) (reg.field? .publicIPv6) =
      some reg.publicIPv6 := by
    refine optional_text (fun ip => ?_) reg.publicIPv6
    rw [Json.text?_text, Option.bind_some, Net.IPv6.ofText?_text]
  have hdescription : optional Value.text? (reg.field? .description) = some reg.description :=
    optional_text Json.text?_text reg.description
  have hrequires : orDefault {} RoleSet.ofJson? (reg.field? .requires) = some reg.requires.normal :=
    RoleSet.ofJson?_toJson reg.requires
  have hrole : (reg.field? .role).bind Role.ofJson? = some reg.role.normal :=
    Role.ofJson?_toJson reg.role
  have hurl : (reg.field? .url).bind Value.text? = some reg.url := Json.text?_text reg.url
  have hupdate : orDefault "" Value.text? (reg.field? .updateUrl) = some reg.updateUrl :=
    Json.text?_text reg.updateUrl
  simp only [Field.all, List.map_cons, List.map_nil, ofFields?, hrole, hurl, hid, h4, h6, hdescription,
    orDefault_tags, hrequires, hupdate, Option.bind_eq_bind, Option.bind_some]
  rfl

theorem toJson_eq : reg.toJson = .object (Json.written Field.name reg.field? Field.all) := rfl

theorem ofJson?_toJson : ofJson? reg.toJson = some reg.normal := by
  rw [ofJson?, toJson_eq, Json.fields?_written names_nodup, Option.bind_some, ofFields?_fields]

theorem sound_toJson : reg.toJson.Sound := by
  refine Json.sound_written fun f _ v hv => ?_
  cases f with
  | role | url | id | updateUrl =>
      obtain rfl := Option.some.inj hv
      exact Value.sound_text _
  | publicIPv4 | publicIPv6 | description =>
      obtain ⟨x, -, rfl⟩ := Option.map_eq_some_iff.mp hv
      exact Value.sound_text _
  | tags =>
      obtain ⟨-, hv⟩ := Option.ite_none_left_eq_some.mp hv
      obtain rfl := Option.some.inj hv
      refine Value.sound_array fun item hitem => ?_
      obtain ⟨tag, -, rfl⟩ := List.mem_map.mp hitem
      exact Value.sound_text tag
  | requires =>
      obtain rfl := Option.some.inj hv
      refine Value.sound_array fun item hitem => ?_
      obtain ⟨r, -, rfl⟩ := List.mem_map.mp hitem
      exact Value.sound_text r.text

/-- What is written for a registration is read as its normal form. -/
theorem ofBytes?_bytes : ofBytes? reg.bytes = some reg.normal := by
  rw [ofBytes?, bytes, Value.ofBytes?_render reg.sound_toJson, Option.bind_some, ofJson?_toJson]

theorem canonical_of_orDefault {v? : Option Value} {s : RoleSet}
    (h : orDefault {} RoleSet.ofJson? v? = some s) : s.Canonical := by
  cases v? with
  | none =>
      obtain rfl := Option.some.inj h
      exact RoleSet.canonical_empty
  | some v => exact RoleSet.canonical_of_ofJson? h

variable {reg}

theorem ofBytes?_bytes_eq_self_iff : ofBytes? reg.bytes = some reg ↔ reg.Canonical := by
  rw [ofBytes?_bytes, Option.some.injEq, normal_eq_self_iff]

theorem canonical_of_ofFields? {fields : List (Option Value)} (h : ofFields? fields = some reg) :
    reg.Canonical := by
  unfold ofFields? at h
  split at h
  · simp only [Option.bind_eq_bind, Option.bind_eq_some_iff, Option.some.injEq] at h
    obtain ⟨role, ⟨v, -, hrole⟩, url, -, id, -, ip, -, ip', -, description, -, tags, -, requires,
      hrequires, updateUrl, -, rfl⟩ := h
    exact ⟨Role.canonical_of_ofJson? hrole, canonical_of_orDefault hrequires⟩
  · cases h

theorem canonical_of_ofJson? {v : Value} (h : ofJson? v = some reg) : reg.Canonical := by
  obtain ⟨fields, -, hfields⟩ := Option.bind_eq_some_iff.mp h
  exact canonical_of_ofFields? hfields

/-- A reader gives canonical registrations only. -/
theorem canonical_of_ofBytes? {bytes : Text.Bytes} (h : ofBytes? bytes = some reg) :
    reg.Canonical := by
  obtain ⟨v, -, hv⟩ := Option.bind_eq_some_iff.mp h
  exact canonical_of_ofJson? hv

/-- The address of a registration is no longer than what it is read from, so it fits into a body if
that did. -/
theorem length_url_le_of_ofBytes? {bytes : Text.Bytes} (h : ofBytes? bytes = some reg) :
    (Text.Utf8.ofString reg.url).length ≤ bytes.length := by
  obtain ⟨v, hv, h⟩ := Option.bind_eq_some_iff.mp h
  obtain ⟨fields, hfields, h⟩ := Option.bind_eq_some_iff.mp h
  unfold ofFields? at h
  split at h
  · next role? url? _ _ _ _ _ _ _ =>
    simp only [Option.bind_eq_bind, Option.bind_eq_some_iff, Option.some.injEq] at h
    obtain ⟨-, -, url, ⟨part, rfl, hurl⟩, -, -, -, -, -, -, -, -, -, -, -, -, -, -, rfl⟩ := h
    have hpart : ∀ t ∈ part.tokens, t ∈ v.tokens := fun t ht =>
      Value.mem_tokens_of_fields? hfields (by simp) ht
    exact Value.length_le_of_text? hv hpart hurl
  · cases h

end Registration
end Rollcall
