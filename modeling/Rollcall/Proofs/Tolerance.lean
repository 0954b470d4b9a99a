import Rollcall.Proofs.Json.Grammar
import Rollcall.Proofs.Json.Variant
import Rollcall.Proofs.Patch

/-!
# What a reader puts up with

Registrations and patches are written by programs of other versions too: with more members, in another
order, with space between the tokens and with escapes in the keys. All of them are read as the same
registration or patch. But a field is given once, and with a value of its own kind; only three fields
may be null.

* `Registration.ofJson?_variant`, `Patch.ofJson?_variant` — a variant is read as the same;
* `Registration.ofJson?_of_faulty`, `Patch.ofJson?_of_faulty` — of a faulty object nothing is read;
* `Wire.takes_variants` — the same of all the texts that spell them.

A patch varies at two levels, the object itself and the registrations in its lists, so what counts as
the same list is `SameList`: its items are variants, one by one.
-/

namespace Rollcall

open Json (Kind Value)

/-! ## Registrations -/

namespace Field

/-- The kind of values that a field is written with. -/
def kind : Field → Kind
  | tags | requires => .array
  | _ => .string

/-- Whether a field may be null instead. -/
def nullable : Field → Bool
  | publicIPv4 | publicIPv6 | description => true
  | _ => false

/-- Whether a field can have a value of this kind. -/
def Admits (f : Field) (v : Value) : Prop := v.kind = f.kind ∨ f.nullable = true ∧ v.kind = .null

theorem mem_all (f : Field) : f ∈ all := by
  cases f with
  | _ => decide

end Field

namespace Registration

/-- Whether a value is a variant of what is written for a registration. -/
def Variant : Value → Value → Prop := Json.Variant (Field.all.map Field.name) (· = ·)

/-- Whether an object gives a field of a registration twice, or with a value of another kind. -/
def Faulty : Value → Prop := Json.Faulty Field.name Field.all Field.Admits

variable {v w : Value} {reg : Registration}

theorem eq_of_rel {vs ws : List (Option Value)} (h : List.Forall₂ (Option.Rel (· = ·)) vs ws) :
    vs = ws := by
  induction h with
  | nil => rfl
  | cons hv _ ih =>
      cases hv with
      | none => rw [ih]
      | some hv => rw [hv, ih]

theorem ofJson?_variant (h : Variant v w) (hv : ofJson? v = some reg) : ofJson? w = some reg := by
  obtain ⟨vs, hvs, hread⟩ := Option.bind_eq_some_iff.mp hv
  obtain ⟨ws, hws, hrel⟩ := Json.fields?_variant h hvs
  rw [ofJson?, hws, ← eq_of_rel hrel]
  exact hread

/-! ### Kinds of values that are read -/

theorem kind_of_text? {s : String} (h : v.text? = some s) : v.kind = .string := by
  cases v with
  | string raw => rfl
  | _ => cases h

theorem kind_of_list? {α : Type} {read : Value → Option α} {xs : List α} (h : v.list? read = some xs) :
    v.kind = .array := by
  cases v with
  | array items => rfl
  | _ => cases h

theorem admits_of_optional {α : Type} {read : Value → Option α} {x : Option α} {kind : Kind}
    (hread : ∀ y, read v = some y → v.kind = kind) (h : optional read (some v) = some x) :
    v.kind = kind ∨ v.kind = .null := by
  cases v with
  | null => exact .inr rfl
  | _ =>
      obtain ⟨y, hy, -⟩ := Option.map_eq_some_iff.mp h
      exact .inl (hread y hy)

theorem admits_of_ofFields? {given : Field → Option Value}
    (h : ofFields? (Field.all.map given) = some reg) (f : Field) (hv : given f = some v) :
    f.Admits v := by
  simp only [Field.all, List.map_cons, List.map_nil, ofFields?, Option.bind_eq_bind,
    Option.bind_eq_some_iff] at h
  obtain ⟨role, hrole, url, hurl, id, hid, ip, hip, ip', hip', description, hdescription, tags, htags,
    requires, hrequires, updateUrl, hupdate, -⟩ := h
  have hbound {α : Type} {read : Value → Option α} {x : α}
      (h : ∃ v, given f = some v ∧ read v = some x) : read v = some x := by
    obtain ⟨w, hw, h⟩ := h
    rw [hv] at hw
    obtain rfl := Option.some.inj hw
    exact h
  cases f with
  | role =>
      obtain ⟨name, hname, -⟩ := Option.map_eq_some_iff.mp (hbound hrole)
      exact .inl (kind_of_text? hname)
  | url => exact .inl (kind_of_text? (hbound hurl))
  | id =>
      rw [hv] at hid
      obtain ⟨text, htext, -⟩ := Option.map_eq_some_iff.mp hid
      exact .inl (kind_of_text? htext)
  | publicIPv4 =>
      rw [hv] at hip
      refine (admits_of_optional (fun y hy => ?_) hip).imp_right fun hnull => ⟨rfl, hnull⟩
      obtain ⟨text, htext, -⟩ := Option.bind_eq_some_iff.mp hy
      exact kind_of_text? htext
  | publicIPv6 =>
      rw [hv] at hip'
      refine (admits_of_optional (fun y hy => ?_) hip').imp_right fun hnull => ⟨rfl, hnull⟩
      obtain ⟨text, htext, -⟩ := Option.bind_eq_some_iff.mp hy
      exact kind_of_text? htext
  | description =>
      rw [hv] at hdescription
      exact (admits_of_optional (fun _ => kind_of_text?) hdescription).imp_right
        fun hnull => ⟨rfl, hnull⟩
  | tags =>
      rw [hv] at htags
      exact .inl (kind_of_list? htags)
  | requires =>
      rw [hv] at hrequires
      obtain ⟨roles, hroles, -⟩ := Option.map_eq_some_iff.mp hrequires
      exact .inl (kind_of_list? hroles)
  | updateUrl =>
      rw [hv] at hupdate
      exact .inl (kind_of_text? hupdate)

theorem ofJson?_of_faulty (h : Faulty v) : ofJson? v = none :=
  Json.bind_fields?_of_faulty (fun _ _ hread f _ _ hv => admits_of_ofFields? hread f hv) h

end Registration

/-! ## Patches -/

namespace Patch

/-- Whether two values are lists of registrations of which each is a variant of its counterpart. -/
def SameList (v w : Value) : Prop := ∃ items items', v = .array items ∧ w = .array items' ∧
  List.Forall₂ Registration.Variant items items'

/-- Whether a value is a variant of what is written for a patch. -/
def Variant : Value → Value → Prop := Json.Variant fieldNames SameList

/-- Whether a list of a patch can have a value: it is an array, and no faulty object is in it. -/
def Admits (_ : String) (v : Value) : Prop :=
  ∃ items, v = .array items ∧ ∀ item ∈ items, ¬ Registration.Faulty item

/-- Whether an object gives a list of a patch twice or as something else than an array, or one of its
registrations is faulty. -/
def Faulty : Value → Prop := Json.Faulty id fieldNames Admits

variable {v w : Value} {p : Patch}

def ofLists? : List (Option Value) → Option Patch
  | [added, removed] => do
    some { added := ← registrations? added, removed := ← registrations? removed }
  | _ => none

theorem ofJson?_eq_bind (v : Value) : ofJson? v = (Json.fields? fieldNames v).bind ofLists? := by
  rw [ofJson?]
  cases Json.fields? fieldNames v with
  | none => rfl
  | some lists =>
      rcases lists with _ | ⟨added, _ | ⟨removed, _ | ⟨other, lists⟩⟩⟩
      all_goals rfl

theorem registrations?_same {v? w? : Option Value} {regs : List Registration}
    (h : Option.Rel SameList v? w?) (hv : registrations? v? = some regs) :
    registrations? w? = some regs := by
  cases h with
  | none => exact hv
  | some h =>
      obtain ⟨items, items', rfl, rfl, hitems⟩ := h
      have hread : ∀ item ∈ items, ∀ item', Registration.Variant item item' → ∀ reg,
          Registration.ofJson? item = some reg →
          ∃ reg', Registration.ofJson? item' = some reg' ∧ reg = reg' :=
        fun item _ item' hvariant reg hreg => ⟨reg, Registration.ofJson?_variant hvariant hreg, rfl⟩
      obtain ⟨regs', hregs', hsame⟩ := Json.mapM_forall₂ hitems hread hv
      rw [List.forall₂_eq_eq_eq] at hsame
      rw [hsame]
      exact hregs'

theorem ofJson?_variant (h : Variant v w) (hv : ofJson? v = some p) : ofJson? w = some p := by
  rw [ofJson?_eq_bind] at hv ⊢
  obtain ⟨vs, hvs, hread⟩ := Option.bind_eq_some_iff.mp hv
  obtain ⟨ws, hws, hrel⟩ := Json.fields?_variant h hvs
  rw [hws, Option.bind_some]
  unfold ofLists? at hread
  split at hread
  · next added removed =>
    obtain ⟨regs, hregs, hread⟩ := Option.bind_eq_some_iff.mp hread
    obtain ⟨regs', hregs', hread⟩ := Option.bind_eq_some_iff.mp hread
    obtain _ | ⟨hadded, hrest⟩ := hrel
    obtain _ | ⟨hremoved, hnil⟩ := hrest
    cases hnil
    simp only [ofLists?, registrations?_same hadded hregs, registrations?_same hremoved hregs']
    exact hread
  · cases hread

theorem admits_of_registrations? {regs : List Registration} {name : String}
    (h : registrations? (some v) = some regs) : Admits name v := by
  obtain ⟨items, hitems, hread⟩ := Option.bind_eq_some_iff.mp h
  cases v with
  | array all =>
      obtain rfl := Option.some.inj hitems
      refine ⟨all, rfl, fun item hitem hfaulty => ?_⟩
      obtain ⟨reg, hreg⟩ := Json.exists_of_mapM hread hitem
      rw [Registration.ofJson?_of_faulty hfaulty] at hreg
      cases hreg
  | _ => cases hitems

theorem admits_of_ofLists? {given : String → Option Value}
    (h : ofLists? (fieldNames.map given) = some p) {name : String} (hname : name ∈ fieldNames)
    (hv : given name = some v) : Admits name v := by
  obtain ⟨added, hadded, h⟩ := Option.bind_eq_some_iff.mp h
  obtain ⟨removed, hremoved, -⟩ := Option.bind_eq_some_iff.mp h
  rcases List.mem_pair.mp hname with rfl | rfl
  · exact admits_of_registrations? (hv ▸ hadded)
  · exact admits_of_registrations? (hv ▸ hremoved)

theorem ofJson?_of_faulty (h : Faulty v) : ofJson? v = none := by
  have hnone := Json.bind_fields?_of_faulty
    (fun _ _ hread name hname _ hv => admits_of_ofLists? hread hname hv) h
  rw [List.map_id] at hnone
  rw [ofJson?_eq_bind, hnone]

end Patch

/-! ## What comes from elsewhere -/

namespace Wire

open Json (ascii)

/-- A reader of values gives of a text what it gives of the value that the text spells. How the text
is spelled has no part in it. -/
theorem bind_of_spelledBy {α : Type} (read : Value → Option α) {w : Value} {bytes : Text.Bytes}
    (h : w.SpelledBy bytes) : (Value.ofBytes? bytes).bind read = read w := by
  rw [Value.ofBytes?_of_spelledBy h, Option.bind_some]

/-- However a variant of a canonical registration or patch is spelled, the reader takes it for the same
registration or patch. However a faulty object is spelled, nothing is read. -/
theorem takes_variants :
    (∀ (reg : Registration) (w : Value) (bytes : Text.Bytes), reg.Canonical →
      Registration.Variant reg.toJson w → w.SpelledBy bytes → Registration.ofBytes? bytes = some reg) ∧
    (∀ (p : Patch) (w : Value) (bytes : Text.Bytes), p.Canonical →
      Patch.Variant p.toJson w → w.SpelledBy bytes → Patch.ofBytes? bytes = some p) ∧
    (∀ (w : Value) (bytes : Text.Bytes), Registration.Faulty w → w.SpelledBy bytes →
      Registration.ofBytes? bytes = none) ∧
    ∀ (w : Value) (bytes : Text.Bytes), Patch.Faulty w → w.SpelledBy bytes →
      Patch.ofBytes? bytes = none := by
  refine ⟨fun reg w bytes hcanonical hw hbytes => ?_, fun p w bytes hcanonical hw hbytes => ?_,
    fun w bytes hw hbytes => ?_, fun w bytes hw hbytes => ?_⟩
  · have hwritten : Registration.ofJson? reg.toJson = some reg := by
      rw [Registration.ofJson?_toJson, reg.normal_eq_self_iff.mpr hcanonical]
    exact (bind_of_spelledBy _ hbytes).trans (Registration.ofJson?_variant hw hwritten)
  · have hwritten : Patch.ofJson? p.toJson = some p := by
      rw [Patch.ofJson?_toJson, Patch.normal_eq_self_iff.mpr hcanonical]
    exact (bind_of_spelledBy _ hbytes).trans (Patch.ofJson?_variant hw hwritten)
  · exact (bind_of_spelledBy _ hbytes).trans (Registration.ofJson?_of_faulty hw)
  · exact (bind_of_spelledBy _ hbytes).trans (Patch.ofJson?_of_faulty hw)

/-- A newer version writes the log from the last field to the first, behind two weights, with an escape
in a key and space before each token. It is read, by itself and in a patch; but not if it has two
roles, and not in a patch that removes null. -/
theorem weighted_log_is_taken :
    let log : Registration := { role := .log, url := "http://p" }
    let key (name : String) : Text.Bytes := Text.Utf8.ofString name
    let spaced (v : Value) : Text.Bytes := v.tokens.flatMap fun t => ascii ' ' :: t.bytes
    let weights : List (Text.Bytes × Value) :=
      [(key "weight", .nat 2), (key "weight", .array [.null, .object []])]
    let fields : List (Text.Bytes × Value) := [(key "serviceUpdateURL", .text ""),
      (key "requiredServices", .array []), (key "serviceID", .text ""),
      (key "serviceURL", .text "http://p"), (key "\\u0073erviceName", .text "log")]
    let weighted : Value := .object (weights ++ fields)
    let twofold : Value := .object ((key "serviceName", .text "web") :: fields)
    let patch (removed : Value) : Value :=
      .object [(key "removed", removed), (key "added", .array [weighted])]
    Registration.ofBytes? (spaced weighted) = some log ∧
      Patch.ofBytes? (spaced (patch (.array []))) = some (.ofAdded [log]) ∧
      Registration.ofBytes? (spaced twofold) = none ∧
      Patch.ofBytes? (spaced (patch .null)) = none := by
  intro log key spaced weights fields weighted twofold patch
  have hspelled (v : Value) (h : Json.Token.ofBytes? (spaced v) = some v.tokens) :
      v.SpelledBy (spaced v) := by
    refine Value.ofBytes?_eq_some_iff.mp ?_
    rw [Value.ofBytes?, h]
    exact v.ofTokens?_tokens
  have hlog : log.Canonical := log.normal_eq_self_iff.mp (by decide +kernel)
  have hweighted : Registration.Variant log.toJson weighted := by
    have hkept : List.Forall₂ (Json.SameMember (· = ·)) [(key "serviceName", .text "log"),
        (key "serviceURL", .text "http://p"), (key "serviceID", .text ""),
        (key "requiredServices", .array []), (key "serviceUpdateURL", .text "")] fields.reverse :=
      .cons ⟨by decide +kernel, rfl⟩ (.cons ⟨rfl, rfl⟩ (.cons ⟨rfl, rfl⟩ (.cons ⟨rfl, rfl⟩
        (.cons ⟨rfl, rfl⟩ .nil))))
    have hextra : ∀ m ∈ weights, Json.keyText? m.1 = some "weight" :=
      List.forall_mem_cons.mpr ⟨by decide +kernel, List.forall_mem_singleton.mpr (by decide +kernel)⟩
    exact .object hkept (fun m hm => ⟨"weight", hextra m hm, by decide⟩)
      (List.perm_append_comm.trans ((List.reverse_perm fields).symm.append_right weights))
  have hpatch : Patch.Variant (Patch.ofAdded [log]).toJson (patch (.array [])) := by
    have hkept : List.Forall₂ (Json.SameMember Patch.SameList)
        [(key "added", .array [log.toJson]), (key "removed", .array [])]
        [(key "added", .array [weighted]), (key "removed", .array [])] :=
      .cons ⟨rfl, _, _, rfl, rfl, .cons hweighted .nil⟩ (.cons ⟨rfl, _, _, rfl, rfl, .nil⟩ .nil)
    exact .object hkept (List.forall_mem_nil _) (.swap _ _ [])
  have htwofold : Registration.Faulty twofold :=
    .twice (Field.mem_all .role) (by decide +kernel)
  have hnull : Patch.Faulty (patch .null) := by
    refine .unfit (List.mem_cons_of_mem _ List.mem_cons_self)
      (Json.mem_valuesOf.mpr ⟨_, List.mem_cons_self, by decide +kernel, rfl⟩) ?_
    rintro ⟨items, hitems, -⟩
    cases hitems
  obtain ⟨hreg, hpatches, hfaulty, hnothing⟩ := takes_variants
  exact ⟨hreg _ _ _ hlog hweighted (hspelled _ (by decide +kernel)),
    hpatches _ _ _ ⟨List.forall_mem_singleton.mpr hlog, List.forall_mem_nil _⟩ hpatch
      (hspelled _ (by decide +kernel)),
    hfaulty _ _ htwofold (hspelled _ (by decide +kernel)),
    hnothing _ _ hnull (hspelled _ (by decide +kernel))⟩

end Wire
end Rollcall
