import Rollcall.Proofs.Registration

/-!
# Patches are read back

Registrations and patches go over the wire as JSON. A patch is `Canonical` if its registrations are,
that is if no role in it has the name of a known role without being that role, `Role.canonical_iff`.

* `Patch.ofBytes?_bytes` — what is written for a patch is read as its normal form;
* `Patch.canonical_of_ofBytes?` — and a reader gives canonical patches only;
* `Patch.length_bytes_ofAdded` — a patch is longer than the registration in it;
* `Wire.round_trip` — so the canonical registrations and patches are those that are read back as they
  were written, and nothing else is ever read.
-/

namespace Rollcall

open Json (Value)

namespace Patch

/-- The patch that a reader takes a patch for. A role in disguise is read as the known one; nothing
else is lost. -/
def normal (p : Patch) : Patch where
  added := p.added.map Registration.normal
  removed := p.removed.map Registration.normal

/-- Whether no registration in a patch has a role in disguise. -/
def Canonical (p : Patch) : Prop :=
  (∀ reg ∈ p.added, reg.Canonical) ∧ ∀ reg ∈ p.removed, reg.Canonical

variable {p : Patch}

theorem canonical_normal (p : Patch) : p.normal.Canonical := by
  refine ⟨fun reg hreg => ?_, fun reg hreg => ?_⟩
  all_goals
    obtain ⟨x, -, rfl⟩ := List.mem_map.mp hreg
    exact x.canonical_normal

theorem map_normal {regs : List Registration} (h : ∀ reg ∈ regs, reg.Canonical) :
    regs.map Registration.normal = regs := by
  have hself : ∀ reg ∈ regs, reg.normal = reg := fun reg hreg =>
    reg.normal_eq_self_iff.mpr (h reg hreg)
  rw [List.map_congr_left hself, List.map_id']

theorem normal_eq_self_iff : p.normal = p ↔ p.Canonical := by
  constructor
  · intro h
    rw [← h]
    exact p.canonical_normal
  · rintro ⟨hadded, hremoved⟩
    rw [normal, map_normal hadded, map_normal hremoved]

/-! ### What is written -/

/-- The value of a list in the wire form, by its name there. -/
def list? (p : Patch) (name : String) : Option Value :=
  some (.array ((if name = "added" then p.added else p.removed).map Registration.toJson))

theorem toJson_eq (p : Patch) : p.toJson = .object (Json.written id p.list? fieldNames) := rfl

theorem registrations?_toJson (regs : List Registration) :
    registrations? (some (.array (regs.map Registration.toJson))) =
      some (regs.map Registration.normal) :=
  Json.list?_map fun reg _ => reg.ofJson?_toJson

theorem ofJson?_toJson (p : Patch) : ofJson? p.toJson = some p.normal := by
  have hfields : Json.fields? (fieldNames.map id) p.toJson = some (fieldNames.map p.list?) := by
    rw [toJson_eq]
    exact Json.fields?_written (by decide)
  rw [List.map_id] at hfields
  have hlists : fieldNames.map p.list? =
      [some (.array (p.added.map Registration.toJson)),
        some (.array (p.removed.map Registration.toJson))] := rfl
  rw [ofJson?, hfields, hlists]
  simp only [registrations?_toJson, Option.bind_eq_bind, Option.bind_some]
  rfl

theorem sound_toJson (p : Patch) : p.toJson.Sound := by
  rw [toJson_eq]
  refine Json.sound_written fun name _ v hv => ?_
  obtain rfl := Option.some.inj hv
  refine Value.sound_array fun item hitem => ?_
  obtain ⟨reg, -, rfl⟩ := List.mem_map.mp hitem
  exact reg.sound_toJson

/-- What is written for a patch is read as its normal form. A canonical patch is therefore read back
as it is. -/
theorem ofBytes?_bytes (p : Patch) : ofBytes? p.bytes = some p.normal := by
  rw [ofBytes?, bytes, Value.ofBytes?_render p.sound_toJson, Option.bind_some, ofJson?_toJson]

/-! ### What is read -/

theorem canonical_of_registrations? {v? : Option Value} {regs : List Registration}
    (h : registrations? v? = some regs) : ∀ reg ∈ regs, reg.Canonical := by
  intro reg hreg
  cases v? with
  | none =>
      obtain rfl := Option.some.inj h
      cases hreg
  | some v =>
      obtain ⟨items, -, hitems⟩ := Option.bind_eq_some_iff.mp h
      obtain ⟨item, -, hitem⟩ := Json.exists_of_mem_mapM hitems hreg
      exact Registration.canonical_of_ofJson? hitem

theorem canonical_of_ofJson? {v : Value} (h : ofJson? v = some p) : p.Canonical := by
  unfold ofJson? at h
  split at h
  · simp only [Option.bind_eq_bind, Option.bind_eq_some_iff, Option.some.injEq] at h
    obtain ⟨added, hadded, removed, hremoved, rfl⟩ := h
    exact ⟨canonical_of_registrations? hadded, canonical_of_registrations? hremoved⟩
  · cases h

/-- A reader gives canonical patches only, so reading and writing go round. -/
theorem canonical_of_ofBytes? {body : Text.Bytes} (h : ofBytes? body = some p) : p.Canonical := by
  obtain ⟨v, -, hv⟩ := Option.bind_eq_some_iff.mp h
  exact canonical_of_ofJson? hv

theorem ofBytes?_bytes_eq_self_iff {p : Patch} : ofBytes? p.bytes = some p ↔ p.Canonical := by
  rw [ofBytes?_bytes, Option.some.injEq, normal_eq_self_iff]

/-! ### How much is written -/

/-- A patch of one registration takes as many bytes as the registration, and those of the tokens
around it. -/
theorem length_bytes_of_tokens {reg : Registration} {front back : List Json.Token}
    (h : p.toJson.tokens = front ++ reg.toJson.tokens ++ back) :
    p.bytes.length = reg.bytes.length + ((front ++ back).flatMap Json.Token.bytes).length := by
  rw [bytes, Value.render, h, Registration.bytes, Value.render]
  simp only [List.flatMap_append, List.length_append]
  omega

theorem length_bytes_ofAdded (reg : Registration) :
    (ofAdded [reg]).bytes.length = reg.bytes.length + 25 := by
  have htokens : (ofAdded [reg]).toJson.tokens =
      [.openObject, .string (Json.escape "added".toList), .colon, .openArray] ++ reg.toJson.tokens ++
        [.closeArray, .comma, .string (Json.escape "removed".toList), .colon, .openArray, .closeArray,
          .closeObject] := by
    simp [toJson, ofAdded, Value.tokens, Json.itemTokens, Json.memberTokens]
  rw [length_bytes_of_tokens htokens]
  exact congrArg (reg.bytes.length + ·) (by decide +kernel)

theorem length_bytes_ofRemoved (reg : Registration) :
    (ofRemoved [reg]).bytes.length = reg.bytes.length + 25 := by
  have htokens : (ofRemoved [reg]).toJson.tokens =
      [.openObject, .string (Json.escape "added".toList), .colon, .openArray, .closeArray, .comma,
        .string (Json.escape "removed".toList), .colon, .openArray] ++ reg.toJson.tokens ++
        [.closeArray, .closeObject] := by
    simp [toJson, ofRemoved, Value.tokens, Json.itemTokens, Json.memberTokens]
  rw [length_bytes_of_tokens htokens]
  exact congrArg (reg.bytes.length + ·) (by decide +kernel)

end Patch

/-! ## The way there and back -/

namespace Wire

/-- A registration or a patch is read back as it was written exactly if it is canonical, that is if
none of its roles is a custom one with the name of a known one. Whatever body is taken for one of
them, what is read of it is canonical, and is read again of what is written for it. -/
theorem round_trip :
    (∀ r : Role, r.Canonical ↔ ∀ other : Role, other.known = true → r ≠ .custom other.text) ∧
    (∀ reg : Registration, Registration.ofBytes? reg.bytes = some reg ↔ reg.Canonical) ∧
    (∀ p : Patch, Patch.ofBytes? p.bytes = some p ↔ p.Canonical) ∧
    (∀ body reg, Registration.ofBytes? body = some reg →
      reg.Canonical ∧ Registration.ofBytes? reg.bytes = some reg) ∧
    ∀ body p, Patch.ofBytes? body = some p → p.Canonical ∧ Patch.ofBytes? p.bytes = some p := by
  refine ⟨fun r => Role.canonical_iff, fun reg => Registration.ofBytes?_bytes_eq_self_iff,
    fun p => Patch.ofBytes?_bytes_eq_self_iff, fun body reg h => ?_, fun body p h => ?_⟩
  · have hcanonical := Registration.canonical_of_ofBytes? h
    exact ⟨hcanonical, Registration.ofBytes?_bytes_eq_self_iff.mpr hcanonical⟩
  · have hcanonical := Patch.canonical_of_ofBytes? h
    exact ⟨hcanonical, Patch.ofBytes?_bytes_eq_self_iff.mpr hcanonical⟩

/-- A log in disguise is not read back as it was written. It is read as the log, which is. -/
theorem disguised_log_unmasked :
    let disguised : Registration := { role := .custom "log", url := "http://p" }
    let log : Registration := { role := .log, url := "http://p" }
    Registration.ofBytes? disguised.bytes ≠ some disguised ∧
    Registration.ofBytes? disguised.bytes = some log ∧
    Registration.ofBytes? log.bytes = some log := by
  intro disguised log
  obtain ⟨hrole, hreg, -, hread, -⟩ := round_trip
  have hlog : Registration.ofBytes? disguised.bytes = some log := disguised.ofBytes?_bytes
  refine ⟨fun hback => ?_, hlog, (hread _ _ hlog).2⟩
  exact (hrole _).mp ((hreg _).mp hback).1 .log rfl rfl

end Wire
end Rollcall
