import Rollcall.Proofs.Registration
import Mathlib.Data.List.Sort
import Mathlib.Order.Defs.Unbundled

/-!
# Requirements have one form

Roles are ordered strictly and totally: the known ones as they are declared, before all others, and
the others by the code points of their names. So a list of roles is increasing in one way at most, and
what an instance requires depends on the roles that were declared, but not on how often or in which
order: `requirements_canonical`. Every way to read a role gives the same one for the same name.
-/

namespace Rollcall

open Json (Value)

/-! ## The order of roles -/

namespace Role

/-- The known roles, in the order of their declaration. -/
def declared : List Role := [log, proxyNode, web, payment, shell, user]

instance : IsStrictTotalOrder Role Before where
  irrefl := before_irrefl
  trans _ _ _ := before_trans
  trichotomous a b hab hba := by
    by_contra hne
    exact hba (before_of_not hab hne)

theorem rank_lt_of_known {r : Role} (h : r.known = true) : r.rank < 6 := by
  cases r with
  | custom name => cases h
  | _ => decide

theorem before_of_rank_lt {a b : Role} (h : a.rank < b.rank) : a.Before b := by
  have hrank : compareOn rank a b = .lt := Nat.compare_eq_lt.mpr h
  show (compareOn rank a b).then (compareOn text a b) = .lt
  rw [hrank]
  rfl

theorem before_custom_of_known {r : Role} (h : r.known = true) (name : String) :
    r.Before (.custom name) :=
  before_of_rank_lt (rank_lt_of_known h)

theorem declared_increasing : declared.Pairwise Before := by
  have hrank : declared.Pairwise fun a b => a.rank < b.rank := by decide
  exact hrank.imp before_of_rank_lt

theorem mem_declared_iff {r : Role} : r ∈ declared ↔ r.known = true := by
  cases r with
  | custom name => simp [declared, known]
  | _ => decide

theorem custom_before_custom_iff {a b : String} : (custom a).Before (custom b) ↔ a < b :=
  compareOfLessAndEq_eq_lt

/-! ## Ways to read a role -/

theorem ofOwned_eq (name : String) : ofOwned name = ofText name := by
  have hname := text_ofText name
  unfold ofOwned
  split
  · next other hother =>
    rw [hother] at hname
    rw [hother, ← show other = name from hname]
  · rfl

/-- The roles that are read back from their names are those that names are read as. -/
theorem ofText_text_iff {r : Role} : ofText r.text = r ↔ ∃ name, r = ofText name := by
  constructor
  · intro h
    exact ⟨r.text, h.symm⟩
  · rintro ⟨name, rfl⟩
    rw [text_ofText]

theorem bind_ofJson? (bytes : Text.Bytes) : (Value.ofBytes? bytes).bind ofJson? =
    ((Value.ofBytes? bytes).bind Value.text?).map ofText := by
  cases Value.ofBytes? bytes with
  | none => rfl
  | some v => rfl

theorem ofBytes?_render (name : String) :
    (Value.ofBytes? (Value.text name).render).bind ofJson? = some (ofText name) := by
  rw [bind_ofJson?, Value.ofBytes?_render (Value.sound_text name), Option.bind_some, Json.text?_text]
  rfl

end Role

/-! ## Sets of roles -/

namespace RoleSet

/-- The members of the set of a list are the one increasing list with the same roles. So a set does
not remember in which order, or how often, its members were declared. -/
theorem toList_ofList_eq_iff {rs sorted : List Role} : (ofList rs).toList = sorted ↔
    sorted.Pairwise Role.Before ∧ ∀ r, r ∈ sorted ↔ r ∈ rs := by
  constructor
  · rintro rfl
    exact ⟨(ofList rs).sorted, fun r => mem_ofList⟩
  · rintro ⟨hsorted, hmem⟩
    refine (ofList rs).sorted.eq_of_mem_iff hsorted fun r => ?_
    rw [mem_ofList, hmem]

theorem ofList_eq_iff {rs rs' : List Role} : ofList rs = ofList rs' ↔ ∀ r, r ∈ rs ↔ r ∈ rs' := by
  constructor
  · intro h r
    rw [← mem_ofList, h, mem_ofList]
  · intro h
    refine ext (toList_ofList_eq_iff.mpr ⟨(ofList rs').sorted, fun r => ?_⟩)
    rw [mem_ofList, h]

theorem contains_iff {s : RoleSet} {r : Role} : s.contains r = true ↔ r ∈ s.toList :=
  List.contains_iff_mem

end RoleSet

/-! ## Registrations -/

namespace Registration

/-- A registration whose requirements are those of a list, declared one after the other. -/
def requiring (reg : Registration) (rs : List Role) : Registration :=
  rs.foldl addRequirement { reg with requires := {} }

theorem foldl_addRequirement (reg : Registration) (rs : List Role) :
    rs.foldl addRequirement reg = { reg with requires := rs.foldl RoleSet.insert reg.requires } := by
  induction rs generalizing reg with
  | nil => rfl
  | cons r rs ih => exact ih (reg.addRequirement r)

theorem requiring_eq (reg : Registration) (rs : List Role) :
    reg.requiring rs = { reg with requires := .ofList rs } :=
  foldl_addRequirement _ rs

theorem requiring_eq_iff {reg : Registration} {rs rs' : List Role} :
    reg.requiring rs = reg.requiring rs' ↔ ∀ r, r ∈ rs ↔ r ∈ rs' := by
  rw [requiring_eq, requiring_eq, ← RoleSet.ofList_eq_iff]
  constructor
  · intro h
    exact congrArg Registration.requires h
  · intro h
    rw [h]

/-- The order of roles is a strict total one that agrees with equality, the known roles in the order
of their declaration before all others and the others by code points. The requirements of a
registration are the increasing list of the roles that were declared; two registrations that differ
in nothing but how these were listed are equal, and so are their bytes. A name is the same role
however it is read, and a role that was read is read back from its name. -/
theorem requirements_canonical :
    (IsStrictTotalOrder Role Role.Before ∧ (∀ a b : Role, compare a b = .eq ↔ a = b) ∧
      Role.declared.Pairwise Role.Before ∧ (∀ r, r ∈ Role.declared ↔ r.known = true) ∧
      (∀ (r : Role) name, r.known = true → r.Before (.custom name)) ∧
      ∀ a b, (Role.custom a).Before (.custom b) ↔
        List.Lex (fun c d : Char => c.toNat < d.toNat) a.toList b.toList) ∧
    (∀ (reg : Registration) (rs : List Role),
      (∀ sorted, (reg.requiring rs).requires.toList = sorted ↔
        sorted.Pairwise Role.Before ∧ ∀ r, r ∈ sorted ↔ r ∈ rs) ∧
      (∀ r, (reg.requiring rs).dependsOn r = true ↔ r ∈ rs) ∧
      ∀ rs', (reg.requiring rs = reg.requiring rs' ↔ ∀ r, r ∈ rs ↔ r ∈ rs') ∧
        ((∀ r, r ∈ rs ↔ r ∈ rs') → (reg.requiring rs).bytes = (reg.requiring rs').bytes)) ∧
    (∀ name, Role.ofOwned name = Role.ofText name ∧ Role.parse name = .ok (Role.ofText name) ∧
      (Value.ofBytes? (Value.text name).render).bind Role.ofJson? = some (Role.ofText name)) ∧
    (∀ bytes, (Value.ofBytes? bytes).bind Role.ofJson? =
      ((Value.ofBytes? bytes).bind Value.text?).map Role.ofText) ∧
    ∀ r : Role, Role.ofText r.text = r ↔ ∃ name, r = Role.ofText name := by
  refine ⟨⟨inferInstance, fun _ _ => Std.LawfulEqOrd.compare_eq_iff_eq, Role.declared_increasing,
    fun _ => Role.mem_declared_iff, fun _ name h => Role.before_custom_of_known h name,
    fun _ _ => Role.custom_before_custom_iff⟩, fun reg rs => ⟨?_, ?_, ?_⟩, ?_, Role.bind_ofJson?,
    fun _ => Role.ofText_text_iff⟩
  · intro sorted
    rw [requiring_eq]
    exact RoleSet.toList_ofList_eq_iff
  · intro r
    rw [requiring_eq, dependsOn, RoleSet.contains_iff, RoleSet.mem_ofList]
  · intro rs'
    exact ⟨requiring_eq_iff, fun h => by rw [requiring_eq_iff.mpr h]⟩
  · intro name
    exact ⟨Role.ofOwned_eq name, rfl, Role.ofBytes?_render name⟩

/-- An instance that declares three roles in another order, and one of them twice, is written
alike. -/
theorem web_requires_three :
    let web : Registration := { role := .web, url := "http://w", updateUrl := "http://w/services" }
    let rs : List Role := [.custom "ledger", .log, .custom "audit", .log]
    let rs' : List Role := [.log, .custom "audit", .custom "ledger"]
    (web.requiring rs).bytes = (web.requiring rs').bytes ∧
      (web.requiring rs).requires.toList = rs' ∧ Role.user.Before (.custom "audit") := by
  intro web rs rs'
  obtain ⟨⟨-, -, -, -, hknown, -⟩, hrequiring, -⟩ := requirements_canonical
  obtain ⟨htoList, -, hsame⟩ := hrequiring web rs
  have hmem : ∀ r, r ∈ rs ↔ r ∈ rs' := by simp [rs, rs']; grind
  refine ⟨(hsame rs').2 hmem, (htoList rs').mpr ⟨by decide +kernel, fun r => (hmem r).symm⟩, ?_⟩
  exact hknown .user "audit" rfl

end Registration
end Rollcall
