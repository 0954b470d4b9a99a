import Rollcall.Json.Record
import Rollcall.Proofs.Json.Value

/-!
# Records are read back

A record is written as an object with a member for each of its fields, but for those that are left
out. Its reader finds the values of all fields again, `fields?_written`, as long as no two fields have
the same name.
-/

namespace Rollcall.Json

open Text (Bytes)

section Fields

variable {φ : Type} (name : φ → String) (value? : φ → Option Value)

/-- The members that are written for fields, those left out that have no value. -/
def written (fields : List φ) : List (Bytes × Value) :=
  fields.filterMap fun f => (value? f).map fun v => (escape (name f).toList, v)

/-- The same members, by the names of the fields. -/
def named (fields : List φ) : List (String × Value) :=
  fields.filterMap fun f => (value? f).map fun v => (name f, v)

variable {name value?} {fields : List φ} {f : φ}

theorem written_cons : written name value? (f :: fields) =
    ((value? f).map fun v => (escape (name f).toList, v)).toList ++ written name value? fields := by
  unfold written
  cases h : value? f with
  | none => rw [List.filterMap_cons_none (by rw [h]; rfl)]; rfl
  | some v => rw [List.filterMap_cons_some (by rw [h]; rfl)]; rfl

theorem named_cons : named name value? (f :: fields) =
    ((value? f).map fun v => (name f, v)).toList ++ named name value? fields := by
  unfold named
  cases h : value? f with
  | none => rw [List.filterMap_cons_none (by rw [h]; rfl)]; rfl
  | some v => rw [List.filterMap_cons_some (by rw [h]; rfl)]; rfl

theorem keyed?_written (fields : List φ) :
    keyed? (written name value? fields) = some (named name value? fields) := by
  induction fields with
  | nil => rfl
  | cons f fields ih =>
      rw [written_cons, named_cons]
      cases value? f with
      | none => exact ih
      | some v =>
          show keyed? ((escape (name f).toList, v) :: written name value? fields) = _
          rw [keyed?] at ih ⊢
          rw [List.mapM_cons, ih]
          dsimp only
          rw [unescape?_escape]
          simp

theorem filter_named_of_not_mem {x : String} (h : x ∉ fields.map name) :
    (named name value? fields).filter (·.1 = x) = [] := by
  refine List.filter_eq_nil_iff.mpr fun member hmember hx => ?_
  obtain ⟨f, hf, hvalue⟩ := List.mem_filterMap.mp hmember
  obtain ⟨v, -, rfl⟩ := Option.map_eq_some_iff.mp hvalue
  rw [← of_decide_eq_true hx] at h
  exact h (List.mem_map_of_mem hf)

theorem filter_named (hnodup : (fields.map name).Nodup) (hf : f ∈ fields) :
    (named name value? fields).filter (·.1 = name f) =
      ((value? f).map fun v => (name f, v)).toList := by
  induction fields with
  | nil => cases hf
  | cons g fields ih =>
      rw [List.map_cons, List.nodup_cons] at hnodup
      obtain ⟨hnot, hnodup⟩ := hnodup
      rw [named_cons, List.filter_append]
      rcases List.mem_cons.mp hf with rfl | hf
      · rw [filter_named_of_not_mem hnot, List.append_nil]
        cases value? f with
        | none => rfl
        | some v => simp
      · have hne : name g ≠ name f := by
          intro heq
          rw [heq] at hnot
          exact hnot (List.mem_map_of_mem hf)
        rw [ih hnodup hf]
        cases value? g with
        | none => rfl
        | some v => simp [hne]

theorem field?_named (hnodup : (fields.map name).Nodup) (hf : f ∈ fields) :
    field? (named name value? fields) (name f) = some (value? f) := by
  rw [field?, filter_named hnodup hf]
  cases value? f with
  | none => rfl
  | some v => rfl

theorem mapM_field?_named {part : List φ} (hnodup : (fields.map name).Nodup) (hsub : part ⊆ fields) :
    (part.map name).mapM (field? (named name value? fields)) = some (part.map value?) := by
  induction part with
  | nil => rfl
  | cons f rest ih =>
      obtain ⟨hf, hrest⟩ := List.cons_subset.mp hsub
      rw [List.map_cons, List.mapM_cons, field?_named hnodup hf, ih hrest]
      rfl

theorem fields?_written (hnodup : (fields.map name).Nodup) :
    fields? (fields.map name) (.object (written name value? fields)) = some (fields.map value?) := by
  simp only [fields?, keyed?_written, Option.bind_eq_bind, Option.bind_some,
    mapM_field?_named hnodup (List.Subset.refl fields)]

end Fields

theorem sound_written {φ : Type} {name : φ → String} {value? : φ → Option Value} {fields : List φ}
    (h : ∀ f ∈ fields, ∀ v, value? f = some v → v.Sound) :
    (Value.object (written name value? fields)).Sound := by
  refine Value.sound_object fun member hmember => ?_
  obtain ⟨f, hf, hvalue⟩ := List.mem_filterMap.mp hmember
  obtain ⟨v, hv, rfl⟩ := Option.map_eq_some_iff.mp hvalue
  exact ⟨Lexer.quotable_escape _, h f hf v hv⟩

theorem exists_of_mem_mapM {α β : Type} {read : α → Option β} {xs : List α} {ys : List β}
    (h : xs.mapM read = some ys) {y : β} (hy : y ∈ ys) : ∃ x ∈ xs, read x = some y := by
  induction xs generalizing ys with
  | nil =>
      obtain rfl := Option.some.inj h
      cases hy
  | cons x xs ih =>
      rw [List.mapM_cons] at h
      obtain ⟨first, hfirst, h⟩ := Option.bind_eq_some_iff.mp h
      obtain ⟨rest, hrest, h⟩ := Option.bind_eq_some_iff.mp h
      obtain rfl := Option.some.inj h
      rcases List.mem_cons.mp hy with rfl | hy
      · exact ⟨x, List.mem_cons_self, hfirst⟩
      · obtain ⟨other, hother, hread⟩ := ih hrest hy
        exact ⟨other, List.mem_cons_of_mem x hother, hread⟩

theorem exists_of_mapM {α β : Type} {read : α → Option β} {xs : List α} {ys : List β}
    (h : xs.mapM read = some ys) {x : α} (hx : x ∈ xs) : ∃ y, read x = some y := by
  induction xs generalizing ys with
  | nil => cases hx
  | cons first xs ih =>
      rw [List.mapM_cons] at h
      obtain ⟨y, hy, h⟩ := Option.bind_eq_some_iff.mp h
      obtain ⟨rest, hrest, -⟩ := Option.bind_eq_some_iff.mp h
      rcases List.mem_cons.mp hx with rfl | hx
      · exact ⟨y, hy⟩
      · exact ih hrest hx

theorem list?_map {α β : Type} {read : Value → Option β} {write : α → Value} {back : α → β}
    {xs : List α} (h : ∀ x ∈ xs, read (write x) = some (back x)) :
    (Value.array (xs.map write)).list? read = some (xs.map back) := by
  show (xs.map write).mapM read = some (xs.map back)
  induction xs with
  | nil => rfl
  | cons x xs ih =>
      obtain ⟨hx, hxs⟩ := List.forall_mem_cons.mp h
      rw [List.map_cons, List.mapM_cons, hx, ih hxs]
      rfl

end Rollcall.Json
