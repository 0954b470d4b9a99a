import Rollcall.Config.Setting
import Mathlib.Data.List.Nodup

/-!
# Settings laid over one another

Settings are found in a tree of tables by a path of names, `Setting.at?`. A layer is `Uniform` if
all its values lie at one depth, as those of variables do. Laid over a base, such a layer decides at
each path of that length that it knows, and leaves the base alone at every other: `at?_merge`. What
the base has as tables stays tables, `GivesTable.merge`.
-/

namespace Rollcall.Config

/-! ## Entries -/

namespace Entries

variable {α : Type} {entries : Entries α} {name : String} {value : α}

def names (entries : Entries α) : List String := entries.map Prod.fst

theorem contains_iff : entries.contains name = true ↔ name ∈ entries.names := by
  simp [contains, names]

theorem get?_eq_none_iff : entries.get? name = none ↔ name ∉ entries.names := by
  rw [get?, Option.map_eq_none_iff, List.find?_eq_none, names, List.mem_map, not_exists]
  exact forall_congr' fun e => by simp

theorem mem_of_get? (h : entries.get? name = some value) : (name, value) ∈ entries := by
  obtain ⟨e, he, rfl⟩ := Option.map_eq_some_iff.mp h
  have hname : e.1 = name := by simpa using List.find?_some he
  rw [← hname]
  exact List.mem_of_find?_eq_some he

theorem names_insert (entries : Entries α) (name : String) (value : α) :
    (entries.insert name value).names =
      if name ∈ entries.names then entries.names else entries.names ++ [name] := by
  have hrevalue : (entries.map (revalue name value)).map Prod.fst = entries.map Prod.fst := by
    rw [List.map_map]
    refine List.map_congr_left fun e _ => ?_
    by_cases he : e.1 = name <;> simp [revalue, he]
  simp only [insert, contains_iff]
  split
  · exact hrevalue
  · exact List.map_append

theorem nodup_insert (h : entries.names.Nodup) (name : String) (value : α) :
    (entries.insert name value).names.Nodup := by
  rw [names_insert]
  split
  · exact h
  · next hnew =>
    refine List.nodup_append.mpr ⟨h, List.nodup_singleton name, fun a ha b hb hab => hnew ?_⟩
    rwa [← List.mem_singleton.mp hb, ← hab]

theorem of_mem_insert {e : String × α} (h : e ∈ entries.insert name value) :
    e = (name, value) ∨ e ∈ entries := by
  unfold insert at h
  split at h
  · obtain ⟨old, hold, rfl⟩ := List.mem_map.mp h
    by_cases hname : old.1 = name
    · exact .inl (if_pos hname)
    · rw [revalue, if_neg hname]
      exact .inr hold
  · simpa [or_comm] using h

theorem ofList_assigned (assignments : List (String × α)) :
    (∀ e ∈ ofList assignments, e ∈ assignments) ∧
      ∀ e ∈ assignments, e.1 ∈ (ofList assignments).names := by
  -- Stated for any entries to begin with, so that the induction can go on from those inserted so
  -- far.
  suffices hfold : ∀ entries : Entries α,
      let all := assignments.foldl (fun all e => insert all e.1 e.2) entries
      (∀ e ∈ all, e ∈ entries ∨ e ∈ assignments) ∧
        ∀ name, name ∈ entries.names ∨ name ∈ names assignments → name ∈ all.names by
    obtain ⟨hmem, hnames⟩ := hfold []
    refine ⟨fun e he => ?_, fun e he => hnames e.1 (.inr (List.mem_map_of_mem he))⟩
    exact (hmem e he).resolve_left List.not_mem_nil
  induction assignments with
  | nil =>
      intro entries
      exact ⟨fun e => .inl, fun name h => h.resolve_right List.not_mem_nil⟩
  | cons e rest ih =>
      intro entries
      obtain ⟨hmem, hnames⟩ := ih (entries.insert e.1 e.2)
      refine ⟨fun x hx => ?_, fun name hname => hnames name ?_⟩
      · rcases hmem x hx with hx | hx
        · rcases of_mem_insert hx with rfl | hx
          · exact .inr List.mem_cons_self
          · exact .inl hx
        · exact .inr (List.mem_cons_of_mem e hx)
      · rw [names_insert]
        rcases hname with hname | hname
        · split <;> simp [hname]
        · rcases List.mem_cons.mp hname with rfl | hname
          · split <;> simp [*]
          · exact .inr hname

end Entries

/-! ## Paths -/

namespace Setting

/-- What stands at a path of names. Only tables lead on; a list or a value is an end. -/
def at? : Setting → List String → Option Setting
  | s, [] => some s
  | .table entries, name :: path => (Entries.get? entries name).bind fun s => s.at? path
  | _, _ :: _ => none

/-- Whether a setting is a single value or a list. -/
def IsValue (s : Setting) : Prop := ∀ entries, s ≠ .table entries

theorem isValue_integer (n : Int) : IsValue (.integer n) := nofun

/-- Trees of tables with all their values at one depth, and every name of a table once. The layer
that variables make is such a tree. -/
inductive Uniform : Nat → Setting → Prop
  | value {s : Setting} (value : s.IsValue) : Uniform 0 s
  | table {depth : Nat} {entries : Entries Setting} (nodup : entries.names.Nodup)
      (each : ∀ e ∈ entries, Uniform depth e.2) : Uniform (depth + 1) (.table entries)

variable {s base layer : Setting} {path : List String} {depth : Nat}

def isTable : Setting → Bool
  | .table _ => true
  | _ => false

theorem isTable_iff : s.isTable = true ↔ ∃ entries, s = .table entries := by
  cases s <;> simp [isTable]

theorem table_or_isValue (s : Setting) : (∃ entries, s = .table entries) ∨ s.IsValue := by
  cases s with
  | table entries => exact .inl ⟨entries, rfl⟩
  | _ => exact .inr nofun

theorem at?_of_isValue (h : s.IsValue) (name : String) (path : List String) :
    s.at? (name :: path) = none := by
  cases s with
  | table entries => exact absurd rfl (h entries)
  | _ => rfl

theorem uniform_nest (h : s.IsValue) (path : List String) : Uniform path.length (nest path s) := by
  induction path with
  | nil => exact .value h
  | cons name path ih => exact .table (List.nodup_singleton name) (List.forall_mem_singleton.mpr ih)

theorem at?_nest {other : List String} (h : path.length = other.length) :
    (nest other s).at? path = if path = other then some s else none := by
  induction other generalizing path with
  | nil =>
      obtain rfl := List.eq_nil_of_length_eq_zero h
      rfl
  | cons name other ih =>
      cases path with
      | nil => cases h
      | cons first path =>
          have hrest := ih (Nat.succ.inj h)
          by_cases hname : name = first
          · subst hname
            simp [nest, at?, Entries.get?, hrest]
          · simp [nest, at?, Entries.get?, hname, Ne.symm hname]

/-! ## Layers -/

/-- What a setting comes to when it is laid on another one, which may be missing. -/
def laidOn (s : Setting) : Option Setting → Setting
  | some old => old.merge s
  | none => s

theorem merge_of_isValue (h : layer.IsValue) (base : Setting) : base.merge layer = layer := by
  cases layer with
  | table entries => exact absurd rfl (h entries)
  | _ => rw [merge]; nofun

theorem merge_table (entries layer : Entries Setting) :
    (Setting.table entries).merge (.table layer) = .table (mergeEntries entries layer) := by
  rw [merge]

theorem merge_table_of_isValue (h : base.IsValue) (layer : Entries Setting) :
    base.merge (.table layer) = .table layer := by
  cases base with
  | table entries => exact absurd rfl (h entries)
  | _ => rw [merge]; nofun

theorem mergeEntries_cons (entries : Entries Setting) (e : String × Setting)
    (rest : Entries Setting) : mergeEntries entries (e :: rest) =
      mergeEntries (entries.insert e.1 (e.2.laidOn (entries.get? e.1))) rest := by
  rw [mergeEntries]
  cases entries.get? e.1 with
  | none => rfl
  | some old => rfl

/-- Where a layer has a name, its setting is laid over the old one, and all else stays. -/
theorem get?_mergeEntries {layer : Entries Setting} (h : layer.names.Nodup)
    (entries : Entries Setting) (name : String) : (mergeEntries entries layer).get? name =
      ((layer.get? name).map fun s => s.laidOn (entries.get? name)).or (entries.get? name) := by
  induction layer generalizing entries with
  | nil =>
      rw [mergeEntries]
      rfl
  | cons e rest ih =>
      obtain ⟨hnew, hrest⟩ := List.nodup_cons.mp h
      rw [mergeEntries_cons, ih hrest, Entries.get?_insert, Entries.get?_cons]
      by_cases hname : e.1 = name
      · subst hname
        rw [Entries.get?_eq_none_iff.mpr hnew]
        simp
      · simp [hname, Ne.symm hname]

/-- At a path to its depth a layer decides if it has something there, and the base otherwise. That
is what overriding means, said of one setting at a time. -/
theorem at?_merge (h : Uniform depth layer) (hpath : path.length = depth) (base : Setting) :
    (base.merge layer).at? path = (layer.at? path).or (base.at? path) := by
  induction h generalizing path base with
  | value hvalue =>
      obtain rfl := List.eq_nil_of_length_eq_zero hpath
      rw [merge_of_isValue hvalue]
      rfl
  | @table depth layer nodup each ih =>
      cases path with
      | nil => cases hpath
      | cons name path =>
          have hlength := Nat.succ.inj hpath
          rcases base.table_or_isValue with ⟨entries, rfl⟩ | hvalue
          · rw [merge_table, at?, at?, at?, get?_mergeEntries nodup]
            cases hlayer : layer.get? name with
            | none => rfl
            | some s =>
                have hlaid := ih _ (Entries.mem_of_get? hlayer) hlength
                cases Entries.get? entries name with
                | none => exact Option.or_none.symm
                | some old => exact hlaid old
          · rw [merge_table_of_isValue hvalue, at?_of_isValue hvalue, Option.or_none]

theorem Uniform.merge (hbase : Uniform depth base) (hlayer : Uniform depth layer) :
    Uniform depth (base.merge layer) := by
  induction depth generalizing base layer with
  | zero =>
      cases hlayer with
      | value hvalue =>
          rw [merge_of_isValue hvalue]
          exact .value hvalue
  | succ depth ih =>
      cases hbase with
      | @table _ entries nodup each =>
      cases hlayer with
      | @table _ layer nodupLayer eachLayer =>
      rw [merge_table]
      -- Entry by entry: what is merged into the table so far is a table of the same depth.
      induction layer generalizing entries with
      | nil =>
          rw [mergeEntries]
          exact .table nodup each
      | cons e rest ihRest =>
          obtain ⟨he, hrest⟩ := List.forall_mem_cons.mp eachLayer
          rw [mergeEntries_cons]
          refine ihRest (Entries.nodup_insert nodup _ _) (fun x hx => ?_)
            (List.nodup_cons.mp nodupLayer).2 hrest
          rcases Entries.of_mem_insert hx with rfl | hx
          · cases hold : entries.get? e.1 with
            | none => exact he
            | some old => exact ih (each _ (Entries.mem_of_get? hold)) he
          · exact each x hx

/-! ## Groups -/

/-- Whether settings give a group as a table, or not at all. -/
def GivesTable (s : Setting) (name : String) : Prop :=
  ∀ group, s.at? [name] = some group → ∃ entries, group = .table entries

instance (s : Setting) (name : String) : Decidable (s.GivesTable name) :=
  match h : s.at? [name] with
  | none => isTrue fun group hgroup => by
      rw [h] at hgroup
      cases hgroup
  | some group =>
    if hvalue : group.isTable then isTrue fun other hother => by
      rw [h] at hother
      cases hother
      exact isTable_iff.mp hvalue
    else isFalse fun hgives => hvalue (isTable_iff.mpr (hgives group h))

theorem laidOn_table (layer : Entries Setting) (old? : Option Setting) :
    ∃ entries, (Setting.table layer).laidOn old? = .table entries := by
  cases old? with
  | none => exact ⟨layer, rfl⟩
  | some old =>
      rcases old.table_or_isValue with ⟨entries, rfl⟩ | hvalue
      · exact ⟨_, merge_table entries layer⟩
      · exact ⟨layer, merge_table_of_isValue hvalue layer⟩

theorem table_merge (base : Setting) (hlayer : Uniform (depth + 1) layer) :
    ∃ entries, base.merge layer = .table entries := by
  cases hlayer with
  | @table _ layer _ _ => exact laidOn_table layer (some base)

/-- A group stays a table under a layer whose values lie below it. -/
theorem GivesTable.merge {name : String} (hbase : base.GivesTable name)
    (hlayer : Uniform (depth + 2) layer) : (base.merge layer).GivesTable name := by
  cases hlayer with
  | @table _ layer nodup each =>
  have htable {t : Setting} (ht : layer.get? name = some t) : ∃ entries, t = .table entries := by
    cases each _ (Entries.mem_of_get? ht) with
    | table _ _ => exact ⟨_, rfl⟩
  intro group h
  rcases base.table_or_isValue with ⟨entries, rfl⟩ | hvalue
  · rw [merge_table, at?, get?_mergeEntries nodup] at h
    cases hget : layer.get? name with
    | none =>
        rw [hget] at h
        exact hbase group h
    | some t =>
        obtain ⟨inner, rfl⟩ := htable hget
        rw [hget] at h
        obtain rfl := Option.some.inj h
        exact laidOn_table inner _
  · rw [merge_table_of_isValue hvalue] at h
    obtain ⟨t, ht, hat⟩ := Option.bind_eq_some_iff.mp h
    obtain rfl := Option.some.inj hat
    exact htable ht

end Setting
end Rollcall.Config
