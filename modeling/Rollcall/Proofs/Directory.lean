import Mathlib.Algebra.BigOperators.Finprod
import Mathlib.Data.List.Nodup
import Rollcall.Directory

/-!
# Laws of the directory

What an admission and a departure do to the list of entries, said once for each of them:

* `Directory.enroll_cases` — an admission appends one entry or changes nothing;
* `Directory.takeFirst?_split` — a departure cuts one entry out of the list.

`Directory.Sound` is what every directory of a registry satisfies: no instance twice and no
identifier twice. Admissions under a fresh identifier and departures keep it, and in a sound
directory an entry is known by its identifier as well as by its role and address.

Of the readers, `mem_catchUp`, `filter_catchUp` and `catchUp_sorted` say what a registrant is told, and
in which order, and `finsum_length_ofRole` that the roles share out the entries among them.
-/

namespace Rollcall

theorem RoleSet.nodup (s : RoleSet) : s.toList.Nodup := by
  refine s.sorted.imp ?_
  rintro role _ hbefore rfl
  have hself : compare role role = .eq := Std.ReflCmp.compare_self
  rw [Role.Before, hself] at hbefore
  cases hbefore

/-! ## Instances -/

theorem Registration.sameInstance_iff {a b : Registration} :
    a.sameInstance b = true ↔ a.role = b.role ∧ a.url = b.url := by
  simp [Registration.sameInstance]

/-- Where an instance is kept: its role and its address. -/
def Registration.slot (reg : Registration) : Role × String := (reg.role, reg.url)

theorem Registration.sameInstance_iff_slot {a b : Registration} :
    a.sameInstance b = true ↔ a.slot = b.slot := by
  rw [sameInstance_iff, slot, slot, Prod.mk.injEq]

@[simp] theorem Registration.sameInstance_self (a : Registration) : a.sameInstance a = true := by
  simp [Registration.sameInstance]

theorem Registration.sameInstance_comm (a b : Registration) :
    a.sameInstance b = b.sameInstance a := by
  simp only [Registration.sameInstance, eq_comm]

theorem Registration.sameInstance_congr {a b : Registration} (h : a.sameInstance b = true)
    (c : Registration) : a.sameInstance c = b.sameInstance c := by
  obtain ⟨hrole, hurl⟩ := Registration.sameInstance_iff.mp h
  simp only [Registration.sameInstance, hrole, hurl]

@[simp] theorem Registration.sameInstance_withId (a reg : Registration) (id : InstanceId) :
    a.sameInstance { reg with id := id } = a.sameInstance reg := rfl

@[simp] theorem Registration.withId_sameInstance (a reg : Registration) (id : InstanceId) :
    Registration.sameInstance { reg with id := id } a = reg.sameInstance a := rfl

namespace Directory

theorem isAt_iff {role : Role} {url : String} {entry : Registration} :
    isAt role url entry = true ↔ entry.role = role ∧ entry.url = url := by
  simp [isAt]

theorem mem_ofRole {d : Directory} {role : Role} {entry : Registration} :
    entry ∈ d.ofRole role ↔ entry ∈ d.entries ∧ entry.role = role := by
  simp [ofRole]

theorem isRegistered_iff {d : Directory} {id : InstanceId} :
    d.isRegistered id = true ↔ ∃ entry ∈ d.entries, entry.id = id := by
  simp [isRegistered]

theorem mem_others {d : Directory} {subject entry : Registration} :
    entry ∈ d.others subject ↔ entry ∈ d.entries ∧ entry.sameInstance subject = false := by
  simp [others]

theorem ofRole_concat (d : Directory) (entry : Registration) (role : Role) :
    (⟨d.entries ++ [entry]⟩ : Directory).ofRole role =
      d.ofRole role ++ if entry.role = role then [entry] else [] := by
  rw [ofRole, List.filter_append]
  by_cases hsame : entry.role = role
  · simp [hsame, ofRole]
  · simp [hsame, ofRole]

/-- The entry of a role and an address stands in the list of the role. -/
theorem find?_eq (d : Directory) (role : Role) (url : String) :
    d.find? role url = (d.ofRole role).find? (·.url = url) := by
  rw [find?, ofRole, List.find?_filter]
  congr 1
  funext entry
  simp [isAt]

theorem filter_flatMap_ofRole (d : Directory) {roles : List Role} (hnodup : roles.Nodup)
    {role : Role} (hmem : role ∈ roles) :
    (roles.flatMap d.ofRole).filter (·.role = role) = d.ofRole role := by
  have hsame : (d.ofRole role).filter (·.role = role) = d.ofRole role :=
    List.filter_eq_self.mpr fun entry hentry => decide_eq_true (mem_ofRole.mp hentry).2
  have hother : ∀ rest : List Role, role ∉ rest →
      (rest.flatMap d.ofRole).filter (·.role = role) = [] := by
    intro rest hnot
    refine List.filter_eq_nil_iff.mpr fun entry hentry hrole => hnot ?_
    obtain ⟨other, hother, hin⟩ := List.mem_flatMap.mp hentry
    rw [← of_decide_eq_true hrole, (mem_ofRole.mp hin).2]
    exact hother
  -- By induction on the roles: the list of one of them is the wanted one, and the others add
  -- nothing.
  induction roles with
  | nil => cases hmem
  | cons first rest ih =>
      obtain ⟨hnot, hrest⟩ := List.nodup_cons.mp hnodup
      rw [List.flatMap_cons, List.filter_append]
      rcases List.mem_cons.mp hmem with rfl | hmem
      · rw [hsame, hother rest hnot, List.append_nil]
      · have hne : first ≠ role := by
          rintro rfl
          exact hnot hmem
        have hfirst := hother [first] (by simpa using hne.symm)
        rw [List.flatMap_cons, List.flatMap_nil, List.append_nil] at hfirst
        rw [hfirst, List.nil_append, ih hrest hmem]

/-! ## Admissions -/

/-- An admission finds the instance and leaves the directory alone, or finds nobody and appends
the registration under its new identifier. -/
theorem enroll_cases (d : Directory) (id : InstanceId) (reg : Registration) :
    (∃ kept ∈ d.entries, kept.sameInstance reg = true ∧
      d.enroll id reg = (d, ⟨id, { reg with id := id }, kept, false⟩)) ∨
    ((∀ entry ∈ d.entries, entry.sameInstance reg = false) ∧
      d.enroll id reg = (⟨d.entries ++ [{ reg with id := id }]⟩,
        ⟨id, { reg with id := id }, { reg with id := id }, true⟩)) := by
  cases hfind : d.find? reg.role reg.url with
  | some kept =>
      left
      have hat := List.find?_some hfind
      refine ⟨kept, List.mem_of_find?_eq_some hfind, ?_, ?_⟩
      · exact Registration.sameInstance_iff.mpr (isAt_iff.mp hat)
      · simp only [enroll, hfind]
  | none =>
      right
      refine ⟨?_, ?_⟩
      · intro entry hmem
        have hnot := List.find?_eq_none.mp hfind entry hmem
        rw [isAt_iff, ← Registration.sameInstance_iff, Bool.not_eq_true] at hnot
        exact hnot
      · simp only [enroll, hfind]

theorem ofRole_enroll (d : Directory) (id : InstanceId) (reg : Registration) (role : Role) :
    (d.enroll id reg).1.ofRole role = if ((d.ofRole reg.role).find? (·.url = reg.url)).isSome
      then d.ofRole role
      else d.ofRole role ++ if reg.role = role then [{ reg with id := id }] else [] := by
  rw [← d.find?_eq, enroll]
  cases d.find? reg.role reg.url with
  | some kept => rfl
  | none => exact d.ofRole_concat { reg with id := id } role

/-! ## Departures -/

/-- A departure cuts one entry out of the list, the first one with the property. All others keep
their order. -/
theorem takeFirst?_split {d d' : Directory} {p : Registration → Bool} {gone : Registration}
    (h : d.takeFirst? p = some (gone, d')) :
    p gone = true ∧ ∃ front back, d.entries = front ++ gone :: back ∧
      d'.entries = front ++ back := by
  obtain ⟨entry, hfind, hpair⟩ := Option.map_eq_some_iff.mp h
  obtain ⟨rfl, rfl⟩ := Prod.mk.inj hpair
  obtain ⟨hp, front, back, hsplit, hfront⟩ := List.find?_eq_some_iff_append.mp hfind
  refine ⟨hp, front, back, hsplit, ?_⟩
  have hnone : ∀ a ∈ front, ¬ p a = true := by
    intro a ha
    simpa using hfront a ha
  show d.entries.eraseP p = front ++ back
  rw [hsplit, List.eraseP_append_right _ hnone, List.eraseP_cons_of_pos hp]

/-- Nothing can be taken out exactly when no entry has the property. -/
theorem takeFirst?_eq_none {d : Directory} {p : Registration → Bool} :
    d.takeFirst? p = none ↔ ∀ entry ∈ d.entries, p entry = false := by
  simp [takeFirst?]

/-! ## Sound directories -/

/-- No instance is listed twice, and no identifier belongs to two entries. An admission under a
fresh identifier keeps this, and so does every departure. -/
structure Sound (d : Directory) : Prop where
  instances : d.entries.Pairwise fun a b => a.sameInstance b = false
  ids : (d.entries.map (·.id)).Nodup

namespace Sound

instance : Std.Symm fun a b : Registration => a.sameInstance b = false where
  symm a b h := by rw [Registration.sameInstance_comm, h]

variable {d : Directory}

theorem empty : Sound {} := ⟨List.Pairwise.nil, List.nodup_nil⟩

theorem nodup (h : d.Sound) : d.entries.Nodup := h.ids.of_map

/-- An entry is known by its identifier: two entries with the same one are one entry. -/
theorem eq_of_id (h : d.Sound) {a b : Registration} (ha : a ∈ d.entries) (hb : b ∈ d.entries)
    (hid : a.id = b.id) : a = b :=
  List.inj_on_of_nodup_map h.ids ha hb hid

/-- An entry is known by its role and address. -/
theorem eq_of_sameInstance (h : d.Sound) {a b : Registration} (ha : a ∈ d.entries)
    (hb : b ∈ d.entries) (hsame : a.sameInstance b = true) : a = b := by
  by_contra hne
  have hdiff : a.sameInstance b = false := h.instances.forall ha hb hne
  rw [hsame] at hdiff
  cases hdiff

/-- The others of an entry are all entries but that one, although they are found by role and
address. -/
theorem mem_others (h : d.Sound) {subject entry : Registration} (hsubject : subject ∈ d.entries) :
    entry ∈ d.others subject ↔ entry ∈ d.entries ∧ entry ≠ subject := by
  rw [Directory.mem_others]
  refine and_congr_right fun hentry => ⟨?_, fun hne => ?_⟩
  · rintro hdiff rfl
    rw [Registration.sameInstance_self] at hdiff
    cases hdiff
  · rw [← Bool.not_eq_true]
    exact fun hsame => hne (h.eq_of_sameInstance hentry hsubject hsame)

/-- An admission under an identifier that no entry carries keeps a directory sound. -/
theorem enroll (h : d.Sound) {id : InstanceId} (hfresh : ∀ entry ∈ d.entries, entry.id ≠ id)
    (reg : Registration) : (d.enroll id reg).1.Sound := by
  rcases d.enroll_cases id reg with ⟨kept, -, -, heq⟩ | ⟨hnew, heq⟩
  · rw [heq]
    exact h
  · rw [heq]
    refine ⟨?_, ?_⟩
    · refine List.pairwise_append.mpr ⟨h.instances, List.pairwise_singleton _ _, ?_⟩
      intro a ha b hb
      obtain rfl := List.mem_singleton.mp hb
      exact hnew a ha
    · rw [List.map_append]
      refine List.nodup_append.mpr ⟨h.ids, List.nodup_singleton _, ?_⟩
      intro a ha b hb
      obtain ⟨entry, hentry, rfl⟩ := List.mem_map.mp ha
      obtain rfl := List.mem_singleton.mp hb
      exact hfresh entry hentry

/-- Taking entries out keeps a directory sound. -/
theorem sublist (h : d.Sound) {d' : Directory} (hsub : d'.entries.Sublist d.entries) :
    d'.Sound :=
  ⟨h.instances.sublist hsub, h.ids.sublist (hsub.map _)⟩

/-- Within a role every address belongs to one entry. -/
theorem urls_nodup (h : d.Sound) (role : Role) : ((d.ofRole role).map (·.url)).Nodup := by
  refine List.pairwise_map.mpr ?_
  refine (h.instances.sublist List.filter_sublist).imp_of_mem ?_
  intro a b ha hb hdiff hurl
  have hrole : a.role = b.role := (mem_ofRole.mp ha).2.trans (mem_ofRole.mp hb).2.symm
  rw [Registration.sameInstance_iff.mpr ⟨hrole, hurl⟩] at hdiff
  cases hdiff

end Sound

/-! ## Catch-ups -/

/-- A registrant is told of all providers of the roles that it depends on, itself left out. -/
theorem mem_catchUp {d : Directory} {reg entry : Registration} :
    entry ∈ (d.catchUp reg).added ↔
      entry ∈ d.entries ∧ reg.dependsOn entry.role = true ∧ entry.sameInstance reg = false := by
  show entry ∈ (reg.requires.toList.flatMap d.ofRole).filter (!·.sameInstance reg) ↔ _
  rw [List.mem_filter, List.mem_flatMap, Bool.not_eq_true', ← and_assoc]
  refine and_congr_left fun _ => ?_
  constructor
  · rintro ⟨role, hrole, hin⟩
    obtain ⟨hentry, rfl⟩ := mem_ofRole.mp hin
    exact ⟨hentry, List.contains_iff_mem.mpr hrole⟩
  · rintro ⟨hentry, hasked⟩
    exact ⟨entry.role, List.contains_iff_mem.mp hasked, mem_ofRole.mpr ⟨hentry, rfl⟩⟩

/-- Of each role that a registrant depends on it is told the providers in their order. -/
theorem filter_catchUp (d : Directory) {reg : Registration} {role : Role}
    (hasked : reg.dependsOn role = true) : (d.catchUp reg).added.filter (·.role = role) =
      (d.ofRole role).filter (!·.sameInstance reg) := by
  show ((reg.requires.toList.flatMap d.ofRole).filter _).filter _ = _
  rw [List.filter_comm, d.filter_flatMap_ofRole reg.requires.nodup
    (List.contains_iff_mem.mp hasked)]

/-- The roles in a catch-up come in their order. -/
theorem catchUp_sorted (d : Directory) (reg : Registration) :
    (d.catchUp reg).added.Pairwise fun a b => a.role = b.role ∨ a.role.Before b.role := by
  refine List.Pairwise.filter _ (List.pairwise_flatMap.mpr ⟨fun role _ => ?_, ?_⟩)
  · refine List.pairwise_of_forall_mem_list fun a ha b hb => Or.inl ?_
    rw [(mem_ofRole.mp ha).2, (mem_ofRole.mp hb).2]
  · refine reg.requires.sorted.imp fun hbefore a ha b hb => Or.inr ?_
    rwa [(mem_ofRole.mp ha).2, (mem_ofRole.mp hb).2]

theorem catchUp_congr {d d' : Directory} (h : ∀ role, d.ofRole role = d'.ofRole role)
    (reg : Registration) : d.catchUp reg = d'.catchUp reg := by
  rw [catchUp, catchUp, show d.ofRole = d'.ofRole from funext h]

/-- A registrant is told the same whether its own admission has been made or not, since it is left
out in any case. -/
theorem catchUp_enroll (d : Directory) (id : InstanceId) (reg : Registration) :
    (d.enroll id reg).1.catchUp reg = d.catchUp reg := by
  rcases d.enroll_cases id reg with ⟨kept, -, -, heq⟩ | ⟨-, heq⟩
  · rw [heq]
  · rw [heq, catchUp, catchUp, List.filter_flatMap, List.filter_flatMap]
    congr 2
    funext role
    rw [ofRole_concat, List.filter_append]
    split
    · simp
    · simp

/-- No entry is told twice: each has one role, and the roles are all different. -/
theorem Sound.nodup_catchUp {d : Directory} (h : d.Sound) (reg : Registration) :
    (d.catchUp reg).added.Nodup := by
  refine (List.nodup_flatMap.mpr ⟨fun role _ => h.nodup.filter _, ?_⟩).filter _
  refine reg.requires.nodup.imp fun hne entry ha hb => hne ?_
  rw [← (mem_ofRole.mp ha).2, (mem_ofRole.mp hb).2]

/-! ## Readers -/

theorem length_ofRole (d : Directory) (role : Role) :
    (d.ofRole role).length = (d.entries.map (·.role)).count role := by
  rw [ofRole, ← List.countP_eq_length_filter, List.count, List.countP_map]
  rfl

/-- The roles share out the entries among them: the lengths of their lists add up to the size. -/
theorem finsum_length_ofRole (d : Directory) :
    (finsum fun role => (d.ofRole role).length) = d.size := by
  let roles := d.entries.map (·.role)
  have hsupport : (Function.support fun role => (d.ofRole role).length) ⊆ ↑roles.toFinset := by
    intro role hrole
    rw [Function.mem_support, length_ofRole] at hrole
    exact List.mem_toFinset.mpr (List.count_pos_iff.mp (Nat.pos_of_ne_zero hrole))
  rw [finsum_eq_sum_of_support_subset _ hsupport]
  calc ∑ role ∈ roles.toFinset, (d.ofRole role).length
      = ∑ role ∈ roles.toFinset, Multiset.count role ↑roles := by
        refine Finset.sum_congr rfl fun role _ => ?_
        rw [length_ofRole, Multiset.coe_count]
    _ = Multiset.card (roles : Multiset Role) := Multiset.toFinset_sum_count_eq _
    _ = d.size := by simp [roles, size]

end Directory
end Rollcall
