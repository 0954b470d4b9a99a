import Mathlib.Data.List.Nodup
import Rollcall.Proofs.ProviderCache

/-!
# What a cache can hold

Nothing restricts what a patch contains: identifiers may be missing or belong to two instances, an
instance may be listed twice, or come and go in one patch. Whatever is taken in, every instance is
known once and under a known role, `ProviderCache.Tidy`.

* `ProviderCache.Tidy.add`, `ProviderCache.Tidy.remove` — either half of a patch keeps that;
* `ProviderCache.get_remove` — a removal drops one provider at most, and of its own role;
* `ProviderCache.mem_roles_run` — the known roles are those named since the cache was last cleared;
* `ProviderCache.contents_of_run` — what this means to a reader.
-/

namespace Rollcall

namespace ProviderCache

variable {c : ProviderCache}

/-! ## Every instance once -/

/-- Every instance is known once and under a known role, and every role is known once. An empty
cache is tidy, and whatever is done to a cache keeps it so. -/
structure Tidy (c : ProviderCache) : Prop where
  once : (c.entries.map Registration.slot).Nodup
  roles : c.roles.Nodup
  known : ∀ entry ∈ c.entries, entry.role ∈ c.roles

theorem Tidy.empty : Tidy {} where
  once := List.nodup_nil
  roles := List.nodup_nil
  known := nofun

theorem mem_entries_add {reg entry : Registration} (h : entry ∈ (c.add reg).entries) :
    entry = reg ∨ entry ∈ c.entries := by
  simp only [add] at h
  split at h
  · obtain ⟨known, hknown, rfl⟩ := List.mem_map.mp h
    split
    · exact Or.inl rfl
    · exact Or.inr hknown
  · rw [List.mem_append, List.mem_singleton] at h
    exact h.symm

theorem slots_add (c : ProviderCache) (reg : Registration) :
    (c.add reg).entries.map Registration.slot =
      if reg.slot ∈ c.entries.map Registration.slot then c.entries.map Registration.slot
      else c.entries.map Registration.slot ++ [reg.slot] := by
  have hany : c.entries.any (·.sameInstance reg) = true ↔
      reg.slot ∈ c.entries.map Registration.slot := by
    simp only [List.any_eq_true, Registration.sameInstance_iff_slot, List.mem_map]
  simp only [add]
  by_cases hthere : reg.slot ∈ c.entries.map Registration.slot
  · rw [if_pos hthere, if_pos (hany.mpr hthere), List.map_map]
    apply List.map_congr_left
    intro known _
    dsimp only [Function.comp_apply]
    split
    · next hsame => exact (Registration.sameInstance_iff_slot.mp hsame).symm
    · rfl
  · rw [if_neg hthere, if_neg (mt hany.mp hthere), List.map_append, List.map_singleton]

theorem Tidy.add (h : c.Tidy) (reg : Registration) : (c.add reg).Tidy where
  once := by
    rw [slots_add]
    split
    · exact h.once
    · next hnew =>
      rw [← List.concat_eq_append]
      exact h.once.concat hnew
  roles := by
    simp only [ProviderCache.add, List.contains_iff_mem]
    split
    · exact h.roles
    · next hnew =>
      rw [← List.concat_eq_append]
      exact h.roles.concat hnew
  known := by
    intro entry hentry
    rw [mem_roles_add]
    rcases mem_entries_add hentry with rfl | hold
    · exact Or.inr rfl
    · exact Or.inl (h.known entry hold)

theorem remove_sublist (c : ProviderCache) (gone : Registration) :
    (c.remove gone).entries.Sublist c.entries :=
  List.eraseP_sublist

theorem Tidy.remove (h : c.Tidy) (gone : Registration) : (c.remove gone).Tidy where
  once := h.once.sublist ((c.remove_sublist gone).map _)
  roles := h.roles
  known := fun entry hentry => h.known entry ((c.remove_sublist gone).subset hentry)

theorem Tidy.addAll (h : c.Tidy) (regs : List Registration) :
    (regs.foldl ProviderCache.add c).Tidy := by
  induction regs generalizing c with
  | nil => exact h
  | cons reg regs ih => exact ih (h.add reg)

theorem Tidy.removeAll (h : c.Tidy) (regs : List Registration) :
    (regs.foldl ProviderCache.remove c).Tidy := by
  induction regs generalizing c with
  | nil => exact h
  | cons reg regs ih => exact ih (h.remove reg)

theorem Tidy.apply (h : c.Tidy) (p : Patch) : (c.apply p).Tidy :=
  (h.addAll p.added).removeAll p.removed

/-! ## What a removal drops -/

/-- A removal means a provider if that carries its identifier, or else has its address. It may mean
two of them; then it drops one that carries its identifier. -/
def Means (gone entry : Registration) : Prop :=
  entry.role = gone.role ∧
    (gone.id.isEmpty = false ∧ entry.id = gone.id ∨ entry.url = gone.url)

/-- A removal drops nothing, or one provider that it means. The others stay where they are. -/
theorem remove_cases (c : ProviderCache) (gone : Registration) :
    (c.remove gone).entries = c.entries ∨ ∃ front entry back, Means gone entry ∧
      c.entries = front ++ entry :: back ∧ (c.remove gone).entries = front ++ back := by
  simp only [remove]
  rcases List.exists_or_eq_self_of_eraseP
      (if c.entries.any (carriesIdOf gone) then carriesIdOf gone else (·.sameInstance gone))
      c.entries with hsame | ⟨entry, front, back, -, hentry, hbefore, hafter⟩
  · exact Or.inl hsame
  · refine Or.inr ⟨front, entry, back, ?_, hbefore, hafter⟩
    split at hentry
    · simp only [carriesIdOf, Bool.and_eq_true, decide_eq_true_iff, Bool.not_eq_true'] at hentry
      exact ⟨hentry.1.1, Or.inl ⟨hentry.1.2, hentry.2⟩⟩
    · obtain ⟨hrole, hurl⟩ := Registration.sameInstance_iff.mp hentry
      exact ⟨hrole, Or.inr hurl⟩

theorem get_eq (c : ProviderCache) (role : Role) :
    c.get role = if role ∈ c.roles then .ok (c.providers role) else .error (.notFound role) := by
  simp only [get, List.contains_iff_mem]

/-- A reader of another role sees no removal, and one of the same role misses one provider at
most. -/
theorem get_remove (c : ProviderCache) (gone : Registration) :
    (∀ role, role ≠ gone.role → (c.remove gone).get role = c.get role) ∧
    ((c.remove gone).get gone.role = c.get gone.role ∨ ∃ front entry back, Means gone entry ∧
      c.get gone.role = .ok (front ++ entry :: back) ∧
      (c.remove gone).get gone.role = .ok (front ++ back)) := by
  have hroles : (c.remove gone).roles = c.roles := rfl
  rcases c.remove_cases gone with hsame | ⟨front, entry, back, hmeans, hbefore, hafter⟩
  · have hget (role : Role) : (c.remove gone).get role = c.get role := by
      rw [get_eq, get_eq, hroles, providers, hsame, providers]
    exact ⟨fun role _ => hget role, Or.inl (hget gone.role)⟩
  · constructor
    · intro role hrole
      have hother : ¬ entry.role = role := by
        rintro rfl
        exact hrole hmeans.1
      simp [get_eq, hroles, providers, hbefore, hafter, hother]
    · by_cases hknown : gone.role ∈ c.roles
      · refine Or.inr ⟨front.filter (·.role = gone.role), entry, back.filter (·.role = gone.role),
          hmeans, ?_, ?_⟩
        · simp [get_eq, hknown, providers, hbefore, hmeans.1]
        · simp [get_eq, hroles, hknown, providers, hafter]
      · left
        simp [get_eq, hroles, hknown]

/-! ## Patches and clears -/

/-- What can be done to a cache: a patch is taken in, or everything is forgotten. -/
inductive Update where
  | apply (p : Patch)
  | clear

def update (c : ProviderCache) : Update → ProviderCache
  | .apply p => c.apply p
  | .clear => c.clear

def run (c : ProviderCache) (updates : List Update) : ProviderCache := updates.foldl update c

theorem run_append (c : ProviderCache) (updates more : List Update) :
    c.run (updates ++ more) = (c.run updates).run more :=
  List.foldl_append

theorem run_concat (c : ProviderCache) (updates : List Update) (u : Update) :
    c.run (updates ++ [u]) = (c.run updates).update u := by
  rw [run, List.foldl_append, List.foldl_cons, List.foldl_nil, ← run]

theorem tidy_run (updates : List Update) : (run {} updates).Tidy := by
  induction updates using List.reverseRecOn with
  | nil => exact .empty
  | append_singleton updates u ih =>
      rw [run_concat]
      cases u with
      | apply p => exact ih.apply p
      | clear => exact .empty

/-- A patch has named a role, by an instance that it added, and nothing has been cleared since. A
removal names no role. -/
def Named (updates : List Update) (role : Role) : Prop :=
  ∃ front p back, updates = front ++ .apply p :: back ∧ .clear ∉ back ∧
    role ∈ p.added.map (·.role)

theorem not_named_nil (role : Role) : ¬ Named [] role := by
  rintro ⟨front, p, back, heq, -⟩
  simp at heq

theorem named_apply {updates : List Update} {p : Patch} {role : Role} :
    Named (updates ++ [.apply p]) role ↔ Named updates role ∨ role ∈ p.added.map (·.role) := by
  constructor
  · rintro ⟨front, q, back, heq, hback, hrole⟩
    rcases List.eq_nil_or_concat back with rfl | ⟨back, u, rfl⟩
    · obtain ⟨-, hq⟩ := List.append_singleton_inj.mp heq
      cases hq
      exact Or.inr hrole
    · rw [List.concat_eq_append, ← List.cons_append, ← List.append_assoc] at heq
      obtain ⟨rfl, -⟩ := List.append_singleton_inj.mp heq
      simp only [List.concat_eq_append, List.mem_append, not_or] at hback
      exact Or.inl ⟨front, q, back, rfl, hback.1, hrole⟩
  · rintro (⟨front, q, back, rfl, hback, hrole⟩ | hrole)
    · refine ⟨front, q, back ++ [.apply p], by simp, ?_, hrole⟩
      simpa using hback
    · exact ⟨updates, p, [], rfl, List.not_mem_nil, hrole⟩

theorem Named.append {updates more : List Update} {role : Role} (h : Named updates role)
    (hmore : .clear ∉ more) : Named (updates ++ more) role := by
  obtain ⟨front, p, back, rfl, hback, hrole⟩ := h
  refine ⟨front, p, back ++ more, by simp, ?_, hrole⟩
  rw [List.mem_append, not_or]
  exact ⟨hback, hmore⟩

theorem not_named_clear (updates : List Update) (role : Role) :
    ¬ Named (updates ++ [.clear]) role := by
  rintro ⟨front, p, back, heq, hback, -⟩
  rcases List.eq_nil_or_concat back with rfl | ⟨back, u, rfl⟩
  · obtain ⟨-, hp⟩ := List.append_singleton_inj.mp heq
    cases hp
  · rw [List.concat_eq_append, ← List.cons_append, ← List.append_assoc] at heq
    obtain ⟨-, rfl⟩ := List.append_singleton_inj.mp heq
    simp at hback

theorem mem_roles_addAll {regs : List Registration} {role : Role} :
    role ∈ (regs.foldl add c).roles ↔ role ∈ c.roles ∨ role ∈ regs.map (·.role) := by
  induction regs generalizing c with
  | nil => simp
  | cons reg regs ih =>
      rw [List.foldl_cons, ih, mem_roles_add, List.map_cons, List.mem_cons, or_assoc]

theorem roles_removeAll (regs : List Registration) (c : ProviderCache) :
    (regs.foldl remove c).roles = c.roles := by
  induction regs generalizing c with
  | nil => rfl
  | cons reg regs ih => exact ih (c.remove reg)

theorem mem_roles_apply {p : Patch} {role : Role} :
    role ∈ (c.apply p).roles ↔ role ∈ c.roles ∨ role ∈ p.added.map (·.role) := by
  rw [apply, roles_removeAll, mem_roles_addAll]

theorem mem_roles_run {updates : List Update} {role : Role} :
    role ∈ (run {} updates).roles ↔ Named updates role := by
  induction updates using List.reverseRecOn with
  | nil => exact iff_of_false List.not_mem_nil (not_named_nil role)
  | append_singleton updates u ih =>
      rw [run_concat]
      cases u with
      | apply p => rw [update, mem_roles_apply, ih, named_apply]
      | clear => exact iff_of_false List.not_mem_nil (not_named_clear updates role)

/-! ## What a reader sees -/

theorem perm_flatMap_filter {roles : List Role} (hroles : roles.Nodup)
    {entries : List Registration} (hknown : ∀ entry ∈ entries, entry.role ∈ roles) :
    entries.Perm (roles.flatMap fun role => entries.filter (·.role = role)) := by
  -- By induction on the roles: the first takes its own entries out, and the others are known to the
  -- rest.
  induction roles generalizing entries with
  | nil =>
      have hnone : entries = [] := by
        apply List.eq_nil_iff_forall_not_mem.mpr
        intro entry hentry
        exact List.not_mem_nil (hknown entry hentry)
      rw [hnone]
      exact List.Perm.nil
  | cons role roles ih =>
      obtain ⟨hnot, hroles⟩ := List.nodup_cons.mp hroles
      let others := entries.filter fun entry => !decide (entry.role = role)
      have hothers : ∀ entry ∈ others, entry.role ∈ roles := by
        intro entry hentry
        simp only [others, List.mem_filter, Bool.not_eq_true', decide_eq_false_iff_not] at hentry
        exact (List.mem_cons.mp (hknown entry hentry.1)).resolve_left hentry.2
      have hrest : (roles.flatMap fun r => others.filter (·.role = r)) =
          roles.flatMap fun r => entries.filter (·.role = r) := by
        apply List.flatMap_congr
        intro r hr
        rw [List.filter_filter]
        apply List.filter_congr
        intro entry _
        by_cases hentry : entry.role = r
        · have hne : ¬ r = role := by
            rintro rfl
            exact hnot hr
          simp [hentry, hne]
        · simp [hentry]
      rw [List.flatMap_cons, ← hrest]
      exact (List.filter_append_perm _ entries).symm.trans ((ih hroles hothers).append_left _)

/-- The lists of the known roles hold together what is known, and everything once. So reading all
roles shows all there is. -/
theorem Tidy.entries_perm (h : c.Tidy) : c.entries.Perm (c.names.flatMap c.providers) :=
  perm_flatMap_filter h.roles h.known

/-- The addresses that are known of a role are all different. -/
theorem Tidy.nodup_urls (h : c.Tidy) (role : Role) :
    ((c.providers role).map (·.url)).Nodup := by
  have hslots : ((c.providers role).map Registration.slot).Nodup :=
    h.once.sublist (List.filter_sublist.map _)
  have hsame : (c.providers role).map Registration.slot =
      ((c.providers role).map (·.url)).map (Prod.mk role) := by
    rw [List.map_map]
    apply List.map_congr_left
    intro entry hentry
    rw [← (mem_providers.mp hentry).2]
    rfl
  rw [hsame] at hslots
  exact hslots.of_map _

/-- Whatever patches come and however often the cache is cleared: a reader of a role sees instances
of that role with different addresses, and all readers together see everything that is known; a role
is not found exactly if no patch has named it since the last clear, and a role that has been named is
found for good, though all its providers may go; the roles that are found are listed, each once; and
what a patch removes drops one provider at most, and none of another role. -/
theorem contents_of_run (updates : List Update) :
    let c := run {} updates
    (∀ role list, c.get role = .ok list →
      (∀ entry ∈ list, entry.role = role) ∧ (list.map (·.url)).Nodup) ∧
    c.entries.Perm (c.names.flatMap c.providers) ∧
    (∀ role, (c.get role = .error (.notFound role) ↔ ¬ Named updates role) ∧
      (c.get role = .ok (c.providers role) ↔ Named updates role)) ∧
    (∀ role, Named updates role → ∀ more, .clear ∉ more →
      (c.run more).get role = .ok ((c.run more).providers role)) ∧
    (∀ role, role ∈ c.names ↔ ∃ list, c.get role = .ok list) ∧ c.names.Nodup ∧
    ∀ p front gone back, p.removed = front ++ gone :: back →
      let before := front.foldl remove (p.added.foldl add c)
      let after := before.remove gone
      c.apply p = back.foldl remove after ∧
      (∀ role, role ≠ gone.role → after.get role = before.get role) ∧
      (after.get gone.role = before.get gone.role ∨ ∃ kept entry rest, Means gone entry ∧
        before.get gone.role = .ok (kept ++ entry :: rest) ∧
        after.get gone.role = .ok (kept ++ rest)) := by
  intro c
  have htidy : c.Tidy := tidy_run updates
  -- A role that the cache answers for is one it has been told of, and the answer lists all of its
  -- entries.
  have hread {role : Role} {list : List Registration} (h : c.get role = .ok list) :
      role ∈ c.roles ∧ c.providers role = list := by
    rw [get_eq] at h
    split at h
    · next hknown => exact ⟨hknown, Except.ok.inj h⟩
    · cases h
  refine ⟨?_, htidy.entries_perm, ?_, ?_, ?_, htidy.roles, ?_⟩
  · intro role list hget
    obtain ⟨-, rfl⟩ := hread hget
    exact ⟨fun entry hentry => (mem_providers.mp hentry).2, htidy.nodup_urls role⟩
  · intro role
    rw [get_eq, ← mem_roles_run, show run {} updates = c from rfl]
    by_cases hknown : role ∈ c.roles
    · simp [hknown]
    · simp [hknown]
  · intro role hnamed more hmore
    have hknown := mem_roles_run.mpr (hnamed.append hmore)
    rw [run_append] at hknown
    rw [get_eq]
    exact if_pos hknown
  · intro role
    constructor
    · intro hknown
      refine ⟨c.providers role, ?_⟩
      rw [get_eq]
      exact if_pos hknown
    · rintro ⟨list, hget⟩
      exact (hread hget).1
  · intro p front gone back hremoved before after
    refine ⟨?_, before.get_remove gone⟩
    rw [apply, hremoved, List.foldl_append, List.foldl_cons]

end ProviderCache
end Rollcall
