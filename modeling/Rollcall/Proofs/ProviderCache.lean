import Rollcall.Proofs.Directory
import Rollcall.ProviderCache

/-!
# Laws of the provider cache

What the two halves of a patch do to a cache, in the cases that arise when patches come in the
order in which they were issued:

* `add_of_new` — an instance that is not known is appended;
* `add_of_known` — an entry that is known already changes nothing;
* `remove_of_known` — a known entry is dropped, and nothing else.
-/

namespace Rollcall.ProviderCache

variable {c : ProviderCache}

/-! ## Additions -/

theorem mem_roles_add {reg : Registration} {role : Role} :
    role ∈ (c.add reg).roles ↔ role ∈ c.roles ∨ role = reg.role := by
  simp only [add, List.contains_iff_mem]
  split
  · next hknown =>
    constructor
    · exact Or.inl
    · rintro (h | rfl)
      · exact h
      · exact hknown
  · rw [List.mem_append, List.mem_singleton]

/-- An instance that is not known is appended. -/
theorem add_of_new {reg : Registration} (h : ∀ known ∈ c.entries, known.sameInstance reg = false) :
    (c.add reg).entries = c.entries ++ [reg] := by
  have hany : c.entries.any (·.sameInstance reg) = false := by
    simpa using h
  simp only [add, hany, Bool.false_eq_true, if_false]

/-- An entry that is known already, under a role that is known, changes nothing. -/
theorem add_of_known {reg : Registration} (hrole : reg.role ∈ c.roles)
    (honly : ∀ known ∈ c.entries, known.sameInstance reg = true → known = reg)
    (hmem : reg ∈ c.entries) : c.add reg = c := by
  have hany : c.entries.any (·.sameInstance reg) = true :=
    List.any_eq_true.mpr ⟨reg, hmem, reg.sameInstance_self⟩
  have hmap : (c.entries.map fun known => if known.sameInstance reg then reg else known) =
      c.entries := by
    rw [List.map_congr_left (g := id), List.map_id]
    intro known hknown
    split
    · next hsame => exact (honly known hknown hsame).symm
    · rfl
  simp only [add, hany, if_true, hmap, List.contains_iff_mem.mpr hrole]

/-- Instances that are all new, and different from one another, are appended in their order. -/
theorem addAll_of_new {regs : List Registration}
    (h : (c.entries ++ regs).Pairwise fun a b => a.sameInstance b = false) :
    (regs.foldl add c).entries = c.entries ++ regs ∧
      ∀ role, role ∈ (regs.foldl add c).roles ↔ role ∈ c.roles ∨ role ∈ regs.map (·.role) := by
  induction regs generalizing c with
  | nil => simp
  | cons reg rest ih =>
      obtain ⟨-, -, hcross⟩ := List.pairwise_append.mp h
      have hnew : (c.add reg).entries = c.entries ++ [reg] :=
        add_of_new fun known hknown => hcross known hknown reg List.mem_cons_self
      have hsplit : c.entries ++ reg :: rest = (c.add reg).entries ++ rest := by
        rw [hnew, List.append_assoc, List.singleton_append]
      obtain ⟨hentries, hroles⟩ := ih (hsplit ▸ h)
      refine ⟨hentries.trans hsplit.symm, fun role => ?_⟩
      rw [List.foldl_cons, hroles role, mem_roles_add, List.map_cons, List.mem_cons, or_assoc]

/-- Entries that are all known change nothing. -/
theorem addAll_of_known {regs : List Registration}
    (h : ∀ reg ∈ regs, reg.role ∈ c.roles ∧ reg ∈ c.entries ∧
      ∀ known ∈ c.entries, known.sameInstance reg = true → known = reg) :
    regs.foldl add c = c := by
  induction regs with
  | nil => rfl
  | cons reg rest ih =>
      obtain ⟨hrole, hmem, honly⟩ := h reg List.mem_cons_self
      rw [List.foldl_cons, add_of_known hrole honly hmem]
      exact ih fun known hknown => h known (List.mem_cons_of_mem _ hknown)

/-! ## Removals -/

theorem carriesIdOf_iff {removed known : Registration} (hid : removed.id.isEmpty = false) :
    carriesIdOf removed known = true ↔ known.role = removed.role ∧ known.id = removed.id := by
  simp [carriesIdOf, hid]

/-- In a list with different keys, dropping the first element with a property that means one of the
keys drops what has that key. -/
theorem eraseP_eq_filter {κ : Type} [DecidableEq κ] {f : Registration → κ}
    {entries : List Registration} {p : Registration → Bool} {k : κ}
    (hnodup : (entries.map f).Nodup) (h : ∀ known ∈ entries, p known = true ↔ f known = k) :
    entries.eraseP p = entries.filter (f · ≠ k) := by
  induction entries with
  | nil => rfl
  | cons known rest ih =>
      obtain ⟨hnot, hrest⟩ := List.nodup_cons.mp hnodup
      have hiff := h known List.mem_cons_self
      by_cases hgone : f known = k
      -- Here the erasing stops, and the filter finds nothing more to drop.
      · rw [List.eraseP_cons_of_pos (hiff.mpr hgone), List.filter_cons_of_neg (by simp [hgone])]
        refine (List.filter_eq_self.mpr ?_).symm
        intro other hother
        apply decide_eq_true
        intro hsame
        apply hnot
        rw [hgone, ← hsame]
        exact List.mem_map_of_mem hother
      · rw [List.eraseP_cons_of_neg (mt hiff.mp hgone), List.filter_cons_of_pos (by simp [hgone]),
          ih hrest fun other hother => h other (List.mem_cons_of_mem _ hother)]

/-- A known entry that has an identifier of its own is dropped, and nothing else. -/
theorem remove_of_known {gone : Registration} (hid : gone.id.isEmpty = false)
    (hnodup : c.entries.Nodup) (hmem : gone ∈ c.entries)
    (honly : ∀ known ∈ c.entries, known.id = gone.id → known = gone) :
    c.remove gone = { c with entries := c.entries.filter (· ≠ gone) } := by
  have hcarries : ∀ known ∈ c.entries, carriesIdOf gone known = true ↔ known = gone := by
    intro known hknown
    rw [carriesIdOf_iff hid]
    constructor
    · exact fun ⟨_, hsame⟩ => honly known hknown hsame
    · rintro rfl
      exact ⟨rfl, rfl⟩
  have hany : c.entries.any (carriesIdOf gone) = true :=
    List.any_eq_true.mpr ⟨gone, hmem, (hcarries gone hmem).mpr rfl⟩
  rw [← List.map_id c.entries] at hnodup
  simp only [remove, hany, if_true, eraseP_eq_filter hnodup hcarries, id_eq]

/-! ## Readers -/

theorem mem_providers {role : Role} {entry : Registration} :
    entry ∈ c.providers role ↔ entry ∈ c.entries ∧ entry.role = role := by
  simp [providers]

/-- A role that no patch has named is not found. -/
theorem get_of_unknown {role : Role} (h : role ∉ c.roles) :
    c.get role = .error (.notFound role) := by
  have hnot : c.roles.contains role = false := by
    simpa using h
  simp only [get, hnot, Bool.false_eq_true, if_false]

/-- If every entry has a known role, then reading what is not found as nothing gives the entries of
a role. -/
theorem getD_get (h : ∀ entry ∈ c.entries, entry.role ∈ c.roles) (role : Role) :
    (c.get role).toOption.getD [] = c.providers role := by
  by_cases hknown : role ∈ c.roles
  · simp only [get, List.contains_iff_mem.mpr hknown, if_true]
    rfl
  · rw [get_of_unknown hknown]
    refine (List.filter_eq_nil_iff.mpr fun entry hentry hrole => hknown ?_).symm
    rw [← of_decide_eq_true hrole]
    exact h entry hentry

end Rollcall.ProviderCache
