import Mathlib.Logic.Function.Basic
import Rollcall.Proofs.Cache.Contents

/-!
# The cache as a shelf

A shelf has one slot for each role and address, and what is put into a slot replaces what was there.
Of the identifiers it knows nothing. A patch is taken in by putting all that it added into the slots
and then emptying the slots of all that it removed.

A cache looks for the identifier of what it removes before it looks for the address. As long as no
identifier is used for two instances that makes no difference, and the cache holds what the shelf
holds, in the order in which the slots were taken.

* `Shelf.Shows.add`, `Shelf.Shows.remove` — both halves of a patch do the same to both;
* `Shelf.take_take` — a patch that is taken in twice is taken in once;
* `ProviderCache.keeps_latest` — the content of a cache, and the patch that comes twice.
-/

namespace Rollcall

/-- One place for each instance, its slot: the slots that are taken, in the order in which they
were, and what each of them holds. This is a cache without its search by identifiers. -/
@[ext] structure Shelf where
  slots : List (Role × String) := []
  held : Role × String → Option Registration := fun _ => none

namespace Shelf

/-- Puts an instance into its slot, in place of what that holds; a free slot is taken after all
others. -/
def put (s : Shelf) (reg : Registration) : Shelf where
  slots := if reg.slot ∈ s.slots then s.slots else s.slots ++ [reg.slot]
  held := Function.update s.held reg.slot (some reg)

/-- Empties the slot of an instance, whatever it holds. -/
def empty (s : Shelf) (reg : Registration) : Shelf where
  slots := s.slots.filter (· ≠ reg.slot)
  held := Function.update s.held reg.slot none

/-- Takes in a patch: first what it added, then what it removed. -/
def take (s : Shelf) (p : Patch) : Shelf := p.removed.foldl empty (p.added.foldl put s)

variable {s : Shelf} {c : ProviderCache}

@[simp] theorem held_put_self (s : Shelf) (reg : Registration) :
    (s.put reg).held reg.slot = some reg := by
  simp [put]

@[simp] theorem held_empty_self (s : Shelf) (reg : Registration) :
    (s.empty reg).held reg.slot = none := by
  simp [empty]

theorem held_put_of_ne {slot : Role × String} {reg : Registration} (h : slot ≠ reg.slot) :
    (s.put reg).held slot = s.held slot := by
  simp [put, h]

theorem held_empty_of_ne {slot : Role × String} {reg : Registration} (h : slot ≠ reg.slot) :
    (s.empty reg).held slot = s.held slot := by
  simp [empty, h]

/-! ## Taking in a patch twice -/

theorem held_putAll (regs : List Registration) (s : Shelf) (slot : Role × String) :
    (regs.foldl put s).held slot =
      ((regs.filter (·.slot = slot)).getLast?).or (s.held slot) := by
  induction regs generalizing s with
  | nil => rfl
  | cons reg regs ih =>
      rw [List.foldl_cons, ih]
      by_cases hslot : reg.slot = slot
      · subst hslot
        rw [List.filter_cons_of_pos (by simp), List.getLast?_cons]
        cases (regs.filter (·.slot = reg.slot)).getLast? with
        | none => simp
        | some last => rfl
      · rw [List.filter_cons_of_neg (by simpa using hslot), held_put_of_ne (Ne.symm hslot)]

theorem held_emptyAll (regs : List Registration) (s : Shelf) (slot : Role × String) :
    (regs.foldl empty s).held slot =
      if slot ∈ regs.map Registration.slot then none else s.held slot := by
  induction regs generalizing s with
  | nil => rfl
  | cons reg regs ih =>
      rw [List.foldl_cons, ih]
      by_cases hslot : slot = reg.slot
      · simp [hslot]
      · simp [hslot, held_empty_of_ne]

theorem slots_emptyAll (regs : List Registration) (s : Shelf) :
    (regs.foldl empty s).slots = s.slots.filter (· ∉ regs.map Registration.slot) := by
  induction regs generalizing s with
  | nil => simp
  | cons reg regs ih =>
      rw [List.foldl_cons, ih, empty, List.filter_filter]
      apply List.filter_congr
      intro slot _
      simp [Bool.and_comm]

theorem slots_putAll (regs : List Registration) (s : Shelf) :
    ∃ new, (regs.foldl put s).slots = s.slots ++ new ∧
      (∀ slot ∈ new, slot ∈ regs.map Registration.slot ∧ slot ∉ s.slots) ∧
      ∀ slot ∈ regs.map Registration.slot, slot ∈ s.slots ++ new := by
  induction regs generalizing s with
  | nil => exact ⟨[], (List.append_nil _).symm, nofun, nofun⟩
  | cons reg regs ih =>
      obtain ⟨new, hslots, hnew, hall⟩ := ih (s.put reg)
      rw [List.foldl_cons, hslots]
      -- A slot that is taken already stays where it is, and a free one is added at the end.
      by_cases hthere : reg.slot ∈ s.slots
      · have hsame : (s.put reg).slots = s.slots := if_pos hthere
        rw [hsame] at hnew hall ⊢
        refine ⟨new, rfl, ?_, ?_⟩
        · intro slot hslot
          exact ⟨List.mem_cons_of_mem _ (hnew slot hslot).1, (hnew slot hslot).2⟩
        · intro slot hslot
          rcases List.mem_cons.mp hslot with rfl | hslot
          · exact List.mem_append_left _ hthere
          · exact hall slot hslot
      · have hlast : (s.put reg).slots = s.slots ++ [reg.slot] := if_neg hthere
        rw [hlast] at hnew hall ⊢
        refine ⟨reg.slot :: new, by simp, ?_, ?_⟩
        · intro slot hslot
          rcases List.mem_cons.mp hslot with rfl | hslot
          · exact ⟨List.mem_cons_self, hthere⟩
          · obtain ⟨hmem, hnot⟩ := hnew slot hslot
            rw [List.mem_append, not_or] at hnot
            exact ⟨List.mem_cons_of_mem _ hmem, hnot.1⟩
        · intro slot hslot
          rw [List.append_cons]
          rcases List.mem_cons.mp hslot with rfl | hslot
          · simp
          · exact hall slot hslot

/-- What a patch has emptied it takes up again and empties again, and the rest it finds as it has
left it. -/
theorem take_take (s : Shelf) (p : Patch) : (s.take p).take p = s.take p := by
  let went (slot : Role × String) : Prop := slot ∈ p.removed.map Registration.slot
  have hheld (s : Shelf) (slot : Role × String) : (s.take p).held slot =
      if went slot then none
      else ((p.added.filter (·.slot = slot)).getLast?).or (s.held slot) := by
    rw [take, held_emptyAll, held_putAll]
  have hslots (s : Shelf) :
      (s.take p).slots = (p.added.foldl put s).slots.filter (¬ went ·) := slots_emptyAll _ _
  apply Shelf.ext
  -- What is put behind the rest once more had been emptied, and so it is again.
  · obtain ⟨came, hcame, -, hall⟩ := slots_putAll p.added s
    obtain ⟨again, hagain, hnew, -⟩ := slots_putAll p.added (s.take p)
    have hwent : ∀ slot ∈ again, went slot := by
      intro slot hslot
      obtain ⟨hadded, hfree⟩ := hnew slot hslot
      rw [hslots, List.mem_filter, hcame] at hfree
      by_contra hstays
      exact hfree ⟨hall slot hadded, decide_eq_true hstays⟩
    have hgone : again.filter (¬ went ·) = [] := by
      apply List.filter_eq_nil_iff.mpr
      intro slot hslot
      simpa using hwent slot hslot
    rw [hslots (s.take p), hagain, List.filter_append, hgone, List.append_nil, hslots s,
      List.filter_filter]
    simp
  · funext slot
    rw [hheld, hheld]
    split
    · rfl
    · rw [← Option.or_assoc, Option.or_self]

/-! ## The shelf and the cache -/

/-- A shelf shows what a cache holds: the same slots in the same order, with the same in each. -/
structure Shows (s : Shelf) (c : ProviderCache) : Prop where
  slots : s.slots = c.entries.map Registration.slot
  held : ∀ entry ∈ c.entries, s.held entry.slot = some entry
  free : ∀ slot, slot ∉ s.slots → s.held slot = none

theorem Shows.empty : Shows {} {} where
  slots := rfl
  held _ h := absurd h List.not_mem_nil
  free _ _ := rfl

/-- What is in a slot is what the cache holds for it. -/
theorem Shows.held_iff (h : s.Shows c) {slot : Role × String} {entry : Registration} :
    s.held slot = some entry ↔ entry ∈ c.entries ∧ entry.slot = slot := by
  constructor
  · intro hheld
    by_cases htaken : slot ∈ s.slots
    · rw [h.slots] at htaken
      obtain ⟨known, hknown, rfl⟩ := List.mem_map.mp htaken
      rw [h.held known hknown] at hheld
      cases hheld
      exact ⟨hknown, rfl⟩
    · rw [h.free slot htaken] at hheld
      cases hheld
  · rintro ⟨hentry, rfl⟩
    exact h.held entry hentry

/-- The cache holds it in the order of the slots. -/
theorem Shows.entries (h : s.Shows c) : c.entries = s.slots.filterMap s.held := by
  rw [h.slots, List.filterMap_map, List.filterMap_congr (g := some)]
  · exact List.filterMap_some.symm
  · exact h.held

theorem mem_add (c : ProviderCache) (reg : Registration) : reg ∈ (c.add reg).entries := by
  simp only [ProviderCache.add]
  split
  · next hany =>
    obtain ⟨known, hknown, hsame⟩ := List.any_eq_true.mp hany
    exact List.mem_map.mpr ⟨known, hknown, if_pos hsame⟩
  · exact List.mem_append_right _ (List.mem_singleton_self reg)

theorem Shows.add (h : s.Shows c) (htidy : c.Tidy) (reg : Registration) :
    (s.put reg).Shows (c.add reg) where
  slots := by rw [ProviderCache.slots_add, put, h.slots]
  held := by
    intro entry hentry
    by_cases hslot : entry.slot = reg.slot
    · -- Only one entry of the cache has the slot, and it is the one just put there.
      have hsame : entry = reg :=
        List.inj_on_of_nodup_map (htidy.add reg).once hentry (mem_add c reg) hslot
      rw [hsame, held_put_self]
    · rw [held_put_of_ne hslot]
      apply h.held
      refine (ProviderCache.mem_entries_add hentry).resolve_left ?_
      rintro rfl
      exact hslot rfl
  free := by
    intro slot hslot
    have hnot : slot ≠ reg.slot ∧ slot ∉ s.slots := by
      simp only [put] at hslot
      split at hslot
      · next hthere =>
        refine ⟨?_, hslot⟩
        rintro rfl
        exact hslot hthere
      · simpa [and_comm] using hslot
    rw [held_put_of_ne hnot.1]
    exact h.free slot hnot.2

/-- No identifier is used for two instances. A registry sees to that; a cache cannot. -/
def OneEach (regs : List Registration) : Prop :=
  ∀ a ∈ regs, ∀ b ∈ regs, a.id.isEmpty = false → a.id = b.id → a.slot = b.slot

instance (regs : List Registration) : Decidable (OneEach regs) :=
  inferInstanceAs (Decidable (∀ a ∈ regs, ∀ b ∈ regs, a.id.isEmpty = false → a.id = b.id →
    a.slot = b.slot))

/-- If its identifier belongs to no other instance, a removal drops what has its slot, and nothing
else. -/
theorem entries_remove (htidy : c.Tidy) {gone : Registration}
    (hid : ∀ known ∈ c.entries, gone.id.isEmpty = false → gone.id = known.id →
      gone.slot = known.slot) :
    (c.remove gone).entries = c.entries.filter (·.slot ≠ gone.slot) := by
  simp only [ProviderCache.remove]
  apply ProviderCache.eraseP_eq_filter htidy.once
  intro known hknown
  split
  -- Whoever carries the identifier has the slot, and nobody else has that.
  · next hany =>
    obtain ⟨carrier, hcarrier, hcarries⟩ := List.any_eq_true.mp hany
    have hslot {entry : Registration} (hentry : entry ∈ c.entries)
        (h : ProviderCache.carriesIdOf gone entry = true) : entry.slot = gone.slot := by
      simp only [ProviderCache.carriesIdOf, Bool.and_eq_true, decide_eq_true_iff,
        Bool.not_eq_true'] at h
      exact (hid entry hentry h.1.2 h.2.symm).symm
    constructor
    · exact hslot hknown
    · intro hsame
      have heq : known = carrier := by
        apply List.inj_on_of_nodup_map htidy.once hknown hcarrier
        rw [hsame, hslot hcarrier hcarries]
      rw [heq]
      exact hcarries
  · exact Registration.sameInstance_iff_slot

theorem Shows.remove (h : s.Shows c) (htidy : c.Tidy) {gone : Registration}
    (hid : ∀ known ∈ c.entries, gone.id.isEmpty = false → gone.id = known.id →
      gone.slot = known.slot) : (s.empty gone).Shows (c.remove gone) where
  slots := by
    rw [entries_remove htidy hid, Shelf.empty, h.slots, List.filter_map]
    rfl
  held := by
    intro entry hentry
    rw [entries_remove htidy hid, List.mem_filter, decide_eq_true_iff] at hentry
    rw [held_empty_of_ne hentry.2]
    exact h.held entry hentry.1
  free := by
    intro slot hslot
    by_cases hsame : slot = gone.slot
    · rw [hsame, held_empty_self]
    · rw [held_empty_of_ne hsame]
      apply h.free
      intro hthere
      apply hslot
      simpa [Shelf.empty, hsame] using hthere

theorem Shows.addAll (h : s.Shows c) (htidy : c.Tidy) (regs : List Registration) :
    (regs.foldl put s).Shows (regs.foldl ProviderCache.add c) := by
  induction regs generalizing s c with
  | nil => exact h
  | cons reg regs ih => exact ih (h.add htidy reg) (htidy.add reg)

theorem Shows.removeAll (h : s.Shows c) (htidy : c.Tidy) {regs : List Registration}
    (hid : ∀ gone ∈ regs, ∀ known ∈ c.entries, gone.id.isEmpty = false → gone.id = known.id →
      gone.slot = known.slot) :
    (regs.foldl Shelf.empty s).Shows (regs.foldl ProviderCache.remove c) := by
  induction regs generalizing s c with
  | nil => exact h
  | cons gone regs ih =>
      apply ih (h.remove htidy (hid gone List.mem_cons_self)) (htidy.remove gone)
      intro other hother known hknown
      apply hid other (List.mem_cons_of_mem gone hother)
      exact (c.remove_sublist gone).subset hknown

theorem mem_addAll {regs : List Registration} {entry : Registration}
    (h : entry ∈ (regs.foldl ProviderCache.add c).entries) : entry ∈ regs ∨ entry ∈ c.entries := by
  induction regs generalizing c with
  | nil => exact Or.inr h
  | cons reg regs ih =>
      rcases ih h with hlater | hnow
      · exact Or.inl (List.mem_cons_of_mem reg hlater)
      · rcases ProviderCache.mem_entries_add hnow with rfl | hold
        · exact Or.inl List.mem_cons_self
        · exact Or.inr hold

theorem removeAll_subset (regs : List Registration) (c : ProviderCache) :
    (regs.foldl ProviderCache.remove c).entries ⊆ c.entries := by
  induction regs generalizing c with
  | nil => exact List.Subset.refl _
  | cons gone regs ih =>
      exact List.Subset.trans (ih (c.remove gone)) (c.remove_sublist gone).subset

end Shelf

/-- All instances that a patch tells of. -/
def Patch.mentioned (p : Patch) : List Registration := p.added ++ p.removed

namespace Shelf

variable {s : Shelf} {c : ProviderCache}

/-- Taken in by both, a patch keeps shelf and cache alike, if its identifiers and those in the cache
are used for one instance each. -/
theorem Shows.apply (h : s.Shows c) (htidy : c.Tidy) {p : Patch} {regs : List Registration}
    (hone : OneEach regs) (hc : ∀ entry ∈ c.entries, entry ∈ regs)
    (hp : ∀ reg ∈ p.mentioned, reg ∈ regs) :
    (s.take p).Shows (c.apply p) ∧ ∀ entry ∈ (c.apply p).entries, entry ∈ regs := by
  have hadded : ∀ entry ∈ (p.added.foldl ProviderCache.add c).entries, entry ∈ regs := by
    intro entry hentry
    rcases mem_addAll hentry with hnew | hold
    · exact hp entry (List.mem_append_left _ hnew)
    · exact hc entry hold
  constructor
  · apply (h.addAll htidy p.added).removeAll (htidy.addAll p.added)
    intro gone hgone known hknown
    exact hone gone (hp gone (List.mem_append_right _ hgone)) known (hadded known hknown)
  · intro entry hentry
    exact hadded entry (removeAll_subset _ _ hentry)

theorem shows_run {ps : List Patch} (hone : OneEach (ps.flatMap Patch.mentioned)) :
    ∀ done more, ps = done ++ more →
      let cache := done.foldl ProviderCache.apply {}
      (done.foldl take {}).Shows cache ∧ cache.Tidy ∧
        ∀ entry ∈ cache.entries, entry ∈ ps.flatMap Patch.mentioned := by
  intro done
  -- The identifiers are unique among all patches, so the induction is on those that have come.
  induction done using List.reverseRecOn with
  | nil =>
      intro more _
      exact ⟨.empty, .empty, fun entry hentry => absurd hentry List.not_mem_nil⟩
  | append_singleton done p ih =>
      intro more hps
      obtain ⟨hshows, htidy, hknown⟩ := ih (p :: more) (by simpa using hps)
      have hp : ∀ reg ∈ p.mentioned, reg ∈ ps.flatMap Patch.mentioned := by
        intro reg hreg
        rw [List.mem_flatMap]
        exact ⟨p, by simp [hps], hreg⟩
      obtain ⟨hnext, hmem⟩ := hshows.apply htidy hone hknown hp
      simp only [List.foldl_append, List.foldl_cons, List.foldl_nil]
      exact ⟨hnext, htidy.apply p, hmem⟩

end Shelf

namespace ProviderCache

theorem roles_addAll_of_known {regs : List Registration} {c : ProviderCache}
    (h : ∀ reg ∈ regs, reg.role ∈ c.roles) : (regs.foldl add c).roles = c.roles := by
  induction regs generalizing c with
  | nil => rfl
  | cons reg regs ih =>
      have hsame : (c.add reg).roles = c.roles :=
        if_pos (List.contains_iff_mem.mpr (h reg List.mem_cons_self))
      rw [List.foldl_cons, ih, hsame]
      intro other hother
      rw [hsame]
      exact h other (List.mem_cons_of_mem reg hother)

/-- As long as no identifier is used for two instances, a cache that was empty or has been cleared
holds for each role and address what the patches since have put there last, in the order in which
the addresses were taken; and the last of the patches may come again and changes nothing. -/
theorem keeps_latest (c : ProviderCache) {ps : List Patch}
    (h : Shelf.OneEach (ps.flatMap Patch.mentioned)) :
    let cache := ps.foldl apply c.clear
    let shelf := ps.foldl Shelf.take {}
    let known (role : Role) := (cache.get role).toOption.getD []
    (∀ role url entry, entry ∈ known role ∧ entry.url = url ↔
      shelf.held (role, url) = some entry) ∧
    (∀ role, known role = (shelf.slots.filter (·.1 = role)).filterMap shelf.held) ∧
    (∀ role, ((known role).map (·.url)).Nodup) ∧
    ∀ p, ps.getLast? = some p → cache.apply p = cache := by
  intro cache shelf known
  obtain ⟨hshows, htidy, hmem⟩ := Shelf.shows_run h ps [] (List.append_nil ps).symm
  change shelf.Shows cache at hshows
  change cache.Tidy at htidy
  have hknown (role : Role) : known role = cache.providers role := getD_get htidy.known role
  refine ⟨?_, ?_, ?_, ?_⟩
  · intro role url entry
    rw [hknown, mem_providers, hshows.held_iff, Registration.slot, Prod.mk.injEq, and_assoc]
  · intro role
    rw [hknown, providers, hshows.slots, List.filter_map, List.filterMap_map,
      List.filterMap_congr (g := some)]
    · exact List.filterMap_some.symm
    · intro entry hentry
      exact hshows.held entry (List.mem_filter.mp hentry).1
  · intro role
    rw [hknown]
    exact htidy.nodup_urls role
  · intro p hlast
    obtain ⟨front, rfl⟩ := List.getLast?_eq_some_iff.mp hlast
    have hfold : cache = (front.foldl apply {}).apply p := by
      simp only [cache, List.foldl_append, List.foldl_cons, List.foldl_nil]
      rfl
    -- A shelf that has just taken the patch stays the same if it takes it once more, and what the
    -- cache lists is what the shelf shows.
    have hagain : shelf.take p = shelf := by
      simp only [shelf, List.foldl_append, List.foldl_cons, List.foldl_nil]
      exact Shelf.take_take _ p
    obtain ⟨htwice, -⟩ := hshows.apply htidy h hmem (p := p) (by
      intro reg hreg
      simp [hreg])
    rw [hagain] at htwice
    have hentries : (cache.apply p).entries = cache.entries :=
      htwice.entries.trans hshows.entries.symm
    have hroles : (cache.apply p).roles = cache.roles := by
      rw [apply, roles_removeAll]
      apply roles_addAll_of_known
      intro reg hreg
      rw [hfold, mem_roles_apply]
      exact Or.inr (List.mem_map_of_mem hreg)
    calc cache.apply p = ⟨(cache.apply p).roles, (cache.apply p).entries⟩ := rfl
      _ = cache := by rw [hroles, hentries]

/-- Two logs of which the first comes again under another identifier while the second goes under one
that nobody knows, and a third that comes and goes at once: the first log stays where it was, and
the patch may come again. -/
theorem first_log_stays :
    let log (url id : String) : Registration := { role := .log, url := url, id := ⟨id⟩ }
    let first : Patch := .ofAdded [log "http://a" "1", log "http://b" "2", log "http://c" "3"]
    let second : Patch :=
      { added := [log "http://a" "4", log "http://d" "5"],
        removed := [log "http://b" "9", log "http://d" "5"] }
    let cache := [first, second].foldl apply ({ roles := [.web] } : ProviderCache).clear
    cache.get .log = .ok [log "http://a" "4", log "http://c" "3"] ∧ cache.apply second = cache := by
  intro log first second cache
  obtain ⟨-, hlist, -, hagain⟩ := @keeps_latest { roles := [.web] } [first, second]
    (by decide +kernel)
  have hknown := hlist .log
  have hget : cache.get .log = .ok ((cache.get .log).toOption.getD []) := by
    decide +kernel
  rw [hget]
  exact ⟨congrArg Except.ok (hknown.trans (by decide +kernel)), hagain second rfl⟩

end ProviderCache
end Rollcall
