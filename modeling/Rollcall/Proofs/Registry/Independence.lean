import Mathlib.Logic.Equiv.Basic
import Rollcall.Proofs.Registry.Lifetime

/-!
# Deeds at different instances

An admission, a removal and an eviction each concern one instance. What such a deed comes to hangs on
what the table holds of that instance and, for an admission, on the identifier that is minted next;
nothing else in the table is touched. So two deeds at different instances may change places. Only two
admissions notice, as each of them gets the identifier that the other one would have got.

* `Registry.carryOut_spec` — what one deed does, told by the slot of its instance;
* `Deed.onSlot_renamed` — the same under another identifier;
* `Registry.deeds_interchange` — two deeds in either order.
-/

namespace Rollcall

/-! ## What is held of an instance -/

namespace Directory

variable {d : Directory} {q : Registration → Bool} {slot : Role × String}

/-- What a directory holds of the instance of a slot, as a list: of a sound directory at most one
entry. -/
def held (d : Directory) (slot : Role × String) : List Registration :=
  d.entries.filter (·.slot = slot)

theorem isAt_eq (role : Role) (url : String) (entry : Registration) :
    isAt role url entry = decide (entry.slot = (role, url)) := by
  simp [isAt, Registration.slot, Bool.decide_and]

theorem find?_eq_head? (d : Directory) (role : Role) (url : String) :
    d.find? role url = (d.held (role, url)).head? := by
  rw [held, List.head?_filter, find?]
  congr 1
  funext entry
  exact isAt_eq role url entry

theorem mem_held {entry : Registration} :
    entry ∈ d.held slot ↔ entry ∈ d.entries ∧ entry.slot = slot := by
  simp [held]

theorem find?_slot (d : Directory) (q : Registration → Bool) (slot : Role × String) :
    d.entries.find? (fun entry => q entry && decide (entry.slot = slot)) = (d.held slot).find? q := by
  rw [held, List.find?_filter]
  congr 1
  funext entry
  rw [Bool.decide_and, Bool.decide_eq_true, Bool.decide_eq_true, Bool.and_comm]

theorem held_eraseP_self (d : Directory) (q : Registration → Bool) (slot : Role × String) :
    (⟨d.entries.eraseP fun entry => q entry && decide (entry.slot = slot)⟩ : Directory).held slot =
      (d.held slot).eraseP q :=
  List.eraseP_filter.symm

theorem held_eraseP_of_ne {p : Registration → Bool}
    (h : ∀ entry, p entry = true → entry.slot ≠ slot) :
    (⟨d.entries.eraseP p⟩ : Directory).held slot = d.held slot := by
  rcases List.exists_or_eq_self_of_eraseP p d.entries with
    hsame | ⟨gone, front, back, -, hgone, hbefore, hafter⟩
  · rw [hsame]
  · rw [held, hafter, held, hbefore]
    simp [h gone hgone]

theorem held_concat (d : Directory) (entry : Registration) (slot : Role × String) :
    (⟨d.entries ++ [entry]⟩ : Directory).held slot =
      d.held slot ++ if entry.slot = slot then [entry] else [] := by
  rw [held, List.filter_append]
  by_cases hsame : entry.slot = slot
  · simp [hsame, held]
  · simp [hsame, held]

/-- Directories that hold the same of every instance have the same entries, in some order. The order
of the directory is the only thing that two deeds leave behind of their own order. -/
theorem perm_of_held {d d' : Directory} (h : ∀ slot, d.held slot = d'.held slot) :
    d.entries.Perm d'.entries := by
  rw [List.perm_iff_count]
  intro entry
  have hcount (d : Directory) : (d.held entry.slot).count entry = d.entries.count entry :=
    List.count_filter (decide_eq_true rfl)
  rw [← hcount d, ← hcount d', h]

end Directory

/-! ## Other identifiers -/

/-- A registration with its identifier renamed. -/
def Registration.renamed (f : InstanceId → InstanceId) (reg : Registration) : Registration :=
  { reg with id := f reg.id }

/-- An admission with all its identifiers renamed. -/
def Admission.renamed (f : InstanceId → InstanceId) (a : Admission) : Admission where
  id := f a.id
  registration := a.registration.renamed f
  entry := a.entry.renamed f
  inserted := a.inserted

theorem Registration.renamed_of_fixed {f : InstanceId → InstanceId} {reg : Registration}
    (h : f reg.id = reg.id) : reg.renamed f = reg := by
  rw [renamed, h]

theorem map_renamed_of_fixed {f : InstanceId → InstanceId} {regs : List Registration}
    (h : ∀ reg ∈ regs, f reg.id = reg.id) : regs.map (Registration.renamed f) = regs := by
  rw [List.map_congr_left fun reg hreg => Registration.renamed_of_fixed (h reg hreg), List.map_id']

theorem Directory.held_renamed (d : Directory) (f : InstanceId → InstanceId) (slot : Role × String) :
    (⟨d.entries.map (Registration.renamed f)⟩ : Directory).held slot =
      (d.held slot).map (Registration.renamed f) := by
  rw [held, List.filter_map]
  rfl

/-! ## Deeds -/

/-- A step that concerns one instance: it looks at what the directory holds of that instance and at
nothing else there. -/
inductive Deed where
  | enroll (reg : Registration)
  | remove (role : Role) (url : String)
  | evict (stale : Registration)
  deriving Repr, DecidableEq

/-- What the caller of a deed is told. -/
inductive Deed.Answer where
  | admitted (a : Admission)
  | taken (gone : Registration)
  | refused (e : RegistryError)
  deriving Repr, DecidableEq

/-- An answer with the identifiers of its admission renamed; a departure is told as it is. -/
def Deed.Answer.renamed (f : InstanceId → InstanceId) : Deed.Answer → Deed.Answer
  | admitted a => admitted (a.renamed f)
  | taken gone => taken gone
  | refused e => refused e

namespace Deed

/-- Which instance a deed concerns. A deed that finds an entry by its identifier concerns the
instance of that entry. -/
def slot : Deed → Role × String
  | enroll reg => reg.slot
  | remove role url => (role, url)
  | evict stale => stale.slot

/-- Whether a deed mints an identifier. -/
def mints : Deed → Bool
  | enroll _ => true
  | remove .. | evict _ => false

/-- Takes an entry out of what is held of an instance. -/
def takeOut (q : Registration → Bool) (failure : RegistryError) (held : List Registration) :
    List Registration × Answer :=
  match held.find? q with
  | some gone => (held.eraseP q, .taken gone)
  | none => (held, .refused failure)

/-- What a deed does to what is held of its instance, and what its caller is told, if `id` is the next
identifier. -/
def onSlot (id : InstanceId) (held : List Registration) : Deed → List Registration × Answer
  | enroll reg =>
    let reg := { reg with id := id }
    match held with
    | [] => ([reg], .admitted ⟨id, reg, reg, true⟩)
    | kept :: rest => (kept :: rest, .admitted ⟨id, reg, kept, false⟩)
  | remove role url => takeOut (fun _ => true) (.notFound role url) held
  | evict stale => takeOut (·.id = stale.id) (.notFound stale.role stale.url) held

/-- Under another identifier a deed comes to the same, with that identifier in place of the old
one. -/
theorem onSlot_renamed {f : InstanceId → InstanceId} {id id' : InstanceId} {held : List Registration}
    (d : Deed) (hid : d.mints = true → f id = id') (hheld : ∀ entry ∈ held, f entry.id = entry.id) :
    d.onSlot id' held =
      ((d.onSlot id held).1.map (Registration.renamed f), (d.onSlot id held).2.renamed f) := by
  -- Taking out looks at nothing that the renaming changes.
  have htake (q : Registration → Bool) (failure : RegistryError) : takeOut q failure held =
      ((takeOut q failure held).1.map (Registration.renamed f),
        (takeOut q failure held).2.renamed f) := by
    unfold takeOut
    cases held.find? q with
    | none =>
        rw [map_renamed_of_fixed hheld]
        rfl
    | some gone =>
        rw [map_renamed_of_fixed fun entry hentry => hheld entry (List.mem_of_mem_eraseP hentry)]
        rfl
  cases d with
  | enroll reg =>
      obtain rfl := hid rfl
      cases held with
      | nil => rfl
      | cons kept rest =>
          have hkept := Registration.renamed_of_fixed (hheld kept List.mem_cons_self)
          simp only [onSlot, map_renamed_of_fixed hheld, Answer.renamed, Admission.renamed, hkept]
          rfl
  | remove role url => exact htake _ _
  | evict stale => exact htake _ _

end Deed

/-! ## One deed -/

theorem Directory.held_enroll (d : Directory) (id : InstanceId) (reg : Registration) :
    ((d.enroll id reg).1.held reg.slot, Deed.Answer.admitted (d.enroll id reg).2) =
      (Deed.enroll reg).onSlot id (d.held reg.slot) := by
  have hfind : d.find? reg.role reg.url = (d.held reg.slot).head? := d.find?_eq_head? reg.role reg.url
  rw [enroll]
  dsimp only
  rw [hfind]
  cases hheld : d.held reg.slot with
  | nil =>
      have hnew : (⟨d.entries ++ [{ reg with id := id }]⟩ : Directory).held reg.slot =
          [{ reg with id := id }] := by
        rw [held_concat, hheld]
        exact if_pos rfl
      rw [List.head?_nil]
      dsimp only
      rw [hnew]
      rfl
  | cons kept rest =>
      rw [List.head?_cons]
      dsimp only
      rw [hheld]
      rfl

theorem Directory.held_enroll_of_ne (d : Directory) (id : InstanceId) {reg : Registration}
    {slot : Role × String} (h : slot ≠ reg.slot) : (d.enroll id reg).1.held slot = d.held slot := by
  rw [enroll]
  dsimp only
  split
  · rfl
  · rw [held_concat]
    exact (congrArg (d.held slot ++ ·) (if_neg (Ne.symm h))).trans (List.append_nil _)

namespace Registry

/-- What a caller is told who has tried to take an entry out. -/
def answerOf : Except RegistryError (Registry × Registration) → Deed.Answer
  | .ok (_, gone) => .taken gone
  | .error e => .refused e

/-- Carries out a deed; one that is refused changes nothing. -/
def carryOut (r : Registry) : Deed → Registry × Deed.Answer
  | .enroll reg => ((r.enroll reg).1, .admitted (r.enroll reg).2)
  | .remove role url => (r.afterAttempt (r.remove role url), answerOf (r.remove role url))
  | .evict stale => (r.afterAttempt (r.evict stale), answerOf (r.evict stale))

/-- What a deed has done to its own slot, and that it has done nothing to any other one. -/
structure CarriedOut (r : Registry) (d : Deed) (after : Registry) (answer : Deed.Answer) : Prop where
  answer : answer = (d.onSlot r.nextId (r.directory.held d.slot)).2
  own : after.directory.held d.slot = (d.onSlot r.nextId (r.directory.held d.slot)).1
  other : ∀ slot, slot ≠ d.slot → after.directory.held slot = r.directory.held slot
  supply : after.supply = r.supply
  admissions : after.admissions = r.admissions + d.mints.toNat

theorem carriedOut_of_takeFirst {r : Registry} {d : Deed} {q : Registration → Bool}
    {failure : RegistryError} (hmints : d.mints = false)
    (hat : ∀ id held, d.onSlot id held = Deed.takeOut q failure held) :
    let done := match r.depart (r.directory.takeFirst? fun entry =>
        q entry && decide (entry.slot = d.slot)) with
      | some done => .ok done
      | none => .error failure
    r.CarriedOut d (r.afterAttempt done) (answerOf done) := by
  have hfind := r.directory.find?_slot q d.slot
  have hadmissions : r.admissions = r.admissions + d.mints.toNat := by rw [hmints]; rfl
  unfold Directory.takeFirst?
  cases hheld : (r.directory.held d.slot).find? q with
  | none =>
      have hdone : d.onSlot r.nextId (r.directory.held d.slot) =
          (r.directory.held d.slot, .refused failure) := by
        rw [hat, Deed.takeOut, hheld]
      rw [hfind, hheld]
      exact ⟨by rw [hdone]; rfl, by rw [hdone]; rfl, fun _ _ => rfl, rfl, hadmissions⟩
  | some gone =>
      have hdone : d.onSlot r.nextId (r.directory.held d.slot) =
          ((r.directory.held d.slot).eraseP q, .taken gone) := by
        rw [hat, Deed.takeOut, hheld]
      rw [hfind, hheld]
      refine ⟨by rw [hdone]; rfl, ?_, fun slot hslot => ?_, rfl, hadmissions⟩
      · rw [hdone]
        exact r.directory.held_eraseP_self q d.slot
      · refine Directory.held_eraseP_of_ne fun entry hentry heq => hslot ?_
        rw [← heq]
        exact of_decide_eq_true (Bool.and_eq_true_iff.mp hentry).2

/-- A deed does to the slot of its instance what is said there, and nothing to any other one. Deeds
at different slots therefore do not meet. -/
theorem carryOut_spec (r : Registry) (d : Deed) :
    r.CarriedOut d (r.carryOut d).1 (r.carryOut d).2 := by
  cases d with
  | enroll reg =>
      have hown := r.directory.held_enroll r.nextId reg
      have hother := fun slot (hslot : slot ≠ reg.slot) =>
        r.directory.held_enroll_of_ne r.nextId hslot
      exact ⟨congrArg Prod.snd hown, congrArg Prod.fst hown, hother, rfl, rfl⟩
  | remove role url =>
      have hplace : Directory.isAt role url =
          fun entry => (fun _ => true) entry && decide (entry.slot = (role, url)) := by
        funext entry
        rw [Directory.isAt_eq, Bool.true_and]
      rw [carryOut, remove, Directory.remove?, hplace]
      exact carriedOut_of_takeFirst (d := .remove role url) rfl fun _ _ => rfl
  | evict stale =>
      have hplace : (fun entry => Directory.isAt stale.role stale.url entry &&
            decide (entry.id = stale.id)) =
          fun entry => decide (entry.id = stale.id) && decide (entry.slot = stale.slot) := by
        funext entry
        rw [Directory.isAt_eq, Bool.and_comm]
        rfl
      rw [carryOut, evict, Directory.evict?, hplace]
      exact carriedOut_of_takeFirst (d := .evict stale) rfl fun _ _ => rfl

/-! ## Two deeds -/

/-- Two deeds, `d` and then `e`. -/
def carryOutBoth (r : Registry) (d e : Deed) : Registry := ((r.carryOut d).1.carryOut e).1

/-- Two deeds come to the same in either order, but for a renaming of the identifiers that they
mint. -/
structure Interchange (f : Equiv.Perm InstanceId) (r : Registry) (d e : Deed) : Prop where
  /-- Nothing is renamed but what the two deeds have minted. -/
  fresh : ∀ id, f id ≠ id → ¬ r.Minted id ∧ (r.carryOutBoth d e).Minted id
  first : ((r.carryOut e).1.carryOut d).2 = (r.carryOut d).2.renamed f
  second : (r.carryOut e).2 = ((r.carryOut d).1.carryOut e).2.renamed f
  query : ∀ role, ((r.carryOutBoth e d).query role).Perm
    (((r.carryOutBoth d e).query role).map (Registration.renamed f))
  size : (r.carryOutBoth e d).directory.size = (r.carryOutBoth d e).directory.size
  registered : ∀ id, r.Minted id →
    (r.carryOutBoth e d).directory.isRegistered id = (r.carryOutBoth d e).directory.isRegistered id

theorem nextId_carryOut (r : Registry) (d : Deed) :
    (r.carryOut d).1.nextId = r.supply.mint (r.admissions + d.mints.toNat + 1) := by
  have hspec := r.carryOut_spec d
  rw [nextId, hspec.supply, hspec.admissions]

theorem nextId_of_not_mints {r : Registry} {d : Deed} (h : d.mints = false) :
    (r.carryOut d).1.nextId = r.nextId := by
  rw [nextId_carryOut, h]
  rfl

/-- What two admissions mint has not been minted before. -/
theorem fresh_of_swap {r : Registry} {d e : Deed} (hd : d.mints = true) (he : e.mints = true)
    {id : InstanceId} (hid : Equiv.swap r.nextId (r.carryOut d).1.nextId id ≠ id) :
    ¬ r.Minted id ∧ (r.carryOutBoth d e).Minted id := by
  have hfirst := r.carryOut_spec d
  have hboth := (r.carryOut d).1.carryOut_spec e
  have hsupply : (r.carryOutBoth d e).supply = r.supply := hboth.supply.trans hfirst.supply
  have hadmissions : (r.carryOutBoth d e).admissions = r.admissions + 2 := by
    rw [carryOutBoth, hboth.admissions, hfirst.admissions, hd, he]
    rfl
  have hsecond : (r.carryOut d).1.nextId = r.supply.mint (r.admissions + 1 + 1) := by
    rw [nextId_carryOut, hd]
    rfl
  obtain ⟨n, hnew, hcount, rfl⟩ : ∃ n, r.admissions ≤ n ∧ n < r.admissions + 2 ∧
      r.supply.mint (n + 1) = id := by
    by_cases hnow : id = r.nextId
    · exact ⟨r.admissions, Nat.le_refl _, by omega, hnow.symm⟩
    by_cases hnext : id = (r.carryOut d).1.nextId
    · exact ⟨r.admissions + 1, by omega, by omega, hsecond.symm.trans hnext.symm⟩
    · exact absurd (Equiv.swap_apply_of_ne_of_ne hnow hnext) hid
  refine ⟨?_, n, by rwa [hadmissions], by rw [hsupply]⟩
  rintro ⟨m, hm, hmint⟩
  have hsame := r.supply.injective _ _ hmint
  omega

/-- The identifiers that two deeds get, renamed to those that they get in the other order. If both
admit, the two identifiers are swapped. -/
theorem exists_renaming (r : Registry) (d e : Deed) :
    ∃ f : Equiv.Perm InstanceId,
      (∀ id, f id ≠ id → ¬ r.Minted id ∧ (r.carryOutBoth d e).Minted id) ∧
      (d.mints = true → f r.nextId = (r.carryOut e).1.nextId) ∧
      (e.mints = true → f (r.carryOut d).1.nextId = r.nextId) := by
  have hsame (id : InstanceId) (h : Equiv.refl InstanceId id ≠ id) :
      ¬ r.Minted id ∧ (r.carryOutBoth d e).Minted id := absurd rfl h
  cases hd : d.mints with
  | false => exact ⟨Equiv.refl _, hsame, nofun, fun _ => nextId_of_not_mints hd⟩
  | true =>
      cases he : e.mints with
      | false => exact ⟨Equiv.refl _, hsame, fun _ => (nextId_of_not_mints he).symm, nofun⟩
      | true =>
          refine ⟨Equiv.swap r.nextId (r.carryOut d).1.nextId, fun id => fresh_of_swap hd he,
            fun _ => ?_, fun _ => Equiv.swap_apply_right _ _⟩
          rw [Equiv.swap_apply_left, nextId_carryOut, nextId_carryOut, hd, he]

/-- Two deeds at different instances may change places, in every state that a registry can get into:
each of them comes to the same, and so does the table. -/
theorem deeds_interchange (settings : RegistrySettings) (supply : IdSupply) (actions : List Action)
    {d e : Deed} (hslot : d.slot ≠ e.slot) :
    ∃ f, Interchange f ((empty settings supply).actAll actions) d e := by
  generalize hr : (empty settings supply).actAll actions = r
  have hcoherent : r.Coherent := hr ▸ (Coherent.empty settings supply).actAll actions
  obtain ⟨f, hfresh, hd, he⟩ := r.exists_renaming d e
  have hfixed (id : InstanceId) (hid : r.Minted id) : f id = id :=
    by_contra fun hne => (hfresh id hne).1 hid
  have hheld (slot : Role × String) : ∀ entry ∈ r.directory.held slot, f entry.id = entry.id :=
    fun entry hentry => hfixed entry.id
      (hcoherent.minted entry (Directory.mem_held.mp hentry).1)
  have hfirst := r.carryOut_spec d
  have hfirst' := (r.carryOut d).1.carryOut_spec e
  have hlast := r.carryOut_spec e
  have hlast' := (r.carryOut e).1.carryOut_spec d
  -- Neither deed finds anything else at its own slot for the other one having been done before.
  have hown := hlast.other d.slot hslot
  have hother := hfirst.other e.slot (Ne.symm hslot)
  have hrenamed := d.onSlot_renamed hd (hheld d.slot)
  have hrenamed' := e.onSlot_renamed he (hheld e.slot)
  let renamed : Directory := ⟨(r.carryOutBoth d e).directory.entries.map (Registration.renamed f)⟩
  -- Slot by slot: the two have done the same at their own, and nothing at any other.
  have hslots (slot : Role × String) :
      (r.carryOutBoth e d).directory.held slot = renamed.held slot := by
    rw [Directory.held_renamed, carryOutBoth, carryOutBoth]
    by_cases hatd : slot = d.slot
    · rw [hatd, hlast'.own, hown, hrenamed, hfirst'.other _ hslot, hfirst.own]
    by_cases hate : slot = e.slot
    · rw [hate, hlast'.other _ (Ne.symm hslot), hlast.own, hfirst'.own, hother, hrenamed']
    · rw [hlast'.other _ hatd, hlast.other _ hate, hfirst'.other _ hate, hfirst.other _ hatd,
        map_renamed_of_fixed (hheld slot)]
  have hperm := Directory.perm_of_held hslots
  refine ⟨f, hfresh, ?_, ?_, fun role => ?_, ?_, fun id hid => ?_⟩
  · rw [hlast'.answer, hown, hrenamed, hfirst.answer]
  · rw [hlast.answer, hfirst'.answer, hother, hrenamed']
  · have hrole := hperm.filter (·.role = role)
    rwa [List.filter_map] at hrole
  · exact hperm.length_eq.trans (List.length_map _)
  · rw [Bool.eq_iff_iff, Directory.isRegistered_iff, Directory.isRegistered_iff]
    constructor
    · rintro ⟨entry, hentry, rfl⟩
      obtain ⟨other, hmem, rfl⟩ := List.mem_map.mp (hperm.mem_iff.mp hentry)
      exact ⟨other, hmem, (f.injective (hfixed _ hid)).symm⟩
    · rintro ⟨entry, hentry, rfl⟩
      exact ⟨entry.renamed f, hperm.mem_iff.mpr (List.mem_map_of_mem hentry), hfixed _ hid⟩

/-- A log and another one come to a registry where a third one is, and a web server leaves the address
of the first. The two logs get their identifiers, and stand in the table, in the order in which they
come. -/
theorem logs_interchange :
    let supply : IdSupply := .numbered 'i' [] [] 'd' (by decide) (by decide)
    let log (url : String) : Registration := { role := .log, url := url }
    let web : Registration := { role := .web, url := "http://b" }
    let r := (empty ⟨⟨60⟩, ⟨9⟩, ⟨9⟩, 1⟩ supply).actAll [.enroll (log "http://a"), .enroll web]
    let ids (r : Registry) := (r.query .log).map fun entry => (entry.url, entry.id.text)
    (∃ f, Interchange f r (.enroll (log "http://b")) (.enroll (log "http://c"))) ∧
    ids (r.carryOutBoth (.enroll (log "http://b")) (.enroll (log "http://c"))) =
      [("http://a", "i1d"), ("http://b", "i3d"), ("http://c", "i4d")] ∧
    ids (r.carryOutBoth (.enroll (log "http://c")) (.enroll (log "http://b"))) =
      [("http://a", "i1d"), ("http://c", "i3d"), ("http://b", "i4d")] ∧
    ∃ f, Interchange f r (.enroll (log "http://b")) (.remove .web "http://b") := by
  intro supply log web r ids
  refine ⟨deeds_interchange _ supply _ (by decide), ?_, ?_,
    deeds_interchange _ supply _ (by decide)⟩
  · decide +kernel
  · decide +kernel

end Registry
end Rollcall
