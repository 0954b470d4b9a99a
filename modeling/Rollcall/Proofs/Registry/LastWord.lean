import Rollcall.Proofs.Registry.Issued
import Rollcall.Proofs.Registry.Traffic

/-!
# The last word on an instance

An instance that depends on the role of another one hears when that one comes and when it goes.
Between the admission of a provider and its announcement others may come, and one of them may take
the provider out again: then the news that it has come is issued last, and stays the last word.

Main statement: `last_word_agrees_iff`. When no call is in progress, the last word on a provider
agrees with the directory exactly if no announcement of the provider was outstanding when it was
taken out. `announced_after_removal` is a run in which one was.
-/

namespace Rollcall

/-! ## Words -/

/-- Whether a patch says something about an identifier. -/
def Patch.mentions (id : InstanceId) (p : Patch) : Bool :=
  p.added.any (·.id = id) || p.removed.any (·.id = id)

/-- Whether a patch lists an identifier under what it adds. -/
def Patch.adds (id : InstanceId) (p : Patch) : Bool := p.added.any (·.id = id)

/-- The last of the patches that say something about an identifier, if one does. -/
def lastWord? (id : InstanceId) (patches : List Patch) : Option Patch :=
  (patches.filter (·.mentions id)).getLast?

theorem lastWord?_append (id : InstanceId) (patches more : List Patch) :
    lastWord? id (patches ++ more) = (lastWord? id more).or (lastWord? id patches) := by
  rw [lastWord?, List.filter_append, List.getLast?_append]
  rfl

/-- The last word is that the identifier is there. Without any word it is not. -/
def SaysPresent (id : InstanceId) (patches : List Patch) : Prop :=
  ∃ p, lastWord? id patches = some p ∧ p.adds id = true

variable {id : InstanceId} {patches more : List Patch}

theorem saysPresent_append (hpatches : SaysPresent id patches)
    (hmore : ∀ p ∈ more, p.mentions id = true → p.adds id = true) :
    SaysPresent id (patches ++ more) := by
  rw [SaysPresent, lastWord?_append]
  cases hlast : lastWord? id more with
  | none => exact hpatches
  | some p =>
      obtain ⟨hmem, hmentions⟩ := List.mem_filter.mp (List.mem_of_getLast? hlast)
      exact ⟨p, rfl, hmore p hmem hmentions⟩

theorem saysPresent_append_of_silent (hmore : ∀ p ∈ more, p.mentions id = false) :
    SaysPresent id (patches ++ more) ↔ SaysPresent id patches := by
  have hnone : lastWord? id more = none := by
    rw [lastWord?, List.filter_eq_nil_iff.mpr]
    · rfl
    · intro p hp hmentions
      rw [hmore p hp] at hmentions
      cases hmentions
  rw [SaysPresent, lastWord?_append, hnone, Option.none_or]
  rfl

theorem not_saysPresent {p : Patch} (hlast : lastWord? id patches = some p)
    (hp : p.adds id = false) : ¬ SaysPresent id patches := by
  rintro ⟨q, hq, hadds⟩
  rw [hlast] at hq
  obtain rfl := Option.some.inj hq
  rw [hp] at hadds
  cases hadds

theorem lastWord?_concat {p : Patch} (hp : p.mentions id = true) :
    lastWord? id (patches ++ [p]) = some p := by
  rw [lastWord?, List.filter_append, List.filter_cons_of_pos hp]
  simp

namespace Registry

variable {r : Registry} {x : Action} {me provider : Registration} {p : Patch}

/-- A provider that is there before and after an action is mentioned as one that is there, if at
all. -/
theorem adds_of_stays (hr : r.Coherent) (hbefore : provider ∈ r.directory.entries)
    (hafter : provider ∈ (r.act x).directory.entries) (hp : p ∈ r.issuedTo me [x])
    (hmentions : p.mentions provider.id = true) : p.adds provider.id = true := by
  rcases mem_issuedTo_cases hp with ⟨a, -, rfl⟩ | ⟨a, -, rfl⟩ | ⟨gone, hdep, rfl⟩
  · simpa [Patch.mentions, Patch.adds, Directory.catchUp, Patch.ofAdded] using hmentions
  · simpa [Patch.mentions, Patch.adds, Patch.ofAdded] using hmentions
  · obtain ⟨hgone, hentries⟩ := hr.entries_of_departure hdep
    have hid : gone.id = provider.id := by
      simpa [Patch.mentions, Patch.ofRemoved] using hmentions
    rw [hentries, hr.sound.eq_of_id hgone hbefore hid] at hafter
    simp at hafter

/-- A provider that is not there is mentioned in the announcement of an entry with its identifier
only. -/
theorem announces_of_absent (hr : r.Coherent)
    (habsent : ∀ entry ∈ r.directory.entries, entry.id ≠ provider.id) (hp : p ∈ r.issuedTo me [x])
    (hmentions : p.mentions provider.id = true) :
    p.adds provider.id = true ∧ ∃ a, x = .announce a ∧ a.entry.id = provider.id := by
  rcases mem_issuedTo_cases hp with ⟨a, -, rfl⟩ | ⟨a, rfl, rfl⟩ | ⟨gone, hdep, rfl⟩
  · have hadds : (r.directory.catchUp a.registration).adds provider.id = true := by
      simpa [Patch.mentions, Patch.adds, Directory.catchUp, Patch.ofAdded] using hmentions
    obtain ⟨entry, hentry, hid⟩ := List.any_eq_true.mp hadds
    exact absurd (of_decide_eq_true hid) (habsent entry (Directory.mem_catchUp.mp hentry).1)
  · have hid : a.entry.id = provider.id := by
      simpa [Patch.mentions, Patch.ofAdded] using hmentions
    refine ⟨?_, a, rfl, hid⟩
    simpa [Patch.adds, Patch.ofAdded] using hid
  · have hid : gone.id = provider.id := by
      simpa [Patch.mentions, Patch.ofRemoved] using hmentions
    exact absurd hid (habsent gone (hr.entries_of_departure hdep).1)

theorem saysPresent_of_announce (hr : r.Coherent) (hme : me ∈ r.directory.entries)
    (hother : me.sameInstance provider = false) (hasked : me.dependsOn provider.role = true)
    {a : Admission} (ha : a.entry = provider) (patches : List Patch) :
    SaysPresent provider.id (patches ++ r.issuedTo me [.announce a]) := by
  have hnews : r.newsTo me (.announce a) = [.ofAdded [provider]] := by
    rw [hr.newsTo_announce hme, ha, if_pos ⟨hother, hasked⟩]
  simp only [issuedTo, hnews, List.append_nil, ← List.append_assoc]
  refine ⟨_, lastWord?_concat ?_, ?_⟩
  · simp [Patch.mentions, Patch.ofAdded]
  · simp [Patch.adds, Patch.ofAdded]

theorem not_saysPresent_of_departure (hr : r.Coherent) (hme : me ∈ r.directory.entries)
    (hother : me.sameInstance provider = false) (hasked : me.dependsOn provider.role = true)
    (hdep : r.departure? x = some provider) (patches : List Patch) :
    ¬ SaysPresent provider.id (patches ++ r.issuedTo me [x]) := by
  have hne : me ≠ provider := by
    rintro rfl
    rw [Registration.sameInstance_self] at hother
    cases hother
  have hnot : ∀ a, x ≠ .announce a := by
    rintro a rfl
    cases hdep
  simp only [issuedTo, r.catchUpTo_of_not_announce me hnot, hr.newsTo_departure hme hdep hne,
    if_pos hasked, List.append_nil, List.nil_append]
  refine not_saysPresent (lastWord?_concat ?_) ?_
  · simp [Patch.mentions, Patch.ofRemoved]
  · simp [Patch.adds, Patch.ofRemoved]

end Registry

/-! ## What a run says -/

namespace Traffic

open Registry

variable {me provider : Registration} {t : Traffic} {m : Move}

/-- Some call in progress has still to announce a provider, which may have left in the meantime. -/
def Outstanding (provider : Registration) (t : Traffic) : Prop :=
  ∃ e ∈ t.errands, ∃ a, e.unannounced? = some a ∧ a.entry = provider

/-- What is outstanding stays so until it is announced. -/
theorem Outstanding.move (h : t.Outstanding provider) (m : Move) :
    (t.move m).Outstanding provider ∨
      ∃ a, t.action? m = some (.announce a) ∧ a.entry = provider := by
  obtain ⟨e, he, a, ha, hentry⟩ := h
  rcases unannounced_stays he ha m with ⟨e', he', ha'⟩ | haction
  · exact Or.inl ⟨e', he', a, ha', hentry⟩
  · exact Or.inr ⟨a, haction, hentry⟩

/-- No announcement becomes outstanding by a move after which the provider is not there: it would
take an admission, and whoever has been admitted is there. -/
theorem not_outstanding_move (hnone : ¬ t.Outstanding provider)
    (hgone : provider ∉ (t.move m).registry.directory.entries) :
    ¬ (t.move m).Outstanding provider := by
  rintro ⟨e, he, a, ha, hentry⟩
  rcases unannounced_move he ha with ⟨old, hold, hheld⟩ | ⟨reg, haction, rfl⟩
  · exact hnone ⟨old, hold, a, hheld, hentry⟩
  · have hmem := mem_move_of_enroll haction
    rw [hentry] at hmem
    exact hgone hmem

/-- Nobody in the directory has the identifier of a provider. -/
def Absent (provider : Registration) (t : Traffic) : Prop :=
  ∀ entry ∈ t.registry.directory.entries, entry.id ≠ provider.id

/-- The provider has been admitted, and its identifier belongs to nobody else. -/
structure Admitted (provider : Registration) (t : Traffic) : Prop where
  coherent : t.registry.Coherent
  minted : t.registry.Minted provider.id
  present_or_absent : provider ∈ t.registry.directory.entries ∨ t.Absent provider
  own : ∀ e ∈ t.errands, ∀ a, e.unannounced? = some a → a.entry.id = provider.id →
    a.entry = provider

/-- What a move issues to an instance. -/
def told (me : Registration) (t : Traffic) (m : Move) : List Patch :=
  t.registry.issuedTo me (t.action? m).toList

theorem absent_move (hminted : t.registry.Minted provider.id) (h : t.Absent provider) (m : Move) :
    (t.move m).Absent provider := by
  intro entry hentry
  rw [registry_move] at hentry
  exact not_registered_actAll hminted h _ entry hentry

namespace Admitted

theorem move (h : t.Admitted provider) (m : Move) : (t.move m).Admitted provider := by
  have hcoherent : (t.move m).registry.Coherent := coherent_run h.coherent [m]
  have hminted : (t.move m).registry.Minted provider.id := by
    rw [registry_move]
    exact h.minted.actAll _
  have hlife : provider ∈ (t.move m).registry.directory.entries ∨ (t.move m).Absent provider := by
    rcases h.present_or_absent with hpresent | habsent
    · rw [Absent, registry_move]
      cases t.action? m with
      | none => exact Or.inl hpresent
      | some x => exact h.coherent.stays_or_goes hpresent x
    · exact Or.inr (absent_move h.minted habsent m)
  refine ⟨hcoherent, hminted, hlife, fun e he a ha hid => ?_⟩
  rcases unannounced_move he ha with ⟨old, hold, hheld⟩ | ⟨reg, haction, rfl⟩
  · exact h.own old hold a hheld hid
  -- A new admission: its entry is in the directory, where the identifier is the provider's.
  · have hmem := mem_move_of_enroll haction
    rcases hlife with hpresent | habsent
    · exact hcoherent.sound.eq_of_id hmem hpresent hid
    · exact absurd hid (habsent _ hmem)

/-- Whether the provider is present, or gone with an announcement outstanding: an announcement that
is outstanding stays so, or is the last word on the provider. -/
theorem outstanding_or_said (h : t.Admitted provider) (hme : me ∈ t.registry.directory.entries)
    (hother : me.sameInstance provider = false) (hasked : me.dependsOn provider.role = true)
    (hmore : ∀ p ∈ t.told me m, p.mentions provider.id = true → p.adds provider.id = true)
    {patches : List Patch} (hso : t.Outstanding provider ∨ SaysPresent provider.id patches) :
    (t.move m).Outstanding provider ∨ SaysPresent provider.id (patches ++ t.told me m) := by
  rcases hso with houtstanding | hsaid
  · rcases houtstanding.move m with hstill | ⟨a, haction, hentry⟩
    · exact Or.inl hstill
    · right
      rw [told, haction]
      exact saysPresent_of_announce h.coherent hme hother hasked hentry patches
  · exact Or.inr (saysPresent_append hsaid hmore)

theorem told_of_stays (h : t.Admitted provider) (hbefore : provider ∈ t.registry.directory.entries)
    (hafter : provider ∈ (t.move m).registry.directory.entries) :
    ∀ p ∈ t.told me m, p.mentions provider.id = true → p.adds provider.id = true := by
  intro p hp hmentions
  rw [registry_move] at hafter
  rw [told] at hp
  cases haction : t.action? m with
  | none =>
      rw [haction] at hp
      cases hp
  | some x =>
      rw [haction] at hp hafter
      exact adds_of_stays h.coherent hbefore hafter hp hmentions

theorem told_of_absent (h : t.Admitted provider) (habsent : t.Absent provider) :
    ∀ p ∈ t.told me m, p.mentions provider.id = true →
      p.adds provider.id = true ∧ t.Outstanding provider := by
  intro p hp hmentions
  rw [told] at hp
  cases haction : t.action? m with
  | none =>
      rw [haction] at hp
      cases hp
  | some x =>
      rw [haction] at hp
      obtain ⟨hadds, a, rfl, hid⟩ := announces_of_absent h.coherent habsent hp hmentions
      obtain ⟨e, he, ha⟩ := unannounced_of_announce haction
      exact ⟨hadds, e, he, a, ha, h.own e he a ha hid⟩

end Admitted

/-! ## Gone for good -/

/-- With an announcement outstanding when the provider went, the last word will be that it is
there. -/
theorem run_of_late {moves : List Move} (patches : List Patch) (h : t.Admitted provider)
    (habsent : t.Absent provider)
    (hother : me.sameInstance provider = false) (hasked : me.dependsOn provider.role = true)
    (hme : me ∈ t.registry.directory.entries)
    (hstays : me ∈ (t.run moves).registry.directory.entries) (hidle : (t.run moves).errands = [])
    (hso : t.Outstanding provider ∨ SaysPresent provider.id patches) :
    SaysPresent provider.id (patches ++ t.registry.issuedTo me (t.actionsOf moves)) := by
  induction moves generalizing t patches with
  | nil =>
      rcases hso with ⟨e, he, -⟩ | hsaid
      · rw [run_nil] at hidle
        rw [hidle] at he
        cases he
      · simpa [actionsOf, issuedTo] using hsaid
  | cons m moves ih =>
      have hnext : me ∈ (t.move m).registry.directory.entries :=
        mem_between h.coherent hme [m] moves hstays
      have hso' := h.outstanding_or_said hme hother hasked
        (fun p hp hmentions => (h.told_of_absent (m := m) habsent p hp hmentions).1) hso
      rw [actionsOf, issuedTo_append, ← List.append_assoc, ← registry_move]
      exact ih _ (h.move m) (absent_move h.minted habsent m) hnext hstays hidle hso'

/-- Without an announcement outstanding the last word on a provider that has left stays what it
is. -/
theorem run_of_clean {moves : List Move} (patches : List Patch) (h : t.Admitted provider)
    (habsent : t.Absent provider) (hnone : ¬ t.Outstanding provider) :
    SaysPresent provider.id (patches ++ t.registry.issuedTo me (t.actionsOf moves)) ↔
      SaysPresent provider.id patches := by
  induction moves generalizing t patches with
  | nil => simp [actionsOf, issuedTo]
  | cons m moves ih =>
      have hsilent : ∀ p ∈ t.told me m, p.mentions provider.id = false := by
        intro p hp
        rw [← Bool.not_eq_true]
        exact fun hmentions => hnone (h.told_of_absent habsent p hp hmentions).2
      have hnone' : ¬ (t.move m).Outstanding provider := by
        refine not_outstanding_move hnone fun hmem => ?_
        exact absent_move h.minted habsent m provider hmem rfl
      rw [actionsOf, issuedTo_append, ← List.append_assoc, ← registry_move,
        ih _ (h.move m) (absent_move h.minted habsent m) hnone']
      exact saysPresent_append_of_silent hsilent

/-! ## Leaving -/

/-- Whenever the provider is taken out, no announcement of it is outstanding. This is what the
registry does not see to by itself. -/
def LeavesQuietly (provider : Registration) (t : Traffic) (moves : List Move) : Prop :=
  ∀ mid m rest, moves = mid ++ m :: rest → provider ∈ (t.run mid).registry.directory.entries →
    provider ∉ (t.run (mid ++ [m])).registry.directory.entries → ¬ (t.run mid).Outstanding provider

theorem leavesQuietly_cons {moves : List Move} : t.LeavesQuietly provider (m :: moves) ↔
    (provider ∈ t.registry.directory.entries →
      provider ∉ (t.move m).registry.directory.entries → ¬ t.Outstanding provider) ∧
    (t.move m).LeavesQuietly provider moves := by
  constructor
  · intro h
    refine ⟨h [] m moves rfl, fun mid m' rest hsplit => ?_⟩
    exact h (m :: mid) m' rest (by rw [hsplit, List.cons_append])
  · rintro ⟨hfirst, hrest⟩ mid m' rest hsplit
    cases mid with
    | nil =>
        obtain ⟨rfl, -⟩ := List.cons.inj hsplit
        exact hfirst
    | cons m₀ mid =>
        obtain ⟨rfl, htail⟩ := List.cons.inj hsplit
        exact hrest mid m' rest htail

/-- Who has gone does not leave again. -/
theorem leavesQuietly_of_absent (moves : List Move) (hminted : t.registry.Minted provider.id)
    (habsent : t.Absent provider) : t.LeavesQuietly provider moves := by
  intro mid m rest _ hpresent
  rw [run_eq_actAll] at hpresent
  exact absurd rfl (not_registered_actAll hminted habsent _ provider hpresent)

/-- From a moment on at which the provider is there, and its announcement is outstanding or the
last word on it, until no call is in progress. -/
theorem run_of_live {moves : List Move} (patches : List Patch) (h : t.Admitted provider)
    (hpresent : provider ∈ t.registry.directory.entries)
    (hother : me.sameInstance provider = false) (hasked : me.dependsOn provider.role = true)
    (hme : me ∈ t.registry.directory.entries)
    (hstays : me ∈ (t.run moves).registry.directory.entries) (hidle : (t.run moves).errands = [])
    (hso : t.Outstanding provider ∨ SaysPresent provider.id patches) :
    (SaysPresent provider.id (patches ++ t.registry.issuedTo me (t.actionsOf moves)) ↔
      provider ∈ (t.run moves).registry.directory.entries) ↔ t.LeavesQuietly provider moves := by
  -- By induction on the moves, as long as the provider is there: either its announcement is still
  -- to come or the last that was said of it is that it is present.
  induction moves generalizing t patches with
  | nil =>
      have hsaid : SaysPresent provider.id patches := by
        rcases hso with ⟨e, he, -⟩ | hsaid
        · rw [run_nil] at hidle
          rw [hidle] at he
          cases he
        · exact hsaid
      have hquiet : t.LeavesQuietly provider [] := by
        intro mid m rest hsplit
        simp at hsplit
      simp only [actionsOf, issuedTo, List.append_nil, run_nil, hsaid, hpresent, hquiet]
  | cons m moves ih =>
      have hnext : me ∈ (t.move m).registry.directory.entries :=
        mem_between h.coherent hme [m] moves hstays
      rw [actionsOf, issuedTo_append, ← List.append_assoc, ← registry_move, leavesQuietly_cons,
        run_cons]
      by_cases hstill : provider ∈ (t.move m).registry.directory.entries
      -- The provider stays for now.
      · have hso' := h.outstanding_or_said hme hother hasked
          (h.told_of_stays hpresent hstill) hso
        rw [← told, ih _ (h.move m) hstill hnext hstays hidle hso']
        exact ⟨fun hquiet => ⟨fun _ hleft => absurd hstill hleft, hquiet⟩, And.right⟩
      -- It is taken out: there is an action that does so, and it issues the news of it.
      · have habsent := (h.move m).present_or_absent.resolve_left hstill
        have hgone : provider ∉ ((t.move m).run moves).registry.directory.entries := by
          intro hmem
          rw [run_eq_actAll] at hmem
          exact not_registered_actAll (h.move m).minted habsent _ provider hmem rfl
        have hquiet := leavesQuietly_of_absent moves (h.move m).minted habsent
        obtain ⟨x, haction, hdep⟩ := action_of_leaving hpresent hstill
        by_cases hout : t.Outstanding provider
        · -- Its announcement is still outstanding, so it is the last word, and a wrong one.
          have hout' : (t.move m).Outstanding provider := by
            rcases hout.move m with hout' | ⟨a, hannounce, -⟩
            · exact hout'
            · rw [haction] at hannounce
              obtain rfl := Option.some.inj hannounce
              cases hdep
          have hsaid := run_of_late (patches ++ t.told me m) (h.move m) habsent hother hasked hnext
            hstays hidle (Or.inl hout')
          constructor
          · exact fun hagree => absurd (hagree.mp hsaid) hgone
          · exact fun hquiet => absurd hout (hquiet.1 hpresent hstill)
        · -- Everything has been announced, so the last word is that it has gone.
          have hnone' := not_outstanding_move hout hstill
          have hnot := not_saysPresent_of_departure h.coherent hme hother hasked hdep patches
          rw [run_of_clean _ (h.move m) habsent hnone', haction, Option.toList_some]
          constructor
          · exact fun _ => ⟨fun _ _ => hout, hquiet⟩
          · exact fun _ => ⟨fun hsaid => absurd hsaid hnot, fun hmem => absurd hmem hgone⟩

/-! ## From the admission on -/

/-- The entries that are to be announced carry identifiers that have been minted. -/
def Announceable (t : Traffic) : Prop :=
  ∀ e ∈ t.errands, ∀ a, e.unannounced? = some a → t.registry.Minted a.entry.id

theorem announceable_run (moves : List Move) (hcoherent : t.registry.Coherent)
    (h : t.Announceable) : (t.run moves).Announceable := by
  induction moves generalizing t with
  | nil => exact h
  | cons m moves ih =>
      have hnext : (t.move m).registry.Coherent := coherent_run hcoherent [m]
      refine ih hnext fun e he a ha => ?_
      rcases unannounced_move he ha with ⟨old, hold, hheld⟩ | ⟨reg, haction, rfl⟩
      · rw [registry_move]
        exact (h old hold a hheld).actAll _
      · exact hnext.minted _ (mem_move_of_enroll haction)

/-- The moment of an admission that puts a provider in. -/
theorem admitted_of_enroll {reg : Registration} (hcoherent : t.registry.Coherent)
    (hannounceable : t.Announceable) (haction : t.action? m = some (.enroll reg))
    (hinserted : (t.registry.enroll reg).2.inserted = true) :
    let provider := (t.registry.enroll reg).2.entry
    (t.move m).Admitted provider ∧ (t.move m).Outstanding provider ∧
      provider ∈ (t.move m).registry.directory.entries := by
  intro provider
  have harrival : t.registry.arrival? (.enroll reg) = some provider := by
    rw [arrival?, if_pos hinserted]
  have hpresent : provider ∈ (t.move m).registry.directory.entries := mem_move_of_enroll haction
  obtain ⟨hnew, hminted⟩ := minted_of_arrival harrival
  have hregistry : (t.move m).registry = t.registry.act (.enroll reg) := by
    rw [registry_move, haction]
    rfl
  have hafter : (t.move m).registry.Coherent := coherent_run hcoherent [m]
  refine ⟨⟨hafter, hregistry ▸ hminted, Or.inl hpresent, ?_⟩, ?_, hpresent⟩
  · intro e he a ha hid
    rcases unannounced_move he ha with ⟨old, hold, hheld⟩ | ⟨again, hagain, rfl⟩
    · have hbefore := hannounceable old hold a hheld
      rw [hid] at hbefore
      exact absurd hbefore hnew
    · rw [haction] at hagain
      obtain rfl := Action.enroll.inj (Option.some.inj hagain)
      rfl
  · exact ⟨.record (t.registry.enroll reg).2, mem_errands_of_enroll haction, _, rfl, rfl⟩

/-- A provider is admitted while an instance that depends on its role is there, which stays. When
no call is in progress, the last word on the provider says that it is there if and only if it is:
this holds exactly if no announcement of the provider was outstanding when it was taken out. -/
theorem last_word_agrees_iff (settings : RegistrySettings) (supply : IdSupply) (clock : Instant)
    (before after : List Move) (m : Move) (reg me : Registration) :
    let start : Traffic := { registry := .empty settings supply, clock := clock }
    let t := start.run before
    let provider := (t.registry.enroll reg).2.entry
    let moves := before ++ m :: after
    let last := start.run moves
    t.action? m = some (.enroll reg) → (t.registry.enroll reg).2.inserted = true →
    me ∈ t.registry.directory.entries → me.dependsOn provider.role = true →
    me ∈ last.registry.directory.entries → last.errands = [] →
    ((SaysPresent provider.id (start.registry.issuedTo me (start.actionsOf moves)) ↔
      provider ∈ last.registry.directory.entries) ↔
      (t.move m).LeavesQuietly provider after) := by
  intro start t provider moves last haction hinserted hme hasked hstays hidle
  have hstart : start.registry.Coherent := .empty settings supply
  have hcoherent : t.registry.Coherent := coherent_run hstart before
  have hannounceable : t.Announceable :=
    announceable_run before hstart fun e he => absurd he List.not_mem_nil
  obtain ⟨hadmitted, houtstanding, hpresent⟩ :=
    admitted_of_enroll hcoherent hannounceable haction hinserted
  have harrival : t.registry.arrival? (.enroll reg) = some provider := by
    rw [arrival?, if_pos hinserted]
  have hother : me.sameInstance provider = false := (act_of_arrival harrival).2.1 me hme
  have hlast : last = (t.move m).run after := run_append _ _ _
  rw [hlast] at hstays hidle ⊢
  have hnext : me ∈ (t.move m).registry.directory.entries :=
    mem_between hcoherent hme [m] after hstays
  rw [actionsOf_append, issuedTo_append, ← run_eq_actAll, actionsOf, issuedTo_append,
    ← List.append_assoc, ← registry_move]
  exact run_of_live _ hadmitted hpresent hother hasked hnext hstays hidle (Or.inl houtstanding)

/-- A log comes, is announced, and goes: the last that the web hears of it is that it has gone. -/
theorem web_hears_of_departure :
    let supply : IdSupply := .numbered 'i' [] [] 'd' (by decide) (by decide)
    let start : Traffic := { registry := .empty ⟨⟨9⟩, ⟨9⟩, ⟨9⟩, 1⟩ supply }
    let web : Registration :=
      { role := .web, url := "http://r", requires := RoleSet.ofList [.log],
        updateUrl := "http://u" }
    let log : Registration := { role := .log, url := "http://p" }
    let before : List Move := [.visit (.register web), .advance 0, .advance 0, .advance 0,
      .visit (.register log)]
    let after : List Move := [.advance 0, .advance 0, .visit (.deregister .log "http://p"),
      .advance 0, .advance 0]
    let provider := ((start.run before).registry.enroll log).2.entry
    lastWord? provider.id (start.registry.issuedTo { web with id := supply.mint 1 }
        (start.actionsOf (before ++ .advance 0 :: after))) = some (.ofRemoved [provider]) ∧
      ((start.run before).move (.advance 0)).LeavesQuietly provider after := by
  intro supply start web log before after provider
  refine ⟨by decide +kernel, ?_⟩
  -- Laid open here, the run is not evaluated when the two sides are compared.
  dsimp only [provider, start]
  refine (last_word_agrees_iff ⟨⟨9⟩, ⟨9⟩, ⟨9⟩, 1⟩ supply ⟨0⟩ before after (.advance 0) log
    { web with id := supply.mint 1 } (by decide +kernel) (by decide +kernel) (by decide +kernel)
    (by decide +kernel) (by decide +kernel) (by decide +kernel)).mp (iff_of_false ?_ ?_)
  · refine not_saysPresent (p := .ofRemoved [{ log with id := supply.mint 2 }]) ?_ ?_
    · decide +kernel
    · decide +kernel
  · decide +kernel

/-- A log comes, and goes before it is announced: the last that the web hears of it is that it has
come. -/
theorem announced_after_removal :
    let supply : IdSupply := .numbered 'i' [] [] 'd' (by decide) (by decide)
    let start : Traffic := { registry := .empty ⟨⟨9⟩, ⟨9⟩, ⟨9⟩, 1⟩ supply }
    let web : Registration :=
      { role := .web, url := "http://r", requires := RoleSet.ofList [.log],
        updateUrl := "http://u" }
    let log : Registration := { role := .log, url := "http://p" }
    let before : List Move := [.visit (.register web), .advance 0, .advance 0, .advance 0,
      .visit (.register log)]
    let after : List Move := [.advance 0, .visit (.deregister .log "http://p"), .advance 1,
      .advance 1, .advance 0]
    let last := start.run (before ++ .advance 0 :: after)
    let me : Registration := { web with id := supply.mint 1 }
    let provider : Registration := { log with id := supply.mint 2 }
    me ∈ (start.run before).registry.directory.entries ∧
      me ∈ last.registry.directory.entries ∧ me.dependsOn provider.role = true ∧
      provider ∈ (start.run (before ++ [.advance 0])).registry.directory.entries ∧
      last.errands = [] ∧ provider ∉ last.registry.directory.entries ∧
      SaysPresent provider.id
        (start.registry.issuedTo me (start.actionsOf (before ++ .advance 0 :: after))) := by
  intro supply start web log before after last me provider
  exact ⟨by decide +kernel, by decide +kernel, by decide +kernel, by decide +kernel,
    by decide +kernel, by decide +kernel, .ofAdded [provider], by decide +kernel, by decide +kernel⟩

end Traffic
end Rollcall
