import Rollcall.Proofs.ProviderCache
import Rollcall.Proofs.Registry.Entries
import Rollcall.Proofs.Registry.Issued

/-!
# The cache mirrors the directory

An instance that takes in the patches issued to it, in the order in which they were issued, knows
of the roles it depends on exactly what the directory holds, itself left out.

`Mirrors` is the invariant between a directory and a cache. The first section shows that each kind
of patch keeps it, the second puts them together over the actions of an operation, and the third
over a whole run: `cache_mirrors_directory`.
-/

namespace Rollcall

/-- What an instance knows is what the directory holds of the roles that it depends on, itself left
out: role by role, in the order of the directory. -/
structure Mirrors (me : Registration) (d : Directory) (c : ProviderCache) : Prop where
  providers : ∀ role, me.dependsOn role = true →
    c.providers role = (d.ofRole role).filter (!·.sameInstance me)
  nodup : c.entries.Nodup
  known : ∀ entry ∈ c.entries, entry.role ∈ c.roles
  asked : ∀ role ∈ c.roles, me.dependsOn role = true

namespace Mirrors

variable {me : Registration} {d : Directory} {c : ProviderCache}

theorem mem_iff (h : Mirrors me d c) {entry : Registration} : entry ∈ c.entries ↔
    entry ∈ d.entries ∧ me.dependsOn entry.role = true ∧ entry.sameInstance me = false := by
  have hrole (hasked : me.dependsOn entry.role = true) : entry ∈ c.entries ↔
      entry ∈ d.entries ∧ entry.sameInstance me = false := by
    calc entry ∈ c.entries
        ↔ entry ∈ c.providers entry.role := by simp [ProviderCache.mem_providers]
      _ ↔ entry ∈ (d.ofRole entry.role).filter (!·.sameInstance me) := by
        rw [h.providers _ hasked]
      _ ↔ _ := by simp [Directory.mem_ofRole]
  constructor
  · intro hentry
    have hasked := h.asked _ (h.known entry hentry)
    obtain ⟨hmem, hdiff⟩ := (hrole hasked).mp hentry
    exact ⟨hmem, hasked, hdiff⟩
  · rintro ⟨hmem, hasked, hdiff⟩
    exact (hrole hasked).mpr ⟨hmem, hdiff⟩

/-- What a reader of the cache sees. A role that the instance does not depend on is unknown to it,
whoever plays it. -/
theorem get (h : Mirrors me d c) (role : Role) :
    (me.dependsOn role = true → (c.get role).toOption.getD [] =
      (d.ofRole role).filter (!·.sameInstance me)) ∧
    (me.dependsOn role = false → c.get role = .error (.notFound role)) := by
  refine ⟨?_, ?_⟩
  · intro hasked
    rw [ProviderCache.getD_get h.known, h.providers role hasked]
  · intro hnot
    refine ProviderCache.get_of_unknown fun hknown => ?_
    rw [h.asked role hknown] at hnot
    cases hnot

/-! ## What single patches do -/

/-- The catch-up of a registrant fills an empty cache. This is where the mirror begins. -/
theorem catchUp_empty (hsound : d.Sound) :
    Mirrors me d ((d.catchUp me).added.foldl ProviderCache.add {}) := by
  let told := (d.catchUp me).added
  have hnodup : told.Nodup := hsound.nodup_catchUp me
  have hmem {entry : Registration} (hentry : entry ∈ told) :
      entry ∈ d.entries ∧ me.dependsOn entry.role = true := by
    obtain ⟨hpresent, hasked, -⟩ := Directory.mem_catchUp.mp hentry
    exact ⟨hpresent, hasked⟩
  -- No two of those it is told of are the same instance, so each is added behind the others.
  have hpair : told.Pairwise fun a b => a.sameInstance b = false := by
    refine hnodup.imp_of_mem fun ha hb hne => ?_
    rw [← Bool.not_eq_true]
    exact fun hsame => hne (hsound.eq_of_sameInstance (hmem ha).1 (hmem hb).1 hsame)
  obtain ⟨hentries, hknown⟩ := (ProviderCache.addAll_of_new hpair :
    (told.foldl ProviderCache.add {}).entries = [] ++ told ∧ _)
  show Mirrors me d (told.foldl ProviderCache.add {})
  rw [List.nil_append] at hentries
  refine ⟨?_, ?_, ?_, ?_⟩
  · intro role hasked
    rw [ProviderCache.providers, hentries]
    exact d.filter_catchUp hasked
  · rw [hentries]
    exact hnodup
  · intro entry hentry
    rw [hentries] at hentry
    exact (hknown _).mpr (Or.inr (List.mem_map_of_mem hentry))
  · intro role hrole
    rcases (hknown role).mp hrole with hnone | hsome
    · cases hnone
    · obtain ⟨entry, hentry, rfl⟩ := List.mem_map.mp hsome
      exact (hmem hentry).2

/-- Being told again of entries that are there changes nothing. -/
theorem addAll_of_present (h : Mirrors me d c) (hsound : d.Sound) (regs : List Registration)
    (hregs : ∀ reg ∈ regs, reg ∈ d.entries ∧ me.dependsOn reg.role = true ∧
      reg.sameInstance me = false) : regs.foldl ProviderCache.add c = c := by
  refine ProviderCache.addAll_of_known fun reg hreg => ?_
  have hmem := h.mem_iff.mpr (hregs reg hreg)
  refine ⟨h.known reg hmem, hmem, fun known hknown hsame => ?_⟩
  exact hsound.eq_of_sameInstance (h.mem_iff.mp hknown).1 (hregs reg hreg).1 hsame

/-- A registrant that comes again, with the same dependencies, is told nothing new. -/
theorem catchUp_again (h : Mirrors me d c) (hsound : d.Sound) (again : Registration)
    (hsame : again.sameInstance me = true) (hrequires : again.requires = me.requires) :
    (d.catchUp again).added.foldl ProviderCache.add c = c := by
  refine h.addAll_of_present hsound _ fun reg hreg => ?_
  obtain ⟨hpresent, hasked, hother⟩ := Directory.mem_catchUp.mp hreg
  refine ⟨hpresent, ?_, ?_⟩
  · rwa [Registration.dependsOn, hrequires] at hasked
  · rwa [Registration.sameInstance_comm, ← Registration.sameInstance_congr hsame,
      Registration.sameInstance_comm]

/-- The news of an entry that has come is its arrival at the cache, where it stands last, as in the
directory. -/
theorem arrival (h : Mirrors me d c) (entry : Registration)
    (hnew : ∀ old ∈ d.entries, old.sameInstance entry = false)
    (hother : entry.sameInstance me = false) :
    Mirrors me ⟨d.entries ++ [entry]⟩ (if me.dependsOn entry.role then c.add entry else c) := by
  have hrole := d.ofRole_concat entry
  by_cases hasked : me.dependsOn entry.role = true
  · have hentries : (c.add entry).entries = c.entries ++ [entry] :=
      ProviderCache.add_of_new fun known hknown => hnew known (h.mem_iff.mp hknown).1
    rw [if_pos hasked]
    refine ⟨?_, ?_, ?_, ?_⟩
    · intro role hdep
      rw [ProviderCache.providers, hentries, List.filter_append, hrole, List.filter_append,
        ← h.providers role hdep]
      by_cases hsame : entry.role = role
      · simp [hsame, hother, ProviderCache.providers]
      · simp [hsame, ProviderCache.providers]
    · rw [hentries]
      refine List.nodup_append.mpr ⟨h.nodup, List.nodup_singleton _, ?_⟩
      rintro known hknown _ hentry rfl
      rw [List.mem_singleton.mp hentry] at hknown
      have hdiff := hnew entry (h.mem_iff.mp hknown).1
      rw [Registration.sameInstance_self] at hdiff
      cases hdiff
    · intro known hknown
      rw [hentries] at hknown
      rw [ProviderCache.mem_roles_add]
      rcases List.mem_append.mp hknown with hold | hlast
      · exact Or.inl (h.known known hold)
      · rw [List.mem_singleton.mp hlast]
        exact Or.inr rfl
    · intro role hknown
      rcases ProviderCache.mem_roles_add.mp hknown with hold | rfl
      · exact h.asked role hold
      · exact hasked
  · -- The instance has not asked for this role, and the lists of the others stay.
    rw [if_neg hasked]
    refine ⟨?_, h.nodup, h.known, h.asked⟩
    intro role hdep
    have hne : entry.role ≠ role := by
      rintro rfl
      exact hasked hdep
    rw [hrole, if_neg hne, List.append_nil]
    exact h.providers role hdep

/-- The news of an entry that has gone is its departure from the cache. It is found by its
identifier, which no other entry has. -/
theorem departure (h : Mirrors me d c) (hsound : d.Sound) {gone : Registration}
    (hgone : gone ∈ d.entries) (hid : gone.id.isEmpty = false)
    (hother : gone.sameInstance me = false) :
    Mirrors me ⟨d.entries.filter (· ≠ gone)⟩
      (if me.dependsOn gone.role then c.remove gone else c) := by
  have hrole (role : Role) : (⟨d.entries.filter (· ≠ gone)⟩ : Directory).ofRole role =
      (d.ofRole role).filter (· ≠ gone) := by
    exact List.filter_comm _ _ _
  by_cases hasked : me.dependsOn gone.role = true
  · -- The cache knows whom the directory lets go, and knows nobody else by that identifier.
    have hmem := h.mem_iff.mpr ⟨hgone, hasked, hother⟩
    have hremove := ProviderCache.remove_of_known hid h.nodup hmem fun known hknown hsame =>
      hsound.eq_of_id (h.mem_iff.mp hknown).1 hgone hsame
    rw [if_pos hasked, hremove]
    refine ⟨?_, h.nodup.filter _, ?_, h.asked⟩
    · intro role hdep
      rw [hrole, List.filter_comm, ← h.providers role hdep]
      exact List.filter_comm _ _ _
    · intro known hknown
      exact h.known known (List.mem_filter.mp hknown).1
  · rw [if_neg hasked]
    refine ⟨?_, h.nodup, h.known, h.asked⟩
    intro role hdep
    have hstay : (d.ofRole role).filter (· ≠ gone) = d.ofRole role := by
      refine List.filter_eq_self.mpr fun entry hentry => decide_eq_true ?_
      rintro rfl
      rw [(Directory.mem_ofRole.mp hentry).2] at hasked
      exact hasked hdep
    rw [hrole, hstay]
    exact h.providers role hdep

end Mirrors

/-! ## What the actions of an operation do -/

namespace Registry

variable {me : Registration} {r : Registry} {c : ProviderCache}

/-- Taking in what an announcement says to the instance that it announces. -/
theorem apply_catchUpTo (me : Registration) (r : Registry) (a : Admission) (c : ProviderCache) :
    (r.catchUpTo me (.announce a)).foldl ProviderCache.apply c =
      if a.registration.sameInstance me
      then (r.directory.catchUp a.registration).added.foldl ProviderCache.add c else c := by
  simp only [catchUpTo, announce]
  split
  · cases hempty : (r.directory.catchUp a.registration).isEmpty with
    | true =>
        have hnone : (r.directory.catchUp a.registration).added = [] := by
          simp only [Patch.isEmpty, Bool.and_eq_true, List.isEmpty_iff] at hempty
          exact hempty.1
        rw [hnone]
        rfl
    | false => rfl
  · rfl

/-- Taking in all that an announcement says to an instance: the catch-up if it is its own, and the
news. -/
theorem apply_announce (hr : r.Coherent) (hme : me ∈ r.directory.entries) (a : Admission) :
    (r.issuedTo me [.announce a]).foldl ProviderCache.apply c =
      let told := if a.registration.sameInstance me
        then (r.directory.catchUp a.registration).added.foldl ProviderCache.add c else c
      if me.sameInstance a.entry = false ∧ me.dependsOn a.entry.role = true
      then told.add a.entry else told := by
  simp only [issuedTo, List.append_nil, List.foldl_append, apply_catchUpTo,
    hr.newsTo_announce hme]
  by_cases hnews : me.sameInstance a.entry = false ∧ me.dependsOn a.entry.role = true
  · simp only [if_pos hnews]
    rfl
  · simp only [if_neg hnews]
    rfl

end Registry

namespace Mirrors

open Registry

variable {me : Registration} {r : Registry} {c : ProviderCache}

/-- An action that neither admits nor announces keeps the mirror: who is taken out is taken out of
both. -/
theorem closing (h : Mirrors me r.directory c) (hr : r.Coherent) {x : Action} (hx : Closing x)
    (hme : me ∈ r.directory.entries) (hstays : me ∈ (r.act x).directory.entries) :
    Mirrors me (r.act x).directory ((r.issuedTo me [x]).foldl ProviderCache.apply c) := by
  simp only [issuedTo, r.catchUpTo_of_not_announce me hx.2, List.nil_append, List.append_nil]
  cases hdep : r.departure? x with
  | some gone =>
      -- Somebody departs, and it is not the instance itself, which stays.
      obtain ⟨hgone, hentries⟩ := hr.entries_of_departure hdep
      have hne : me ≠ gone := by
        rw [hentries] at hstays
        exact of_decide_eq_true (List.mem_filter.mp hstays).2
      have hother : gone.sameInstance me = false := by
        rw [← Bool.not_eq_true]
        exact fun hsame => hne (hr.sound.eq_of_sameInstance hgone hme hsame).symm
      have hstep := h.departure hr.sound hgone (hr.minted gone hgone).given hother
      rw [hr.newsTo_departure hme hdep hne, show (r.act x).directory = _ from
        congrArg Directory.mk hentries]
      split
      · next hasked => rwa [if_pos hasked] at hstep
      · next hasked => rwa [if_neg hasked] at hstep
  | none =>
      have harr : r.arrival? x = none := by
        cases x with
        | enroll reg => exact absurd rfl (hx.1 reg)
        | _ => rfl
      rw [newsTo_of_still hdep hx.2, directory_of_still harr hdep]
      exact h

theorem closingAll {xs : List Action} (hxs : ∀ x ∈ xs, Closing x) (h : Mirrors me r.directory c)
    (hr : r.Coherent) (hme : me ∈ r.directory.entries)
    (hstays : me ∈ (r.actAll xs).directory.entries) :
    Mirrors me (r.actAll xs).directory ((r.issuedTo me xs).foldl ProviderCache.apply c) := by
  induction xs generalizing r c with
  | nil => exact h
  | cons x xs ih =>
      have hnext : me ∈ (r.act x).directory.entries := hr.mem_between hme [x] xs hstays
      have hstep := h.closing hr (hxs x List.mem_cons_self) hme hnext
      rw [show x :: xs = [x] ++ xs from rfl, issuedTo_append, List.foldl_append]
      exact ih (fun y hy => hxs y (List.mem_cons_of_mem _ hy)) hstep (hr.act x) hnext hstays

/-- The announcement that follows an admission keeps the mirror once the admission is over; between
the two the directory is ahead of the cache. -/
theorem announcement {reg : Registration} (h : Mirrors me r.directory c) (hr : r.Coherent)
    (hme : me ∈ r.directory.entries)
    (hrequires : reg.sameInstance me = true → reg.requires = me.requires)
    {after : Registry} (hafter : after.Coherent)
    (hdir : after.directory = (r.enroll reg).1.directory) :
    Mirrors me after.directory
      ((after.issuedTo me [.announce (r.enroll reg).2]).foldl ProviderCache.apply c) := by
  have hme' : me ∈ after.directory.entries := by
    rw [hdir]
    exact mem_entries_act_of_mem (x := .enroll reg) hme (by simp [departure?])
  rw [apply_announce hafter hme']
  rcases r.directory.enroll_cases r.nextId reg with ⟨kept, hkept, hsame, heq⟩ | ⟨hnew, heq⟩
  -- Somebody who is there already: the table stays, and so does the cache.
  · have hdir : after.directory = r.directory := by
      rw [hdir, enroll_eq, heq]
    rw [enroll_eq, heq, hdir]
    have hkept_self : kept.sameInstance me = reg.sameInstance me :=
      Registration.sameInstance_congr hsame me
    cases hself : reg.sameInstance me with
    | true =>
        -- The instance registers once more and is told what it knows already.
        have hagain := h.catchUp_again hr.sound { reg with id := r.nextId } hself
          (hrequires hself)
        simp only [Registration.withId_sameInstance, hself, if_true, hagain,
          Registration.sameInstance_comm me kept, hkept_self, Bool.true_eq_false, false_and,
          if_false]
        exact h
    | false =>
        simp only [Registration.withId_sameInstance, hself, Bool.false_eq_true, if_false,
          Registration.sameInstance_comm me kept, hkept_self, true_and]
        split
        · next hasked =>
          have hknown := h.addAll_of_present hr.sound [kept]
            (by simp [hkept, hasked, hkept_self, hself])
          rw [List.foldl_cons, List.foldl_nil] at hknown
          rw [hknown]
          exact h
        · exact h
  -- Somebody new, who cannot be the instance itself.
  · have hdir : after.directory = ⟨r.directory.entries ++ [{ reg with id := r.nextId }]⟩ := by
      rw [hdir, enroll_eq, heq]
    have hself : me.sameInstance reg = false := hnew me hme
    have hstep := h.arrival { reg with id := r.nextId } hnew
      (by rw [Registration.sameInstance_comm]; exact hself)
    rw [enroll_eq, heq, hdir]
    simpa only [Registration.withId_sameInstance, Registration.sameInstance_withId,
      Registration.sameInstance_comm reg me, hself, Bool.false_eq_true, if_false, true_and]
      using hstep

/-- A registration of whomever, with the instance in the directory. -/
theorem register (h : Mirrors me r.directory c) (hr : r.Coherent) (hme : me ∈ r.directory.entries)
    (reg : Registration) (now : Instant)
    (hrequires : ∀ again, (Operation.register reg now).submission? = some again →
      again.sameInstance me = true → again.requires = me.requires) :
    Mirrors me (r.perform (.register reg now)).directory
      ((r.issuedTo me (r.actions (.register reg now))).foldl ProviderCache.apply c) := by
  rw [perform_eq_actAll]
  cases hvalid : reg.validate with
  | error e =>
      simp only [actions, hvalid]
      exact h
  | ok =>
      simp only [Operation.submission?, hvalid, Option.some.injEq, forall_eq'] at hrequires
      let after := (r.act (.enroll reg)).act (.record (r.enroll reg).2.id now)
      have hafter : after.Coherent := (hr.act _).act _
      simp only [actions, hvalid]
      show Mirrors me after.directory ((after.issuedTo me [.announce (r.enroll reg).2]).foldl
        ProviderCache.apply c)
      exact h.announcement hr hme hrequires hafter rfl

/-- The registration that puts the instance into the directory begins the mirror with an empty
cache. -/
theorem register_self (hr : r.Coherent) {reg : Registration} (hvalid : reg.validate = .ok ())
    (hinserted : (r.enroll reg).2.inserted = true) (now : Instant) :
    let me := (r.enroll reg).2.entry
    me ∈ (r.perform (.register reg now)).directory.entries ∧
    Mirrors me (r.perform (.register reg now)).directory
      ((r.issuedTo me (r.actions (.register reg now))).foldl ProviderCache.apply {}) := by
  intro me
  rw [perform_eq_actAll]
  let after := (r.act (.enroll reg)).act (.record (r.enroll reg).2.id now)
  have hafter : after.Coherent := (hr.act _).act _
  have hme : me ∈ after.directory.entries := mem_enroll r reg
  have hself : (r.enroll reg).2.registration = me := by
    show _ = (r.enroll reg).2.entry
    rw [enroll_of_inserted hinserted]
  have hcond : me.sameInstance (r.enroll reg).2.entry = true := me.sameInstance_self
  -- The instance is told its catch-up and none of the news, which is of itself.
  have htold := apply_announce (c := {}) hafter hme (r.enroll reg).2
  simp only [hself, Registration.sameInstance_self, if_true, hcond, Bool.true_eq_false,
    false_and, if_false] at htold
  simp only [actions, hvalid]
  refine ⟨hme, ?_⟩
  show Mirrors me after.directory ((after.issuedTo me [.announce (r.enroll reg).2]).foldl
    ProviderCache.apply {})
  rw [htold]
  exact catchUp_empty hafter.sound

/-- Operations that a registry offers to the outside keep the mirror, as long as the instance is
there and depends on the same roles whenever it registers again. -/
theorem run {ops : List Operation} (hfacade : ∀ op ∈ ops, op.isFacade = true)
    (hrequires : ∀ op ∈ ops, ∀ again, op.submission? = some again →
      again.sameInstance me = true → again.requires = me.requires)
    (h : Mirrors me r.directory c) (hr : r.Coherent) (hme : me ∈ r.directory.entries)
    (hstays : me ∈ (r.run ops).directory.entries) :
    Mirrors me (r.run ops).directory
      ((r.issuedTo me (r.actionsOf ops)).foldl ProviderCache.apply c) := by
  induction ops generalizing r c with
  | nil => exact h
  | cons op ops ih =>
      have hnext : me ∈ (r.perform op).directory.entries := hr.mem_between_runs hme [op] ops hstays
      have hcoherent : (r.perform op).Coherent := hr.run [op]
      rw [run_cons, actionsOf, issuedTo_append, List.foldl_append, ← perform_eq_actAll]
      refine ih (fun other hother => hfacade other (List.mem_cons_of_mem _ hother))
        (fun other hother => hrequires other (List.mem_cons_of_mem _ hother)) ?_
        hcoherent hnext hstays
      by_cases hregister : ∃ reg now, op = .register reg now
      · obtain ⟨reg, now, rfl⟩ := hregister
        exact h.register hr hme reg now (hrequires _ List.mem_cons_self)
      · have hxs := closing_actions (hfacade op List.mem_cons_self)
          (fun reg now heq => hregister ⟨reg, now, heq⟩) r
        rw [perform_eq_actAll] at hnext ⊢
        exact h.closingAll hxs hr hme hnext

end Mirrors

/-! ## Runs -/

/-- Whatever has been done to a registry before an instance is put in by its registration, and
whatever operations follow as long as it is there: if it declares the same dependencies whenever it
registers again, then taking in what is issued to it makes it know of each role that it depends on
exactly the entries of the directory, in their order, itself left out, and nothing of other
roles. -/
theorem cache_mirrors_directory (settings : RegistrySettings) (supply : IdSupply)
    (before after : List Operation) (reg : Registration) (now : Instant) :
    let start := (Registry.empty settings supply).run before
    let ops := .register reg now :: after
    let me := (start.enroll reg).2.entry
    let r := start.run ops
    let cache := (start.issuedTo me (start.actionsOf ops)).foldl ProviderCache.apply {}
    (∀ op ∈ after, op.isFacade = true) →
    reg.validate = .ok () → (start.enroll reg).2.inserted = true → me ∈ r.directory.entries →
    (∀ op ∈ after, ∀ again, op.submission? = some again →
      again.sameInstance me = true → again.requires = me.requires) →
    ∀ role,
      (me.dependsOn role = true →
        (cache.get role).toOption.getD [] = (r.query role).filter (!·.sameInstance me)) ∧
      (me.dependsOn role = false → cache.get role = .error (.notFound role)) := by
  intro start ops me r cache hfacade hvalid hinserted hstays hrequires
  have hstart : start.Coherent := (Registry.Coherent.empty settings supply).run before
  obtain ⟨hme, hfirst⟩ := Mirrors.register_self hstart hvalid hinserted now
  have hcoherent : (start.perform (.register reg now)).Coherent := hstart.run [.register reg now]
  have hrun := hfirst.run hfacade hrequires hcoherent hme hstays
  rw [Registry.perform_eq_actAll, ← List.foldl_append, ← Registry.issuedTo_append,
    ← Registry.perform_eq_actAll] at hrun
  exact hrun.get

/-- A log, a web that depends on it, a second log, the web again, and the first log gone: the web
knows of the second log only. -/
theorem web_mirrors_log :
    let supply : IdSupply := .numbered 'i' [] [] 'd' (by decide) (by decide)
    let log (url : String) : Registration := { role := .log, url := url }
    let web : Registration :=
      { role := .web, url := "http://w", requires := RoleSet.ofList [.log],
        updateUrl := "http://u" }
    let start := (Registry.empty ⟨⟨0⟩, ⟨0⟩, ⟨0⟩, 1⟩ supply).run [.register (log "http://a") ⟨0⟩]
    let ops : List Operation := [.register web ⟨1⟩, .register (log "http://b") ⟨2⟩,
      .register web ⟨3⟩, .deregister .log "http://a"]
    let me := (start.enroll web).2.entry
    let cache := (start.issuedTo me (start.actionsOf ops)).foldl ProviderCache.apply {}
    (cache.get .log).toOption.getD [] =
        ((start.run ops).query .log).filter (!·.sameInstance me) ∧
      ((start.run ops).query .log).map (·.url) = ["http://b"] ∧
      cache.get .web = .error (.notFound .web) := by
  intro supply log web start ops me cache
  have hmirror := cache_mirrors_directory ⟨⟨0⟩, ⟨0⟩, ⟨0⟩, 1⟩ supply
    [.register (log "http://a") ⟨0⟩]
    [.register (log "http://b") ⟨2⟩, .register web ⟨3⟩, .deregister .log "http://a"] web ⟨1⟩
    (by decide +kernel) (by decide +kernel) (by decide +kernel) (by decide +kernel) (by
      -- Of the three operations only one submits the instance again, with the same requirements.
      intro op hop again hsubmits hsame
      have hlog : Operation.submission? (.register (log "http://b") ⟨2⟩) =
          some (log "http://b") := by
        decide +kernel
      have hweb : Operation.submission? (.register web ⟨3⟩) = some web := by
        decide +kernel
      rcases List.mem_cons.mp hop with rfl | hop
      · obtain rfl := Option.some.inj (hlog.symm.trans hsubmits)
        exact absurd hsame (by decide +kernel)
      · rcases List.mem_cons.mp hop with rfl | hop
        · obtain rfl := Option.some.inj (hweb.symm.trans hsubmits)
          decide +kernel
        · rw [List.mem_singleton.mp hop] at hsubmits
          cases hsubmits)
  refine ⟨(hmirror .log).1 (by decide +kernel), by decide +kernel,
    (hmirror .web).2 (by decide +kernel)⟩

end Rollcall
