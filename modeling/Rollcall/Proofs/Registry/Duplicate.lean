import Rollcall.Proofs.Registry.Clearance
import Rollcall.Proofs.Registry.Entries
import Rollcall.Proofs.Registry.Tenure

/-!
# Registering an instance that is there

A registration that finds its instance in the table leaves the entry and its record alone. It is
given a new identifier all the same, with a record of its own, and no entry ever takes it on.

* `Registry.Coherent.lastSeen?_perform`, `Registry.Coherent.lastSeen?_run` — the record of an entry
  moves with its heartbeats only;
* `Registry.Redundant`, `Docket.Unadopted` — what such a registration comes to, done at one go and
  as a call among others;
* `duplicate_leaves_entry_alone` — every such registration comes to that.
-/

namespace Rollcall

/-! ## Operations and the ledger -/

namespace Operation

/-- The instant of an operation that is a heartbeat of an identifier. -/
def beat? (id : InstanceId) : Operation → Option Instant
  | .heartbeat _ other now => if other = id then some now else none
  | _ => none

/-- The instant of the last heartbeat of an identifier among operations, if there is one. -/
def lastBeat? (id : InstanceId) (ops : List Operation) : Option Instant :=
  (ops.filterMap (beat? id)).getLast?

theorem lastBeat?_cons (id : InstanceId) (op : Operation) (ops : List Operation) :
    lastBeat? id (op :: ops) = (lastBeat? id ops).or (op.beat? id) := by
  rw [lastBeat?, lastBeat?]
  cases hbeat : op.beat? id with
  | none => rw [List.filterMap_cons_none hbeat, Option.or_none]
  | some now =>
      rw [List.filterMap_cons_some hbeat, List.getLast?_cons]
      cases (ops.filterMap (beat? id)).getLast? with
      | none => rfl
      | some last => rfl

end Operation

namespace Registry

variable {r : Registry}

/-- What an operation does to the ledger. -/
theorem ledger_perform (r : Registry) (op : Operation) : (r.perform op).ledger = match op with
    | .register reg now => match reg.validate with
      | .ok () => r.ledger.record r.nextId now
      | .error _ => r.ledger
    | .heartbeat _ id now =>
      if r.directory.isRegistered id then r.ledger.record id now else r.ledger
    | .deregister role url => match r.departure? (.remove role url) with
      | some gone => r.ledger.forget gone.id
      | none => r.ledger
    | .sweep now => (r.sweep now).1.ledger
    | _ => r.ledger := by
  cases op with
  | enroll | add | announce | sweep => rfl
  | remove role url => exact r.ledger_act (.remove role url)
  | evict stale => exact r.ledger_act (.evict stale)
  | register reg now =>
      simp only [perform, register]
      cases hvalid : reg.validate with
      | error e => rfl
      | ok =>
          show r.ledger.record (r.enroll reg).2.id now = _
          rw [r.id_enroll]
  | deregister role url =>
      have hledger := r.ledger_act (.remove role url)
      simp only [perform, deregister, departure?_remove]
      cases hremove : r.remove role url with
      | error e => rfl
      | ok done =>
          obtain ⟨departed, gone⟩ := done
          rw [act_remove_of_ok hremove] at hledger
          exact congrArg (Ledger.forget · gone.id) hledger
  | heartbeat kind id now =>
      simp only [perform, heartbeat, accept]
      cases r.directory.isRegistered id with
      | true => rfl
      | false => rfl

theorem directory_deregister (r : Registry) (role : Role) (url : String) :
    (r.perform (.deregister role url)).directory = (r.act (.remove role url)).directory := by
  simp only [perform, deregister, act]
  cases r.remove role url with
  | error e => rfl
  | ok done => rfl

namespace Coherent

/-- As long as an entry stays its record moves with the heartbeats of its identifier only. A
registration of the same instance in the meantime does not touch it. -/
theorem lastSeen?_perform (h : r.Coherent) {entry : Registration}
    (hentry : entry ∈ r.directory.entries) {op : Operation}
    (hstays : entry ∈ (r.perform op).directory.entries) :
    (r.perform op).ledger.lastSeen? entry.id =
      (op.beat? entry.id).or (r.ledger.lastSeen? entry.id) := by
  rw [ledger_perform]
  cases op with
  | register reg now =>
      dsimp only
      split
      · -- A registration notes the time under an identifier that no entry had.
        have hne : entry.id ≠ r.nextId := by
          intro hid
          exact r.not_minted_nextId (hid ▸ h.minted entry hentry)
        rw [Ledger.lastSeen?_record, if_neg hne]
        rfl
      · rfl
  | heartbeat kind id now =>
      dsimp only
      -- A heartbeat is for this entry or for another, and counts only in the first case.
      by_cases hid : id = entry.id
      · subst hid
        have hthere : r.directory.isRegistered entry.id = true :=
          Directory.isRegistered_iff.mpr ⟨entry, hentry, rfl⟩
        rw [if_pos hthere, Ledger.lastSeen?_record, if_pos rfl, Operation.beat?, if_pos rfl]
        rfl
      · rw [Operation.beat?, if_neg hid, Option.none_or]
        split
        · rw [Ledger.lastSeen?_record, if_neg (Ne.symm hid)]
        · rfl
  | deregister role url =>
      dsimp only
      split
      · next gone hdep =>
        obtain ⟨hgone, hentries⟩ := h.entries_of_departure hdep
        rw [directory_deregister, hentries, List.mem_filter, decide_eq_true_iff] at hstays
        have hne : entry.id ≠ gone.id := fun hid => hstays.2 (h.sound.eq_of_id hentry hgone hid)
        rw [Ledger.lastSeen?_forget, if_neg hne]
        rfl
      · rfl
  | sweep now => exact h.lastSeen?_sweep hstays
  | _ => rfl

/-- The same over any run of operations: the record is that of the last heartbeat, or else the old
one. -/
theorem lastSeen?_run (h : r.Coherent) {entry : Registration}
    (hentry : entry ∈ r.directory.entries) {ops : List Operation}
    (hstays : entry ∈ (r.run ops).directory.entries) :
    (r.run ops).ledger.lastSeen? entry.id =
      (Operation.lastBeat? entry.id ops).or (r.ledger.lastSeen? entry.id) := by
  induction ops generalizing r with
  | nil => rfl
  | cons op ops ih =>
      have hnext : entry ∈ (r.perform op).directory.entries :=
        h.mem_between_runs hentry [op] ops hstays
      have hr : (r.perform op).Coherent := h.run [op]
      rw [run_cons] at hstays ⊢
      rw [ih hr hnext hstays, h.lastSeen?_perform hentry hnext, Operation.lastBeat?_cons,
        Option.or_assoc]

/-- Only identifiers that have been minted have a record. -/
theorem minted_ledger_perform (h : r.Coherent) (hledger : ∀ id ∈ r.ledger.ids, r.Minted id)
    (op : Operation) : ∀ id ∈ (r.perform op).ledger.ids, (r.perform op).Minted id := by
  have hkept : ∀ id, r.Minted id → (r.perform op).Minted id := by
    intro id hminted
    rw [perform_eq_actAll]
    exact hminted.actAll _
  intro id hid
  rw [ledger_perform] at hid
  cases op with
  | register reg now =>
      dsimp only at hid
      split at hid
      · next hvalid =>
        rcases Ledger.mem_ids_record hid with rfl | hold
        · have hnew : (r.act (.enroll reg)).Minted r.nextId :=
            ⟨r.admissions, Nat.lt_succ_self _, rfl⟩
          rw [perform_eq_actAll, actions, hvalid]
          exact hnew.actAll _
        · exact hkept id (hledger id hold)
      · exact hkept id (hledger id hid)
  | heartbeat kind other now =>
      dsimp only at hid
      split at hid
      · next hthere =>
        obtain ⟨entry, hentry, rfl⟩ := Directory.isRegistered_iff.mp hthere
        rcases Ledger.mem_ids_record hid with rfl | hold
        · exact hkept _ (h.minted entry hentry)
        · exact hkept id (hledger id hold)
      · exact hkept id (hledger id hid)
  | deregister role url =>
      dsimp only at hid
      split at hid
      · exact hkept id (hledger id (Ledger.mem_ids_forget hid))
      · exact hkept id (hledger id hid)
  | sweep now =>
      -- A sweep only drops records.
      obtain ⟨ledger, heq, hrecords⟩ := h.sweep_eq_dismissAll now
      dsimp only at hid
      rw [heq] at hid
      obtain ⟨record, hrecord, rfl⟩ := List.mem_map.mp hid
      replace hrecord : record ∈ ledger.records := hrecord
      rw [hrecords] at hrecord
      exact hkept _ (hledger _ (List.mem_map_of_mem (List.mem_filter.mp hrecord).1))
  | _ => exact hkept id (hledger id hid)

theorem minted_ledger_run (h : r.Coherent) (hledger : ∀ id ∈ r.ledger.ids, r.Minted id)
    (ops : List Operation) : ∀ id ∈ (r.run ops).ledger.ids, (r.run ops).Minted id := by
  induction ops generalizing r with
  | nil => exact hledger
  | cons op ops ih => exact ih (h.run [op]) (h.minted_ledger_perform hledger op)

end Coherent

/-! ## Nobody's heartbeat -/

theorem heartbeat_of_absent {id : InstanceId} (h : ∀ entry ∈ r.directory.entries, entry.id ≠ id)
    (kind : HeartbeatKind) (now : Instant) :
    r.heartbeat kind id now = .error (.unregistered id) := by
  refine if_neg fun hthere => ?_
  obtain ⟨entry, hentry, hid⟩ := Directory.isRegistered_iff.mp hthere
  exact h entry hentry hid

theorem perform_of_absent {id : InstanceId} (h : ∀ entry ∈ r.directory.entries, entry.id ≠ id)
    (kind : HeartbeatKind) (now : Instant) : r.perform (.heartbeat kind id now) = r := by
  rw [perform, heartbeat_of_absent h]

/-! ## Operations -/

/-- What a registration comes to whose instance has an entry: what it does at once, and what the
identifier that it gives is good for afterwards. -/
structure Redundant (r : Registry) (e : Registration) (now : Instant) (id : InstanceId)
    (enrolled : Registry) : Prop where
  /-- The table stays, and so does the record of the entry. -/
  table : enrolled.directory = r.directory
  life : enrolled.ledger.lastSeen? e.id = r.ledger.lastSeen? e.id
  /-- One record comes, that of the new identifier, which is nobody's. -/
  record : enrolled.ledger.records = (id, now) :: r.ledger.records
  fresh : ∀ entry ∈ r.directory.entries, entry.id ≠ id
  /-- Whatever is done later, a heartbeat under it is refused and changes nothing; -/
  refused : ∀ more kind beat, let later := enrolled.run more
    later.heartbeat kind id beat = .error (.unregistered id) ∧
      later.perform (.heartbeat kind id beat) = later
  /-- and as long as the entry is there, its record says when it was last heard of under the
  identifier of the entry, or else what it has said all along. -/
  later : ∀ more, e ∈ (enrolled.run more).directory.entries →
    (enrolled.run more).ledger.lastSeen? e.id =
      (Operation.lastBeat? e.id more).or (r.ledger.lastSeen? e.id)

/-- An admission whose instance has an entry keeps it and changes neither table. Only the count of
admissions tells that somebody has come. -/
theorem Coherent.enroll_of_present (h : r.Coherent) {e reg : Registration}
    (he : e ∈ r.directory.entries) (hsame : e.sameInstance reg = true) :
    (r.enroll reg).1.directory = r.directory ∧ (r.enroll reg).2.inserted = false ∧
      (r.enroll reg).2.entry = e := by
  rcases r.directory.enroll_cases r.nextId reg with ⟨kept, hkept, hkeptsame, heq⟩ | ⟨hnew, -⟩
  · rw [enroll_eq, heq]
    refine ⟨rfl, rfl, h.sound.eq_of_sameInstance hkept he ?_⟩
    rw [Registration.sameInstance_congr hkeptsame, Registration.sameInstance_comm, hsame]
  · rw [hnew e he] at hsame
    cases hsame

/-- A registration whose instance has an entry leaves the table as it is, notes a sign of life under
the next identifier, and no one has that identifier. -/
theorem Coherent.register_of_present (h : r.Coherent) {e reg : Registration}
    (he : e ∈ r.directory.entries) (hvalid : reg.validate = .ok ())
    (hsame : e.sameInstance reg = true) (now : Instant) :
    ∃ enrolled enrolment, r.register reg now = .ok (enrolled, enrolment) ∧
      enrolment.id = r.nextId ∧ enrolled.directory = r.directory ∧
      enrolled.ledger = r.ledger.record r.nextId now ∧ enrolled.Gone r.nextId := by
  have hkept := (h.enroll_of_present he hsame).1
  have hminted : (r.enroll reg).1.Minted r.nextId := ⟨r.admissions, Nat.lt_succ_self _, rfl⟩
  refine ⟨_, _, register_of_valid hvalid r now, r.id_enroll reg, hkept, ?_, ?_, ?_⟩
  · rw [← r.id_enroll reg]
    rfl
  · exact hminted.actAll [.record _ now, .announce _]
  · intro entry hentry hid
    replace hentry : entry ∈ (r.enroll reg).1.directory.entries := hentry
    rw [hkept] at hentry
    exact r.not_minted_nextId (hid ▸ h.minted entry hentry)

theorem Coherent.redundant (h : r.Coherent) (hledger : ∀ id ∈ r.ledger.ids, r.Minted id)
    {e reg : Registration} (he : e ∈ r.directory.entries) (hvalid : reg.validate = .ok ())
    (hsame : e.sameInstance reg = true) (now : Instant) :
    ∃ enrolled enrolment, r.register reg now = .ok (enrolled, enrolment) ∧
      Redundant r e now enrolment.id enrolled := by
  obtain ⟨enrolled, enrolment, hregister, hid, htable, hrecord, hgone⟩ :=
    h.register_of_present he hvalid hsame now
  have hunknown : ∀ record ∈ r.ledger.records, Ledger.isOther r.nextId record = true := by
    intro record hmem
    rw [Ledger.isOther, bne_iff_ne]
    intro hsame
    exact r.not_minted_nextId (hsame ▸ hledger _ (List.mem_map_of_mem hmem))
  -- No entry has the identifier that the call was given, and none gets it later, so the records
  -- that are read are those from before.
  have hfresh : ∀ entry ∈ r.directory.entries, entry.id ≠ r.nextId := by
    rw [← htable]
    exact hgone.2
  have hlife : enrolled.ledger.lastSeen? e.id = r.ledger.lastSeen? e.id := by
    rw [hrecord, Ledger.lastSeen?_record, if_neg (hfresh e he)]
  have hthen : enrolled.Coherent := by
    have hperform : r.perform (.register reg now) = enrolled := by rw [perform, hregister]
    rw [← hperform]
    exact h.run [.register reg now]
  refine ⟨enrolled, enrolment, hregister, htable, hlife, ?_, ?_, ?_, ?_⟩
  · rw [hrecord, hid]
    exact congrArg ((r.nextId, now) :: ·) (List.filter_eq_self.mpr hunknown)
  · rw [hid]
    exact hfresh
  · intro more kind beat
    have hlater : (enrolled.run more).Gone r.nextId := by
      rw [run_eq_actAll]
      exact hgone.actAll _
    rw [hid]
    exact ⟨heartbeat_of_absent hlater.2 kind beat, perform_of_absent hlater.2 kind beat⟩
  · intro more hstays
    rw [hthen.lastSeen?_run (htable ▸ he) hstays, hlife]

end Registry

/-! ## Calls in progress -/

namespace Errand

/-- Where an errand has the identifier from that it is about to note: from an admission that the
call has made, or from a look at the table. -/
def Founded (own : List Step) : Errand → Prop
  | record b => ∃ c ∈ own, c.admission? = some b
  | beat id => ∃ c ∈ own, c.registry.directory.isRegistered id = true
  | _ => True

theorem follows_founded : Follows fun own e => e.Founded own := by
  refine ⟨fun e hopens => ?_, fun own s e _ hrest => ?_⟩
  · cases hopens with
    | _ => trivial
  · have hlast : s ∈ own ++ [s] := List.mem_append_right _ (List.mem_singleton_self s)
    obtain ⟨x?, -, hstep⟩ := advances_of_rest (show (s.errand.next _ _).2 = some e from hrest)
    generalize herrand : s.errand = current at hstep
    cases hstep with
    | enroll reg =>
        refine ⟨s, hlast, ?_⟩
        rw [Step.admission?, herrand]
    | accept id hthere => exact ⟨s, hlast, hthere⟩
    | _ => trivial

/-- Whoever has made an admission has to note it, or to announce it. -/
theorem follows_admission : Follows fun own e =>
    ∀ c ∈ own, ∀ b, c.admission? = some b → e = .record b ∨ e = .announce b := by
  refine ⟨fun e _ c hc => absurd hc List.not_mem_nil, fun own s e h hrest c hc b hb => ?_⟩
  change (s.errand.next s.registry s.clock).2 = some e at hrest
  rcases List.mem_append.mp hc with hold | hnew
  · rcases h c hold b hb with herrand | herrand
    · rw [herrand] at hrest
      exact Or.inr (Option.some.inj hrest).symm
    · rw [herrand] at hrest
      cases hrest
  · obtain rfl := List.mem_singleton.mp hnew
    obtain ⟨reg, herrand, -, rfl⟩ := Step.admission?_eq hb
    rw [herrand] at hrest
    exact Or.inl (Option.some.inj hrest).symm

end Errand

theorem Step.ends_of_check {s : Step} {id : InstanceId} (h : s.errand = .check id)
    (habsent : ∀ entry ∈ s.registry.directory.entries, entry.id ≠ id) :
    s.rest? = none ∧ s.after = s.registry := by
  have hnobody : s.registry.directory.isRegistered id = false := by
    rw [← Bool.not_eq_true, Directory.isRegistered_iff]
    rintro ⟨entry, hentry, hid⟩
    exact habsent entry hentry hid
  have hnext : s.errand.next s.registry s.clock = (none, none) := by
    rw [h, Errand.next, hnobody]
    rfl
  exact ⟨congrArg Prod.snd hnext, Step.after_of_none (congrArg Prod.fst hnext)⟩

namespace Docket

variable {settings : RegistrySettings} {supply : IdSupply} {clock : Instant}
  {moves : List Traffic.Move} {front back : List Step} {s : Step} {e : Registration} {a : Admission}

/-- What the admission of a registration comes to whose instance has an entry, when other calls take
their steps before and after it. -/
structure Unadopted (e : Registration) (a : Admission) (front : List Step) (s : Step)
    (back : List Step) : Prop where
  /-- Both tables stay, and the identifier is in neither. -/
  still : s.after.directory = s.registry.directory ∧ s.after.ledger = s.registry.ledger
  fresh : (∀ entry ∈ s.registry.directory.entries, entry.id ≠ a.id) ∧
    a.id ∉ s.registry.ledger.ids
  /-- All that the call does to the tables later is to note the identifier, and no other call notes
  it. -/
  own : ∀ t ∈ back, t.call = s.call → t.after.directory = t.registry.directory ∧
    (t.after.ledger = t.registry.ledger ∨ t.after.ledger = t.registry.ledger.record a.id t.clock)
  noted : ∀ t ∈ back, t.Hears a.id → t.call = s.call
  /-- From now on a heartbeat under it is refused; and one that looks for it at any time ends there,
  and has changed nothing. -/
  refused : ∀ t ∈ back, ∀ kind now, t.after.heartbeat kind a.id now = .error (.unregistered a.id)
  missed : ∀ t ∈ front ++ s :: back, t.errand = .check a.id → t.rest? = none ∧ t.after = t.registry
  /-- While the entry is there, its record changes with a heartbeat of its identifier only, or when
  the call that has put it in notes its first sign of life. -/
  life : ∀ t ∈ back, e ∈ t.after.directory.entries →
    t.after.ledger.lastSeen? e.id ≠ t.registry.ledger.lastSeen? e.id →
      t.errand = .beat e.id ∨ ∃ b, t.errand = .record b ∧ b.inserted = true ∧ b.entry = e

/-- An admission that puts nothing in gives an identifier that nobody has at any time, before or
after. -/
theorem absent_of_unadopted (hfront : Chain (.empty settings supply) clock front s.registry s.clock)
    {last : Registry} {stop : Instant} (hback : Chain s.after s.clock back last stop)
    (hadmission : s.admission? = some a) (hinserted : a.inserted = false) :
    ∀ t ∈ front ++ s :: back, ∀ entry ∈ t.registry.directory.entries, entry.id ≠ a.id := by
  have hthen : s.registry.Coherent := hfront.coherent (.empty settings supply)
  obtain ⟨hnew, hgone⟩ := Step.gone_after_admission hthen hadmission hinserted
  intro t ht
  rcases List.mem_append.mp ht with hbefore | hrest
  · exact hfront.absent_of_not_minted (.empty settings supply) hnew hbefore
  · rcases List.mem_cons.mp hrest with rfl | hafter
    · intro entry hentry hid
      exact hnew (hid ▸ hthen.minted entry hentry)
    · exact (hback.gone_of_mem hgone hafter).2

/-- Two steps of a log that admit under one identifier are the same step. -/
theorem admission_unique (hfront : Chain (.empty settings supply) clock front s.registry s.clock)
    {last : Registry} {stop : Instant} (hback : Chain s.after s.clock back last stop)
    (hadmission : s.admission? = some a) {c : Step} (hc : c ∈ front ++ s :: back) {b : Admission}
    (hb : c.admission? = some b) (hid : b.id = a.id) : c = s := by
  -- The later of two admissions gives the next identifier, and the earlier one has been given it.
  have hminted : ∀ {t : Step} {b : Admission}, t.admission? = some b →
      ¬ t.registry.Minted b.id ∧ t.after.Minted b.id := by
    intro t b hb
    obtain ⟨reg, -, haction, rfl⟩ := Step.admission?_eq hb
    rw [Step.after_of_some haction, Registry.id_enroll]
    exact ⟨t.registry.not_minted_nextId, t.registry.admissions, Nat.lt_succ_self _, rfl⟩
  rcases List.mem_append.mp hc with hbefore | hrest
  · obtain ⟨earlier, later, rfl⟩ := List.append_of_mem hbefore
    have hthen := hfront.split.2.minted (hminted hb).2
    rw [hid] at hthen
    exact absurd hthen (hminted hadmission).1
  · rcases List.mem_cons.mp hrest with rfl | hafter
    · rfl
    · obtain ⟨earlier, later, rfl⟩ := List.append_of_mem hafter
      have hthen := hback.split.1.minted (hminted hadmission).2
      rw [← hid] at hthen
      exact absurd hthen (hminted hb).1

/-- Under the identifier of an admission that puts nothing in, only the call that has made the
admission notes a sign of life. -/
theorem call_of_hears {mid rest : List Step} {t : Step}
    (hlog : ((start settings supply clock).run moves).log = (front ++ s :: mid) ++ t :: rest)
    (hfront : Chain (.empty settings supply) clock front s.registry s.clock)
    {last : Registry} {stop : Instant} (hback : Chain s.after s.clock (mid ++ t :: rest) last stop)
    (hadmission : s.admission? = some a)
    (habsent : ∀ c ∈ front ++ s :: (mid ++ t :: rest), ∀ entry ∈ c.registry.directory.entries,
      entry.id ≠ a.id) (hhears : t.Hears a.id) : t.call = s.call := by
  have hfounded :=
    (coursed_run Errand.follows_founded settings supply clock moves).logged _ _ _ hlog
  have hin : ∀ c ∈ front ++ s :: mid, c ∈ front ++ s :: (mid ++ t :: rest) := by
    intro c hc
    rw [← List.cons_append, ← List.append_assoc]
    exact List.mem_append_left _ hc
  rcases (Errand.record_cases hhears).2 with ⟨b, hrecord, hid⟩ | hbeat
  · rw [hrecord] at hfounded
    obtain ⟨c, hc, hb⟩ := hfounded
    obtain ⟨hmem, hcall⟩ := mem_courseOf.mp hc
    rw [← hcall, admission_unique hfront hback hadmission (hin c hmem) hb hid]
  · rw [hbeat] at hfounded
    obtain ⟨c, hc, hregistered⟩ := hfounded
    obtain ⟨entry, hentry, hid⟩ := Directory.isRegistered_iff.mp hregistered
    exact absurd hid (habsent c (hin c (mem_courseOf.mp hc).1) entry hentry)

/-- A call that notes a sign of life of an entry as an admission has put that entry in. -/
theorem entry_of_record {before after : List Step} {t : Step} {b : Admission}
    (hlog : ((start settings supply clock).run moves).log = before ++ t :: after)
    (herrand : t.errand = .record b) (he : e ∈ t.registry.directory.entries) (hid : b.id = e.id) :
    b.inserted = true ∧ b.entry = e := by
  have hfounded :=
    (coursed_run Errand.follows_founded settings supply clock moves).logged _ _ _ hlog
  rw [herrand] at hfounded
  obtain ⟨c, hc, hadmission⟩ := hfounded
  have hchain : Chain (.empty settings supply) clock
      ((start settings supply clock).run moves).log _ _ := chain_start settings supply clock moves
  rw [hlog] at hchain
  have hbefore := hchain.split.1
  obtain ⟨earlier, later, rfl⟩ := List.append_of_mem (mem_courseOf.mp hc).1
  obtain ⟨hearlier, hlater⟩ := hbefore.split
  have hthen : c.registry.Coherent := hearlier.coherent (.empty settings supply)
  cases hinserted : b.inserted with
  | false =>
      have hgone := hlater.gone (Step.gone_after_admission hthen hadmission hinserted).2
      exact absurd hid.symm (hgone.2 e he)
  | true =>
      refine ⟨rfl, ?_⟩
      have hsame := (Step.not_minted_of_admission hadmission hinserted).1
      rw [hlater.eq_actAll] at he
      exact ((hthen.actAll _).eq_of_id_later (Step.mem_after_admission hadmission) _ he
        (hid.symm.trans hsame.symm)).symm

/-- Whatever other calls do before and after it, a registration whose instance has an entry changes
nothing but the record of the identifier that it is given, which nobody ever takes on. -/
theorem unadopted_of_present
    (hlog : ((start settings supply clock).run moves).log = front ++ s :: back)
    (hadmission : s.admission? = some a) (he : e ∈ s.registry.directory.entries)
    (hsame : e.sameInstance a.registration = true) : Unadopted e a front s back := by
  have hchain : Chain (.empty settings supply) clock
      ((start settings supply clock).run moves).log _ _ := chain_start settings supply clock moves
  have hmet := tracked_run settings supply clock moves
  have hadmitted := coursed_run Errand.follows_admission settings supply clock moves
  rw [hlog] at hchain hmet
  obtain ⟨hfront, hback⟩ := hchain.split
  have hthen : s.registry.Coherent := hfront.coherent (.empty settings supply)
  obtain ⟨reg, herrand, haction, heq⟩ := Step.admission?_eq hadmission
  have hfound : e.sameInstance reg = true := by
    rwa [heq, Registry.registration_enroll] at hsame
  obtain ⟨hdirectory, hinserted, -⟩ := hthen.enroll_of_present he hfound
  rw [← heq] at hinserted
  have habsent := absent_of_unadopted hfront hback hadmission hinserted
  obtain ⟨hnew, hgone⟩ := Step.gone_after_admission hthen hadmission hinserted
  -- What a later step is about to do goes by the log up to it.
  have hcut : ∀ t ∈ back, ∃ mid rest, back = mid ++ t :: rest ∧
      ((start settings supply clock).run moves).log = (front ++ s :: mid) ++ t :: rest := by
    intro t ht
    obtain ⟨mid, rest, rfl⟩ := List.append_of_mem ht
    exact ⟨mid, rest, rfl, by rw [hlog, List.append_assoc, List.cons_append]⟩
  refine ⟨⟨?_, ?_⟩, ⟨?_, ?_⟩, fun t ht hcall => ?_, fun t ht hhears => ?_, fun t ht kind now => ?_,
    fun t ht hcheck => ?_, fun t ht hthere hchanged => ?_⟩
  · rw [Step.after_of_some haction]
    exact hdirectory
  · rw [Step.after_of_some haction, Registry.ledger_act]
  · exact habsent s (List.mem_append_right _ List.mem_cons_self)
  · obtain ⟨u, htracked, -, hregistry, -⟩ := hmet s (List.mem_append_right _ List.mem_cons_self)
    intro hid
    rw [← hregistry] at hid hnew
    exact hnew (htracked.ledger _ hid)
  · obtain ⟨mid, rest, -, hsplit⟩ := hcut t ht
    have hs : s ∈ courseOf t.call (front ++ s :: mid) :=
      mem_courseOf.mpr ⟨List.mem_append_right _ List.mem_cons_self, hcall.symm⟩
    rcases hadmitted.logged _ _ _ hsplit s hs a hadmission with hrecord | hannounce
    · rw [Step.after_of_some (Step.hears_of_record hrecord)]
      exact ⟨rfl, Or.inr rfl⟩
    · have hannounces : t.action? = some (.announce a) := by
        rw [Step.action?, hannounce]
        rfl
      rw [Step.after_of_some hannounces]
      exact ⟨rfl, Or.inl rfl⟩
  · obtain ⟨mid, rest, rfl, hsplit⟩ := hcut t ht
    exact call_of_hears hsplit hfront hback hadmission habsent hhears
  · refine Registry.heartbeat_of_absent ?_ kind now
    exact ((hback.gone_of_mem hgone ht).actAll _).2
  · exact Step.ends_of_check hcheck (habsent t ht)
  -- A record that changes while its entry is there is not forgotten but written.
  · have hhears : t.Hears e.id := by
      by_contra hnot
      refine hchanged (Step.lastSeen?_after (hmet t ?_) hnot fun hgone => hgone.2 e hthere rfl)
      exact List.mem_append_right _ (List.mem_cons_of_mem _ ht)
    rcases (Errand.record_cases hhears).2 with ⟨b, hrecord, hid⟩ | hbeat
    · right
      obtain ⟨mid, rest, -, hsplit⟩ := hcut t ht
      rw [Step.after_of_some hhears] at hthere
      exact ⟨b, hrecord, entry_of_record hsplit hrecord hthere hid⟩
    · exact Or.inl hbeat

end Docket

/-- A valid registration of an instance that is there leaves the table and the record of the entry
alone, in whatever state of the registry it comes. It adds one record, for an identifier under which
every later heartbeat is refused; and the entry lives by the heartbeats of its own identifier. The
first part is of operations one after the other, the second of calls whose steps alternate. -/
theorem duplicate_leaves_entry_alone (settings : RegistrySettings) (supply : IdSupply) :
    (∀ ops, let r := (Registry.empty settings supply).run ops
      ∀ e ∈ r.directory.entries, ∀ reg now, reg.validate = .ok () →
        reg.role = e.role → reg.url = e.url →
          ∃ enrolled enrolment, r.register reg now = .ok (enrolled, enrolment) ∧
            r.Redundant e now enrolment.id enrolled) ∧
    ∀ clock moves front s back reg,
      ((Docket.start settings supply clock).run moves).log = front ++ s :: back →
        s.errand = .enroll reg → ∀ e ∈ s.registry.directory.entries,
          reg.role = e.role → reg.url = e.url →
            ∃ a, s.admission? = some a ∧ Docket.Unadopted e a front s back := by
  refine ⟨fun ops e he reg now hvalid hrole hurl => ?_,
    fun clock moves front s back reg hlog herrand e he hrole hurl => ?_⟩
  · have hstart := Registry.Coherent.empty settings supply
    have hledger := hstart.minted_ledger_run (fun id hid => absurd hid List.not_mem_nil) ops
    have hsame := Registration.sameInstance_iff.mpr ⟨hrole.symm, hurl.symm⟩
    exact (hstart.run ops).redundant hledger he hvalid hsame now
  · have hadmission : s.admission? = some (s.registry.enroll reg).2 := by
      rw [Step.admission?, herrand]
    refine ⟨_, hadmission, Docket.unadopted_of_present hlog hadmission he ?_⟩
    rw [Registry.registration_enroll]
    exact Registration.sameInstance_iff.mpr ⟨hrole.symm, hurl.symm⟩

/-- A log comes again after a restart, with news to be sent to it and other words about itself. Its
heartbeats under the second identifier are refused, and those of its first life count. -/
theorem log_restarts :
    let settings : RegistrySettings := ⟨⟨60⟩, ⟨9⟩, ⟨9⟩, 1⟩
    let supply : IdSupply := .numbered 'i' [] [] 'd' (by decide) (by decide)
    let log : Registration := { role := .log, url := "http://p" }
    let e : Registration := { log with id := supply.mint 1 }
    let again : Registration := { log with
      tags := ["restarted"], requires := .ofList [.web], updateUrl := "http://p/n" }
    let r := (Registry.empty settings supply).run [.register log ⟨5⟩]
    let more : List Operation :=
      [.heartbeat .basic e.id ⟨20⟩, .heartbeat .basic (supply.mint 2) ⟨30⟩, .sweep ⟨70⟩]
    let moves : List Traffic.Move := [.visit (.register log), .advance 0, .visit (.register again),
      .advance 1, .advance 0, .wait ⟨7⟩, .visit (.heartbeat .basic (supply.mint 2)), .advance 2,
      .advance 1, .advance 0, .advance 0]
    (e ∈ r.directory.entries ∧ again.validate = .ok () ∧
      ∃ enrolled enrolment, r.register again ⟨9⟩ = .ok (enrolled, enrolment) ∧
        r.Redundant e ⟨9⟩ enrolment.id enrolled ∧ enrolment.id = supply.mint 2 ∧
        e ∈ (enrolled.run more).directory.entries ∧
        (enrolled.run more).ledger.lastSeen? e.id = some ⟨20⟩) ∧
    ∃ front s back a, ((Docket.start settings supply ⟨0⟩).run moves).log = front ++ s :: back ∧
      s.errand = .enroll again ∧ e ∈ s.registry.directory.entries ∧ s.admission? = some a ∧
      a.id = supply.mint 2 ∧ Docket.Unadopted e a front s back := by
  intro settings supply log e again r more moves
  obtain ⟨hoperations, hcalls⟩ := duplicate_leaves_entry_alone settings supply
  have he : e ∈ r.directory.entries := by decide +kernel
  have hvalid : again.validate = .ok () := by decide +kernel
  refine ⟨⟨he, hvalid, ?_⟩, ?_⟩
  · obtain ⟨enrolled, enrolment, hregister, hredundant⟩ :=
      hoperations _ e he again ⟨9⟩ hvalid rfl rfl
    have hperform : r.perform (.register again ⟨9⟩) = enrolled := by
      rw [Registry.perform, hregister]
    have hstays : e ∈ ((r.perform (.register again ⟨9⟩)).run more).directory.entries := by
      decide +kernel
    rw [hperform] at hstays
    have hid : r.nextId = supply.mint 2 := by decide +kernel
    exact ⟨enrolled, enrolment, hregister, hredundant,
      (Registry.id_of_register hregister).trans hid, hstays, hredundant.later more hstays⟩
  · let d := (Docket.start settings supply ⟨0⟩).run moves
    let s : Step := d.log.get ⟨1, by decide +kernel⟩
    have herrand : s.errand = .enroll again := by decide +kernel
    have hthere : e ∈ s.registry.directory.entries := by decide +kernel
    have hid : s.registry.nextId = supply.mint 2 := by decide +kernel
    have hlog : d.log = d.log.take 1 ++ s :: d.log.drop 2 := d.log_cut _
    obtain ⟨a, hadmission, hunadopted⟩ :=
      hcalls ⟨0⟩ moves _ s _ again hlog herrand e hthere rfl rfl
    refine ⟨_, s, _, a, hlog, herrand, hthere, hadmission, ?_, hunadopted⟩
    obtain ⟨reg, -, -, heq⟩ := Step.admission?_eq hadmission
    rw [heq, Registry.id_enroll]
    exact hid

end Rollcall
