import Rollcall.Proofs.Delivery.Journal
import Rollcall.Proofs.Link.Table
import Rollcall.Proofs.Registry.Clearance

/-!
# Who is told what

An admission that has just been made is announced, and a departure is told in the step that makes
it. In both cases the news goes to the other entries that depend on the role; an announcement also
finds the catch-up of the registrant. When the admission has kept an older entry, the news is of
that entry, and the catch-up goes by the registration as submitted.

* `Tells` — a fan-out brings the news of an entry once to each other entry that depends on its role;
* `Announced`, `Parted` — what an announcement and a departure do to the table and the deliveries;
* `Journal.tells_who_depends` — the one is so of every admission just made, the other of every
  departure, in whatever state the table has got into.
-/

namespace Rollcall

/-! ## Admissions -/

/-- The admission of a registration has just been made: the table is as it has left it. Between an
admission and its announcement others may come and go, and then what follows is not what is said
here. -/
def JustAdmitted (r : Registry) (reg : Registration) (a : Admission) : Prop :=
  ∃ before : Registry, (before.enroll reg).1.directory = r.directory ∧ (before.enroll reg).2 = a

namespace JustAdmitted

variable {r : Registry} {reg : Registration} {a : Admission}

theorem mem (h : JustAdmitted r reg a) : a.entry ∈ r.directory.entries := by
  obtain ⟨before, hdirectory, rfl⟩ := h
  rw [← hdirectory]
  exact before.mem_enroll reg

theorem sameInstance (h : JustAdmitted r reg a) : a.entry.sameInstance reg = true := by
  obtain ⟨before, -, rfl⟩ := h
  exact before.sameInstance_enroll reg

theorem catchUp_eq (h : JustAdmitted r reg a) (d : Directory) :
    d.catchUp a.registration = d.catchUp reg := by
  obtain ⟨before, -, rfl⟩ := h
  rw [before.registration_enroll]
  rfl

theorem updateUrl_eq (h : JustAdmitted r reg a) : a.registration.updateUrl = reg.updateUrl := by
  obtain ⟨before, -, rfl⟩ := h
  rw [before.registration_enroll]

end JustAdmitted

/-! ## Fan-outs -/

/-- A fan-out brings the news of an entry to each other entry that depends on its role, once to
each, and to nobody else. What is counted is what the caller of a fan-out is told. -/
structure Tells (d : Directory) (subject : Registration) (news : Patch) (fanOut : List Delivery) :
    Prop where
  audience : ∃ recipients : List Registration, recipients.Nodup ∧
    (∀ other, other ∈ recipients ↔
      other ∈ d.entries ∧ other ≠ subject ∧ other.dependsOn subject.role = true) ∧
    fanOut = recipients.map fun other => ⟨other.updateUrl, news⟩
  /-- Whoever calls the fan-out is told how many deliveries it makes. -/
  counted : ∀ lane : FanOut, (lane.call news (d.others subject)).2 = fanOut.length

theorem Directory.Sound.tells {d : Directory} (h : d.Sound) {subject : Registration}
    (hsubject : subject ∈ d.entries) {news : Patch}
    (hnews : ∀ recipients, deliveriesOf news recipients =
      (recipients.filter (·.dependsOn subject.role)).map fun other => ⟨other.updateUrl, news⟩) :
    Tells d subject news (deliveriesOf news (d.others subject)) := by
  refine ⟨⟨(d.others subject).filter (·.dependsOn subject.role), ?_, fun other => ?_, hnews _⟩,
    fun _ => rfl⟩
  · exact (h.nodup.filter _).filter _
  · rw [List.mem_filter, h.mem_others hsubject, and_assoc]

namespace Journal

variable {settings : RegistrySettings} {supply : IdSupply} {j : Journal}

theorem Reachable.coherent (h : j.Reachable settings supply) : j.office.registry.Coherent := by
  induction h with
  | start => exact .empty settings supply
  | next _ i ih => exact Office.coherent_meet ih i
  | prefer _ k _ ih =>
      cases k with
      | own => exact ⟨ih.sound, ih.minted⟩
      | side => exact ih

theorem calls_next_act {x : Action} {news : Patch} {recipients : List Registration}
    (h : j.office.registry.news? x = some (news, recipients)) :
    (j.next (.act x)).calls .own = j.calls .own ++ [deliveriesOf news recipients] ∧
      (j.office.registry.act x).lane =
        j.office.registry.lane.queue (deliveriesOf news recipients) := by
  refine ⟨?_, by rw [Registry.lane_act, h]⟩
  show j.calls .own ++ Books.called ((j.office.registry.news? x).map _) = _
  rw [h]
  rfl

/-- What an announcement in a state of the office does: a catch-up is found, one fan-out is called,
and nothing else is delivered. -/
structure Announced (j : Journal) (reg : Registration) (a : Admission) (after : Journal) :
    Prop where
  /-- The news is of the one entry with the role and the address of the registration. -/
  subject : ∀ entry, entry = a.entry ↔ entry ∈ j.office.registry.directory.entries ∧
    entry.role = reg.role ∧ entry.url = reg.url
  /-- One fan-out is called, at the registry, and brings the news. -/
  fanOut : ∃ fanOut, Tells j.office.registry.directory a.entry (.ofAdded [a.entry]) fanOut ∧
    after.office.registry.lane = j.office.registry.lane.queue fanOut ∧
    after.calls .own = j.calls .own ++ [fanOut] ∧ after.calls .side = j.calls .side
  /-- The registrant is told of the providers of all roles that it has submitted, role by role and
  in the order of the table; and it is told at once and only once, unless there is nothing to
  tell. -/
  catchUp : ∃ told : List Registration, told.Nodup ∧
    (∀ entry, entry ∈ told ↔ entry ∈ j.office.registry.directory.entries ∧
      reg.dependsOn entry.role = true ∧ ¬ (entry.role = reg.role ∧ entry.url = reg.url)) ∧
    told.Pairwise (fun a b => a.role = b.role ∨ a.role.Before b.role) ∧
    (∀ role, reg.dependsOn role = true → told.filter (·.role = role) =
      (j.office.registry.query role).filter
        fun entry => ¬ (entry.role = reg.role ∧ entry.url = reg.url)) ∧
    let sent := if told = [] then [] else [⟨reg.updateUrl, .ofAdded told⟩]
    after.awaited = j.awaited ++ sent ∧
      after.log = j.log ++ sent.map fun d => ⟨.awaited d, j.office.transport, j.office.time⟩
  /-- Nobody comes or goes. -/
  table : after.office.registry.directory = j.office.registry.directory

/-- What a departure in a state of the office does: one fan-out is called, and nobody is waited
for. -/
structure Parted (j : Journal) (gone : Registration) (departed : Registry) (after : Journal) :
    Prop where
  there : gone ∈ j.office.registry.directory.entries
  /-- One fan-out is called, at the registry, and brings the news to those who are in the table
  before the departure. Nobody is told anything else. -/
  fanOut : ∃ fanOut, Tells j.office.registry.directory gone (.ofRemoved [gone]) fanOut ∧
    departed.lane = j.office.registry.lane.queue fanOut ∧
    after.calls .own = j.calls .own ++ [fanOut] ∧ after.calls .side = j.calls .side
  silent : after.awaited = j.awaited ∧ after.log = j.log
  /-- The table loses that entry and nothing else. -/
  table : departed.directory.entries = j.office.registry.directory.entries.filter (· ≠ gone)
  query : ∀ role, departed.query role = (j.office.registry.query role).filter (· ≠ gone)
  registry : after.office.registry = departed

/-- What a catch-up comes to: a delivery, unless it is empty. -/
theorem catchUp?_announce {reg : Registration} {a : Admission}
    (h : JustAdmitted j.office.registry reg a) :
    (j.office.awaited? (.act (.announce a))).toList =
      if (j.office.registry.directory.catchUp reg).added = [] then []
      else [⟨reg.updateUrl, .ofAdded (j.office.registry.directory.catchUp reg).added⟩] := by
  show (j.office.registry.announce a).2.toList = _
  rw [Registry.catchUp_announce, h.catchUp_eq, h.updateUrl_eq]
  split
  · rfl
  · rfl

theorem announced (h : j.office.registry.Coherent) {reg : Registration} {a : Admission}
    (hjust : JustAdmitted j.office.registry reg a) :
    j.Announced reg a (j.next (.act (.announce a))) := by
  obtain ⟨hrole, hurl⟩ := Registration.sameInstance_iff.mp hjust.sameInstance
  refine ⟨fun entry => ⟨?_, ?_⟩, ?_, ?_, rfl⟩
  · rintro rfl
    exact ⟨hjust.mem, hrole, hurl⟩
  · rintro ⟨hentry, hsamerole, hsameurl⟩
    refine h.sound.eq_of_sameInstance hentry hjust.mem (Registration.sameInstance_iff.mpr ?_)
    exact ⟨hsamerole.trans hrole.symm, hsameurl.trans hurl.symm⟩
  · obtain ⟨hcalls, hlane⟩ := j.calls_next_act (x := .announce a) rfl
    exact ⟨_, h.sound.tells hjust.mem (deliveriesOf_ofAdded a.entry), hlane, hcalls,
      List.append_nil _⟩
  · refine ⟨_, h.sound.nodup_catchUp reg, fun entry => ?_, Directory.catchUp_sorted _ reg,
      fun role hasked => ?_, ?_, ?_⟩
    · rw [Directory.mem_catchUp, ← Registration.sameInstance_iff, Bool.not_eq_true]
    · rw [Directory.filter_catchUp _ hasked]
      refine List.filter_congr fun entry _ => ?_
      simp [Registration.sameInstance]
    · exact congrArg (j.awaited ++ ·) (j.catchUp?_announce hjust)
    · show j.log ++ (((j.office.awaited? (.act (.announce a))).map _).map _).toList = _
      rw [Option.map_map, Option.toList_map, j.catchUp?_announce hjust]
      rfl

theorem parted (h : j.office.registry.Coherent) {x : Action} {gone : Registration}
    (hdep : j.office.registry.departure? x = some gone) :
    j.Parted gone (j.office.registry.act x) (j.next (.act x)) := by
  obtain ⟨hthere, hentries⟩ := h.entries_of_departure hdep
  obtain ⟨hcalls, hlane⟩ := j.calls_next_act (Registry.news?_of_departure hdep)
  have hnone : j.office.awaited? (.act x) = none := by
    cases x with
    | announce => cases hdep
    | _ => rfl
  have hstarting : j.starting? (.act x) = none := congrArg (Option.map Item.awaited) hnone
  refine ⟨hthere, ?_, ⟨?_, ?_⟩, hentries, fun role => ?_, rfl⟩
  · exact ⟨_, h.sound.tells hthere (deliveriesOf_ofRemoved gone), hlane, hcalls,
      List.append_nil _⟩
  · show j.awaited ++ (j.office.awaited? (.act x)).toList = j.awaited
    rw [hnone]
    exact List.append_nil _
  · show j.log ++ ((j.starting? (.act x)).map _).toList = j.log
    rw [hstarting]
    exact List.append_nil _
  · show (j.office.registry.act x).directory.entries.filter _ = List.filter _ (List.filter _ _)
    rw [hentries, List.filter_comm]

/-- In whatever state the table has got into, the news of an admission just made and of a departure
goes to the other entries that depend on the role, once to each; and the registrant is told of all
roles that it depends on. -/
theorem tells_who_depends (h : j.Reachable settings supply) :
    (∀ reg a, JustAdmitted j.office.registry reg a →
      j.Announced reg a (j.next (.act (.announce a)))) ∧
    (∀ role url departed gone, j.office.registry.remove role url = .ok (departed, gone) →
      (gone.role = role ∧ gone.url = url) ∧
        j.Parted gone departed (j.next (.act (.remove role url)))) ∧
    (∀ stale departed gone, j.office.registry.evict stale = .ok (departed, gone) →
      (gone.sameInstance stale = true ∧ gone.id = stale.id) ∧
        j.Parted gone departed (j.next (.act (.evict stale)))) := by
  refine ⟨fun reg a hjust => j.announced h.coherent hjust, ?_, ?_⟩
  · intro role url departed gone hremove
    have hdep := Registry.departure?_of_remove hremove
    refine ⟨Registry.at_of_departure?_remove hdep, ?_⟩
    have hparted := j.parted h.coherent hdep
    rwa [Registry.act_remove_of_ok hremove] at hparted
  · intro stale departed gone hevict
    have hdep := Registry.departure?_of_evict hevict
    refine ⟨(h.coherent.departure?_evict.mp hdep).2, ?_⟩
    have hparted := j.parted h.coherent hdep
    rwa [Registry.act_evict_of_ok hevict] at hparted

/-- A web server that is there comes again with another address for its news and with other
dependencies. The user hears of the entry that stays; the web server is told at the new address of
the log and the user. Then the log leaves, and in another course of things is evicted. -/
theorem web_comes_again :
    let settings : RegistrySettings := ⟨⟨60⟩, ⟨9⟩, ⟨9⟩, 1⟩
    let supply : IdSupply := .numbered 'i' [] [] 'd' (by decide) (by decide)
    let user : Registration := {
      role := .user, url := "http://u"
      requires := .ofList [.web, .log], updateUrl := "http://u/n" }
    let log : Registration := { role := .log, url := "http://p" }
    let web : Registration := { role := .web, url := "http://q" }
    let again : Registration :=
      { web with updateUrl := "http://q/n", requires := .ofList [.user, .log, .web] }
    let before := (Journal.start settings supply).run
      [.act (.enroll user), .act (.enroll log), .act (.enroll web)]
    let a := (before.office.registry.enroll again).2
    let j := before.next (.act (.enroll again))
    let gone := { log with id := supply.mint 2 }
    (a.inserted = false ∧ JustAdmitted j.office.registry again a ∧
      j.Announced again a (j.next (.act (.announce a))) ∧
      (j.next (.act (.announce a))).awaited = [⟨"http://q/n",
        .ofAdded [{ log with id := supply.mint 2 }, { user with id := supply.mint 1 }]⟩] ∧
      (j.next (.act (.announce a))).calls .own = [[⟨"http://u/n",
        .ofAdded [{ web with id := supply.mint 3 }]⟩]]) ∧
    (∃ departed, j.office.registry.remove .log "http://p" = .ok (departed, gone) ∧
      j.Parted gone departed (j.next (.act (.remove .log "http://p")))) ∧
    ∃ departed, j.office.registry.evict gone = .ok (departed, gone) ∧
      j.Parted gone departed (j.next (.act (.evict gone))) := by
  intro settings supply user log web again before a j gone
  have hreach : j.Reachable settings supply := (Reachable.start.run _).next _
  have hjust : JustAdmitted j.office.registry again a := ⟨before.office.registry, rfl, rfl⟩
  have hgone : gone ∈ j.office.registry.directory.entries := by decide +kernel
  obtain ⟨hannounced, hremoved, hevicted⟩ := tells_who_depends hreach
  refine ⟨⟨by decide +kernel, hjust, hannounced again a hjust, by decide +kernel,
    by decide +kernel⟩, ?_, ?_⟩
  · have htaken : Registry.taken? (j.office.registry.remove .log "http://p") = some gone := by
      decide +kernel
    cases hremove : j.office.registry.remove .log "http://p" with
    | error e =>
        rw [hremove] at htaken
        cases htaken
    | ok done =>
        obtain ⟨departed, other⟩ := done
        rw [hremove] at htaken
        obtain rfl : other = gone := Option.some.inj htaken
        exact ⟨departed, rfl, (hremoved _ _ _ _ hremove).2⟩
  · have hevict := hreach.coherent.evict_of_mem hgone
    exact ⟨_, hevict, (hevicted _ _ _ hevict).2⟩

end Journal
end Rollcall
