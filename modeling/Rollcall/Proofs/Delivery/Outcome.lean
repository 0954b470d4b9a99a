import Rollcall.Proofs.Delivery.Announcement
import Rollcall.Proofs.Delivery.Backlog

/-!
# What the outcome of a catch-up decides

When it is known what has become of a catch-up, the registrant has been admitted and noted, and the
fan-out with the news of it has been called. None of that is taken back, and nobody else acts in the
time that the registrant waits. So the outcome decides the answer and nothing else.

* `Timeline.drifts_register` — a registration is its steps, and then what is under way goes on;
* `Journal.run_quiet` — which calls no fan-out and makes no delivery that is awaited;
* `Timeline.outcome_decides_answer` — one registration over any two transports.
-/

namespace Rollcall

/-! ## While deliveries are under way -/

namespace Journal

variable {j : Journal}

theorem next_quiet {i : Incident} (h : i.isQuiet = true) :
    (j.next i).calls = j.calls ∧ (j.next i).awaited = j.awaited := by
  have hcalled (k : Desk) : Books.called (j.office.event? k i) = [] := by
    cases i with
    | turn desk | expire desk | lapse desk =>
        rw [Office.event?]
        split
        · rfl
        · rfl
    | wait span => rfl
    | act | fanOut | deliver | fail | stall => cases h
  have hawaited : j.office.awaited? i = none := by
    cases i with
    | turn | expire | lapse | wait => rfl
    | act | fanOut | deliver | fail | stall => cases h
  constructor
  · funext k
    show j.calls k ++ Books.called (j.office.event? k i) = j.calls k
    rw [hcalled, List.append_nil]
  · show j.awaited ++ (j.office.awaited? i).toList = j.awaited
    rw [hawaited, Option.toList_none, List.append_nil]

theorem run_quiet {quiet : List Incident} (h : ∀ i ∈ quiet, i.isQuiet = true) :
    (j.run quiet).calls = j.calls ∧ (j.run quiet).awaited = j.awaited := by
  induction quiet generalizing j with
  | nil => exact ⟨rfl, rfl⟩
  | cons i quiet ih =>
      obtain ⟨hcalls, hawaited⟩ := j.next_quiet (h i List.mem_cons_self)
      obtain ⟨hmore, hlater⟩ := ih (j := j.next i) fun other hother =>
        h other (List.mem_cons_of_mem i hother)
      exact ⟨hmore.trans hcalls, hlater.trans hawaited⟩

theorem run_append (j : Journal) (incidents more : List Incident) :
    j.run (incidents ++ more) = (j.run incidents).run more :=
  List.foldl_append

end Journal

/-! ## The steps of a registration -/

/-- The fan-out that a registration calls. -/
def Registry.fanOutOf (r : Registry) (reg : Registration) : List Delivery :=
  let (enrolled, a) := r.enroll reg
  deliveriesOf (.ofAdded [a.entry]) (enrolled.directory.others a.entry)

/-- The delivery that a registrant waits for, if there is anything to tell. It goes by the table
before the admission, in which the registrant itself makes no difference. -/
def Registry.catchUpOf (r : Registry) (reg : Registration) : Option Delivery :=
  let told := (r.directory.catchUp reg).added
  if told = [] then none else some ⟨reg.updateUrl, .ofAdded told⟩

namespace Timeline

/-- The steps that a registration takes at the registry. -/
def stepsOf (t : Timeline) (reg : Registration) : List Incident :=
  (t.registry.actions (.register reg t.clock)).map .act

variable {settings : RegistrySettings} {key : AccessKey} {supply : IdSupply} {t : Timeline}
  {reg : Registration}

theorem stepsOf_of_valid (h : reg.validate = .ok ()) (t : Timeline) :
    let a := (t.registry.enroll reg).2
    t.stepsOf reg = [.act (.enroll reg), .act (.record a.id t.clock), .act (.announce a)] := by
  rw [stepsOf, Registry.actions, h]
  rfl

/-- A registration is its steps, and then what is under way goes on until the catch-up is over.
Nothing begins in that time. -/
theorem drifts_register (h : reg.validate = .ok ()) (t : Timeline) :
    (t.office.run (t.stepsOf reg)).Drifts (t.register reg).1.office := by
  rw [stepsOf_of_valid h, register, Registry.register_of_valid h]
  exact drifts_announced
    { t with registry := (t.registry.enroll reg).1.record (t.registry.enroll reg).2.id t.clock } _

/-- The steps call one fan-out and find the catch-up. -/
theorem calls_stepsOf (h : reg.validate = .ok ()) {j : Journal} (hj : j.office = t.office) :
    (j.run (t.stepsOf reg)).calls .own = j.calls .own ++ [t.registry.fanOutOf reg] ∧
      (j.run (t.stepsOf reg)).calls .side = j.calls .side ∧
      (j.run (t.stepsOf reg)).awaited = j.awaited ++ (t.registry.catchUpOf reg).toList := by
  let a := (t.registry.enroll reg).2
  let noted := (j.next (.act (.enroll reg))).next (.act (.record a.id t.clock))
  have hrun : j.run (t.stepsOf reg) = noted.next (.act (.announce a)) := by
    rw [stepsOf_of_valid h]
    rfl
  have hregistry : noted.office.registry = (t.registry.enroll reg).1.record a.id t.clock := by
    show (j.office.registry.enroll reg).1.record a.id t.clock = _
    rw [hj]
    rfl
  -- The first two steps call nothing and await nothing; all of it comes with the announcement.
  have hcalls (k : Desk) : noted.calls k = j.calls k := by
    cases k with
    | own | side => exact (List.append_nil _).trans (List.append_nil _)
  have hawaited : noted.awaited = j.awaited :=
    (List.append_nil _).trans (List.append_nil _)
  have hcatchUp : noted.office.awaited? (.act (.announce a)) = t.registry.catchUpOf reg := by
    show (noted.office.registry.announce a).2 = _
    rw [hregistry]
    exact catchUp_of_enroll t.registry reg t.clock
  have hnews : noted.office.registry.news? (.announce a) = some (.ofAdded [a.entry],
      (t.registry.enroll reg).1.directory.others a.entry) := by
    rw [hregistry]
    rfl
  rw [hrun]
  refine ⟨?_, ?_, ?_⟩
  · rw [(noted.calls_next_act hnews).1, hcalls]
    rfl
  · exact (List.append_nil _).trans (hcalls .side)
  · show noted.awaited ++ (noted.office.awaited? (.act (.announce a))).toList = _
    rw [hawaited, hcatchUp]

/-! ## The answer -/

/-- A registration that is complete fails exactly if there is a catch-up and it does not arrive. It
is granted the next identifier otherwise. -/
theorem answer_register (h : reg.validate = .ok ()) (t : Timeline) :
    ((t.register reg).2 = .ok t.registry.nextId ↔
      t.registry.catchUpOf reg = none ∨ t.transport.fate reg.updateUrl = .arrived) ∧
    ((∃ fault, (t.register reg).2 = .error (.deliveryFailed reg.updateUrl fault)) ↔
      t.registry.catchUpOf reg ≠ none ∧ t.transport.fate reg.updateUrl ≠ .arrived) := by
  rw [(t.register_eq_prospect reg).1, prospect, h, Registry.catchUpOf]
  by_cases htold : (t.registry.directory.catchUp reg).added = []
  · simp [htold, Except.map]
  · cases t.transport.fate reg.updateUrl with
    | arrived | refused | stalled => simp [htold, Except.map]

end Timeline

/-- The same over any other transport, whatever the fault: the tables are changed before the
transport is asked. -/
theorem Registry.registerOver_of_valid {reg : Registration} (h : reg.validate = .ok ())
    (post : Delivery → Option DeliveryFault) (r : Registry) (now : Instant) :
    r.registerOver post reg now = (r.perform (.register reg now),
      match (r.catchUpOf reg).bind post with
      | none => .ok r.nextId
      | some fault => .error (.deliveryFailed reg.updateUrl fault)) := by
  have hcatchUp := Timeline.catchUp_of_enroll r reg now
  dsimp only at hcatchUp
  rw [registerOver, perform, register_of_valid h]
  dsimp only
  rw [hcatchUp, r.id_enroll, catchUpOf]
  split
  · rfl
  · rw [Option.bind_some]
    cases post ⟨reg.updateUrl, .ofAdded (r.directory.catchUp reg).added⟩ with
    | none => rfl
    | some fault => rfl

namespace Timeline

variable {settings : RegistrySettings} {key : AccessKey} {supply : IdSupply} {t : Timeline}
  {reg : Registration}

/-! ## One registration over two transports -/

/-- What a registration has done by the time of its answer, whatever the answer is. -/
structure Lasting (t : Timeline) (reg : Registration) (after : Timeline) : Prop where
  /-- The registrant is admitted under the next identifier, and that one counts as heard of. -/
  registry : after.registry = { t.registry with
    admissions := t.registry.admissions + 1
    directory := (t.registry.directory.enroll t.registry.nextId reg).1
    ledger := t.registry.ledger.record t.registry.nextId t.clock
    lane := after.registry.lane }
  /-- One fan-out has been called, at the registry, and the catch-up has been sent if there is one.
  Since then nothing has begun. -/
  deliveries : ∀ j : Journal, j.office = t.office → ∃ quiet : List Incident,
    (∀ i ∈ quiet, i.isQuiet = true) ∧
    let done := j.run (t.stepsOf reg ++ quiet)
    done.office = after.office ∧ done.calls .own = j.calls .own ++ [t.registry.fanOutOf reg] ∧
      done.calls .side = j.calls .side ∧
      done.awaited = j.awaited ++ (t.registry.catchUpOf reg).toList

theorem lasting_register (h : reg.validate = .ok ()) (hin : t.office.InTime) :
    t.Lasting reg (t.register reg).1 where
  registry := by
    refine (undisturbed_register t reg).registry.trans ?_
    rw [Registry.perform, Registry.register_of_valid h]
    dsimp only
    rw [t.registry.id_enroll]
    rfl
  deliveries := by
    intro j hj
    have hsteps : (t.office.run (t.stepsOf reg)).InTime := by
      refine (t.office.leads_run ?_ hin).1
      intro i hi span
      obtain ⟨x, -, rfl⟩ := List.mem_map.mp hi
      intro hlapse
      cases hlapse
    obtain ⟨-, quiet, hquiet, hrun⟩ := drifts_register h t hsteps
    -- The steps have called all that is called; what follows them is quiet.
    obtain ⟨hown, hside, hawaited⟩ := calls_stepsOf h hj
    obtain ⟨hcalls, hlater⟩ := (j.run (t.stepsOf reg)).run_quiet hquiet
    refine ⟨quiet, hquiet, ?_⟩
    dsimp only
    rw [Journal.run_append, hcalls, hlater]
    refine ⟨?_, hown, hside, hawaited⟩
    rw [Journal.office_run, Journal.office_run, hj, hrun]

/-- Over whatever transports a registry is asked to register an instance, it comes to the same table,
the same signs of life, the same identifier and the same fan-out, which brings the news to the others
that depend on the role; the answer is the identifier, unless there is a catch-up and it does not
arrive. A registration that is incomplete changes nothing at all. -/
theorem outcome_decides_answer (h : t.Reachable settings key supply) (reg : Registration) :
    let via (transport : Recorder) : Timeline := { t with transport := transport }
    (∀ e, reg.validate = .error e → (∃ field, e = .missingField field) ∧ ∀ transport,
      (via transport).register reg = (via transport, .error (.malformed (.incomplete e)))) ∧
    (reg.validate = .ok () →
      let r := t.registry
      let (enrolled, a) := r.enroll reg
      Tells enrolled.directory a.entry (.ofAdded [a.entry]) (r.fanOutOf reg) ∧
      (∀ transport, (via transport).Lasting reg ((via transport).register reg).1) ∧
      (∀ one other,
        let after := ((via one).register reg).1.registry
        after = { ((via other).register reg).1.registry with lane := after.lane }) ∧
      (∀ transport,
        let answer := ((via transport).register reg).2
        (answer = .ok r.nextId ↔
          r.catchUpOf reg = none ∨ transport.fate reg.updateUrl = .arrived) ∧
        ((∃ fault, answer = .error (.deliveryFailed reg.updateUrl fault)) ↔
          r.catchUpOf reg ≠ none ∧ transport.fate reg.updateUrl ≠ .arrived)) ∧
      ∀ post, r.registerOver post reg t.clock = (r.perform (.register reg t.clock),
        match (r.catchUpOf reg).bind post with
        | none => .ok r.nextId
        | some fault => .error (.deliveryFailed reg.updateUrl fault))) := by
  intro via
  constructor
  · intro e hinvalid
    obtain ⟨field, rfl⟩ := Registration.error_of_validate hinvalid
    refine ⟨⟨field, rfl⟩, ?_⟩
    intro transport
    rw [register, Registry.register, hinvalid]
    rfl
  · intro hvalid r
    have hin : t.office.InTime := (h.leads inTime_start).1
    have hlasting (transport : Recorder) :
        (via transport).Lasting reg ((via transport).register reg).1 :=
      lasting_register hvalid hin
    have hsound := (h.coherent.act (.enroll reg)).sound
    refine ⟨?_, hlasting, ?_, ?_, ?_⟩
    · exact hsound.tells (t.registry.mem_enroll reg) (deliveriesOf_ofAdded _)
    · intro one other after
      refine (hlasting one).registry.trans ?_
      rw [(hlasting other).registry]
    · intro transport
      exact answer_register hvalid (via transport)
    · intro post
      exact Registry.registerOver_of_valid hvalid post t.registry t.clock

/-- A user gives the address of a web server for its news, so that the news of the user and its
catch-up go to the same address. It is answered there, refused, or left without an answer; and a
user without an address is turned away. -/
theorem user_shares_address :
    let supply : IdSupply := .numbered 'i' [] [] 'd' (by decide) (by decide)
    let log : Registration := { role := .log, url := "http://p" }
    let web : Registration :=
      { role := .web, url := "http://q", requires := .ofList [.log, .user],
        updateUrl := "http://q/n" }
    let user : Registration :=
      { role := .user, url := "http://u", requires := .ofList [.log], updateUrl := "http://q/n" }
    let t := (((start ⟨⟨60⟩, ⟨9⟩, ⟨9⟩, 1⟩ ⟨"k"⟩ supply).register log).1.register web).1
    let via (transport : Recorder) : Timeline := { t with transport := transport }
    let failing := ({} : Recorder).fail "http://q/n"
    let stalling := ({} : Recorder).stall "http://q/n"
    t.registry.fanOutOf user = [⟨"http://q/n", .ofAdded [{ user with id := supply.mint 3 }]⟩] ∧
      t.registry.catchUpOf user =
        some ⟨"http://q/n", .ofAdded [{ log with id := supply.mint 1 }]⟩ ∧
      ((via {}).register user).2 = .ok (supply.mint 3) ∧
      (∀ transport ∈ [failing, stalling],
        (∃ fault, ((via transport).register user).2 =
          .error (.deliveryFailed "http://q/n" fault)) ∧
        (via transport).Lasting user ((via transport).register user).1 ∧
        ((via transport).register user).1.registry.directory =
          ((via {}).register user).1.registry.directory) ∧
      (via stalling).register { user with updateUrl := " " } =
        (via stalling, .error (.malformed (.incomplete (.missingField .updateUrl)))) := by
  intro supply log web user t via failing stalling
  have hreach : t.Reachable ⟨⟨60⟩, ⟨9⟩, ⟨9⟩, 1⟩ ⟨"k"⟩ supply :=
    (Reachable.start.register log).register web
  have hvalid : user.validate = .ok () := by decide +kernel
  have hinvalid : { user with updateUrl := " " }.validate = .error (.missingField .updateUrl) := by
    decide +kernel
  have hfanOut : t.registry.fanOutOf user =
      [⟨"http://q/n", .ofAdded [{ user with id := supply.mint 3 }]⟩] := by
    decide +kernel
  have hcatchUp : t.registry.catchUpOf user =
      some ⟨"http://q/n", .ofAdded [{ log with id := supply.mint 1 }]⟩ := by
    decide +kernel
  have hid : t.registry.nextId = supply.mint 3 := by decide +kernel
  -- The state has been evaluated for the last time.
  clear_value t
  obtain ⟨hrefused, -⟩ := outcome_decides_answer hreach { user with updateUrl := " " }
  obtain ⟨-, htaken⟩ := outcome_decides_answer hreach user
  obtain ⟨-, hlasting, hsame, hanswer, -⟩ := htaken hvalid
  refine ⟨hfanOut, hcatchUp, ?_, ?_, (hrefused _ hinvalid).2 stalling⟩
  · rw [← hid]
    exact (hanswer {}).1.mpr (.inr rfl)
  · intro transport htransport
    have hfate : transport.fate "http://q/n" ≠ .arrived := by
      rcases List.mem_pair.mp htransport with rfl | rfl
      · decide +kernel
      · decide +kernel
    refine ⟨(hanswer transport).2.mpr ⟨?_, hfate⟩, hlasting transport, ?_⟩
    · rw [hcatchUp]
      exact Option.some_ne_none _
    · have hdirectory := congrArg Registry.directory (hsame transport {})
      exact hdirectory

end Timeline
end Rollcall
