import Rollcall.Proofs.Link.Table
import Rollcall.Proofs.Registry.Issued

/-!
# A backlog delays no registration

A registrant waits for its own catch-up and for nothing else. The catch-up takes no permit, so the
deliveries of fan-outs, however many are waiting or have stalled, have no part in what becomes of a
registration or in how long it takes.

* `Timeline.register_eq_prospect` — what becomes of a registration, told by the table, the transport
  and the settings;
* `Timeline.backlog_delays_nobody` — two timelines that only fan-outs tell apart register alike.
-/

namespace Rollcall.Timeline

variable {t u : Timeline} {reg : Registration}

/-! ## One registration -/

/-- What becomes of a registration, and how long it takes. It is read off the tables, the fate of
the one target and the timeout: no permit, no queue and no other delivery appears in it. -/
def prospect (t : Timeline) (reg : Registration) : Except RegistryError Unit × Duration :=
  match reg.validate with
  | .error e => (.error (.ofInput e), ⟨0⟩)
  | .ok () =>
    if (t.registry.directory.catchUp reg).added = [] then (.ok (), ⟨0⟩)
    else match t.transport.fate reg.updateUrl with
      | .arrived => (.ok (), ⟨0⟩)
      | .refused => (.error (.deliveryFailed reg.updateUrl .refused), ⟨0⟩)
      | .stalled => (.error (.deliveryFailed reg.updateUrl (.timedOut t.deliveryTimeout)),
          t.deliveryTimeout)

/-- What becomes of a delivery that is awaited, and how long that takes. -/
theorem deliver_eq (t : Timeline) (d : Delivery) : match t.transport.fate d.target with
    | .arrived => (t.deliver d).2 = none ∧ (t.deliver d).1.time = t.time
    | .refused => (t.deliver d).2 = some .refused ∧ (t.deliver d).1.time = t.time
    | .stalled => (t.deliver d).2 = some (.timedOut t.deliveryTimeout) ∧
      (t.deliver d).1.time = ⟨t.time.nanos + t.deliveryTimeout.nanos⟩ := by
  rw [deliver, Recorder.attempt]
  cases t.transport.fate d.target with
  | arrived => exact ⟨rfl, rfl⟩
  | refused => exact ⟨rfl, rfl⟩
  | stalled => exact ⟨rfl, rfl⟩

/-- What a registrant is sent goes by the table that its admission has found. -/
theorem catchUp_of_enroll (r : Registry) (reg : Registration) (now : Instant) :
    let a := (r.enroll reg).2
    (((r.enroll reg).1.record a.id now).announce a).2 =
      if (r.directory.catchUp reg).added = [] then none
      else some ⟨reg.updateUrl, .ofAdded (r.directory.catchUp reg).added⟩ := by
  intro a
  have hsame : (r.enroll reg).1.directory.catchUp a.registration = r.directory.catchUp reg := by
    rw [r.registration_enroll]
    exact r.directory.catchUp_enroll r.nextId reg
  have htarget : a.registration.updateUrl = reg.updateUrl := by
    rw [r.registration_enroll]
  rw [Registry.catchUp_announce, htarget]
  change (if ((r.enroll reg).1.directory.catchUp a.registration).added = [] then none
    else some (⟨reg.updateUrl, .ofAdded
      ((r.enroll reg).1.directory.catchUp a.registration).added⟩ : Delivery)) = _
  rw [hsame]

theorem register_eq_prospect (t : Timeline) (reg : Registration) :
    (t.register reg).2 = (t.prospect reg).1.map (fun _ => t.registry.nextId) ∧
      (t.register reg).1.time = ⟨t.time.nanos + (t.prospect reg).2.nanos⟩ := by
  cases hvalid : reg.validate with
  | error e =>
      rw [prospect, hvalid, register, Registry.register, hvalid]
      exact ⟨rfl, rfl⟩
  | ok =>
      rw [prospect, hvalid, register, Registry.register_of_valid hvalid]
      dsimp only
      rw [catchUp_of_enroll, t.registry.id_enroll]
      split
      · exact ⟨rfl, rfl⟩
      -- The announcement has queued its own fan-out by now, behind whatever waits in the lane.
      · have hdelivered := deliver_eq { t with
          registry := (((t.registry.enroll reg).1.record t.registry.nextId t.clock).announce
            (t.registry.enroll reg).2).1 }
          ⟨reg.updateUrl, .ofAdded (t.registry.directory.catchUp reg).added⟩
        dsimp only at hdelivered
        cases hfate : t.transport.fate reg.updateUrl with
        | arrived | refused | stalled =>
            rw [hfate] at hdelivered
            obtain ⟨hfault, htime⟩ := hdelivered
            refine ⟨?_, htime⟩
            simp only [catchUp, hfault]
            rfl

/-- Waiting for the catch-up changes nothing of what a registration does to the tables, however long
it takes. -/
theorem undisturbed_register (t : Timeline) (reg : Registration) :
    Undisturbed { t with registry := t.registry.perform (.register reg t.clock) }
      (t.register reg).1 := by
  rw [register, Registry.perform]
  cases t.registry.register reg t.clock with
  | error e => exact .refl t
  | ok done => exact undisturbed_catchUp _ _

/-! ## Two timelines -/

/-- Two timelines agree on the table, on what becomes of deliveries and on the settings. They may
differ in all that has to do with fan-outs: the permits, whatever waits, has stalled or has arrived,
and the time. -/
structure Alike (t u : Timeline) : Prop where
  settings : t.registry.settings = u.registry.settings
  query : ∀ role, t.registry.query role = u.registry.query role
  fate : t.transport.fate = u.transport.fate

theorem alike_of_lane (t : Timeline) (lane : FanOut) :
    t.Alike { t with registry := { t.registry with lane := lane } } :=
  ⟨rfl, fun _ => rfl, rfl⟩

theorem Alike.prospect_eq (h : t.Alike u) (reg : Registration) :
    t.prospect reg = u.prospect reg := by
  have htimeout : t.deliveryTimeout = u.deliveryTimeout := by
    rw [deliveryTimeout, h.settings, deliveryTimeout]
  rw [prospect, prospect, Directory.catchUp_congr h.query, h.fate, htimeout]

/-- What a registration does to the rest of the registry, the ledger aside. -/
theorem register_leaves (t : Timeline) (reg : Registration) :
    let after := (t.register reg).1.registry
    after.settings = t.registry.settings ∧ after.supply = t.registry.supply ∧
      match reg.validate with
      | .error _ => after.admissions = t.registry.admissions ∧
        after.directory = t.registry.directory
      | .ok () => after.admissions = t.registry.admissions + 1 ∧
        after.directory = (t.registry.directory.enroll t.registry.nextId reg).1 := by
  intro after
  have hafter : after = { t.registry.perform (.register reg t.clock) with lane := after.lane } :=
    (undisturbed_register t reg).registry
  rw [hafter, Registry.perform]
  cases hvalid : reg.validate with
  | error e =>
      rw [Registry.register, hvalid]
      exact ⟨rfl, rfl, rfl, rfl⟩
  | ok =>
      rw [Registry.register_of_valid hvalid]
      exact ⟨rfl, rfl, rfl, rfl⟩

/-- Two timelines that give the same identifier next are still alike after a registration. -/
theorem Alike.register (h : t.Alike u) (hid : t.registry.nextId = u.registry.nextId)
    (reg : Registration) : (t.register reg).1.Alike (u.register reg).1 := by
  obtain ⟨htsettings, -, ht⟩ := register_leaves t reg
  obtain ⟨husettings, -, hu⟩ := register_leaves u reg
  refine ⟨by rw [htsettings, husettings, h.settings], fun role => ?_, ?_⟩
  · rw [Registry.query, Registry.query]
    cases hvalid : reg.validate with
    | error e =>
        rw [hvalid] at ht hu
        rw [ht.2, hu.2]
        exact h.query role
    | ok =>
        have hquery (role : Role) :
            t.registry.directory.ofRole role = u.registry.directory.ofRole role := h.query role
        rw [hvalid] at ht hu
        rw [ht.2, hu.2, Directory.ofRole_enroll, Directory.ofRole_enroll, hid, hquery, hquery]
  · rw [(undisturbed_register t reg).fate, (undisturbed_register u reg).fate]
    exact h.fate

/-! ## Many registrations -/

def registerAll (t : Timeline) :
    List Registration → Timeline × List (Except RegistryError InstanceId)
  | [] => (t, [])
  | reg :: rest =>
    let (t, outcome) := t.register reg
    let (t, outcomes) := t.registerAll rest
    (t, outcome :: outcomes)

/-- Two timelines that draw identifiers from the same source register alike from end to end: with
the same outcomes, and in spans of the same length. -/
theorem Alike.registerAll (h : t.Alike u) (hsupply : t.registry.supply = u.registry.supply)
    (hadmissions : t.registry.admissions = u.registry.admissions) (regs : List Registration) :
    (t.registerAll regs).2 = (u.registerAll regs).2 ∧
      ∃ span : Duration, (t.registerAll regs).1.time = ⟨t.time.nanos + span.nanos⟩ ∧
        (u.registerAll regs).1.time = ⟨u.time.nanos + span.nanos⟩ := by
  -- By induction on the calls: after each of them the two are alike again and give the same next
  -- identifier.
  induction regs generalizing t u with
  | nil => exact ⟨rfl, ⟨0⟩, rfl, rfl⟩
  | cons reg rest ih =>
      have hid : t.registry.nextId = u.registry.nextId := by
        rw [Registry.nextId, hsupply, hadmissions, Registry.nextId]
      obtain ⟨-, htsupply, ht⟩ := register_leaves t reg
      obtain ⟨-, husupply, hu⟩ := register_leaves u reg
      have hsupply' : (t.register reg).1.registry.supply = (u.register reg).1.registry.supply := by
        rw [htsupply, husupply, hsupply]
      have hadmissions' :
          (t.register reg).1.registry.admissions = (u.register reg).1.registry.admissions := by
        cases hvalid : reg.validate with
        | error e =>
            rw [hvalid] at ht hu
            rw [ht.1, hu.1, hadmissions]
        | ok =>
            rw [hvalid] at ht hu
            rw [ht.1, hu.1, hadmissions]
      obtain ⟨houtcomes, span, htime, hutime⟩ := ih (h.register hid reg) hsupply' hadmissions'
      obtain ⟨htoutcome, htwait⟩ := register_eq_prospect t reg
      obtain ⟨huoutcome, huwait⟩ := register_eq_prospect u reg
      rw [← h.prospect_eq reg] at huoutcome huwait
      have hfirst : (t.register reg).2 = (u.register reg).2 := by rw [htoutcome, huoutcome, hid]
      refine ⟨congrArg₂ List.cons hfirst houtcomes,
        ⟨(t.prospect reg).2.nanos + span.nanos⟩, ?_, ?_⟩
      · refine htime.trans ?_
        rw [htwait, Nat.add_assoc]
      · refine hutime.trans ?_
        rw [huwait, Nat.add_assoc]

/-- Whatever fan-outs wait, have stalled or are under way, a registration comes to the same and
takes as long: the time that a delivery may take if there is something to tell and nobody answers at
the address for it, and no time at all otherwise. And so do any registrations one after the
other. -/
theorem backlog_delays_nobody (h : t.Alike u) (reg : Registration) :
    let told := (t.registry.directory.catchUp reg).added
    (t.register reg).2.map (fun _ => ()) = (u.register reg).2.map (fun _ => ()) ∧
    (t.registry.nextId = u.registry.nextId → (t.register reg).2 = (u.register reg).2) ∧
    (∃ span : Duration, (t.register reg).1.time = ⟨t.time.nanos + span.nanos⟩ ∧
      (u.register reg).1.time = ⟨u.time.nanos + span.nanos⟩ ∧
      (reg.validate ≠ .ok () ∨ told = [] ∨ t.transport.fate reg.updateUrl ≠ .stalled →
        span = ⟨0⟩) ∧
      (reg.validate = .ok () → told ≠ [] → t.transport.fate reg.updateUrl = .stalled →
        span = t.deliveryTimeout ∧ (t.register reg).2 =
          .error (.deliveryFailed reg.updateUrl (.timedOut t.deliveryTimeout)))) ∧
    (t.registry.supply = u.registry.supply → t.registry.admissions = u.registry.admissions →
      ∀ regs, (t.registerAll regs).2 = (u.registerAll regs).2 ∧
        ∃ span : Duration, (t.registerAll regs).1.time = ⟨t.time.nanos + span.nanos⟩ ∧
          (u.registerAll regs).1.time = ⟨u.time.nanos + span.nanos⟩) := by
  intro told
  -- Neither side goes by more than the prospect of the call, and that does not look at the lane.
  obtain ⟨htoutcome, htime⟩ := register_eq_prospect t reg
  obtain ⟨huoutcome, hutime⟩ := register_eq_prospect u reg
  rw [← h.prospect_eq reg] at huoutcome hutime
  refine ⟨?_, fun hid => by rw [htoutcome, huoutcome, hid],
    ⟨(t.prospect reg).2, htime, hutime, ?_, ?_⟩, h.registerAll⟩
  -- The sources may give different identifiers, so the outcomes are compared without them.
  · rw [htoutcome, huoutcome]
    cases (t.prospect reg).1 with
    | error e => rfl
    | ok => rfl
  · -- Nothing waits unless the catch-up is sent and stalls.
    intro hquick
    rw [prospect]
    split
    · rfl
    · rename_i hvalid
      split
      · rfl
      · rename_i htold
        have hfate : t.transport.fate reg.updateUrl ≠ .stalled :=
          (hquick.resolve_left fun hinvalid => hinvalid hvalid).resolve_left htold
        cases h : t.transport.fate reg.updateUrl with
        | arrived | refused => rfl
        | stalled => exact absurd h hfate
  · intro hvalid htold hfate
    have hprospect : t.prospect reg =
        (.error (.deliveryFailed reg.updateUrl (.timedOut t.deliveryTimeout)),
          t.deliveryTimeout) := by
      rw [prospect, hvalid]
      dsimp only
      rw [if_neg htold, hfate]
    rw [htoutcome, hprospect]
    exact ⟨rfl, rfl⟩

/-- The only permit is with a delivery that has stalled, and another one waits for it, while users
come. One of them has an address that answers, the other one has not. -/
theorem users_come_to_a_saturated_registry :
    let supply : IdSupply := .numbered 'i' [] [] 'd' (by decide) (by decide)
    let web : Registration :=
      { role := .web, url := "http://q", requires := .ofList [.log], updateUrl := "http://q/n" }
    let user : Registration :=
      { role := .user, url := "http://u", requires := .ofList [.log], updateUrl := "http://u/n" }
    let deaf : Registration := { user with url := "http://v", updateUrl := "http://q/n" }
    let before : Timeline := { start ⟨⟨60⟩, ⟨9⟩, ⟨9⟩, 1⟩ ⟨"k"⟩ supply with
      transport := ({} : Recorder).stall "http://q/n" }
    let t := (before.registerAll
      [web, { web with url := "http://r" }, { role := .log, url := "http://p" }]).1.settle
    let u := { t with registry := { t.registry with lane := .ofLimit 1 } }
    t.Alike u ∧ t.registry.lane.free = 0 ∧ t.registry.lane.aloft.length = 1 ∧
      t.registry.lane.line.length = 1 ∧
      ((t.register user).2 = .ok (supply.mint 4) ∧ (u.register user).2 = .ok (supply.mint 4) ∧
        (t.register user).1.time = t.time ∧ (u.register user).1.time = u.time) ∧
      (t.register deaf).2 = (u.register deaf).2 ∧
      (t.register deaf).2 = .error (.deliveryFailed "http://q/n" (.timedOut ⟨9⟩)) ∧
      (t.register deaf).1.time = ⟨t.time.nanos + 9⟩ ∧
      (u.register deaf).1.time = ⟨u.time.nanos + 9⟩ := by
  intro supply web user deaf before t u
  have hfree : t.registry.lane.free = 0 := by decide +kernel
  have haloft : t.registry.lane.aloft.length = 1 := by decide +kernel
  have hline : t.registry.lane.line.length = 1 := by decide +kernel
  have htimeout : t.deliveryTimeout = ⟨9⟩ := by decide +kernel
  have hadmitted : (t.register user).2 = .ok (supply.mint 4) := by decide +kernel
  have hanswers : t.transport.fate user.updateUrl ≠ .stalled := by decide +kernel
  have hvalid : deaf.validate = .ok () := by decide +kernel
  have htold : (t.registry.directory.catchUp deaf).added ≠ [] := by decide +kernel
  have hdeaf : t.transport.fate deaf.updateUrl = .stalled := by decide +kernel
  -- From here on only these facts about the state count.
  clear_value t
  have halike : t.Alike u := alike_of_lane t _
  refine ⟨halike, hfree, haloft, hline, ?_, ?_⟩
  · obtain ⟨-, hsame, ⟨span, htime, hutime, hquick, -⟩, -⟩ := backlog_delays_nobody halike user
    rw [hquick (.inr (.inr hanswers))] at htime hutime
    exact ⟨hadmitted, (hsame rfl).symm.trans hadmitted, htime, hutime⟩
  · obtain ⟨-, hsame, ⟨span, htime, hutime, -, hstalled⟩, -⟩ := backlog_delays_nobody halike deaf
    obtain ⟨hspan, hfault⟩ := hstalled hvalid htold hdeaf
    rw [hspan, htimeout] at htime hutime
    rw [htimeout] at hfault
    exact ⟨hsame rfl, hfault, htime, hutime⟩

end Rollcall.Timeline
