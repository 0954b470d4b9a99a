import Rollcall.Membership.Call

/-!
# The steps of a call

All that a call can do, once and for all: each way in which a step moves it, with what the step
writes and what it asks, `Call.Steps`, and each way in which a signal moves it, `Call.Hears`.

* `Call.steps_of_step`, `Call.hears_of_react` — there are no other ways;
* `Goal.rests_afterRegistration`, `Goal.rests_afterBeat` — a call whose registration or heartbeat
  has come to an end is over, or waits for the next heartbeat.
-/

namespace Rollcall

/-- A call that is over, or a heartbeat loop between two heartbeats. -/
def Stage.Rests (stage : Stage) : Prop := stage = .awaitingTick ∨ ∃ outcome, stage = .ended outcome

namespace Goal

theorem rests_resume (trouble? : Option MemberError) : (resume trouble?).Rests := by
  unfold resume
  split
  · exact Or.inr ⟨_, rfl⟩
  · exact Or.inl rfl

theorem rests_afterRegistration (goal : Goal) (result : Except MemberError InstanceId) :
    (goal.afterRegistration result).Rests := by
  unfold afterRegistration
  split
  · exact rests_resume _
  · exact rests_resume _
  · exact Or.inr ⟨_, rfl⟩
  · exact Or.inr ⟨_, rfl⟩
  · exact Or.inr ⟨_, rfl⟩

theorem rests_afterBeat (goal : Goal) (trouble? : Option MemberError) :
    (goal.afterBeat trouble?).Rests := by
  unfold afterBeat
  split
  · exact rests_resume _
  · exact Or.inr ⟨_, rfl⟩
  · exact Or.inr ⟨_, rfl⟩

end Goal

namespace Call

/-- The ways in which a step moves a call: from a stage, with the member as the step leaves it, to
the next stage, and with what is asked. -/
inductive Steps (cancelled : Bool) (m : Member) (goal : Goal) :
    Stage → Member → Stage → Option Inquiry → Prop
  | refuse (e : InputError) (h : m.registration.validate = .error e) :
    Steps cancelled m goal .entering m (goal.afterRegistration (.error (.input e))) none
  | tooLate (hvalid : m.registration.validate = .ok ()) (h : m.standing = .terminated) :
    Steps cancelled m goal .entering m (goal.afterRegistration (.error .cancelled)) none
  | begin (hvalid : m.registration.validate = .ok ()) (h : m.standing ≠ .terminated) :
    Steps cancelled m goal .entering { m with standing := .registering } .asking none
  | ask : Steps cancelled m goal .asking m .awaitingAnswer (some (.register m.registration))
  | heed {stage : Stage} (hcancelled : cancelled = true)
    (h : stage = .asking ∨ stage = .awaitingAnswer ∨ stage = .pausing) :
    Steps cancelled m goal stage m .abandoning none
  | discard (id : InstanceId) (h : m.standing = .terminated) :
    Steps cancelled m goal (.acknowledged id) m (goal.afterRegistration (.error .cancelled)) none
  | adopt (id : InstanceId) (h : m.standing ≠ .terminated) :
    Steps cancelled m goal (.acknowledged id) { m with standing := .registered id }
      (goal.afterRegistration (.ok id)) none
  | abandon (h : m.standing = .registering) :
    Steps cancelled m goal .abandoning { m with standing := .unregistered }
      (goal.afterRegistration (.error .cancelled)) none
  | abandonLate (h : m.standing ≠ .registering) :
    Steps cancelled m goal .abandoning m (goal.afterRegistration (.error .cancelled)) none
  | skip (h : m.standing.id? = none) :
    Steps cancelled m goal .reading m (goal.afterBeat none) none
  | read (id : InstanceId) (h : m.standing = .registered id) :
    Steps cancelled m goal .reading m (.beating id) none
  | beat (id : InstanceId) :
    Steps cancelled m goal (.beating id) m .awaitingBeat (some (.heartbeat id))
  | forget :
    Steps cancelled m goal .forgetting { m with cache := m.cache.clear } .entering none
  | stopWaiting (hcancelled : cancelled = true) :
    Steps cancelled m goal .awaitingTick m (.ended .stopped) none
  | stop (h : m.standing = .terminated) :
    Steps cancelled m goal .checking m (.ended .stopped) none
  | goOn (h : m.standing ≠ .terminated) : Steps cancelled m goal .checking m .reading none
  | leaveAgain (h : m.standing = .terminated) :
    Steps cancelled m goal .leaving m (.ended .done) none
  | leave (h : m.standing ≠ .terminated) :
    Steps cancelled m goal .leaving { m with standing := .terminated } .parting none
  | part : Steps cancelled m goal .parting m .awaitingFarewell
      (some (.deregister m.registration.role m.registration.url))

variable {c : Call} {cancelled : Bool} {m : Member} {move : Move}

theorem steps_enter (cancelled : Bool) (c : Call) (m : Member) : Steps cancelled m c.goal .entering
    (c.enter m).member (c.enter m).call.stage (c.enter m).inquiry? := by
  unfold enter
  split
  · next e hinvalid => exact .refuse e hinvalid
  · next hvalid =>
    split
    · next hstanding => exact .tooLate hvalid hstanding
    · next hstanding => exact .begin hvalid hstanding

theorem steps_adopt (cancelled : Bool) (c : Call) (m : Member) (id : InstanceId) :
    Steps cancelled m c.goal (.acknowledged id) (c.adopt m id).member (c.adopt m id).call.stage
      (c.adopt m id).inquiry? := by
  unfold adopt
  split
  · next hstanding => exact .discard id hstanding
  · next hstanding => exact .adopt id hstanding

theorem steps_abandon (cancelled : Bool) (c : Call) (m : Member) :
    Steps cancelled m c.goal .abandoning (c.abandon m).member (c.abandon m).call.stage
      (c.abandon m).inquiry? := by
  unfold abandon
  dsimp only [goTo]
  split
  · next hstanding => exact .abandon hstanding
  · next hstanding => exact .abandonLate hstanding

theorem goal_enter (c : Call) (m : Member) : (c.enter m).call.goal = c.goal := by
  unfold enter
  split
  · rfl
  · split
    · rfl
    · rfl

theorem goal_adopt (c : Call) (m : Member) (id : InstanceId) : (c.adopt m id).call.goal = c.goal := by
  unfold adopt
  split
  · rfl
  · rfl

theorem steps_of_step (h : c.step cancelled m = some move) : move.call.goal = c.goal ∧
    Steps cancelled m c.goal c.stage move.member move.call.stage move.inquiry? := by
  obtain ⟨goal, stage⟩ := c
  cases stage with
  | entering =>
      obtain rfl := Option.some.inj h
      exact ⟨goal_enter _ m, steps_enter cancelled ⟨goal, .entering⟩ m⟩
  | acknowledged id =>
      obtain rfl := Option.some.inj h
      exact ⟨goal_adopt _ m id, steps_adopt cancelled ⟨goal, .acknowledged id⟩ m id⟩
  | abandoning =>
      obtain rfl := Option.some.inj h
      exact ⟨rfl, steps_abandon cancelled ⟨goal, .abandoning⟩ m⟩
  | asking =>
      simp only [step] at h
      split at h
      · next hcancelled =>
        obtain rfl := Option.some.inj h
        exact ⟨rfl, .heed hcancelled (Or.inl rfl)⟩
      · obtain rfl := Option.some.inj h
        exact ⟨rfl, .ask⟩
  | awaitingAnswer =>
      obtain ⟨hcancelled, h⟩ := Option.ite_none_right_eq_some.mp h
      obtain rfl := Option.some.inj h
      exact ⟨rfl, .heed hcancelled (Or.inr (Or.inl rfl))⟩
  | pausing =>
      obtain ⟨hcancelled, h⟩ := Option.ite_none_right_eq_some.mp h
      obtain rfl := Option.some.inj h
      exact ⟨rfl, .heed hcancelled (Or.inr (Or.inr rfl))⟩
  | reading =>
      -- Only a member that is registered has an identifier to send.
      simp only [step] at h
      split at h
      · next hid =>
        obtain rfl := Option.some.inj h
        exact ⟨rfl, .skip hid⟩
      · next id hid =>
        obtain rfl := Option.some.inj h
        refine ⟨rfl, .read id ?_⟩
        unfold Standing.id? at hid
        split at hid
        · next hstanding =>
          obtain rfl := Option.some.inj hid
          exact hstanding
        · cases hid
  | beating id =>
      obtain rfl := Option.some.inj h
      exact ⟨rfl, .beat id⟩
  | forgetting =>
      obtain rfl := Option.some.inj h
      exact ⟨rfl, .forget⟩
  | awaitingTick =>
      obtain ⟨hcancelled, h⟩ := Option.ite_none_right_eq_some.mp h
      obtain rfl := Option.some.inj h
      exact ⟨rfl, .stopWaiting hcancelled⟩
  | checking =>
      obtain rfl := Option.some.inj h
      refine ⟨rfl, ?_⟩
      dsimp only [goTo]
      split
      · next hstanding => exact .stop hstanding
      · next hstanding => exact .goOn hstanding
  | leaving =>
      simp only [step] at h
      split at h
      · next hstanding =>
        obtain rfl := Option.some.inj h
        exact ⟨rfl, .leaveAgain hstanding⟩
      · next hstanding =>
        obtain rfl := Option.some.inj h
        exact ⟨rfl, .leave hstanding⟩
  | parting =>
      obtain rfl := Option.some.inj h
      exact ⟨rfl, .part⟩
  | awaitingBeat | awaitingFarewell | ended => cases h

/-- The ways in which a signal moves a call that waits for it, one constructor for each. Any other
signal is lost. -/
inductive Hears (now : Instant) (period : Duration) : Call → Signal → Call → Prop
  | acknowledged (goal : Goal) (id : InstanceId) :
    Hears now period ⟨goal, .awaitingAnswer⟩ (.answered (.ok id)) ⟨goal, .acknowledged id⟩
  | failed (goal : Goal) (e : MemberError) :
    Hears now period ⟨goal, .awaitingAnswer⟩ (.answered (.error e)) ⟨goal, .pausing⟩
  | paused (goal : Goal) : Hears now period ⟨goal, .pausing⟩ .paused ⟨goal, .asking⟩
  | alive (goal : Goal) (id : InstanceId) :
    Hears now period ⟨goal, .awaitingBeat⟩ (.answered (.ok id)) ⟨goal, goal.afterBeat none⟩
  | forgotten (goal : Goal) :
    Hears now period ⟨goal, .awaitingBeat⟩ (.answered (.error .unauthorized)) ⟨goal, .forgetting⟩
  | troubled (goal : Goal) (e : MemberError) (h : e ≠ .unauthorized) :
    Hears now period ⟨goal, .awaitingBeat⟩ (.answered (.error e)) ⟨goal, goal.afterBeat (some e)⟩
  | parted (goal : Goal) (answer : Except MemberError InstanceId) :
    Hears now period ⟨goal, .awaitingFarewell⟩ (.answered answer) ⟨goal, .ended .done⟩
  | ticked (due : Instant) : Hears now period ⟨.keepAlive due, .awaitingTick⟩ .ticked
      ⟨.keepAlive (nextDue due now period), .checking⟩

theorem hears_of_react {now : Instant} {period : Duration} {signal : Signal} {call : Call}
    (h : c.react now period signal = some call) : Hears now period c signal call := by
  obtain ⟨goal, stage⟩ := c
  unfold react at h
  split at h
  · next id hstage =>
    obtain rfl : stage = .awaitingAnswer := hstage
    obtain rfl := Option.some.inj h
    exact .acknowledged goal id
  · next e hstage =>
    obtain rfl : stage = .awaitingAnswer := hstage
    obtain rfl := Option.some.inj h
    exact .failed goal e
  · next hstage =>
    obtain rfl : stage = .pausing := hstage
    obtain rfl := Option.some.inj h
    exact .paused goal
  · next id hstage =>
    obtain rfl : stage = .awaitingBeat := hstage
    obtain rfl := Option.some.inj h
    exact .alive goal id
  · next e hstage =>
    obtain rfl : stage = .awaitingBeat := hstage
    obtain rfl := Option.some.inj h
    cases e with
    -- Of all failures of a heartbeat this one alone says that the registry has forgotten it.
    | unauthorized => exact .forgotten goal
    | _ => exact .troubled goal _ nofun
  · next answer hstage =>
    obtain rfl : stage = .awaitingFarewell := hstage
    obtain rfl := Option.some.inj h
    exact .parted goal answer
  · next hstage =>
    obtain rfl : stage = .awaitingTick := hstage
    split at h
    · next due hgoal =>
      obtain rfl : goal = .keepAlive due := hgoal
      obtain rfl := Option.some.inj h
      exact .ticked due
    · cases h
  · cases h

end Call
end Rollcall
