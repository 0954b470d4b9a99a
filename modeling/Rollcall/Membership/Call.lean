import Rollcall.Liveness
import Rollcall.Membership.Member

/-!
# Calls in progress

Several calls may be at work on one member at once: registering, a single heartbeat, the heartbeat
loop, deregistering. A call moves in steps, each of which touches the member at most once, and
between its steps any other call may move. A call that has asked the registry, or that lets time
pass, stands still until it hears a signal; some of these waits end as well when the call is
cancelled.

    step        moves a call that need not wait
    react       moves a waiting call that hears a signal
-/

namespace Rollcall

/-- What a member asks of the registry. Each inquiry is one request, and gets one answer or none. -/
inductive Inquiry where
  | register (reg : Registration)
  | heartbeat (id : InstanceId)
  | deregister (role : Role) (url : String)
  deriving Repr, DecidableEq

/-- How a call ends. A heartbeat loop has no outcome of its own but that it has stopped. -/
inductive Outcome where
  | registered (id : InstanceId)
  | done
  /-- The heartbeat loop has come to its end. -/
  | stopped
  | failed (e : MemberError)
  deriving Repr, DecidableEq

/-- What a call is for. A registration that a heartbeat has made necessary is part of the call that
sent the heartbeat, and ends as that call does. -/
inductive Goal where
  | register
  | heartbeat
  /-- Heartbeats in a rhythm, the next one at the instant `due`. -/
  | keepAlive (due : Instant)
  | deregister
  deriving Repr, DecidableEq

/-- Where a call stands. Between any two stages other calls may move, so a stage carries what the
call has read of the member, such as the identifier that it is about to use. -/
inductive Stage where
  /-- A registration is about to begin. -/
  | entering
  /-- A registration is about to ask the registry. -/
  | asking
  | awaitingAnswer
  /-- The registry has acknowledged the registration. -/
  | acknowledged (id : InstanceId)
  /-- A registration waits to be tried again. -/
  | pausing
  /-- A registration has been cancelled. -/
  | abandoning
  /-- A heartbeat is about to look for its identifier. -/
  | reading
  | beating (id : InstanceId)
  | awaitingBeat
  /-- The registry has lost track of the instance. -/
  | forgetting
  | awaitingTick
  /-- The heartbeat loop looks whether it is still needed. -/
  | checking
  /-- A deregistration is about to begin. -/
  | leaving
  | parting
  | awaitingFarewell
  | ended (outcome : Outcome)
  deriving Repr, DecidableEq

/-- A call in progress. What it reads and writes of the member it does in its steps; nothing else of
it is remembered between them than its stage. -/
structure Call where
  goal : Goal
  stage : Stage
  deriving Repr, DecidableEq

/-- What a waiting call can hear. A signal that it does not wait for is lost on it. -/
inductive Signal where
  /-- The registry's answer; its identifier matters to registrations only. -/
  | answered (answer : Except MemberError InstanceId)
  /-- The pause between two attempts is over. -/
  | paused
  /-- A heartbeat is due. -/
  | ticked

/-- What one step of a call does: to the member, to itself, and what it asks of the registry, if
anything. -/
structure Move where
  member : Member
  call : Call
  /-- What is asked of the registry. -/
  inquiry? : Option Inquiry := none

namespace Goal

/-- A heartbeat loop takes up its rhythm again; a loop that is cancelled stops, and any other
trouble is left to the next heartbeat. -/
def resume (trouble? : Option MemberError) : Stage :=
  if trouble? = some .cancelled then .ended .stopped else .awaitingTick

/-- How a call goes on when its registration has come to an end. A heartbeat loop goes on unless it
has been cancelled; any other call is over. -/
def afterRegistration (goal : Goal) (result : Except MemberError InstanceId) : Stage :=
  match goal, result with
  | .keepAlive _, .ok _ => resume none
  | .keepAlive _, .error e => resume (some e)
  | .register, .ok id => .ended (.registered id)
  | _, .ok _ => .ended .done
  | _, .error e => .ended (.failed e)

/-- How a call goes on when its heartbeat has come to an end and need not be repeated. -/
def afterBeat (goal : Goal) (trouble? : Option MemberError) : Stage :=
  match goal, trouble? with
  | .keepAlive _, trouble? => resume trouble?
  | _, none => .ended .done
  | _, some e => .ended (.failed e)

end Goal

namespace Call

def register : Call := ⟨.register, .entering⟩

def heartbeat : Call := ⟨.heartbeat, .reading⟩

/-- The heartbeat loop, whose first beat is due one period from `now`. Being registered is not asked
for: a beat without an identifier is skipped. -/
def keepAlive (now : Instant) (period : Duration) : Call :=
  ⟨.keepAlive ⟨now.nanos + period.nanos⟩, .awaitingTick⟩

def deregister : Call := ⟨.deregister, .leaving⟩

def outcome? (c : Call) : Option Outcome :=
  match c.stage with
  | .ended outcome => some outcome
  | _ => none

/-- Goes on at another stage and leaves the member alone. -/
def goTo (c : Call) (m : Member) (stage : Stage) : Move := ⟨m, { c with stage := stage }, none⟩

/-- Begins a registration, unless the member has left for good. What is incomplete is refused before
anything is sent. -/
def enter (c : Call) (m : Member) : Move :=
  match m.registration.validate with
  | .error e => c.goTo m (c.goal.afterRegistration (.error (.input e)))
  | .ok () =>
    if m.standing = .terminated then c.goTo m (c.goal.afterRegistration (.error .cancelled))
    else c.goTo { m with standing := .registering } .asking

/-- Takes up the identifier that the registry has issued. If the member has left while the answer
was on its way it stays as it is, and the entry is left to the registry. -/
def adopt (c : Call) (m : Member) (id : InstanceId) : Move :=
  if m.standing = .terminated then c.goTo m (c.goal.afterRegistration (.error .cancelled))
  else c.goTo { m with standing := .registered id } (c.goal.afterRegistration (.ok id))

/-- Gives a registration up. The member is unregistered from then on, unless another call has moved
it meanwhile. -/
def abandon (c : Call) (m : Member) : Move :=
  let standing := if m.standing = .registering then .unregistered else m.standing
  c.goTo { m with standing := standing } (c.goal.afterRegistration (.error .cancelled))

/-- Moves a call by one step, if it need not wait. Whether it has been cancelled is looked at where
it waits and before it asks, and nowhere else: what has been sent is waited for to its end by
heartbeats and deregistrations. -/
def step (cancelled : Bool) (m : Member) (c : Call) : Option Move :=
  match c.stage with
  | .entering => some (c.enter m)
  | .asking =>
    if cancelled then some (c.goTo m .abandoning)
    else some { c.goTo m .awaitingAnswer with inquiry? := some (.register m.registration) }
  | .acknowledged id => some (c.adopt m id)
  | .awaitingAnswer | .pausing => if cancelled then some (c.goTo m .abandoning) else none
  | .abandoning => some (c.abandon m)
  | .reading =>
    match m.standing.id? with
    | none => some (c.goTo m (c.goal.afterBeat none))
    | some id => some (c.goTo m (.beating id))
  | .beating id => some { c.goTo m .awaitingBeat with inquiry? := some (.heartbeat id) }
  | .forgetting => some (c.goTo { m with cache := m.cache.clear } .entering)
  | .awaitingTick => if cancelled then some (c.goTo m (.ended .stopped)) else none
  | .checking =>
    some (c.goTo m (if m.standing = .terminated then .ended .stopped else .reading))
  | .leaving =>
    -- Whoever leaves a second time does not say so again.
    if m.standing = .terminated then some (c.goTo m (.ended .done))
    else some (c.goTo { m with standing := .terminated } .parting)
  | .parting =>
    some { c.goTo m .awaitingFarewell with
      inquiry? := some (.deregister m.registration.role m.registration.url) }
  | .awaitingBeat | .awaitingFarewell | .ended _ => none

/-- How late a heartbeat may be taken and still keep the rhythm. -/
def tolerance : Duration := .ofMillis 5

/-- The instant of the next heartbeat, when one that was due is taken `now`: one that is taken too
late starts the rhythm anew. -/
def nextDue (due now : Instant) (period : Duration) : Instant :=
  if due.nanos + tolerance.nanos < now.nanos then ⟨now.nanos + period.nanos⟩
  else ⟨due.nanos + period.nanos⟩

/-- Moves a call that hears a signal it waits for. A registration that has failed pauses, whatever
the failure was; a heartbeat begins a new registration if the registry has lost track of the
member. -/
def react (now : Instant) (period : Duration) (c : Call) (signal : Signal) : Option Call :=
  match c.stage, signal with
  | .awaitingAnswer, .answered (.ok id) => some { c with stage := .acknowledged id }
  | .awaitingAnswer, .answered (.error _) => some { c with stage := .pausing }
  | .pausing, .paused => some { c with stage := .asking }
  | .awaitingBeat, .answered (.ok _) => some { c with stage := c.goal.afterBeat none }
  | .awaitingBeat, .answered (.error e) =>
    some { c with stage := if e.isUnauthorized then .forgetting else c.goal.afterBeat (some e) }
  | .awaitingFarewell, .answered _ => some { c with stage := .ended .done }
  | .awaitingTick, .ticked =>
    match c.goal with
    | .keepAlive due => some ⟨.keepAlive (nextDue due now period), .checking⟩
    | _ => none
  | _, _ => none

end Call
end Rollcall
