import Rollcall.Registry.Api

/-!
# A registry in time

A registry together with what surrounds it: the transport, a second fan-out over the same transport
with permits of its own, and two clocks. The one that deliveries and the sweep loop go by moves only
when everything waits for it. The other one tells the ages of heartbeats; it never stands quite
still, so that two signs of life are never simultaneous.
-/

namespace Rollcall

/-- A registry and its surroundings at one moment. Beside the fan-outs of the registry there are
others over the same transport, with a stock of permits of their own. -/
structure Timeline where
  key : AccessKey
  registry : Registry
  /-- The second fan-out. -/
  side : FanOut
  transport : Recorder := {}
  /-- The clock of deliveries and of the sweep loop. -/
  time : Instant := ⟨0⟩
  /-- The clock of heartbeats. -/
  clock : Instant := ⟨0⟩

namespace Timeline

/-- A registry at the start of its time: nobody has come, nothing is under way, both clocks are at
nothing. -/
def start (settings : RegistrySettings) (key : AccessKey) (supply : IdSupply) : Timeline where
  key := key
  registry := .empty settings supply
  side := .ofLimit settings.maxInFlight

def deliveryTimeout (t : Timeline) : Duration := t.registry.settings.deliveryTimeout

/-- Moves the clock of heartbeats on by the least amount. -/
def tick (t : Timeline) : Timeline := { t with clock := ⟨t.clock.nanos + 1⟩ }

/-- Runs everything that can run without time moving, at the registry first and then beside it. Both
use the one transport. -/
def settle (t : Timeline) : Timeline :=
  let (lane, transport) := t.registry.lane.settle t.time t.deliveryTimeout t.transport
  let (side, transport) := t.side.settle t.time t.deliveryTimeout transport
  { t with registry := { t.registry with lane := lane }, side := side, transport := transport }

def nextDeadline? (t : Timeline) : Option Instant :=
  match t.registry.lane.nextDeadline?, t.side.nextDeadline? with
  | some a, some b => some (if a.nanos ≤ b.nanos then a else b)
  | some a, none => some a
  | none, b? => b?

/-- Ends the stalled deliveries whose time is up at an instant, at both desks, and runs what their
permits make ready. -/
def expire (t : Timeline) (now : Instant) : Timeline :=
  settle { t with
    time := now
    registry := { t.registry with lane := t.registry.lane.expire now }
    side := t.side.expire now }

/-- Lets deliveries end until an instant, at most so many times: each round jumps to the next
deadline. -/
def passTo (target : Instant) : Nat → Timeline → Timeline
  | 0, t => t
  | n + 1, t =>
    match t.nextDeadline? with
    | none => t
    | some next => if next.nanos ≤ target.nanos then passTo target n (t.expire next) else t

/-- Lets time pass up to an instant. As many rounds as deliveries are outstanding are enough, since
each of them ends one. -/
def advanceTo (t : Timeline) (target : Instant) : Timeline :=
  let t := t.settle
  { passTo target (t.registry.lane.outstanding + t.side.outstanding) t with time := target }

def advance (t : Timeline) (span : Duration) : Timeline :=
  t.advanceTo ⟨t.time.nanos + span.nanos⟩

/-- Makes a delivery that takes no permit, and waits for its outcome. If it stalls, time passes
until the timeout, and everything else goes on meanwhile. -/
def deliver (t : Timeline) (d : Delivery) : Timeline × Option DeliveryFault :=
  let (transport, attempt) := t.transport.attempt d
  let t := { t with transport := transport }
  match attempt with
  | .arrived => (t, none)
  | .refused => (t, some .refused)
  | .stalled => (t.advance t.deliveryTimeout, some (.timedOut t.deliveryTimeout))

/-- Delivers the catch-up of an admitted registration, if there is one. -/
def catchUp (t : Timeline) (e : Enrolment) : Timeline × Option DeliveryFault :=
  match e.catchUp? with
  | none => (t, none)
  | some d => t.deliver d

/-! ### Operations -/

/-- Registers an instance and waits for its catch-up. Whatever the outcome of that, the entry stays
and the news of it is on its way. -/
def register (t : Timeline) (reg : Registration) : Timeline × Except RegistryError InstanceId :=
  match t.registry.register reg t.clock with
  | .error e => (t, .error e)
  | .ok (registry, e) =>
    let (t, fault?) := { t with registry := registry }.catchUp e
    (t, e.conclude fault?)

/-- Admits and announces an instance, and waits for its catch-up. -/
def add (t : Timeline) (reg : Registration) : Timeline × Except RegistryError InstanceId :=
  let (registry, e) := t.registry.add reg
  let (t, fault?) := { t with registry := registry }.catchUp e
  (t, e.conclude fault?)

/-- Announces an admission and waits for the catch-up. -/
def announce (t : Timeline) (a : Admission) : Timeline × Except RegistryError Unit :=
  let (registry, catchUp?) := t.registry.announce a
  let e : Enrolment := ⟨a.id, catchUp?⟩
  let (t, fault?) := { t with registry := registry }.catchUp e
  (t, (e.conclude fault?).map fun _ => ())

/-- Serves a request and waits for its reply. Only a registration makes a request wait. -/
def serve (t : Timeline) (request : Http.Request) : Timeline × Http.Reply :=
  match Registry.Api.serve t.key t.registry t.clock request with
  | (registry, .answered reply) => ({ t with registry := registry }, reply)
  | (registry, .enrolling e) =>
    let (t, fault?) := { t with registry := registry }.catchUp e
    (t, Registry.Api.conclude e fault?)

/-- Sweeps once. The clock moves on first, so that some time has always passed since the last sign
of life. -/
def sweep (t : Timeline) : Timeline × List Registration :=
  let t := t.tick
  let (registry, evicted) := t.registry.sweep t.clock
  ({ t with registry := registry }, evicted)

/-- Runs the sweep loop until `stop`, in so many rounds at most; the next sweep is due at `due`. A
sweep takes no time, so the rhythm is never lost. -/
def sweepUntil (stop : Instant) (interval : Duration) : Nat → Instant → Timeline → Timeline
  | 0, _, t => t
  | n + 1, due, t =>
    if due.nanos < stop.nanos then
      let t := ((t.advanceTo due).sweep.1).settle
      sweepUntil stop interval n ⟨due.nanos + interval.nanos⟩ t
    else t

/-- Runs the sweep loop for a while, with the first sweep one interval from now. As many rounds are
enough as intervals fit into the while. -/
def runSweeps (t : Timeline) (span : Duration) : Timeline :=
  let interval := t.registry.settings.sweepInterval
  let stop : Instant := ⟨t.time.nanos + span.nanos⟩
  let due : Instant := ⟨t.time.nanos + interval.nanos⟩
  let sweeps := span.nanos / interval.nanos
  (sweepUntil stop interval sweeps due t.settle).advanceTo stop

/-- Lets time pass on the clock of heartbeats only. -/
def wait (t : Timeline) (span : Duration) : Timeline :=
  { t with clock := ⟨t.clock.nanos + span.nanos⟩ }

/-- The end of an operation: everything that can run has run, and the clock of heartbeats has moved,
so that no two operations share an instant. -/
def rest (t : Timeline) : Timeline := t.settle.tick

end Timeline
end Rollcall
