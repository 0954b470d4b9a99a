import Rollcall.Delivery.FanOut
import Rollcall.Directory
import Rollcall.HeartbeatKind

/-!
# The registry

The directory, the signs of life and the fan-out of news, wired together. Each operation is made of
atomic steps, which are the definitions of the first section: several callers may interleave them
in any order. Time is an argument throughout, and what a step has to send is queued, never awaited;
the one exception is the catch-up of a registrant, which the caller delivers and whose outcome is
the outcome of the registration.

    enroll, record, announce     the steps of a registration
    remove, evict, forget        the steps of a departure
    register, deregister, heartbeat, sweep
-/

namespace Rollcall

/-- How a registry is set up. The settings do not change while it runs. -/
structure RegistrySettings where
  /-- How long an instance may be silent. -/
  timeout : Duration
  /-- How often the silent ones are looked for. -/
  sweepInterval : Duration
  /-- How long a delivery may take. -/
  deliveryTimeout : Duration
  /-- How many deliveries may be under way at once. -/
  maxInFlight : Nat
  deriving Repr, DecidableEq

/-- The state of a registry. It is changed by the atomic steps below and by nothing else, so
whatever they keep holds of every run, however the calls of several callers are interleaved. -/
structure Registry where
  settings : RegistrySettings
  supply : IdSupply
  /-- How many registrations have been admitted so far. -/
  admissions : Nat := 0
  directory : Directory := {}
  ledger : Ledger := {}
  lane : FanOut

/-- A registration that has been admitted. Its outcome is not known yet if there is a catch-up: only
when that has arrived has the registration succeeded. The entry is there in any case. -/
structure Enrolment where
  id : InstanceId
  /-- The registrant's catch-up, if there is anything to tell. -/
  catchUp? : Option Delivery
  deriving Repr, DecidableEq

namespace Registry

/-- A registry to which nobody has come yet. -/
def empty (settings : RegistrySettings) (supply : IdSupply) : Registry where
  settings := settings
  supply := supply
  lane := .ofLimit settings.maxInFlight

/-! ### Atomic steps -/

/-- Queues the news for all recipients it concerns. Nobody waits for that, and nothing is reported
of the outcome. -/
def issue (r : Registry) (news : Patch) (recipients : List Registration) : Registry :=
  { r with lane := r.lane.queue (deliveriesOf news recipients) }

/-- Admits a registration under the identifier that the supply gives next. The supply is used up by
one even if the instance is there already. -/
def enroll (r : Registry) (reg : Registration) : Registry × Admission :=
  let (directory, admission) := r.directory.enroll (r.supply.mint (r.admissions + 1)) reg
  ({ r with admissions := r.admissions + 1, directory := directory }, admission)

def record (r : Registry) (id : InstanceId) (now : Instant) : Registry :=
  { r with ledger := r.ledger.record id now }

/-- Drops what is known of an instance's life. -/
def forget (r : Registry) (id : InstanceId) : Registry := { r with ledger := r.ledger.forget id }

/-- Tells everyone else about an admitted instance, and finds what the registrant itself has to be
told. -/
def announce (r : Registry) (a : Admission) : Registry × Option Delivery :=
  let catchUp := r.directory.catchUp a.registration
  let told := r.issue (.ofAdded [a.entry]) (r.directory.others a.entry)
  (told, if catchUp.isEmpty then none else some ⟨a.registration.updateUrl, catchUp⟩)

/-- Takes out an entry and tells everyone else, in one step: nobody can come or go between the
removal and the moment at which the recipients are found. -/
def depart (r : Registry) (taken? : Option (Registration × Directory)) :
    Option (Registry × Registration) :=
  taken?.map fun (gone, directory) =>
    ({ r.issue (.ofRemoved [gone]) (r.directory.others gone) with directory := directory }, gone)

/-- Removes the entry of a role and an address, whatever its identifier. A heartbeat of it may still
be on its way; the identifier is forgotten in a step of its own. -/
def remove (r : Registry) (role : Role) (url : String) :
    Except RegistryError (Registry × Registration) :=
  match r.depart (r.directory.remove? role url) with
  | some done => .ok done
  | none => .error (.notFound role url)

/-- Removes an entry if the directory still holds that very one. Whoever has left and come back has
another identifier, and is left alone. -/
def evict (r : Registry) (stale : Registration) :
    Except RegistryError (Registry × Registration) :=
  match r.depart (r.directory.evict? stale) with
  | some done => .ok done
  | none => .error (.notFound stale.role stale.url)

/-- Accepts a heartbeat of a registered instance and notes it as of now. An identifier that belongs
to nobody is refused, and nothing is noted of it. -/
def accept (r : Registry) (id : InstanceId) (now : Instant) : Except RegistryError Registry :=
  if r.directory.isRegistered id then .ok (r.record id now) else .error (.unregistered id)

/-! ### Operations -/

/-- Admits a registration and announces it, with no regard to its contents and without a sign of
life. -/
def add (r : Registry) (reg : Registration) : Registry × Enrolment :=
  let (r, admission) := r.enroll reg
  let (r, catchUp?) := r.announce admission
  (r, ⟨admission.id, catchUp?⟩)

/-- Registers an instance that is complete. It counts as heard of from now on, before anybody is
told of it, so that it lives until its first heartbeat is due. -/
def register (r : Registry) (reg : Registration) (now : Instant) :
    Except RegistryError (Registry × Enrolment) :=
  match reg.validate with
  | .error e => .error (.ofInput e)
  | .ok () =>
    let (r, admission) := r.enroll reg
    let (r, catchUp?) := (r.record admission.id now).announce admission
    .ok (r, ⟨admission.id, catchUp?⟩)

def deregister (r : Registry) (role : Role) (url : String) :
    Except RegistryError (Registry × Registration) :=
  (r.remove role url).map fun (r, gone) => (r.forget gone.id, gone)

def heartbeat (r : Registry) (_ : HeartbeatKind) (id : InstanceId) (now : Instant) :
    Except RegistryError Registry :=
  r.accept id now

def query (r : Registry) (role : Role) : List Registration := r.directory.ofRole role

/-! ### The sweep

A sweep copies the directory and the ledger, reads the clock, and then works through the copies. -/

/-- Whether an entry is overdue by a copy of the ledger, which may be older than the entry is. -/
def overdue (r : Registry) (heard : Ledger) (now : Instant) (entry : Registration) : Bool :=
  isStale r.settings.timeout (heard.lastSeen? entry.id) now

/-- Judges one entry of the copied directory. If it is overdue by the copied ledger, and still there
under the same identifier, it is evicted and its record forgotten. Whoever has been evicted is
collected, last first. -/
def judge (heard : Ledger) (now : Instant) :
    Registry × List Registration → Registration → Registry × List Registration
  | (r, evicted), entry =>
    if r.overdue heard now entry then
      match r.evict entry with
      | .ok (r, gone) => (r.forget gone.id, gone :: evicted)
      | .error _ => (r, evicted)
    else (r, evicted)

/-- Drops one record of the copied ledger if it is overdue and belongs to nobody. Whether it does is
looked up in the directory as it is by then. -/
def prune (now : Instant) (r : Registry) (record : InstanceId × Instant) : Registry :=
  if isStale r.settings.timeout (some record.2) now && !r.directory.isRegistered record.1 then
    r.forget record.1
  else r

/-- Evicts every instance that is overdue and returns them in the order of the directory; then drops
the overdue records that belong to nobody. Both go by the copies made at the beginning. -/
def sweep (r : Registry) (now : Instant) : Registry × List Registration :=
  let heard := r.ledger
  let (swept, evicted) := r.directory.entries.foldl (judge heard now) (r, [])
  (heard.records.foldl (prune now) swept, evicted.reverse)

end Registry

/-- The outcome of a registration, given what became of its catch-up. Without a catch-up there is
nothing that could fail. -/
def Enrolment.conclude (e : Enrolment) (fault? : Option DeliveryFault) :
    Except RegistryError InstanceId :=
  match e.catchUp?, fault? with
  | some catchUp, some fault => .error (.deliveryFailed catchUp.target fault)
  | _, _ => .ok e.id

/-- Registers an instance over a transport that tells at once what becomes of a delivery. An
incomplete registration changes nothing and is refused before anybody is asked. -/
def Registry.registerOver (post : Delivery → Option DeliveryFault) (r : Registry)
    (reg : Registration) (now : Instant) : Registry × Except RegistryError InstanceId :=
  match r.register reg now with
  | .error e => (r, .error e)
  | .ok (r, e) => (r, e.conclude (e.catchUp?.bind post))

end Rollcall
