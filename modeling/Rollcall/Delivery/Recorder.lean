import Rollcall.Patch

/-!
# A recording transport

Deliveries in memory: every patch that arrives is recorded, and single targets can be made to fail
or to stall. A stalled delivery never ends on its own; whoever started it gives up in the end.

    attempt rec d    starts a delivery: the transport afterwards, and what became of it
-/

namespace Rollcall

structure Delivery where
  target : String
  patch : Patch
  deriving Repr, DecidableEq

/-- The deliveries that a patch makes for its recipients, in their order. Each recipient gets its
own part of the patch at its own address, and whoever the patch does not concern gets nothing, not
even an empty part. -/
def deliveriesOf (full : Patch) (recipients : List Registration) : List Delivery :=
  recipients.filterMap fun recipient =>
    let part := full.scopedTo recipient
    if part.isEmpty then none else some ⟨recipient.updateUrl, part⟩

/-- What becomes of a delivery when it starts. A stalled one is not over: it keeps its permit, if it
has one, until whoever has started it gives up. -/
inductive Attempt where
  | arrived
  | refused
  | stalled
  deriving Repr, DecidableEq

/-- A transport in memory. It counts the deliveries that start, records those that arrive, and is
told which targets fail and which stall; one that is told both stalls. -/
structure Recorder where
  attempts : Nat := 0
  /-- What has arrived, in order of arrival. -/
  arrived : List Delivery := []
  failing : List String := []
  stalling : List String := []
  deriving Repr

namespace Recorder

/-- Makes deliveries to a target fail at once. -/
def fail (rec : Recorder) (target : String) : Recorder :=
  { rec with failing := target :: rec.failing }

/-- Makes deliveries to a target never end. -/
def stall (rec : Recorder) (target : String) : Recorder :=
  { rec with stalling := target :: rec.stalling }

/-- What a delivery to a target comes to, by what the transport has been told of the target so
far. -/
def fate (rec : Recorder) (target : String) : Attempt :=
  if rec.stalling.contains target then .stalled
  else if rec.failing.contains target then .refused
  else .arrived

def attempt (rec : Recorder) (d : Delivery) : Recorder × Attempt :=
  let started := { rec with attempts := rec.attempts + 1 }
  match rec.fate d.target with
  | .arrived => ({ started with arrived := rec.arrived ++ [d] }, .arrived)
  | other => (started, other)

def arrivedAt (rec : Recorder) (target : String) : List Patch :=
  (rec.arrived.filter (·.target = target)).map (·.patch)

end Recorder
end Rollcall
