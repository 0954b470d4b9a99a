import Rollcall.Delivery.Recorder
import Rollcall.Liveness

/-!
# Fan-out

A fan-out delivers one patch to many recipients. It does not do so itself: a dispatcher goes through
the deliveries in order, acquires a permit for each, one at a time, and then leaves the delivery to
a task of its own, which holds the permit for as long as it is under way. All fan-outs share the
permits. A dispatcher that asks for one when none is free waits in line, and a permit that is given
back goes to the head of the line, so nobody who asks later is served earlier. A delivery that fails
or arrives gives its permit back at once; one that stalls keeps it until its time is up.

Nothing depends on what it is that is handed out, as long as it comes with a delivery: a registry
hands out deliveries as such, and one that keeps books may hand out more.

    call lane p rs        begins a fan-out of a patch, and counts its deliveries
    queue lane ds         the same for any deliveries
    settle                runs everything that can run without time moving
    expire                ends the stalled deliveries whose time is up

What is ready runs in the order of `FanOut.ready`, which is that of a single thread: a dispatcher
goes on until it has to wait, and whatever becomes ready meanwhile comes after what was ready
before. Nothing in the model forces an executor to keep to that order.

Main statement: `ready_settle`, after settling nothing is ready to run.
-/

namespace Rollcall

/-- What can be handed out: whatever comes with a delivery. The delivery says where something goes;
anything else that a parcel carries is never looked at. -/
class Parcel (δ : Type) where
  /-- The delivery that is made. -/
  delivery : δ → Delivery

instance : Parcel Delivery := ⟨id⟩

/-- A fan-out that still has something to hand out: the delivery for which it needs a permit next,
and those that come after it. -/
structure Dispatcher (δ : Type) where
  next : δ
  later : List δ := []
  deriving Repr, DecidableEq

namespace Dispatcher

/-- The dispatcher of some deliveries. There is none for no deliveries, so a dispatcher that has
handed out its last one is over. -/
def ofList? {δ : Type} : List δ → Option (Dispatcher δ)
  | [] => none
  | d :: ds => some ⟨d, ds⟩

def rest {δ : Type} (x : Dispatcher δ) : List δ := x.next :: x.later

end Dispatcher

/-- Something that can run without time moving: the part of a task up to the point where it has to
wait for a permit or for time. What comes next is a turn of its own. -/
inductive Turn (δ : Type) where
  /-- A dispatcher is about to ask for a permit. -/
  | ask (x : Dispatcher δ)
  /-- A dispatcher has waited in line, and a permit has been given to it. -/
  | grant (x : Dispatcher δ)
  /-- A delivery has its permit and is about to start. -/
  | send (d : δ)
  deriving Repr, DecidableEq

/-- A stalled delivery; it keeps its permit until the deadline. -/
structure Flight (δ : Type) where
  delivery : δ
  deadline : Instant
  deriving Repr, DecidableEq

/-- The fan-outs that share one stock of permits. A permit is free, or with a dispatcher to which it
has been given, or with a delivery that is about to start, or with one that is aloft; none is ever
in two places. -/
structure FanOut (δ : Type := Delivery) where
  /-- The permits that nobody holds. -/
  free : Nat
  /-- The dispatchers that wait for a permit, first come first served. -/
  line : List (Dispatcher δ) := []
  /-- What is about to run, in order. -/
  ready : List (Turn δ) := []
  /-- The stalled deliveries, in the order of their start. -/
  aloft : List (Flight δ) := []
  deriving Repr

namespace FanOut

variable {δ : Type}

/-- A stock of permits for `maxInFlight` deliveries at once. With none at all nothing would ever be
delivered, so there is always one. -/
def ofLimit (maxInFlight : Nat) : FanOut δ := { free := max 1 maxInFlight }

/-- Begins to hand out deliveries. Nothing is asked for yet: the dispatcher comes behind everything
that is ready, and for no deliveries there is no dispatcher at all. -/
def queue (lane : FanOut δ) (ds : List δ) : FanOut δ :=
  { lane with ready := lane.ready ++ (Dispatcher.ofList? ds).toList.map .ask }

/-- Calls a fan-out: a patch goes to each recipient that it concerns. The caller does not wait for
that; it is told how many deliveries there will be. -/
def call (lane : FanOut) (full : Patch) (recipients : List Registration) : FanOut × Nat :=
  let ds := deliveriesOf full recipients
  (lane.queue ds, ds.length)

/-- Gives a permit back. Whoever heads the line gets it at once, even though it runs later, so that
nobody who asks in between can take it; with nobody in the line it goes to the stock. -/
def release (lane : FanOut δ) : FanOut δ :=
  match lane.line with
  | [] => { lane with free := lane.free + 1 }
  | x :: line => { lane with line := line, ready := lane.ready ++ [.grant x] }

/-- What a dispatcher does with a permit: the delivery goes to a task of its own, and the dispatcher
goes on with the next one, before anything else has run. -/
def handOut (lane : FanOut δ) (x : Dispatcher δ) : FanOut δ :=
  { lane with
    ready := (Dispatcher.ofList? x.later).toList.map .ask ++ lane.ready ++ [.send x.next] }

/-- Asks for one permit. If none is free the dispatcher joins the line, and does not ask again: it
is given a permit when it heads the line and one comes back. -/
def ask (lane : FanOut δ) (x : Dispatcher δ) : FanOut δ :=
  match lane.free with
  | 0 => { lane with line := lane.line ++ [x] }
  | free + 1 => handOut { lane with free := free } x

/-- Starts a delivery at the instant `now`. One that stalls stays aloft until its deadline; with no
time allowed it is over at once. -/
def send [Parcel δ] (now : Instant) (timeout : Duration) (lane : FanOut δ) (rec : Recorder)
    (d : δ) : FanOut δ × Recorder :=
  match rec.attempt (Parcel.delivery d) with
  | (rec, .stalled) =>
    if timeout.nanos = 0 then (lane.release, rec)
    else ({ lane with aloft := lane.aloft ++ [⟨d, ⟨now.nanos + timeout.nanos⟩⟩] }, rec)
  | (rec, _) => (lane.release, rec)

/-- Lets the first of what is ready run. In which order things become ready is up to the other
definitions; that the first of them runs first is the choice of this one alone. -/
def step [Parcel δ] (now : Instant) (timeout : Duration) (lane : FanOut δ) (rec : Recorder) :
    FanOut δ × Recorder :=
  match lane.ready with
  | [] => (lane, rec)
  | .ask x :: ready => (ask { lane with ready := ready } x, rec)
  | .grant x :: ready => (handOut { lane with ready := ready } x, rec)
  | .send d :: ready => send now timeout { lane with ready := ready } rec d

/-! ### Settling

Asking for a permit costs more than waiting for it, handing out a delivery more than starting it,
and starting it more than making a waiting dispatcher ready. So every step lowers the weight, and
settling takes at most as many steps. -/

def total {α : Type} (f : α → Nat) : List α → Nat
  | [] => 0
  | x :: xs => f x + total f xs

theorem total_append {α : Type} (f : α → Nat) (xs ys : List α) :
    total f (xs ++ ys) = total f xs + total f ys := by
  induction xs with
  | nil => simp [total]
  | cons x xs ih =>
      simp only [List.cons_append, total, ih]
      omega

def turnWeight : Turn δ → Nat
  | .ask x => 4 * x.rest.length + 1
  | .grant x => 4 * x.rest.length + 1
  | .send _ => 2

def lineWeight (line : List (Dispatcher δ)) : Nat := total (fun x => 4 * x.rest.length) line

/-- What remains to be done before nothing is ready. It is the measure by which settling ends, since
every step lowers it, `weight_step`. -/
def weight (lane : FanOut δ) : Nat := total turnWeight lane.ready + lineWeight lane.line

/-- Takes so many steps. -/
def run [Parcel δ] (now : Instant) (timeout : Duration) :
    Nat → FanOut δ → Recorder → FanOut δ × Recorder
  | 0, lane, rec => (lane, rec)
  | n + 1, lane, rec =>
    let (lane, rec) := step now timeout lane rec
    run now timeout n lane rec

/-- Runs everything that can run without time moving. The weight is as many steps as it can take,
and steps beyond the last one change nothing. -/
def settle [Parcel δ] (now : Instant) (timeout : Duration) (lane : FanOut δ) (rec : Recorder) :
    FanOut δ × Recorder :=
  run now timeout lane.weight lane rec

theorem weight_release (lane : FanOut δ) : lane.release.weight ≤ lane.weight + 1 := by
  unfold release
  split
  · next h => simp [weight, h]
  · next x line h =>
    simp only [weight, h, lineWeight, total_append, total, turnWeight]
    omega

/-- What is handed out weighs no longer what it did when a permit was needed for it, and the rest
weighs the less for it. -/
theorem weight_handOut (lane : FanOut δ) (x : Dispatcher δ) :
    (lane.handOut x).weight < lane.weight + (4 * x.rest.length + 1) := by
  obtain ⟨d, ds⟩ := x
  cases ds with
  | nil =>
      simp only [weight, handOut, Dispatcher.ofList?, Dispatcher.rest, Option.toList_none,
        List.map_nil, List.nil_append, List.length_singleton, total_append, total, turnWeight]
      omega
  | cons next later =>
      simp only [weight, handOut, Dispatcher.ofList?, Dispatcher.rest, Option.toList_some,
        List.map_cons, List.map_nil, List.length_cons, total_append, total, turnWeight]
      omega

theorem weight_ask (lane : FanOut δ) (x : Dispatcher δ) :
    (lane.ask x).weight < lane.weight + (4 * x.rest.length + 1) := by
  unfold ask
  split
  · simp only [weight, lineWeight, total_append, total]
    omega
  · exact weight_handOut _ x

/-- Every step lowers the weight as long as something is ready. -/
theorem weight_step [Parcel δ] (now : Instant) (timeout : Duration) {lane : FanOut δ}
    (rec : Recorder) (h : lane.ready ≠ []) :
    (step now timeout lane rec).1.weight < lane.weight := by
  unfold step
  split
  · next he => exact absurd he h
  · next x ready he =>
    -- Whoever asks leaves the queue and waits in the line or carries on; both weigh less.
    have hask := weight_ask { lane with ready := ready } x
    simp only [weight, he, total, turnWeight] at hask ⊢
    omega
  · next x ready he =>
    have hout := weight_handOut { lane with ready := ready } x
    simp only [weight, he, total, turnWeight] at hout ⊢
    omega
  -- A permit that is given back may make another dispatcher ready, but that is all.
  · next d ready he =>
    have hr := weight_release { lane with ready := ready }
    have hw : weight { lane with ready := ready } + 2 = lane.weight := by
      simp only [weight, he, total, turnWeight]
      omega
    unfold send
    split
    · split
      · simp only
        omega
      · simp only [weight] at hw ⊢
        omega
    · simp only
      omega

theorem ready_eq_nil_of_weight {lane : FanOut δ} (h : lane.weight = 0) : lane.ready = [] := by
  cases hr : lane.ready with
  | nil => rfl
  | cons turn ready => cases turn <;> simp [weight, hr, total, turnWeight] at h

theorem run_of_idle [Parcel δ] (now : Instant) (timeout : Duration) (n : Nat) {lane : FanOut δ}
    (rec : Recorder) (h : lane.ready = []) : run now timeout n lane rec = (lane, rec) := by
  induction n with
  | zero => rfl
  | succ n ih => simpa [run, step, h] using ih

theorem ready_run [Parcel δ] (now : Instant) (timeout : Duration) (n : Nat) (lane : FanOut δ)
    (rec : Recorder) (h : lane.weight ≤ n) : (run now timeout n lane rec).1.ready = [] := by
  induction n generalizing lane rec with
  | zero => exact ready_eq_nil_of_weight (Nat.le_zero.1 h)
  | succ n ih =>
    by_cases hr : lane.ready = []
    · rw [run_of_idle now timeout _ rec hr, hr]
    · have := weight_step now timeout rec hr
      exact ih _ _ (Nat.le_of_lt_succ (Nat.lt_of_lt_of_le this h))

/-- After settling nothing is ready to run, so only time can make anything happen. -/
theorem ready_settle [Parcel δ] (now : Instant) (timeout : Duration) (lane : FanOut δ)
    (rec : Recorder) :
    (settle now timeout lane rec).1.ready = [] :=
  ready_run now timeout _ lane rec (Nat.le_refl _)

/-! ### Time -/

/-- Ends the stalled deliveries whose deadline has come. Each of them gives its permit back, in the
order in which they had started. -/
def expire (now : Instant) (lane : FanOut δ) : FanOut δ :=
  let due (f : Flight δ) : Bool := f.deadline.nanos ≤ now.nanos
  let ended := lane.aloft.filter due
  ended.foldl (fun lane _ => lane.release) { lane with aloft := lane.aloft.filter (!due ·) }

def nextDeadline? (lane : FanOut δ) : Option Instant :=
  (lane.aloft.map (·.deadline.nanos)).min?.map Duration.mk

def inTurn : Turn δ → Nat
  | .ask x => x.rest.length
  | .grant x => x.rest.length
  | .send _ => 1

/-- How many deliveries are not over yet: those aloft, those that hold a permit, and those that
their dispatchers have still to ask for. -/
def outstanding (lane : FanOut δ) : Nat :=
  total inTurn lane.ready + total (fun x => x.rest.length) lane.line + lane.aloft.length

def debug (lane : FanOut δ) (timeout : Duration) : String :=
  "PatchNotifier \x7b available_permits: " ++ String.ofList (Text.decimal lane.free) ++
    ", timeout: " ++ timeout.text ++ ", .. \x7d"

end FanOut
end Rollcall
