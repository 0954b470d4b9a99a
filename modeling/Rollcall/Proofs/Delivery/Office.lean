import Rollcall.Proofs.Delivery.Books
import Rollcall.Proofs.Registry.Action

/-!
# The office

All that is delivered over one transport. Fan-outs are called at two desks, each with permits of its
own: that of a registry, and one beside it. Other deliveries take no permit and are awaited, the
catch-up of a registrant among them.

Dispatchers and deliveries are tasks of their own, and an executor with several threads runs them in
whatever order it likes. A turn runs the first of what is ready at a desk, but `Office.prefer` puts
any other one first, and of the deliveries whose time is up any one may end alone, `lapse`. What is
said of all runs is said of all these choices too.

`Office.lane_meet` says what an incident comes to at a desk: an event of its fan-outs, or nothing.
-/

namespace Rollcall

/-- Where fan-outs are called: at the registry, or beside it. The two share the transport and no
permits. -/
inductive Desk where
  | own
  | side
  deriving Repr, DecidableEq

/-- A registry, the fan-outs beside it, the transport of both, and the time of deliveries. It is all
of a timeline that deliveries depend on. -/
structure Office where
  registry : Registry
  side : FanOut
  transport : Recorder := {}
  time : Instant := ⟨0⟩

/-- What can happen next. Everything that takes place at an office is one of these, or the executor
putting another turn first. -/
inductive Incident where
  /-- A step at the registry; who announces an instance delivers its catch-up. -/
  | act (x : Action)
  | fanOut (news : Patch) (recipients : List Registration)
  | deliver (d : Delivery)
  /-- The first of what is ready at a desk runs. -/
  | turn (desk : Desk)
  /-- The deliveries whose time is up end. -/
  | expire (desk : Desk)
  /-- One delivery ends, if its time is up. -/
  | lapse (desk : Desk) (i : Nat)
  | wait (span : Duration)
  | fail (target : String)
  | stall (target : String)

/-- The catch-up that an announcement finds. -/
def Registry.catchUp? (r : Registry) : Action → Option Delivery
  | .announce a => (r.announce a).2
  | _ => none

/-- The fan-outs with one of the turns that are ready moved to the front, which then runs next. With
a number that no turn has, nothing is moved. -/
def FanOut.prefer {δ : Type} (lane : FanOut δ) (i : Nat) : FanOut δ :=
  { lane with ready := lane.ready[i]?.toList ++ lane.ready.eraseIdx i }

theorem FanOut.ready_prefer {δ : Type} (lane : FanOut δ) (i : Nat) :
    (lane.prefer i).ready.Perm lane.ready := by
  show (lane.ready[i]?.toList ++ lane.ready.eraseIdx i).Perm lane.ready
  by_cases hi : i < lane.ready.length
  · rw [List.getElem?_eq_getElem hi]
    exact List.getElem_cons_eraseIdx_perm hi
  · have hi := Nat.le_of_not_lt hi
    rw [List.getElem?_eq_none hi, List.eraseIdx_of_length_le hi]
    exact .refl _

theorem FanOut.map_prefer {δ ε : Type} (f : δ → ε) (lane : FanOut δ) (i : Nat) :
    (lane.prefer i).map f = (lane.map f).prefer i := by
  have hready : (lane.prefer i).ready.map (mapTurn f) = ((lane.map f).prefer i).ready := by
    show (lane.ready[i]?.toList ++ lane.ready.eraseIdx i).map _ =
      (lane.ready.map (mapTurn f))[i]?.toList ++ (lane.ready.map (mapTurn f)).eraseIdx i
    rw [List.map_append, List.getElem?_map, List.eraseIdx_map]
    cases lane.ready[i]? with
    | none => rfl
    | some turn => rfl
  rw [FanOut.map, hready]
  rfl

namespace Office

def start (settings : RegistrySettings) (supply : IdSupply) : Office where
  registry := .empty settings supply
  side := .ofLimit settings.maxInFlight

def lane (o : Office) : Desk → FanOut
  | .own => o.registry.lane
  | .side => o.side

def withLane (o : Office) (k : Desk) (lane : FanOut) : Office :=
  match k with
  | .own => { o with registry := { o.registry with lane := lane } }
  | .side => { o with side := lane }

theorem lane_withLane (o : Office) (k desk : Desk) (lane : FanOut) :
    (o.withLane desk lane).lane k = if k = desk then lane else o.lane k := by
  cases k with
  | own => cases desk <;> rfl
  | side => cases desk <;> rfl

theorem settings_withLane (o : Office) (k : Desk) (lane : FanOut) :
    (o.withLane k lane).registry.settings = o.registry.settings := by
  cases k with
  | own => rfl
  | side => rfl

theorem transport_withLane (o : Office) (k : Desk) (lane : FanOut) :
    (o.withLane k lane).transport = o.transport := by
  cases k with
  | own => rfl
  | side => rfl

theorem time_withLane (o : Office) (k : Desk) (lane : FanOut) :
    (o.withLane k lane).time = o.time := by
  cases k with
  | own => rfl
  | side => rfl

def timeout (o : Office) : Duration := o.registry.settings.deliveryTimeout

/-- The delivery that an incident makes without a permit. -/
def awaited? (o : Office) : Incident → Option Delivery
  | .act x => o.registry.catchUp? x
  | .deliver d => some d
  | _ => none

/-- What happens to the fan-outs of a desk, if anything does. -/
def event? (o : Office) (k : Desk) : Incident → Option Event
  | .act x => if k = .own
    then (o.registry.news? x).map fun told => .fanOut (deliveriesOf told.1 told.2) else none
  | .fanOut news recipients =>
    if k = .side then some (.fanOut (deliveriesOf news recipients)) else none
  | .turn desk => if k = desk then some (.step o.time o.timeout) else none
  | .expire desk => if k = desk then some (.expire o.time) else none
  | .lapse desk i => if k = desk then some (.lapse o.time i) else none
  | _ => none

theorem event?_eq_step {o : Office} {k : Desk} {i : Incident} {now : Instant}
    {timeout : Duration} (h : o.event? k i = some (.step now timeout)) :
    i = .turn k ∧ now = o.time ∧ timeout = o.timeout := by
  cases i with
  | turn desk =>
      simp only [event?] at h
      split at h
      · next heq =>
        obtain ⟨rfl, rfl⟩ := Event.step.inj (Option.some.inj h)
        exact ⟨by rw [heq], rfl, rfl⟩
      · cases h
  | act x =>
      simp only [event?] at h
      split at h
      · obtain ⟨told, -, htold⟩ := Option.map_eq_some_iff.mp h
        cases htold
      · cases h
  | fanOut | expire | lapse =>
      simp only [event?] at h
      split at h
      · cases h
      · cases h
  | _ => cases h

/-- The transport after a delivery, if there is one. -/
def attempt (o : Office) : Option Delivery → Recorder
  | some d => (o.transport.attempt d).1
  | none => o.transport

/-- The office after an incident. What an action has to send is queued at the registry, and a
catch-up that it finds is attempted at once. -/
def meet (o : Office) (i : Incident) : Office :=
  match i with
  | .act x => { o with registry := o.registry.act x, transport := o.attempt (o.awaited? i) }
  | .deliver _ => { o with transport := o.attempt (o.awaited? i) }
  | .fanOut news recipients => { o with side := o.side.queue (deliveriesOf news recipients) }
  | .turn desk =>
    let (lane, transport) := (o.lane desk).step o.time o.timeout o.transport
    { o.withLane desk lane with transport := transport }
  | .expire desk => o.withLane desk ((o.lane desk).expire o.time)
  | .lapse desk i => o.withLane desk ((o.lane desk).lapse o.time i)
  | .wait span => { o with time := ⟨o.time.nanos + span.nanos⟩ }
  | .fail target => { o with transport := o.transport.fail target }
  | .stall target => { o with transport := o.transport.stall target }

def run (o : Office) (incidents : List Incident) : Office := incidents.foldl meet o

theorem run_append (o : Office) (incidents more : List Incident) :
    o.run (incidents ++ more) = (o.run incidents).run more :=
  List.foldl_append

/-- The office once the executor has put a turn of a desk first. -/
def prefer (o : Office) (k : Desk) (i : Nat) : Office := o.withLane k ((o.lane k).prefer i)

theorem lane_meet (o : Office) (i : Incident) (k : Desk) :
    (o.meet i).lane k = match o.event? k i with
      | some e => (e.apply (o.lane k, o.transport)).1
      | none => o.lane k := by
  cases i with
  | act x =>
      cases k with
      | side => rfl
      | own =>
          -- The lane changes only by the news that the action issues.
          show (o.registry.act x).lane = _
          rw [Registry.lane_act]
          simp only [event?, if_true]
          cases o.registry.news? x with
          | none => rfl
          | some told => rfl
  | fanOut news recipients =>
      cases k with
      | own => rfl
      | side => rfl
  | turn desk =>
      show (o.withLane desk _).lane k = _
      rw [lane_withLane, event?]
      split
      · next heq =>
        subst heq
        rfl
      · rfl
  | expire desk | lapse desk =>
      show (o.withLane desk _).lane k = _
      rw [lane_withLane, event?]
      split
      · next heq =>
        subst heq
        rfl
      · rfl
  | deliver | wait | fail | stall =>
      cases k with
      | own => rfl
      | side => rfl

theorem settings_meet (o : Office) (i : Incident) :
    (o.meet i).registry.settings = o.registry.settings := by
  cases i with
  | act x => exact (o.registry.act_fixed x).1
  | turn desk => exact o.settings_withLane desk _
  | expire desk | lapse desk => exact o.settings_withLane desk _
  | _ => rfl

theorem time_meet (o : Office) (i : Incident) : o.time.nanos ≤ (o.meet i).time.nanos := by
  cases i with
  | wait span => exact Nat.le_add_right _ _
  | turn desk =>
      show _ ≤ (o.withLane desk _).time.nanos
      rw [time_withLane]
  | expire desk | lapse desk =>
      show _ ≤ (o.withLane desk _).time.nanos
      rw [time_withLane]
  | _ => exact Nat.le_refl _

/-- Turns of a desk are steps of its fan-outs, and nothing else moves. -/
theorem run_turns (o : Office) (k : Desk) (n : Nat) :
    o.run (List.replicate n (.turn k)) =
      { o.withLane k (FanOut.run o.time o.timeout n (o.lane k) o.transport).1 with
        transport := (FanOut.run o.time o.timeout n (o.lane k) o.transport).2 } := by
  induction n generalizing o with
  | zero =>
      cases k with
      | own => rfl
      | side => rfl
  | succ n ih =>
      refine (ih (o.meet (.turn k))).trans ?_
      cases k with
      | own => rfl
      | side => rfl

end Office
end Rollcall
