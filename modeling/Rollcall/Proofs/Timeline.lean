import Rollcall.Proofs.Delivery.Attempts
import Rollcall.Proofs.Delivery.Saturation
import Rollcall.Proofs.Registry.Requests
import Rollcall.Registry.Timeline

/-!
# Timelines are runs of an office

A timeline does several things in one go: it settles both desks after every step, waits for the
outcome of what is awaited, and lets time pass from one deadline to the next. All of it is made of
incidents, and so whatever holds of every run of an office holds of every timeline.

Time never goes back on the way, because whatever is aloft has time left, `Office.InTime`. For that
no deadline may be passed over, however many deliveries end before the time is up: `passTo` is given
as many rounds as deliveries are outstanding, and every round ends one.

Main statement: `Timeline.Reachable.exists_run`.
-/

namespace Rollcall

/-! ## Outstanding deliveries -/

namespace FanOut

variable {δ : Type}

theorem outstanding_release (lane : FanOut δ) : lane.release.outstanding = lane.outstanding := by
  unfold release
  split
  · rfl
  · next rest line h =>
    simp only [outstanding, h, total_append, total, inTurn]
    omega

theorem outstanding_releases {α : Type} (ended : List α) (lane : FanOut δ) :
    (ended.foldl (fun lane _ => lane.release) lane).outstanding = lane.outstanding := by
  induction ended generalizing lane with
  | nil => rfl
  | cons x ended ih => rw [List.foldl_cons, ih, outstanding_release]

theorem outstanding_expire {now : Instant} {lane : FanOut δ} {flight : Flight δ}
    (h : flight ∈ lane.aloft) (hdue : flight.deadline.nanos ≤ now.nanos) :
    (lane.expire now).outstanding < lane.outstanding := by
  rw [expire, outstanding_releases]
  refine Nat.add_lt_add_left (List.length_filter_lt_length_iff_exists.mpr ⟨flight, h, ?_⟩) _
  simpa using hdue

theorem outstanding_expire_le (now : Instant) (lane : FanOut δ) :
    (lane.expire now).outstanding ≤ lane.outstanding := by
  rw [expire, outstanding_releases]
  exact Nat.add_le_add_left (List.length_filter_le _ _) _

theorem outstanding_handOut (lane : FanOut δ) (x : Dispatcher δ) :
    (lane.handOut x).outstanding = lane.outstanding + x.rest.length := by
  obtain ⟨d, ds⟩ := x
  have hasks : total inTurn ((Dispatcher.ofList? ds).toList.map Turn.ask) = ds.length := by
    cases ds with
    | nil => rfl
    | cons next later => rfl
  simp only [outstanding, handOut, total_append, hasks, total, inTurn, Dispatcher.rest,
    List.length_cons]
  omega

theorem outstanding_ask (lane : FanOut δ) (x : Dispatcher δ) :
    (lane.ask x).outstanding = lane.outstanding + x.rest.length := by
  unfold ask
  split
  · simp only [outstanding, total_append, total]
    omega
  · exact outstanding_handOut _ x

theorem outstanding_step [Parcel δ] (now : Instant) (timeout : Duration) (lane : FanOut δ)
    (rec : Recorder) : (lane.step now timeout rec).1.outstanding ≤ lane.outstanding := by
  rcases hready : lane.ready with _ | ⟨turn, ready⟩
  · simp only [step, hready]
    exact Nat.le_refl _
  have hturn : lane.outstanding =
      FanOut.outstanding { lane with ready := ready } + inTurn turn := by
    simp only [outstanding, hready, total]
    omega
  rw [hturn]
  cases turn with
  | ask x =>
      simp only [step, hready, outstanding_ask]
      exact Nat.le_refl _
  | grant x =>
      simp only [step, hready, outstanding_handOut]
      exact Nat.le_refl _
  -- A delivery that stalls is outstanding still, and any other is over.
  | send d =>
      simp only [step, hready, send, inTurn]
      split
      · split
        · simp only [outstanding_release]
          omega
        · simp only [outstanding, List.length_append, List.length_singleton]
          omega
      · simp only [outstanding_release]
        omega

theorem outstanding_run [Parcel δ] (now : Instant) (timeout : Duration) (n : Nat)
    (lane : FanOut δ) (rec : Recorder) :
    (run now timeout n lane rec).1.outstanding ≤ lane.outstanding := by
  induction n generalizing lane rec with
  | zero => exact Nat.le_refl _
  | succ n ih => exact Nat.le_trans (ih _ _) (outstanding_step now timeout lane rec)

/-- What it is for an instant, if there is one, to be the first at which one of some deliveries
ends. -/
def Soonest (flights : List (Flight δ)) : Option Instant → Prop
  | none => flights = []
  | some next => (∃ flight ∈ flights, flight.deadline = next) ∧
      ∀ flight ∈ flights, next.nanos ≤ flight.deadline.nanos

theorem soonest_nextDeadline? (lane : FanOut δ) : Soonest lane.aloft lane.nextDeadline? := by
  cases hnext : lane.nextDeadline? with
  | none =>
      rw [nextDeadline?, Option.map_eq_none_iff, List.min?_eq_none_iff] at hnext
      exact List.map_eq_nil_iff.mp hnext
  | some next =>
      obtain ⟨nanos, hmin, rfl⟩ := Option.map_eq_some_iff.mp hnext
      obtain ⟨hmem, hle⟩ := List.min?_eq_some_iff.mp hmin
      obtain ⟨flight, hflight, rfl⟩ := List.mem_map.mp hmem
      refine ⟨⟨flight, hflight, rfl⟩, fun other hother => ?_⟩
      exact hle _ (List.mem_map.mpr ⟨other, hother, rfl⟩)

/-- Of two first ends the earlier is the first of all. -/
theorem Soonest.append {flights more : List (Flight δ)} {a b : Instant}
    (ha : Soonest flights (some a)) (hb : Soonest more (some b)) :
    Soonest (flights ++ more) (some (if a.nanos ≤ b.nanos then a else b)) := by
  obtain ⟨⟨flight, hflight, hfirst⟩, hall⟩ := ha
  obtain ⟨⟨other, hother, hsecond⟩, hrest⟩ := hb
  split
  · next hle =>
    refine ⟨⟨flight, List.mem_append_left _ hflight, hfirst⟩, fun one hone => ?_⟩
    rcases List.mem_append.mp hone with hone | hone
    · exact hall one hone
    · exact Nat.le_trans hle (hrest one hone)
  · next hlt =>
    refine ⟨⟨other, List.mem_append_right _ hother, hsecond⟩, fun one hone => ?_⟩
    rcases List.mem_append.mp hone with hone | hone
    · exact Nat.le_trans (Nat.le_of_not_le hlt) (hall one hone)
    · exact hrest one hone

end FanOut

/-! ## Runs without waiting -/

/-- Whether nothing begins with an incident: what is under way goes on, and time passes. -/
def Incident.isQuiet : Incident → Bool
  | .turn _ | .expire _ | .lapse .. | .wait _ => true
  | _ => false

namespace Office

/-- Whatever is aloft has time left. -/
def InTime (o : Office) : Prop :=
  ∀ k, ∀ flight ∈ (o.lane k).aloft, o.time.nanos < flight.deadline.nanos

/-- What happens takes one office to the other, and keeps it in time. Unlike `Drifts` this includes
that calls are made. -/
def Leads (o after : Office) : Prop :=
  o.InTime → after.InTime ∧ ∃ incidents, after = o.run incidents

theorem Leads.refl (o : Office) : o.Leads o := fun h => ⟨h, [], rfl⟩

theorem Leads.trans {o mid after : Office} (h : o.Leads mid) (hrest : mid.Leads after) :
    o.Leads after := by
  intro htime
  obtain ⟨hmid, incidents, rfl⟩ := h htime
  obtain ⟨hafter, more, rfl⟩ := hrest hmid
  exact ⟨hafter, incidents ++ more, (o.run_append incidents more).symm⟩

/-- What is under way takes one office to the other, and keeps it in time. Nothing is called
meanwhile, so the directory and the ledger stay as they are. -/
def Drifts (o after : Office) : Prop :=
  o.InTime → after.InTime ∧
    ∃ incidents : List Incident, (∀ i ∈ incidents, i.isQuiet = true) ∧ after = o.run incidents

theorem Drifts.leads {o after : Office} (h : o.Drifts after) : o.Leads after := by
  intro htime
  obtain ⟨hafter, incidents, -, hrun⟩ := h htime
  exact ⟨hafter, incidents, hrun⟩

theorem Drifts.refl (o : Office) : o.Drifts o := fun h => ⟨h, [], by simp, rfl⟩

theorem Drifts.trans {o mid after : Office} (h : o.Drifts mid) (hrest : mid.Drifts after) :
    o.Drifts after := by
  intro htime
  obtain ⟨hmid, incidents, hquiet, rfl⟩ := h htime
  obtain ⟨hafter, more, hmore, rfl⟩ := hrest hmid
  refine ⟨hafter, incidents ++ more, ?_, (o.run_append incidents more).symm⟩
  intro i hi
  exact (List.mem_append.mp hi).elim (hquiet i) (hmore i)

theorem aloft_meet {o : Office} {i : Incident} {k : Desk} {flight : Flight Delivery}
    (h : flight ∈ ((o.meet i).lane k).aloft) :
    flight ∈ (o.lane k).aloft ∨ o.time.nanos < flight.deadline.nanos := by
  rw [lane_meet] at h
  cases hevent : o.event? k i with
  | none =>
      rw [hevent] at h
      exact Or.inl h
  | some e =>
      rw [hevent] at h
      cases e with
      | fanOut ds =>
          exact Or.inl h
      | expire now => exact Or.inl (FanOut.aloft_expire h).1
      | lapse now n => exact Or.inl (FanOut.aloft_lapse h)
      | fail | stall => exact Or.inl h
      | step now timeout =>
          obtain ⟨-, rfl, -⟩ := event?_eq_step hevent
          rcases FanOut.aloft_step h with hold | ⟨d, -, -, hpos, rfl⟩
          · exact Or.inl hold
          · exact Or.inr (Nat.lt_add_of_pos_right hpos)

/-- Only waiting moves time. -/
theorem time_still {o : Office} {i : Incident} (h : ∀ span, i ≠ .wait span) :
    (o.meet i).time = o.time := by
  cases i with
  | wait span => exact absurd rfl (h span)
  | turn desk | expire desk | lapse desk => exact o.time_withLane desk _
  | _ => rfl

theorem leads_meet {o : Office} {i : Incident} (h : ∀ span, i ≠ .wait span) :
    o.Leads (o.meet i) := by
  refine fun htime => ⟨fun k flight hflight => ?_, [i], rfl⟩
  rw [time_still h]
  exact (aloft_meet hflight).elim (htime k flight) id

theorem leads_run (o : Office) {incidents : List Incident}
    (h : ∀ i ∈ incidents, ∀ span, i ≠ .wait span) : o.Leads (o.run incidents) := by
  induction incidents generalizing o with
  | nil => exact .refl o
  | cons i incidents ih =>
      have hfirst := leads_meet (o := o) (h i List.mem_cons_self)
      exact hfirst.trans (ih _ fun other hother => h other (List.mem_cons_of_mem i hother))

theorem drifts_turn (o : Office) (desk : Desk) : o.Drifts (o.meet (.turn desk)) := by
  intro htime
  refine ⟨(leads_meet (i := .turn desk) nofun htime).1, [.turn desk], ?_, rfl⟩
  simp [Incident.isQuiet]

theorem drifts_turns (o : Office) (desk : Desk) (n : Nat) :
    o.Drifts (o.run (List.replicate n (.turn desk))) := by
  induction n generalizing o with
  | zero => exact .refl o
  | succ n ih => exact (o.drifts_turn desk).trans (ih _)

end Office

/-! ## Timelines -/

/-- Whether an operation announces nobody, so that nobody waits for a catch-up of it. -/
def Operation.isSilent : Operation → Bool
  | .add _ | .announce _ | .register .. => false
  | _ => true

namespace Timeline

/-- What is delivered, and when. The clock of heartbeats is no part of it. -/
def office (t : Timeline) : Office := ⟨t.registry, t.side, t.transport, t.time⟩

def Leads (t after : Timeline) : Prop := t.office.Leads after.office

def Drifts (t after : Timeline) : Prop := t.office.Drifts after.office

def outstanding (t : Timeline) : Nat := t.registry.lane.outstanding + t.side.outstanding

theorem office_settle (t : Timeline) : ∃ n m, t.settle.office =
    t.office.run (List.replicate n (.turn .own) ++ List.replicate m (.turn .side)) := by
  refine ⟨t.registry.lane.weight, t.side.weight, ?_⟩
  rw [Office.run_append, Office.run_turns, Office.run_turns]
  rfl

theorem drifts_settle (t : Timeline) : t.Drifts t.settle := by
  obtain ⟨n, m, hrun⟩ := t.office_settle
  rw [Drifts, hrun, Office.run_append]
  exact (t.office.drifts_turns .own n).trans (Office.drifts_turns _ .side m)

theorem outstanding_settle (t : Timeline) : t.settle.outstanding ≤ t.outstanding :=
  Nat.add_le_add (FanOut.outstanding_run _ _ _ _ _) (FanOut.outstanding_run _ _ _ _ _)

theorem time_settle (t : Timeline) : t.settle.time = t.time := rfl

def aloft (t : Timeline) : List (Flight Delivery) := t.registry.lane.aloft ++ t.side.aloft

theorem mem_aloft {t : Timeline} {flight : Flight Delivery} :
    flight ∈ t.aloft ↔ ∃ k, flight ∈ (t.office.lane k).aloft := by
  rw [aloft, List.mem_append]
  constructor
  · rintro (hown | hside)
    · exact ⟨.own, hown⟩
    · exact ⟨.side, hside⟩
  · rintro ⟨_ | _, h⟩
    · exact Or.inl h
    · exact Or.inr h

theorem soonest_nextDeadline? (t : Timeline) : FanOut.Soonest t.aloft t.nextDeadline? := by
  have hown := t.registry.lane.soonest_nextDeadline?
  have hside := t.side.soonest_nextDeadline?
  rw [aloft, nextDeadline?]
  cases howns : t.registry.lane.nextDeadline? with
  | none =>
      rw [howns] at hown
      rw [show t.registry.lane.aloft = [] from hown]
      exact hside
  | some a =>
      rw [howns] at hown
      cases hsides : t.side.nextDeadline? with
      | none =>
          rw [hsides] at hside
          rw [show t.side.aloft = [] from hside, List.append_nil]
          exact hown
      | some b =>
          rw [hsides] at hside
          exact hown.append hside

def ended (t : Timeline) (now : Instant) : Timeline :=
  { t with
    time := now
    registry := { t.registry with lane := t.registry.lane.expire now }
    side := t.side.expire now }

theorem drifts_ended {t : Timeline} {now : Instant} (h : t.time.nanos ≤ now.nanos) :
    t.Drifts (t.ended now) := by
  have hnow : (⟨t.time.nanos + (now.nanos - t.time.nanos)⟩ : Instant) = now := by
    rw [Nat.add_sub_cancel' h]
  refine fun _ => ⟨fun k flight hflight => ?_,
    [.wait ⟨now.nanos - t.time.nanos⟩, .expire .own, .expire .side], ?_, ?_⟩
  · cases k with
    | own => exact (FanOut.aloft_expire hflight).2
    | side => exact (FanOut.aloft_expire hflight).2
  · simp [Incident.isQuiet]
  · show (t.ended now).office = (Office.meet ⟨t.registry, t.side, t.transport,
      ⟨t.time.nanos + (now.nanos - t.time.nanos)⟩⟩ (.expire .own)).meet (.expire .side)
    rw [hnow]
    rfl

theorem drifts_expire {t : Timeline} {now : Instant} (h : t.time.nanos ≤ now.nanos) :
    t.Drifts (t.expire now) :=
  (drifts_ended h).trans (drifts_settle _)

theorem outstanding_expire {t : Timeline} {now : Instant} {flight : Flight Delivery}
    (h : flight ∈ t.aloft) (hdue : flight.deadline.nanos ≤ now.nanos) :
    (t.expire now).outstanding < t.outstanding := by
  refine Nat.lt_of_le_of_lt (outstanding_settle (t.ended now)) ?_
  have hown := FanOut.outstanding_expire_le now t.registry.lane
  have hside := FanOut.outstanding_expire_le now t.side
  rcases List.mem_append.mp h with h | h
  · exact Nat.add_lt_add_of_lt_of_le (FanOut.outstanding_expire h hdue) hside
  · exact Nat.add_lt_add_of_le_of_lt hown (FanOut.outstanding_expire h hdue)

/-- With a round for every outstanding delivery, nothing that is due by then is left. This is what
makes the number of rounds in `advanceTo` enough. -/
theorem passTo_ends (target : Instant) {n : Nat} {t : Timeline} (hrounds : t.outstanding ≤ n)
    (hin : t.office.InTime) (htime : t.time.nanos ≤ target.nanos) :
    t.Drifts (passTo target n t) ∧ (passTo target n t).time.nanos ≤ target.nanos ∧
      ∀ flight ∈ (passTo target n t).aloft, target.nanos < flight.deadline.nanos := by
  have hsoonest := t.soonest_nextDeadline?
  induction n generalizing t with
  -- Without a round left nothing is outstanding, and so nothing is aloft.
  | zero =>
      refine ⟨.refl _, htime, fun flight hflight => ?_⟩
      have hone := List.length_pos_of_mem hflight
      rw [passTo, aloft, List.length_append] at hone
      simp only [outstanding, FanOut.outstanding] at hrounds
      omega
  | succ n ih =>
      rw [passTo]
      cases hnext : t.nextDeadline? with
      | none =>
          rw [hnext] at hsoonest
          refine ⟨.refl _, htime, fun flight hflight => ?_⟩
          rw [show t.aloft = [] from hsoonest] at hflight
          cases hflight
      | some next =>
          rw [hnext] at hsoonest
          obtain ⟨⟨flight, hmem, rfl⟩, hle⟩ := hsoonest
          dsimp only
          split
          · next hdue =>
            -- The round ends the delivery that is due first, and time does not go back for it.
            obtain ⟨k, hk⟩ := mem_aloft.mp hmem
            have hless := outstanding_expire hmem (Nat.le_refl flight.deadline.nanos)
            have hround := drifts_expire (Nat.le_of_lt (hin k flight hk))
            obtain ⟨hrest, hafter⟩ := ih (by omega) (hround hin).1 hdue (soonest_nextDeadline? _)
            exact ⟨hround.trans hrest, hafter⟩
          · next hlater =>
            refine ⟨.refl _, htime, fun other hother => ?_⟩
            exact Nat.lt_of_lt_of_le (Nat.lt_of_not_le hlater) (hle other hother)

/-- Time may pass as long as nothing is due. -/
theorem drifts_wait {t : Timeline} {target : Instant} (h : t.time.nanos ≤ target.nanos)
    (hlater : ∀ flight ∈ t.aloft, target.nanos < flight.deadline.nanos) :
    t.Drifts { t with time := target } := by
  refine fun _ => ⟨fun k flight hflight => hlater flight (mem_aloft.mpr ⟨k, hflight⟩),
    [.wait ⟨target.nanos - t.time.nanos⟩], by simp [Incident.isQuiet], ?_⟩
  show (⟨t.registry, t.side, t.transport, target⟩ : Office) =
    ⟨t.registry, t.side, t.transport, ⟨t.time.nanos + (target.nanos - t.time.nanos)⟩⟩
  rw [Nat.add_sub_cancel' h]

theorem drifts_advanceTo {t : Timeline} {target : Instant} (h : t.time.nanos ≤ target.nanos) :
    t.Drifts (t.advanceTo target) := by
  intro hin
  obtain ⟨hpassed, htime, hlater⟩ := passTo_ends target (Nat.le_refl t.settle.outstanding)
    (t.drifts_settle hin).1 h
  exact (t.drifts_settle.trans (hpassed.trans (drifts_wait htime hlater))) hin

theorem time_advanceTo (t : Timeline) (target : Instant) : (t.advanceTo target).time = target := rfl

theorem drifts_advance (t : Timeline) (span : Duration) : t.Drifts (t.advance span) :=
  drifts_advanceTo (Nat.le_add_right _ _)

/-! ### What is awaited -/

/-- Waiting for the outcome of a delivery lets what is under way go on, and does nothing else. -/
theorem drifts_deliver (t : Timeline) (d : Delivery) :
    Drifts { t with transport := (t.transport.attempt d).1 } (t.deliver d).1 := by
  obtain ⟨transport, attempt, hattempt⟩ : ∃ transport attempt,
      t.transport.attempt d = (transport, attempt) := ⟨_, _, rfl⟩
  rw [deliver, hattempt]
  cases attempt with
  | arrived | refused => exact .refl _
  | stalled => exact drifts_advance _ _

theorem leads_meet {t after : Timeline} {i : Incident} (h : ∀ span, i ≠ .wait span)
    (hafter : after.office = t.office.meet i) : t.Leads after := by
  rw [Leads, hafter]
  exact Office.leads_meet h

/-- Whoever announces an instance waits for its catch-up. -/
theorem drifts_announced (t : Timeline) (a : Admission) :
    (t.office.meet (.act (.announce a))).Drifts
      (catchUp { t with registry := (t.registry.announce a).1 }
        ⟨a.id, (t.registry.announce a).2⟩).1.office := by
  have hstarted : t.office.meet (.act (.announce a)) = ⟨(t.registry.announce a).1, t.side,
      t.office.attempt (t.registry.announce a).2, t.time⟩ := rfl
  rw [hstarted]
  unfold catchUp
  cases (t.registry.announce a).2 with
  | none => exact .refl _
  | some d => exact drifts_deliver { t with registry := _ } d

theorem leads_announced (t : Timeline) (a : Admission) :
    t.Leads (catchUp { t with registry := (t.registry.announce a).1 }
      ⟨a.id, (t.registry.announce a).2⟩).1 :=
  (Office.leads_meet (i := .act (.announce a)) nofun).trans (t.drifts_announced a).leads

/-- Steps at the registry that announce nobody take no delivery. -/
theorem leads_act (t : Timeline) {x : Action} (h : ∀ a, x ≠ .announce a) :
    t.Leads { t with registry := t.registry.act x } := by
  refine leads_meet (i := .act x) nofun ?_
  cases x with
  | announce a => exact absurd rfl (h a)
  | _ => rfl

theorem leads_actAll (t : Timeline) {xs : List Action} (h : ∀ x ∈ xs, ∀ a, x ≠ .announce a) :
    t.Leads { t with registry := t.registry.actAll xs } := by
  induction xs generalizing t with
  | nil => exact .refl _
  | cons x xs ih =>
      have hfirst := t.leads_act (h x List.mem_cons_self)
      exact hfirst.trans (ih { t with registry := t.registry.act x } fun y hy =>
        h y (List.mem_cons_of_mem x hy))

theorem leads_perform (t : Timeline) {op : Operation} (h : op.isSilent = true) :
    t.Leads { t with registry := t.registry.perform op } := by
  rw [Registry.perform_eq_actAll]
  refine t.leads_actAll fun x hx => ?_
  cases op with
  | add | announce | register => cases h
  | enroll | remove | evict =>
      obtain rfl := List.mem_singleton.mp hx
      intro a ha
      cases ha
  | deregister | heartbeat | sweep =>
      exact (Registry.closing_actions rfl (by simp) t.registry x hx).2

end Timeline

/-! ## Requests -/

namespace Registry.Api

/-- What a request comes to: nothing, an operation that announces nobody, or a registration that
waits for its catch-up. -/
inductive Served (r : Registry) (now : Instant) : Registry × Handling → Prop
  | unread (reply : Http.Reply) : Served r now (r, .answered reply)
  | operated (op : Operation) (hsilent : op.isSilent = true) (reply : Http.Reply) :
    Served r now (r.perform op, .answered reply)
  | enrolled (reg : Registration) (enrolled : Registry) (e : Enrolment)
    (h : r.register reg now = .ok (enrolled, e)) : Served r now (enrolled, .enrolling e)

theorem served_serve (key : AccessKey) (r : Registry) (now : Instant) (request : Http.Request) :
    Served r now (serve key r now request) := by
  have hcomes := comes_serve key r now request
  generalize visit? key request = v?, serve key r now request = done at hcomes ⊢
  cases hcomes with
  | unread reply => exact .unread reply
  | refused reg e h reply => exact .unread reply
  | operated v hsilent reply =>
      refine .operated (v.operation now) ?_ reply
      cases v with
      | register reg => exact absurd rfl (hsilent reg)
      | _ => rfl
  | enrolled reg enrolled e h => exact .enrolled reg enrolled e h

end Registry.Api

namespace Timeline

/-! ## What can be done with a timeline -/

theorem leads_enrolled {t : Timeline} {reg : Registration} {registry : Registry} {e : Enrolment}
    {now : Instant} (h : t.registry.register reg now = .ok (registry, e)) :
    t.Leads (catchUp { t with registry := registry } e).1 := by
  rw [Registry.register] at h
  cases hvalid : reg.validate with
  | error fault =>
      rw [hvalid] at h
      cases h
  | ok =>
      rw [hvalid] at h
      obtain ⟨rfl, rfl⟩ := Prod.mk.inj (Except.ok.inj h)
      have hsilent : ∀ x ∈ [Action.enroll reg, .record (t.registry.enroll reg).2.id now],
          ∀ a, x ≠ .announce a := by simp
      have hadmitted := t.leads_actAll hsilent
      exact hadmitted.trans (leads_announced { t with registry := _ } _)

theorem leads_register (t : Timeline) (reg : Registration) : t.Leads (t.register reg).1 := by
  unfold register
  split
  · exact .refl _
  · next h => exact leads_enrolled h

theorem leads_add (t : Timeline) (reg : Registration) : t.Leads (t.add reg).1 := by
  have hadmitted : t.Leads { t with registry := (t.registry.enroll reg).1 } :=
    t.leads_act (x := .enroll reg) fun _ => nofun
  exact hadmitted.trans (leads_announced { t with registry := _ } _)

theorem leads_serve (t : Timeline) (request : Http.Request) : t.Leads (t.serve request).1 := by
  have hserved := Registry.Api.served_serve t.key t.registry t.clock request
  rw [serve]
  cases hdone : Registry.Api.serve t.key t.registry t.clock request with
  | mk registry handling =>
      rw [hdone] at hserved
      cases hserved with
      | unread reply => exact .refl _
      | operated op hsilent reply => exact t.leads_perform hsilent
      | enrolled reg _ e h => exact leads_enrolled h

theorem leads_deliver (t : Timeline) (d : Delivery) : t.Leads (t.deliver d).1 := by
  have hstarted : t.Leads { t with transport := (t.transport.attempt d).1 } :=
    leads_meet (i := .deliver d) nofun rfl
  exact hstarted.trans (t.drifts_deliver d).leads

theorem leads_fanOut (t : Timeline) (news : Patch) (recipients : List Registration) :
    t.Leads { t with side := (t.side.call news recipients).1 } :=
  leads_meet (i := .fanOut news recipients) nofun rfl

theorem leads_sweep (t : Timeline) : t.Leads t.sweep.1 := by
  have hsilent : (Operation.sweep t.tick.clock).isSilent = true := rfl
  exact t.tick.leads_perform hsilent

theorem time_sweep (t : Timeline) : t.sweep.1.time = t.time := rfl

theorem leads_sweepUntil (stop : Instant) (interval : Duration) (n : Nat) {due : Instant}
    {t : Timeline} (hdue : t.time.nanos ≤ due.nanos) (hstop : t.time.nanos ≤ stop.nanos) :
    t.Leads (sweepUntil stop interval n due t) ∧
      (sweepUntil stop interval n due t).time.nanos ≤ stop.nanos := by
  induction n generalizing due t with
  | zero => exact ⟨.refl _, hstop⟩
  | succ n ih =>
      rw [sweepUntil]
      split
      · next hbefore =>
        have hround : t.Leads (t.advanceTo due).sweep.1.settle :=
          (drifts_advanceTo hdue).leads.trans ((leads_sweep _).trans (drifts_settle _).leads)
        -- The next sweep is due one interval after this one, and that is where time has got to.
        have htime : (t.advanceTo due).sweep.1.settle.time = due := by
          rw [time_settle, time_sweep, time_advanceTo]
        dsimp only
        generalize (t.advanceTo due).sweep.1.settle = swept at hround htime
        subst htime
        obtain ⟨hrest, hend⟩ := ih (Nat.le_add_right _ _) (Nat.le_of_lt hbefore)
        exact ⟨hround.trans hrest, hend⟩
      · exact ⟨.refl _, hstop⟩

theorem leads_runSweeps (t : Timeline) (span : Duration) : t.Leads (t.runSweeps span) := by
  have hlater (more : Duration) : t.settle.time.nanos ≤ t.time.nanos + more.nanos := by
    rw [time_settle]
    exact Nat.le_add_right _ _
  obtain ⟨hswept, hend⟩ := leads_sweepUntil ⟨t.time.nanos + span.nanos⟩
    t.registry.settings.sweepInterval (span.nanos / t.registry.settings.sweepInterval.nanos)
    (hlater t.registry.settings.sweepInterval) (hlater span)
  exact t.drifts_settle.leads.trans (hswept.trans (drifts_advanceTo hend).leads)

/-- The timelines of a registry, whatever is done to it and around it. A single step of a call may
be taken at any moment, so this covers calls that are interleaved. -/
inductive Reachable (settings : RegistrySettings) (key : AccessKey) (supply : IdSupply) :
    Timeline → Prop
  | start : Reachable settings key supply (.start settings key supply)
  | act {t : Timeline} (h : Reachable settings key supply t) (x : Action)
    (hsilent : ∀ a, x ≠ .announce a) :
    Reachable settings key supply { t with registry := t.registry.act x }
  | perform {t : Timeline} (h : Reachable settings key supply t) (op : Operation)
    (hsilent : op.isSilent = true) :
    Reachable settings key supply { t with registry := t.registry.perform op }
  | register {t : Timeline} (h : Reachable settings key supply t) (reg : Registration) :
    Reachable settings key supply (t.register reg).1
  | add {t : Timeline} (h : Reachable settings key supply t) (reg : Registration) :
    Reachable settings key supply (t.add reg).1
  | announce {t : Timeline} (h : Reachable settings key supply t) (a : Admission) :
    Reachable settings key supply (t.announce a).1
  | serve {t : Timeline} (h : Reachable settings key supply t) (request : Http.Request) :
    Reachable settings key supply (t.serve request).1
  | deliver {t : Timeline} (h : Reachable settings key supply t) (d : Delivery) :
    Reachable settings key supply (t.deliver d).1
  | fanOut {t : Timeline} (h : Reachable settings key supply t) (news : Patch)
    (recipients : List Registration) :
    Reachable settings key supply { t with side := (t.side.call news recipients).1 }
  | sweep {t : Timeline} (h : Reachable settings key supply t) :
    Reachable settings key supply t.sweep.1
  | runSweeps {t : Timeline} (h : Reachable settings key supply t) (span : Duration) :
    Reachable settings key supply (t.runSweeps span)
  | advance {t : Timeline} (h : Reachable settings key supply t) (span : Duration) :
    Reachable settings key supply (t.advance span)
  | wait {t : Timeline} (h : Reachable settings key supply t) (span : Duration) :
    Reachable settings key supply (t.wait span)
  | fail {t : Timeline} (h : Reachable settings key supply t) (target : String) :
    Reachable settings key supply { t with transport := t.transport.fail target }
  | stall {t : Timeline} (h : Reachable settings key supply t) (target : String) :
    Reachable settings key supply { t with transport := t.transport.stall target }
  | rest {t : Timeline} (h : Reachable settings key supply t) : Reachable settings key supply t.rest

variable {settings : RegistrySettings} {key : AccessKey} {supply : IdSupply} {t : Timeline}

theorem Reachable.leads (h : t.Reachable settings key supply) :
    (Timeline.start settings key supply).Leads t := by
  induction h with
  | start => exact .refl _
  | act _ x hsilent ih => exact ih.trans (leads_act _ hsilent)
  | perform _ op hsilent ih => exact ih.trans (leads_perform _ hsilent)
  | register _ reg ih => exact ih.trans (leads_register _ reg)
  | add _ reg ih => exact ih.trans (leads_add _ reg)
  | announce _ a ih => exact ih.trans (leads_announced _ a)
  | serve _ request ih => exact ih.trans (leads_serve _ request)
  | deliver _ d ih => exact ih.trans (leads_deliver _ d)
  | fanOut _ news recipients ih => exact ih.trans (leads_fanOut _ news recipients)
  | sweep _ ih => exact ih.trans (leads_sweep _)
  | runSweeps _ span ih => exact ih.trans (leads_runSweeps _ span)
  | advance _ span ih => exact ih.trans (drifts_advance _ span).leads
  | wait _ span ih => exact ih
  | fail _ target ih => exact ih.trans (leads_meet (i := .fail target) nofun rfl)
  | stall _ target ih => exact ih.trans (leads_meet (i := .stall target) nofun rfl)
  | rest _ ih => exact ih.trans (drifts_settle _).leads

theorem inTime_start : (start settings key supply).office.InTime := by
  intro k flight hflight
  cases k with
  | own => cases hflight
  | side => cases hflight

/-- A timeline is a run of its office, and its journal can be kept. So whatever holds of all
journals holds of all timelines. -/
theorem Reachable.exists_run (h : t.Reachable settings key supply) :
    ∃ incidents, t.office = (Office.start settings supply).run incidents ∧
      t.office = ((Journal.start settings supply).run incidents).office := by
  obtain ⟨-, incidents, hrun⟩ := h.leads inTime_start
  refine ⟨incidents, hrun, ?_⟩
  rw [Journal.office_run]
  exact hrun

end Timeline
end Rollcall
