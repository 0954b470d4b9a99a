import Rollcall.Proofs.Delivery.Office

/-!
# A journal of the office

The journal keeps the books of both desks and enters, beside them,

    calls      the deliveries of every fan-out called at a desk
    awaited    the deliveries made without a permit
    log        every start of a delivery, with the transport and the time that it finds

`Journal.Reachable` are the journals of whatever may happen, in whatever order the executor lets
things run. `Journal.Kept` is what all of them keep: the books agree with the office, permits are
accounted for and given in the order in which they are asked for, a ticket is in one place, and the
transport shows what the log says.
-/

namespace Rollcall

/-- Something that is delivered: a ticket of a desk, which takes a permit, or a delivery that is
awaited, which takes none. -/
inductive Item where
  | ticket (desk : Desk) (t : Ticket)
  | awaited (d : Delivery)
  deriving Repr, DecidableEq

namespace Item

def delivery : Item → Delivery
  | ticket _ t => t.delivery
  | awaited d => d

def ticketAt? (k : Desk) : Item → Option Ticket
  | ticket desk t => if desk = k then some t else none
  | awaited _ => none

def awaited? : Item → Option Delivery
  | ticket .. => none
  | awaited d => some d

theorem ticketAt?_eq_some {k : Desk} {item : Item} {t : Ticket} (h : item.ticketAt? k = some t) :
    item = ticket k t := by
  cases item with
  | awaited d => cases h
  | ticket desk u =>
      simp only [ticketAt?, Option.ite_none_right_eq_some, Option.some.injEq] at h
      rw [h.1, h.2]

end Item

/-- The start of a delivery, with the transport and the time that it finds. What becomes of the
delivery is settled at this moment. -/
structure Start where
  item : Item
  transport : Recorder
  time : Instant

namespace Start

def delivery (s : Start) : Delivery := s.item.delivery

def fate (s : Start) : Attempt := s.transport.fate s.delivery.target

end Start

structure Journal where
  office : Office
  books : Desk → Books
  calls : Desk → List (List Delivery) := fun _ => []
  awaited : List Delivery := []
  log : List Start := []

namespace Journal

def start (settings : RegistrySettings) (supply : IdSupply) : Journal where
  office := .start settings supply
  books := fun _ => .empty settings.maxInFlight

/-- What an incident starts to deliver. No incident starts more than one delivery. -/
def starting? (j : Journal) : Incident → Option Item
  | .turn k => (j.books k).lane.starting?.map (.ticket k)
  | i => (j.office.awaited? i).map .awaited

def next (j : Journal) (i : Incident) : Journal where
  office := j.office.meet i
  books := fun k =>
    { (j.books k).after (j.office.event? k i) with transport := (j.office.meet i).transport }
  calls := fun k => j.calls k ++ Books.called (j.office.event? k i)
  awaited := j.awaited ++ (j.office.awaited? i).toList
  log := j.log ++ ((j.starting? i).map fun item =>
    ⟨item, j.office.transport, j.office.time⟩).toList

def run (j : Journal) (incidents : List Incident) : Journal := incidents.foldl next j

/-- The journal once the executor has put a turn of a desk first. Nothing is delivered by that, so
nothing is entered; but the next turn may be another one than it would have been. -/
def prefer (j : Journal) (k : Desk) (i : Nat) : Journal where
  office := j.office.prefer k i
  books := fun desk => if desk = k
    then { j.books desk with lane := (j.books desk).lane.prefer i } else j.books desk
  calls := j.calls
  awaited := j.awaited
  log := j.log

theorem office_run (j : Journal) (incidents : List Incident) :
    (j.run incidents).office = j.office.run incidents := by
  induction incidents generalizing j with
  | nil => rfl
  | cons i incidents ih => exact ih (j.next i)

/-- The tickets of all fan-outs called at a desk. -/
def tickets (j : Journal) (k : Desk) : List Ticket := ticketsOfAll (j.calls k)

/-- The tickets of a desk that have started, in order. -/
def started (j : Journal) (k : Desk) : List Ticket := j.log.filterMap (·.item.ticketAt? k)

/-- What may have happened so far: any incidents, and between them the executor may put any turn
first as often as it likes. So this covers an executor of many threads, as long as one turn is not
cut in two. -/
inductive Reachable (settings : RegistrySettings) (supply : IdSupply) : Journal → Prop
  | start : Reachable settings supply (.start settings supply)
  | next {j : Journal} (h : Reachable settings supply j) (i : Incident) :
    Reachable settings supply (j.next i)
  | prefer {j : Journal} (h : Reachable settings supply j) (k : Desk) (i : Nat) :
    Reachable settings supply (j.prefer k i)

theorem Reachable.run {settings : RegistrySettings} {supply : IdSupply} {j : Journal}
    (h : Reachable settings supply j) (incidents : List Incident) :
    Reachable settings supply (j.run incidents) := by
  induction incidents generalizing j with
  | nil => exact h
  | cons i incidents ih => exact ih (h.next i)

end Journal

/-! ## What a single step comes to -/

namespace FanOut

variable {δ ε : Type}

theorem starting?_map (f : δ → ε) (lane : FanOut δ) :
    (lane.map f).starting? = lane.starting?.map f := by
  rcases hready : lane.ready with _ | ⟨x | x | d, ready⟩
  · simp [starting?, map, hready]
  · simp [starting?, map, hready, mapTurn, Turn.send?]
  · simp [starting?, map, hready, mapTurn, Turn.send?]
  · simp [starting?, map, hready, mapTurn, Turn.send?]

theorem views_map (f : δ → ε) (lane : FanOut δ) :
    (lane.map f).asking = lane.asking.map (Dispatcher.map f) ∧
      (lane.map f).granted = lane.granted.map (Dispatcher.map f) ∧
      (lane.map f).sends = lane.sends.map f := by
  have hmap {α β : Type} {g : α → β} {p : Turn ε → Option β} {q : Turn δ → Option α}
      (h : ∀ turn, p (mapTurn f turn) = (q turn).map g) :
      (lane.map f).ready.filterMap p = (lane.ready.filterMap q).map g := by
    show (lane.ready.map (mapTurn f)).filterMap p = _
    rw [List.filterMap_map, List.map_filterMap]
    exact congrArg (lane.ready.filterMap ·) (funext h)
  refine ⟨hmap fun turn => ?_, hmap fun turn => ?_, hmap fun turn => ?_⟩
  · cases turn <;> rfl
  · cases turn <;> rfl
  · cases turn <;> rfl

theorem aloft_release (lane : FanOut δ) : lane.release.aloft = lane.aloft := by
  unfold release
  split
  · rfl
  · rfl

theorem aloft_releases {α : Type} (ended : List α) (lane : FanOut δ) :
    (ended.foldl (fun lane _ => lane.release) lane).aloft = lane.aloft := by
  induction ended generalizing lane with
  | nil => rfl
  | cons x ended ih => rw [List.foldl_cons, ih, aloft_release]

theorem aloft_expire {now : Instant} {lane : FanOut δ} {flight : Flight δ}
    (h : flight ∈ (lane.expire now).aloft) :
    flight ∈ lane.aloft ∧ now.nanos < flight.deadline.nanos := by
  rw [expire, aloft_releases] at h
  obtain ⟨hold, hdue⟩ := List.mem_filter.mp h
  simp only [Bool.not_eq_true', decide_eq_false_iff_not, Nat.not_le] at hdue
  exact ⟨hold, hdue⟩

theorem aloft_lapse {now : Instant} {lane : FanOut δ} {i : Nat} {flight : Flight δ}
    (h : flight ∈ (lane.lapse now i).aloft) : flight ∈ lane.aloft := by
  rcases lane.lapse_cases now i with hsame | ⟨-, hless⟩
  · rwa [hsame] at h
  · rw [hless, aloft_release] at h
    exact List.mem_of_mem_eraseIdx h

theorem aloft_handOut (lane : FanOut δ) (x : Dispatcher δ) :
    (lane.handOut x).aloft = lane.aloft :=
  rfl

theorem aloft_ask (lane : FanOut δ) (x : Dispatcher δ) : (lane.ask x).aloft = lane.aloft := by
  unfold ask
  split
  · rfl
  · rfl

variable [Parcel δ]

theorem transport_step (now : Instant) (timeout : Duration) (lane : FanOut δ) (rec : Recorder) :
    (lane.step now timeout rec).2 = match lane.starting? with
      | some d => (rec.attempt (Parcel.delivery d)).1
      | none => rec := by
  rcases hready : lane.ready with _ | ⟨x | x | d, ready⟩
  · simp [step, starting?, hready]
  · simp [step, starting?, hready, Turn.send?]
  · simp [step, starting?, hready, Turn.send?]
  · simp only [step, starting?, hready, List.head?_cons, Option.bind_some, Turn.send?, send]
    split
    · next heq =>
      rw [heq]
      split
      · rfl
      · rfl
    · next heq => rw [heq]

theorem aloft_step {now : Instant} {timeout : Duration} {lane : FanOut δ} {rec : Recorder}
    {flight : Flight δ} (h : flight ∈ (lane.step now timeout rec).1.aloft) :
    flight ∈ lane.aloft ∨ ∃ d, lane.starting? = some d ∧
      rec.fate (Parcel.delivery d).target = .stalled ∧ 0 < timeout.nanos ∧
      flight = ⟨d, ⟨now.nanos + timeout.nanos⟩⟩ := by
  rcases hready : lane.ready with _ | ⟨x | x | d, ready⟩
  · simp only [step, hready] at h
    exact Or.inl h
  · simp only [step, hready, aloft_ask] at h
    exact Or.inl h
  · simp only [step, hready, aloft_handOut] at h
    exact Or.inl h
  · -- Only a delivery that starts can come into the air, and only if its recipient stalls and there
    -- is time to wait for it.
    simp only [step, hready, send, Recorder.attempt] at h
    cases hfate : rec.fate (Parcel.delivery d).target with
    | stalled =>
        simp only [hfate] at h
        split at h
        · rw [aloft_release] at h
          exact Or.inl h
        · next htime =>
          rcases List.mem_append.mp h with hold | hnew
          · exact Or.inl hold
          · refine Or.inr ⟨d, ?_, hfate, Nat.pos_of_ne_zero htime, List.mem_singleton.mp hnew⟩
            simp [starting?, hready, Turn.send?]
    | arrived | refused =>
        simp only [hfate, aloft_release] at h
        exact Or.inl h

end FanOut

theorem Recorder.attempt_shows (rec : Recorder) (d : Delivery) :
    (rec.attempt d).1.attempts = rec.attempts + 1 ∧
      (rec.attempt d).1.arrived =
        if rec.fate d.target = .arrived then rec.arrived ++ [d] else rec.arrived := by
  rw [attempt]
  cases rec.fate d.target with
  | arrived => exact ⟨rfl, rfl⟩
  | refused | stalled => exact ⟨rfl, rfl⟩

theorem Recorder.fate_eq_stalled {rec : Recorder} {target : String} :
    rec.fate target = .stalled ↔ rec.stalling.contains target = true := by
  unfold fate
  split
  · next h => exact iff_of_true rfl h
  · next h =>
    refine iff_of_false ?_ h
    split
    · exact nofun
    · exact nofun

theorem Recorder.fate_eq_arrived {rec : Recorder} {target : String} :
    rec.fate target = .arrived ↔
      rec.failing.contains target = false ∧ rec.stalling.contains target = false := by
  unfold fate
  cases rec.stalling.contains target with
  | true => simp
  | false =>
      cases rec.failing.contains target with
      | true => simp
      | false => simp

namespace FanOut

theorem total_perm {α : Type} (f : α → Nat) {xs ys : List α} (h : xs.Perm ys) :
    total f xs = total f ys := by
  induction h with
  | nil => rfl
  | cons x _ ih => rw [total, total, ih]
  | swap x y xs =>
      simp only [total]
      omega
  | trans _ _ ih ih' => exact ih.trans ih'

variable {δ : Type}

theorem Balanced.prefer {limit : Nat} {lane : FanOut δ} (h : Balanced limit lane) (i : Nat) :
    Balanced limit (lane.prefer i) := by
  refine ⟨h.sated, ?_⟩
  rw [total_perm Turn.permits (lane.ready_prefer i)]
  exact h.permits

theorem Served.prefer {lane : FanOut δ} {asked started : List δ} (h : Served lane asked started)
    (i : Nat) : Served (lane.prefer i) asked started := by
  obtain ⟨served, hasked, hperm⟩ := h
  have hready := lane.ready_prefer i
  refine ⟨served, hasked, hperm.trans ?_⟩
  apply List.Perm.append_left
  exact ((hready.filterMap _).append ((hready.filterMap _).map _)).symm

theorem unasked_prefer (lane : FanOut δ) (i : Nat) :
    (lane.prefer i).unasked.Perm lane.unasked := by
  have hready := lane.ready_prefer i
  apply List.Perm.append
  · exact (hready.filterMap _).map _
  · exact ((hready.filterMap _).append_right _).flatMap_right _

end FanOut

/-! ## What every journal keeps -/

namespace Journal

/-- What all journals of an office with these settings have in common. Each field is kept by every
incident, and by putting a turn first. -/
structure Kept (settings : RegistrySettings) (j : Journal) : Prop where
  fixed : j.office.registry.settings = settings
  faithful : ∀ k, (j.books k).erase = (j.office.lane k, j.office.transport)
  balanced : ∀ k, (j.books k).lane.Balanced (max 1 settings.maxInFlight)
  numbered : ∀ k, (j.books k).calls = (j.calls k).length
  orderly : ∀ k, (j.books k).Orderly (j.calls k)
  served : ∀ k, (j.books k).lane.Served (j.books k).asked (j.books k).started
  started : ∀ k, (j.books k).started = j.started k
  awaited : j.log.filterMap (·.item.awaited?) = j.awaited
  attempts : j.office.transport.attempts = j.log.length
  arrived : j.office.transport.arrived = (j.log.filter (·.fate = .arrived)).map (·.delivery)
  past : ∀ s ∈ j.log, s.time.nanos ≤ j.office.time.nanos
  stalled : ∀ s ∈ j.log, s.fate = .stalled →
    j.office.transport.stalling.contains s.delivery.target = true
  aloft : ∀ k, ∀ flight ∈ (j.books k).lane.aloft, ∃ s ∈ j.log,
    s.item = .ticket k flight.delivery ∧ s.fate = .stalled ∧
      flight.deadline.nanos = s.time.nanos + settings.deliveryTimeout.nanos

theorem Kept.start (settings : RegistrySettings) (supply : IdSupply) :
    (start settings supply).Kept settings where
  fixed := rfl
  faithful k := by
    cases k with
    | own => rfl
    | side => rfl
  balanced _ := .ofLimit _
  numbered _ := rfl
  orderly _ := .empty _
  served _ := .ofLimit _
  started _ := rfl
  awaited := rfl
  attempts := rfl
  arrived := rfl
  past _ hs := absurd hs List.not_mem_nil
  stalled _ hs := absurd hs List.not_mem_nil
  aloft _ _ hflight := absurd hflight List.not_mem_nil

variable {settings : RegistrySettings} {j : Journal}

theorem mem_starting_log {i : Incident} {s : Start} (h : s ∈ (j.next i).log) :
    s ∈ j.log ∨ ∃ item, j.starting? i = some item ∧
      s = ⟨item, j.office.transport, j.office.time⟩ := by
  rcases List.mem_append.mp h with hold | hnew
  · exact Or.inl hold
  · obtain ⟨item, hitem, rfl⟩ := Option.map_eq_some_iff.mp (Option.mem_toList.mp hnew)
    exact Or.inr ⟨item, hitem, rfl⟩

theorem filterMap_log_next {α : Type} (f : Item → Option α) (i : Incident) :
    (j.next i).log.filterMap (fun s => f s.item) =
      j.log.filterMap (fun s => f s.item) ++ ((j.starting? i).bind f).toList := by
  show (j.log ++ _).filterMap _ = _
  rw [List.filterMap_append]
  congr 1
  cases j.starting? i with
  | none => rfl
  | some item => cases hitem : f item <;> simp [hitem]

theorem faithful_next (h : ∀ k, (j.books k).erase = (j.office.lane k, j.office.transport))
    (i : Incident) (k : Desk) : ((j.next i).books k).erase =
      ((j.next i).office.lane k, (j.next i).office.transport) := by
  refine Prod.ext ?_ rfl
  show ((j.books k).after (j.office.event? k i)).lane.map Ticket.delivery = (j.office.meet i).lane k
  rw [Office.lane_meet, ← h k]
  cases j.office.event? k i with
  | none => exact congrArg Prod.fst (h k)
  | some e => exact congrArg Prod.fst ((j.books k).erase_next e)

theorem delivery_starting? (h : ∀ k, (j.books k).erase = (j.office.lane k, j.office.transport))
    (k : Desk) : (j.starting? (.turn k)).map Item.delivery = (j.office.lane k).starting? := by
  have hlane : (j.books k).lane.map Ticket.delivery = j.office.lane k := congrArg Prod.fst (h k)
  rw [← hlane, FanOut.starting?_map, starting?, Option.map_map]
  rfl

theorem transport_next (h : ∀ k, (j.books k).erase = (j.office.lane k, j.office.transport))
    (i : Incident) : (j.next i).office.transport = match i with
      | .fail target => j.office.transport.fail target
      | .stall target => j.office.transport.stall target
      | i => j.office.attempt ((j.starting? i).map Item.delivery) := by
  cases i with
  | act x =>
      show j.office.attempt _ = j.office.attempt _
      rw [starting?, Option.map_map]
      · exact congrArg _ Option.map_id'.symm
      · exact nofun
  | deliver d => rfl
  | turn k =>
      show ((j.office.lane k).step _ _ _).2 = _
      rw [FanOut.transport_step]
      show _ = j.office.attempt _
      rw [delivery_starting? h]
      cases (j.office.lane k).starting? with
      | none => rfl
      | some d => rfl
  | expire k | lapse k => exact j.office.transport_withLane k _
  | _ => rfl

theorem started_after {b : Books} {e? : Option Event}
    (h : ∀ now timeout, e? ≠ some (.step now timeout)) : (b.after e?).started = b.started := by
  cases e? with
  | none => rfl
  | some e =>
      cases e with
      | step now timeout => exact absurd rfl (h now timeout)
      | _ => rfl

theorem ticketAt?_starting? {i : Incident} {k : Desk} (h : i ≠ .turn k) :
    (j.starting? i).bind (Item.ticketAt? k) = none := by
  cases i with
  | turn desk =>
      have hdesk : desk ≠ k := by
        rintro rfl
        exact h rfl
      rw [starting?]
      cases (j.books desk).lane.starting? with
      | none => rfl
      | some t => exact if_neg hdesk
  | act x =>
      rw [starting?]
      · cases j.office.awaited? (.act x) with
        | none => rfl
        | some d => rfl
      · exact nofun
  | _ => rfl

theorem awaited_starting? (i : Incident) :
    (j.starting? i).bind Item.awaited? = j.office.awaited? i := by
  cases i with
  | turn desk =>
      rw [starting?]
      cases (j.books desk).lane.starting? with
      | none => rfl
      | some t => rfl
  | act x =>
      rw [starting?]
      · cases j.office.awaited? (.act x) with
        | none => rfl
        | some d => rfl
      · exact nofun
  | _ => rfl

theorem started_next (h : ∀ k, (j.books k).started = j.started k) (i : Incident) (k : Desk) :
    ((j.next i).books k).started = (j.next i).started k := by
  have hlog : (j.next i).started k =
      j.started k ++ ((j.starting? i).bind (Item.ticketAt? k)).toList := filterMap_log_next _ i
  rw [hlog, ← h k]
  show ((j.books k).after (j.office.event? k i)).started = _
  by_cases hturn : i = .turn k
  · subst hturn
    rw [Office.event?, if_pos rfl, starting?]
    show (j.books k).started ++ (j.books k).lane.starting?.toList = _
    congr 2
    cases (j.books k).lane.starting? with
    | none => rfl
    | some t => exact (if_pos rfl).symm
  · rw [ticketAt?_starting? hturn, Option.toList_none, List.append_nil]
    exact started_after fun now timeout hstep => hturn (Office.event?_eq_step hstep).1

/-- What the transport shows is what has become of the deliveries in the log: that many have been
attempted, and those arrived whose fate it was. An incident keeps this. -/
theorem transport_log_next (hfaithful : ∀ k, (j.books k).erase =
      (j.office.lane k, j.office.transport)) (i : Incident)
    (hattempts : j.office.transport.attempts = j.log.length)
    (harrived : j.office.transport.arrived =
      (j.log.filter (·.fate = .arrived)).map (·.delivery)) :
    (j.next i).office.transport.attempts = (j.next i).log.length ∧
      (j.next i).office.transport.arrived =
        ((j.next i).log.filter (·.fate = .arrived)).map (·.delivery) := by
  -- The log and the count of attempts move together, at a start and at nothing else.
  have hplain : (j.starting? i = none → (j.next i).log = j.log) := by
    intro hnone
    show j.log ++ _ = _
    rw [hnone]
    exact List.append_nil _
  rw [transport_next hfaithful]
  split
  · exact ⟨hattempts.trans (by rw [hplain rfl]), harrived.trans (by rw [hplain rfl])⟩
  · exact ⟨hattempts.trans (by rw [hplain rfl]), harrived.trans (by rw [hplain rfl])⟩
  · cases hitem : j.starting? i with
    | none =>
        rw [hplain hitem]
        exact ⟨hattempts, harrived⟩
    | some item =>
        have hlog : (j.next i).log = j.log ++ [⟨item, j.office.transport, j.office.time⟩] := by
          show j.log ++ _ = _
          rw [hitem]
          rfl
        rw [hlog]
        show (j.office.transport.attempt item.delivery).1.attempts = _ ∧
          (j.office.transport.attempt item.delivery).1.arrived = _
        obtain ⟨hcount, hrecord⟩ := j.office.transport.attempt_shows item.delivery
        rw [hcount, hrecord, hattempts, harrived, List.filter_append, List.map_append]
        refine ⟨by rw [List.length_append, List.length_singleton], ?_⟩
        by_cases hfate : j.office.transport.fate item.delivery.target = .arrived
        · simp [Start.fate, Start.delivery, hfate]
        · simp [Start.fate, Start.delivery, hfate]

theorem stalling_next (hfaithful : ∀ k, (j.books k).erase =
      (j.office.lane k, j.office.transport)) (i : Incident) {target : String}
    (h : j.office.transport.stalling.contains target = true) :
    (j.next i).office.transport.stalling.contains target = true := by
  rw [transport_next hfaithful]
  split
  · exact h
  · next other =>
    show (other :: j.office.transport.stalling).contains target = true
    rw [List.contains_cons, h, Bool.or_true]
  · cases j.starting? i with
    | none => exact h
    | some item =>
        show (j.office.transport.attempt item.delivery).1.stalling.contains target = true
        rw [Recorder.attempt]
        split
        · exact h
        · exact h

theorem aloft_next (h : j.Kept settings) (i : Incident) (k : Desk) :
    ∀ flight ∈ ((j.next i).books k).lane.aloft, ∃ s ∈ (j.next i).log,
      s.item = .ticket k flight.delivery ∧ s.fate = .stalled ∧
        flight.deadline.nanos = s.time.nanos + settings.deliveryTimeout.nanos := by
  intro flight hflight
  have hold : flight ∈ (j.books k).lane.aloft → ∃ s ∈ (j.next i).log,
      s.item = .ticket k flight.delivery ∧ s.fate = .stalled ∧
        flight.deadline.nanos = s.time.nanos + settings.deliveryTimeout.nanos := by
    intro hold
    obtain ⟨s, hs, hitem, hfate, hdeadline⟩ := h.aloft k flight hold
    exact ⟨s, List.mem_append_left _ hs, hitem, hfate, hdeadline⟩
  change flight ∈ ((j.books k).after (j.office.event? k i)).lane.aloft at hflight
  cases hevent : j.office.event? k i with
  | none =>
      rw [hevent] at hflight
      exact hold hflight
  | some e =>
      rw [hevent] at hflight
      cases e with
      | fanOut ds =>
          change flight ∈ ((j.books k).lane.queue _).aloft at hflight
          exact hold hflight
      | expire now => exact hold (FanOut.aloft_expire hflight).1
      | lapse now n => exact hold (FanOut.aloft_lapse hflight)
      | fail | stall => exact hold hflight
      -- Only a turn brings a delivery into the air, and the log has its start.
      | step now timeout =>
          obtain ⟨rfl, rfl, rfl⟩ := Office.event?_eq_step hevent
          rcases FanOut.aloft_step hflight with hbefore | ⟨t, hstart, hfate, -, rfl⟩
          · exact hold hbefore
          · have htransport : (j.books k).transport = j.office.transport :=
              congrArg Prod.snd (h.faithful k)
            refine ⟨⟨.ticket k t, j.office.transport, j.office.time⟩, ?_, rfl, ?_, ?_⟩
            · refine List.mem_append_right _ ?_
              rw [starting?, hstart]
              exact List.mem_singleton_self _
            · rw [htransport] at hfate
              exact hfate
            · show j.office.time.nanos + j.office.timeout.nanos = _
              rw [Office.timeout, h.fixed]

theorem Kept.next (h : j.Kept settings) (i : Incident) : (j.next i).Kept settings where
  fixed := (j.office.settings_meet i).trans h.fixed
  faithful := faithful_next h.faithful i
  -- Each ledger sees the incident as the event it is for its own lane, or not at all.
  balanced k := by
    show ((j.books k).after (j.office.event? k i)).lane.Balanced _
    cases j.office.event? k i with
    | none => exact h.balanced k
    | some e => exact Books.balanced_next (h.balanced k) e
  numbered k := by
    show ((j.books k).after (j.office.event? k i)).calls = (j.calls k ++ _).length
    rw [Books.calls_after, List.length_append, h.numbered k]
  orderly k := by
    obtain ⟨hplaced, hasked, hunasked⟩ :=
      (h.orderly k).after (h.numbered k) (j.office.event? k i)
    exact ⟨hplaced, hasked, hunasked⟩
  served k := by
    let after := (j.books k).after (j.office.event? k i)
    show after.lane.Served after.asked after.started
    dsimp only [after]
    cases j.office.event? k i with
    | none => exact h.served k
    | some e => exact Books.served_next (h.balanced k) (h.served k) e
  started := started_next h.started i
  awaited := by
    rw [filterMap_log_next Item.awaited? i, h.awaited, awaited_starting?]
    rfl
  attempts := (transport_log_next h.faithful i h.attempts h.arrived).1
  arrived := (transport_log_next h.faithful i h.attempts h.arrived).2
  -- Time only grows, and what starts now starts at the present time.
  past s hs := by
    refine Nat.le_trans ?_ (j.office.time_meet i)
    rcases mem_starting_log hs with hold | ⟨item, hitem, rfl⟩
    · exact h.past s hold
    · exact Nat.le_refl _
  stalled s hs hfate := by
    rcases mem_starting_log hs with hold | ⟨item, hitem, rfl⟩
    · exact stalling_next h.faithful i (h.stalled s hold hfate)
    · exact stalling_next h.faithful i (Recorder.fate_eq_stalled.mp hfate)
  aloft := aloft_next h i

/-- What holds of the books of a desk before and after one of its turns has been put first holds of
them after a turn of any desk has. -/
theorem books_prefer {p : Books → Prop} {k desk : Desk} {i : Nat} (hkeep : p (j.books desk))
    (hput : p { j.books desk with lane := (j.books desk).lane.prefer i }) :
    p ((j.prefer k i).books desk) := by
  simp only [Journal.prefer]
  split
  · exact hput
  · exact hkeep

theorem transport_prefer (j : Journal) (k : Desk) (i : Nat) :
    (j.prefer k i).office.transport = j.office.transport :=
  j.office.transport_withLane k _

theorem Kept.prefer (h : j.Kept settings) (k : Desk) (i : Nat) :
    (j.prefer k i).Kept settings where
  fixed := (j.office.settings_withLane k _).trans h.fixed
  faithful desk := by
    have hfaithful := h.faithful desk
    rw [transport_prefer]
    show _ = ((j.office.prefer k i).lane desk, _)
    rw [Office.prefer, Office.lane_withLane]
    simp only [Journal.prefer]
    split
    · next heq =>
      subst heq
      obtain ⟨hmap, hsame⟩ := Prod.mk.inj hfaithful
      rw [← hmap, ← hsame]
      exact Prod.ext (FanOut.map_prefer _ _ i) rfl
    · exact hfaithful
  -- The order of what is ready is all that changes, and no ledger but that of the lane sees it.
  balanced desk := books_prefer (p := fun b => b.lane.Balanced _) (h.balanced desk)
    ((h.balanced desk).prefer i)
  numbered desk := books_prefer (p := fun b => b.calls = _) (h.numbered desk) (h.numbered desk)
  orderly desk := books_prefer (p := fun b => b.Orderly _) (h.orderly desk)
    ((h.orderly desk).of_still rfl ((j.books desk).lane.unasked_prefer i))
  served desk := books_prefer (p := fun b => b.lane.Served b.asked b.started) (h.served desk)
    ((h.served desk).prefer i)
  started desk := books_prefer (p := fun b => b.started = _) (h.started desk) (h.started desk)
  awaited := h.awaited
  attempts := (congrArg Recorder.attempts (j.transport_prefer k i)).trans h.attempts
  arrived := (congrArg Recorder.arrived (j.transport_prefer k i)).trans h.arrived
  past s hs := by
    show s.time.nanos ≤ (j.office.prefer k i).time.nanos
    rw [Office.prefer, Office.time_withLane]
    exact h.past s hs
  stalled s hs hfate := by
    rw [transport_prefer]
    exact h.stalled s hs hfate
  aloft desk flight hflight := by
    refine h.aloft desk flight ?_
    exact books_prefer (p := fun b => flight ∈ b.lane.aloft → _) id id hflight

theorem Reachable.kept {supply : IdSupply} (h : Reachable settings supply j) :
    j.Kept settings := by
  induction h with
  | start => exact .start settings supply
  | next _ i ih => exact ih.next i
  | prefer _ k i ih => exact ih.prefer k i

/-! ## Where a ticket is -/

/-- Every ticket has started or is queued, and never both. -/
theorem Kept.tickets_perm (h : j.Kept settings) (k : Desk) :
    (j.started k ++ (j.books k).lane.queued).Perm (j.tickets k) := by
  obtain ⟨served, hasked, hserved⟩ := h.served k
  have hqueued := (j.books k).lane.queued_perm
  have hplaced := (h.orderly k).placed
  rw [hasked, List.append_assoc] at hplaced
  rw [h.started k] at hserved
  calc (j.started k ++ (j.books k).lane.queued).Perm _ := hqueued.append_left _
    _ |>.Perm _ := .of_eq (List.append_assoc ..).symm
    _ |>.Perm _ := hserved.symm.append_right _
    _ |>.Perm _ := hplaced

/-- A ticket starts once at most, whatever has become of it. -/
theorem Kept.nodup_started (h : j.Kept settings) (k : Desk) : (j.started k).Nodup :=
  ((h.tickets_perm k).nodup_iff.mpr (nodup_ticketsOfAll _)).of_append_left

end Journal
end Rollcall
