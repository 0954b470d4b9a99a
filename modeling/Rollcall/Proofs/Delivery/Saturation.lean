import Rollcall.Proofs.Delivery.Journal

/-!
# Saturation

A delivery of a fan-out is in progress as long as it holds a permit: when it is about to start, and
when it has stalled and its time is not up. Nobody waits for a permit while one is free. So once a
desk has settled, whoever still waits does so for stalled deliveries only, and these hold all
permits there are.

Main statement: `permits_and_isolation`, in whatever order the executor lets things run.
-/

namespace Rollcall

namespace FanOut

variable {δ ε : Type}

def inProgress (lane : FanOut δ) : Nat := lane.sends.length + lane.aloft.length

/-- Everything has run that can run without time moving: no turn is ready, and nothing that is aloft
is due. -/
structure Settled (lane : FanOut δ) (now : Instant) : Prop where
  idle : lane.ready = []
  inTime : ∀ flight ∈ lane.aloft, now.nanos < flight.deadline.nanos

theorem inProgress_map (f : δ → ε) (lane : FanOut δ) :
    (lane.map f).inProgress = lane.inProgress := by
  rw [inProgress, (lane.views_map f).2.2, List.length_map]
  show _ + (lane.aloft.map _).length = _
  rw [List.length_map]
  rfl

theorem settled_map {f : δ → ε} {lane : FanOut δ} {now : Instant} :
    (lane.map f).Settled now ↔ lane.Settled now := by
  constructor
  · intro h
    refine ⟨List.map_eq_nil_iff.mp h.idle, fun flight hflight => ?_⟩
    exact h.inTime _ (List.mem_map_of_mem hflight)
  · intro h
    refine ⟨List.map_eq_nil_iff.mpr h.idle, fun flight hflight => ?_⟩
    obtain ⟨flight', hflight', rfl⟩ := List.mem_map.mp hflight
    exact h.inTime flight' hflight'

variable {limit : Nat} {lane : FanOut δ}

theorem Balanced.inProgress_le (h : Balanced limit lane) : lane.inProgress ≤ limit := by
  have hpermits := h.holding_add_aloft_le
  simp only [holding, List.length_append] at hpermits
  unfold inProgress
  omega

theorem Settled.views {now : Instant} (h : lane.Settled now) :
    lane.sends = [] ∧ lane.queued = lane.line.flatMap Dispatcher.rest := by
  simp only [queued, asking, granted, sends, h.idle, List.filterMap_nil, List.nil_append]
  exact ⟨trivial, trivial⟩

/-- Whoever waits at a settled desk waits because all permits are aloft. -/
theorem Balanced.saturated (h : Balanced limit lane) {now : Instant} (hsettled : lane.Settled now)
    (hline : lane.line ≠ []) : lane.aloft.length = limit := by
  have hfree := h.sated hline
  have hpermits := h.permits
  rw [hsettled.idle, hfree] at hpermits
  simpa [total] using hpermits

theorem inTime_run [Parcel δ] {now : Instant} (timeout : Duration) (n : Nat) {lane : FanOut δ}
    (rec : Recorder) (h : ∀ flight ∈ lane.aloft, now.nanos < flight.deadline.nanos) :
    ∀ flight ∈ (run now timeout n lane rec).1.aloft, now.nanos < flight.deadline.nanos := by
  induction n generalizing lane rec with
  | zero => exact h
  | succ n ih =>
      refine ih _ fun flight hflight => ?_
      rcases aloft_step hflight with hold | ⟨d, -, -, htime, rfl⟩
      · exact h flight hold
      · exact Nat.lt_add_of_pos_right htime

end FanOut

/-- A desk settles without time moving: what is due ends, and everything ready runs. There is always
such a run, of some number of turns. -/
theorem Office.settles (o : Office) (k : Desk) :
    ∃ n, let after := o.run (.expire k :: List.replicate n (.turn k))
      (after.lane k).Settled after.time ∧ after.time = o.time := by
  have hlane : (o.meet (.expire k)).lane k = (o.lane k).expire o.time :=
    (o.lane_withLane k k _).trans (if_pos rfl)
  have htime : (o.meet (.expire k)).time = o.time := o.time_withLane k _
  have hrun : ∀ incidents, o.run (.expire k :: incidents) = (o.meet (.expire k)).run incidents :=
    fun _ => rfl
  -- First everything overdue is ended; then the weight of the lane bounds the turns that are left,
  -- as each of them takes some of it away.
  simp only [hrun]
  generalize o.meet (.expire k) = ended at hlane htime
  refine ⟨(ended.lane k).weight, ?_⟩
  have hturns := ended.run_turns k (ended.lane k).weight
  generalize ended.run _ = after at hturns ⊢
  have hsettled : after.lane k =
      (FanOut.run ended.time ended.timeout (ended.lane k).weight (ended.lane k)
        ended.transport).1 := by
    rw [hturns]
    exact (ended.lane_withLane k k _).trans (if_pos rfl)
  have hstill : after.time = ended.time := by
    rw [hturns]
    exact ended.time_withLane k _
  refine ⟨?_, hstill.trans htime⟩
  rw [hsettled, hstill]
  refine ⟨FanOut.ready_run _ _ _ _ _ (Nat.le_refl _), ?_⟩
  refine FanOut.inTime_run _ _ _ fun flight hflight => ?_
  rw [hlane] at hflight
  rw [htime]
  exact (FanOut.aloft_expire hflight).2

namespace Journal

variable {settings : RegistrySettings} {supply : IdSupply} {j : Journal}

/-- At a settled desk a ticket has started, or its dispatcher waits in the line. Nothing else can
hold it up. -/
theorem Kept.started_or_waits (h : j.Kept settings) {k : Desk} {now : Instant}
    (hsettled : (j.books k).lane.Settled now) {t : Ticket} (ht : t ∈ j.tickets k) :
    t ∈ j.started k ∨ t ∈ (j.books k).lane.line.flatMap Dispatcher.rest := by
  rw [← hsettled.views.2]
  exact List.mem_append.mp ((h.tickets_perm k).mem_iff.mpr ht)

/-- Whatever is aloft goes to a target that stalls, and has started so long before its deadline as
a delivery may take. -/
theorem Kept.start_of_aloft (h : j.Kept settings) {k : Desk} {flight : Flight Ticket}
    (hflight : flight ∈ (j.books k).lane.aloft) :
    j.office.transport.stalling.contains flight.delivery.delivery.target = true ∧
      ∃ s ∈ j.log, s.item = .ticket k flight.delivery ∧ s.time.nanos ≤ j.office.time.nanos ∧
        flight.deadline.nanos = s.time.nanos + settings.deliveryTimeout.nanos := by
  obtain ⟨s, hs, hitem, hfate, hdeadline⟩ := h.aloft k flight hflight
  have hstalled := h.stalled s hs hfate
  rw [Start.delivery, hitem] at hstalled
  exact ⟨hstalled, s, hs, hitem, h.past s hs, hdeadline⟩

/-- At a settled desk, whoever has not started waits for permits that are all aloft. -/
theorem Kept.saturated (h : j.Kept settings) {k : Desk} {now : Instant}
    (hsettled : (j.books k).lane.Settled now) {t : Ticket} (ht : t ∈ j.tickets k)
    (hnot : t ∉ j.started k) : (j.books k).lane.aloft.length = max 1 settings.maxInFlight := by
  have hwaits := (h.started_or_waits hsettled ht).resolve_left hnot
  refine (h.balanced k).saturated hsettled fun hnil => ?_
  rw [hnil] at hwaits
  cases hwaits

/-- What has started for a target that does not stall is over: it has arrived or has been refused,
and holds no permit. -/
theorem Kept.over_of_started (h : j.Kept settings) {k : Desk} {t : Ticket}
    (hstarted : t ∈ j.started k)
    (hstill : j.office.transport.stalling.contains t.delivery.target = false) :
    (∃ s ∈ j.log, s.item = .ticket k t ∧ s.fate ≠ .stalled) ∧
      ∀ flight ∈ (j.books k).lane.aloft, flight.delivery ≠ t := by
  constructor
  · obtain ⟨s, hs, hticket⟩ := List.mem_filterMap.mp hstarted
    have hitem := Item.ticketAt?_eq_some hticket
    refine ⟨s, hs, hitem, fun hfate => ?_⟩
    have hstalled := h.stalled s hs hfate
    rw [Start.delivery, hitem] at hstalled
    exact Bool.false_ne_true (hstill.symm.trans hstalled)
  · rintro flight hflight rfl
    exact Bool.false_ne_true (hstill.symm.trans (h.start_of_aloft hflight).1)

end Journal

/-- The permits of a desk, and who waits for them. At most all of them are in use. Once the desk has
settled, a ticket that has not started waits only if all permits are held by deliveries that have
stalled and started less than the timeout ago; and while fewer are, every ticket for a target that
does not stall has started and is over. A desk can always settle without time moving. -/
theorem permits_and_isolation {settings : RegistrySettings} {supply : IdSupply} {j : Journal}
    (h : j.Reachable settings supply) (k : Desk) :
    let limit := max 1 settings.maxInFlight
    let lane := j.office.lane k
    let flights := (j.books k).lane.aloft
    let stalls (d : Delivery) := j.office.transport.stalling.contains d.target
    (j.books k).lane.map Ticket.delivery = lane ∧ lane.inProgress ≤ limit ∧
    (lane.Settled j.office.time →
      (∀ t ∈ j.tickets k, t ∉ j.started k → lane.inProgress = limit ∧ flights.length = limit ∧
        ∀ flight ∈ flights, stalls flight.delivery.delivery = true ∧
          ∃ s ∈ j.log, s.item = .ticket k flight.delivery ∧
            s.time.nanos ≤ j.office.time.nanos ∧
            j.office.time.nanos < s.time.nanos + settings.deliveryTimeout.nanos) ∧
      ((flights.filter fun flight => stalls flight.delivery.delivery).length < limit →
        ∀ t ∈ j.tickets k, stalls t.delivery = false →
          (∃ s ∈ j.log, s.item = .ticket k t ∧ s.fate ≠ .stalled) ∧
            ∀ flight ∈ flights, flight.delivery ≠ t)) ∧
    ∃ n, let after := (j.run (.expire k :: List.replicate n (.turn k))).office
      (after.lane k).Settled after.time ∧ after.time = j.office.time := by
  intro limit lane flights stalls
  have hkept := h.kept
  have hlane : (j.books k).lane.map Ticket.delivery = lane := congrArg Prod.fst (hkept.faithful k)
  -- Read off the lane with its tickets, which shows the lane of the office once they are dropped.
  refine ⟨hlane, ?_, fun hsettled => ?_, ?_⟩
  · rw [← hlane, FanOut.inProgress_map]
    exact (hkept.balanced k).inProgress_le
  · rw [← hlane, FanOut.settled_map] at hsettled
    rw [← hlane, FanOut.inProgress_map]
    refine ⟨fun t ht hnot => ?_, fun hroom t ht hstill => ?_⟩
    · have hall := hkept.saturated hsettled ht hnot
      refine ⟨?_, hall, fun flight hflight => ?_⟩
      · rw [FanOut.inProgress, hsettled.views.1]
        exact (Nat.zero_add _).trans hall
      · obtain ⟨hstalls, s, hs, hitem, hpast, hdeadline⟩ := hkept.start_of_aloft hflight
        refine ⟨hstalls, s, hs, hitem, hpast, ?_⟩
        rw [← hdeadline]
        exact hsettled.inTime flight hflight
    -- Everything aloft stalls, so with room for more nobody waits.
    · rw [List.filter_eq_self.mpr fun flight hflight =>
        (hkept.start_of_aloft hflight).1] at hroom
      refine hkept.over_of_started ?_ hstill
      by_contra hnot
      exact absurd (hkept.saturated hsettled ht hnot) (Nat.ne_of_lt hroom)
  · obtain ⟨n, hn⟩ := j.office.settles k
    refine ⟨n, ?_⟩
    rw [Journal.office_run]
    exact hn

/-- One permit, and news for two web instances, the first of which stalls: three of the five that a
delivery may take have passed, and the second still waits. -/
theorem one_stalls_and_one_waits :
    let web (host : String) : Registration :=
      { role := .web, url := host, requires := RoleSet.ofList [.log], updateUrl := host ++ "/news" }
    let news : Patch := .ofAdded [{ role := .log, url := "http://p" }]
    let supply : IdSupply := .numbered 'i' [] [] 'd' (by decide) (by decide)
    let settings : RegistrySettings := ⟨⟨60⟩, ⟨60⟩, ⟨5⟩, 1⟩
    let j := (Journal.start settings supply).run [.stall "http://s/news",
      .fanOut news [web "http://s", web "http://r"], .turn .side, .turn .side, .turn .side,
      .wait ⟨3⟩]
    let t : Ticket := ⟨0, 1, ⟨"http://r/news", news⟩⟩
    (j.office.lane .side).Settled j.office.time ∧ t ∈ j.tickets .side ∧ t ∉ j.started .side ∧
      (j.office.lane .side).inProgress = 1 ∧ (j.books .side).lane.aloft.length = 1 ∧
      ∀ flight ∈ (j.books .side).lane.aloft, flight.delivery.delivery.target = "http://s/news" ∧
        ∃ s ∈ j.log, s.item = .ticket .side flight.delivery ∧
          s.time.nanos ≤ 3 ∧ 3 < s.time.nanos + 5 := by
  intro web news supply settings j t
  have hreachable : j.Reachable settings supply := Journal.Reachable.start.run _
  have hsettled : (j.office.lane .side).Settled j.office.time :=
    ⟨by decide +kernel, by decide +kernel⟩
  have ht : t ∈ j.tickets .side := by decide +kernel
  have hnot : t ∉ j.started .side := by decide +kernel
  obtain ⟨hlimit, hlength, hflights⟩ :=
    ((permits_and_isolation hreachable .side).2.2.1 hsettled).1 t ht hnot
  refine ⟨hsettled, ht, hnot, hlimit, hlength, fun flight hflight => ?_⟩
  obtain ⟨-, hstart⟩ := hflights flight hflight
  refine ⟨?_, hstart⟩
  have hall : ∀ flight ∈ (j.books .side).lane.aloft,
      flight.delivery.delivery.target = "http://s/news" := by decide +kernel
  exact hall flight hflight

end Rollcall
