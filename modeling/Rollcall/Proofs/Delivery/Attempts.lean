import Rollcall.Proofs.Delivery.InTurn
import Rollcall.Proofs.Delivery.Order

/-!
# Attempts

A delivery that a fan-out has queued is started once, whatever becomes of it, and one that is
awaited is started when it is made. So the attempts are all there is to deliver, less what is
queued, and the transport has recorded those that found their target neither failing nor stalling.

A fan-out gets its permits in the order of its recipients: its dispatcher asks for one at a time,
and permits are given in the order in which they are asked for. A delivery that has its permit is a
task of its own, and an executor may let a later one run first, `second_recipient_first`; so it is
the hand-outs that keep the order. The starts keep it if the executor lets run first what has become
ready first, and otherwise as far as permits are scarce.

Main statement: `attempted_once`.
-/

namespace Rollcall

namespace FanOut

variable {δ ε : Type}

theorem queued_map (f : δ → ε) (lane : FanOut δ) : (lane.map f).queued = lane.queued.map f := by
  obtain ⟨hasking, hgranted, hsends⟩ := lane.views_map f
  have hrest (xs : List (Dispatcher δ)) :
      (xs.map (Dispatcher.map f)).flatMap Dispatcher.rest =
        (xs.flatMap Dispatcher.rest).map f := by
    rw [List.flatMap_map, List.map_flatMap]
    rfl
  have hline : (lane.map f).line = lane.line.map (Dispatcher.map f) := rfl
  rw [queued, queued, hasking, hgranted, hsends, hline, ← List.map_append, ← List.map_append,
    hrest, ← List.map_append]

end FanOut

namespace Books

/-- The tickets that have been given a permit, in the order in which they have asked: all that have
asked, without the line. -/
def handed (b : Books) : List Ticket := b.asked.take (b.asked.length - b.lane.line.length)

theorem asked_eq {b : Books} (h : b.lane.Served b.asked b.started) :
    b.asked = b.handed ++ b.lane.line.map Dispatcher.next ∧
      b.handed.Perm (b.started ++ b.lane.holding) := by
  obtain ⟨served, hasked, hperm⟩ := h
  have hhanded : b.handed = served := by
    have hlength : b.asked.length - b.lane.line.length = served.length := by
      rw [hasked, List.length_append, List.length_map, Nat.add_sub_cancel]
    rw [handed, hlength, hasked, List.take_left]
  rw [hhanded]
  exact ⟨hasked, hperm⟩

end Books

namespace Journal

variable {settings : RegistrySettings} {supply : IdSupply} {j : Journal}

theorem length_tickets (j : Journal) (k : Desk) :
    (j.tickets k).length = ((j.calls k).map List.length).sum := by
  rw [tickets, ticketsOfAll, List.length_flatMap]
  congr 1
  rw [show (fun call : List Delivery × Nat => (ticketsOf call.2 call.1).length) =
    List.length ∘ Prod.fst from ?_, ← List.map_map, List.zipIdx_map_fst]
  funext call
  rw [ticketsOf, List.length_map, List.length_zipIdx]
  rfl

/-- Whatever starts is a ticket of one of the desks, or is awaited. -/
theorem length_log (j : Journal) : j.log.length =
    (j.started .own).length + (j.started .side).length +
      (j.log.filterMap (·.item.awaited?)).length := by
  unfold started
  induction j.log with
  | nil => rfl
  | cons s log ih =>
      simp only [List.length_cons, List.filterMap_cons, ih]
      rcases hitem : s.item with ⟨_ | _, t⟩ | d
      · simp [Item.ticketAt?, Item.awaited?]
        omega
      · simp [Item.ticketAt?, Item.awaited?]
        omega
      · simp [Item.ticketAt?, Item.awaited?]
        omega

/-- All there is to deliver: what every fan-out has counted when it was called, and every delivery
that is awaited. -/
def promised (j : Journal) : Nat :=
  ((j.calls .own).map List.length).sum + ((j.calls .side).map List.length).sum + j.awaited.length

/-- An attempt has been made of all there is to deliver, except what is queued. So attempts and
promises differ by a number that falls to nothing as soon as nothing is queued. -/
theorem Kept.attempts_add_queued (h : j.Kept settings) :
    j.office.transport.attempts +
      ((j.office.lane .own).queued.length + (j.office.lane .side).queued.length) = j.promised := by
  have hlane (k : Desk) : (j.started k).length + (j.office.lane k).queued.length =
      ((j.calls k).map List.length).sum := by
    have hmap : (j.books k).lane.map Ticket.delivery = j.office.lane k :=
      congrArg Prod.fst (h.faithful k)
    rw [← length_tickets, ← (h.tickets_perm k).length_eq, ← hmap, FanOut.queued_map,
      List.length_append, List.length_map]
  rw [h.attempts, length_log, h.awaited, promised, ← hlane .own, ← hlane .side]
  omega

/-! ## Order within a fan-out -/

/-- What is punctual among all deliveries is so among those of one call, which are asked for in the
order of the recipients. -/
theorem Punctual.call {limit : Nat} {asked started : List Ticket} (h : Punctual limit asked started)
    {call : Nat} {ds : List Delivery}
    (hasked : asked.filter (·.call = call) <+: ticketsOf call ds) {front back : List Ticket}
    {t : Ticket} (hstarted : started = front ++ t :: back) (ht : t.call = call) :
    ∃ before after, ticketsOf call ds = before ++ t :: after ∧
      (before.filter (· ∉ front)).length < limit := by
  obtain ⟨before, after, rfl, hfew⟩ := h front t back hstarted
  obtain ⟨rest, hrest⟩ := hasked
  rw [List.filter_append, List.filter_cons_of_pos (by simpa using ht)] at hrest
  refine ⟨before.filter (·.call = call), after.filter (·.call = call) ++ rest, ?_, ?_⟩
  · rw [← hrest]
    simp
  · refine Nat.lt_of_le_of_lt ?_ hfew
    exact ((List.filter_sublist (l := before)).filter _).length_le

/-- The order within a call, in every reachable journal: of asking and of the hand-outs, which is
that of the recipients, and of the starts, which may differ from it where deliveries hold permits at
the same time. -/
theorem Reachable.call_order (h : j.Reachable settings supply) {k : Desk} {call : Nat}
    {ds : List Delivery} (hcall : (j.calls k)[call]? = some ds) :
    (j.books k).asked.filter (·.call = call) <+: ticketsOf call ds ∧
    (j.books k).handed.filter (·.call = call) <+: ticketsOf call ds ∧
    (∀ front t back, j.started k = front ++ t :: back → t.call = call →
      ∃ before after, ticketsOf call ds = before ++ t :: after ∧
        (before.filter (· ∉ front)).length < max 1 settings.maxInFlight) ∧
    (settings.maxInFlight ≤ 1 → (j.started k).filter (·.call = call) <+: ticketsOf call ds) := by
  have hasked := (h.kept.orderly k).asked call ds hcall
  have hpunctual := h.punctual k
  rw [h.kept.started k] at hpunctual
  refine ⟨hasked, ?_, ?_, ?_⟩
  · exact ((List.take_prefix _ _).filter _).trans hasked
  · intro front t back hstarted ht
    exact hpunctual.call hasked hstarted ht
  · intro hone
    exact ((h.started_prefix k hone).filter _).trans hasked

end Journal

/-- Every delivery is attempted once. The attempts are at most what the fan-outs have counted and
what is awaited, and all of it once nothing is queued. What is recorded is what has started with its
target neither failing nor stalling. Whatever has become of a ticket, it does not start again.

Within a call, permits are asked for and handed out in the order of the recipients, and whatever has
been handed one has started or still holds it. With `limit` permits, fewer than `limit` recipients
that come before another one in their call are still to be attempted when it is attempted. So with
one permit deliveries start in the order of the recipients; and so they do with any number of them
when nothing is ever put first, that is when what has become ready first runs first. -/
theorem attempted_once {settings : RegistrySettings} {supply : IdSupply} {j : Journal}
    (h : j.Reachable settings supply) :
    let transport := j.office.transport
    let free (s : Start) := !s.transport.failing.contains s.delivery.target &&
      !s.transport.stalling.contains s.delivery.target
    let limit := max 1 settings.maxInFlight
    transport.attempts = j.log.length ∧ transport.attempts ≤ j.promised ∧
    ((∀ k, (j.office.lane k).queued = []) → transport.attempts = j.promised) ∧
    transport.arrived = (j.log.filter free).map (·.delivery) ∧
    j.log.filterMap (·.item.awaited?) = j.awaited ∧
    (∀ k, (j.started k ++ (j.books k).lane.queued).Perm (j.tickets k) ∧ (j.started k).Nodup) ∧
    (∀ k, (j.books k).asked = (j.books k).handed ++ (j.books k).lane.line.map Dispatcher.next ∧
      (j.books k).handed.Perm (j.started k ++ (j.books k).lane.holding)) ∧
    ∀ k call ds, (j.calls k)[call]? = some ds →
      (j.books k).asked.filter (·.call = call) <+: ticketsOf call ds ∧
      (j.books k).handed.filter (·.call = call) <+: ticketsOf call ds ∧
      (∀ front t back, j.started k = front ++ t :: back → t.call = call →
        ∃ before after, ticketsOf call ds = before ++ t :: after ∧
          (before.filter (· ∉ front)).length < limit) ∧
      (settings.maxInFlight ≤ 1 → (j.started k).filter (·.call = call) <+: ticketsOf call ds) ∧
      ∀ incidents, j = (Journal.start settings supply).run incidents →
        (j.started k).filter (·.call = call) <+: ticketsOf call ds := by
  intro transport free limit
  have hkept := h.kept
  have hsum := hkept.attempts_add_queued
  -- A delivery arrives exactly if its recipient neither refuses nor stalls at the start.
  have hfree (s : Start) : free s = decide (s.fate = .arrived) := by
    rw [Bool.eq_iff_iff, decide_eq_true_iff, Start.fate, Recorder.fate_eq_arrived]
    simp only [free, Bool.and_eq_true, Bool.not_eq_true']
  refine ⟨hkept.attempts, Nat.le_of_add_right_le (Nat.le_of_eq hsum), ?_, ?_, hkept.awaited,
    fun k => ⟨hkept.tickets_perm k, hkept.nodup_started k⟩, ?_, fun k call ds hcall => ?_⟩
  · intro hidle
    rw [hidle .own, hidle .side] at hsum
    exact hsum
  · rw [List.filter_congr fun s _ => hfree s]
    exact hkept.arrived
  · intro k
    rw [← hkept.started k]
    exact Books.asked_eq (hkept.served k)
  · obtain ⟨hasked, hhanded, hfew, hone⟩ := h.call_order hcall
    refine ⟨hasked, hhanded, hfew, hone, ?_⟩
    rintro incidents rfl
    exact Journal.started_in_turn settings supply incidents k hcall

/-- One permit, and news for three web instances. The first stalls until its time is up, the second
refuses, the third is told: three attempts, in this order, one arrival, and no second try. -/
theorem stalls_refuses_arrives :
    let web (host : String) : Registration :=
      { role := .web, url := host, requires := RoleSet.ofList [.log], updateUrl := host ++ "/news" }
    let news : Patch := .ofAdded [{ role := .log, url := "http://p" }]
    let supply : IdSupply := .numbered 'i' [] [] 'd' (by decide) (by decide)
    let settings : RegistrySettings := ⟨⟨60⟩, ⟨60⟩, ⟨5⟩, 1⟩
    let j := (Journal.start settings supply).run ([.stall "http://s/news", .fail "http://f/news",
      .fanOut news [web "http://s", web "http://f", web "http://r"], .turn .side, .turn .side,
      .turn .side, .wait ⟨5⟩, .expire .side] ++ List.replicate 6 (.turn .side))
    j.office.transport.attempts = 3 ∧
      j.office.transport.arrived = [⟨"http://r/news", news⟩] ∧
      (j.started .side).Nodup ∧ (j.started .side).filter (·.call = 0) <+: ticketsOf 0
        (deliveriesOf news [web "http://s", web "http://f", web "http://r"]) := by
  intro web news supply settings j
  have hreachable : j.Reachable settings supply := Journal.Reachable.start.run _
  have hcall : (j.calls .side)[0]? =
      some (deliveriesOf news [web "http://s", web "http://f", web "http://r"]) := by
    decide +kernel
  obtain ⟨-, -, hall, harrived, -, honce, -, horder⟩ := attempted_once hreachable
  obtain ⟨-, -, -, hprefix, -⟩ := horder .side 0 _ hcall
  refine ⟨?_, ?_, (honce .side).2, hprefix (by decide)⟩
  · refine (hall fun k => ?_).trans (by decide +kernel)
    cases k with
    | own => decide +kernel
    | side => decide +kernel
  · exact harrived.trans (by decide +kernel)

/-- Two permits, and news for two web instances. Both deliveries have their permits when the executor
lets the second run first: the starts are not in the order of the recipients. -/
theorem second_recipient_first :
    let web (host : String) : Registration :=
      { role := .web, url := host, requires := RoleSet.ofList [.log], updateUrl := host ++ "/news" }
    let news : Patch := .ofAdded [{ role := .log, url := "http://p" }]
    let supply : IdSupply := .numbered 'i' [] [] 'd' (by decide) (by decide)
    let settings : RegistrySettings := ⟨⟨60⟩, ⟨60⟩, ⟨5⟩, 2⟩
    let recipients := [web "http://x", web "http://r"]
    let handedOut := (Journal.start settings supply).run
      [.fanOut news recipients, .turn .side, .turn .side]
    let j := (handedOut.prefer .side 1).run [.turn .side]
    j.Reachable settings supply ∧ (j.calls .side)[0]? = some (deliveriesOf news recipients) ∧
      ¬ (j.started .side).filter (·.call = 0) <+: ticketsOf 0 (deliveriesOf news recipients) := by
  intro web news supply settings recipients handedOut j
  have hreachable : handedOut.Reachable settings supply := Journal.Reachable.start.run _
  refine ⟨(hreachable.prefer .side 1).run _, by decide +kernel, by decide +kernel⟩

end Rollcall
