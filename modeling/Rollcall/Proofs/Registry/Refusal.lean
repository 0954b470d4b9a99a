import Rollcall.Proofs.Registry.Requests
import Rollcall.Registry.Timeline

/-!
# Whoever is refused has changed nothing

A request passes many checks, and some of them come late: an entry has to be looked up before it turns
out not to be there. Nothing is done before the last of them is passed.

* `Registry.Api.Handled.unchanged` — a refusal leaves the registry as it was;
* `Timeline.refused_changes_nothing` — and everything else too, and only a catch-up that does not
  arrive is the registry's own fault.
-/

namespace Rollcall

open Http (Reply Request Status)

theorem Registry.settings_register {r after : Registry} {now : Instant} {reg : Registration}
    {enrolment : Enrolment} (h : r.register reg now = .ok (after, enrolment)) :
    after.settings = r.settings := by
  rw [register] at h
  split at h
  · cases h
  · obtain ⟨rfl, -⟩ := Prod.mk.inj (Except.ok.inj h)
    rfl

namespace Registry.Api

variable {key : AccessKey} {r : Registry} {now : Instant} {request : Request}

/-! ## Replies -/

/-- The reply to a request, given what becomes of the catch-up that it may wait for. Whoever
delivers is thereby left open. -/
def Handling.reply (outcome : Delivery → Option DeliveryFault) : Handling → Reply
  | .answered reply => reply
  | .enrolling e => conclude e (e.catchUp?.bind outcome)

/-- A registration that has been admitted is granted, or its catch-up has not arrived. -/
theorem reply_enrolling (e : Enrolment) (outcome : Delivery → Option DeliveryFault) :
    ((Handling.enrolling e).reply outcome).status = .ok ∧ e.catchUp?.bind outcome = none ∨
    ((Handling.enrolling e).reply outcome).status = .internalServerError ∧
      ∃ d fault, e.catchUp? = some d ∧ outcome d = some fault := by
  cases hcatchUp : e.catchUp? with
  | none =>
      refine .inl ⟨?_, rfl⟩
      simp only [Handling.reply, conclude, Enrolment.conclude, hcatchUp]
  | some d =>
      rw [Option.bind_some]
      cases hfault : outcome d with
      | none =>
          refine .inl ⟨?_, rfl⟩
          simp only [Handling.reply, conclude, Enrolment.conclude, hcatchUp, Option.bind_some, hfault]
      | some fault =>
          refine .inr ⟨?_, d, fault, rfl, hfault⟩
          simp only [Handling.reply, conclude, Enrolment.conclude, hcatchUp, Option.bind_some, hfault]
          rfl

variable {v? : Option Visit} {done : Registry × Handling} {outcome : Delivery → Option DeliveryFault}

/-- Whoever is refused, or only reads, has changed nothing: what was done is a reply, and that is
all. -/
theorem Handled.unchanged (h : Handled key r now request v? done)
    (hrefused : (done.2.reply outcome).status.BlamesRequest ∨ request.Reads) :
    ∃ reply, done = (r, .answered reply) := by
  cases h with
  | unread reply => exact ⟨reply, rfl⟩
  | answered reply => exact ⟨reply, rfl⟩
  | refused reg e h reply => exact ⟨reply, rfl⟩
  | missed v hsilent h reply => exact ⟨reply, rfl⟩
  | granted v hsilent after h reply hok hwrites =>
      have hblames := hrefused.resolve_right hwrites
      rw [Handling.reply, hok] at hblames
      exact absurd hblames (by decide)
  | enrolled reg hsubmits enrolled e hdone =>
      have hblames := hrefused.resolve_right (Request.not_reads_of_post hsubmits.method)
      rcases reply_enrolling e outcome with ⟨hok, -⟩ | ⟨hfailed, -⟩
      · rw [hok] at hblames
        exact absurd hblames (by decide)
      · rw [hfailed] at hblames
        exact absurd hblames (by decide)

/-- If the registry is to blame, then for a catch-up that has not arrived. -/
theorem Handled.of_blamesServer (h : Handled key r now request v? done)
    (hblames : (done.2.reply outcome).status.BlamesServer) :
    ∃ reg enrolled e d fault, Submits key request reg ∧
      r.register reg now = .ok (enrolled, e) ∧ e.catchUp? = some d ∧ outcome d = some fault := by
  cases h with
  | unread reply h => exact absurd hblames h.not_blamesServer
  | refused reg e hrefused reply h => exact absurd hblames h.not_blamesServer
  | missed v hsilent hmissed reply h => exact absurd hblames h.not_blamesServer
  | answered reply hok =>
      rw [Handling.reply, hok] at hblames
      exact absurd hblames (by decide)
  | granted v hsilent after h reply hok =>
      rw [Handling.reply, hok] at hblames
      exact absurd hblames (by decide)
  | enrolled reg hsubmits enrolled e hdone =>
      rcases reply_enrolling e outcome with ⟨hok, -⟩ | ⟨-, d, fault, hcatchUp, hfault⟩
      · rw [hok] at hblames
        exact absurd hblames (by decide)
      · exact ⟨reg, enrolled, e, d, fault, hsubmits, hdone, hcatchUp, hfault⟩

/-- The registry is to blame exactly if a catch-up does not arrive. Its key, its directory and its
clock play no part in that. -/
theorem blamesServer_iff (key : AccessKey) (r : Registry) (now : Instant) (request : Request)
    (outcome : Delivery → Option DeliveryFault) :
    ((serve key r now request).2.reply outcome).status.BlamesServer ↔
      ∃ reg enrolled e d fault, Submits key request reg ∧
        r.register reg now = .ok (enrolled, e) ∧ e.catchUp? = some d ∧ outcome d = some fault := by
  refine ⟨(handled_serve key r now request).of_blamesServer, ?_⟩
  rintro ⟨reg, enrolled, e, d, fault, hsubmits, hdone, hcatchUp, hfault⟩
  rw [serve_of_submits hsubmits hdone]
  rcases reply_enrolling e outcome with ⟨-, hnone⟩ | ⟨hfailed, -⟩
  · rw [hcatchUp, Option.bind_some, hfault] at hnone
    cases hnone
  · rw [hfailed]
    exact Status.blamesServer_internalServerError

end Registry.Api

namespace Timeline

open Registry.Api (Submits)

/-- What becomes of a catch-up that a registration waits for, if the registry is this one. -/
def outcome (t : Timeline) (registry : Registry) (d : Delivery) : Option DeliveryFault :=
  ({ t with registry := registry }.deliver d).2

variable {t : Timeline} {request : Request}

/-- A reply is given when the catch-up has come to an end. -/
theorem reply_serve {registry : Registry} {handling : Registry.Api.Handling}
    (h : Registry.Api.serve t.key t.registry t.clock request = (registry, handling)) :
    (t.serve request).2 = handling.reply (t.outcome registry) := by
  rw [serve, h]
  cases handling with
  | answered reply => rfl
  | enrolling e =>
      dsimp only [Registry.Api.Handling.reply]
      rw [catchUp]
      cases e.catchUp? with
      | none => rfl
      | some d => rfl

theorem fault_of_deliver {d : Delivery} {fault : DeliveryFault} (h : (t.deliver d).2 = some fault) :
    fault = .refused ∨ fault = .timedOut t.deliveryTimeout := by
  unfold deliver at h
  cases hattempt : t.transport.attempt d with
  | mk transport attempt =>
      rw [hattempt] at h
      cases attempt with
      | arrived => cases h
      | refused => exact .inl (Option.some.inj h).symm
      | stalled => exact .inr (Option.some.inj h).symm

/-- A request that is refused, or only reads, leaves everything as it was, the clocks and what is
queued included. -/
theorem serve_unchanged (hrefused : (t.serve request).2.status.BlamesRequest ∨ request.Reads) :
    (t.serve request).1 = t := by
  have hhandled := Registry.Api.handled_serve t.key t.registry t.clock request
  cases hdone : Registry.Api.serve t.key t.registry t.clock request with
  | mk registry handling =>
      rw [hdone] at hhandled
      rw [reply_serve hdone] at hrefused
      obtain ⟨reply, heq⟩ := hhandled.unchanged hrefused
      rw [serve, hdone, heq]

/-- The registry is to blame exactly if a catch-up fails or takes too long. -/
theorem blamesServer_serve_iff : (t.serve request).2.status.BlamesServer ↔
    ∃ reg registry e d fault, Submits t.key request reg ∧
      t.registry.register reg t.clock = .ok (registry, e) ∧ e.catchUp? = some d ∧
      ({ t with registry := registry }.deliver d).2 = some fault ∧
      (fault = .refused ∨ fault = .timedOut t.deliveryTimeout) := by
  cases hdone : Registry.Api.serve t.key t.registry t.clock request with
  | mk registry handling =>
      have hblames := Registry.Api.blamesServer_iff t.key t.registry t.clock request
        (t.outcome registry)
      rw [hdone] at hblames
      rw [reply_serve hdone, hblames]
      constructor
      · rintro ⟨reg, enrolled, e, d, fault, hsubmits, hregister, hcatchUp, hfault⟩
        have heq := Registry.Api.serve_of_submits hsubmits hregister
        rw [hdone] at heq
        obtain ⟨rfl, -⟩ := Prod.mk.inj heq
        have hwhich := fault_of_deliver (t := { t with registry := registry }) hfault
        rw [deliveryTimeout, Registry.settings_register hregister] at hwhich
        exact ⟨reg, registry, e, d, fault, hsubmits, hregister, hcatchUp, hfault, hwhich⟩
      · rintro ⟨reg, enrolled, e, d, fault, hsubmits, hregister, hcatchUp, hfault, -⟩
        have heq := Registry.Api.serve_of_submits hsubmits hregister
        rw [hdone] at heq
        obtain ⟨rfl, -⟩ := Prod.mk.inj heq
        exact ⟨reg, registry, e, d, fault, hsubmits, hregister, hcatchUp, hfault⟩

/-- A request that is refused, or only reads, leaves everything as it was: the table, the signs of
life, the deliveries and what has arrived. The registry is to blame exactly for a registration with
the right key that is complete and whose catch-up fails or takes too long, and this whatever becomes
of a delivery. -/
theorem refused_changes_nothing (request : Request) :
    (∀ t : Timeline,
      ((t.serve request).2.status.BlamesRequest ∨ request.Reads → (t.serve request).1 = t) ∧
      ((t.serve request).2.status.BlamesServer ↔ ∃ reg registry e d fault,
        Submits t.key request reg ∧ t.registry.register reg t.clock = .ok (registry, e) ∧
        e.catchUp? = some d ∧ ({ t with registry := registry }.deliver d).2 = some fault ∧
        (fault = .refused ∨ fault = .timedOut t.deliveryTimeout))) ∧
    ∀ (key : AccessKey) (r : Registry) (now : Instant) (outcome : Delivery → Option DeliveryFault),
      (((Registry.Api.serve key r now request).2.reply outcome).status.BlamesRequest ∨
        request.Reads → (Registry.Api.serve key r now request).1 = r) ∧
      (((Registry.Api.serve key r now request).2.reply outcome).status.BlamesServer ↔
        ∃ reg registry e d fault, Submits key request reg ∧
          r.register reg now = .ok (registry, e) ∧ e.catchUp? = some d ∧ outcome d = some fault) := by
  refine ⟨fun t => ⟨serve_unchanged, blamesServer_serve_iff⟩, fun key r now outcome =>
    ⟨fun hrefused => ?_, Registry.Api.blamesServer_iff key r now request outcome⟩⟩
  obtain ⟨reply, hdone⟩ := (Registry.Api.handled_serve key r now request).unchanged hrefused
  rw [hdone]

/-- A stranger changes nothing. A web server that has the key, but cannot be told of the log that it
depends on, fails through no fault of its own. -/
theorem stranger_and_unreachable_web :
    let supply : IdSupply := .numbered 'i' [] [] 'd' (by decide) (by decide)
    let start := Timeline.start ⟨⟨60⟩, ⟨9⟩, ⟨9⟩, 1⟩ ⟨"k"⟩ supply
    let log : Registration := { role := .log, url := "http://p" }
    let web : Registration := {
      role := .web, url := "http://w", requires := .ofList [.log], updateUrl := "http://w/services" }
    let t : Timeline := { (start.add log).1 with
      transport := ({} : Recorder).fail "http://w/services" }
    let stranger : Request := ⟨"POST", ⟨none, "", Wire.servicesPath, none⟩, [], web.bytes⟩
    let request : Request := { stranger with headers := [⟨Wire.keyHeader, Text.Utf8.ofString "k"⟩] }
    (t.serve stranger).2.status.BlamesRequest ∧ (t.serve stranger).1 = t ∧
      (t.serve request).2.status.BlamesServer ∧ ∃ reg, Submits t.key request reg := by
  intro supply start log web t stranger request
  have hstranger : (t.serve stranger).2.status.BlamesRequest := by decide +kernel
  have hrequest : (t.serve request).2.status.BlamesServer := by decide +kernel
  obtain ⟨reg, -, -, -, -, hsubmits, -⟩ := ((refused_changes_nothing request).1 t).2.mp hrequest
  exact ⟨hstranger, ((refused_changes_nothing stranger).1 t).1 (.inl hstranger), hrequest, reg,
    hsubmits⟩

end Timeline
end Rollcall
