import Rollcall.Proofs.Registry.Entries
import Rollcall.Proofs.Timeline

/-!
# The table behind a timeline

Time may pass while a registration waits for its catch-up, and deliveries end, but the table stays as
it is: `sameTable_catchUp`. So what a request puts into the table is what the call that it stands for
puts there.

* `Reachable.coherent` — the table of every timeline is sound;
* `Enters.exists_body` — an entry that a request has put in is the registration in its body, under a
  new identifier.
-/

namespace Rollcall

open Http (Request)

/-! ## The fate of deliveries -/

/-- A delivery does not change what becomes of others. -/
theorem Recorder.fate_attempt (rec : Recorder) (d : Delivery) : (rec.attempt d).1.fate = rec.fate := by
  rw [attempt]
  cases rec.fate d.target with
  | arrived | refused | stalled => rfl

theorem FanOut.fate_run {δ : Type} [Parcel δ] (now : Instant) (timeout : Duration) (n : Nat)
    (lane : FanOut δ) (rec : Recorder) : (run now timeout n lane rec).2.fate = rec.fate := by
  induction n generalizing lane rec with
  | zero => rfl
  | succ n ih =>
      refine (ih _ _).trans ?_
      show (lane.step now timeout rec).2.fate = rec.fate
      rw [transport_step]
      split
      · exact rec.fate_attempt _
      · rfl

theorem FanOut.fate_settle {δ : Type} [Parcel δ] (now : Instant) (timeout : Duration)
    (lane : FanOut δ) (rec : Recorder) : (lane.settle now timeout rec).2.fate = rec.fate :=
  fate_run now timeout _ lane rec

/-! ## Soundness -/

theorem Office.coherent_meet {o : Office} (h : o.registry.Coherent) (i : Incident) :
    (o.meet i).registry.Coherent := by
  cases i with
  | act x => exact h.act x
  | turn desk | expire desk | lapse desk =>
      cases desk with
      | own => exact ⟨h.sound, h.minted⟩
      | side => exact h
  | _ => exact h

theorem Office.coherent_run {o : Office} (h : o.registry.Coherent) (incidents : List Incident) :
    (o.run incidents).registry.Coherent := by
  induction incidents generalizing o with
  | nil => exact h
  | cons i incidents ih => exact ih (Office.coherent_meet h i)

namespace Timeline

variable {settings : RegistrySettings} {key : AccessKey} {supply : IdSupply} {t : Timeline}

/-- The table of a timeline is sound. -/
theorem Reachable.coherent (h : t.Reachable settings key supply) : t.registry.Coherent := by
  obtain ⟨incidents, hrun, -⟩ := h.exists_run
  have hcoherent := Office.coherent_run (o := .start settings supply) (.empty settings supply) incidents
  rw [← hrun] at hcoherent
  exact hcoherent

/-! ## Waiting -/

/-- Whether only time, the deliveries under way and what has arrived tell two timelines apart. -/
structure Undisturbed (t after : Timeline) : Prop where
  registry : after.registry = { t.registry with lane := after.registry.lane }
  fate : after.transport.fate = t.transport.fate
  key : after.key = t.key

theorem Undisturbed.refl (t : Timeline) : t.Undisturbed t := ⟨rfl, rfl, rfl⟩

theorem Undisturbed.trans {mid after : Timeline} (h : t.Undisturbed mid)
    (hrest : mid.Undisturbed after) : t.Undisturbed after := by
  refine ⟨?_, hrest.fate.trans h.fate, hrest.key.trans h.key⟩
  rw [hrest.registry, h.registry]

theorem undisturbed_settle (t : Timeline) : t.Undisturbed t.settle := by
  refine ⟨rfl, ?_, rfl⟩
  exact (FanOut.fate_settle _ _ _ _).trans (FanOut.fate_settle _ _ _ _)

theorem undisturbed_passTo (target : Instant) (n : Nat) (t : Timeline) :
    t.Undisturbed (passTo target n t) := by
  induction n generalizing t with
  | zero => exact .refl t
  | succ n ih =>
      rw [passTo]
      split
      · exact .refl t
      · next next _ =>
        split
        · have hended : t.Undisturbed (t.ended next) := ⟨rfl, rfl, rfl⟩
          exact (hended.trans (undisturbed_settle _)).trans (ih _)
        · exact .refl t

theorem undisturbed_advance (t : Timeline) (span : Duration) : t.Undisturbed (t.advance span) := by
  have hpassed := (undisturbed_settle t).trans
    (undisturbed_passTo ⟨t.time.nanos + span.nanos⟩ t.settle.outstanding t.settle)
  exact ⟨hpassed.registry, hpassed.fate, hpassed.key⟩

theorem undisturbed_deliver (t : Timeline) (d : Delivery) : t.Undisturbed (t.deliver d).1 := by
  have hattempted : t.Undisturbed { t with transport := (t.transport.attempt d).1 } :=
    ⟨rfl, t.transport.fate_attempt d, rfl⟩
  unfold deliver
  cases hattempt : t.transport.attempt d with
  | mk transport attempt =>
      rw [hattempt] at hattempted
      cases attempt with
      | arrived | refused => exact hattempted
      | stalled => exact hattempted.trans (undisturbed_advance _ _)

theorem undisturbed_catchUp (t : Timeline) (e : Enrolment) : t.Undisturbed (t.catchUp e).1 := by
  unfold catchUp
  split
  · exact .refl t
  · exact undisturbed_deliver t _

/-- Whether two timelines have the same directory and the same key, whatever else has happened. -/
structure SameTable (t after : Timeline) : Prop where
  directory : after.registry.directory = t.registry.directory
  key : after.key = t.key

/-- Nobody comes or goes while a catch-up is awaited. -/
theorem sameTable_catchUp (t : Timeline) (e : Enrolment) : t.SameTable (t.catchUp e).1 := by
  obtain ⟨hregistry, -, hkey⟩ := undisturbed_catchUp t e
  exact ⟨by rw [hregistry], hkey⟩

end Timeline

/-! ## Entering -/

/-- What a registration puts into the table is itself, under a new identifier. -/
theorem Registry.mem_entries_register {r enrolled : Registry} {reg entry : Registration}
    {now : Instant} {e : Enrolment} (h : r.register reg now = .ok (enrolled, e))
    (hentry : entry ∈ enrolled.directory.entries) :
    entry ∈ r.directory.entries ∨ reg.validate = .ok () ∧ entry = { reg with id := r.nextId } := by
  have hperform : r.perform (.register reg now) = enrolled := by
    rw [perform, h]
  rw [← hperform] at hentry
  refine (mem_entries_perform hentry).imp id ?_
  rintro ⟨submitted, hsub, hinserted, rfl⟩
  rw [Operation.submission?] at hsub
  split at hsub
  · next hvalid =>
    obtain rfl := Option.some.inj hsub
    exact ⟨hvalid, by rw [enroll_of_inserted hinserted]⟩
  · cases hsub

/-- A request that registers brings the registration in its body. -/
theorem Registry.Api.of_visit?_register {key : AccessKey} {request : Request} {reg : Registration}
    (h : visit? key request = some (.register reg)) :
    Registration.ofBytes? request.body = some reg ∧ request.body.length ≤ Http.bodyLimit := by
  have hregistering : registering? key request = some (.register reg) := by
    unfold visit? leaving? beating? at h
    grind
  unfold registering? Request.takeBody at hregistering
  by_cases hsize : Http.bodyLimit < request.body.length
  · rw [if_pos hsize] at hregistering
    cases hregistering
  · rw [if_neg hsize] at hregistering
    obtain ⟨-, hread⟩ := Option.ite_none_right_eq_some.mp hregistering
    obtain ⟨read, hbody, heq⟩ := Option.map_eq_some_iff.mp hread
    obtain rfl := Visit.register.inj heq
    exact ⟨hbody, Nat.le_of_not_lt hsize⟩

namespace Timeline

variable {t : Timeline} {request : Request} {entry : Registration}

/-- An entry that is new to the table once a request has been served is the registration in the
body of that request. -/
theorem exists_body_of_new (habsent : entry ∉ t.registry.directory.entries)
    (hpresent : entry ∈ (t.serve request).1.registry.directory.entries) :
    ∃ reg, Registration.ofBytes? request.body = some reg ∧ request.body.length ≤ Http.bodyLimit ∧
      reg.validate = .ok () ∧ entry = { reg with id := t.registry.nextId } := by
  have hcomes := Registry.Api.comes_serve t.key t.registry t.clock request
  rw [serve] at hpresent
  generalize hvisit : Registry.Api.visit? t.key request = v?,
    Registry.Api.serve t.key t.registry t.clock request = done at hcomes hpresent
  cases hcomes with
  | unread reply => exact absurd hpresent habsent
  | refused reg e hrefused reply => exact absurd hpresent habsent
  | operated v hsilent reply =>
      rcases Registry.mem_entries_perform hpresent with hold | ⟨reg, hsub, -⟩
      · exact absurd hold habsent
      · cases v with
        | register reg => exact absurd rfl (hsilent reg)
        | _ => cases hsub
  | enrolled reg enrolled e henrolled =>
      dsimp only at hpresent
      rw [(sameTable_catchUp _ _).directory] at hpresent
      obtain ⟨hbody, hsize⟩ := Registry.Api.of_visit?_register hvisit
      obtain ⟨hvalid, hentry⟩ :=
        (Registry.mem_entries_register henrolled hpresent).resolve_left habsent
      exact ⟨reg, hbody, hsize, hvalid, hentry⟩

/-- A request that is answered with 200 puts an entry into the table. -/
structure Enters (t : Timeline) (request : Request) (entry : Registration) : Prop where
  granted : (t.serve request).2.status = .ok
  absent : entry ∉ t.registry.directory.entries
  present : entry ∈ (t.serve request).1.registry.directory.entries

theorem Enters.exists_body (h : t.Enters request entry) :
    ∃ reg, Registration.ofBytes? request.body = some reg ∧ request.body.length ≤ Http.bodyLimit ∧
      reg.validate = .ok () ∧ entry = { reg with id := t.registry.nextId } :=
  exists_body_of_new h.absent h.present

end Timeline
end Rollcall
