import Rollcall.Proofs.Membership.Occasion

/-!
# Whoever comes too late

A call that comes after the member has left, or whose registration is acknowledged after that, has one
step left before it is over, `Call.Concludes`, and that step asks nothing.

* `Agenda.boundTo_of_make` — of a call that is made too late;
* `Agenda.boundTo_of_acknowledged` — of a registration that is acknowledged too late.
-/

namespace Rollcall

/-- A call that can do no more than end so once the member has left: it has ended, or its next step
ends it, whatever it may hear before. -/
def Call.Concludes (c : Call) (reg : Registration) (outcome : Outcome) : Prop :=
  c.outcome? = some outcome ∨
    (∀ now period signal, c.react now period signal = none) ∧
    ∀ cancelled m, m.standing = .terminated → m.registration = reg →
      c.step cancelled m = some (c.goTo m (.ended outcome))

/-- How a registration ends that the member is too late for: with what it lacks, or as if it had
been cancelled. -/
def Registration.refusal (reg : Registration) : MemberError :=
  match reg.validate with
  | .error e => .input e
  | .ok () => .cancelled

/-- How a call ends whose registration is cancelled. A heartbeat loop stops and reports nothing. -/
def Goal.cancelled : Goal → Outcome
  | keepAlive _ => .stopped
  | _ => .failed .cancelled

namespace Call

variable {reg : Registration} {outcome : Outcome}

theorem concludes_register (reg : Registration) :
    register.Concludes reg (.failed reg.refusal) := by
  refine Or.inr ⟨fun _ _ _ => rfl, fun cancelled m hm hreg => ?_⟩
  subst hreg
  show some (register.enter m) = _
  unfold enter Registration.refusal
  cases m.registration.validate with
  | error e => rfl
  | ok valid =>
      dsimp only
      rw [if_pos hm]
      rfl

theorem concludes_heartbeat (reg : Registration) : heartbeat.Concludes reg .done := by
  refine Or.inr ⟨fun _ _ _ => rfl, fun cancelled m hm _ => ?_⟩
  simp only [step, heartbeat, hm, Standing.id?]
  rfl

theorem concludes_acknowledged (reg : Registration) (goal : Goal) (id : InstanceId) :
    Concludes ⟨goal, .acknowledged id⟩ reg goal.cancelled := by
  refine Or.inr ⟨fun _ _ _ => rfl, fun cancelled m hm _ => ?_⟩
  show some (adopt _ m id) = _
  rw [adopt, if_pos hm]
  cases goal with
  | _ => rfl

theorem Concludes.react {c : Call} (h : c.Concludes reg outcome) {now : Instant}
    {period : Duration} {signal : Signal} : c.react now period signal = none := by
  rcases h with hended | ⟨hdeaf, -⟩
  · obtain ⟨goal, stage⟩ := c
    cases stage with
    | ended => rfl
    | _ => cases hended
  · exact hdeaf now period signal

theorem Concludes.step {c : Call} (h : c.Concludes reg outcome) {cancelled : Bool} {m : Member}
    {move : Move} (hm : m.standing = .terminated) (hreg : m.registration = reg)
    (hstep : c.step cancelled m = some move) :
    move.call.outcome? = some outcome ∧ move.inquiry? = none := by
  rcases h with hended | ⟨-, hstops⟩
  · obtain ⟨goal, stage⟩ := c
    cases stage with
    | ended => cases hstep
    | _ => cases hended
  · rw [hstops cancelled m hm hreg] at hstep
    obtain rfl := Option.some.inj hstep
    exact ⟨rfl, rfl⟩

end Call

namespace Agenda

variable {a : Agenda} {i : Nat} {outcome : Outcome}

/-- A call of the agenda can do no more than end so, whatever happens. -/
def Concludes (a : Agenda) (i : Nat) (outcome : Outcome) : Prop :=
  ∃ c, a.calls[i]? = some c ∧ c.Concludes a.member.registration outcome

/-- The call has asked nothing since. -/
def Silent (a after : Agenda) (i : Nat) : Prop :=
  ∃ new, after.asked = a.asked ++ new ∧ ∀ q ∈ new, q.call ≠ i

theorem Silent.trans {mid after : Agenda} (h : a.Silent mid i) (hrest : mid.Silent after i) :
    a.Silent after i := by
  obtain ⟨new, hnew, hother⟩ := h
  obtain ⟨more, hmore, hlater⟩ := hrest
  refine ⟨new ++ more, ?_, fun q hq => ?_⟩
  · rw [hmore, hnew, List.append_assoc]
  · rcases List.mem_append.mp hq with hq | hq
    · exact hother q hq
    · exact hlater q hq

theorem silent_of_same {after : Agenda} (h : after.asked = a.asked) : a.Silent after i :=
  ⟨[], by rw [h, List.append_nil], fun _ h => absurd h List.not_mem_nil⟩

theorem Concludes.next (hm : a.member.standing = .terminated) (h : a.Concludes i outcome)
    {o : Occasion} (hdrop : o ≠ .drop i) : (a.next o).Concludes i outcome := by
  obtain ⟨c, hc, hcall⟩ := h
  have hi := (List.getElem?_eq_some_iff.mp hc).1
  obtain ⟨after, hafter⟩ : ∃ after, (a.next o).calls[i]? = some after :=
    ⟨_, List.getElem?_eq_getElem (Nat.lt_of_lt_of_le hi (length_calls_next a o))⟩
  refine ⟨after, hafter, ?_⟩
  rw [registration_next]
  -- The call has concluded or is about to, and whatever comes it can only go on to conclude.
  cases becomes_of_next hafter with
  | stays o hbefore =>
      rw [hc] at hbefore
      obtain rfl := Option.some.inj hbefore
      exact hcall
  | made op hnew => exact absurd hnew (Nat.ne_of_lt hi)
  | dropped => exact absurd rfl hdrop
  | moved heeds hbefore hstep =>
      rw [hc] at hbefore
      obtain rfl := Option.some.inj hbefore
      exact Or.inl (hcall.step hm rfl hstep).1
  | heard now period signal hbefore hreact =>
      rw [hc] at hbefore
      obtain rfl := Option.some.inj hbefore
      rw [hcall.react] at hreact
      cases hreact

theorem Concludes.silent (hm : a.member.standing = .terminated) (h : a.Concludes i outcome)
    (o : Occasion) : a.Silent (a.next o) i := by
  obtain ⟨c, hc, hcall⟩ := h
  have hcomes := comes_next a o
  generalize a.next o = after at hcomes ⊢
  cases hcomes with
  | moved hmover hstep =>
      refine ⟨_, rfl, fun q hq => ?_⟩
      obtain ⟨inquiry, hinquiry, rfl⟩ := Option.map_eq_some_iff.mp (Option.mem_toList.mp hq)
      rintro rfl
      rw [hc] at hmover
      obtain rfl := Option.some.inj hmover
      rw [(hcall.step hm rfl hstep).2] at hinquiry
      cases hinquiry
  | _ => exact silent_of_same rfl

theorem Concludes.run (hm : a.member.standing = .terminated) (h : a.Concludes i outcome)
    {occasions : List Occasion} (hdrop : .drop i ∉ occasions) :
    (a.run occasions).Concludes i outcome ∧ a.Silent (a.run occasions) i := by
  induction occasions generalizing a with
  | nil => exact ⟨h, silent_of_same rfl⟩
  | cons o occasions ih =>
      have hnext := h.next hm (fun ho => hdrop (ho ▸ List.mem_cons_self))
      have hstays := (windsUp_next hm o).standing
      obtain ⟨hends, hsilent⟩ := ih hstays hnext fun ho => hdrop (List.mem_cons_of_mem _ ho)
      exact ⟨hends, (h.silent hm o).trans hsilent⟩

/-- Unless nobody waits for it any more, the call asks nothing from now on, ends in no other way, and
has ended after its next step at the latest. -/
def BoundTo (a : Agenda) (i : Nat) (outcome : Outcome) : Prop :=
  ∀ more, .drop i ∉ more → a.Silent (a.run more) i ∧
    (∀ ending, (a.run more).calls[i]?.bind Call.outcome? = some ending → ending = outcome) ∧
    ∀ heeds, ((a.run more).next (.step i heeds)).calls[i]?.bind Call.outcome? = some outcome

theorem Concludes.ending (hm : a.member.standing = .terminated) (h : a.Concludes i outcome) :
    ∀ ending, a.calls[i]?.bind Call.outcome? = some ending → ending = outcome := by
  obtain ⟨c, hc, hcall⟩ := h
  intro ending hending
  rw [hc, Option.bind_some] at hending
  rcases hcall with hended | ⟨-, hstops⟩
  · rw [hended] at hending
    exact (Option.some.inj hending).symm
  · -- A call that has ended makes no step.
    obtain ⟨goal, stage⟩ := c
    have hstep := hstops false a.member hm rfl
    cases stage with
    | ended => cases hstep
    | _ => cases hending

theorem Concludes.step (hm : a.member.standing = .terminated) (h : a.Concludes i outcome)
    (heeds : Bool) :
    (a.next (.step i heeds)).calls[i]?.bind Call.outcome? = some outcome := by
  obtain ⟨c, hc, hcall⟩ := h
  rcases hcall with hended | ⟨-, hstops⟩
  · have hstill (cancelled : Bool) : c.step cancelled a.member = none := by
      obtain ⟨goal, stage⟩ := c
      cases stage with
      | ended => rfl
      | _ => cases hended
    simp only [Agenda.next, hc, Option.bind_some, hstill]
    exact hended
  · simp only [Agenda.next, hc, Option.bind_some, hstops _ a.member hm rfl, enter]
    rw [getElem?_set_self hc]
    rfl

theorem Concludes.boundTo (hm : a.member.standing = .terminated) (h : a.Concludes i outcome) :
    a.BoundTo i outcome := by
  intro more hdrop
  have hstays := (windsUp_run hm more).standing
  obtain ⟨hends, hsilent⟩ := h.run hm hdrop
  exact ⟨hsilent, hends.ending hstays, hends.step hstays⟩

theorem boundTo_of_make (hm : a.member.standing = .terminated) {o : Opening}
    (h : o.call.Concludes a.member.registration outcome) :
    (a.next (.make o)).BoundTo a.calls.length outcome := by
  have hends : (a.next (.make o)).Concludes a.calls.length outcome := by
    refine ⟨o.call, ?_, h⟩
    show (a.calls ++ [o.call])[a.calls.length]? = _
    rw [List.getElem?_append_right (Nat.le_refl _), Nat.sub_self]
    rfl
  exact hends.boundTo hm

theorem boundTo_of_acknowledged (hm : a.member.standing = .terminated) {goal : Goal}
    (hc : a.calls[i]? = some ⟨goal, .awaitingAnswer⟩) (now : Instant) (period : Duration)
    (id : InstanceId) :
    (a.next (.hear i now period (.answered (.ok id)))).BoundTo i goal.cancelled := by
  have hends : (a.next (.hear i now period (.answered (.ok id)))).Concludes i
      goal.cancelled := by
    refine ⟨⟨goal, .acknowledged id⟩, ?_, Call.concludes_acknowledged _ goal id⟩
    simp only [next, hc, Option.bind_some, Call.react]
    exact getElem?_set_self hc
  exact hends.boundTo (windsUp_next hm _).standing

end Agenda
end Rollcall
