import Rollcall.Proofs.Membership.Occasion

/-!
# Identifiers that are held

A member holds an identifier only after the registry has acknowledged a registration with it, and the
registry was asked for that registration by the very call that has heard the acknowledgement:
`Agenda.acknowledged_of_registered`. The invariant of the run is `Agenda.Issued`, which goes along with
an identifier from the answer to the member.
-/

namespace Rollcall

theorem Stage.Rests.awaits {stage : Stage} (h : stage.Rests) :
    (∀ id, stage ≠ .acknowledged id) ∧ stage ≠ .awaitingAnswer := by
  rcases h with rfl | ⟨outcome, rfl⟩
  · exact ⟨nofun, nofun⟩
  · exact ⟨nofun, nofun⟩

namespace Call

variable {cancelled : Bool} {goal : Goal} {stage after : Stage} {m m' : Member}
  {inquiry? : Option Inquiry}

theorem Steps.registered {id : InstanceId} (h : Steps cancelled m goal stage m' after inquiry?)
    (hafter : m'.standing = .registered id) :
    m.standing = .registered id ∨ stage = .acknowledged id := by
  cases h with
  | adopt id' =>
      obtain rfl := Standing.registered.inj hafter
      exact Or.inr rfl
  | begin | abandon | leave => cases hafter
  | _ => exact Or.inl hafter

theorem Steps.awaits (h : Steps cancelled m goal stage m' after inquiry?) :
    (∀ id, after ≠ .acknowledged id) ∧
      (after = .awaitingAnswer → inquiry? = some (.register m.registration)) := by
  cases h with
  | ask => exact ⟨nofun, fun _ => rfl⟩
  | refuse | tooLate | discard | adopt | abandon | abandonLate =>
      obtain ⟨hacknowledged, hawaiting⟩ := (Goal.rests_afterRegistration goal _).awaits
      exact ⟨hacknowledged, fun h => absurd h hawaiting⟩
  | skip =>
      obtain ⟨hacknowledged, hawaiting⟩ := (Goal.rests_afterBeat goal _).awaits
      exact ⟨hacknowledged, fun h => absurd h hawaiting⟩
  | _ => exact ⟨nofun, nofun⟩

variable {now : Instant} {period : Duration} {c call : Call} {signal : Signal}

theorem Hears.awaits (h : Hears now period c signal call) :
    (∀ id, call.stage = .acknowledged id → c.stage = .awaitingAnswer ∧ signal = .answered (.ok id)) ∧
      call.stage ≠ .awaitingAnswer := by
  cases h with
  | acknowledged goal id =>
      refine ⟨fun id' h => ?_, nofun⟩
      obtain rfl := Stage.acknowledged.inj h
      exact ⟨rfl, rfl⟩
  | alive goal | troubled goal =>
      obtain ⟨hacknowledged, hawaiting⟩ := (Goal.rests_afterBeat goal _).awaits
      exact ⟨fun id h => absurd h (hacknowledged id), hawaiting⟩
  | _ => exact ⟨nofun, nofun⟩

theorem not_awaits_opening (o : Opening) :
    (∀ id, o.call.stage ≠ .acknowledged id) ∧ o.call.stage ≠ .awaitingAnswer := by
  cases o with
  | _ => exact ⟨nofun, nofun⟩

end Call

namespace Agenda

variable {a : Agenda} {i : Nat}

/-- The registry has been asked to register the member by this call. -/
def HasAsked (a : Agenda) (i : Nat) : Prop :=
  ∃ q ∈ a.asked, q.call = i ∧ q.inquiry = .register a.member.registration

/-- The registry has acknowledged a registration that it was asked for, with this identifier. -/
def Acknowledges (a : Agenda) (occasions : List Occasion) (id : InstanceId) : Prop :=
  ∃ before i now period after c,
    occasions = before ++ .hear i now period (.answered (.ok id)) :: after ∧
    (a.run before).calls[i]? = some c ∧ c.stage = .awaitingAnswer ∧ (a.run before).HasAsked i

theorem Acknowledges.snoc {occasions : List Occasion} {id : InstanceId}
    (h : a.Acknowledges occasions id) (o : Occasion) : a.Acknowledges (occasions ++ [o]) id := by
  obtain ⟨before, i, now, period, after, c, rfl, h⟩ := h
  exact ⟨before, i, now, period, after ++ [o], c, by rw [List.append_assoc, List.cons_append], h⟩

theorem HasAsked.next (h : a.HasAsked i) (o : Occasion) : (a.next o).HasAsked i := by
  obtain ⟨q, hq, hcall, hinquiry⟩ := h
  refine ⟨q, (asked_next a o).subset hq, hcall, ?_⟩
  rw [registration_next]
  exact hinquiry

theorem hasAsked_of_step {heeds : Bool} {c : Call} {move : Move} (hc : a.calls[i]? = some c)
    (hstep : c.step (heeds && a.cancelled.contains i) a.member = some move)
    (hawaiting : move.call.stage = .awaitingAnswer) : (a.next (.step i heeds)).HasAsked i := by
  have hsteps := (Call.steps_of_step hstep).2
  have hinquiry := hsteps.awaits.2 hawaiting
  refine ⟨⟨i, .register a.member.registration, a.member.standing⟩, ?_, rfl, ?_⟩
  · simp only [next, hc, Option.bind_some, hstep, enter, hinquiry]
    exact List.mem_append_right _ List.mem_cons_self
  · rw [registration_next]

/-- All identifiers in hand have been issued, and whoever awaits one has asked for it. -/
structure Issued (a : Agenda) (occasions : List Occasion) : Prop where
  held : ∀ id, (a.run occasions).member.standing = .registered id → a.Acknowledges occasions id
  acknowledged : ∀ (i : Nat) (c : Call) id, (a.run occasions).calls[i]? = some c → c.stage = .acknowledged id →
    a.Acknowledges occasions id
  awaiting : ∀ (i : Nat) (c : Call), (a.run occasions).calls[i]? = some c → c.stage = .awaitingAnswer →
    (a.run occasions).HasAsked i

theorem Issued.start (reg : Registration) : (start reg).Issued [] := ⟨nofun, nofun, nofun⟩

theorem Issued.snoc {occasions : List Occasion} (h : a.Issued occasions) (o : Occasion) :
    a.Issued (occasions ++ [o]) := by
  have hrun : a.run (occasions ++ [o]) = (a.run occasions).next o := by
    rw [run_append, run_cons, run_nil]
  refine ⟨fun id hid => ?_, fun i c id hc hstage => ?_, fun i c hc hstage => ?_⟩
  · rw [hrun] at hid
    -- An identifier is held from before, or has just been adopted from an answer.
    rcases standing_of_next (a.run occasions) o with
      hsame | ⟨i, heeds, c, _, move, rfl, hc, hstep, hmember⟩
    · exact (h.held id (hsame ▸ hid)).snoc o
    · rw [hmember] at hid
      rcases (Call.steps_of_step hstep).2.registered hid with hold | hstage
      · exact (h.held id hold).snoc _
      · exact (h.acknowledged i c id hc hstage).snoc _
  · rw [hrun] at hc
    cases becomes_of_next hc with
    | stays _ hbefore => exact (h.acknowledged i c id hbefore hstage).snoc o
    | made op => exact absurd hstage ((Call.not_awaits_opening op).1 id)
    | dropped => cases hstage
    | moved heeds hbefore hstep =>
        exact absurd hstage ((Call.steps_of_step hstep).2.awaits.1 id)
    | heard now period signal hbefore hreact =>
        obtain ⟨hawaiting, rfl⟩ := (Call.hears_of_react hreact).awaits.1 id hstage
        -- This very occasion has brought the answer.
        exact ⟨occasions, i, now, period, [], _, rfl, hbefore, hawaiting,
          h.awaiting i _ hbefore hawaiting⟩
  · rw [hrun] at hc ⊢
    cases becomes_of_next hc with
    | stays _ hbefore => exact (h.awaiting i c hbefore hstage).next o
    | made op => exact absurd hstage (Call.not_awaits_opening op).2
    | dropped => cases hstage
    | moved heeds hbefore hstep => exact hasAsked_of_step hbefore hstep hstage
    | heard now period signal hbefore hreact =>
        exact absurd hstage (Call.hears_of_react hreact).awaits.2

theorem Issued.append {before : List Occasion} (h : a.Issued before) (occasions : List Occasion) :
    a.Issued (before ++ occasions) := by
  induction occasions generalizing before with
  | nil =>
      rw [List.append_nil]
      exact h
  | cons o occasions ih =>
      rw [List.append_cons]
      exact ih (h.snoc o)

/-- An identifier that the member holds has been issued to it. -/
theorem acknowledged_of_registered (reg : Registration) (occasions : List Occasion)
    {id : InstanceId} (h : ((start reg).run occasions).member.standing = .registered id) :
    (start reg).Acknowledges occasions id :=
  ((Issued.start reg).append occasions).held id h

end Agenda
end Rollcall
