import Rollcall.Proofs.Membership.Holding
import Rollcall.Proofs.Membership.Late

/-!
# Leaving for good

Of all that a member's calls do to where it stands, one thing is final: the step with which a
deregistration begins. Whatever else writes the standing looks first whether the member has left.

* `Agenda.terminated_iff` — the member has left exactly if a deregistration has begun;
* `Agenda.farewells_le_one` — at most one deregistration is ever sent;
* `Agenda.leaves_once` — all that can be said of a member that leaves.
-/

namespace Rollcall

namespace Call

variable {cancelled : Bool} {goal : Goal} {stage after : Stage} {m m' : Member}
  {inquiry? : Option Inquiry}

theorem Steps.terminated (h : Steps cancelled m goal .leaving m' after inquiry?) :
    m'.standing = .terminated := by
  cases h with
  | heed hcancelled hstage =>
      rcases hstage with h | h | h
      · cases h
      · cases h
      · cases h
  | leaveAgain hstanding => exact hstanding
  | leave hstanding => rfl

theorem Steps.leaving (h : Steps cancelled m goal stage m' after inquiry?)
    (hbefore : m.standing ≠ .terminated) (hafter : m'.standing = .terminated) :
    stage = .leaving := by
  cases h with
  | leave => rfl
  | begin | adopt | abandon => cases hafter
  | _ => exact absurd hafter hbefore

end Call

/-! ## Farewells -/

/-- Whether an inquiry is a deregistration. -/
def Inquiry.isFarewell : Inquiry → Bool
  | deregister .. => true
  | _ => false

/-- Whether a call is about to deregister. -/
def Stage.isParting : Stage → Bool
  | parting => true
  | _ => false

/-- How many deregistrations a member can have brought about, by where it stands: one if it has
left. -/
def Standing.farewells : Standing → Nat
  | terminated => 1
  | _ => 0

theorem Standing.farewells_of_ne {standing : Standing} (h : standing ≠ .terminated) :
    standing.farewells = 0 := by
  cases standing with
  | terminated => exact absurd rfl h
  | _ => rfl

theorem Stage.Rests.isParting {stage : Stage} (h : stage.Rests) : stage.isParting = false := by
  rcases h with rfl | ⟨outcome, rfl⟩
  · rfl
  · rfl

/-- A farewell is paid for before it is said: by the step with which the member leaves. No other
step makes one more of them. -/
theorem Call.Steps.farewells {cancelled : Bool} {goal : Goal} {stage after : Stage}
    {m m' : Member} {inquiry? : Option Inquiry}
    (h : Steps cancelled m goal stage m' after inquiry?) :
    (inquiry?.any Inquiry.isFarewell).toNat + after.isParting.toNat + m.standing.farewells ≤
      stage.isParting.toNat + m'.standing.farewells := by
  cases h with
  | refuse | tooLate | discard | abandonLate =>
      rw [(Goal.rests_afterRegistration goal _).isParting]
      simp
  | adopt id hstanding =>
      rw [(Goal.rests_afterRegistration goal _).isParting, Standing.farewells_of_ne hstanding]
      simp
  | abandon hstanding =>
      rw [(Goal.rests_afterRegistration goal _).isParting, hstanding]
      simp [Standing.farewells]
  | skip =>
      rw [(Goal.rests_afterBeat goal _).isParting]
      simp
  | begin hvalid hstanding | leave hstanding =>
      rw [Standing.farewells_of_ne hstanding]
      exact Nat.le_refl _
  | heed hcancelled hstage =>
      exact Nat.add_le_add_right (Nat.zero_le _) _
  | _ => simp [Stage.isParting, Inquiry.isFarewell]

namespace Agenda

variable {a : Agenda}

/-- How many deregistrations have been sent. -/
def farewells (a : Agenda) : Nat := a.asked.countP (·.inquiry.isFarewell)

/-- How many deregistrations are about to be sent. -/
def partings (a : Agenda) : Nat := a.calls.countP (·.stage.isParting)

/-- Every deregistration that is sent, or about to be, has made the member leave. Since a member
leaves once, there is one at most. -/
def Counted (a : Agenda) : Prop := a.farewells + a.partings ≤ a.member.standing.farewells

theorem countP_set_add (p : Call → Bool) {calls : List Call} {i : Nat} {c : Call}
    (hc : calls[i]? = some c) (call : Call) :
    (calls.set i call).countP p + (p c).toNat = calls.countP p + (p call).toNat := by
  obtain ⟨hi, rfl⟩ := List.getElem?_eq_some_iff.mp hc
  have hone : (p calls[i]).toNat ≤ calls.countP p := by
    cases h : p calls[i] with
    | false => exact Nat.zero_le _
    | true => exact List.countP_pos_iff.mpr ⟨_, List.getElem_mem hi, h⟩
  have htoNat (b : Bool) : (if b = true then 1 else 0) = b.toNat := by
    cases b with
    | _ => rfl
  rw [List.countP_set hi, htoNat, htoNat]
  omega

theorem Counted.enter (h : a.Counted) {i : Nat} {c : Call} {cancelled : Bool} {move : Move}
    (hc : a.calls[i]? = some c) (hstep : c.step cancelled a.member = some move) :
    (a.enter i move).Counted := by
  have hbefore : a.farewells + a.partings ≤ a.member.standing.farewells := h
  have hpaid := (Call.steps_of_step hstep).2.farewells
  have hpartings : (a.enter i move).partings + c.stage.isParting.toNat =
    a.partings + move.call.stage.isParting.toNat := countP_set_add (·.stage.isParting) hc move.call
  have hsaid : (a.enter i move).farewells =
      a.farewells + (move.inquiry?.any Inquiry.isFarewell).toNat := by
    show (a.asked ++ _).countP _ = _
    rw [List.countP_append]
    cases move.inquiry? with
    | none => rfl
    | some inquiry =>
        cases inquiry with
        | _ => rfl
  show (a.enter i move).farewells + (a.enter i move).partings ≤ move.member.standing.farewells
  omega

theorem isParting_of_opening (o : Opening) : o.call.stage.isParting = false := by
  cases o with
  | _ => rfl

theorem isParting_of_react {c call : Call} {now : Instant} {period : Duration} {signal : Signal}
    (h : c.react now period signal = some call) : call.stage.isParting = false := by
  cases Call.hears_of_react h with
  | alive goal | troubled goal => exact (Goal.rests_afterBeat goal _).isParting
  | _ => rfl

theorem Counted.next (h : a.Counted) (o : Occasion) : (a.next o).Counted := by
  -- Whoever takes the place of another without a farewell to say makes nothing worse.
  have hset (i : Nat) (call : Call) (hcall : call.stage.isParting = false) :
      Counted { a with calls := a.calls.set i call } := by
    refine Nat.le_trans (Nat.add_le_add_left ?_ _) h
    show (a.calls.set i call).countP _ ≤ _
    cases hc : a.calls[i]? with
    | none =>
        rw [List.set_eq_of_length_le (List.getElem?_eq_none_iff.mp hc)]
        exact Nat.le_refl _
    | some c =>
        have hcount := countP_set_add (·.stage.isParting) hc call
        rw [hcall] at hcount
        exact Nat.le_of_add_right_le (Nat.le_of_eq hcount)
  have hcomes := comes_next a o
  generalize a.next o = after at hcomes ⊢
  cases hcomes with
  | made o =>
      refine Nat.le_trans (Nat.add_le_add_left (Nat.le_of_eq ?_) _) h
      show (a.calls ++ [o.call]).countP _ = _
      rw [List.countP_append, List.countP_singleton, isParting_of_opening]
      rfl
  | moved hc hstep => exact h.enter hc hstep
  | heard hc hreact => exact hset _ _ (isParting_of_react hreact)
  | dropped i => exact hset i _ rfl
  | idle | cancelled | applied => exact h

theorem Counted.run (h : a.Counted) (occasions : List Occasion) : (a.run occasions).Counted := by
  induction occasions generalizing a with
  | nil => exact h
  | cons o occasions ih => exact ih (h.next o)

theorem farewells_le_one (reg : Registration) (occasions : List Occasion) :
    ((start reg).run occasions).farewells ≤ 1 := by
  have hstart : (start reg).Counted := Nat.le_refl 0
  refine Nat.le_trans (Nat.le_add_right _ _) (Nat.le_trans (hstart.run occasions) ?_)
  cases ((start reg).run occasions).member.standing with
  | terminated => exact Nat.le_refl 1
  | _ => exact Nat.zero_le 1

/-! ## The member leaves -/

variable {i : Nat} {o : Occasion}

/-- A deregistration begins in the run, with the first step of its call, and not when it is called
for. -/
def Departs (a : Agenda) (occasions : List Occasion) : Prop :=
  ∃ before i heeds after c, occasions = before ++ .step i heeds :: after ∧
    (a.run before).calls[i]? = some c ∧ c.stage = .leaving

theorem terminated_of_leaving {c : Call} (hc : a.calls[i]? = some c) (hstage : c.stage = .leaving)
    (heeds : Bool) : (a.next (.step i heeds)).member.standing = .terminated := by
  have hsteps (cancelled : Bool) : ∃ move, c.step cancelled a.member = some move := by
    rw [Call.step, hstage]
    dsimp only
    split
    · exact ⟨_, rfl⟩
    · exact ⟨_, rfl⟩
  obtain ⟨move, hmove⟩ := hsteps (heeds && a.cancelled.contains i)
  simp only [next, hc, Option.bind_some, hmove]
  have h := (Call.steps_of_step hmove).2
  rw [hstage] at h
  exact h.terminated

theorem departs_cons {occasions : List Occasion} (h : (a.next o).Departs occasions) :
    a.Departs (o :: occasions) := by
  obtain ⟨before, i, heeds, after, c, rfl, hc, hstage⟩ := h
  exact ⟨o :: before, i, heeds, after, c, rfl, hc, hstage⟩

/-- A member that has not left leaves by a deregistration, and by nothing else. -/
theorem terminated_iff (ha : a.member.standing ≠ .terminated) (occasions : List Occasion) :
    (a.run occasions).member.standing = .terminated ↔ a.Departs occasions := by
  constructor
  · intro h
    induction occasions generalizing a with
    | nil => exact absurd h ha
    | cons o occasions ih =>
        by_cases hnext : (a.next o).member.standing = .terminated
        · rcases standing_of_next a o with hsame | ⟨i, heeds, c, _, move, rfl, hc, hstep, hmember⟩
          · exact absurd (hsame ▸ hnext) ha
          · rw [hmember] at hnext
            exact ⟨[], i, heeds, occasions, c, rfl, hc,
              (Call.steps_of_step hstep).2.leaving ha hnext⟩
        · exact departs_cons (ih hnext h)
  · rintro ⟨before, i, heeds, after, c, rfl, hc, hstage⟩
    rw [run_append, run_cons]
    exact (windsUp_run (terminated_of_leaving hc hstage heeds) after).standing

/-- A member leaves for good, by a deregistration and by nothing else, and sends at most one. It holds
no identifier but one that the registry has acknowledged a registration with. Once it has left it
stays so; a registration that is begun from then on is refused, one that is acknowledged is
cancelled, and a heartbeat that is begun is over; and none of them asks anything any more. -/
theorem leaves_once (reg : Registration) (occasions : List Occasion) :
    let a := (start reg).run occasions
    (a.member.standing = .terminated ↔ (start reg).Departs occasions) ∧
    (∀ id, a.member.standing = .registered id → (start reg).Acknowledges occasions id) ∧
    a.farewells ≤ 1 ∧
    (a.member.standing = .terminated →
      (∀ more, (a.run more).member.standing = .terminated) ∧
      (a.next (.make .register)).BoundTo a.calls.length (.failed reg.refusal) ∧
      (a.next (.make .heartbeat)).BoundTo a.calls.length .done ∧
      ∀ (i : Nat) goal, a.calls[i]? = some ⟨goal, .awaitingAnswer⟩ → ∀ now period id,
        (a.next (.hear i now period (.answered (.ok id)))).BoundTo i goal.cancelled) := by
  intro a
  have hstart : (start reg).member.standing ≠ .terminated := nofun
  refine ⟨terminated_iff hstart occasions, fun id => acknowledged_of_registered reg occasions,
    farewells_le_one reg occasions, fun hm => ?_⟩
  have hregistration : a.member.registration = reg := registration_run (start reg) occasions
  refine ⟨fun more => (windsUp_run hm more).standing, boundTo_of_make hm ?_, boundTo_of_make hm ?_,
    fun i goal hc now period id => boundTo_of_acknowledged hm hc now period id⟩
  · rw [hregistration]
    exact Call.concludes_register reg
  · exact Call.concludes_heartbeat _

/-- The member leaves while a registration is under way, which is then acknowledged: it comes back
cancelled, and so does a registration that is begun afterwards. -/
theorem acknowledged_too_late :
    let web : Registration := { role := .web, url := "http://w" }
    let a := (start web).run [.make .register, .step 0 true, .step 0 true, .make .deregister,
      .step 1 true]
    a.member.standing = .terminated ∧ a.calls[0]? = some ⟨.register, .awaitingAnswer⟩ ∧
      (a.next (.hear 0 ⟨0⟩ ⟨0⟩ (.answered (.ok ⟨"id"⟩)))).BoundTo 0 (.failed .cancelled) ∧
      (a.next (.make .register)).BoundTo 2 (.failed .cancelled) := by
  intro web a
  obtain ⟨-, -, -, hlater⟩ := leaves_once web [.make .register, .step 0 true, .step 0 true,
    .make .deregister, .step 1 true]
  have hm : a.member.standing = .terminated := by decide +kernel
  have hc : a.calls[0]? = some ⟨.register, .awaitingAnswer⟩ := by decide +kernel
  obtain ⟨-, hregister, -, hacknowledged⟩ := hlater hm
  have hrefusal : web.refusal = .cancelled := by decide +kernel
  have hlength : a.calls.length = 2 := by decide +kernel
  refine ⟨hm, hc, hacknowledged 0 .register hc ⟨0⟩ ⟨0⟩ ⟨"id"⟩, ?_⟩
  rw [← hrefusal, ← hlength]
  exact hregister

end Agenda
end Rollcall
