import Rollcall.Proofs.Membership.Agenda
import Rollcall.Proofs.Membership.Call

/-!
# What an occasion changes

Of all that can come of an occasion, `Agenda.Comes`, this is what it means for a single call,
`Agenda.Becomes`, for the member, and for what has been asked.

* `Agenda.becomes_of_next` — a call stays as it is but for the four ways to move it;
* `Agenda.standing_of_next` — the standing changes by the step of a call;
* `Agenda.registration_run`, `Agenda.asked_next` — the registration stays, and so does what has been
  asked.
-/

namespace Rollcall

theorem Call.Steps.registration {cancelled : Bool} {goal : Goal} {stage after : Stage} {m m' : Member}
    {inquiry? : Option Inquiry} (h : Steps cancelled m goal stage m' after inquiry?) :
    m'.registration = m.registration := by
  cases h with
  | _ => rfl

namespace Agenda

variable {a : Agenda}

/-- How a call can have come to stand where it does after an occasion. This is the inversion of
`next`, one constructor for each way. -/
inductive Becomes (a : Agenda) (i : Nat) : Occasion → Call → Prop
  | stays (o : Occasion) {c : Call} (hc : a.calls[i]? = some c) : Becomes a i o c
  | made (o : Opening) (hi : i = a.calls.length) : Becomes a i (.make o) o.call
  | moved (heeds : Bool) {c : Call} {move : Move} (hc : a.calls[i]? = some c)
    (hstep : c.step (heeds && a.cancelled.contains i) a.member = some move) :
    Becomes a i (.step i heeds) move.call
  | heard (now : Instant) (period : Duration) (signal : Signal) {c call : Call}
    (hc : a.calls[i]? = some c) (hreact : c.react now period signal = some call) :
    Becomes a i (.hear i now period signal) call
  | dropped : Becomes a i (.drop i) ⟨.register, .ended .stopped⟩

variable {i : Nat} {o : Occasion}

theorem getElem?_set_cases {calls : List Call} {j : Nat} {c call : Call}
    (h : (calls.set j call)[i]? = some c) : calls[i]? = some c ∨ i = j ∧ c = call := by
  rw [List.getElem?_set] at h
  split at h
  · next heq =>
    simp only [Option.ite_none_right_eq_some, Option.some.injEq] at h
    exact Or.inr ⟨heq.symm, h.2.symm⟩
  · exact Or.inl h

theorem becomes_of_next {c : Call} (h : (a.next o).calls[i]? = some c) : a.Becomes i o c := by
  have hcomes := comes_next a o
  generalize a.next o = after at h hcomes
  cases hcomes with
  | idle => exact .stays _ h
  | made o =>
      -- The new call has the place behind all the others.
      change (a.calls ++ [o.call])[i]? = some c at h
      rw [List.getElem?_append] at h
      split at h
      · exact .stays _ h
      · next hge =>
        obtain ⟨hlt, hget⟩ := List.getElem?_eq_some_iff.mp h
        rw [List.length_singleton] at hlt
        obtain rfl := List.mem_singleton.mp (List.mem_of_getElem? h)
        exact .made o (by omega)
  | moved hbefore hstep =>
      rcases getElem?_set_cases h with hc | ⟨rfl, rfl⟩
      · exact .stays _ hc
      · exact .moved _ hbefore hstep
  | heard hbefore hreact =>
      rcases getElem?_set_cases h with hc | ⟨rfl, rfl⟩
      · exact .stays _ hc
      · exact .heard _ _ _ hbefore hreact
  | dropped j =>
      rcases getElem?_set_cases h with hc | ⟨rfl, rfl⟩
      · exact .stays _ hc
      · exact .dropped
  | cancelled | applied => exact .stays _ h

theorem standing_of_next (a : Agenda) (o : Occasion) :
    (a.next o).member.standing = a.member.standing ∨
      ∃ i heeds c cancelled move, o = .step i heeds ∧ a.calls[i]? = some c ∧
        c.step cancelled a.member = some move ∧ (a.next o).member = move.member := by
  have hcomes := comes_next a o
  generalize a.next o = after at hcomes ⊢
  cases hcomes with
  | moved hc hstep => exact Or.inr ⟨_, _, _, _, _, rfl, hc, hstep, rfl⟩
  | _ => exact Or.inl rfl

theorem registration_next (a : Agenda) (o : Occasion) :
    (a.next o).member.registration = a.member.registration := by
  have hcomes := comes_next a o
  generalize a.next o = after at hcomes ⊢
  cases hcomes with
  | moved hc hstep => exact (Call.steps_of_step hstep).2.registration
  | _ => rfl

theorem registration_run (a : Agenda) (occasions : List Occasion) :
    (a.run occasions).member.registration = a.member.registration := by
  induction occasions generalizing a with
  | nil => rfl
  | cons o occasions ih => exact (ih _).trans (registration_next a o)

theorem asked_next (a : Agenda) (o : Occasion) : a.asked <+: (a.next o).asked := by
  have hcomes := comes_next a o
  generalize a.next o = after at hcomes ⊢
  cases hcomes with
  | moved => exact List.prefix_append _ _
  | _ => exact List.prefix_refl _

theorem length_calls_next (a : Agenda) (o : Occasion) :
    a.calls.length ≤ (a.next o).calls.length := by
  have hcomes := comes_next a o
  generalize a.next o = after at hcomes ⊢
  cases hcomes with
  | made o =>
      show _ ≤ (a.calls ++ [o.call]).length
      rw [List.length_append]
      exact Nat.le_add_right _ _
  | moved | heard | dropped => exact Nat.le_of_eq List.length_set.symm
  | idle | cancelled | applied => exact Nat.le_refl _

end Agenda
end Rollcall
