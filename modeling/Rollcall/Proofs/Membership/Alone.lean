import Rollcall.Proofs.Membership.Agenda
import Rollcall.Proofs.Membership.Dialogue

/-!
# A member left alone with its registry

An agenda on which there is nothing but one registration and the heartbeat loop after it is a
dialogue: `Agenda.shown_of_alone`. So what holds of all dialogues holds of such a member, however its
call, the answers, the clock and the patches take turns. And since every attendance is shown by an
agenda, `Attendance.shown_of_reachable`, a dialogue speaks of the member that runs.
-/

namespace Rollcall

/-- The inquiry, if one is made. -/
def Remark.inquiry? : Remark → Option Inquiry
  | asked inquiry => some inquiry
  | _ => none

/-- Whether an occasion only carries on with calls that have been made: no call is made, and none is
cancelled. -/
def Occasion.CarriesOn : Occasion → Prop
  | step .. | hear .. | apply _ => True
  | _ => False

namespace Agenda

/-- An agenda on which there is one registration, and, when that has come to its end, the heartbeat
loop. -/
inductive Alone (reg : Registration) : Agenda → Prop
  | begin : Alone reg ((start reg).next (.make .register))
  | next {a : Agenda} (h : Alone reg a) {o : Occasion} (ho : o.CarriesOn) : Alone reg (a.next o)
  | proceed {a : Agenda} (h : Alone reg a) {id : InstanceId}
    (hcalls : a.calls = [⟨.register, .ended (.registered id)⟩]) (now : Instant) (period : Duration) :
    Alone reg (a.next (.make (.keepAlive now period)))

/-- A dialogue that has the member, the call that is not over, and what has been asked, as the
agenda has them. -/
structure ShownBy (a : Agenda) (d : Dialogue) : Prop where
  member : a.member = d.member
  cancelled : a.cancelled = []
  calls : ∃ past, a.calls = past ++ [d.call] ∧ ∀ c ∈ past, c.outcome?.isSome = true
  asked : a.asked.map (·.inquiry) = d.log.filterMap Remark.inquiry?

variable {reg : Registration} {a : Agenda} {d : Dialogue}

theorem still_of_over {c : Call} (h : c.outcome?.isSome = true) :
    (∀ cancelled m, c.step cancelled m = none) ∧
      ∀ now period signal, c.react now period signal = none := by
  obtain ⟨goal, stage⟩ := c
  cases stage with
  | ended => exact ⟨fun _ _ => rfl, fun _ _ _ => rfl⟩
  | _ => cases h

theorem ShownBy.get (h : a.ShownBy d) (i : Nat) :
    (∃ past, i = past.length ∧ a.calls = past ++ [d.call] ∧ ∀ c ∈ past, c.outcome?.isSome = true) ∨
      ∀ c, a.calls[i]? = some c → c.outcome?.isSome = true := by
  obtain ⟨past, hcalls, hover⟩ := h.calls
  rcases Nat.lt_trichotomy i past.length with hlt | heq | hgt
  · refine Or.inr fun c hc => ?_
    rw [hcalls, List.getElem?_append_left hlt] at hc
    exact hover c (List.mem_of_getElem? hc)
  · exact Or.inl ⟨past, heq, hcalls, hover⟩
  · refine Or.inr fun c hc => ?_
    rw [hcalls, List.getElem?_append_right (Nat.le_of_lt hgt),
      List.getElem?_eq_none (by simp; omega)] at hc
    cases hc

theorem getElem?_length (past : List Call) (c : Call) : (past ++ [c])[past.length]? = some c := by
  rw [List.getElem?_append_right (Nat.le_refl _), Nat.sub_self]
  rfl

theorem set_length (past : List Call) (c c' : Call) :
    (past ++ [c]).set past.length c' = past ++ [c'] := by
  rw [List.set_append_right _ _ (Nat.le_refl _), Nat.sub_self]
  rfl

theorem inquiries_noted (c : Call) (move : Move) :
    (Dialogue.noted c move).filterMap Remark.inquiry? = move.inquiry?.toList := by
  unfold Dialogue.noted
  split
  · next inquiry _ hinquiry => rw [hinquiry]; rfl
  · next hinquiry _ => rw [hinquiry]; rfl
  · next hinquiry _ => rw [hinquiry]; rfl

theorem inquiries_heard (log : Minutes) (signal : Signal) :
    (Dialogue.heard log signal).filterMap Remark.inquiry? = [] := by
  unfold Dialogue.heard
  split
  · split
    · rfl
    · rfl
  · rfl

theorem ShownBy.step (h : a.ShownBy d) (i : Nat) (heeds : Bool) :
    a.next (.step i heeds) = a ∨ (a.next (.step i heeds)).ShownBy (d.next .step) := by
  have hheeds : (heeds && a.cancelled.contains i) = false := by
    rw [h.cancelled]
    exact Bool.and_false heeds
  -- The call that is under way is the last one, and those before it are over.
  rcases h.get i with ⟨past, rfl, hcalls, hover⟩ | hover
  · cases hstep : d.call.step false d.member with
    | none =>
        left
        simp only [Agenda.next, hcalls, getElem?_length, Option.bind_some, hheeds, h.member, hstep]
    | some move =>
        right
        simp only [Agenda.next, Dialogue.next, hcalls, getElem?_length, Option.bind_some, hheeds,
          h.member, hstep]
        exact {
          member := rfl
          cancelled := h.cancelled
          calls := ⟨past, by simp only [enter, hcalls, set_length], hover⟩
          asked := by
            show (a.asked ++ (move.inquiry?.map fun inquiry => _).toList).map _ = _
            rw [List.map_append, h.asked, List.filterMap_append, inquiries_noted]
            cases move.inquiry? with
            | none => rfl
            | some inquiry => rfl }
  · left
    cases hc : a.calls[i]? with
    | none => simp only [Agenda.next, hc, Option.bind_none]
    | some c => simp only [Agenda.next, hc, Option.bind_some, (still_of_over (hover c hc)).1]

theorem ShownBy.hear (h : a.ShownBy d) (i : Nat) (now : Instant) (period : Duration)
    (signal : Signal) : a.next (.hear i now period signal) = a ∨
      (a.next (.hear i now period signal)).ShownBy (d.next (.hear now period signal)) := by
  rcases h.get i with ⟨past, rfl, hcalls, hover⟩ | hover
  · cases hreact : d.call.react now period signal with
    | none =>
        left
        simp only [Agenda.next, hcalls, getElem?_length, Option.bind_some, hreact]
    | some call =>
        right
        simp only [Agenda.next, Dialogue.next, hcalls, getElem?_length, Option.bind_some, hreact]
        exact {
          member := h.member
          cancelled := h.cancelled
          calls := ⟨past, set_length past d.call call, hover⟩
          asked := by rw [List.filterMap_append, inquiries_heard, List.append_nil]; exact h.asked }
  · left
    cases hc : a.calls[i]? with
    | none => simp only [Agenda.next, hc, Option.bind_none]
    | some c => simp only [Agenda.next, hc, Option.bind_some, (still_of_over (hover c hc)).2]

theorem ShownBy.apply (h : a.ShownBy d) (p : Patch) :
    (a.next (.apply p)).ShownBy (d.next (.apply p)) where
  member := by
    show Member.mk _ _ _ = Member.mk _ _ _
    rw [h.member]
  cancelled := h.cancelled
  calls := h.calls
  asked := by
    show _ = (d.log ++ [Remark.patched p]).filterMap Remark.inquiry?
    rw [List.filterMap_append, ← h.asked]
    exact (List.append_nil _).symm

theorem ShownBy.proceed (h : a.ShownBy d) {id : InstanceId}
    (hcalls : a.calls = [⟨.register, .ended (.registered id)⟩]) (now : Instant) (period : Duration) :
    (a.next (.make (.keepAlive now period))).ShownBy (d.next (.proceed now period)) := by
  obtain ⟨past, hover, -⟩ := h.calls
  rw [hcalls, ← List.nil_append [_]] at hover
  obtain ⟨-, hcall⟩ := List.append_singleton_inj.mp hover
  have hnext : d.next (.proceed now period) = { d with call := .keepAlive now period } := by
    simp only [Dialogue.next, ← hcall, Call.outcome?]
  rw [hnext]
  exact {
    member := h.member
    cancelled := h.cancelled
    calls := by
      refine ⟨a.calls, rfl, fun c hc => ?_⟩
      rw [hcalls] at hc
      rw [List.mem_singleton.mp hc]
      rfl
    asked := h.asked }

/-- What a registration and the heartbeat loop after it do to a member, and what they ask, is shown by
a dialogue. -/
theorem shown_of_alone (h : a.Alone reg) : ∃ turns, a.ShownBy ((Dialogue.start reg).run turns) := by
  -- Each occasion of the agenda is one turn of the dialogue or none at all.
  induction h with
  | begin => exact ⟨[], rfl, rfl, ⟨[], rfl, nofun⟩, rfl⟩
  | @next a h o ho ih =>
      obtain ⟨turns, hshown⟩ := ih
      have hmore {t : Dialogue.Turn} (ht : (a.next o).ShownBy (((Dialogue.start reg).run turns).next t)) :
          ∃ turns, (a.next o).ShownBy ((Dialogue.start reg).run turns) :=
        ⟨turns ++ [t], by rwa [Dialogue.run, List.foldl_append]⟩
      cases o with
      | step i heeds =>
          rcases hshown.step i heeds with hsame | hnext
          · exact ⟨turns, by rwa [hsame]⟩
          · exact hmore hnext
      | hear i now period signal =>
          rcases hshown.hear i now period signal with hsame | hnext
          · exact ⟨turns, by rwa [hsame]⟩
          · exact hmore hnext
      | apply p => exact hmore (hshown.apply p)
      | _ => exact ho.elim
  | @proceed a h id hcalls now period ih =>
      obtain ⟨turns, hshown⟩ := ih
      refine ⟨turns ++ [.proceed now period], ?_⟩
      rw [Dialogue.run, List.foldl_append]
      exact hshown.proceed hcalls now period

end Agenda
end Rollcall
