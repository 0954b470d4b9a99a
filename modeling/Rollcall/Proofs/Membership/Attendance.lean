import Rollcall.Membership.Attendance
import Rollcall.Proofs.Membership.Agenda

/-!
# Attendances are runs of agendas

An attendance moves its calls in one certain order, and hears what has been laid down at the instant
at which it is due. An agenda leaves all that open, so whatever is done to an attendance can be done
to the agendas that show it, `Attendance.Leads`, and what holds of every agenda holds of every
attendance.

Main statement: `Attendance.shown_of_reachable`, every attendance is shown by a run of an agenda.
-/

namespace Rollcall

namespace Agenda

/-- An agenda shows an attendance: the same member with the same calls, cancelled or not, that have
asked the same. -/
structure Shows (a : Agenda) (s : Attendance) : Prop where
  member : a.member = s.member
  calls : a.calls = s.tasks.map (·.call)
  cancelled : ∀ i t, s.tasks[i]? = some t →
    a.cancelled.contains i = s.cancelled.contains t.token
  known : ∀ i ∈ a.cancelled, i < a.calls.length
  asked : a.asked.map (·.inquiry) = (s.inquiries.map (·.2)).reverse

variable {a : Agenda} {s : Attendance}

theorem Shows.call? (h : a.Shows s) (task : Nat) : a.calls[task]? = s.call? task := by
  rw [h.calls, Attendance.call?, List.getElem?_map]

theorem run_cancel (a : Agenda) (tasks : List Nat) : a.run (tasks.map .cancel) =
    { a with cancelled := tasks.reverse ++ a.cancelled } := by
  induction tasks generalizing a with
  | nil => rfl
  | cons task tasks ih =>
      rw [List.map_cons, run_cons, ih, List.reverse_cons, List.append_assoc]
      rfl

theorem Shows.setCall (h : a.Shows s) (task : Nat) (call : Call) :
    Shows { a with calls := a.calls.set task call } (s.setCall task call) where
  member := h.member
  calls := by
    -- Place by place: the two lists change at the same one.
    refine List.ext_getElem? fun i => ?_
    show (a.calls.set task call)[i]? = ((s.tasks.modify task _).map _)[i]?
    rw [h.calls, List.getElem?_map, List.getElem?_modify, List.getElem?_set]
    split
    · next heq =>
      subst heq
      rw [List.length_map]
      cases hi : s.tasks[task]? with
      | none => rw [if_neg (Nat.not_lt.mpr (List.getElem?_eq_none_iff.mp hi))]; rfl
      | some t => rw [if_pos (List.getElem?_eq_some_iff.mp hi).1]; rfl
    · rw [List.getElem?_map]
      cases s.tasks[i]? with
      | _ => rfl
  cancelled i t ht := by
    change (s.tasks.modify task _)[i]? = some t at ht
    rw [List.getElem?_modify] at ht
    obtain ⟨before, hbefore, rfl⟩ := Option.map_eq_some_iff.mp ht
    rw [show a.cancelled.contains i = _ from h.cancelled i before hbefore]
    split
    · rfl
    · rfl
  known i hi := by
    show i < (a.calls.set task call).length
    rw [List.length_set]
    exact h.known i hi
  asked := h.asked

end Agenda

namespace Attendance

variable {s : Attendance}

/-- What is done to an attendance can be done to every agenda that shows it. The executor therefore
does nothing that an agenda leaves out. -/
def Leads (s after : Attendance) : Prop :=
  ∀ a : Agenda, a.Shows s → ∃ occasions, (a.run occasions).Shows after

theorem Leads.refl (s : Attendance) : s.Leads s := fun _ h => ⟨[], h⟩

theorem Leads.trans {mid after : Attendance} (h : s.Leads mid) (hrest : mid.Leads after) :
    s.Leads after := by
  intro a ha
  obtain ⟨occasions, hmid⟩ := h a ha
  obtain ⟨more, hafter⟩ := hrest _ hmid
  refine ⟨occasions ++ more, ?_⟩
  rw [Agenda.run_append]
  exact hafter

theorem leads_of_same {after : Attendance} (hmember : after.member = s.member)
    (htasks : after.tasks = s.tasks) (hcancelled : after.cancelled = s.cancelled)
    (hinquiries : after.inquiries = s.inquiries) : s.Leads after := by
  intro a h
  refine ⟨[], h.member.trans hmember.symm, ?_, ?_, h.known, ?_⟩
  · rw [htasks]
    exact h.calls
  · rw [htasks, hcancelled]
    exact h.cancelled
  · rw [hinquiries]
    exact h.asked

theorem leads_setAlarm (s : Attendance) (due : Instant) (task : Nat) (signal : Signal) :
    s.Leads (s.setAlarm due task signal) :=
  leads_of_same rfl rfl rfl rfl

theorem leads_hear (s : Attendance) (task : Nat) (signal : Signal) :
    s.Leads (s.hear task signal) := by
  unfold hear
  split
  · exact .refl s
  · next call hcall =>
    have hheard : s.Leads (s.setCall task call) := by
      intro a h
      refine ⟨[.hear task s.time s.period signal], ?_⟩
      rw [Agenda.run_cons, Agenda.run_nil, Agenda.next, h.call? task, hcall]
      exact h.setCall task call
    refine hheard.trans ?_
    dsimp only
    split
    · exact leads_setAlarm _ _ _ _
    · exact leads_setAlarm _ _ _ _
    · exact .refl _

theorem leads_step {after : Attendance} {task : Nat} {t : Task} {move : Move}
    (ht : s.tasks[task]? = some t)
    (hmove : t.call.step (s.cancelled.contains t.token) s.member = some move)
    (hmember : after.member = move.member) (htasks : after.tasks = (s.setCall task move.call).tasks)
    (hcancelled : after.cancelled = s.cancelled)
    (hinquiries : after.inquiries.map (·.2) = move.inquiry?.toList ++ s.inquiries.map (·.2)) :
    s.Leads after := by
  intro a h
  have hset := h.setCall task move.call
  have hcall : a.calls[task]? = some t.call := by
    rw [h.call?, call?, ht]
    rfl
  have hnext : a.next (.step task true) = a.enter task move := by
    rw [Agenda.next, hcall, Option.bind_some, Bool.true_and, h.cancelled task t ht, h.member, hmove]
  refine ⟨[.step task true], ?_⟩
  rw [Agenda.run_cons, Agenda.run_nil, hnext]
  refine ⟨hmember.symm, ?_, ?_, hset.known, ?_⟩
  · rw [htasks]
    exact hset.calls
  · rw [htasks, hcancelled]
    exact hset.cancelled
  · rw [hinquiries, List.reverse_append, ← h.asked]
    show (a.asked ++ _).map _ = _
    rw [List.map_append]
    cases move.inquiry? with
    | none => rfl
    | some inquiry => rfl

theorem leads_answer (s : Attendance) (task : Nat) (scripted : ScriptedAnswer) :
    s.Leads (if scripted.hangs then s
      else if scripted.delay.nanos = 0 then s.hear task (.answered scripted.answer)
      else s.setAlarm (s.fromNow scripted.delay) task (.answered scripted.answer)) := by
  split
  · exact .refl s
  · split
    · exact leads_hear s _ _
    · exact leads_setAlarm s _ _ _

theorem leads_stepTask {after : Attendance} {task : Nat} (h : s.stepTask? task = some after) :
    s.Leads after := by
  unfold stepTask? at h
  split at h
  · cases h
  · next t ht =>
    split at h
    · next move hmove =>
      obtain rfl := Option.some.inj h
      split
      · next hquiet => exact leads_step ht hmove rfl rfl rfl (by rw [hquiet]; rfl)
      · next inquiry hinquiry =>
        refine .trans ?_ (leads_answer { s.setCall task move.call with
          member := move.member, script := (s.script.answer s.fallback inquiry).2,
          inquiries := (s.time, inquiry) :: s.inquiries } task _)
        refine leads_step ht hmove rfl rfl rfl ?_
        rw [hinquiry]
        rfl
    · split at h
      · split at h
        · obtain rfl := Option.some.inj h
          exact leads_hear s task .ticked
        · cases h
      · cases h

theorem leads_runTask (task n : Nat) (s : Attendance) : s.Leads (runTask task n s) := by
  induction n generalizing s with
  | zero => exact .refl s
  | succ n ih =>
      rw [runTask]
      split
      · exact .refl s
      · next after h => exact (leads_stepTask h).trans (ih after)

theorem leads_drive (s : Attendance) (task : Nat) : s.Leads (s.drive task) :=
  leads_runTask task patience s

theorem leads_goOff (s : Attendance) (a : Alarm) : s.Leads (s.goOff a) := by
  have htime : s.Leads { s.dropAlarm a with time := a.due } := leads_of_same rfl rfl rfl rfl
  exact htime.trans ((leads_hear _ _ _).trans (leads_drive _ _))

theorem leads_passTo (target : Instant) (n : Nat) (s : Attendance) :
    s.Leads (passTo target n s) := by
  induction n generalizing s with
  | zero => exact .refl s
  | succ n ih =>
      rw [passTo]
      split
      · exact .refl s
      · split
        · exact (leads_goOff s _).trans (ih _)
        · exact .refl s

theorem leads_passUntil (target : Instant) (task n : Nat) (s : Attendance) :
    s.Leads (passUntil target task n s) := by
  induction n generalizing s with
  | zero => exact .refl s
  | succ n ih =>
      rw [passUntil]
      split
      · exact .refl s
      · split
        · exact .refl s
        · split
          · exact (leads_goOff s _).trans (ih _)
          · exact .refl s

theorem leads_advance (s : Attendance) (span : Duration) : s.Leads (s.advance span) :=
  (leads_passTo _ _ s).trans (leads_of_same rfl rfl rfl rfl)

theorem leads_rest (s : Attendance) : s.Leads s.rest := leads_advance s ⟨0⟩

theorem leads_begin (s : Attendance) (o : Opening) :
    s.Leads { s with tasks := s.tasks ++ [Task.mk s.token o.call] } := by
  intro a h
  have hlength : a.calls.length = s.tasks.length := by
    rw [h.calls, List.length_map]
  -- A task is cancelled by its place, and nobody has had the new one.
  have hnew : a.cancelled.contains s.tasks.length = false := by
    refine Bool.eq_false_iff.mpr fun hmem => ?_
    have hlt := h.known _ (List.contains_iff_mem.mp hmem)
    omega
  have hcalls : a.calls ++ [o.call] = (s.tasks ++ [Task.mk s.token o.call]).map (·.call) := by
    rw [h.calls, List.map_append]
    rfl
  have hold {i : Nat} {t : Task} (ht : (s.tasks ++ [Task.mk s.token o.call])[i]? = some t) :
      (i < s.tasks.length ∧ s.tasks[i]? = some t) ∨
        (i = s.tasks.length ∧ t.token = s.token) := by
    rw [List.getElem?_append] at ht
    split at ht
    · next hlt => exact Or.inl ⟨hlt, ht⟩
    · next hge =>
      obtain ⟨hi, rfl⟩ := List.getElem?_eq_some_iff.mp ht
      rw [List.length_singleton] at hi
      exact Or.inr ⟨by omega, congrArg Task.token (List.getElem_singleton ..)⟩
  cases htoken : s.cancelled.contains s.token with
  | false =>
      refine ⟨[.make o], h.member, hcalls, fun i t ht => ?_, fun i hi => ?_, h.asked⟩
      · show a.cancelled.contains i = _
        rcases hold ht with ⟨-, hbefore⟩ | ⟨rfl, hthis⟩
        · exact h.cancelled i t hbefore
        · rw [hnew, hthis, htoken]
      · show i < (a.calls ++ [o.call]).length
        have := h.known i hi
        rw [List.length_append]
        omega
  | true =>
      -- The token has been cancelled already, and so the call is at once.
      refine ⟨[.make o, .cancel s.tasks.length], h.member, hcalls, fun i t ht => ?_, fun i hi => ?_,
        h.asked⟩
      · show (s.tasks.length :: a.cancelled).contains i = _
        rw [List.contains_cons]
        rcases hold ht with ⟨hlt, hbefore⟩ | ⟨rfl, hthis⟩
        · rw [h.cancelled i t hbefore, beq_eq_false_iff_ne.mpr (Nat.ne_of_lt hlt), Bool.false_or]
        · rw [hthis, htoken, beq_self_eq_true, Bool.true_or]
      · show i < (a.calls ++ [o.call]).length
        rw [List.length_append, List.length_singleton]
        rcases List.mem_cons.mp hi with rfl | hi
        · omega
        · have := h.known i hi
          omega

theorem leads_wake (s : Attendance) (task : Nat) (goal : Goal) :
    s.Leads (match goal with
      | .keepAlive due => s.setAlarm due task .ticked
      | _ => s) := by
  cases goal with
  | keepAlive due => exact leads_setAlarm s due task .ticked
  | register | heartbeat | deregister => exact .refl s

theorem leads_spawn (s : Attendance) (o : Opening) : s.Leads (s.spawn o.call).1 :=
  (leads_begin s o).trans ((leads_wake _ s.tasks.length o.call.goal).trans (leads_drive _ _))

/-- A caller that has waited for a task learns how it ended, or that time is over. -/
theorem leads_learn (s : Attendance) (target : Instant) (outcome? : Option Outcome) :
    s.Leads (match outcome? with
      | some outcome => (s.rest, some outcome)
      | none => ({ s with time := target }, none)).1 := by
  cases outcome? with
  | some outcome => exact leads_rest s
  | none => exact leads_of_same rfl rfl rfl rfl

theorem leads_join (s : Attendance) (task : Nat) (span : Duration) :
    s.Leads (s.join task span).1 :=
  (leads_passUntil (s.fromNow span) task (s.alarmsWithin span) s).trans (leads_learn _ _ _)

theorem leads_drop (s : Attendance) (task : Nat) : s.Leads (s.drop task) :=
  fun _ h => ⟨[.drop task], h.setCall task _⟩

theorem leads_await (s : Attendance) (o : Opening) (span : Duration) :
    s.Leads (s.await o.call span).1 := by
  have hspawn := leads_spawn s o
  unfold await
  generalize s.spawn o.call = spawned at hspawn ⊢
  obtain ⟨spawned, task⟩ := spawned
  have hjoin := leads_join spawned task span
  dsimp only
  generalize spawned.join task span = joined at hjoin ⊢
  obtain ⟨joined, outcome?⟩ := joined
  cases outcome? with
  | some outcome => exact hspawn.trans hjoin
  | none => exact (hspawn.trans hjoin).trans (leads_drop joined task)

theorem leads_foldl_drive (tasks : List Nat) (s : Attendance) :
    s.Leads (tasks.foldl drive s) := by
  induction tasks generalizing s with
  | nil => exact .refl s
  | cons task tasks ih => exact (leads_drive s task).trans (ih _)

theorem leads_cancel (s : Attendance) : s.Leads s.cancel := by
  refine .trans (fun a h => ?_)
    (leads_foldl_drive _ { s with cancelled := s.token :: s.cancelled })
  -- Whoever has been given the present token is cancelled by its own number.
  let given (i : Nat) : Bool := s.tasks[i]?.any fun t => t.token == s.token
  have hlength : a.calls.length = s.tasks.length := by
    rw [h.calls, List.length_map]
  refine ⟨((List.range s.tasks.length).filter given).map .cancel, ?_⟩
  rw [Agenda.run_cancel]
  refine ⟨h.member, h.calls, fun i t ht => ?_, fun i hi => ?_, h.asked⟩
  · have hgiven : (((List.range s.tasks.length).filter given).reverse ++ a.cancelled).contains i =
        (t.token == s.token || a.cancelled.contains i) := by
      obtain ⟨hlt, rfl⟩ := List.getElem?_eq_some_iff.mp ht
      refine Bool.eq_iff_iff.mpr ?_
      simp [given, hlt]
    show (_ ++ _ : List Nat).contains i = (s.token :: s.cancelled).contains t.token
    rw [hgiven, List.contains_cons, h.cancelled i t ht]
  · rcases List.mem_append.mp hi with hi | hi
    · have hrange := (List.mem_filter.mp (List.mem_reverse.mp hi)).1
      show i < a.calls.length
      rw [hlength]
      exact List.mem_range.mp hrange
    · exact h.known i hi

theorem leads_apply (s : Attendance) (p : Patch) : s.Leads (s.apply p) := by
  refine fun a h => ⟨[.apply p], ?_, h.calls, h.cancelled, h.known, h.asked⟩
  show { a.member with cache := a.member.cache.apply p } = _
  rw [h.member]
  rfl

/-- What an attendance comes to, whatever is done with it, from a member that has not registered yet
and that nobody has asked anything of. -/
inductive Reachable : Attendance → Prop
  | start {s : Attendance} (hmember : s.member = { registration := s.member.registration })
      (htasks : s.tasks = []) (hinquiries : s.inquiries = []) : Reachable s
  | spawn {s : Attendance} (h : Reachable s) (o : Opening) : Reachable (s.spawn o.call).1
  | await {s : Attendance} (h : Reachable s) (o : Opening) (span : Duration) :
    Reachable (s.await o.call span).1
  | join {s : Attendance} (h : Reachable s) (task : Nat) (span : Duration) :
    Reachable (s.join task span).1
  | drop {s : Attendance} (h : Reachable s) (task : Nat) : Reachable (s.drop task)
  | cancel {s : Attendance} (h : Reachable s) : Reachable s.cancel
  | renewToken {s : Attendance} (h : Reachable s) : Reachable s.renewToken
  | apply {s : Attendance} (h : Reachable s) (p : Patch) : Reachable (s.apply p)
  | advance {s : Attendance} (h : Reachable s) (span : Duration) : Reachable (s.advance span)

/-- Some agenda shows the attendance. -/
def Shown (s : Attendance) : Prop :=
  ∃ registration occasions, ((Agenda.start registration).run occasions).Shows s

theorem Shown.lead {after : Attendance} (h : s.Shown) (hleads : s.Leads after) : after.Shown := by
  obtain ⟨registration, occasions, hs⟩ := h
  obtain ⟨more, hafter⟩ := hleads _ hs
  refine ⟨registration, occasions ++ more, ?_⟩
  rw [Agenda.run_append]
  exact hafter

theorem shown_of_reachable (h : s.Reachable) : s.Shown := by
  induction h with
  | @start s hmember htasks hinquiries =>
      refine ⟨s.member.registration, [], hmember.symm, ?_, ?_, fun i hi => ?_, ?_⟩
      · rw [htasks]
        rfl
      · rw [htasks]
        exact fun i t ht => nomatch ht
      · exact absurd hi List.not_mem_nil
      · rw [hinquiries]
        rfl
  | spawn _ o ih => exact ih.lead (leads_spawn _ o)
  | await _ o span ih => exact ih.lead (leads_await _ o span)
  | join _ task span ih => exact ih.lead (leads_join _ task span)
  | drop _ task ih => exact ih.lead (leads_drop _ task)
  | cancel _ ih => exact ih.lead (leads_cancel _)
  | renewToken _ ih => exact ih.lead (leads_of_same rfl rfl rfl rfl)
  | apply _ p ih => exact ih.lead (leads_apply _ p)
  | advance _ span ih => exact ih.lead (leads_advance _ span)

end Attendance
end Rollcall
