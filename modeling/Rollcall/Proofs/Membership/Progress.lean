import Rollcall.Membership.Attendance

/-!
# A registration on its own

While a registration is the only call under way, an attendance differs by little from the one that it
was begun in, and that little is its `Progress`. So what a step or an alarm does to the one can be said
of the other: `Progress.ask` is an attempt, `Progress.hear` an answer.

* `Attendance.runTask_asking`, `Attendance.runTask_heard` — the steps of a registration;
* `Attendance.goOff_answered`, `Attendance.goOff_paused` — its alarms;
* `Attendance.sound_passTo` — what it can come to if it is not cancelled;
* `Attendance.cancel_under` — what it comes to if it is.
-/

namespace Rollcall

/-- What changes while a registration is under way. All else of an attendance stays, so a run of it
is a run of these few fields. -/
structure Progress where
  standing : Standing := .registering
  stage : Stage
  /-- The answers to registrations that are to come. -/
  answers : List ScriptedAnswer
  now : Instant
  alarms : List Alarm := []
  asked : List (Instant × Inquiry)

namespace Attendance

/-- An attendance in which a registration has been begun and has come so far. The registration is
the last task, and those before it do not move. -/
def under (s : Attendance) (p : Progress) : Attendance :=
  { s with
    member := { s.member with standing := p.standing }
    script := { s.script with register := p.answers }
    time := p.now
    tasks := s.tasks ++ [⟨s.token, ⟨.register, p.stage⟩⟩]
    alarms := p.alarms
    inquiries := p.asked }

/-- A registration that has just been begun. -/
def begun (s : Attendance) : Progress where
  standing := s.member.standing
  stage := .entering
  answers := s.script.register
  now := s.time
  alarms := s.alarms
  asked := s.inquiries

end Attendance

namespace Progress

/-- The registry is asked, and waited for. -/
def inquire (s : Attendance) (p : Progress) (rest : List ScriptedAnswer) : Progress :=
  { p with
    stage := .awaitingAnswer
    answers := rest
    asked := (p.now, .register s.member.registration) :: p.asked }

/-- The registry answers. -/
def hear (s : Attendance) (p : Progress) : Except MemberError InstanceId → Progress
  | .ok id => { p with standing := .registered id, stage := .ended (.registered id) }
  | .error _ => { p with
      stage := .pausing
      alarms := p.alarms ++ [⟨⟨p.now.nanos + s.retryInterval.nanos⟩, s.tasks.length, .paused⟩] }

def ask (s : Attendance) (p : Progress) : Progress :=
  let (a, rest) := Script.next s.fallback p.answers
  let p := p.inquire s rest
  if a.hangs then p
  else if a.delay.nanos = 0 then p.hear s a.answer
  else { p with
    alarms := p.alarms ++
      [⟨⟨p.now.nanos + a.delay.nanos⟩, s.tasks.length, .answered a.answer⟩] }

theorem ask_takes (s : Attendance) (p : Progress) :
    (p.ask s).now = p.now ∧ (p.ask s).answers = (Script.next s.fallback p.answers).2 := by
  unfold ask
  dsimp only
  split
  · exact ⟨rfl, rfl⟩
  · split
    · cases (Script.next s.fallback p.answers).1.answer with
      | ok id => exact ⟨rfl, rfl⟩
      | error e => exact ⟨rfl, rfl⟩
    · exact ⟨rfl, rfl⟩

end Progress

namespace Attendance

variable {s : Attendance} {p : Progress}

/-! ## The task -/

theorem modify_concat {α : Type} (xs : List α) (x : α) (f : α → α) :
    (xs ++ [x]).modify xs.length f = xs ++ [f x] := by
  induction xs with
  | nil => rfl
  | cons y xs ih => simpa using ih

theorem getElem?_under (s : Attendance) (p : Progress) :
    (s.under p).tasks[s.tasks.length]? = some ⟨s.token, ⟨.register, p.stage⟩⟩ := by
  simp [under]

theorem call?_under (s : Attendance) (p : Progress) :
    (s.under p).call? s.tasks.length = some ⟨.register, p.stage⟩ := by
  rw [call?, getElem?_under]
  rfl

theorem setCall_under (s : Attendance) (p : Progress) (stage : Stage) :
    (s.under p).setCall s.tasks.length ⟨.register, stage⟩ = s.under { p with stage := stage } := by
  simp [setCall, under, modify_concat]

theorem outcome_under (s : Attendance) (p : Progress) :
    ((s.under p).call? s.tasks.length).bind Call.outcome? = Call.outcome? ⟨.register, p.stage⟩ := by
  rw [call?_under]
  rfl

/-! ## Steps -/

theorem runTask_of_none {task : Nat} (h : s.stepTask? task = none) (n : Nat) :
    runTask task n s = s := by
  cases n with
  | zero => rfl
  | succ n => rw [runTask, h]

theorem runTask_of_some {task : Nat} {after : Attendance} (h : s.stepTask? task = some after)
    (n : Nat) : runTask task (n + 1) s = runTask task n after := by
  rw [runTask, h]

theorem stepTask?_under {move : Move} (h : Call.step (s.cancelled.contains s.token)
      { s.member with standing := p.standing } ⟨.register, p.stage⟩ = some move) :
    (s.under p).stepTask? s.tasks.length =
      let after := { (s.under p).setCall s.tasks.length move.call with member := move.member }
      some (match move.inquiry? with
        | none => after
        | some inquiry => after.ask s.tasks.length inquiry) := by
  have hmove : Call.step ((s.under p).cancelled.contains s.token) (s.under p).member
      ⟨.register, p.stage⟩ = some move := h
  rw [stepTask?, getElem?_under]
  dsimp only
  generalize Call.step _ _ _ = step at hmove ⊢
  subst hmove
  rfl

theorem stepTask?_to {standing : Standing} {stage : Stage}
    (h : Call.step (s.cancelled.contains s.token) { s.member with standing := p.standing }
      ⟨.register, p.stage⟩ =
        some ⟨{ s.member with standing := standing }, ⟨.register, stage⟩, none⟩) :
    (s.under p).stepTask? s.tasks.length =
      some (s.under { p with standing := standing, stage := stage }) := by
  rw [stepTask?_under h]
  simp only [setCall_under]
  rfl

theorem stepTask?_of_waiting (hcalm : s.cancelled.contains s.token = false)
    (h : p.stage = .awaitingAnswer ∨ p.stage = .pausing) :
    (s.under p).stepTask? s.tasks.length = none := by
  have hcalm' : (s.under p).cancelled.contains s.token = false := hcalm
  rw [stepTask?, getElem?_under]
  rcases h with h | h
  · simp only [h, Call.step, hcalm', Bool.false_eq_true, if_false]
  · simp only [h, Call.step, hcalm', Bool.false_eq_true, if_false]

theorem stepTask?_of_ended {outcome : Outcome} (h : p.stage = .ended outcome) :
    (s.under p).stepTask? s.tasks.length = none := by
  rw [stepTask?, getElem?_under]
  simp only [h, Call.step]

/-! ## Signals -/

theorem hear_under {call : Call} {signal : Signal} (h : Call.react (s.under p).time s.period
      ⟨.register, p.stage⟩ signal = some call) : (s.under p).hear s.tasks.length signal =
    match call.stage, call.goal with
      | .pausing, _ => ((s.under p).setCall s.tasks.length call).setAlarm
          ⟨p.now.nanos + s.retryInterval.nanos⟩ s.tasks.length .paused
      | .checking, .keepAlive due =>
          ((s.under p).setCall s.tasks.length call).setAlarm due s.tasks.length .ticked
      | _, _ => (s.under p).setCall s.tasks.length call := by
  have hcall : Call.react (s.under p).time (s.under p).period ⟨.register, p.stage⟩ signal =
      some call := h
  rw [hear, call?_under, Option.bind_some]
  generalize Call.react _ _ _ _ = reaction at hcall ⊢
  subst hcall
  rfl

theorem hear_error (h : p.stage = .awaitingAnswer) (e : MemberError) :
    (s.under p).hear s.tasks.length (.answered (.error e)) = s.under (p.hear s (.error e)) := by
  rw [@hear_under s p ⟨.register, .pausing⟩ _ (by rw [h]; rfl), setCall_under]
  rfl

theorem hear_ok (h : p.stage = .awaitingAnswer) (id : InstanceId) :
    (s.under p).hear s.tasks.length (.answered (.ok id)) =
      s.under { p with stage := .acknowledged id } := by
  rw [@hear_under s p ⟨.register, .acknowledged id⟩ _ (by rw [h]; rfl), setCall_under]

theorem hear_paused (h : p.stage = .pausing) :
    (s.under p).hear s.tasks.length .paused = s.under { p with stage := .asking } := by
  rw [@hear_under s p ⟨.register, .asking⟩ _ (by rw [h]; rfl), setCall_under]

/-- Once a registration has heard an answer, it waits for its next attempt or is over. -/
theorem runTask_heard (hcalm : s.cancelled.contains s.token = false)
    (hstanding : p.standing = .registering) (h : p.stage = .awaitingAnswer)
    (answer : Except MemberError InstanceId) (n : Nat) :
    runTask s.tasks.length (n + 1) ((s.under p).hear s.tasks.length (.answered answer)) =
      s.under (p.hear s answer) := by
  cases answer with
  | error e =>
      rw [hear_error h]
      exact runTask_of_none (stepTask?_of_waiting hcalm (Or.inr rfl)) _
  | ok id =>
      have hadopt := @stepTask?_to s { p with stage := .acknowledged id } (.registered id)
        (.ended (.registered id)) (by rw [hstanding]; rfl)
      rw [hear_ok h, runTask_of_some hadopt]
      exact runTask_of_none (stepTask?_of_ended rfl) _

/-- The answer is heard at once, or later, or never, as the script has it. -/
theorem ask_under {a : ScriptedAnswer} {rest : List ScriptedAnswer}
    (h : Script.next s.fallback p.answers = (a, rest)) (hstage : p.stage = .awaitingAnswer) :
    let asked := p.inquire s rest
    (s.under p).ask s.tasks.length (.register s.member.registration) =
      if a.hangs then s.under asked
      else if a.delay.nanos = 0 then (s.under asked).hear s.tasks.length (.answered a.answer)
      else s.under { asked with alarms := p.alarms ++
        [⟨⟨p.now.nanos + a.delay.nanos⟩, s.tasks.length, .answered a.answer⟩] } := by
  have hnext : Script.next (s.under p).fallback (s.under p).script.register = (a, rest) := h
  simp only [ask, Script.answer, hnext, Progress.inquire, ← hstage]
  rfl

theorem runTask_asking (hcalm : s.cancelled.contains s.token = false)
    (hstanding : p.standing = .registering) (h : p.stage = .asking) (n : Nat) :
    runTask s.tasks.length (n + 2) (s.under p) = s.under (p.ask s) := by
  obtain ⟨a, rest, hnext⟩ : ∃ a rest, Script.next s.fallback p.answers = (a, rest) := ⟨_, _, rfl⟩
  have hstep : Call.step (s.cancelled.contains s.token) { s.member with standing := p.standing }
      ⟨.register, p.stage⟩ = some ⟨{ s.member with standing := p.standing },
        ⟨.register, .awaitingAnswer⟩, some (.register s.member.registration)⟩ := by
    rw [h, hcalm]
    rfl
  have hask : (s.under p).stepTask? s.tasks.length =
      some ((s.under { p with stage := .awaitingAnswer }).ask s.tasks.length
        (.register s.member.registration)) := by
    rw [stepTask?_under hstep]
    simp only [setCall_under]
    rfl
  rw [runTask_of_some hask, @ask_under s { p with stage := .awaitingAnswer } a rest hnext rfl,
    Progress.ask, hnext]
  dsimp only
  split
  · exact runTask_of_none (@stepTask?_of_waiting s (p.inquire s rest) hcalm (Or.inl rfl)) _
  · split
    · exact @runTask_heard s (p.inquire s rest) hcalm hstanding rfl a.answer n
    · exact runTask_of_none (stepTask?_of_waiting hcalm (Or.inl rfl)) _

/-! ## The beginning -/

theorem spawn_of_invalid {e : InputError} (h : s.member.registration.validate = .error e) :
    s.spawn .register =
      (s.under { s.begun with stage := .ended (.failed (.input e)) }, s.tasks.length) := by
  have henter := @stepTask?_to s s.begun s.member.standing (.ended (.failed (.input e))) (by
    show some (Call.enter _ s.member) = _
    rw [Call.enter, h]
    rfl)
  have hdrive : (s.under s.begun).drive s.tasks.length =
      s.under { s.begun with stage := .ended (.failed (.input e)) } := by
    rw [drive, patience, runTask_of_some henter]
    exact runTask_of_none (stepTask?_of_ended rfl) 63
  exact congrArg (·, s.tasks.length) hdrive

theorem spawn_of_valid (hvalid : s.member.registration.validate = .ok ())
    (hstanding : s.member.standing ≠ .terminated) (hcalm : s.cancelled.contains s.token = false) :
    s.spawn .register =
      (s.under (Progress.ask s { s.begun with standing := .registering }), s.tasks.length) := by
  have henter := @stepTask?_to s s.begun .registering .asking (by
    show some (Call.enter _ s.member) = _
    rw [Call.enter, hvalid]
    exact congrArg some (if_neg hstanding))
  have hdrive : (s.under s.begun).drive s.tasks.length =
      s.under (Progress.ask s { s.begun with standing := .registering }) := by
    rw [drive, patience, runTask_of_some henter]
    exact @runTask_asking s { s.begun with standing := .registering, stage := .asking } hcalm rfl
      rfl 61
  exact congrArg (·, s.tasks.length) hdrive

/-! ## Alarms -/

theorem dropAlarm_under {due : Instant} {signal : Signal}
    (h : p.alarms = [⟨due, s.tasks.length, signal⟩]) :
    { (s.under p).dropAlarm ⟨due, s.tasks.length, signal⟩ with time := due } =
      s.under { p with alarms := [], now := due } := by
  simp [dropAlarm, under, h]

theorem goOff_answered (hcalm : s.cancelled.contains s.token = false)
    (hstanding : p.standing = .registering) (hstage : p.stage = .awaitingAnswer) {due : Instant}
    {answer : Except MemberError InstanceId}
    (halarms : p.alarms = [⟨due, s.tasks.length, .answered answer⟩]) :
    (s.under p).goOff ⟨due, s.tasks.length, .answered answer⟩ =
      s.under (Progress.hear s { p with alarms := [], now := due } answer) := by
  rw [goOff, dropAlarm_under halarms]
  exact @runTask_heard s { p with alarms := [], now := due } hcalm hstanding hstage answer 63

theorem goOff_paused (hcalm : s.cancelled.contains s.token = false)
    (hstanding : p.standing = .registering) (hstage : p.stage = .pausing) {due : Instant}
    (halarms : p.alarms = [⟨due, s.tasks.length, .paused⟩]) :
    (s.under p).goOff ⟨due, s.tasks.length, .paused⟩ =
      s.under (Progress.ask s { p with alarms := [], now := due }) := by
  let resumed : Progress := { p with alarms := [], now := due, stage := .asking }
  rw [goOff, dropAlarm_under halarms, @hear_paused s { p with alarms := [], now := due } hstage]
  exact @runTask_asking s resumed hcalm hstanding rfl 62

theorem passTo_of_none {target : Instant} (h : p.alarms = []) (n : Nat) :
    passTo target n (s.under p) = s.under p := by
  cases n with
  | zero => rfl
  | succ n =>
      have hnext : (s.under p).nextAlarm? = none := by
        rw [nextAlarm?, under, h]
        rfl
      rw [passTo, hnext]

theorem nextAlarm?_under {a : Alarm} (h : p.alarms = [a]) : (s.under p).nextAlarm? = some a := by
  rw [nextAlarm?, under, h]
  rfl

theorem passTo_of_later {target : Instant} {a : Alarm} (h : p.alarms = [a])
    (hlater : target.nanos < a.due.nanos) (n : Nat) :
    passTo target n (s.under p) = s.under p := by
  cases n with
  | zero => rfl
  | succ n =>
      rw [passTo, nextAlarm?_under h]
      exact if_neg (Nat.not_le.mpr hlater)

theorem passTo_of_due {target : Instant} {a : Alarm} (h : p.alarms = [a])
    (hdue : a.due.nanos ≤ target.nanos) (n : Nat) :
    passTo target (n + 1) (s.under p) = passTo target n ((s.under p).goOff a) := by
  rw [passTo, nextAlarm?_under h]
  exact if_pos hdue

theorem advance_under {q : Progress} {span : Duration} (h : passTo ((s.under p).fromNow span)
      ((s.under p).alarmsWithin span) (s.under p) = s.under q) :
    (s.under p).advance span = s.under { q with now := (s.under p).fromNow span } := by
  rw [advance, h]
  rfl

end Attendance

/-! ## What a registration can come to -/

/-- A registration waits for an answer or for its next attempt, or has been acknowledged, with the
alarms that belong to that and no others. -/
inductive Progress.Sound (s : Attendance) (p : Progress) : Prop
  | awaiting (hstanding : p.standing = .registering) (hstage : p.stage = .awaitingAnswer)
    (halarms : p.alarms = [] ∨
      ∃ due answer, p.alarms = [⟨due, s.tasks.length, .answered answer⟩])
  | pausing (hstanding : p.standing = .registering) (hstage : p.stage = .pausing) (due : Instant)
    (halarms : p.alarms = [⟨due, s.tasks.length, .paused⟩])
  | acknowledged (id : InstanceId) (hstage : p.stage = .ended (.registered id))
    (halarms : p.alarms = [])

namespace Progress

theorem sound_hear {s : Attendance} {p : Progress} (hstanding : p.standing = .registering)
    (halarms : p.alarms = []) (answer : Except MemberError InstanceId) :
    (p.hear s answer).Sound s := by
  cases answer with
  | ok id => exact .acknowledged id rfl halarms
  | error e =>
      refine .pausing hstanding rfl ⟨p.now.nanos + s.retryInterval.nanos⟩ ?_
      simp [hear, halarms]

theorem sound_ask (s : Attendance) {p : Progress} (hstanding : p.standing = .registering)
    (halarms : p.alarms = []) : (p.ask s).Sound s := by
  unfold ask
  generalize Script.next s.fallback p.answers = next
  obtain ⟨a, rest⟩ := next
  dsimp only
  split
  · exact .awaiting hstanding rfl (Or.inl halarms)
  · split
    · exact @sound_hear s (p.inquire s rest) hstanding halarms a.answer
    · refine .awaiting hstanding rfl (Or.inr ⟨⟨p.now.nanos + a.delay.nanos⟩, a.answer, ?_⟩)
      simp [inquire, halarms]

/-- One that is not over has not changed where it stands. -/
theorem Sound.waits {s : Attendance} {p : Progress} (h : p.Sound s)
    (hover : Call.outcome? ⟨.register, p.stage⟩ = none) :
    p.standing = .registering ∧ (p.stage = .awaitingAnswer ∨ p.stage = .pausing) := by
  cases h with
  | awaiting hstanding hstage => exact ⟨hstanding, Or.inl hstage⟩
  | pausing hstanding hstage => exact ⟨hstanding, Or.inr hstage⟩
  | acknowledged id hstage =>
      rw [hstage] at hover
      cases hover

end Progress

namespace Attendance

variable {s : Attendance} {p : Progress}

/-- However long it takes, and whatever is laid down, a registration goes on like this. -/
theorem sound_passTo (hcalm : s.cancelled.contains s.token = false) (h : p.Sound s)
    (target : Instant) (n : Nat) :
    ∃ q : Progress, passTo target n (s.under p) = s.under q ∧ q.Sound s := by
  -- There is one alarm at most, and it leads to an answer or to another attempt.
  induction n generalizing p with
  | zero => exact ⟨p, rfl, h⟩
  | succ n ih =>
      have hnow := h
      cases h with
      | acknowledged id hstage halarms => exact ⟨p, passTo_of_none halarms _, hnow⟩
      | pausing hstanding hstage due halarms =>
          -- The pause lasts beyond the target, or the next attempt is made within it.
          by_cases hlater : target.nanos < due.nanos
          · exact ⟨p, passTo_of_later halarms hlater _, hnow⟩
          · rw [passTo_of_due halarms (Nat.le_of_not_lt hlater),
              goOff_paused hcalm hstanding hstage halarms]
            exact ih (@Progress.sound_ask s { p with alarms := [], now := due } hstanding rfl)
      | awaiting hstanding hstage halarms =>
          rcases halarms with halarms | ⟨due, answer, halarms⟩
          · exact ⟨p, passTo_of_none halarms _, hnow⟩
          · by_cases hlater : target.nanos < due.nanos
            · exact ⟨p, passTo_of_later halarms hlater _, hnow⟩
            · rw [passTo_of_due halarms (Nat.le_of_not_lt hlater),
                goOff_answered hcalm hstanding hstage halarms]
              exact ih (@Progress.sound_hear s { p with alarms := [], now := due } hstanding rfl
                answer)

/-! ## Being cancelled -/

/-- The task's call, if there is one, has come to its end. -/
def Over (s : Attendance) (task : Nat) : Prop :=
  ∀ t, s.tasks[task]? = some t → ∃ outcome, t.call.stage = .ended outcome

theorem Over.hear {task : Nat} (h : s.Over task) (signal : Signal) : s.hear task signal = s := by
  have hdeaf : ((s.call? task).bind fun c => c.react s.time s.period signal) = none := by
    rw [call?]
    cases ht : s.tasks[task]? with
    | none => rfl
    | some t =>
        obtain ⟨outcome, hstage⟩ := h t ht
        simp [Call.react, hstage]
  rw [Attendance.hear, hdeaf]

theorem Over.drive {task : Nat} (h : s.Over task) : s.drive task = s := by
  apply runTask_of_none
  rw [stepTask?]
  cases ht : s.tasks[task]? with
  | none => rfl
  | some t =>
      obtain ⟨outcome, hstage⟩ := h t ht
      simp [Call.step, hstage]

/-- Alarms wake nobody when every call is over; time is all that passes. -/
theorem passTo_of_over (h : ∀ task, s.Over task) (target : Instant) (n : Nat) :
    let after := passTo target n s
    after.tasks = s.tasks ∧ after.member = s.member ∧ after.inquiries = s.inquiries := by
  induction n generalizing s with
  | zero => exact ⟨rfl, rfl, rfl⟩
  | succ n ih =>
      rw [passTo]
      split
      · exact ⟨rfl, rfl, rfl⟩
      · next a _ =>
        split
        · have hover : ∀ task, Over { s.dropAlarm a with time := a.due } task := h
          rw [goOff, (hover a.task).hear, (hover a.task).drive]
          exact ih hover
        · exact ⟨rfl, rfl, rfl⟩

theorem over_under (h : ∀ task, s.Over task) {outcome : Outcome}
    (hstage : p.stage = .ended outcome) (task : Nat) : (s.under p).Over task := by
  intro t ht
  change (s.tasks ++ [_])[task]? = some t at ht
  rw [List.getElem?_append] at ht
  split at ht
  · exact h task t ht
  · obtain ⟨-, rfl⟩ := List.getElem?_eq_some_iff.mp ht
    rw [List.getElem_singleton]
    exact ⟨outcome, hstage⟩

/-- Calls that are over stay so, whoever else is under way. -/
theorem drive_others (h : ∀ task, s.Over task) {tasks : List Nat}
    (htasks : ∀ task ∈ tasks, task < s.tasks.length) :
    tasks.foldl drive (s.under p) = s.under p := by
  induction tasks with
  | nil => rfl
  | cons task tasks ih =>
      have htask : (s.under p).Over task := by
        intro t ht
        apply h task t
        change (s.tasks ++ [_])[task]? = some t at ht
        rwa [List.getElem?_append_left (htasks task List.mem_cons_self)] at ht
      rw [List.foldl_cons, htask.drive]
      exact ih fun other hother => htasks other (List.mem_cons_of_mem task hother)

/-- A registration that waits gives up when it is cancelled, whether it waits for an answer or for
its next attempt. -/
theorem drive_cancelled (hcancelled : s.cancelled.contains s.token = true)
    (hstanding : p.standing = .registering)
    (hstage : p.stage = .awaitingAnswer ∨ p.stage = .pausing) :
    (s.under p).drive s.tasks.length =
      s.under { p with standing := .unregistered, stage := .ended (.failed .cancelled) } := by
  have hheed := @stepTask?_to s p .registering .abandoning (by
    rw [hcancelled, hstanding]
    rcases hstage with h | h
    · rw [h]
      rfl
    · rw [h]
      rfl)
  have habandon := @stepTask?_to s { p with standing := .registering, stage := .abandoning }
    .unregistered (.ended (.failed .cancelled)) rfl
  rw [drive, patience, runTask_of_some hheed, runTask_of_some habandon]
  exact runTask_of_none (stepTask?_of_ended rfl) 62

theorem cancel_under (hover : ∀ task, s.Over task) (hstanding : p.standing = .registering)
    (hstage : p.stage = .awaitingAnswer ∨ p.stage = .pausing) :
    (s.under p).cancel = under { s with cancelled := s.token :: s.cancelled }
      { p with standing := .unregistered, stage := .ended (.failed .cancelled) } := by
  let after : Attendance := { s with cancelled := s.token :: s.cancelled }
  have hcancelled : after.cancelled.contains after.token = true := by
    simp [after]
  have hlength : (s.under p).tasks.length = s.tasks.length + 1 := by
    simp [under]
  show (List.range (s.under p).tasks.length).foldl drive (after.under p) = _
  -- Every task is woken in turn, and the registration is the last.
  rw [hlength, List.range_succ, List.foldl_append]
  rw [@drive_others after p hover _ fun task htask => List.mem_range.mp htask]
  exact drive_cancelled hcancelled hstanding hstage

end Attendance
end Rollcall
