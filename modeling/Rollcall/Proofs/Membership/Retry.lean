import Rollcall.Proofs.Membership.Progress

/-!
# Registering until the registry acknowledges

A registration that is turned down is tried again, always the same interval after the answer, and it
does not matter with what it has been turned down. So the setbacks that it meets tell when each
attempt is made and when the last one is acknowledged, `Setback.attempts` and `Setback.acknowledged`.

* `Attendance.passTo_ask` — how far a registration has come by an instant;
* `Attendance.registers_in_the_end` — how a registration ends.
-/

namespace Rollcall

/-! ## Setbacks -/

/-- A reply that turns a registration down, and how long it takes. Why it does so makes no
difference. -/
structure Setback where
  error : MemberError
  delay : Duration

namespace Setback

def reply (b : Setback) : ScriptedAnswer := { answer := .error b.error, delay := b.delay }

/-- When the next attempt is made after one that meets a setback. -/
def next (interval : Duration) (b : Setback) (tried : Instant) : Instant :=
  ⟨tried.nanos + b.delay.nanos + interval.nanos⟩

/-- The instants of the attempts, if each but the last meets a setback: after each comes its answer,
and then the pause. -/
def attempts (interval : Duration) : Instant → List Setback → List Instant
  | tried, [] => [tried]
  | tried, b :: more => tried :: attempts interval (b.next interval tried) more

/-- When the last attempt is acknowledged, if that takes `delay`. -/
def acknowledged (interval delay : Duration) : Instant → List Setback → Instant
  | tried, [] => ⟨tried.nanos + delay.nanos⟩
  | tried, b :: more => acknowledged interval delay (b.next interval tried) more

variable {interval delay : Duration} {tried : Instant} {setbacks : List Setback}

theorem length_attempts : (attempts interval tried setbacks).length = setbacks.length + 1 := by
  induction setbacks generalizing tried with
  | nil => rfl
  | cons b more ih => rw [attempts, List.length_cons, ih, List.length_cons]

theorem le_of_mem_attempts {instant : Instant} (h : instant ∈ attempts interval tried setbacks) :
    tried.nanos ≤ instant.nanos := by
  induction setbacks generalizing tried with
  | nil =>
      obtain rfl := List.mem_singleton.mp h
      exact Nat.le_refl _
  | cons b more ih =>
      rcases List.mem_cons.mp h with rfl | hlater
      · exact Nat.le_refl _
      · have hnext : tried.nanos + b.delay.nanos + interval.nanos ≤ instant.nanos := ih hlater
        omega

theorem tried_le_acknowledged (interval delay : Duration) (tried : Instant)
    (setbacks : List Setback) :
    tried.nanos ≤ (acknowledged interval delay tried setbacks).nanos := by
  induction setbacks generalizing tried with
  | nil => exact Nat.le_add_right _ _
  | cons b more ih =>
      have hnext : tried.nanos + b.delay.nanos + interval.nanos ≤
          (acknowledged interval delay tried (b :: more)).nanos := ih (b.next interval tried)
      omega

theorem le_acknowledged {instant : Instant} (h : instant ∈ attempts interval tried setbacks) :
    instant.nanos ≤ (acknowledged interval delay tried setbacks).nanos := by
  induction setbacks generalizing tried with
  | nil =>
      rw [List.mem_singleton.mp h]
      exact Nat.le_add_right _ _
  | cons b more ih =>
      rcases List.mem_cons.mp h with rfl | hlater
      · exact tried_le_acknowledged interval delay _ (b :: more)
      · exact ih hlater

theorem filter_attempts_of_lt {target : Instant} (h : target.nanos < tried.nanos) :
    (attempts interval tried setbacks).filter (·.nanos ≤ target.nanos) = [] := by
  apply List.filter_eq_nil_iff.mpr
  intro instant hinstant
  have hlater := le_of_mem_attempts hinstant
  simpa using Nat.lt_of_lt_of_le h hlater

theorem filter_attempts_of_le {target : Instant}
    (h : (acknowledged interval delay tried setbacks).nanos ≤ target.nanos) :
    (attempts interval tried setbacks).filter (·.nanos ≤ target.nanos) =
      attempts interval tried setbacks := by
  apply List.filter_eq_self.mpr
  intro instant hinstant
  exact decide_eq_true (Nat.le_trans (le_acknowledged hinstant) h)

end Setback

/-! ## How far a registration has come -/

/-- What the registry has been asked by attempts at these instants, last first. -/
def Registration.inquiries (reg : Registration) (instants : List Instant) :
    List (Instant × Inquiry) :=
  (instants.map fun tried => (tried, Inquiry.register reg)).reverse

/-- How far a registration has come by an instant if it meets setbacks, one with each attempt,
before it is acknowledged. -/
structure Progress.Reaches (s : Attendance) (p : Progress) (setbacks : List Setback)
    (delay : Duration) (id : InstanceId) (target : Instant) (q : Progress) : Prop where
  asked : q.asked = s.member.registration.inquiries
    ((Setback.attempts s.retryInterval p.now setbacks).filter (·.nanos ≤ target.nanos)) ++ p.asked
  waits : target.nanos < (Setback.acknowledged s.retryInterval delay p.now setbacks).nanos →
    q.standing = .registering ∧ (q.stage = .awaitingAnswer ∨ q.stage = .pausing)
  ends : (Setback.acknowledged s.retryInterval delay p.now setbacks).nanos ≤ target.nanos →
    q.standing = .registered id ∧ q.stage = .ended (.registered id)

namespace Progress

variable {s : Attendance} {p q : Progress} {b : Setback} {setbacks : List Setback}
  {delay : Duration} {id : InstanceId} {target : Instant}

theorem inquiries_attempts (hnow : p.now.nanos ≤ target.nanos) :
    s.member.registration.inquiries ((Setback.attempts s.retryInterval p.now
        (b :: setbacks)).filter (·.nanos ≤ target.nanos)) ++ p.asked =
      s.member.registration.inquiries ((Setback.attempts s.retryInterval
        (b.next s.retryInterval p.now) setbacks).filter (·.nanos ≤ target.nanos)) ++
        (p.now, .register s.member.registration) :: p.asked := by
  have hfirst : decide (p.now.nanos ≤ target.nanos) = true := decide_eq_true hnow
  rw [Setback.attempts, List.filter_cons, if_pos hfirst, Registration.inquiries, List.map_cons,
    List.reverse_cons, List.append_assoc]
  rfl

theorem Reaches.of_lt (hnow : p.now.nanos ≤ target.nanos)
    (hlater : target.nanos < (b.next s.retryInterval p.now).nanos)
    (hasked : q.asked = (p.now, .register s.member.registration) :: p.asked)
    (hstanding : q.standing = .registering)
    (hstage : q.stage = .awaitingAnswer ∨ q.stage = .pausing) :
    p.Reaches s (b :: setbacks) delay id target q where
  asked := by
    rw [inquiries_attempts hnow, Setback.filter_attempts_of_lt hlater]
    exact hasked
  waits _ := ⟨hstanding, hstage⟩
  ends hover := by
    have hlast := Setback.tried_le_acknowledged s.retryInterval delay
      (b.next s.retryInterval p.now) setbacks
    exact absurd (Nat.lt_of_lt_of_le hlater hlast) (Nat.not_lt.mpr hover)

theorem Reaches.cons {next : Progress} (h : next.Reaches s setbacks delay id target q)
    (hnow : p.now.nanos ≤ target.nanos) (hnext : next.now = b.next s.retryInterval p.now)
    (hasked : next.asked = (p.now, .register s.member.registration) :: p.asked) :
    p.Reaches s (b :: setbacks) delay id target q where
  asked := by
    rw [inquiries_attempts hnow, ← hnext, ← hasked]
    exact h.asked
  waits := by
    have hwaits := h.waits
    rwa [hnext] at hwaits
  ends := by
    have hends := h.ends
    rwa [hnext] at hends

end Progress

namespace Attendance

variable {s : Attendance} {p : Progress} {target : Instant}

/-- An attempt has not been answered by an instant, or its answer has been heard. -/
theorem passTo_attempt (hcalm : s.cancelled.contains s.token = false)
    (hstanding : p.standing = .registering) (halarms : p.alarms = []) {a : ScriptedAnswer}
    {rest : List ScriptedAnswer} (hnext : Script.next s.fallback p.answers = (a, rest))
    (hhangs : a.hangs = false) (hnow : p.now.nanos ≤ target.nanos) (n : Nat) :
    let answered : Instant := ⟨p.now.nanos + a.delay.nanos⟩
    (target.nanos < answered.nanos ∧ ∃ alarms, passTo target (n + 1) (s.under (p.ask s)) =
      s.under { p.inquire s rest with alarms := alarms }) ∨
    (answered.nanos ≤ target.nanos ∧ ∃ m ≥ n, passTo target (n + 1) (s.under (p.ask s)) =
      passTo target m (s.under (Progress.hear s
        { p.inquire s rest with alarms := [], now := answered } a.answer))) := by
  intro answered
  have hask : p.ask s = if a.delay.nanos = 0 then (p.inquire s rest).hear s a.answer
      else { p.inquire s rest with
        alarms := [⟨answered, s.tasks.length, .answered a.answer⟩] } := by
    rw [Progress.ask, hnext]
    simp [hhangs, Progress.inquire, halarms, answered]
  rw [hask]
  by_cases hdelay : a.delay.nanos = 0
  -- The answer has been heard when the attempt was made.
  · have hsame : p.inquire s rest = { p.inquire s rest with alarms := [], now := answered } := by
      simp [Progress.inquire, halarms, answered, hdelay]
    rw [if_pos hdelay, ← hsame]
    refine Or.inr ⟨?_, n + 1, Nat.le_succ n, rfl⟩
    simpa [answered, hdelay] using hnow
  · -- Otherwise the answer is an alarm, which goes off by the target or does not.
    rw [if_neg hdelay]
    by_cases hlate : target.nanos < answered.nanos
    · exact Or.inl ⟨hlate, _, passTo_of_later rfl hlate _⟩
    · have hdue := Nat.le_of_not_lt hlate
      have hgoes := @goOff_answered s { p.inquire s rest with alarms := _ } hcalm hstanding rfl
        answered a.answer rfl
      refine Or.inr ⟨hdue, n, Nat.le_refl n, ?_⟩
      rw [passTo_of_due rfl hdue]
      exact congrArg (passTo target n) hgoes

/-- The attempt that is acknowledged, unless that comes after the instant, ends the registration. -/
theorem passTo_last (hcalm : s.cancelled.contains s.token = false) {id : InstanceId}
    {delay : Duration} {later : List ScriptedAnswer} (hstanding : p.standing = .registering)
    (halarms : p.alarms = []) (hanswers : p.answers = { answer := .ok id, delay := delay } :: later)
    (hnow : p.now.nanos ≤ target.nanos) (n : Nat) :
    ∃ q : Progress, passTo target (n + 1) (s.under (p.ask s)) = s.under q ∧
      p.Reaches s [] delay id target q := by
  obtain ⟨rest, hnext⟩ : ∃ rest, Script.next s.fallback p.answers =
      ({ answer := .ok id, delay := delay }, rest) := by
    rw [hanswers]
    cases later with
    | nil => exact ⟨_, rfl⟩
    | cons b later => exact ⟨_, rfl⟩
  have hasked : s.member.registration.inquiries ((Setback.attempts s.retryInterval p.now
      []).filter (·.nanos ≤ target.nanos)) ++ p.asked =
        (p.now, .register s.member.registration) :: p.asked := by
    simp [Setback.attempts, Registration.inquiries, hnow]
  rcases passTo_attempt hcalm hstanding halarms hnext rfl hnow n with
    ⟨hlate, alarms, hpast⟩ | ⟨hheard, m, -, hpast⟩
  · refine ⟨_, hpast, hasked.symm, ?_, ?_⟩
    · intro _
      exact ⟨hstanding, Or.inl rfl⟩
    · intro hover
      exact absurd hover (Nat.not_le.mpr hlate)
  · let heard : Progress := Progress.hear s
      { p.inquire s rest with alarms := [], now := ⟨p.now.nanos + delay.nanos⟩ } (.ok id)
    refine ⟨heard, hpast.trans (@passTo_of_none s heard target rfl m), hasked.symm, ?_, ?_⟩
    · intro hwaits
      exact absurd hheard (Nat.not_le.mpr hwaits)
    · intro _
      exact ⟨rfl, rfl⟩

/-- How far a registration has come by an instant, if there are alarms enough for every attempt. The
induction is on the setbacks that are still to come. -/
theorem passTo_ask (hcalm : s.cancelled.contains s.token = false) {id : InstanceId}
    {delay : Duration} {later : List ScriptedAnswer} (setbacks : List Setback)
    (hstanding : p.standing = .registering) (halarms : p.alarms = [])
    (hanswers : p.answers =
      setbacks.map Setback.reply ++ { answer := .ok id, delay := delay } :: later)
    (hnow : p.now.nanos ≤ target.nanos) {n : Nat} (hn : 2 * setbacks.length + 1 ≤ n) :
    ∃ q : Progress, passTo target n (s.under (p.ask s)) = s.under q ∧
      p.Reaches s setbacks delay id target q := by
  -- A setback takes two alarms, its answer and its pause, and then the rest begins anew.
  induction setbacks generalizing p n with
  | nil =>
      obtain ⟨n, rfl⟩ : ∃ k, n = k + 1 := ⟨n - 1, by omega⟩
      exact passTo_last hcalm hstanding halarms hanswers hnow n
  | cons b more ih =>
      obtain ⟨n, rfl⟩ : ∃ k, n = k + 1 := ⟨n - 1, by omega⟩
      let rest := more.map Setback.reply ++ { answer := .ok id, delay := delay } :: later
      have hnext : Script.next s.fallback p.answers = (b.reply, rest) := by
        rw [hanswers]
        cases more with
        | nil => rfl
        | cons c more => rfl
      let again := b.next s.retryInterval p.now
      rcases passTo_attempt hcalm hstanding halarms hnext rfl hnow n with
        ⟨hlate, alarms, hpast⟩ | ⟨-, m, hm, hpast⟩
      · have hlater : target.nanos < again.nanos :=
          Nat.lt_of_lt_of_le hlate (Nat.le_add_right _ _)
        exact ⟨_, hpast, .of_lt hnow hlater rfl hstanding (Or.inl rfl)⟩
      · let paused : Progress := { p.inquire s rest with
          stage := .pausing
          now := ⟨p.now.nanos + b.delay.nanos⟩
          alarms := [⟨again, s.tasks.length, .paused⟩] }
        have hpaused : passTo target (n + 1) (s.under (p.ask s)) =
            passTo target m (s.under paused) := by
          rw [hpast]
          simp only [Progress.hear, Progress.inquire, halarms]
          rfl
        rw [hpaused]
        -- The pause goes on, or the next attempt is made and meets what is left.
        by_cases hlater : target.nanos < again.nanos
        · exact ⟨paused, passTo_of_later rfl hlater m,
            .of_lt hnow hlater rfl hstanding (Or.inr rfl)⟩
        · rw [List.length_cons] at hn
          obtain ⟨m, rfl⟩ : ∃ k, m = k + 1 := ⟨m - 1, by omega⟩
          let resumed : Progress := { paused with alarms := [], now := again }
          have hdue := Nat.le_of_not_lt hlater
          obtain ⟨q, hq, hreaches⟩ := @ih resumed hstanding rfl rfl hdue m (by omega)
          refine ⟨q, ?_, hreaches.cons hnow rfl rfl⟩
          rw [passTo_of_due rfl hdue, ← hq]
          exact congrArg (passTo target m) (@goOff_paused s paused hcalm hstanding rfl again rfl)

/-! ## How a registration ends -/

/-- Nothing is under way: every call is over, and nothing is to come. -/
structure Idle (s : Attendance) : Prop where
  ended : ∀ task, s.Over task
  alarms : s.alarms = []

/-- A registration that is complete, of a member that has not left, with a token that is good.
Otherwise nothing is asked at all. -/
structure Admissible (s : Attendance) : Prop where
  complete : s.member.registration.validate = .ok ()
  present : s.member.standing ≠ .terminated
  calm : s.cancelled.contains s.token = false

/-- The progress of a registration that is about to ask for the first time. -/
def first (s : Attendance) : Progress := { s.begun with standing := .registering }

theorem Admissible.spawn (h : s.Admissible) :
    s.spawn .register = (s.under (s.first.ask s), s.tasks.length) :=
  spawn_of_valid h.complete h.present h.calm

theorem fromNow_first (s : Attendance) (span : Duration) :
    (s.under (s.first.ask s)).fromNow span = s.fromNow span := by
  show (⟨(s.first.ask s).now.nanos + span.nanos⟩ : Instant) = _
  rw [(s.first.ask_takes s).1]
  rfl

/-- As long as it is not cancelled, a registration waits or has been acknowledged. It never gives up
by itself. -/
theorem Admissible.advance_sound (h : s.Admissible) (hidle : s.Idle) (span : Duration) :
    ∃ q : Progress, (s.under (s.first.ask s)).advance span = s.under q ∧ q.Sound s := by
  obtain ⟨q, hq, hsound⟩ := sound_passTo h.calm (@Progress.sound_ask s s.first rfl hidle.alarms)
    ((s.under (s.first.ask s)).fromNow span) ((s.under (s.first.ask s)).alarmsWithin span)
  refine ⟨_, advance_under hq, ?_⟩
  cases hsound with
  | awaiting hstanding hstage halarms => exact .awaiting hstanding hstage halarms
  | pausing hstanding hstage due halarms => exact .pausing hstanding hstage due halarms
  | acknowledged id hstage halarms => exact .acknowledged id hstage halarms

theorem le_alarmsWithin {setbacks : List Setback} {a : ScriptedAnswer}
    {later : List ScriptedAnswer}
    (h : s.script.register = setbacks.map Setback.reply ++ a :: later) (span : Duration) :
    2 * setbacks.length + 1 ≤ (s.under (s.first.ask s)).alarmsWithin span := by
  have hrest : setbacks.length ≤ (s.first.ask s).answers.length := by
    rw [(s.first.ask_takes s).2]
    show _ ≤ (Script.next s.fallback s.script.register).2.length
    rw [h]
    cases setbacks with
    | nil => exact Nat.zero_le _
    | cons b more =>
        cases more with
        | nil => simp [Script.next]
        | cons c more => simp [Script.next]
  simp only [alarmsWithin, under, Script.length, patience]
  omega

theorem Admissible.advance_reaches (h : s.Admissible) (hidle : s.Idle) {setbacks : List Setback}
    {id : InstanceId} {delay : Duration} {later : List ScriptedAnswer}
    (hscript : s.script.register =
      setbacks.map Setback.reply ++ { answer := .ok id, delay := delay } :: later)
    (span : Duration) :
    ∃ q : Progress, (s.under (s.first.ask s)).advance span =
        s.under { q with now := s.fromNow span } ∧
      s.first.Reaches s setbacks delay id (s.fromNow span) q := by
  have hnow : s.first.now.nanos ≤ (s.fromNow span).nanos := Nat.le_add_right _ _
  obtain ⟨q, hq, hreaches⟩ := passTo_ask h.calm setbacks rfl hidle.alarms hscript hnow
    (le_alarmsWithin hscript span)
  refine ⟨q, ?_, hreaches⟩
  rw [← fromNow_first] at hq ⊢
  exact advance_under hq

/-- A registration that has been cancelled is over for good, and the member is as if it had never
begun. -/
theorem advance_cancelled (hover : ∀ task, s.Over task) (hstanding : p.standing = .registering)
    (hstage : p.stage = .awaitingAnswer ∨ p.stage = .pausing) (more : Duration) :
    let after := (s.under p).cancel.advance more
    after.call? s.tasks.length = some ⟨.register, .ended (.failed .cancelled)⟩ ∧
      after.member = { s.member with standing := .unregistered } ∧ after.inquiries = p.asked := by
  intro after
  have hcancel := cancel_under hover hstanding hstage
  have hover' : ∀ task, (s.under p).cancel.Over task := by
    rw [hcancel]
    exact over_under hover rfl
  obtain ⟨htasks, hmember, hinquiries⟩ :=
    passTo_of_over hover' ((s.under p).cancel.fromNow more) ((s.under p).cancel.alarmsWithin more)
  refine ⟨?_, hmember.trans (by rw [hcancel]; rfl), hinquiries.trans (by rw [hcancel]; rfl)⟩
  have hcall : after.call? s.tasks.length = (s.under p).cancel.call? s.tasks.length :=
    congrArg (fun tasks => (tasks[s.tasks.length]?).map Task.call) htasks
  rw [hcall, hcancel]
  exact call?_under { s with cancelled := s.token :: s.cancelled } _

/-- A registration that is incomplete fails at once and asks nothing. Any other goes on, whatever it
is turned down with, until it is acknowledged, and does not leave off before; each attempt is the
same, and follows the answer to the one before by the same interval. If it is cancelled while it
waits, for an answer or for its next attempt, it is over for good, and the member is where it is
without a registration. -/
theorem registers_in_the_end (hidle : s.Idle) :
    let reg := s.member.registration
    let begun := (s.spawn .register).1
    let outcome (t : Attendance) := (t.call? (s.spawn .register).2).bind Call.outcome?
    (∀ e, reg.validate = .error e → ∀ span,
      let t := begun.advance span
      outcome t = some (.failed (.input e)) ∧ t.member = s.member ∧ t.inquiries = s.inquiries) ∧
    (s.Admissible → ∀ setbacks id delay later, s.script.register =
        setbacks.map Setback.reply ++ { answer := .ok id, delay := delay } :: later →
      let attempts := Setback.attempts s.retryInterval s.time setbacks
      let acknowledged := Setback.acknowledged s.retryInterval delay s.time setbacks
      attempts.length = setbacks.length + 1 ∧ ∀ span,
        let t := begun.advance span
        t.time = s.fromNow span ∧
        (t.time.nanos < acknowledged.nanos → outcome t = none ∧
          t.member = { s.member with standing := .registering } ∧ t.inquiries =
            reg.inquiries (attempts.filter (·.nanos ≤ t.time.nanos)) ++ s.inquiries) ∧
        (acknowledged.nanos ≤ t.time.nanos → outcome t = some (.registered id) ∧
          t.member = { s.member with standing := .registered id } ∧
          t.inquiries = reg.inquiries attempts ++ s.inquiries)) ∧
    (s.Admissible → ∀ span,
      let t := begun.advance span
      outcome t = none → ∀ more,
        let after := t.cancel.advance more
        outcome after = some (.failed .cancelled) ∧
          after.member = { s.member with standing := .unregistered } ∧
          after.inquiries = t.inquiries) := by
  intro reg begun outcome
  have houtcome (p : Progress) : outcome (s.under p) = Call.outcome? ⟨.register, p.stage⟩ :=
    outcome_under s p
  refine ⟨?_, ?_, ?_⟩
  · -- Not valid, the registration fails before anything is asked.
    intro e hinvalid span
    let refused : Progress := { s.begun with stage := .ended (.failed (.input e)) }
    have hbegun : begun = s.under refused := congrArg Prod.fst (spawn_of_invalid hinvalid)
    have hadvance := advance_under (@passTo_of_none s refused ((s.under refused).fromNow span)
      hidle.alarms ((s.under refused).alarmsWithin span))
    dsimp only
    rw [hbegun, hadvance, houtcome]
    exact ⟨rfl, rfl, rfl⟩
  · intro h setbacks id delay later hscript attempts acknowledged
    have hbegun : begun = s.under (s.first.ask s) := congrArg Prod.fst h.spawn
    refine ⟨Setback.length_attempts, ?_⟩
    intro span
    obtain ⟨q, hq, hreaches⟩ := h.advance_reaches hidle hscript span
    dsimp only
    rw [hbegun, hq, houtcome]
    refine ⟨rfl, ?_, ?_⟩
    · intro hearly
      obtain ⟨hstanding, hstage⟩ := hreaches.waits hearly
      refine ⟨?_, by simp only [under, hstanding], hreaches.asked⟩
      rcases hstage with hstage | hstage
      · rw [hstage]
        rfl
      · rw [hstage]
        rfl
    · intro hlate
      obtain ⟨hstanding, hstage⟩ := hreaches.ends hlate
      -- All attempts come before the acknowledgement, and so before the target.
      have hall : attempts.filter (·.nanos ≤ (s.fromNow span).nanos) = attempts :=
        Setback.filter_attempts_of_le hlate
      refine ⟨by rw [hstage]; rfl, by simp only [under, hstanding], hreaches.asked.trans ?_⟩
      show reg.inquiries (attempts.filter (·.nanos ≤ (s.fromNow span).nanos)) ++ s.inquiries = _
      rw [hall]
  · intro h span
    have hbegun : begun = s.under (s.first.ask s) := congrArg Prod.fst h.spawn
    obtain ⟨q, hq, hsound⟩ := h.advance_sound hidle span
    dsimp only
    rw [hbegun, hq, houtcome]
    intro hwaits more
    obtain ⟨hstanding, hstage⟩ := hsound.waits hwaits
    obtain ⟨hcall, hmember, hinquiries⟩ := advance_cancelled hidle.ended hstanding hstage more
    exact ⟨congrArg (·.bind Call.outcome?) hcall, hmember, hinquiries⟩

/-- A web server is turned down twice, the second time at once and with an error that it would give
itself if it were cancelled, and is then acknowledged. In another course of things it is cancelled
while it pauses, and a web server without an address does not even ask. -/
theorem web_registers_at_last :
    let web : Registration := { role := .web, url := "http://w" }
    let setbacks : List Setback := [⟨.unauthorized, ⟨5⟩⟩, ⟨.cancelled, ⟨0⟩⟩]
    let s : Attendance := {
      member := { registration := web }, retryInterval := ⟨10⟩, period := ⟨100⟩
      fallback := { answer := .error (.transport "down") }
      script.register := setbacks.map Setback.reply ++ [{ answer := .ok ⟨"7"⟩, delay := ⟨2⟩ }] }
    let begun := (s.spawn .register).1
    let outcome (t : Attendance) := (t.call? (s.spawn .register).2).bind Call.outcome?
    let nowhere : Attendance := { s with member := { registration := { web with url := " " } } }
    ((begun.advance ⟨20⟩).member.standing = .registering ∧
      (begun.advance ⟨20⟩).inquiries = [(⟨15⟩, .register web), (⟨0⟩, .register web)]) ∧
    (outcome (begun.advance ⟨27⟩) = some (.registered ⟨"7"⟩) ∧
      (begun.advance ⟨27⟩).member.standing = .registered ⟨"7"⟩ ∧ (begun.advance ⟨27⟩).inquiries =
        [(⟨25⟩, .register web), (⟨15⟩, .register web), (⟨0⟩, .register web)]) ∧
    (outcome ((begun.advance ⟨20⟩).cancel.advance ⟨60⟩) = some (.failed .cancelled) ∧
      ((begun.advance ⟨20⟩).cancel.advance ⟨60⟩).member.standing = .unregistered ∧
      ((begun.advance ⟨20⟩).cancel.advance ⟨60⟩).inquiries = (begun.advance ⟨20⟩).inquiries) ∧
    ((nowhere.spawn .register).1.advance ⟨20⟩).inquiries = [] := by
  intro web setbacks s begun outcome nowhere
  have hidle (t : Attendance) (htasks : t.tasks = []) (halarms : t.alarms = []) : t.Idle := by
    refine ⟨?_, halarms⟩
    intro task u hu
    rw [htasks] at hu
    cases hu
  have hrole : web.role.isBlank = false := by decide +kernel
  have hurl : Text.isBlankText web.url = false := by decide +kernel
  have hblank : Text.isBlankText " " = true := by decide +kernel
  have hvalid : web.validate = .ok () := by
    simp only [Registration.validate, hrole, hurl]
    rfl
  have hinvalid : nowhere.member.registration.validate = .error (.missingField .url) := by
    simp only [nowhere, Registration.validate, hrole, hblank]
    rfl
  have hadmissible : s.Admissible := ⟨hvalid, nofun, rfl⟩
  obtain ⟨-, hends, hcancelled⟩ := registers_in_the_end (hidle s rfl rfl)
  obtain ⟨hrefused, -, -⟩ := registers_in_the_end (hidle nowhere rfl rfl)
  obtain ⟨-, hreaches⟩ := hends hadmissible setbacks ⟨"7"⟩ ⟨2⟩ [] rfl
  obtain ⟨htime, hearly, -⟩ := hreaches ⟨20⟩
  obtain ⟨hwaits, hmember, hasked⟩ := hearly (by rw [htime]; decide +kernel)
  obtain ⟨htime', -, hlate⟩ := hreaches ⟨27⟩
  obtain ⟨hover, hmember', hasked'⟩ := hlate (by rw [htime']; decide +kernel)
  obtain ⟨hgiven, hgone, hsilent⟩ := hcancelled hadmissible ⟨20⟩ hwaits ⟨60⟩
  obtain ⟨-, -, hnone⟩ := hrefused _ hinvalid ⟨20⟩
  rw [htime] at hasked
  refine ⟨⟨by rw [hmember], ?_⟩, ⟨hover, by rw [hmember'], ?_⟩,
    ⟨hgiven, by rw [hgone], hsilent⟩, hnone⟩
  · apply hasked.trans
    decide +kernel
  · apply hasked'.trans
    decide +kernel

end Attendance
end Rollcall
