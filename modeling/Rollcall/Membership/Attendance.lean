import Rollcall.Membership.Call

/-!
# A member in time

A member, the calls at work on it, and a registry whose answers are laid down in advance. Time
stands still as long as any call can move, and then jumps to the next instant at which one hears
something. What is due at one instant happens in the order in which it was set.
-/

namespace Rollcall

/-- An answer laid down in advance: what it says and when it comes. -/
structure ScriptedAnswer where
  answer : Except MemberError InstanceId
  delay : Duration := ⟨0⟩
  /-- The answer never comes. -/
  hangs : Bool := false

/-- The answers to come, for each kind of inquiry. The last of a list repeats for ever, so a script
never runs out; without any there is a fallback. -/
structure Script where
  register : List ScriptedAnswer := []
  heartbeat : List ScriptedAnswer := []
  deregister : List ScriptedAnswer := []

namespace Script

/-- The next answer of a list, and the list afterwards. -/
def next (fallback : ScriptedAnswer) : List ScriptedAnswer → ScriptedAnswer × List ScriptedAnswer
  | [] => (fallback, [])
  | [last] => (last, [last])
  | a :: rest => (a, rest)

/-- The answer to an inquiry, and the script afterwards. -/
def answer (s : Script) (fallback : ScriptedAnswer) : Inquiry → ScriptedAnswer × Script
  | .register _ =>
    let (a, rest) := next fallback s.register
    (a, { s with register := rest })
  | .heartbeat _ =>
    let (a, rest) := next fallback s.heartbeat
    (a, { s with heartbeat := rest })
  | .deregister .. =>
    let (a, rest) := next fallback s.deregister
    (a, { s with deregister := rest })

/-- How many answers of the script differ from those before them at most. -/
def length (s : Script) : Nat := s.register.length + s.heartbeat.length + s.deregister.length

end Script

/-- A call and the token by which it can be cancelled. Calls that are made with one token are
cancelled together. -/
structure Task where
  token : Nat
  call : Call

/-- Something that a task will hear at an instant, if it still waits for it by then. -/
structure Alarm where
  due : Instant
  task : Nat
  signal : Signal

/-- A member, all that is under way on it, and what has been asked so far. It is also the executor
of the calls, one thread on which a task moves until it has to wait. -/
structure Attendance where
  member : Member
  retryInterval : Duration
  period : Duration
  /-- The answer of a registry for which nothing is laid down. -/
  fallback : ScriptedAnswer
  script : Script
  time : Instant := ⟨0⟩
  /-- The token that new calls are given; every token below it or listed has a fate of its own. -/
  token : Nat := 0
  cancelled : List Nat := []
  tasks : List Task := []
  /-- What is to come, in the order in which it was set. -/
  alarms : List Alarm := []
  /-- What has been asked of the registry, and when, last first. -/
  inquiries : List (Instant × Inquiry) := []

namespace Attendance

/-- Lets a task hear a signal at an instant. -/
def setAlarm (s : Attendance) (due : Instant) (task : Nat) (signal : Signal) : Attendance :=
  { s with alarms := s.alarms ++ [⟨due, task, signal⟩] }

def setCall (s : Attendance) (task : Nat) (call : Call) : Attendance :=
  { s with tasks := s.tasks.modify task fun t => { t with call := call } }

def call? (s : Attendance) (task : Nat) : Option Call := (s.tasks[task]?).map (·.call)

def fromNow (s : Attendance) (span : Duration) : Instant := ⟨s.time.nanos + span.nanos⟩

/-- Lets a task hear a signal, if it waits for it. A heartbeat taken sets the alarm for the next
one; a failed attempt sets the alarm for the next attempt. -/
def hear (s : Attendance) (task : Nat) (signal : Signal) : Attendance :=
  match (s.call? task).bind fun c => c.react s.time s.period signal with
  | none => s
  | some call =>
    let s := s.setCall task call
    match call.stage, call.goal with
    | .pausing, _ => s.setAlarm (s.fromNow s.retryInterval) task .paused
    | .checking, .keepAlive due => s.setAlarm due task .ticked
    | _, _ => s

/-- Asks the registry. An answer without delay is heard at once, before any other task moves; one
that hangs is never heard. -/
def ask (s : Attendance) (task : Nat) (inquiry : Inquiry) : Attendance :=
  let (scripted, script) := s.script.answer s.fallback inquiry
  let s := { s with script := script, inquiries := (s.time, inquiry) :: s.inquiries }
  if scripted.hangs then s
  else if scripted.delay.nanos = 0 then s.hear task (.answered scripted.answer)
  else s.setAlarm (s.fromNow scripted.delay) task (.answered scripted.answer)

/-- Moves a task by one step, if it can move: a step of its call, or a heartbeat that came due
while the call was busy. -/
def stepTask? (s : Attendance) (task : Nat) : Option Attendance :=
  match s.tasks[task]? with
  | none => none
  | some t =>
    match t.call.step (s.cancelled.contains t.token) s.member with
    | some move =>
      let s := { s.setCall task move.call with member := move.member }
      some (match move.inquiry? with
        | none => s
        | some inquiry => s.ask task inquiry)
    | none =>
      -- No step is left but a tick that came due while the call was busy.
      match t.call.stage, t.call.goal with
      | .awaitingTick, .keepAlive due =>
        if due.nanos ≤ s.time.nanos then some (s.hear task .ticked) else none
      | _, _ => none

/-- Moves a task until it has to wait, in so many steps at most. -/
def runTask (task : Nat) : Nat → Attendance → Attendance
  | 0, s => s
  | n + 1, s =>
    match s.stepTask? task with
    | none => s
    | some s => runTask task n s

/-- More steps than a task can make before time has to move: from one heartbeat over a new
registration to the next wait it takes about a dozen. -/
def patience : Nat := 64

/-- Moves a task until it has to wait; `patience` is enough for that. -/
def drive (s : Attendance) (task : Nat) : Attendance := runTask task patience s

/-- The alarm that goes off next: of those due first, the one set first. -/
def nextAlarm? (s : Attendance) : Option Alarm :=
  s.alarms.foldl (fun best? a =>
    match best? with
    | none => some a
    | some best => some (if a.due.nanos < best.due.nanos then a else best)) none

def dropAlarm (s : Attendance) (a : Alarm) : Attendance :=
  { s with alarms := s.alarms.eraseP fun b => b.due = a.due }

/-- Lets an alarm go off: time jumps to it, its task hears it and moves until it has to wait
again. -/
def goOff (s : Attendance) (a : Alarm) : Attendance :=
  (({ s.dropAlarm a with time := a.due }).hear a.task a.signal).drive a.task

def finished (s : Attendance) (task : Nat) : Bool :=
  match s.call? task with
  | some call => call.outcome?.isSome
  | none => true

/-- Lets alarms go off until an instant, so many at most. -/
def passTo (target : Instant) : Nat → Attendance → Attendance
  | 0, s => s
  | n + 1, s =>
    match s.nextAlarm? with
    | none => s
    | some a => if a.due.nanos ≤ target.nanos then passTo target n (s.goOff a) else s

/-- Lets alarms go off until an instant or until a task is over, so many at most. -/
def passUntil (target : Instant) (task : Nat) : Nat → Attendance → Attendance
  | 0, s => s
  | n + 1, s =>
    if s.finished task then s
    else
      match s.nextAlarm? with
      | none => s
      | some a =>
        if a.due.nanos ≤ target.nanos then passUntil target task n (s.goOff a) else s

/-- More alarms than can go off within a span: each task hears at most four within a millisecond,
but for pauses without length, of which each uses up an answer. -/
def alarmsWithin (s : Attendance) (span : Duration) : Nat :=
  (s.tasks.length + 1) * 4 * (span.nanos / 1000000 + 1) + 2 * s.script.length + patience

def advance (s : Attendance) (span : Duration) : Attendance :=
  let target := s.fromNow span
  { passTo target (s.alarmsWithin span) s with time := target }

/-- Lets everything go off that is due by now. -/
def rest (s : Attendance) : Attendance := s.advance ⟨0⟩

/-- Starts a call as a task of its own under the present token, and drives it until it has to wait.
A heartbeat loop is given an alarm for its first beat. -/
def spawn (s : Attendance) (call : Call) : Attendance × Nat :=
  let task := s.tasks.length
  let s := { s with tasks := s.tasks ++ [Task.mk s.token call] }
  let s := match call.goal with
    | .keepAlive due => s.setAlarm due task .ticked
    | _ => s
  (s.drive task, task)

/-- Waits for a task, for so long at most. Of one that takes longer nothing is known but that it is
not over. -/
def join (s : Attendance) (task : Nat) (span : Duration) : Attendance × Option Outcome :=
  let target := s.fromNow span
  let s := passUntil target task (s.alarmsWithin span) s
  match (s.call? task).bind Call.outcome? with
  | some outcome => (s.rest, some outcome)
  | none => ({ s with time := target }, none)

def drop (s : Attendance) (task : Nat) : Attendance :=
  s.setCall task ⟨.register, .ended .stopped⟩

/-- Makes a call and waits for it, for so long at most. A call that takes longer is dropped where it
stands, as a future that nobody polls any more; the member stays as the call has left it. -/
def await (s : Attendance) (call : Call) (span : Duration) : Attendance × Option Outcome :=
  let (s, task) := s.spawn call
  match s.join task span with
  | (s, some outcome) => (s, some outcome)
  | (s, none) => (s.drop task, none)

/-- Cancels every call that has been given the present token. Each of them moves at once, in the
order in which they were made. -/
def cancel (s : Attendance) : Attendance :=
  let s := { s with cancelled := s.token :: s.cancelled }
  (List.range s.tasks.length).foldl drive s

def apply (s : Attendance) (p : Patch) : Attendance :=
  { s with member := { s.member with cache := s.member.cache.apply p } }

/-- Gives calls to come a token of their own, so that they are not cancelled with those before. -/
def renewToken (s : Attendance) : Attendance := { s with token := s.token + 1 }

end Attendance
end Rollcall
