import Rollcall.Proofs.Membership.Minutes

/-!
# A member that registers and reports alive

A member registers and then reports alive, and nobody else makes calls on it. Its call moves in
steps, the registry answers what it likes, time passes, patches come in; all that is said, and every
change of the cache, goes into the minutes.

* `Dialogue.Consistent.run` — the minutes are kept by the protocol, and the standing goes with them;
* `Dialogue.Consistent.goes_on` — whatever follows does come;
* `Dialogue.keeps_protocol` — what this means for identifiers, the cache and the standing.
-/

namespace Rollcall

/-- A member with the one call on it, and the minutes of what the two have said to each other. -/
structure Dialogue where
  member : Member
  call : Call
  log : Minutes := []

namespace Dialogue

open Minutes (Kept)
open Remark (Follows)

/-- What can happen next: the call takes a step or hears a signal, or a patch comes in between. -/
inductive Turn where
  | step
  | hear (now : Instant) (period : Duration) (signal : Signal)
  /-- The registration has come to its end, and the heartbeats begin. -/
  | proceed (now : Instant) (period : Duration)
  | apply (p : Patch)

/-- Whether neither the registry nor a patch has a part in it, so that it needs nothing but time. -/
def Turn.IsOwn : Turn → Prop
  | step | proceed .. | hear _ _ .paused | hear _ _ .ticked => True
  | _ => False

/-- A registration that is called for. -/
def start (reg : Registration) : Dialogue := ⟨{ registration := reg }, .register, []⟩

/-- What a move puts down. -/
def noted (c : Call) (move : Move) : Minutes :=
  match move.inquiry?, c.stage with
  | some inquiry, _ => [.asked inquiry]
  | none, .forgetting => [.cleared]
  | none, _ => []

/-- What a signal puts down: an answer to what was asked last. -/
def heard (log : Minutes) : Signal → Minutes
  | .answered answer =>
    match log.lastMark? with
    | some (.asked inquiry) => [.answered inquiry answer]
    | _ => []
  | _ => []

def next (d : Dialogue) : Turn → Dialogue
  | .step =>
    match d.call.step false d.member with
    | some move => ⟨move.member, move.call, d.log ++ noted d.call move⟩
    | none => d
  | .hear now period signal =>
    match d.call.react now period signal with
    | some call => { d with call := call, log := d.log ++ heard d.log signal }
    | none => d
  | .proceed now period =>
    match d.call.outcome? with
    | some (.registered _) => { d with call := .keepAlive now period }
    | _ => d
  | .apply p => { d with
      member := { d.member with cache := d.member.cache.apply p }
      log := d.log ++ [.patched p] }

def run (d : Dialogue) (turns : List Turn) : Dialogue := turns.foldl next d

@[simp] theorem run_nil (d : Dialogue) : d.run [] = d := rfl

@[simp] theorem run_cons (d : Dialogue) (t : Turn) (turns : List Turn) :
    d.run (t :: turns) = (d.next t).run turns := rfl

/-- A registration, or the heartbeat loop. Both go on by themselves until they are over. -/
def Talks (goal : Goal) : Prop := goal = .register ∨ ∃ due, goal = .keepAlive due

/-- Where the call and the member stand, by what came last. This is the invariant that carries the
protocol: it says for each stage what may have been said just before it. -/
inductive InLine (reg : Registration) (last? : Option Remark) : Call → Standing → Prop
  | entering {goal : Goal} {standing : Standing} (hgoal : Talks goal)
    (hstanding : standing ≠ .terminated) (h : Follows reg last? (.asked (.register reg))) :
    InLine reg last? ⟨goal, .entering⟩ standing
  | asking {goal : Goal} (hgoal : Talks goal) (h : Follows reg last? (.asked (.register reg))) :
    InLine reg last? ⟨goal, .asking⟩ .registering
  | awaitingAnswer {goal : Goal} (hgoal : Talks goal) (h : last? = some (.asked (.register reg))) :
    InLine reg last? ⟨goal, .awaitingAnswer⟩ .registering
  | pausing {goal : Goal} (hgoal : Talks goal) (h : Follows reg last? (.asked (.register reg))) :
    InLine reg last? ⟨goal, .pausing⟩ .registering
  | acknowledged {goal : Goal} {id : InstanceId} (hgoal : Talks goal)
    (h : last? = some (.answered (.register reg) (.ok id))) :
    InLine reg last? ⟨goal, .acknowledged id⟩ .registering
  | registered {id : InstanceId} (h : Follows reg last? (.asked (.heartbeat id))) :
    InLine reg last? ⟨.register, .ended (.registered id)⟩ (.registered id)
  | awaitingTick {due : Instant} {id : InstanceId} (h : Follows reg last? (.asked (.heartbeat id))) :
    InLine reg last? ⟨.keepAlive due, .awaitingTick⟩ (.registered id)
  | checking {due : Instant} {id : InstanceId} (h : Follows reg last? (.asked (.heartbeat id))) :
    InLine reg last? ⟨.keepAlive due, .checking⟩ (.registered id)
  | reading {due : Instant} {id : InstanceId} (h : Follows reg last? (.asked (.heartbeat id))) :
    InLine reg last? ⟨.keepAlive due, .reading⟩ (.registered id)
  | beating {due : Instant} {id : InstanceId} (h : Follows reg last? (.asked (.heartbeat id))) :
    InLine reg last? ⟨.keepAlive due, .beating id⟩ (.registered id)
  | awaitingBeat {due : Instant} {id : InstanceId} (h : last? = some (.asked (.heartbeat id))) :
    InLine reg last? ⟨.keepAlive due, .awaitingBeat⟩ (.registered id)
  | forgetting {due : Instant} {id : InstanceId}
    (h : last? = some (.answered (.heartbeat id) (.error .unauthorized))) :
    InLine reg last? ⟨.keepAlive due, .forgetting⟩ (.registered id)
  | stopped {due : Instant} {id : InstanceId}
    (h : last? = some (.answered (.heartbeat id) (.error .cancelled))) :
    InLine reg last? ⟨.keepAlive due, .ended .stopped⟩ (.registered id)

/-- What holds of a dialogue at any time: the minutes are well kept, the call is in line with the
last of them, and the cache is what they have made of it. -/
structure Consistent (reg : Registration) (d : Dialogue) : Prop where
  registration : d.member.registration = reg
  kept : Kept reg d.log
  inLine : InLine reg d.log.lastMark? d.call d.member.standing
  cache : d.member.cache = d.log.cache

variable {reg : Registration} {d : Dialogue}

theorem Consistent.say (h : Consistent reg d) {e : Remark} {member : Member} {call : Call}
    (he : Follows reg d.log.lastMark? e) (hreg : member.registration = d.member.registration)
    (hcache : member.cache = e.change d.member.cache)
    (hcall : InLine reg (some e) call member.standing) :
    Consistent reg ⟨member, call, d.log ++ [e]⟩ where
  registration := hreg.trans h.registration
  kept := h.kept.mark he
  inLine := by
    rw [Minutes.lastMark?_concat, if_pos (Minutes.isMark_of_follows he)]
    exact hcall
  cache := by rw [Minutes.cache_concat, ← h.cache, hcache]

theorem Consistent.move (h : Consistent reg d) {member : Member} {call : Call} {log : Minutes}
    (hlog : log = d.log) (hreg : member.registration = d.member.registration)
    (hcache : member.cache = d.member.cache)
    (hcall : InLine reg d.log.lastMark? call member.standing) : Consistent reg ⟨member, call, log⟩ where
  registration := hreg.trans h.registration
  kept := by rw [hlog]; exact h.kept
  inLine := by rw [hlog]; exact hcall
  cache := by rw [hlog]; exact hcache.trans h.cache

theorem inLine_adopted {last? : Option Remark} {goal : Goal} {id : InstanceId} (hgoal : Talks goal)
    (h : last? = some (.answered (.register reg) (.ok id))) :
    InLine reg last? ⟨goal, goal.afterRegistration (.ok id)⟩ (.registered id) := by
  subst h
  rcases hgoal with rfl | ⟨due, rfl⟩
  · exact .registered (.beat id)
  · exact .awaitingTick (.beat id)

theorem Consistent.step (hvalid : reg.validate = .ok ()) (h : Consistent reg d) :
    Consistent reg (d.next .step) := by
  simp only [next]
  cases hstep : d.call.step false d.member with
  | none => exact h
  | some move =>
      obtain ⟨hgoal, hsteps⟩ := Call.steps_of_step hstep
      obtain ⟨member, ⟨goal, stage⟩, inquiry?⟩ := move
      obtain ⟨m, ⟨goal, before⟩, log⟩ := d
      obtain rfl := hgoal
      have hline := h.inLine
      have hreg := h.registration
      dsimp only at hsteps hline hreg ⊢
      generalize hstanding : m.standing = standing at hline
      -- The place in the dialogue settles what the next step can be: nobody is cancelled, the
      -- registration is valid, and the standing is the one that the place goes with.
      cases hline with
      | entering hgoal hne hlast =>
          cases hsteps with
          | refuse e hinvalid =>
              rw [hreg, hvalid] at hinvalid
              cases hinvalid
          | tooLate _ hterminated => exact absurd (hstanding.symm.trans hterminated) hne
          | begin => exact h.move (List.append_nil log) rfl rfl (.asking hgoal hlast)
          | heed hcancelled => cases hcancelled
      | asking hgoal hlast =>
          cases hsteps with
          | ask =>
              rw [hreg]
              exact h.say hlast rfl rfl (hstanding ▸ .awaitingAnswer hgoal rfl)
          | heed hcancelled => cases hcancelled
      | awaitingAnswer | pausing =>
          cases hsteps with
          | heed hcancelled => cases hcancelled
      | acknowledged hgoal hlast =>
          cases hsteps with
          | discard id hterminated =>
              rw [hstanding] at hterminated
              cases hterminated
          | adopt id => exact h.move (List.append_nil log) rfl rfl (inLine_adopted hgoal hlast)
          | heed hcancelled => cases hcancelled
      | registered => cases hstep
      | awaitingTick =>
          cases hsteps with
          | heed hcancelled | stopWaiting hcancelled => cases hcancelled
      | checking hlast =>
          cases hsteps with
          | stop hterminated =>
              rw [hstanding] at hterminated
              cases hterminated
          | goOn => exact h.move (List.append_nil log) rfl rfl (hstanding ▸ .reading hlast)
          | heed hcancelled => cases hcancelled
      | reading hlast =>
          cases hsteps with
          | skip hnone =>
              rw [hstanding] at hnone
              cases hnone
          | read id hid =>
              obtain rfl := Standing.registered.inj (hstanding.symm.trans hid)
              exact h.move (List.append_nil log) rfl rfl (hstanding ▸ .beating hlast)
          | heed hcancelled => cases hcancelled
      | beating hlast =>
          cases hsteps with
          | beat id => exact h.say hlast rfl rfl (hstanding ▸ .awaitingBeat rfl)
          | heed hcancelled => cases hcancelled
      | awaitingBeat | stopped => cases hstep
      | forgetting hlast =>
          cases hsteps with
          | forget =>
              refine h.say (e := .cleared) ?_ rfl rfl (.entering (Or.inr ⟨_, rfl⟩) ?_ .again)
              · dsimp only
                rw [hlast]
                exact .clear _
              · dsimp only
                rw [hstanding]
                nofun
          | heed hcancelled => cases hcancelled

theorem heard_answered {log : Minutes} {inquiry : Inquiry} (h : log.lastMark? = some (.asked inquiry))
    (answer : Except MemberError InstanceId) :
    heard log (.answered answer) = [.answered inquiry answer] := by
  simp only [heard, h]

theorem Consistent.answer (h : Consistent reg d) {inquiry : Inquiry}
    (hlast : d.log.lastMark? = some (.asked inquiry)) {answer : Except MemberError InstanceId}
    {call : Call} (hcall : InLine reg (some (.answered inquiry answer)) call d.member.standing) :
    Consistent reg ⟨d.member, call, d.log ++ heard d.log (.answered answer)⟩ := by
  rw [heard_answered hlast]
  refine h.say ?_ rfl rfl hcall
  rw [hlast]
  exact .answer inquiry answer

theorem Consistent.hear (h : Consistent reg d) (now : Instant) (period : Duration) (signal : Signal) :
    Consistent reg (d.next (.hear now period signal)) := by
  simp only [next]
  cases hreact : d.call.react now period signal with
  | none => exact h
  | some call =>
      have hhears := Call.hears_of_react hreact
      obtain ⟨m, ⟨goal, stage⟩, log⟩ := d
      have hline := h.inLine
      dsimp only at hhears hline ⊢
      generalize hstanding : m.standing = standing at hline
      cases hline with
      | awaitingAnswer hgoal hlast =>
          cases hhears with
          | acknowledged goal id => exact h.answer hlast (hstanding ▸ .acknowledged hgoal rfl)
          | failed goal e => exact h.answer hlast (hstanding ▸ .pausing hgoal (.retry e))
      | pausing hgoal hlast =>
          cases hhears with
          | paused =>
              exact h.move (List.append_nil log) rfl rfl (hstanding ▸ .asking hgoal hlast)
      | awaitingTick hlast =>
          cases hhears with
          | ticked =>
              exact h.move (List.append_nil log) rfl rfl (hstanding ▸ .checking hlast)
      | awaitingBeat hlast =>
          cases hhears with
          | alive goal id =>
              exact h.answer hlast (hstanding ▸ .awaitingTick (.beatAgain _ id))
          | forgotten => exact h.answer hlast (hstanding ▸ .forgetting rfl)
          | troubled goal e hknown =>
              refine h.answer hlast ?_
              rw [hstanding]
              -- Of the other failures one ends the call and the rest are passed over.
              by_cases hgoes : e = .cancelled
              · rw [hgoes]
                exact .stopped rfl
              · have hresume : Goal.resume (some e) = .awaitingTick :=
                  if_neg fun heq => hgoes (Option.some.inj heq)
                simp only [Goal.afterBeat, hresume]
                exact .awaitingTick (.beatDespite _ e hknown hgoes)
      | _ => cases hreact

theorem Consistent.proceed (h : Consistent reg d) (now : Instant) (period : Duration) :
    Consistent reg (d.next (.proceed now period)) := by
  simp only [next]
  split
  · next id houtcome =>
    obtain ⟨m, ⟨goal, stage⟩, log⟩ := d
    have hline := h.inLine
    dsimp only at houtcome hline ⊢
    generalize hstanding : m.standing = standing at hline
    cases hline with
    | registered hlast =>
        exact h.move rfl rfl rfl (hstanding ▸ .awaitingTick hlast)
    | _ => cases houtcome
  · exact h

theorem Consistent.apply (h : Consistent reg d) (p : Patch) :
    Consistent reg (d.next (.apply p)) where
  registration := h.registration
  kept := h.kept.patch p
  inLine := by
    show InLine reg (Minutes.lastMark? (d.log ++ [.patched p])) d.call d.member.standing
    rw [Minutes.lastMark?_concat]
    exact h.inLine
  cache := by
    show d.member.cache.apply p = Minutes.cache (d.log ++ [.patched p])
    rw [Minutes.cache_concat, ← h.cache]
    rfl

theorem Consistent.next (hvalid : reg.validate = .ok ()) (h : Consistent reg d) (t : Turn) :
    Consistent reg (d.next t) := by
  cases t with
  | step => exact h.step hvalid
  | hear now period signal => exact h.hear now period signal
  | proceed now period => exact h.proceed now period
  | apply p => exact h.apply p

theorem Consistent.run (hvalid : reg.validate = .ok ()) (h : Consistent reg d) (turns : List Turn) :
    Consistent reg (d.run turns) := by
  induction turns generalizing d with
  | nil => exact h
  | cons t turns ih => exact ih (h.next hvalid t)

theorem consistent_start (reg : Registration) : Consistent reg (start reg) where
  registration := rfl
  kept := .nil
  inLine := .entering (Or.inl rfl) nofun .begin
  cache := rfl

theorem InLine.standing {last? : Option Remark} {c : Call} {standing : Standing}
    (h : InLine reg last? c standing) {id : InstanceId} {answer : Except MemberError InstanceId}
    (hlast : last? = some (.asked (.heartbeat id)) ∨
      last? = some (.answered (.heartbeat id) answer)) : standing = .registered id := by
  cases h with
  | entering _ _ hnext | asking _ hnext | pausing _ hnext =>
      -- Nobody registers right after a heartbeat or the answer to it.
      rcases hlast with rfl | rfl
      · cases hnext
      · cases hnext
  | awaitingAnswer _ hnow | acknowledged _ hnow =>
      rcases hlast with rfl | rfl
      · cases hnow
      · cases hnow
  | registered hnext | awaitingTick hnext | checking hnext | reading hnext | beating hnext =>
      rcases hlast with rfl | rfl
      · cases hnext
      · cases hnext with
        | beatAgain | beatDespite => rfl
  | awaitingBeat hnow =>
      rcases hlast with rfl | rfl
      · cases hnow
        rfl
      · cases hnow
  | forgetting hnow | stopped hnow =>
      rcases hlast with rfl | rfl
      · cases hnow
      · cases hnow
        rfl

theorem InLine.outcome {last? : Option Remark} {c : Call} {standing : Standing}
    (h : InLine reg last? c standing) {id : InstanceId}
    (hlast : last? = some (.answered (.heartbeat id) (.error .cancelled))) :
    c.outcome? = some .stopped := by
  subst hlast
  cases h with
  | stopped => rfl
  | entering _ _ hnext | asking _ hnext | pausing _ hnext => cases hnext
  | awaitingAnswer _ hnow | acknowledged _ hnow | awaitingBeat hnow | forgetting hnow => cases hnow
  | registered hnext | awaitingTick hnext | checking hnext | reading hnext | beating hnext =>
      cases hnext with
      | beatDespite _ _ _ hgoes => exact absurd rfl hgoes

theorem Consistent.hears (h : Consistent reg d) {inquiry : Inquiry}
    (hlast : d.log.lastMark? = some (.asked inquiry)) (now : Instant) (period : Duration)
    (answer : Except MemberError InstanceId) :
    (d.next (.hear now period (.answered answer))).log = d.log ++ [.answered inquiry answer] := by
  have hreact : ∃ call, d.call.react now period (.answered answer) = some call := by
    obtain ⟨m, ⟨goal, stage⟩, log⟩ := d
    have hline := h.inLine
    dsimp only at hline hlast
    rw [hlast] at hline
    generalize m.standing = standing at hline
    cases hline with
    | awaitingAnswer | awaitingBeat =>
        cases answer with
        | ok id => exact ⟨_, rfl⟩
        | error e => exact ⟨_, rfl⟩
    | entering _ _ hnext | asking _ hnext | pausing _ hnext => cases hnext
    | registered hnext | awaitingTick hnext | checking hnext | reading hnext | beating hnext =>
        cases hnext
    | acknowledged _ hnow | forgetting hnow | stopped hnow => cases hnow
  obtain ⟨call, hcall⟩ := hreact
  simp only [Dialogue.next, hcall, heard_answered hlast]

/-! ## What comes next does come -/

/-- Unless the registry has to speak, the dialogue comes of its own to the next thing to put
down. -/
def Brings (d : Dialogue) (e : Remark) : Prop :=
  ∃ turns, (∀ t ∈ turns, Turn.IsOwn t) ∧ (d.run turns).log = d.log ++ [e]

variable {goal : Goal} {due : Instant} {id : InstanceId} {e : Remark}

theorem brings_of_next {t : Turn} (ht : t.IsOwn) (h : (d.next t).log = d.log ++ [e]) : d.Brings e := by
  refine ⟨[t], fun s hs => ?_, h⟩
  rwa [List.mem_singleton.mp hs]

theorem Brings.after {t : Turn} (ht : t.IsOwn) (hlog : (d.next t).log = d.log)
    (h : (d.next t).Brings e) : d.Brings e := by
  obtain ⟨turns, hturns, hrun⟩ := h
  refine ⟨t :: turns, ?_, ?_⟩
  · intro s hs
    rcases List.mem_cons.mp hs with rfl | hs
    · exact ht
    · exact hturns s hs
  · rw [run_cons, hrun, hlog]

theorem Brings.after_step {m : Member} {c : Call} {log : Minutes} {move : Move}
    (hstep : c.step false m = some move) (hnoted : noted c move = [])
    (h : Brings ⟨move.member, move.call, log⟩ e) : Brings ⟨m, c, log⟩ e := by
  have hnext : next ⟨m, c, log⟩ .step = ⟨move.member, move.call, log⟩ := by
    simp only [next, hstep, hnoted, List.append_nil]
  refine Brings.after (t := .step) trivial ?_ ?_
  · rw [hnext]
  · rwa [hnext]

section Stages

variable {m : Member} {log : Minutes}

theorem asks_of_asking : Brings ⟨m, ⟨goal, .asking⟩, log⟩ (.asked (.register m.registration)) :=
  brings_of_next (t := .step) trivial rfl

theorem asks_of_pausing : Brings ⟨m, ⟨goal, .pausing⟩, log⟩ (.asked (.register m.registration)) :=
  asks_of_asking.after (t := .hear ⟨0⟩ ⟨0⟩ .paused) trivial (List.append_nil log)

theorem asks_of_entering (hvalid : m.registration.validate = .ok ())
    (hstanding : m.standing ≠ .terminated) :
    Brings ⟨m, ⟨goal, .entering⟩, log⟩ (.asked (.register m.registration)) := by
  have hstep : Call.step false m ⟨goal, .entering⟩ =
      some ⟨{ m with standing := .registering }, ⟨goal, .asking⟩, none⟩ := by
    simp only [Call.step, Call.enter, hvalid, if_neg hstanding]
    rfl
  exact Brings.after_step hstep rfl asks_of_asking

theorem beats_of_beating : Brings ⟨m, ⟨goal, .beating id⟩, log⟩ (.asked (.heartbeat id)) :=
  brings_of_next (t := .step) trivial rfl

theorem beats_of_reading (h : m.standing = .registered id) :
    Brings ⟨m, ⟨goal, .reading⟩, log⟩ (.asked (.heartbeat id)) := by
  have hstep : Call.step false m ⟨goal, .reading⟩ = some ⟨m, ⟨goal, .beating id⟩, none⟩ := by
    simp only [Call.step, h]
    rfl
  exact Brings.after_step hstep rfl beats_of_beating

theorem beats_of_checking (h : m.standing = .registered id) :
    Brings ⟨m, ⟨goal, .checking⟩, log⟩ (.asked (.heartbeat id)) := by
  have hstep : Call.step false m ⟨goal, .checking⟩ = some ⟨m, ⟨goal, .reading⟩, none⟩ := by
    simp only [Call.step, h]
    rfl
  exact Brings.after_step hstep rfl (beats_of_reading h)

theorem beats_of_awaitingTick (h : m.standing = .registered id) :
    Brings ⟨m, ⟨.keepAlive due, .awaitingTick⟩, log⟩ (.asked (.heartbeat id)) :=
  (beats_of_checking h).after (t := .hear ⟨0⟩ ⟨0⟩ .ticked) trivial (List.append_nil log)

theorem beats_of_registered (h : m.standing = .registered id) :
    Brings ⟨m, ⟨.register, .ended (.registered id)⟩, log⟩ (.asked (.heartbeat id)) :=
  (beats_of_awaitingTick h).after (t := .proceed ⟨0⟩ ⟨0⟩) trivial rfl

theorem beats_of_acknowledged (hgoal : Talks goal) (h : m.standing ≠ .terminated) :
    Brings ⟨m, ⟨goal, .acknowledged id⟩, log⟩ (.asked (.heartbeat id)) := by
  have hstep : Call.step false m ⟨goal, .acknowledged id⟩ = some ⟨{ m with standing := .registered id },
      ⟨goal, goal.afterRegistration (.ok id)⟩, none⟩ := by
    simp only [Call.step, Call.adopt, if_neg h]
    rfl
  refine Brings.after_step hstep rfl ?_
  rcases hgoal with rfl | ⟨due, rfl⟩
  · exact beats_of_registered rfl
  · exact beats_of_awaitingTick rfl

theorem clears_of_forgetting : Brings ⟨m, ⟨goal, .forgetting⟩, log⟩ .cleared :=
  brings_of_next (t := .step) trivial rfl

end Stages

/-- Answers apart, there is one thing that comes next. So the protocol leaves no choice to the
call. -/
theorem follows_unique {last? : Option Remark} {x : Remark} (he : Follows reg last? e)
    (hx : Follows reg last? x) (hlast : ∀ inquiry, last? ≠ some (.asked inquiry)) : x = e := by
  cases he with
  | answer inquiry => exact absurd rfl (hlast inquiry)
  | beatDespite id e hknown =>
      cases hx with
      | beatDespite => rfl
      | clear => exact absurd rfl hknown
  | clear =>
      cases hx with
      | beatDespite id e hknown => exact absurd rfl hknown
      | clear => rfl
  | _ =>
      cases hx with
      | _ => rfl

/-- Unless an answer is due, what follows does come, of its own. -/
theorem Consistent.goes_on (hvalid : reg.validate = .ok ()) (h : Consistent reg d)
    (he : Follows reg d.log.lastMark? e)
    (hlast : ∀ inquiry, d.log.lastMark? ≠ some (.asked inquiry)) : d.Brings e := by
  obtain ⟨m, ⟨goal, stage⟩, log⟩ := d
  have hline := h.inLine
  obtain rfl := h.registration
  dsimp only at hline he hlast hvalid
  generalize hstanding : m.standing = standing at hline
  -- What may be said next after what has been said last is one thing only, and in each place the
  -- member comes to say it.
  cases hline with
  | entering hgoal hne hnext =>
      rw [← hstanding] at hne
      obtain rfl := follows_unique hnext he hlast
      exact asks_of_entering hvalid hne
  | asking _ hnext =>
      obtain rfl := follows_unique hnext he hlast
      exact asks_of_asking
  | pausing _ hnext =>
      obtain rfl := follows_unique hnext he hlast
      exact asks_of_pausing
  | acknowledged hgoal hnow =>
      rw [hnow] at he
      cases he with
      | beat id =>
          refine beats_of_acknowledged hgoal ?_
          rw [hstanding]
          nofun
  | registered hnext =>
      obtain rfl := follows_unique hnext he hlast
      exact beats_of_registered hstanding
  | awaitingTick hnext =>
      obtain rfl := follows_unique hnext he hlast
      exact beats_of_awaitingTick hstanding
  | checking hnext =>
      obtain rfl := follows_unique hnext he hlast
      exact beats_of_checking hstanding
  | reading hnext =>
      obtain rfl := follows_unique hnext he hlast
      exact beats_of_reading hstanding
  | beating hnext =>
      obtain rfl := follows_unique hnext he hlast
      exact beats_of_beating
  | forgetting hnow =>
      rw [hnow] at he
      cases he with
      | beatDespite _ _ hknown => exact absurd rfl hknown
      | clear => exact clears_of_forgetting
  -- An inquiry is out, and the log ends with it.
  | awaitingAnswer _ hnow | awaitingBeat hnow => exact absurd hnow (hlast _)
  | stopped hnow =>
      rw [hnow] at he
      cases he with
      | beatDespite _ _ _ hgoes => exact absurd rfl hgoes

/-- The protocol, for all that a dialogue has put down and for where it stands. -/
structure KeepsProtocol (reg : Registration) (d : Dialogue) : Prop where
  /-- Every heartbeat carries the identifier that was acknowledged last. -/
  heartbeat (front back : Minutes) (id : InstanceId) :
    d.log = front ++ .asked (.heartbeat id) :: back → front.latestId? = some id
  /-- The member registers at the start, after an attempt that failed, or right after a heartbeat that
  the registry did not recognise, and then it has forgotten its providers. -/
  register (front back : Minutes) (r : Registration) :
    d.log = front ++ .asked (.register r) :: back → r = reg ∧
      (front.lastSaid? = none ∨
        (∃ e, front.lastSaid? = some (.answered (.register reg) (.error e))) ∨
        front.lastMark? = some .cleared ∧
          ∃ id, front.lastSaid? = some (.answered (.heartbeat id) (.error .unauthorized)))
  /-- It forgets them then and at no other time. -/
  cleared (front back : Minutes) : d.log = front ++ .cleared :: back →
    ∃ id, front.lastMark? = some (.answered (.heartbeat id) (.error .unauthorized))
  /-- A heartbeat that the registry does not recognise: the member forgets its providers before it
  says anything, and sends no other heartbeat before it has been acknowledged. -/
  unrecognised (front back : Minutes) (id : InstanceId) :
    d.log = front ++ .answered (.heartbeat id) (.error .unauthorized) :: back →
      (∀ x, back.firstMark? = some x → x = .cleared) ∧
      ∀ mid rest id', back = mid ++ .asked (.heartbeat id') :: rest →
        ∃ x ∈ mid, x.issued?.isSome = true
  /-- Any other trouble with a heartbeat: the next thing that happens is a heartbeat with the same
  identifier, but after a cancellation nothing happens. -/
  troubled (front back : Minutes) (id : InstanceId) (e : MemberError) :
    d.log = front ++ .answered (.heartbeat id) (.error e) :: back → e ≠ .unauthorized →
      ∀ x, back.firstMark? = some x → e ≠ .cancelled ∧ x = .asked (.heartbeat id)
  /-- A heartbeat leaves the member where it stands, whatever the answer. -/
  standing (id : InstanceId) (answer : Except MemberError InstanceId) :
    d.log.lastMark? = some (.asked (.heartbeat id)) ∨
      d.log.lastMark? = some (.answered (.heartbeat id) answer) →
    d.member.standing = .registered id
  /-- A cancellation ends the loop. -/
  stopped (id : InstanceId) :
    d.log.lastMark? = some (.answered (.heartbeat id) (.error .cancelled)) →
      d.call.outcome? = some .stopped
  /-- Nothing else changes what the member knows of its providers. -/
  cache : d.member.cache = d.log.cache
  /-- Whatever the answer, it is heard, -/
  hears (inquiry : Inquiry) : d.log.lastMark? = some (.asked inquiry) →
    ∀ now period answer, (d.next (.hear now period (.answered answer))).log =
      d.log ++ [.answered inquiry answer]
  /-- and whatever follows does come, without any more answers. -/
  goes_on (e : Remark) : Follows reg d.log.lastMark? e →
    (∀ inquiry, d.log.lastMark? ≠ some (.asked inquiry)) → d.Brings e

/-- A member with a valid registration, which registers and then reports alive, keeps the protocol,
whatever the registry answers. -/
theorem keeps_protocol (hvalid : reg.validate = .ok ()) (turns : List Turn) :
    KeepsProtocol reg ((start reg).run turns) := by
  have h := (consistent_start reg).run hvalid turns
  generalize (start reg).run turns = d at h
  have hkept {front back : Minutes} {e : Remark} (hlog : d.log = front ++ e :: back) :
      Kept reg (front ++ e :: back) := hlog ▸ h.kept
  exact {
    heartbeat := fun front back id hlog => (hkept hlog).heartbeat
    register := fun front back r hlog => (hkept hlog).register
    cleared := fun front back hlog => (hkept hlog).cleared
    unrecognised := by
      intro front back id hlog
      refine ⟨fun x hx => (hkept hlog).unrecognised hx, ?_⟩
      rintro mid rest id' rfl
      have hmid := hkept hlog
      rw [← List.cons_append, ← List.append_assoc] at hmid
      exact hmid.acknowledged_between
    troubled := fun front back id e hlog hknown x hx => (hkept hlog).troubled hknown hx
    standing := fun id answer hlast => h.inLine.standing hlast
    stopped := fun id hlast => h.inLine.outcome hlast
    cache := h.cache
    hears := fun inquiry hlast now period answer => h.hears hlast now period answer
    goes_on := fun e he hlast => h.goes_on hvalid he hlast }

/-- The first attempt fails, a later registration is lost again. -/
theorem forgotten_and_registered_again :
    let web : Registration := { role := .web, url := "http://w" }
    let period : Duration := .ofMillis 100
    let d := (start web).run [.step, .step, .hear ⟨0⟩ period (.answered (.error (.transport "refused"))),
      .hear ⟨0⟩ period .paused, .step, .hear ⟨0⟩ period (.answered (.ok ⟨"id-1"⟩)), .step,
      .proceed ⟨0⟩ period, .hear period period .ticked, .step, .step, .step,
      .hear period period (.answered (.error .unauthorized)), .step, .step, .step,
      .hear period period (.answered (.ok ⟨"id-2"⟩)), .step]
    web.validate = .ok () ∧ d.member.standing = .registered ⟨"id-2"⟩ ∧ KeepsProtocol web d := by
  intro web period d
  have hrole : web.role.isBlank = false := by decide +kernel
  have hurl : Text.isBlankText web.url = false := by decide +kernel
  have hvalid : web.validate = .ok () := by
    simp only [Registration.validate, hrole, hurl]
    rfl
  refine ⟨hvalid, ?_, keeps_protocol hvalid _⟩
  decide +kernel

end Dialogue
end Rollcall
