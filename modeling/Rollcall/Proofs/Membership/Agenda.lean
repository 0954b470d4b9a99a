import Rollcall.Membership.Call

/-!
# All calls of a member

An agenda is a member with all the calls that have been made on it. Any of them may move next,
registry and clock may answer what they like, and a call that has been cancelled may notice it or
come to hear something else first. What is asked of the registry is kept: by which call, and where
the member stood.

A member that has left for good stays so. Whoever comes later, and whoever has yet to look where the
member stands, asks nothing. But a call looks only now and then, and one that has looked goes on to
its inquiry all the same, `Stage.owes`; a registration looks once and then asks again and again.

* `Agenda.windsUp_run` — what is asked from then on was owed;
* `Agenda.asks_of_owes` — and what is owed may be asked;
* `Agenda.asked_once_terminated` — so that is all, and no less, that is asked of the registry.
-/

namespace Rollcall

/-- Something asked of the registry: by which call, and where the member stood at that moment. -/
structure Question where
  call : Nat
  inquiry : Inquiry
  standing : Standing
  deriving Repr, DecidableEq

/-- What can be called for. -/
inductive Opening where
  | register
  | heartbeat
  | keepAlive (now : Instant) (period : Duration)
  | deregister

def Opening.call : Opening → Call
  | register => .register
  | heartbeat => .heartbeat
  | keepAlive now period => .keepAlive now period
  | deregister => .deregister

/-- A member with all calls that have been made on it, by their numbers, and all that they have
asked. -/
structure Agenda where
  member : Member
  calls : List Call := []
  cancelled : List Nat := []
  asked : List Question := []

/-- What can happen next: a call is made, takes a step, hears a signal or is cancelled, or a patch
arrives. In which order these come is open. -/
inductive Occasion where
  | make (o : Opening)
  /-- A call moves by a step; if it has been cancelled, it heeds that or not. -/
  | step (i : Nat) (heeds : Bool)
  | hear (i : Nat) (now : Instant) (period : Duration) (signal : Signal)
  | cancel (i : Nat)
  /-- Nobody waits for the call any more. -/
  | drop (i : Nat)
  | apply (p : Patch)

namespace Agenda

def start (registration : Registration) : Agenda := ⟨{ registration := registration }, [], [], []⟩

/-- The agenda after a move of a call. -/
def enter (a : Agenda) (i : Nat) (move : Move) : Agenda where
  member := move.member
  calls := a.calls.set i move.call
  cancelled := a.cancelled
  asked := a.asked ++ (move.inquiry?.map fun inquiry => ⟨i, inquiry, a.member.standing⟩).toList

def next (a : Agenda) : Occasion → Agenda
  | .make o => { a with calls := a.calls ++ [o.call] }
  | .step i heeds =>
    match a.calls[i]?.bind (Call.step (heeds && a.cancelled.contains i) a.member) with
    | some move => a.enter i move
    | none => a
  | .hear i now period signal =>
    match a.calls[i]?.bind fun c => c.react now period signal with
    | some call => { a with calls := a.calls.set i call }
    | none => a
  | .cancel i => { a with cancelled := i :: a.cancelled }
  | .drop i => { a with calls := a.calls.set i ⟨.register, .ended .stopped⟩ }
  | .apply p => { a with member := { a.member with cache := a.member.cache.apply p } }

def run (a : Agenda) (occasions : List Occasion) : Agenda := occasions.foldl next a

@[simp] theorem run_nil (a : Agenda) : a.run [] = a := rfl

@[simp] theorem run_cons (a : Agenda) (o : Occasion) (occasions : List Occasion) :
    a.run (o :: occasions) = (a.next o).run occasions := rfl

theorem run_append (a : Agenda) (occasions more : List Occasion) :
    a.run (occasions ++ more) = (a.run occasions).run more :=
  List.foldl_append

/-- All that can come of an occasion. An occasion that finds nothing to do, such as a signal that
nobody waits for, comes to nothing. -/
inductive Comes (a : Agenda) : Occasion → Agenda → Prop
  | idle (o : Occasion) : Comes a o a
  | made (o : Opening) : Comes a (.make o) { a with calls := a.calls ++ [o.call] }
  | moved {i : Nat} {heeds : Bool} {c : Call} {move : Move} (hc : a.calls[i]? = some c)
    (hstep : c.step (heeds && a.cancelled.contains i) a.member = some move) :
    Comes a (.step i heeds) (a.enter i move)
  | heard {i : Nat} {now : Instant} {period : Duration} {signal : Signal} {c call : Call}
    (hc : a.calls[i]? = some c) (hreact : c.react now period signal = some call) :
    Comes a (.hear i now period signal) { a with calls := a.calls.set i call }
  | cancelled (i : Nat) : Comes a (.cancel i) { a with cancelled := i :: a.cancelled }
  | dropped (i : Nat) :
    Comes a (.drop i) { a with calls := a.calls.set i ⟨.register, .ended .stopped⟩ }
  | applied (p : Patch) :
    Comes a (.apply p) { a with member := { a.member with cache := a.member.cache.apply p } }

theorem comes_next (a : Agenda) (o : Occasion) : a.Comes o (a.next o) := by
  cases o with
  | make o => exact .made o
  | step i heeds =>
      rw [next]
      split
      · next move hmove =>
        obtain ⟨c, hc, hstep⟩ := Option.bind_eq_some_iff.mp hmove
        exact .moved hc hstep
      · exact .idle _
  | hear i now period signal =>
      rw [next]
      split
      · next call hcall =>
        obtain ⟨c, hc, hreact⟩ := Option.bind_eq_some_iff.mp hcall
        exact .heard hc hreact
      · exact .idle _
  | cancel i => exact .cancelled i
  | drop i => exact .dropped i
  | apply p => exact .applied p

end Agenda

/-! ## What a call owes -/

/-- What a call will ask of the registry before it looks again where the member stands. It is what
is asked too late when the member has left in the meantime. -/
def Stage.owes (reg : Registration) : Stage → Option Inquiry
  | asking | awaitingAnswer | pausing => some (.register reg)
  | beating id => some (.heartbeat id)
  | parting => some (.deregister reg.role reg.url)
  | _ => none

theorem Goal.owes_afterRegistration (reg : Registration) (goal : Goal)
    (result : Except MemberError InstanceId) :
    (goal.afterRegistration result).owes reg = none := by
  cases goal with
  | keepAlive due =>
      cases result with
      | ok id => rfl
      | error e =>
          simp only [afterRegistration, resume]
          split
          · rfl
          · rfl
  | _ =>
      cases result with
      | _ => rfl

theorem Goal.owes_afterBeat (reg : Registration) (goal : Goal) (trouble? : Option MemberError) :
    (goal.afterBeat trouble?).owes reg = none := by
  cases goal with
  | keepAlive due =>
      simp only [afterBeat, resume]
      split
      · rfl
      · rfl
  | _ =>
      cases trouble? with
      | _ => rfl

namespace Call

variable {c : Call}

theorem owes_of_react {now : Instant} {period : Duration} {signal : Signal} {call : Call}
    (h : c.react now period signal = some call) (reg : Registration) {inquiry : Inquiry}
    (howes : call.stage.owes reg = some inquiry) : c.stage.owes reg = some inquiry := by
  unfold react at h
  -- No signal makes an inquiry necessary that was not so before it.
  split at h
  · obtain rfl := Option.some.inj h
    cases howes
  -- An attempt that has failed is paused for, and then made again.
  · next hstage =>
    obtain rfl := Option.some.inj h
    rw [hstage]
    exact howes
  · next hstage =>
    obtain rfl := Option.some.inj h
    rw [hstage]
    exact howes
  · obtain rfl := Option.some.inj h
    rw [Goal.owes_afterBeat] at howes
    cases howes
  · obtain rfl := Option.some.inj h
    dsimp only at howes
    split at howes
    · cases howes
    · rw [Goal.owes_afterBeat] at howes
      cases howes
  · obtain rfl := Option.some.inj h
    cases howes
  · split at h
    · obtain rfl := Option.some.inj h
      cases howes
    · cases h
  · cases h

/-- A move that respects that the member has left for good: it leaves the member where it stands,
asks nothing but what the call owes, and brings no new debt. -/
structure Respects (c : Call) (m : Member) (move : Move) : Prop where
  standing : move.member.standing = .terminated
  registration : move.member.registration = m.registration
  asks : ∀ inquiry, move.inquiry? = some inquiry → c.stage.owes m.registration = some inquiry
  owes : ∀ inquiry, move.call.stage.owes m.registration = some inquiry →
    c.stage.owes m.registration = some inquiry

/-- Whoever owes nothing afterwards and asks nothing may do with the rest of the member as they
like. -/
theorem respects_of_quiet {m : Member} {move : Move}
    (hstanding : move.member.standing = .terminated)
    (hregistration : move.member.registration = m.registration) (hasks : move.inquiry? = none)
    (howes : move.call.stage.owes m.registration = none) : c.Respects m move where
  standing := hstanding
  registration := hregistration
  asks inquiry h := by
    rw [hasks] at h
    cases h
  owes inquiry h := by
    rw [howes] at h
    cases h

theorem respects_enter {m : Member} (hm : m.standing = .terminated) :
    c.Respects m (c.enter m) := by
  unfold enter
  split
  · exact respects_of_quiet hm rfl rfl (Goal.owes_afterRegistration ..)
  · rw [if_pos hm]
    exact respects_of_quiet hm rfl rfl (Goal.owes_afterRegistration ..)

theorem respects_adopt {m : Member} (hm : m.standing = .terminated) (id : InstanceId) :
    c.Respects m (c.adopt m id) := by
  unfold adopt
  rw [if_pos hm]
  exact respects_of_quiet hm rfl rfl (Goal.owes_afterRegistration ..)

theorem respects_abandon {m : Member} (hm : m.standing = .terminated) :
    c.Respects m (c.abandon m) := by
  refine respects_of_quiet ?_ rfl rfl (Goal.owes_afterRegistration ..)
  show (if m.standing = .registering then _ else m.standing) = _
  rw [hm]
  rfl

theorem respects_step {cancelled : Bool} {m : Member} {move : Move}
    (hm : m.standing = .terminated) (h : c.step cancelled m = some move) : c.Respects m move := by
  obtain ⟨goal, stage⟩ := c
  cases stage with
  | entering =>
      obtain rfl := Option.some.inj h
      exact respects_enter hm
  | acknowledged id =>
      obtain rfl := Option.some.inj h
      exact respects_adopt hm id
  | abandoning =>
      obtain rfl := Option.some.inj h
      exact respects_abandon hm
  | asking =>
      -- Cancelled, it gives up; otherwise it makes the one inquiry that it owes.
      simp only [step] at h
      split at h
      · obtain rfl := Option.some.inj h
        exact respects_of_quiet hm rfl rfl rfl
      · obtain rfl := Option.some.inj h
        exact ⟨hm, rfl, fun _ h => h, fun _ h => h⟩
  | beating id | parting =>
      obtain rfl := Option.some.inj h
      exact ⟨hm, rfl, fun _ h => h, fun _ h => nomatch h⟩
  | awaitingAnswer | pausing | awaitingTick =>
      simp only [step, Option.ite_none_right_eq_some, Option.some.injEq] at h
      obtain ⟨-, rfl⟩ := h
      exact respects_of_quiet hm rfl rfl rfl
  | reading =>
      simp only [step, hm, Standing.id?, Option.some.injEq] at h
      obtain rfl := h
      exact respects_of_quiet hm rfl rfl (Goal.owes_afterBeat ..)
  | forgetting =>
      obtain rfl := Option.some.inj h
      exact respects_of_quiet hm rfl rfl rfl
  | checking =>
      simp only [step, if_pos hm, Option.some.injEq] at h
      obtain rfl := h
      exact respects_of_quiet hm rfl rfl rfl
  | leaving =>
      simp only [step, if_pos hm, Option.some.injEq] at h
      obtain rfl := h
      exact respects_of_quiet hm rfl rfl rfl
  | awaitingBeat | awaitingFarewell | ended => cases h

theorem owes_opening (reg : Registration) (o : Opening) : o.call.stage.owes reg = none := by
  cases o with
  | _ => rfl

end Call

/-! ## Once the member has left -/

namespace Agenda

variable {a : Agenda}

/-- A call owes an inquiry: it may ask that without looking again where the member stands. -/
def Owes (a : Agenda) (i : Nat) (inquiry : Inquiry) : Prop :=
  ∃ c, a.calls[i]? = some c ∧ c.stage.owes a.member.registration = some inquiry

/-- What can have happened to an agenda whose member has left: all that has been asked meanwhile was
owed, and so is all that is owed still. -/
structure WindsUp (a after : Agenda) : Prop where
  standing : after.member.standing = .terminated
  registration : after.member.registration = a.member.registration
  asks : ∃ new, after.asked = a.asked ++ new ∧ ∀ q ∈ new, a.Owes q.call q.inquiry
  owes : ∀ i inquiry, after.Owes i inquiry → a.Owes i inquiry

theorem WindsUp.refl (hm : a.member.standing = .terminated) : a.WindsUp a :=
  ⟨hm, rfl, ⟨[], (List.append_nil _).symm, fun _ h => absurd h List.not_mem_nil⟩, fun _ _ h => h⟩

theorem WindsUp.trans {mid after : Agenda} (h : a.WindsUp mid) (hrest : mid.WindsUp after) :
    a.WindsUp after := by
  obtain ⟨new, hnew, howed⟩ := h.asks
  obtain ⟨more, hmore, hlater⟩ := hrest.asks
  refine ⟨hrest.standing, hrest.registration.trans h.registration, ⟨new ++ more, ?_, ?_⟩,
    fun i inquiry howes => h.owes i inquiry (hrest.owes i inquiry howes)⟩
  · rw [hmore, hnew, List.append_assoc]
  · intro q hq
    rcases List.mem_append.mp hq with hq | hq
    · exact howed q hq
    · exact h.owes _ _ (hlater q hq)

theorem windsUp_of_quiet {after : Agenda} (hm : after.member.standing = .terminated)
    (hregistration : after.member.registration = a.member.registration)
    (hasked : after.asked = a.asked) (hcalls : ∀ i c inquiry, after.calls[i]? = some c →
      c.stage.owes a.member.registration = some inquiry → a.Owes i inquiry) : a.WindsUp after := by
  refine ⟨hm, hregistration, ⟨[], ?_, fun _ h => absurd h List.not_mem_nil⟩, ?_⟩
  · rw [hasked, List.append_nil]
  · rintro i inquiry ⟨c, hc, howes⟩
    rw [hregistration] at howes
    exact hcalls i c inquiry hc howes

theorem owes_of_set {i j : Nat} {c call : Call} {inquiry : Inquiry}
    (hcall : (a.calls.set i call)[j]? = some c)
    (hreplaced : ∀ inquiry, call.stage.owes a.member.registration = some inquiry →
      ∃ replaced, a.calls[i]? = some replaced ∧
        replaced.stage.owes a.member.registration = some inquiry)
    (howes : c.stage.owes a.member.registration = some inquiry) : a.Owes j inquiry := by
  rw [List.getElem?_set] at hcall
  split at hcall
  · next heq =>
    subst heq
    simp only [Option.ite_none_right_eq_some, Option.some.injEq] at hcall
    obtain ⟨-, rfl⟩ := hcall
    exact hreplaced inquiry howes
  · exact ⟨c, hcall, howes⟩

theorem windsUp_next (hm : a.member.standing = .terminated) (o : Occasion) :
    a.WindsUp (a.next o) := by
  have hcomes := comes_next a o
  generalize a.next o = after at hcomes ⊢
  cases hcomes with
  | idle => exact .refl hm
  | made o =>
      -- Whoever comes now owes nothing that asks the registry before it has looked at the state.
      refine windsUp_of_quiet hm rfl rfl fun i c inquiry hc howes => ?_
      change (a.calls ++ [o.call])[i]? = some c at hc
      rw [List.getElem?_append] at hc
      split at hc
      · exact ⟨c, hc, howes⟩
      · rw [List.mem_singleton.mp (List.mem_of_getElem? hc), Call.owes_opening] at howes
        cases howes
  | @moved i heeds c move hc hstep =>
      have hrespects := Call.respects_step hm hstep
      refine ⟨hrespects.standing, hrespects.registration, ⟨_, rfl, fun q hq => ?_⟩, ?_⟩
      · obtain ⟨inquiry, hinquiry, rfl⟩ := Option.map_eq_some_iff.mp (Option.mem_toList.mp hq)
        exact ⟨c, hc, hrespects.asks inquiry hinquiry⟩
      · rintro j inquiry ⟨call, hcall, howes⟩
        change call.stage.owes move.member.registration = some inquiry at howes
        rw [hrespects.registration] at howes
        exact owes_of_set hcall (fun inquiry h => ⟨c, hc, hrespects.owes inquiry h⟩) howes
  | @heard i now period signal c call hc hreact =>
      refine windsUp_of_quiet hm rfl rfl fun j after inquiry hafter howes => ?_
      exact owes_of_set hafter (fun _ h => ⟨c, hc, Call.owes_of_react hreact _ h⟩) howes
  | cancelled i => exact windsUp_of_quiet hm rfl rfl fun i c inquiry hc howes => ⟨c, hc, howes⟩
  | dropped i =>
      refine windsUp_of_quiet hm rfl rfl fun j c inquiry hc howes => ?_
      exact owes_of_set hc (fun _ h => nomatch h) howes
  | applied p => exact windsUp_of_quiet hm rfl rfl fun i c inquiry hc howes => ⟨c, hc, howes⟩

theorem windsUp_run (hm : a.member.standing = .terminated) (occasions : List Occasion) :
    a.WindsUp (a.run occasions) := by
  induction occasions generalizing a with
  | nil => exact .refl hm
  | cons o occasions ih =>
      have hnext := windsUp_next hm o
      exact hnext.trans (ih hnext.standing)

/-! ## What is owed is asked -/

variable {i : Nat} {goal : Goal}

theorem asks_of_hear {c call : Call} {now : Instant} {period : Duration} {signal : Signal}
    {question : Question} (hc : a.calls[i]? = some c)
    (hreact : c.react now period signal = some call)
    (h : ∃ more, ({ a with calls := a.calls.set i call }.run more).asked = a.asked ++ [question]) :
    ∃ more, (a.run more).asked = a.asked ++ [question] := by
  have hnext : a.next (.hear i now period signal) = { a with calls := a.calls.set i call } := by
    simp only [next, hc, Option.bind_some, hreact]
  obtain ⟨more, hmore⟩ := h
  refine ⟨.hear i now period signal :: more, ?_⟩
  rw [run_cons, hnext]
  exact hmore

theorem getElem?_set_self {c call : Call} (hc : a.calls[i]? = some c) :
    (a.calls.set i call)[i]? = some call :=
  List.getElem?_set_self (List.getElem?_eq_some_iff.mp hc).1

theorem asks_of_step {c : Call} {move : Move} {inquiry : Inquiry} (hc : a.calls[i]? = some c)
    (hstep : c.step false a.member = some move) (hinquiry : move.inquiry? = some inquiry) :
    ∃ more, (a.run more).asked = a.asked ++ [⟨i, inquiry, a.member.standing⟩] := by
  refine ⟨[.step i false], ?_⟩
  simp only [run_cons, run_nil, next, hc, Option.bind_some, Bool.false_and, hstep, enter, hinquiry]
  rfl

theorem asks_of_asking (hc : a.calls[i]? = some ⟨goal, .asking⟩) :
    ∃ more, (a.run more).asked =
      a.asked ++ [⟨i, .register a.member.registration, a.member.standing⟩] :=
  asks_of_step hc rfl rfl

theorem asks_of_pausing (hc : a.calls[i]? = some ⟨goal, .pausing⟩) :
    ∃ more, (a.run more).asked =
      a.asked ++ [⟨i, .register a.member.registration, a.member.standing⟩] := by
  have hreact : Call.react ⟨0⟩ ⟨0⟩ ⟨goal, .pausing⟩ .paused = some ⟨goal, .asking⟩ := rfl
  exact asks_of_hear hc hreact (asks_of_asking (getElem?_set_self hc))

theorem asks_of_awaiting (hc : a.calls[i]? = some ⟨goal, .awaitingAnswer⟩) :
    ∃ more, (a.run more).asked =
      a.asked ++ [⟨i, .register a.member.registration, a.member.standing⟩] := by
  have hreact : Call.react ⟨0⟩ ⟨0⟩ ⟨goal, .awaitingAnswer⟩ (.answered (.error .unauthorized)) =
    some ⟨goal, .pausing⟩ := rfl
  exact asks_of_hear hc hreact (asks_of_pausing (getElem?_set_self hc))

/-- What a call owes it may ask, wherever the member stands by then. So the bounds on what is asked
too late are the best possible. -/
theorem asks_of_owes {inquiry : Inquiry} (h : a.Owes i inquiry) :
    ∃ more, (a.run more).asked = a.asked ++ [⟨i, inquiry, a.member.standing⟩] := by
  obtain ⟨⟨goal, stage⟩, hc, howes⟩ := h
  cases stage with
  | asking =>
      obtain rfl := Option.some.inj howes
      exact asks_of_asking hc
  | pausing =>
      obtain rfl := Option.some.inj howes
      exact asks_of_pausing hc
  | awaitingAnswer =>
      obtain rfl := Option.some.inj howes
      exact asks_of_awaiting hc
  | beating id | parting =>
      obtain rfl := Option.some.inj howes
      exact asks_of_step hc rfl rfl
  | _ => cases howes

/-- Once the member has left for good it stays so, and what is asked of the registry from then on is
what some call owed when it left. What a call owes, though, it may well ask. -/
theorem asked_once_terminated {a : Agenda} (hm : a.member.standing = .terminated) :
    (∀ more, (a.run more).member.standing = .terminated ∧ ∃ new,
      (a.run more).asked = a.asked ++ new ∧ ∀ q ∈ new, a.Owes q.call q.inquiry) ∧
    ∀ i inquiry, a.Owes i inquiry →
      ∃ more, (a.run more).asked = a.asked ++ [⟨i, inquiry, .terminated⟩] := by
  refine ⟨fun more => ?_, fun i inquiry howes => ?_⟩
  · have hwinds := windsUp_run hm more
    exact ⟨hwinds.standing, hwinds.asks⟩
  · have hasks := asks_of_owes howes
    rw [hm] at hasks
    exact hasks

/-- Between two attempts of a registration the member leaves, and there is no heartbeat under way:
all that can follow is its farewell and the next attempts, and such an attempt does follow. -/
theorem owed_between_attempts :
    let web : Registration := { role := .web, url := "http://w" }
    let a := (start web).run [.make .register, .step 0 true, .step 0 true,
      .hear 0 ⟨0⟩ ⟨0⟩ (.answered (.error .unauthorized)), .make .deregister, .step 1 true]
    a.member.standing = .terminated ∧
      (∀ more, ∃ new, (a.run more).asked = a.asked ++ new ∧
        ∀ q ∈ new, q.inquiry = .register web ∨ q.inquiry = .deregister .web "http://w") ∧
      ∃ more, (a.run more).asked = a.asked ++ [⟨0, .register web, .terminated⟩] := by
  intro web a
  have hm : a.member.standing = .terminated := by decide +kernel
  have hcalls : a.calls = [⟨.register, .pausing⟩, ⟨.deregister, .parting⟩] := by decide +kernel
  have hreg : a.member.registration = web := by decide +kernel
  obtain ⟨hasked, howed⟩ := asked_once_terminated hm
  refine ⟨hm, fun more => ?_, howed 0 _ ⟨⟨.register, .pausing⟩, ?_, ?_⟩⟩
  · obtain ⟨-, new, hnew, howes⟩ := hasked more
    refine ⟨new, hnew, fun q hq => ?_⟩
    obtain ⟨c, hc, howes⟩ := howes q hq
    have hc := List.mem_of_getElem? hc
    rw [hcalls] at hc
    rw [hreg] at howes
    rcases List.mem_cons.mp hc with rfl | hc
    · exact Or.inl (Option.some.inj howes).symm
    · rw [List.mem_singleton.mp hc] at howes
      exact Or.inr (Option.some.inj howes).symm
  · rw [hcalls]
    rfl
  · rw [hreg]
    rfl

/-- A registration fails, the member leaves during the pause, and when the pause is over the next
attempt asks the registry all the same. -/
theorem registers_when_terminated :
    let web : Registration := { role := .web, url := "http://w" }
    let occasions : List Occasion := [.make .register, .step 0 true, .step 0 true,
      .hear 0 ⟨0⟩ ⟨0⟩ (.answered (.error (.transport "down"))), .make .deregister, .step 1 true,
      .step 1 true, .hear 1 ⟨0⟩ ⟨0⟩ (.answered (.ok {})), .hear 0 ⟨0⟩ ⟨0⟩ .paused, .step 0 true]
    ((start web).run occasions).asked = [⟨0, .register web, .registering⟩,
      ⟨1, .deregister .web "http://w", .terminated⟩, ⟨0, .register web, .terminated⟩] := by
  decide +kernel

end Agenda
end Rollcall
