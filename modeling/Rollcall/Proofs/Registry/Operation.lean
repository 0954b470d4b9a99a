import Rollcall.Proofs.Registry.Action

/-!
# Operations as lists of actions

What callers can do to a registry, one call after the other: the single steps on the directory, and
the operations that put such steps together. Main statement: `run_eq_actAll`, a run of operations is
a run of actions, so that what holds of every run of actions holds of every run of operations.
-/

namespace Rollcall

/-- What a caller can do to a registry: the four that are offered to the outside, and the parts of
which they are made. -/
inductive Operation where
  | enroll (reg : Registration)
  | add (reg : Registration)
  | announce (a : Admission)
  | remove (role : Role) (url : String)
  | evict (stale : Registration)
  | register (reg : Registration) (now : Instant)
  | deregister (role : Role) (url : String)
  | heartbeat (kind : HeartbeatKind) (id : InstanceId) (now : Instant)
  | sweep (now : Instant)

namespace Operation

/-- Whether an operation is one of the four that a registry offers to the outside. -/
def isFacade : Operation → Bool
  | register .. | deregister .. | heartbeat .. | sweep _ => true
  | enroll _ | add _ | announce _ | remove .. | evict _ => false

/-- The registration that an operation submits for admission. -/
def submission? : Operation → Option Registration
  | enroll reg | add reg => some reg
  | register reg _ => match reg.validate with
    | .ok () => some reg
    | .error _ => none
  | _ => none

end Operation

namespace Registry

def perform (r : Registry) : Operation → Registry
  | .enroll reg => (r.enroll reg).1
  | .add reg => (r.add reg).1
  | .announce a => (r.announce a).1
  | .remove role url => r.afterAttempt (r.remove role url)
  | .evict stale => r.afterAttempt (r.evict stale)
  | .register reg now => match r.register reg now with
    | .ok (registered, _) => registered
    | .error _ => r
  | .deregister role url => r.afterAttempt (r.deregister role url)
  | .heartbeat kind id now => match r.heartbeat kind id now with
    | .ok heard => heard
    | .error _ => r
  | .sweep now => (r.sweep now).1

/-- The entries that an operation takes out and returns. -/
def returns (r : Registry) : Operation → List Registration
  | .remove role url => (taken? (r.remove role url)).toList
  | .evict stale => (taken? (r.evict stale)).toList
  | .deregister role url => (taken? (r.deregister role url)).toList
  | .sweep now => (r.sweep now).2
  | _ => []

def run (r : Registry) (ops : List Operation) : Registry := ops.foldl perform r

@[simp] theorem run_nil (r : Registry) : r.run [] = r := rfl

@[simp] theorem run_cons (r : Registry) (op : Operation) (ops : List Operation) :
    r.run (op :: ops) = (r.perform op).run ops := rfl

theorem run_append (r : Registry) (ops more : List Operation) :
    r.run (ops ++ more) = (r.run ops).run more :=
  List.foldl_append

/-- A registration that is complete is admitted, noted and announced, and nothing of that can
fail. -/
theorem register_of_valid {reg : Registration} (h : reg.validate = .ok ()) (r : Registry)
    (now : Instant) :
    let a := (r.enroll reg).2
    let announced := ((r.enroll reg).1.record a.id now).announce a
    r.register reg now = .ok (announced.1, ⟨a.id, announced.2⟩) := by
  rw [register, h]

theorem id_of_register {r enrolled : Registry} {reg : Registration} {now : Instant}
    {e : Enrolment} (h : r.register reg now = .ok (enrolled, e)) : e.id = r.nextId := by
  rw [register] at h
  split at h
  · cases h
  · obtain ⟨-, rfl⟩ := Prod.mk.inj (Except.ok.inj h)
    exact r.id_enroll reg

/-! ## The actions of an operation -/

/-- What a sweep does with the entries of its copy: it evicts those that are overdue, and forgets
each at once. -/
def judgeActions (heard : Ledger) (now : Instant) : Registry → List Registration → List Action
  | _, [] => []
  | r, entry :: rest =>
    if r.overdue heard now entry then
      match r.evict entry with
      | .ok (departed, gone) => .evict entry :: .forget gone.id ::
          judgeActions heard now (departed.forget gone.id) rest
      | .error _ => judgeActions heard now r rest
    else judgeActions heard now r rest

/-- What a sweep does with the records of its copy: it drops the overdue ones of nobody. -/
def pruneActions (now : Instant) (r : Registry) : List (InstanceId × Instant) → List Action
  | [] => []
  | record :: rest =>
    if isStale r.settings.timeout (some record.2) now && !r.directory.isRegistered record.1 then
      .forget record.1 :: pruneActions now (r.forget record.1) rest
    else pruneActions now r rest

/-- The actions that make up an operation. -/
def actions (r : Registry) : Operation → List Action
  | .enroll reg => [.enroll reg]
  | .add reg => [.enroll reg, .announce (r.enroll reg).2]
  | .announce a => [.announce a]
  | .remove role url => [.remove role url]
  | .evict stale => [.evict stale]
  | .register reg now => match reg.validate with
    | .error _ => []
    | .ok () => [.enroll reg, .record (r.enroll reg).2.id now, .announce (r.enroll reg).2]
  | .deregister role url => match r.remove role url with
    | .ok (_, gone) => [.remove role url, .forget gone.id]
    | .error _ => []
  | .heartbeat _ id now => if r.directory.isRegistered id then [.record id now] else []
  | .sweep now =>
    let judging := judgeActions r.ledger now r r.directory.entries
    judging ++ pruneActions now (r.actAll judging) r.ledger.records

def actionsOf (r : Registry) : List Operation → List Action
  | [] => []
  | op :: ops => r.actions op ++ (r.perform op).actionsOf ops

/-- Judging entries one after the other is doing the actions found for them. -/
theorem judge_eq_actAll (heard : Ledger) (now : Instant) (entries : List Registration)
    (r : Registry) (evicted : List Registration) :
    (entries.foldl (judge heard now) (r, evicted)).1 =
      r.actAll (judgeActions heard now r entries) := by
  induction entries generalizing r evicted with
  | nil => rfl
  | cons entry rest ih =>
      rw [List.foldl_cons]
      by_cases hdue : r.overdue heard now entry = true
      · cases hevict : r.evict entry with
        | ok done =>
            obtain ⟨departed, gone⟩ := done
            simp only [judge, hdue, if_true, hevict, judgeActions, actAll_cons,
              act_evict_of_ok hevict]
            exact ih _ _
        | error e =>
            simp only [judge, hdue, if_true, hevict, judgeActions]
            exact ih _ _
      · simp only [judge, hdue, judgeActions, Bool.false_eq_true, if_false]
        exact ih _ _

/-- Pruning records one after the other is doing the actions found for them. -/
theorem prune_eq_actAll (now : Instant) (records : List (InstanceId × Instant)) (r : Registry) :
    records.foldl (prune now) r = r.actAll (pruneActions now r records) := by
  induction records generalizing r with
  | nil => rfl
  | cons record rest ih =>
      rw [List.foldl_cons, ih]
      simp only [prune, pruneActions]
      split
      · rfl
      · rfl

/-- An operation is the list of its actions. Whatever actions keep, operations keep. -/
theorem perform_eq_actAll (r : Registry) (op : Operation) :
    r.perform op = r.actAll (r.actions op) := by
  cases op with
  | enroll | add | announce | remove | evict => rfl
  | register reg now =>
      simp only [perform, actions, register]
      cases reg.validate with
      | error => rfl
      | ok => rfl
  | deregister role url =>
      simp only [perform, actions, deregister]
      cases hremove : r.remove role url with
      | error => rfl
      | ok done =>
          obtain ⟨departed, gone⟩ := done
          simp only [Except.map, afterAttempt, actAll_cons, actAll_nil, act, hremove]
  | heartbeat kind id now =>
      simp only [perform, actions, heartbeat, accept]
      cases r.directory.isRegistered id with
      | false => rfl
      | true => rfl
  | sweep now =>
      simp only [perform, actions, sweep, actAll_append, prune_eq_actAll, judge_eq_actAll]

/-- A run of operations is the run of all their actions. -/
theorem run_eq_actAll (r : Registry) (ops : List Operation) :
    r.run ops = r.actAll (r.actionsOf ops) := by
  induction ops generalizing r with
  | nil => rfl
  | cons op ops ih => rw [run_cons, ih, actionsOf, actAll_append, ← perform_eq_actAll]

/-! ## Who admits -/

/-- Whether an action is no admission. -/
def Quiet (x : Action) : Prop := ∀ reg, x ≠ .enroll reg

/-- Without an admission nobody comes. -/
theorem mem_of_quiet {r : Registry} {xs : List Action} (hquiet : ∀ x ∈ xs, Quiet x)
    {entry : Registration} (h : entry ∈ (r.actAll xs).directory.entries) :
    entry ∈ r.directory.entries := by
  induction xs generalizing r with
  | nil => exact h
  | cons x xs ih =>
      have hx := hquiet x List.mem_cons_self
      have hstep := ih (fun y hy => hquiet y (List.mem_cons_of_mem _ hy)) h
      rcases mem_entries_act hstep with hold | harr
      · exact hold
      · cases x with
        | enroll reg => exact absurd rfl (hx reg)
        | _ => cases harr

/-- Whether an action is neither an admission nor an announcement, so that nobody hears of a
provider that comes. -/
def Closing (x : Action) : Prop := Quiet x ∧ ∀ a, x ≠ .announce a

theorem closing_judgeActions (heard : Ledger) (now : Instant) (entries : List Registration)
    (r : Registry) : ∀ x ∈ judgeActions heard now r entries, Closing x := by
  induction entries generalizing r with
  | nil => exact fun x hx => absurd hx List.not_mem_nil
  | cons entry rest ih =>
      intro x hx
      simp only [judgeActions] at hx
      split at hx
      · split at hx
        · rcases List.mem_cons.mp hx with rfl | hx
          · simp [Closing, Quiet]
          · rcases List.mem_cons.mp hx with rfl | hx
            · simp [Closing, Quiet]
            · exact ih _ x hx
        · exact ih _ x hx
      · exact ih _ x hx

theorem closing_pruneActions (now : Instant) (records : List (InstanceId × Instant))
    (r : Registry) : ∀ x ∈ pruneActions now r records, Closing x := by
  induction records generalizing r with
  | nil => exact fun x hx => absurd hx List.not_mem_nil
  | cons record rest ih =>
      intro x hx
      simp only [pruneActions] at hx
      split at hx
      · rcases List.mem_cons.mp hx with rfl | hx
        · simp [Closing, Quiet]
        · exact ih _ x hx
      · exact ih _ x hx

/-- What a registry offers to the outside is registering, or it neither admits nor announces. -/
theorem closing_actions {op : Operation} (hfacade : op.isFacade = true)
    (hother : ∀ reg now, op ≠ .register reg now) (r : Registry) :
    ∀ x ∈ r.actions op, Closing x := by
  cases op with
  | enroll | add | announce | remove | evict => cases hfacade
  | register reg now => exact absurd rfl (hother reg now)
  | deregister role url =>
      simp only [actions]
      split
      · simp [Closing, Quiet]
      · simp
  | heartbeat kind id now =>
      simp only [actions]
      split
      · simp [Closing, Quiet]
      · simp
  | sweep now =>
      intro x hx
      rcases List.mem_append.mp hx with hx | hx
      · exact closing_judgeActions _ _ _ _ x hx
      · exact closing_pruneActions _ _ _ x hx

/-- An operation admits at most what it submits, and does so first. What follows admits nobody. -/
theorem actions_shape (r : Registry) (op : Operation) :
    (∃ reg rest, op.submission? = some reg ∧ r.actions op = .enroll reg :: rest ∧
      ∀ x ∈ rest, Quiet x) ∨ ∀ x ∈ r.actions op, Quiet x := by
  cases op with
  | enroll reg => exact Or.inl ⟨reg, [], rfl, rfl, fun x hx => absurd hx List.not_mem_nil⟩
  | add reg =>
      refine Or.inl ⟨reg, _, rfl, rfl, ?_⟩
      simp [Quiet]
  | announce | remove | evict =>
      right
      simp [actions, Quiet]
  | register reg now =>
      cases hvalid : reg.validate with
      | error e =>
          right
          simp [actions, hvalid]
      | ok =>
          -- The admission comes first, and what follows it leaves the table alone.
          refine Or.inl ⟨reg, [.record (r.enroll reg).2.id now, .announce (r.enroll reg).2],
            ?_, ?_, ?_⟩
          · simp only [Operation.submission?, hvalid]
          · simp only [actions, hvalid]
          · simp [Quiet]
  | deregister | heartbeat | sweep =>
      right
      intro x hx
      exact (closing_actions rfl (by simp) r x hx).1

/-- Who is there after an operation was there before, or is the entry of its own admission. -/
theorem mem_entries_perform {r : Registry} {op : Operation} {entry : Registration}
    (h : entry ∈ (r.perform op).directory.entries) :
    entry ∈ r.directory.entries ∨ ∃ reg, op.submission? = some reg ∧
      (r.enroll reg).2.inserted = true ∧ (r.enroll reg).2.entry = entry := by
  rw [perform_eq_actAll] at h
  rcases r.actions_shape op with ⟨reg, rest, hsub, hactions, hquiet⟩ | hquiet
  · rw [hactions, actAll_cons] at h
    rcases mem_entries_act (mem_of_quiet hquiet h) with hold | harr
    · exact Or.inl hold
    · simp only [arrival?, Option.ite_none_right_eq_some, Option.some.injEq] at harr
      exact Or.inr ⟨reg, hsub, harr⟩
  · exact Or.inl (mem_of_quiet hquiet h)

end Registry
end Rollcall
