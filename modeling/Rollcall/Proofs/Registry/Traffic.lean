import Rollcall.Proofs.Registry.Entries

/-!
# Calls in progress

Callers come to a registry at any time, and their calls run side by side. What is atomic is a
single step at the directory or at the ledger; between two steps of a call any steps of others may
come. A call in progress is an `Errand`, named for what it does next and holding what it has seen so
far, and `Traffic` is a registry with all its errands.

* `Errand.advances` — all that a step of a call can be, with its conditions;
* `Traffic.run_eq_actAll` — whatever the order, a run of calls is a run of actions.
-/

namespace Rollcall

/-- What a caller asks for. Each visit is one call, which then takes its steps among those of all
others. -/
inductive Visit where
  | register (reg : Registration)
  | deregister (role : Role) (url : String)
  | heartbeat (kind : HeartbeatKind) (id : InstanceId)
  | sweep

/-- A call in progress, by what it does next. What it has read so far is part of it, since the
registry may have changed since. -/
inductive Errand where
  /-- A registration: the admission, the sign of life, and the announcement. -/
  | enroll (reg : Registration)
  | record (a : Admission)
  | announce (a : Admission)
  /-- A departure: the removal, and the forgetting. -/
  | remove (role : Role) (url : String)
  | forget (id : InstanceId)
  /-- A heartbeat: the look at the directory, and the sign of life. -/
  | check (id : InstanceId)
  | beat (id : InstanceId)
  /-- A sweep: the two copies and the clock, -/
  | copyEntries
  | copyLedger (entries : List Registration)
  | readClock (entries : List Registration) (heard : Ledger)
  /-- for each entry of the copy the eviction and the forgetting, -/
  | judge (entries : List Registration) (heard : Ledger) (now : Instant)
  | bury (id : InstanceId) (entries : List Registration) (heard : Ledger) (now : Instant)
  /-- and for each record of the copy the look at the directory and the forgetting. -/
  | prune (records : List (InstanceId × Instant)) (now : Instant)
  | drop (id : InstanceId) (records : List (InstanceId × Instant)) (now : Instant)

namespace Visit

def operation (now : Instant) : Visit → Operation
  | register reg => .register reg now
  | deregister role url => .deregister role url
  | heartbeat kind id => .heartbeat kind id now
  | sweep => .sweep now

/-- How a call begins, unless it is refused at once. -/
def errand? : Visit → Option Errand
  | register reg => match reg.validate with
    | .ok () => some (.enroll reg)
    | .error _ => none
  | deregister role url => some (.remove role url)
  | heartbeat _ id => some (.check id)
  | sweep => some .copyEntries

end Visit

/-- An errand of which no step has been taken. -/
inductive Errand.Opens : Errand → Prop
  | enroll (reg : Registration) : Opens (.enroll reg)
  | remove (role : Role) (url : String) : Opens (.remove role url)
  | check (id : InstanceId) : Opens (.check id)
  | copyEntries : Opens .copyEntries

theorem Visit.opens (v : Visit) {e : Errand} (h : v.errand? = some e) : e.Opens := by
  cases v with
  | register reg =>
      simp only [errand?] at h
      split at h
      · obtain rfl := Option.some.inj h
        exact .enroll reg
      · cases h
  | _ =>
      obtain rfl := Option.some.inj h
      constructor

/-- The next step of an errand: what it does at the registry, if anything, and what remains of it,
if anything. -/
def Errand.next (r : Registry) (clock : Instant) : Errand → Option Action × Option Errand
  | enroll reg => (some (.enroll reg), some (record (r.enroll reg).2))
  | record a => (some (.record a.id clock), some (announce a))
  | announce a => (some (.announce a), none)
  | remove role url => (some (.remove role url), match r.remove role url with
    | .ok (_, gone) => some (forget gone.id)
    | .error _ => none)
  | forget id => (some (.forget id), none)
  | check id => (none, if r.directory.isRegistered id then some (beat id) else none)
  | beat id => (some (.record id clock), none)
  | copyEntries => (none, some (copyLedger r.directory.entries))
  | copyLedger entries => (none, some (readClock entries r.ledger))
  | readClock entries heard => (none, some (judge entries heard clock))
  | judge [] heard now => (none, some (prune heard.records now))
  | judge (entry :: rest) heard now =>
    if r.overdue heard now entry then
      (some (.evict entry), match r.evict entry with
        | .ok (_, gone) => some (bury gone.id rest heard now)
        | .error _ => some (judge rest heard now))
    else (none, some (judge rest heard now))
  | bury id rest heard now => (some (.forget id), some (judge rest heard now))
  | prune [] _ => (none, none)
  | prune (entry :: rest) now =>
    if isStale r.settings.timeout (some entry.2) now && !r.directory.isRegistered entry.1 then
      (none, some (drop entry.1 rest now))
    else (none, some (prune rest now))
  | drop id rest now => (some (.forget id), some (prune rest now))

/-- All that the next step of an errand can be: when it is taken, what it does, and what remains.
This is the one place where the steps of all calls are listed. -/
inductive Errand.Advances (r : Registry) (clock : Instant) :
    Errand → Option Action → Option Errand → Prop
  | enroll (reg : Registration) :
    Advances r clock (.enroll reg) (some (.enroll reg)) (some (.record (r.enroll reg).2))
  | record (a : Admission) :
    Advances r clock (.record a) (some (.record a.id clock)) (some (.announce a))
  | announce (a : Admission) : Advances r clock (.announce a) (some (.announce a)) none
  | remove (role : Role) (url : String) (departed : Registry) (gone : Registration)
    (h : r.remove role url = .ok (departed, gone)) :
    Advances r clock (.remove role url) (some (.remove role url)) (some (.forget gone.id))
  | miss (role : Role) (url : String) (e : RegistryError) (h : r.remove role url = .error e) :
    Advances r clock (.remove role url) (some (.remove role url)) none
  | forget (id : InstanceId) : Advances r clock (.forget id) (some (.forget id)) none
  | accept (id : InstanceId) (h : r.directory.isRegistered id = true) :
    Advances r clock (.check id) none (some (.beat id))
  | refuse (id : InstanceId) (h : r.directory.isRegistered id = false) :
    Advances r clock (.check id) none none
  | beat (id : InstanceId) : Advances r clock (.beat id) (some (.record id clock)) none
  | copyEntries : Advances r clock .copyEntries none (some (.copyLedger r.directory.entries))
  | copyLedger (entries : List Registration) :
    Advances r clock (.copyLedger entries) none (some (.readClock entries r.ledger))
  | readClock (entries : List Registration) (heard : Ledger) :
    Advances r clock (.readClock entries heard) none (some (.judge entries heard clock))
  | judged (heard : Ledger) (now : Instant) :
    Advances r clock (.judge [] heard now) none (some (.prune heard.records now))
  | evict (entry : Registration) (rest : List Registration) (heard : Ledger) (now : Instant)
    (departed : Registry) (gone : Registration) (hdue : r.overdue heard now entry = true)
    (h : r.evict entry = .ok (departed, gone)) :
    Advances r clock (.judge (entry :: rest) heard now) (some (.evict entry))
      (some (.bury gone.id rest heard now))
  | late (entry : Registration) (rest : List Registration) (heard : Ledger) (now : Instant)
    (e : RegistryError) (hdue : r.overdue heard now entry = true) (h : r.evict entry = .error e) :
    Advances r clock (.judge (entry :: rest) heard now) (some (.evict entry))
      (some (.judge rest heard now))
  | spare (entry : Registration) (rest : List Registration) (heard : Ledger) (now : Instant)
    (hdue : r.overdue heard now entry = false) :
    Advances r clock (.judge (entry :: rest) heard now) none (some (.judge rest heard now))
  | bury (id : InstanceId) (rest : List Registration) (heard : Ledger) (now : Instant) :
    Advances r clock (.bury id rest heard now) (some (.forget id)) (some (.judge rest heard now))
  | pruned (now : Instant) : Advances r clock (.prune [] now) none none
  | orphan (record : InstanceId × Instant) (rest : List (InstanceId × Instant)) (now : Instant)
    (hstale : isStale r.settings.timeout (some record.2) now = true)
    (h : r.directory.isRegistered record.1 = false) :
    Advances r clock (.prune (record :: rest) now) none (some (.drop record.1 rest now))
  | keep (record : InstanceId × Instant) (rest : List (InstanceId × Instant)) (now : Instant)
    (h : (isStale r.settings.timeout (some record.2) now &&
      !r.directory.isRegistered record.1) = false) :
    Advances r clock (.prune (record :: rest) now) none (some (.prune rest now))
  | drop (id : InstanceId) (rest : List (InstanceId × Instant)) (now : Instant) :
    Advances r clock (.drop id rest now) (some (.forget id)) (some (.prune rest now))

theorem Errand.advances (r : Registry) (clock : Instant) (e : Errand) :
    e.Advances r clock (e.next r clock).1 (e.next r clock).2 := by
  cases e with
  | remove role url =>
      simp only [next]
      cases hremove : r.remove role url with
      | ok taken => exact .remove role url taken.1 taken.2 hremove
      | error e => exact .miss role url e hremove
  | check id =>
      simp only [next]
      cases hthere : r.directory.isRegistered id with
      | true => exact .accept id hthere
      | false => exact .refuse id hthere
  | judge entries heard now =>
      cases entries with
      | nil => exact .judged heard now
      | cons entry rest =>
          simp only [next]
          cases hdue : r.overdue heard now entry with
          | false => exact .spare entry rest heard now hdue
          | true =>
              cases hevict : r.evict entry with
              | ok taken => exact .evict entry rest heard now taken.1 taken.2 hdue hevict
              | error e => exact .late entry rest heard now e hdue hevict
  | prune records now =>
      cases records with
      | nil => exact .pruned now
      | cons record rest =>
          simp only [next]
          split
          · next hdue =>
            rw [Bool.and_eq_true, Bool.not_eq_true'] at hdue
            exact .orphan record rest now hdue.1 hdue.2
          · next hdue => exact .keep record rest now (Bool.eq_false_iff.mpr hdue)
  | _ => constructor

theorem Errand.advances_of_action {r : Registry} {clock : Instant} {e : Errand} {x : Action}
    (h : (e.next r clock).1 = some x) : ∃ rest?, e.Advances r clock (some x) rest? :=
  ⟨_, h ▸ e.advances r clock⟩

theorem Errand.advances_of_rest {r : Registry} {clock : Instant} {e e' : Errand}
    (h : (e.next r clock).2 = some e') :
    ∃ x?, (e.next r clock).1 = x? ∧ e.Advances r clock x? (some e') :=
  ⟨_, rfl, h ▸ e.advances r clock⟩

/-- The admission that an errand has made and has still to announce. -/
def Errand.unannounced? : Errand → Option Admission
  | .record a | .announce a => some a
  | _ => none

/-- A registry, the clock of heartbeats, and the calls in progress. Any of them may take the next
step, so a run of traffic is any interleaving of any calls. -/
structure Traffic where
  registry : Registry
  clock : Instant := ⟨0⟩
  errands : List Errand := []

/-- What can happen next: somebody comes, one of the errands takes a step, or time passes. -/
inductive Traffic.Move where
  | visit (v : Visit)
  | advance (i : Nat)
  | wait (span : Duration)

namespace Traffic

/-- What a move does at the registry. -/
def action? (t : Traffic) : Move → Option Action
  | .advance i => t.errands[i]?.bind fun e => (e.next t.registry t.clock).1
  | _ => none

/-- The traffic after a move; an errand that does not exist takes no step. -/
def move (t : Traffic) : Move → Traffic
  | .visit v => { t with errands := t.errands ++ v.errand?.toList }
  | .wait span => { t with clock := ⟨t.clock.nanos + span.nanos⟩ }
  | .advance i =>
    match t.errands[i]? with
    | none => t
    | some e =>
      let (action?, rest?) := e.next t.registry t.clock
      { t with
        registry := t.registry.actAll action?.toList
        errands := t.errands.take i ++ rest?.toList ++ t.errands.drop (i + 1) }

def run (t : Traffic) (moves : List Move) : Traffic := moves.foldl move t

@[simp] theorem run_nil (t : Traffic) : t.run [] = t := rfl

@[simp] theorem run_cons (t : Traffic) (m : Move) (moves : List Move) :
    t.run (m :: moves) = (t.move m).run moves := rfl

theorem run_append (t : Traffic) (moves more : List Move) :
    t.run (moves ++ more) = (t.run moves).run more :=
  List.foldl_append

/-- The actions of a run, in order. -/
def actionsOf (t : Traffic) : List Move → List Action
  | [] => []
  | m :: moves => (t.action? m).toList ++ (t.move m).actionsOf moves

theorem actionsOf_append (t : Traffic) (moves more : List Move) :
    t.actionsOf (moves ++ more) = t.actionsOf moves ++ (t.run moves).actionsOf more := by
  induction moves generalizing t with
  | nil => rfl
  | cons m moves ih => simp only [List.cons_append, actionsOf, ih, run_cons, List.append_assoc]

theorem registry_move (t : Traffic) (m : Move) :
    (t.move m).registry = t.registry.actAll (t.action? m).toList := by
  cases m with
  | visit | wait => rfl
  | advance i =>
      simp only [move, action?]
      cases t.errands[i]? with
      | none => rfl
      | some e => rfl

/-- Whatever the order in which calls come and take their steps, what is done to the registry is a
list of actions. -/
theorem run_eq_actAll (t : Traffic) (moves : List Move) :
    (t.run moves).registry = t.registry.actAll (t.actionsOf moves) := by
  induction moves generalizing t with
  | nil => rfl
  | cons m moves ih =>
      rw [run_cons, ih, actionsOf, Registry.actAll_append, registry_move]

theorem coherent_run {t : Traffic} (h : t.registry.Coherent) (moves : List Move) :
    (t.run moves).registry.Coherent := by
  rw [run_eq_actAll]
  exact h.actAll _

/-- Between two moments at which an entry is there nobody takes it out. -/
theorem mem_between {t : Traffic} (h : t.registry.Coherent) {entry : Registration}
    (hentry : entry ∈ t.registry.directory.entries) (mid rest : List Move)
    (hend : entry ∈ (t.run (mid ++ rest)).registry.directory.entries) :
    entry ∈ (t.run mid).registry.directory.entries := by
  rw [run_eq_actAll, actionsOf_append] at hend
  rw [run_eq_actAll]
  exact h.mem_between hentry _ _ hend

theorem errands_advance {t : Traffic} {i : Nat} {e : Errand} (h : t.errands[i]? = some e) :
    ∃ front back, t.errands = front ++ e :: back ∧
      (t.move (.advance i)).errands =
        front ++ (e.next t.registry t.clock).2.toList ++ back := by
  obtain ⟨hi, hget⟩ := List.getElem?_eq_some_iff.mp h
  refine ⟨t.errands.take i, t.errands.drop (i + 1), ?_, ?_⟩
  · rw [← hget, List.cons_getElem_drop_succ, List.take_append_drop]
  · simp only [move, h]

variable {t : Traffic} {m : Move} {e e' : Errand} {a : Admission}

/-- Whoever is at work after a move was so before it, has come with it, or is what is left of the
errand that has moved. An invariant of the errands is shown in these three cases. -/
theorem mem_errands_move (he : e' ∈ (t.move m).errands) : e' ∈ t.errands ∨
    (∃ v, m = .visit v ∧ v.errand? = some e') ∨
    ∃ e ∈ t.errands, t.action? m = (e.next t.registry t.clock).1 ∧
      (e.next t.registry t.clock).2 = some e' := by
  cases m with
  | wait => exact Or.inl he
  | visit v =>
      rcases List.mem_append.mp he with hold | hnew
      · exact Or.inl hold
      · exact Or.inr (Or.inl ⟨v, rfl, Option.mem_toList.mp hnew⟩)
  | advance i =>
      cases hi : t.errands[i]? with
      | none =>
          simp only [move, hi] at he
          exact Or.inl he
      | some e =>
          obtain ⟨front, back, hbefore, hafter⟩ := errands_advance hi
          rw [hafter, List.append_assoc] at he
          rcases List.mem_append.mp he with hfront | hrest
          · exact Or.inl (hbefore ▸ List.mem_append_left _ hfront)
          · rcases List.mem_append.mp hrest with hnew | hback
            · refine Or.inr (Or.inr ⟨e, List.mem_of_getElem? hi, ?_, Option.mem_toList.mp hnew⟩)
              rw [action?, hi, Option.bind_some]
            · exact Or.inl (hbefore ▸ List.mem_append_right _ (List.mem_cons_of_mem _ hback))

/-- Whoever is at work before a move is so after it, or it is the one that has moved, and goes on with
what is left to do. -/
theorem errand_stays_or_moves (he : e ∈ t.errands) (m : Move) : e ∈ (t.move m).errands ∨
    t.action? m = (e.next t.registry t.clock).1 ∧
      ∀ rest, (e.next t.registry t.clock).2 = some rest → rest ∈ (t.move m).errands := by
  cases m with
  | wait => exact Or.inl he
  | visit v => exact Or.inl (List.mem_append_left _ he)
  | advance i =>
      cases hi : t.errands[i]? with
      | none =>
          left
          simp only [move, hi]
          exact he
      | some moved =>
          obtain ⟨front, back, hbefore, hafter⟩ := errands_advance hi
          rw [hafter]
          rw [hbefore] at he
          rcases List.mem_append.mp he with hfront | hrest
          · exact Or.inl (List.mem_append_left _ (List.mem_append_left _ hfront))
          · rcases List.mem_cons.mp hrest with rfl | hback
            · right
              refine ⟨by rw [action?, hi, Option.bind_some], fun rest hnext => ?_⟩
              exact List.mem_append_left _ (List.mem_append_right _ (Option.mem_toList.mpr hnext))
            · exact Or.inl (List.mem_append_right _ hback)

/-- Whatever is done at the registry is done by one of the errands. -/
theorem errand_of_action {x : Action} (h : t.action? m = some x) :
    ∃ e ∈ t.errands, (e.next t.registry t.clock).1 = some x ∧
      ∀ rest, (e.next t.registry t.clock).2 = some rest → rest ∈ (t.move m).errands := by
  cases m with
  | visit | wait => cases h
  | advance i =>
      obtain ⟨e, hi, hnext⟩ := Option.bind_eq_some_iff.mp h
      refine ⟨e, List.mem_of_getElem? hi, hnext, fun rest hrest => ?_⟩
      obtain ⟨front, back, -, hafter⟩ := errands_advance hi
      rw [hafter]
      exact List.mem_append_left _ (List.mem_append_right _ (Option.mem_toList.mpr hrest))

/-- Whoever leaves with a move is taken out by what the move does. -/
theorem action_of_leaving {entry : Registration} (hentry : entry ∈ t.registry.directory.entries)
    (hleft : entry ∉ (t.move m).registry.directory.entries) :
    ∃ x, t.action? m = some x ∧ t.registry.departure? x = some entry := by
  rw [registry_move] at hleft
  cases haction : t.action? m with
  | none =>
      rw [haction] at hleft
      exact absurd hentry hleft
  | some x =>
      rw [haction] at hleft
      refine ⟨x, rfl, ?_⟩
      by_contra hdep
      exact hleft (Registry.mem_entries_act_of_mem hentry hdep)

/-! ## Admissions on their way to their announcement -/

/-- An errand that has an admission to announce has had it before, or has just made it. -/
theorem unannounced_next {r : Registry} {clock : Instant} (hnext : (e.next r clock).2 = some e')
    (ha : e'.unannounced? = some a) :
    e.unannounced? = some a ∨ ∃ reg, e = .enroll reg ∧ a = (r.enroll reg).2 := by
  obtain ⟨x?, -, h⟩ := Errand.advances_of_rest hnext
  -- Only after an admission and after its sign of life is there one to announce.
  cases h with
  | enroll reg => exact Or.inr ⟨reg, rfl, (Option.some.inj ha).symm⟩
  | record b => exact Or.inl ha
  | _ => cases ha

/-- Whatever there is to announce after a move was there before it, or has just been admitted. -/
theorem unannounced_move (he : e' ∈ (t.move m).errands) (ha : e'.unannounced? = some a) :
    (∃ e ∈ t.errands, e.unannounced? = some a) ∨
      ∃ reg, t.action? m = some (.enroll reg) ∧ a = (t.registry.enroll reg).2 := by
  rcases mem_errands_move he with hold | ⟨v, rfl, hnew⟩ | ⟨e, hmem, haction, hnext⟩
  · exact Or.inl ⟨e', hold, ha⟩
  · cases v.opens hnew with
    | _ => cases ha
  · rcases unannounced_next hnext ha with hheld | ⟨reg, rfl, rfl⟩
    · exact Or.inl ⟨e, hmem, hheld⟩
    · exact Or.inr ⟨reg, haction, rfl⟩

/-- What there is to announce stays so until it is announced. -/
theorem unannounced_stays (he : e ∈ t.errands) (ha : e.unannounced? = some a) (m : Move) :
    (∃ e' ∈ (t.move m).errands, e'.unannounced? = some a) ∨ t.action? m = some (.announce a) := by
  rcases errand_stays_or_moves he m with hstays | ⟨haction, hrest⟩
  · exact Or.inl ⟨e, hstays, ha⟩
  -- The errand itself moves: it notes the sign of life, or it announces.
  · cases e with
    | record b => exact Or.inl ⟨.announce b, hrest _ rfl, ha⟩
    | announce b =>
        right
        obtain rfl := Option.some.inj ha
        exact haction
    | _ => cases ha

/-- Only a registration admits or announces, and it does so with what it holds. -/
theorem next_opening {r : Registry} {clock : Instant} {x : Action}
    (h : (e.next r clock).1 = some x) :
    (∀ reg, x = .enroll reg → e = .enroll reg) ∧ ∀ a, x = .announce a → e = .announce a := by
  obtain ⟨rest?, hstep⟩ := Errand.advances_of_action h
  constructor
  · rintro reg rfl
    cases hstep
    rfl
  · rintro a rfl
    cases hstep
    rfl

/-- What is announced is what some errand had to announce. -/
theorem unannounced_of_announce (h : t.action? m = some (.announce a)) :
    ∃ e ∈ t.errands, e.unannounced? = some a := by
  obtain ⟨e, he, hnext, -⟩ := errand_of_action h
  obtain rfl := (next_opening hnext).2 a rfl
  exact ⟨_, he, rfl⟩

theorem mem_move_of_enroll {reg : Registration} (h : t.action? m = some (.enroll reg)) :
    (t.registry.enroll reg).2.entry ∈ (t.move m).registry.directory.entries := by
  rw [registry_move, h]
  exact Registry.mem_enroll t.registry reg

/-- Whoever has admitted notes the sign of life next. -/
theorem mem_errands_of_enroll {reg : Registration} (h : t.action? m = some (.enroll reg)) :
    Errand.record (t.registry.enroll reg).2 ∈ (t.move m).errands := by
  obtain ⟨e, -, hnext, hrest⟩ := errand_of_action h
  obtain rfl := (next_opening hnext).1 reg rfl
  exact hrest _ rfl

end Traffic
end Rollcall
