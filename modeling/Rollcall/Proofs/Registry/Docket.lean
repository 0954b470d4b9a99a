import Rollcall.Proofs.Registry.Traffic

/-!
# A docket of calls

Traffic knows which calls are in progress. Statements about a whole run also ask which call a step
belongs to, and what had been done by then. A docket numbers the calls as they come and enters every
step into a log: whose it is, what it was about to do, and the registry and the clock that it found.

* `Docket.erase_run` — without the numbers and the log a docket is traffic;
* `Docket.chain_run` — the log leads step by step from the registry at the start to the present one,
  so that what holds of a whole run is proved by induction on the log, `Chain`;
* `Docket.met_run` — what holds of all traffic held at every step of the log;
* `Docket.alone_eq_perform` — a call that nobody comes between is the operation of that name.

The last of these is not needed for anything further. It ties the steps, into which a docket breaks
up a call, to the registry that runs: a sweep in pieces, say, does and returns what `Registry.sweep`
does and returns, unless somebody comes in between.
-/

namespace Rollcall

deriving instance DecidableEq for Ledger
deriving instance DecidableEq for Errand

/-- A step that a call has taken, with all that it depended on: whose it was, what was to be done,
and the registry and the clock that it found. -/
structure Step where
  call : Nat
  errand : Errand
  registry : Registry
  clock : Instant

namespace Step

def action? (s : Step) : Option Action := (s.errand.next s.registry s.clock).1

def rest? (s : Step) : Option Errand := (s.errand.next s.registry s.clock).2

def after (s : Step) : Registry := s.registry.actAll s.action?.toList

def admission? (s : Step) : Option Admission :=
  match s.errand with
  | .enroll reg => some (s.registry.enroll reg).2
  | _ => none

def gone? (s : Step) : Option Registration := s.action?.bind s.registry.departure?

/-- The fan-out that the step calls: the news, and for whom. -/
def fanOut? (s : Step) : Option (Patch × List Registration) := s.action?.bind s.registry.news?

theorem after_of_none {s : Step} (h : s.action? = none) : s.after = s.registry := by
  rw [after, h]
  rfl

theorem after_of_some {s : Step} {x : Action} (h : s.action? = some x) :
    s.after = s.registry.act x := by
  rw [after, h]
  rfl

theorem admission?_eq {s : Step} {a : Admission} (h : s.admission? = some a) :
    ∃ reg, s.errand = .enroll reg ∧ s.action? = some (.enroll reg) ∧
      a = (s.registry.enroll reg).2 := by
  obtain ⟨call, errand, registry, clock⟩ := s
  cases errand with
  | enroll reg => exact ⟨reg, rfl, rfl, (Option.some.inj h).symm⟩
  | _ => cases h

/-- An inserting admission brings an identifier that had not been minted. -/
theorem not_minted_of_admission {s : Step} {a : Admission} (h : s.admission? = some a)
    (hinserted : a.inserted = true) : a.entry.id = a.id ∧ ¬ s.registry.Minted a.id := by
  obtain ⟨reg, -, -, rfl⟩ := admission?_eq h
  rw [Registry.enroll_of_inserted hinserted]
  exact ⟨rfl, s.registry.not_minted_nextId⟩

end Step

/-! ## Chains of steps -/

/-- The steps lead from one registry to another, each from where the one before has left it, and
the clock does not go back. -/
def Chain : Registry → Instant → List Step → Registry → Instant → Prop
  | r, clock, [], last, stop => last = r ∧ clock.nanos ≤ stop.nanos
  | r, clock, s :: log, last, stop =>
    s.registry = r ∧ clock.nanos ≤ s.clock.nanos ∧ Chain s.after s.clock log last stop

namespace Chain

variable {r last : Registry} {clock stop : Instant} {log : List Step}

theorem le (h : Chain r clock log last stop) : clock.nanos ≤ stop.nanos := by
  induction log generalizing r clock with
  | nil => exact h.2
  | cons s log ih => exact Nat.le_trans h.2.1 (ih h.2.2)

theorem later (h : Chain r clock log last stop) {stop' : Instant}
    (hle : stop.nanos ≤ stop'.nanos) : Chain r clock log last stop' := by
  induction log generalizing r clock with
  | nil => exact ⟨h.1, Nat.le_trans h.2 hle⟩
  | cons s log ih => exact ⟨h.1, h.2.1, ih h.2.2⟩

theorem le_of_mem (h : Chain r clock log last stop) {s : Step} (hs : s ∈ log) :
    clock.nanos ≤ s.clock.nanos ∧ s.clock.nanos ≤ stop.nanos := by
  induction log generalizing r clock with
  | nil => cases hs
  | cons first log ih =>
      obtain ⟨-, hclock, hrest⟩ := h
      rcases List.mem_cons.mp hs with rfl | hs
      · exact ⟨hclock, hrest.le⟩
      · exact ⟨Nat.le_trans hclock (ih hrest hs).1, (ih hrest hs).2⟩

theorem split {front back : List Step} {s : Step}
    (h : Chain r clock (front ++ s :: back) last stop) :
    Chain r clock front s.registry s.clock ∧ Chain s.after s.clock back last stop := by
  induction front generalizing r clock with
  | nil => exact ⟨⟨h.1, h.2.1⟩, h.2.2⟩
  | cons first front ih =>
      obtain ⟨hfront, hback⟩ := ih h.2.2
      exact ⟨⟨h.1, h.2.1, hfront⟩, hback⟩

theorem concat (h : Chain r clock log last stop) {s : Step} (hregistry : s.registry = last)
    (hclock : stop.nanos ≤ s.clock.nanos) : Chain r clock (log ++ [s]) s.after s.clock := by
  induction log generalizing r clock with
  | nil => exact ⟨hregistry.trans h.1, Nat.le_trans h.2 hclock, rfl, Nat.le_refl _⟩
  | cons first log ih => exact ⟨h.1, h.2.1, ih h.2.2⟩

/-- What the steps of a chain do are the actions between its ends. -/
theorem eq_actAll (h : Chain r clock log last stop) :
    last = r.actAll (log.filterMap Step.action?) := by
  induction log generalizing r clock with
  | nil => exact h.1
  | cons s log ih =>
      obtain ⟨hregistry, -, hrest⟩ := h
      rw [ih hrest, Step.after, hregistry, ← Registry.actAll_append]
      congr 1
      cases haction : s.action? with
      | none => rw [List.filterMap_cons_none haction]; rfl
      | some x => rw [List.filterMap_cons_some haction]; rfl

theorem coherent (h : Chain r clock log last stop) (hr : r.Coherent) : last.Coherent := by
  rw [h.eq_actAll]
  exact hr.actAll _

theorem minted (h : Chain r clock log last stop) {id : InstanceId} (hid : r.Minted id) :
    last.Minted id := by
  rw [h.eq_actAll]
  exact hid.actAll _

/-- What had been minted at one of the steps has been minted at the end. -/
theorem minted_of_mem (h : Chain r clock log last stop) {s : Step} (hs : s ∈ log)
    {id : InstanceId} (hid : s.registry.Minted id) : last.Minted id := by
  obtain ⟨front, back, rfl⟩ := List.append_of_mem hs
  exact h.split.2.minted (hid.actAll _)

theorem settings_eq (h : Chain r clock log last stop) : last.settings = r.settings := by
  induction log generalizing r clock with
  | nil => rw [h.1]
  | cons s log ih =>
      obtain ⟨hregistry, -, hrest⟩ := h
      rw [ih hrest, ← hregistry]
      cases haction : s.action? with
      | none => rw [Step.after_of_none haction]
      | some x => rw [Step.after_of_some haction, (s.registry.act_fixed x).1]

end Chain

/-! ## The docket -/

/-- A registry with all calls in progress, each with its number, and the log of their steps. The log
only grows. -/
structure Docket where
  registry : Registry
  clock : Instant
  callers : List (Nat × Errand) := []
  calls : Nat := 0
  log : List Step := []

namespace Docket

def start (settings : RegistrySettings) (supply : IdSupply) (clock : Instant) : Docket where
  registry := .empty settings supply
  clock := clock

/-- The docket after a step of the call at a place of the list. -/
def enter (d : Docket) (i : Nat) (s : Step) : Docket where
  registry := s.after
  clock := d.clock
  callers := d.callers.take i ++ s.rest?.toList.map (s.call, ·) ++ d.callers.drop (i + 1)
  calls := d.calls
  log := d.log ++ [s]

/-- The docket after a move. Every call gets a number of its own, also one that is refused at
once. -/
def next (d : Docket) : Traffic.Move → Docket
  | .visit v =>
    { d with callers := d.callers ++ v.errand?.toList.map (d.calls, ·), calls := d.calls + 1 }
  | .wait span => { d with clock := ⟨d.clock.nanos + span.nanos⟩ }
  | .advance i =>
    match d.callers[i]? with
    | none => d
    | some (call, errand) => d.enter i ⟨call, errand, d.registry, d.clock⟩

def run (d : Docket) (moves : List Traffic.Move) : Docket := moves.foldl next d

@[simp] theorem run_nil (d : Docket) : d.run [] = d := rfl

@[simp] theorem run_cons (d : Docket) (m : Traffic.Move) (moves : List Traffic.Move) :
    d.run (m :: moves) = (d.next m).run moves := rfl

/-- What a call has returned so far: the entries that its steps have taken out. -/
def returned (d : Docket) (call : Nat) : List Registration :=
  (d.log.filter (·.call = call)).filterMap Step.gone?

/-- The log, cut at one of its steps. -/
theorem log_cut (d : Docket) {i : Nat} (h : i < d.log.length) :
    d.log = d.log.take i ++ d.log.get ⟨i, h⟩ :: d.log.drop (i + 1) := by
  rw [List.get_eq_getElem, ← List.drop_eq_getElem_cons h, List.take_append_drop]

/-- A docket without its numbers and its log. -/
def erase (d : Docket) : Traffic := ⟨d.registry, d.clock, d.callers.map (·.2)⟩

theorem erase_next (d : Docket) (m : Traffic.Move) : (d.next m).erase = d.erase.move m := by
  cases m with
  | wait span => rfl
  | visit v =>
      simp only [next, erase, Traffic.move, List.map_append]
      cases v.errand? with
      | none => rfl
      | some e => rfl
  | advance i =>
      have hget : d.erase.errands[i]? = d.callers[i]?.map (·.2) := List.getElem?_map
      simp only [next, Traffic.move, hget]
      cases d.callers[i]? with
      | none => rfl
      | some caller =>
          obtain ⟨call, errand⟩ := caller
          simp only [enter, erase, Option.map_some, List.map_append, List.map_take, List.map_drop,
            Step.after, Step.action?, Step.rest?]
          cases (errand.next d.registry d.clock).2 with
          | none => rfl
          | some rest => rfl

/-- The docket is kept on what really happens: without its numbers and its log it is the traffic of
the same moves. -/
theorem erase_run (d : Docket) (moves : List Traffic.Move) :
    (d.run moves).erase = d.erase.run moves := by
  induction moves generalizing d with
  | nil => rfl
  | cons m moves ih =>
      show ((d.next m).run moves).erase = _
      rw [ih, erase_next]
      rfl

theorem next_cases (d : Docket) (m : Traffic.Move) :
    ((d.next m).log = d.log ∧ (d.next m).registry = d.registry ∧
      d.clock.nanos ≤ (d.next m).clock.nanos ∧ d.calls ≤ (d.next m).calls ∧
      ∀ caller ∈ (d.next m).callers, caller ∈ d.callers ∨
        caller.1 = d.calls ∧ ∃ v : Visit, v.errand? = some caller.2) ∨
    ∃ i call errand, d.callers[i]? = some (call, errand) ∧
      d.next m = d.enter i ⟨call, errand, d.registry, d.clock⟩ := by
  cases m with
  | wait span => exact Or.inl ⟨rfl, rfl, Nat.le_add_right _ _, Nat.le_refl _, fun _ h => Or.inl h⟩
  | visit v =>
      refine Or.inl ⟨rfl, rfl, Nat.le_refl _, Nat.le_succ _, fun caller hcaller => ?_⟩
      rcases List.mem_append.mp hcaller with hold | hnew
      · exact Or.inl hold
      · obtain ⟨e, he, rfl⟩ := List.mem_map.mp hnew
        exact Or.inr ⟨rfl, v, Option.mem_toList.mp he⟩
  | advance i =>
      cases hcaller : d.callers[i]? with
      | none =>
          simp only [next, hcaller]
          exact Or.inl ⟨trivial, trivial, Nat.le_refl _, Nat.le_refl _, fun _ h => Or.inl h⟩
      | some caller =>
          obtain ⟨call, errand⟩ := caller
          refine Or.inr ⟨i, call, errand, hcaller, ?_⟩
          simp only [next, hcaller]

/-- The log leads from any moment of which it does to every later one. This is what makes a run an
induction on its log. -/
theorem chain_run {d : Docket} {r : Registry} {clock : Instant}
    (h : Chain r clock d.log d.registry d.clock) (moves : List Traffic.Move) :
    Chain r clock (d.run moves).log (d.run moves).registry (d.run moves).clock := by
  induction moves generalizing d with
  | nil => exact h
  | cons m moves ih =>
      apply ih
      rcases d.next_cases m with ⟨hlog, hregistry, hclock, -, -⟩ | ⟨i, call, errand, -, heq⟩
      · rw [hlog, hregistry]
        exact h.later hclock
      · rw [heq]
        exact h.concat rfl (Nat.le_refl _)

theorem chain_start (settings : RegistrySettings) (supply : IdSupply) (clock : Instant)
    (moves : List Traffic.Move) :
    let d := (start settings supply clock).run moves
    Chain (.empty settings supply) clock d.log d.registry d.clock := by
  have hstart : Chain (.empty settings supply) clock [] (.empty settings supply) clock :=
    ⟨rfl, Nat.le_refl _⟩
  exact chain_run (d := start settings supply clock) hstart moves

/-- Traffic in which a step has been taken, with the property at hand. -/
def Met (inv : Traffic → Prop) (s : Step) : Prop :=
  ∃ t : Traffic, inv t ∧ s.errand ∈ t.errands ∧ t.registry = s.registry ∧ t.clock = s.clock

/-- What every move of a run keeps held when the steps of the log were taken. -/
theorem met_run_of_mem {inv : Traffic → Prop} {moves : List Traffic.Move}
    (hmove : ∀ m ∈ moves, ∀ t, inv t → inv (t.move m)) {d : Docket} (hd : inv d.erase)
    (hlog : ∀ s ∈ d.log, Met inv s) : ∀ s ∈ (d.run moves).log, Met inv s := by
  induction moves generalizing d with
  | nil => exact hlog
  | cons m moves ih =>
      obtain ⟨hm, hmoves⟩ := List.forall_mem_cons.mp hmove
      have hnext : inv (d.next m).erase := by
        rw [erase_next]
        exact hm _ hd
      refine ih hmoves hnext fun s hs => ?_
      rcases d.next_cases m with ⟨hsame, -⟩ | ⟨i, call, errand, hcaller, heq⟩
      · rw [hsame] at hs
        exact hlog s hs
      · rw [heq] at hs
        rcases List.mem_append.mp hs with hold | hnew
        · exact hlog s hold
        · obtain rfl := List.mem_singleton.mp hnew
          refine ⟨d.erase, hd, ?_, rfl, rfl⟩
          exact List.mem_map.mpr ⟨_, List.mem_of_getElem? hcaller, rfl⟩

/-- What every move of traffic keeps held when the steps of the log were taken. So an invariant of
traffic can be used at any step of a log. -/
theorem met_run {inv : Traffic → Prop} (hmove : ∀ t m, inv t → inv (t.move m)) {d : Docket}
    (hd : inv d.erase) (hlog : ∀ s ∈ d.log, Met inv s) (moves : List Traffic.Move) :
    ∀ s ∈ (d.run moves).log, Met inv s :=
  met_run_of_mem (fun m _ t => hmove t m) hd hlog

/-! ## Whose step it is -/

/-- Calls in progress have different numbers, and all numbers have been given. So the steps with one
number are those of one call. -/
structure Numbered (d : Docket) : Prop where
  distinct : (d.callers.map (·.1)).Nodup
  given : ∀ caller ∈ d.callers, caller.1 < d.calls
  logged : ∀ s ∈ d.log, s.call < d.calls

/-- A call that has just come has taken no step. -/
theorem Numbered.unlogged {d : Docket} (h : d.Numbered) {call : Nat} (hnew : d.calls ≤ call) :
    d.log.filter (·.call = call) = [] := by
  refine List.filter_eq_nil_iff.mpr fun s hs => ?_
  have hlt := h.logged s hs
  simp only [decide_eq_true_eq]
  omega

theorem enter_callers {d : Docket} {i call : Nat} {errand : Errand}
    (h : d.callers[i]? = some (call, errand)) (s : Step) :
    ∃ front back, d.callers = front ++ (call, errand) :: back ∧
      (d.enter i s).callers = front ++ s.rest?.toList.map (s.call, ·) ++ back := by
  obtain ⟨hi, hget⟩ := List.getElem?_eq_some_iff.mp h
  refine ⟨d.callers.take i, d.callers.drop (i + 1), ?_, rfl⟩
  rw [← hget, List.cons_getElem_drop_succ, List.take_append_drop]

/-- Whoever is in progress after a step was so before under another number, or is what remains of
the call. -/
theorem mem_callers_enter {d : Docket} (hnumbered : d.Numbered) {i call : Nat} {errand : Errand}
    (h : d.callers[i]? = some (call, errand)) {caller : Nat × Errand}
    (hcaller : caller ∈ (d.enter i ⟨call, errand, d.registry, d.clock⟩).callers) :
    (caller ∈ d.callers ∧ caller.1 ≠ call) ∨
      ∃ rest, (errand.next d.registry d.clock).2 = some rest ∧ caller = (call, rest) := by
  obtain ⟨front, back, hbefore, hafter⟩ := enter_callers h ⟨call, errand, d.registry, d.clock⟩
  have hdistinct := hnumbered.distinct
  rw [hbefore, List.map_append, List.map_cons] at hdistinct
  have hnot := (List.nodup_cons.mp (List.nodup_middle.mp hdistinct)).1
  rw [← List.map_append] at hnot
  have hother : ∀ caller ∈ front ++ back, caller.1 ≠ call := by
    rintro caller hin rfl
    exact hnot (List.mem_map.mpr ⟨caller, hin, rfl⟩)
  rw [hafter] at hcaller
  rw [hbefore]
  rcases List.mem_append.mp hcaller with hin | hback
  · rcases List.mem_append.mp hin with hfront | hnew
    · exact Or.inl ⟨List.mem_append_left _ hfront, hother _ (List.mem_append_left _ hfront)⟩
    · obtain ⟨rest, hrest, rfl⟩ := List.mem_map.mp hnew
      exact Or.inr ⟨rest, Option.mem_toList.mp hrest, rfl⟩
  · refine Or.inl ⟨List.mem_append_right _ (List.mem_cons_of_mem _ hback), ?_⟩
    exact hother _ (List.mem_append_right _ hback)

/-- A call that comes has a number that nobody has had. -/
theorem Numbered.visit {d : Docket} (h : d.Numbered) (v : Visit) : (d.next (.visit v)).Numbered := by
  refine ⟨?_, ?_, fun s hs => Nat.lt_succ_of_lt (h.logged s hs)⟩
  · show ((d.callers ++ v.errand?.toList.map (d.calls, ·)).map (·.1)).Nodup
    rw [List.map_append]
    refine List.nodup_append.mpr ⟨h.distinct, ?_, ?_⟩
    · cases v.errand? with
      | none => exact List.nodup_nil
      | some e => exact List.nodup_singleton _
    · rintro call hold other hnew rfl
      obtain ⟨caller, hcaller, rfl⟩ := List.mem_map.mp hold
      obtain ⟨new, hmem, hsame⟩ := List.mem_map.mp hnew
      obtain ⟨e, -, rfl⟩ := List.mem_map.mp hmem
      exact Nat.ne_of_lt (h.given caller hcaller) hsame.symm
  · intro caller hcaller
    rcases List.mem_append.mp hcaller with hold | hnew
    · exact Nat.lt_succ_of_lt (h.given caller hold)
    · obtain ⟨e, -, rfl⟩ := List.mem_map.mp hnew
      exact Nat.lt_succ_self _

/-- Whoever takes a step keeps its number while it has more to do, and drops out when it is done. -/
theorem Numbered.enter {d : Docket} (h : d.Numbered) {i call : Nat} {errand : Errand}
    (hcaller : d.callers[i]? = some (call, errand)) :
    (d.enter i ⟨call, errand, d.registry, d.clock⟩).Numbered := by
  have hgiven := h.given _ (List.mem_of_getElem? hcaller)
  refine ⟨?_, fun caller hmem => ?_, fun s hs => ?_⟩
  · obtain ⟨front, back, hbefore, hafter⟩ :=
      enter_callers hcaller ⟨call, errand, d.registry, d.clock⟩
    have hdistinct := h.distinct
    rw [hbefore] at hdistinct
    rw [hafter]
    refine hdistinct.sublist ?_
    simp only [List.map_append, List.map_cons, List.append_assoc]
    refine (List.Sublist.refl _).append ?_
    cases Step.rest? ⟨call, errand, d.registry, d.clock⟩ with
    | none => exact List.sublist_cons_self _ _
    | some rest => exact List.Sublist.refl _
  · rcases mem_callers_enter h hcaller hmem with ⟨hold, -⟩ | ⟨rest, -, rfl⟩
    · exact h.given caller hold
    · exact hgiven
  · rcases List.mem_append.mp hs with hold | hnew
    · exact h.logged s hold
    · obtain rfl := List.mem_singleton.mp hnew
      exact hgiven

theorem Numbered.next {d : Docket} (h : d.Numbered) (m : Traffic.Move) : (d.next m).Numbered := by
  cases m with
  | wait span => exact ⟨h.distinct, h.given, h.logged⟩
  | visit v => exact h.visit v
  | advance i =>
      simp only [Docket.next]
      cases hcaller : d.callers[i]? with
      | none => exact h
      | some caller => exact h.enter hcaller

/-! ## Calls that nobody comes between -/

/-- A call, taken to its end while nobody else does anything, leaves that registry and has then
returned those entries. -/
def Ends (clock : Instant) (r : Registry) (e? : Option Errand) (after : Registry)
    (gone : List Registration) : Prop :=
  ∀ (d : Docket) call, d.registry = r → d.clock = clock → d.callers = e?.toList.map (call, ·) →
    ∃ n, let ended := d.run (List.replicate n (.advance 0))
      ended.erase = ⟨after, clock, []⟩ ∧ ended.returned call = d.returned call ++ gone

namespace Ends

variable {clock : Instant} {r after : Registry} {gone : List Registration}

theorem done : Ends clock r none r [] := by
  rintro ⟨_, _, _, calls, log⟩ call rfl rfl rfl
  exact ⟨0, rfl, (List.append_nil _).symm⟩

theorem step {e : Errand} {x? : Option Action} {rest? : Option Errand} {mid : Registry}
    (hnext : e.next r clock = (x?, rest?)) (hact : r.actAll x?.toList = mid)
    (h : Ends clock mid rest? after gone) :
    Ends clock r (some e) after ((x?.bind r.departure?).toList ++ gone) := by
  rintro d call rfl rfl hcallers
  let s : Step := ⟨call, e, d.registry, d.clock⟩
  have haction : s.action? = x? := congrArg Prod.fst hnext
  have hentered : d.next (.advance 0) = d.enter 0 s := by
    simp only [Docket.next, hcallers]
    rfl
  have hregistry : (d.enter 0 s).registry = mid := by
    rw [← hact, ← haction]
    rfl
  have hrest : (d.enter 0 s).callers = rest?.toList.map (call, ·) := by
    rw [← show s.rest? = rest? from congrArg Prod.snd hnext]
    simp [enter, hcallers, s]
  have hreturned : (d.enter 0 s).returned call = d.returned call ++ s.gone?.toList := by
    rw [returned, enter, List.filter_append, List.filterMap_append]
    congr 1
    cases hgone : s.gone? with
    | none => simp [s, hgone]
    | some gone => simp [s, hgone]
  obtain ⟨n, hended, hgone⟩ := h (d.enter 0 s) call hregistry rfl hrest
  refine ⟨n + 1, ?_, ?_⟩
  · rw [List.replicate_succ, run_cons, hentered]
    exact hended
  · rw [List.replicate_succ, run_cons, hentered, hgone, hreturned, Step.gone?, haction,
      List.append_assoc]

theorem prune (now : Instant) (records : List (InstanceId × Instant)) :
    Ends clock r (some (.prune records now)) (records.foldl (Registry.prune now) r) [] := by
  induction records generalizing r with
  | nil => exact .step rfl rfl .done
  | cons entry rest ih =>
      rw [List.foldl_cons, Registry.prune]
      split
      · next hdue =>
        have hdrop : (Errand.prune (entry :: rest) now).next r clock =
            (none, some (.drop entry.1 rest now)) := if_pos hdue
        exact .step hdrop rfl (.step rfl rfl ih)
      · next hdue =>
        have hkeep : (Errand.prune (entry :: rest) now).next r clock =
            (none, some (.prune rest now)) := if_neg hdue
        exact .step hkeep rfl ih

theorem judge (heard : Ledger) (now : Instant) (entries evicted : List Registration) :
    let judged := entries.foldl (Registry.judge heard now) (r, evicted)
    ∃ gone, judged.2.reverse = evicted.reverse ++ gone ∧
      Ends clock r (some (.judge entries heard now))
        (heard.records.foldl (Registry.prune now) judged.1) gone := by
  -- By induction on the entries that are left to judge, as the loop of the sweep goes.
  induction entries generalizing r evicted with
  | nil => exact ⟨[], (List.append_nil _).symm, .step rfl rfl (.prune now heard.records)⟩
  | cons entry rest ih =>
      rw [List.foldl_cons, Registry.judge]
      by_cases hdue : r.overdue heard now entry = true
      · rw [if_pos hdue]
        have hdep := r.departure?_evict entry
        cases hevict : r.evict entry with
        | ok taken =>
            -- Overdue and still there: two steps, the eviction and the forgetting.
            obtain ⟨departed, gone⟩ := taken
            rw [hevict] at hdep
            have hevicts : (Errand.judge (entry :: rest) heard now).next r clock =
                (some (.evict entry), some (.bury gone.id rest heard now)) := by
              rw [Errand.next, if_pos hdue, hevict]
            obtain ⟨more, hreverse, hrest⟩ := ih (r := departed.forget gone.id) (gone :: evicted)
            refine ⟨gone :: more, ?_, ?_⟩
            · rw [hreverse, List.reverse_cons, List.append_assoc]
              rfl
            · have hburied : Ends clock departed (some (.bury gone.id rest heard now)) _ more :=
                .step rfl rfl hrest
              have hended := Ends.step hevicts (Registry.act_evict_of_ok hevict) hburied
              rw [Option.bind_some, hdep] at hended
              exact hended
        | error e =>
            rw [hevict] at hdep
            have hevicts : (Errand.judge (entry :: rest) heard now).next r clock =
                (some (.evict entry), some (.judge rest heard now)) := by
              rw [Errand.next, if_pos hdue, hevict]
            obtain ⟨gone, hreverse, hrest⟩ := ih (r := r) evicted
            have hended := Ends.step hevicts (Registry.act_evict_of_error hevict) hrest
            rw [Option.bind_some, hdep] at hended
            exact ⟨gone, hreverse, hended⟩
      · rw [if_neg hdue]
        obtain ⟨gone, hreverse, hrest⟩ := ih evicted
        have hkeep : (Errand.judge (entry :: rest) heard now).next r clock =
            (none, some (.judge rest heard now)) := if_neg hdue
        exact ⟨gone, hreverse, .step hkeep rfl hrest⟩

theorem deregister (r : Registry) (role : Role) (url : String) :
    Ends clock r (some (.remove role url)) (r.perform (.deregister role url))
      (r.returns (.deregister role url)) := by
  have hdep := r.departure?_remove role url
  simp only [Registry.perform, Registry.returns, Registry.deregister]
  cases hremove : r.remove role url with
  | ok taken =>
      obtain ⟨departed, gone⟩ := taken
      rw [hremove] at hdep
      have hremoves : (Errand.remove role url).next r clock =
          (some (.remove role url), some (.forget gone.id)) := by
        rw [Errand.next, hremove]
      have hact : r.act (.remove role url) = departed := Registry.act_remove_of_ok hremove
      have hended := Ends.step hremoves hact (.step rfl rfl .done)
      rw [Option.bind_some, hdep] at hended
      exact hended
  | error e =>
      rw [hremove] at hdep
      have hremoves : (Errand.remove role url).next r clock =
          (some (.remove role url), none) := by
        rw [Errand.next, hremove]
      have hact : r.act (.remove role url) = r := by
        simp only [Registry.act, hremove, Registry.afterAttempt]
      have hended := Ends.step hremoves hact .done
      rw [Option.bind_some, hdep] at hended
      exact hended

/-- Whatever the call, its steps do to the registry what it does in one piece. -/
theorem visit (r : Registry) (clock : Instant) (v : Visit) :
    Ends clock r v.errand? (r.perform (v.operation clock)) (r.returns (v.operation clock)) := by
  cases v with
  | register reg =>
      simp only [Visit.errand?, Visit.operation, Registry.perform, Registry.register]
      cases reg.validate with
      | error e => exact .done
      | ok => exact .step rfl rfl (.step rfl rfl (.step rfl rfl .done))
  | deregister role url => exact .deregister r role url
  | heartbeat kind id =>
      have hchecks : (Errand.check id).next r clock =
          (none, if r.directory.isRegistered id then some (.beat id) else none) := rfl
      simp only [Visit.operation, Registry.perform, Registry.heartbeat, Registry.accept]
      cases hthere : r.directory.isRegistered id with
      | true =>
          rw [hthere] at hchecks
          exact .step hchecks rfl (.step rfl rfl .done)
      | false =>
          rw [hthere] at hchecks
          exact .step hchecks rfl .done
  | sweep =>
      obtain ⟨gone, hreverse, hjudge⟩ := Ends.judge r.ledger clock r.directory.entries []
      have hreturns : r.returns (.sweep clock) = gone := hreverse
      rw [Visit.operation, hreturns]
      exact .step rfl rfl (.step rfl rfl (.step rfl rfl hjudge))

end Ends

/-- A call that nobody comes between is the operation of that name, and returns what it returns. The
step of a call, and the order of steps, are thereby right for the registry that runs. -/
theorem alone_eq_perform (v : Visit) {d : Docket} (hnumbered : d.Numbered)
    (hidle : d.callers = []) : ∃ n,
      let ended := d.run (.visit v :: List.replicate n (.advance 0))
      ended.erase = ⟨d.registry.perform (v.operation d.clock), d.clock, []⟩ ∧
        ended.returned d.calls = d.registry.returns (v.operation d.clock) := by
  have hcallers : (d.next (.visit v)).callers = v.errand?.toList.map (d.calls, ·) := by
    show d.callers ++ _ = _
    rw [hidle, List.nil_append]
  have hnew : (d.next (.visit v)).returned d.calls = [] := by
    show (d.log.filter (·.call = d.calls)).filterMap Step.gone? = []
    rw [hnumbered.unlogged (Nat.le_refl _)]
    rfl
  obtain ⟨n, hended, hreturned⟩ :=
    Ends.visit d.registry d.clock v (d.next (.visit v)) d.calls rfl rfl hcallers
  rw [hnew, List.nil_append] at hreturned
  exact ⟨n, hended, hreturned⟩

end Docket
end Rollcall
