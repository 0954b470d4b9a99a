import Rollcall.Proofs.Registry.Tracking

/-!
# From the admission to the removal

An identifier is minted by one admission, and if the admission puts an entry in, one step of one
call takes it out again. Deregistrations, sweeps that go by old copies and new registrations at the
same address may compete for it in any order: the log of a docket shows it there from the one step
to the other, `Docket.Remains` and `Docket.Leaves`, and nowhere else.

* `Chain.stays_or_goes` — an entry stays to the end of a chain, or is cut out at one of its steps;
* `Chain.balance` — how many entries there are more than at the start;
* `tenure_of_id` — the life of an identifier in any run of calls.
-/

namespace Rollcall

namespace Step

/-- The step takes out who carries the identifier. -/
def takes (id : InstanceId) (s : Step) : Bool := s.gone?.any (·.id = id)

/-- The step calls a fan-out by which the identifier is removed. -/
def reports (id : InstanceId) (s : Step) : Bool :=
  s.fanOut?.any fun told => told.1.removed.any (·.id = id)

theorem takes_iff {s : Step} {id : InstanceId} :
    s.takes id = true ↔ ∃ gone, s.gone? = some gone ∧ gone.id = id := by
  simp [takes, Option.any_eq_true]

/-- Removals are reported by the very steps that make them, and by no others. The news of a
departure and the departure are one step. -/
theorem reports_eq_takes (id : InstanceId) (s : Step) : s.reports id = s.takes id := by
  cases haction : s.action? with
  | none => simp only [reports, takes, fanOut?, gone?, haction, Option.bind_none, Option.any_none]
  | some x =>
      simp only [reports, takes, fanOut?, gone?, haction, Option.bind_some]
      cases hdep : s.registry.departure? x with
      | some gone =>
          rw [Registry.news?_of_departure hdep]
          simp [Patch.ofRemoved]
      | none =>
          cases hnews : s.registry.news? x with
          | none => rfl
          | some told =>
              rcases Registry.news?_cases hnews with ⟨a, -, hadded⟩ | ⟨gone, hgone, -⟩
              · simp [hadded, Patch.ofAdded]
              · rw [hdep] at hgone
                cases hgone

theorem mem_of_gone? {s : Step} (h : s.registry.Coherent) {gone : Registration}
    (hgone : s.gone? = some gone) : gone ∈ s.registry.directory.entries := by
  obtain ⟨x, -, hdep⟩ := Option.bind_eq_some_iff.mp hgone
  exact (h.entries_of_departure hdep).1

theorem takes_eq_false {s : Step} (h : s.registry.Coherent) {id : InstanceId}
    (habsent : ∀ entry ∈ s.registry.directory.entries, entry.id ≠ id) : s.takes id = false := by
  rw [← Bool.not_eq_true, takes_iff]
  rintro ⟨gone, hgone, hid⟩
  exact habsent gone (mem_of_gone? h hgone) hid

/-- Who takes out an identifier that is there takes out that entry. -/
theorem takes_eq_decide {s : Step} (h : s.registry.Coherent) {entry : Registration}
    (hentry : entry ∈ s.registry.directory.entries) :
    s.takes entry.id = decide (s.gone? = some entry) := by
  rw [Bool.eq_iff_iff, takes_iff, decide_eq_true_iff]
  constructor
  · rintro ⟨gone, hgone, hid⟩
    rw [hgone, h.sound.eq_of_id (mem_of_gone? h hgone) hentry hid]
  · exact fun hgone => ⟨entry, hgone, rfl⟩

/-- A step that takes out an entry leaves it gone, any other leaves it there. -/
theorem gone_or_mem_after {s : Step} (h : s.registry.Coherent) {entry : Registration}
    (hentry : entry ∈ s.registry.directory.entries) :
    (s.gone? = some entry ∧ s.after.Gone entry.id) ∨
      (s.gone? ≠ some entry ∧ entry ∈ s.after.directory.entries) := by
  cases haction : s.action? with
  | none =>
      refine Or.inr ⟨fun hgone => ?_, ?_⟩
      · rw [gone?, haction] at hgone
        cases hgone
      · rw [after_of_none haction]
        exact hentry
  | some x =>
      have hgone : s.gone? = s.registry.departure? x := by
        rw [gone?, haction, Option.bind_some]
      rw [hgone, after_of_some haction]
      by_cases hdep : s.registry.departure? x = some entry
      · exact Or.inl ⟨hdep, h.gone_of_departure hdep⟩
      · exact Or.inr ⟨hdep, Registry.mem_entries_act_of_mem hentry hdep⟩

/-- An admission that puts nothing in mints an identifier that is gone at once. -/
theorem gone_after_admission {s : Step} (h : s.registry.Coherent) {a : Admission}
    (hadmission : s.admission? = some a) (hinserted : a.inserted = false) :
    ¬ s.registry.Minted a.id ∧ s.after.Gone a.id := by
  obtain ⟨reg, -, haction, rfl⟩ := admission?_eq hadmission
  rcases s.registry.directory.enroll_cases s.registry.nextId reg with
    ⟨kept, -, -, heq⟩ | ⟨-, heq⟩
  · have hdirectory : s.after.directory = s.registry.directory := by
      rw [after_of_some haction]
      show (s.registry.enroll reg).1.directory = _
      rw [Registry.enroll_eq, heq]
    have hnew := s.registry.not_minted_nextId
    rw [s.registry.id_enroll]
    refine ⟨hnew, ?_, ?_⟩
    · rw [after_of_some haction]
      exact ⟨s.registry.admissions, Nat.lt_succ_self _, rfl⟩
    · rw [hdirectory]
      rintro entry hentry hsame
      exact hnew (hsame ▸ h.minted entry hentry)
  · rw [Registry.enroll_eq, heq] at hinserted
    cases hinserted

theorem mem_after_admission {s : Step} {a : Admission} (hadmission : s.admission? = some a) :
    a.entry ∈ s.after.directory.entries := by
  obtain ⟨reg, -, haction, rfl⟩ := admission?_eq hadmission
  rw [after_of_some haction]
  exact s.registry.mem_enroll reg

theorem countP_admission (s : Step) : s.admission?.toList.countP (·.inserted) =
    (s.action?.bind s.registry.arrival?).toList.length := by
  cases hadmission : s.admission? with
  | some a =>
      obtain ⟨reg, -, haction, rfl⟩ := admission?_eq hadmission
      rw [haction, Option.bind_some, Registry.arrival?]
      by_cases hinserted : (s.registry.enroll reg).2.inserted = true
      · simp [hinserted]
      · simp [hinserted]
  | none =>
      cases haction : s.action? with
      | none => rfl
      | some x =>
          cases x with
          | enroll reg =>
              rw [admission?, (Traffic.next_opening haction).1 reg rfl] at hadmission
              cases hadmission
          | _ => rfl

/-- What comes and goes with a step is what the directory gains and loses. -/
theorem balance (s : Step) :
    s.after.directory.size + s.gone?.toList.length =
      s.registry.directory.size + s.admission?.toList.countP (·.inserted) := by
  rw [countP_admission]
  cases haction : s.action? with
  | none =>
      rw [after_of_none haction, gone?, haction]
      rfl
  | some x =>
      rw [after_of_some haction, gone?, haction]
      exact s.registry.size_act x

end Step

namespace Chain

variable {r last : Registry} {clock stop : Instant} {log : List Step}

theorem coherent_of_mem (h : Chain r clock log last stop) (hr : r.Coherent) {s : Step}
    (hs : s ∈ log) : s.registry.Coherent := by
  obtain ⟨front, back, rfl⟩ := List.append_of_mem hs
  exact h.split.1.coherent hr

theorem gone_of_mem (h : Chain r clock log last stop) {id : InstanceId} (hid : r.Gone id)
    {s : Step} (hs : s ∈ log) : s.registry.Gone id := by
  obtain ⟨front, back, rfl⟩ := List.append_of_mem hs
  exact h.split.1.gone hid

/-- Nobody carries an identifier before it is minted. -/
theorem absent_of_not_minted (h : Chain r clock log last stop) (hr : r.Coherent)
    {id : InstanceId} (hid : ¬ last.Minted id) {s : Step} (hs : s ∈ log) :
    ∀ entry ∈ s.registry.directory.entries, entry.id ≠ id := by
  rintro entry hentry rfl
  exact hid (h.minted_of_mem hs ((h.coherent_of_mem hr hs).minted entry hentry))

/-- An entry stays to the end of a chain, or is cut out at one of its steps and gone from there. -/
theorem stays_or_goes (h : Chain r clock log last stop) (hr : r.Coherent) {entry : Registration}
    (hentry : entry ∈ r.directory.entries) :
    ((∀ s ∈ log, entry ∈ s.registry.directory.entries ∧ s.gone? ≠ some entry) ∧
      entry ∈ last.directory.entries) ∨
    ∃ mid out rest, log = mid ++ out :: rest ∧
      (∀ s ∈ mid, entry ∈ s.registry.directory.entries ∧ s.gone? ≠ some entry) ∧
      entry ∈ out.registry.directory.entries ∧ out.gone? = some entry ∧
      (∀ s ∈ rest, s.registry.Gone entry.id) ∧ last.Gone entry.id := by
  induction log generalizing r clock with
  | nil =>
      obtain ⟨rfl, -⟩ := h
      exact Or.inl ⟨fun s hs => absurd hs List.not_mem_nil, hentry⟩
  | cons s log ih =>
      obtain ⟨rfl, -, hrest⟩ := h
      -- The step cuts the entry out, and it is gone from there, or hands it on to the next.
      rcases Step.gone_or_mem_after hr hentry with ⟨hgone, hafter⟩ | ⟨hnot, hafter⟩
      · refine Or.inr ⟨[], s, log, rfl, fun s hs => absurd hs List.not_mem_nil, hentry, hgone, ?_⟩
        exact ⟨fun s hs => hrest.gone_of_mem hafter hs, hrest.gone hafter⟩
      · have hthis : ∀ rest : List Step,
            (∀ t ∈ rest, entry ∈ t.registry.directory.entries ∧ t.gone? ≠ some entry) →
            ∀ t ∈ s :: rest, entry ∈ t.registry.directory.entries ∧ t.gone? ≠ some entry := by
          intro rest hall t ht
          rcases List.mem_cons.mp ht with rfl | ht
          · exact ⟨hentry, hnot⟩
          · exact hall t ht
        rcases ih hrest (hr.actAll _) hafter with
          ⟨hall, hlast⟩ | ⟨mid, out, rest, rfl, hall, hout, hgone, hrest⟩
        · exact Or.inl ⟨hthis _ hall, hlast⟩
        · exact Or.inr ⟨s :: mid, out, rest, rfl, hthis _ hall, hout, hgone, hrest⟩

/-- The entries at the end and those taken out are those at the start and those put in. -/
theorem balance (h : Chain r clock log last stop) :
    last.directory.size + (log.filterMap Step.gone?).length =
      r.directory.size + (log.filterMap Step.admission?).countP (·.inserted) := by
  -- By induction on the log; each step keeps the two sums apart by the same amount.
  induction log generalizing r clock with
  | nil =>
      obtain ⟨rfl, -⟩ := h
      rfl
  | cons s log ih =>
      obtain ⟨rfl, -, hrest⟩ := h
      have hstep := s.balance
      have hlog := ih hrest
      have hgone : ((s :: log).filterMap Step.gone?).length =
          s.gone?.toList.length + (log.filterMap Step.gone?).length := by
        rw [List.filterMap_cons]
        cases s.gone? with
        | none => simp
        | some gone => simp [Nat.add_comm]
      have hcome : ((s :: log).filterMap Step.admission?).countP (·.inserted) =
          s.admission?.toList.countP (·.inserted) +
            (log.filterMap Step.admission?).countP (·.inserted) := by
        rw [List.filterMap_cons]
        cases s.admission? with
        | none => simp
        | some a => simp [List.countP_cons, Nat.add_comm]
      omega

end Chain

namespace Docket

/-- The registry as the steps find it, and as it is now: all that ever was, in order. -/
def moments (d : Docket) (steps : List Step) : List Registry :=
  steps.map (·.registry) ++ [d.registry]

/-- An entry is still there: nobody has taken it out, reported it removed, or returned it. -/
structure Remains (d : Docket) (back : List Step) (entry : Registration) : Prop where
  there : ∀ r ∈ d.moments back, entry ∈ r.directory.entries
  taken : d.log.filter (·.takes entry.id) = []
  reported : d.log.filter (·.reports entry.id) = []
  returned : ∀ call, (d.returned call).filter (·.id = entry.id) = []

/-- An entry is there until one step takes it out, reports it removed and returns it, and its
identifier is neither there nor accepted afterwards. -/
structure Leaves (d : Docket) (mid : List Step) (out : Step) (rest : List Step)
    (entry : Registration) : Prop where
  there : ∀ s ∈ mid ++ [out], entry ∈ s.registry.directory.entries
  gone : out.gone? = some entry
  taken : d.log.filter (·.takes entry.id) = [out]
  news : out.fanOut? = some (.ofRemoved [entry], out.registry.directory.others entry)
  reported : d.log.filter (·.reports entry.id) = [out]
  returned : ∀ call, (d.returned call).filter (·.id = entry.id) =
    if call = out.call then [entry] else []
  absent : ∀ r ∈ d.moments rest, ∀ other ∈ r.directory.entries, other.id ≠ entry.id
  refused : ∀ s ∈ rest, s.errand = .check entry.id → s.rest? = none

theorem filter_reports (d : Docket) (id : InstanceId) :
    d.log.filter (·.reports id) = d.log.filter (·.takes id) := by
  congr 1
  funext s
  exact s.reports_eq_takes id

/-- A call returns an identifier with those of its steps that take it out. -/
theorem filter_returned (d : Docket) (call : Nat) (id : InstanceId) :
    (d.returned call).filter (·.id = id) =
      ((d.log.filter (·.takes id)).filter (·.call = call)).filterMap Step.gone? := by
  have hsteps : ∀ steps : List Step, (steps.filterMap Step.gone?).filter (·.id = id) =
      (steps.filter (·.takes id)).filterMap Step.gone? := by
    intro steps
    rw [List.filter_filterMap, List.filterMap_filter]
    congr 1
    funext s
    rw [Step.takes.eq_def]
    cases s.gone? with
    | none => rfl
    | some gone => by_cases hid : gone.id = id <;> simp [hid]
  rw [returned, hsteps, List.filter_comm]

section Account

variable {d : Docket} {before back : List Step} {entry : Registration}

theorem filter_takes_of_absent {steps : List Step} {id : InstanceId}
    (hcoherent : ∀ s ∈ steps, s.registry.Coherent)
    (habsent : ∀ s ∈ steps, ∀ other ∈ s.registry.directory.entries, other.id ≠ id) :
    steps.filter (·.takes id) = [] := by
  refine List.filter_eq_nil_iff.mpr fun s hs => ?_
  rw [Step.takes_eq_false (hcoherent s hs) (habsent s hs)]
  exact Bool.false_ne_true

theorem filter_takes_of_stays {steps : List Step}
    (hcoherent : ∀ s ∈ steps, s.registry.Coherent)
    (hstays : ∀ s ∈ steps, entry ∈ s.registry.directory.entries ∧ s.gone? ≠ some entry) :
    steps.filter (·.takes entry.id) = [] := by
  refine List.filter_eq_nil_iff.mpr fun s hs => ?_
  rw [Step.takes_eq_decide (hcoherent s hs) (hstays s hs).1, decide_eq_true_iff]
  exact (hstays s hs).2

theorem remains_of_stays (hlog : d.log = before ++ back)
    (hcoherent : ∀ s ∈ d.log, s.registry.Coherent)
    (hbefore : ∀ s ∈ before, ∀ other ∈ s.registry.directory.entries, other.id ≠ entry.id)
    (hstays : ∀ s ∈ back, entry ∈ s.registry.directory.entries ∧ s.gone? ≠ some entry)
    (hlast : entry ∈ d.registry.directory.entries) : d.Remains back entry := by
  rw [hlog] at hcoherent
  have htaken : d.log.filter (·.takes entry.id) = [] := by
    rw [hlog, List.filter_append,
      filter_takes_of_absent (fun s hs => hcoherent s (List.mem_append_left _ hs)) hbefore,
      filter_takes_of_stays (fun s hs => hcoherent s (List.mem_append_right _ hs)) hstays]
    rfl
  refine ⟨fun r hr => ?_, htaken, ?_, fun call => ?_⟩
  · rcases List.mem_append.mp hr with hr | hr
    · obtain ⟨s, hs, rfl⟩ := List.mem_map.mp hr
      exact (hstays s hs).1
    · rw [List.mem_singleton.mp hr]
      exact hlast
  · rw [filter_reports, htaken]
  · rw [filter_returned, htaken]
    rfl

theorem leaves_of_goes {mid rest : List Step} {out : Step}
    (hlog : d.log = before ++ (mid ++ out :: rest))
    (hcoherent : ∀ s ∈ d.log, s.registry.Coherent)
    (hbefore : ∀ s ∈ before, ∀ other ∈ s.registry.directory.entries, other.id ≠ entry.id)
    (hstays : ∀ s ∈ mid, entry ∈ s.registry.directory.entries ∧ s.gone? ≠ some entry)
    (hout : entry ∈ out.registry.directory.entries) (hgone : out.gone? = some entry)
    (hrest : ∀ s ∈ rest, s.registry.Gone entry.id) (hlast : d.registry.Gone entry.id) :
    d.Leaves mid out rest entry := by
  rw [hlog] at hcoherent
  have hback : ∀ s ∈ mid ++ out :: rest, s.registry.Coherent :=
    fun s hs => hcoherent s (List.mem_append_right _ hs)
  have hafter : ∀ s ∈ rest, s.registry.Coherent :=
    fun s hs => hback s (List.mem_append_right _ (List.mem_cons_of_mem _ hs))
  -- Before this step the entry stays, and after it is gone, so no other step takes it out.
  have htaken : d.log.filter (·.takes entry.id) = [out] := by
    have htakes : out.takes entry.id = true := Step.takes_iff.mpr ⟨entry, hgone, rfl⟩
    rw [hlog, List.filter_append, List.filter_append, List.filter_cons_of_pos htakes,
      filter_takes_of_absent (fun s hs => hcoherent s (List.mem_append_left _ hs)) hbefore,
      filter_takes_of_stays (fun s hs => hback s (List.mem_append_left _ hs)) hstays,
      filter_takes_of_absent hafter fun s hs => (hrest s hs).2]
    rfl
  refine ⟨fun s hs => ?_, hgone, htaken, ?_, ?_, fun call => ?_, fun r hr => ?_, ?_⟩
  · rcases List.mem_append.mp hs with hs | hs
    · exact (hstays s hs).1
    · rw [List.mem_singleton.mp hs]
      exact hout
  · obtain ⟨x, haction, hdep⟩ := Option.bind_eq_some_iff.mp hgone
    rw [Step.fanOut?, haction]
    exact Registry.news?_of_departure hdep
  · rw [filter_reports, htaken]
  · rw [filter_returned, htaken]
    by_cases hcall : out.call = call
    · rw [List.filter_cons_of_pos (by simpa using hcall), if_pos hcall.symm]
      simp [hgone]
    · rw [List.filter_cons_of_neg (by simpa using hcall), if_neg (Ne.symm hcall)]
      rfl
  · rcases List.mem_append.mp hr with hr | hr
    · obtain ⟨s, hs, rfl⟩ := List.mem_map.mp hr
      exact (hrest s hs).2
    · rw [List.mem_singleton.mp hr]
      exact hlast.2
  · intro s hs hcheck
    have hnot : s.registry.directory.isRegistered entry.id = false := by
      rw [← Bool.not_eq_true, Directory.isRegistered_iff]
      rintro ⟨other, hother, hsame⟩
      exact (hrest s hs).2 other hother hsame
    rw [Step.rest?, hcheck, Errand.next, hnot]
    rfl

end Account

/-- The life of an identifier, however the calls come and take their steps. What is there is what
admissions have put in, less what has been taken out. An identifier whose admission put nothing in
is at no moment there; one whose admission put an entry in was not there before, and from then on
the entry remains, or leaves once. -/
theorem tenure_of_id (settings : RegistrySettings) (supply : IdSupply) (clock : Instant)
    (moves : List Traffic.Move) :
    let d := (start settings supply clock).run moves
    d.registry.directory.size + (d.log.filterMap Step.gone?).length =
      (d.log.filterMap Step.admission?).countP (·.inserted) ∧
    ∀ front s back a, d.log = front ++ s :: back → s.admission? = some a →
      (a.inserted = false →
        ∀ r ∈ d.moments d.log, ∀ entry ∈ r.directory.entries, entry.id ≠ a.id) ∧
      (a.inserted = true → a.entry.id = a.id ∧
        (∀ t ∈ front ++ [s], ∀ entry ∈ t.registry.directory.entries, entry.id ≠ a.id) ∧
        (d.Remains back a.entry ∨
          ∃ mid out rest, back = mid ++ out :: rest ∧ d.Leaves mid out rest a.entry)) := by
  intro d
  have hchain : Chain (.empty settings supply) clock d.log d.registry d.clock :=
    chain_start settings supply clock moves
  have hempty : (Registry.empty settings supply).Coherent := .empty settings supply
  have hcoherent : ∀ t ∈ d.log, t.registry.Coherent :=
    fun t ht => hchain.coherent_of_mem hempty ht
  refine ⟨?_, fun front s back a hlog hadmission => ?_⟩
  · rw [hchain.balance]
    exact Nat.zero_add _
  rw [hlog] at hchain
  obtain ⟨hfront, hback⟩ := hchain.split
  have hs : s.registry.Coherent := hfront.coherent hempty
  have hbefore : ¬ s.registry.Minted a.id →
      ∀ t ∈ front ++ [s], ∀ entry ∈ t.registry.directory.entries, entry.id ≠ a.id := by
    intro hnew t ht
    rcases List.mem_append.mp ht with ht | ht
    · exact hfront.absent_of_not_minted hempty hnew ht
    · rw [List.mem_singleton.mp ht]
      rintro entry hentry hid
      exact hnew (hid ▸ hs.minted entry hentry)
  have hsplit : d.log = (front ++ [s]) ++ back := by
    rw [hlog, List.append_assoc]
    rfl
  refine ⟨fun hinserted => ?_, fun hinserted => ?_⟩
  -- Minted but not put in, the identifier is gone from the start.
  · obtain ⟨hnew, hgone⟩ := Step.gone_after_admission hs hadmission hinserted
    intro r hr
    rcases List.mem_append.mp hr with hr | hr
    · obtain ⟨t, ht, rfl⟩ := List.mem_map.mp hr
      rw [hsplit] at ht
      rcases List.mem_append.mp ht with ht | ht
      · exact hbefore hnew t ht
      · exact (hback.gone_of_mem hgone ht).2
    · rw [List.mem_singleton.mp hr]
      exact (hback.gone hgone).2
  · obtain ⟨hid, hnew⟩ := Step.not_minted_of_admission hadmission hinserted
    have hearlier := hbefore hnew
    refine ⟨hid, hearlier, ?_⟩
    rw [← hid] at hearlier
    rcases hback.stays_or_goes (hs.actAll _) (Step.mem_after_admission hadmission) with
      ⟨hstays, hlast⟩ | ⟨mid, out, rest, rfl, hstays, hout, hgone, hrest, hlast⟩
    · exact Or.inl (remains_of_stays hsplit hcoherent hearlier hstays hlast)
    · refine Or.inr ⟨mid, out, rest, rfl, ?_⟩
      exact leaves_of_goes hsplit hcoherent hearlier hstays hout hgone hrest hlast

/-- A log registers twice. A sweep copies the directory and finds it silent, but before the sweep
comes to evict it, it deregisters. -/
theorem leaves_by_one_of_two :
    let supply : IdSupply := .numbered 'i' [] [] 'd' (by decide) (by decide)
    let log : Registration := { role := .log, url := "http://p" }
    let gone : Registration := { log with id := supply.mint 1 }
    let moves : List Traffic.Move := [.visit (.register log), .visit (.register log), .advance 0,
      .advance 1, .advance 0, .advance 0, .advance 0, .advance 0, .wait ⟨70⟩, .visit .sweep,
      .advance 0, .advance 0, .advance 0, .visit (.deregister .log "http://p"), .advance 1,
      .advance 0, .advance 1, .advance 0, .advance 0, .advance 0, .advance 0, .advance 0,
      .advance 0]
    let d := (start ⟨⟨60⟩, ⟨9⟩, ⟨9⟩, 1⟩ supply ⟨0⟩).run moves
    d.callers = [] ∧
    (∃ first mid out rest, d.log = first :: (mid ++ out :: rest) ∧ d.Leaves mid out rest gone ∧
      out.call = 3) ∧
    ∀ r ∈ d.moments d.log, ∀ entry ∈ r.directory.entries, entry.id ≠ supply.mint 2 := by
  intro supply log gone moves d
  let first : Step := d.log.get ⟨0, by decide +kernel⟩
  let second : Step := d.log.get ⟨1, by decide +kernel⟩
  have hfirst : d.log = d.log.take 0 ++ first :: d.log.drop 1 := d.log_cut _
  have hsecond : d.log = d.log.take 1 ++ second :: d.log.drop 2 := d.log_cut _
  have hinserted : first.admission? = some ⟨gone.id, gone, gone, true⟩ := by decide +kernel
  have hkept : second.admission? =
      some ⟨supply.mint 2, { log with id := supply.mint 2 }, gone, false⟩ := by decide +kernel
  have hreturned : d.returned 3 = [gone] := by decide +kernel
  have hempty : d.registry.directory.entries = [] := by decide +kernel
  have htenure := (tenure_of_id ⟨⟨60⟩, ⟨9⟩, ⟨9⟩, 1⟩ supply ⟨0⟩ moves).2
  refine ⟨by decide +kernel, ?_, (htenure _ _ _ _ hsecond hkept).1 rfl⟩
  obtain ⟨-, -, hremains | ⟨mid, out, rest, hback, hleaves⟩⟩ :=
    (htenure _ _ _ _ hfirst hinserted).2 rfl
  · have hthere := hremains.there d.registry (List.mem_append_right _ (List.mem_singleton_self _))
    rw [hempty] at hthere
    cases hthere
  · refine ⟨first, mid, out, rest, ?_, hleaves, ?_⟩
    · rw [← hback]
      exact hfirst
    · have hcall := hleaves.returned 3
      rw [hreturned, List.filter_cons_of_pos (by simp)] at hcall
      by_contra hne
      rw [if_neg (Ne.symm hne)] at hcall
      cases hcall

end Docket
end Rollcall
