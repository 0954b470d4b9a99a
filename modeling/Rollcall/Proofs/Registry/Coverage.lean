import Rollcall.Proofs.Registry.Overdue

/-!
# Every entry is tracked

An entry is in the directory before its first sign of life is noted, and out of it before its record
is dropped. Between the two it has a record at every moment, whatever other calls do: only an
identifier that belongs to nobody is ever forgotten.

* `Traffic.covered_run` — an entry has a record, or a call is about to note its first sign of life;
* `unheard_iff_of_chain` — who is not gone has no record exactly if no step has noted any;
* `Docket.tracking_of_run` — what this comes to for the calls of a run.
-/

namespace Rollcall

theorem Ledger.tracks_eq_isSome (l : Ledger) (id : InstanceId) :
    l.tracks id = (l.lastSeen? id).isSome := by
  rw [Bool.eq_iff_iff, tracks, lastSeen?, Option.isSome_map, List.find?_isSome]
  exact List.any_eq_true

theorem Registry.tracks_act {r : Registry} {id : InstanceId} (h : r.ledger.tracks id = true)
    {x : Action} (hx : x ≠ .forget id) : (r.act x).ledger.tracks id = true := by
  rw [Ledger.tracks_eq_isSome] at h ⊢
  rw [ledger_act]
  cases x with
  | record other now =>
      rw [Ledger.lastSeen?_record]
      split
      · rfl
      · exact h
  | forget other =>
      have hne : id ≠ other := by
        rintro rfl
        exact hx rfl
      rw [Ledger.lastSeen?_forget, if_neg hne]
      exact h
  | _ => exact h

/-- Forgetting who has gone leaves the records of all entries alone. -/
theorem Registry.Gone.lastSeen?_forget {r : Registry} {id : InstanceId} (h : r.Gone id)
    {entry : Registration} (hentry : entry ∈ r.directory.entries) :
    (r.forget id).ledger.lastSeen? entry.id = r.ledger.lastSeen? entry.id := by
  show (r.ledger.forget id).lastSeen? entry.id = _
  rw [Ledger.lastSeen?_forget, if_neg (h.2 entry hentry)]

namespace Traffic

variable {t : Traffic} {m : Move}

/-- What a call is about to forget belongs to nobody, so forgetting it harms nobody. -/
theorem Tracked.gone_of_errand (h : t.Tracked) {e : Errand} (he : e ∈ t.errands) {r : Registry}
    {clock : Instant} {id : InstanceId} (hnext : (e.next r clock).1 = some (.forget id)) :
    t.registry.Gone id :=
  (h.errands e he).gone id (Errand.forgets?_of_forget hnext)

theorem Tracked.gone_of_forget (h : t.Tracked) {id : InstanceId}
    (haction : t.action? m = some (.forget id)) : t.registry.Gone id := by
  obtain ⟨e, he, hnext, -⟩ := errand_of_action haction
  exact h.gone_of_errand he hnext

/-- Who is about to note a sign of life stays so until it is noted. -/
theorem record_stays {a : Admission} (h : .record a ∈ t.errands) (m : Move) :
    .record a ∈ (t.move m).errands ∨ t.action? m = some (.record a.id t.clock) :=
  (errand_stays_or_moves h m).imp_right And.left

/-- An entry has a record in the ledger, or its first sign of life is about to be noted. In the
second case the call that has admitted it is still at work. -/
def Covered (t : Traffic) (entry : Registration) : Prop :=
  t.registry.ledger.tracks entry.id = true ∨ ∃ a, .record a ∈ t.errands ∧ a.id = entry.id

theorem Covered.move (htracked : t.Tracked) {entry : Registration} (h : t.Covered entry)
    (hentry : entry ∈ t.registry.directory.entries) (m : Move) : (t.move m).Covered entry := by
  rcases h with hseen | ⟨a, herrand, hid⟩
  · left
    rw [registry_move]
    cases haction : t.action? m with
    | none => exact hseen
    | some x =>
        refine Registry.tracks_act hseen ?_
        rintro rfl
        exact (htracked.gone_of_forget haction).2 entry hentry rfl
  · rcases record_stays herrand m with hstays | haction
    · exact Or.inr ⟨a, hstays, hid⟩
    · left
      rw [registry_move, haction, ← hid]
      show (t.registry.ledger.record a.id t.clock).tracks a.id = true
      rw [Ledger.tracks_eq_isSome, Ledger.lastSeen?_record, if_pos rfl]
      rfl

theorem covered_move (htracked : t.Tracked)
    (h : ∀ entry ∈ t.registry.directory.entries, t.Covered entry) (m : Move) :
    ∀ entry ∈ (t.move m).registry.directory.entries, (t.move m).Covered entry := by
  intro entry hentry
  have hbefore := hentry
  rw [registry_move] at hbefore
  cases haction : t.action? m with
  | none =>
      rw [haction] at hbefore
      exact (h entry hbefore).move htracked hbefore m
  | some x =>
      rw [haction] at hbefore
      rcases Registry.mem_entries_act hbefore with hold | harrival
      · exact (h entry hold).move htracked hold m
      -- Whoever has put the entry in notes its sign of life next.
      · cases x with
        | enroll reg =>
            simp only [Registry.arrival?, Option.ite_none_right_eq_some, Option.some.injEq]
              at harrival
            obtain ⟨hinserted, rfl⟩ := harrival
            refine Or.inr ⟨_, mem_errands_of_enroll haction, ?_⟩
            rw [Registry.enroll_of_inserted hinserted]
        | _ => cases harrival

theorem covered_run (htracked : t.Tracked)
    (h : ∀ entry ∈ t.registry.directory.entries, t.Covered entry) (moves : List Move) :
    ∀ entry ∈ (t.run moves).registry.directory.entries, (t.run moves).Covered entry := by
  induction moves generalizing t with
  | nil => exact h
  | cons m moves ih => exact ih (htracked.move m) (covered_move htracked h m)

theorem Tracked.run (h : t.Tracked) (moves : List Move) : (t.run moves).Tracked := by
  induction moves generalizing t with
  | nil => exact h
  | cons m moves ih => exact ih (h.move m)

end Traffic

/-- Who is not gone has no record exactly if no step has noted a sign of life. A record is never
lost while it is somebody's. -/
theorem unheard_iff_of_chain {settings : RegistrySettings} {supply : IdSupply}
    {start stop : Instant} {log : List Step} {last : Registry}
    (h : Chain (.empty settings supply) start log last stop)
    (hmet : ∀ s ∈ log, Docket.Met Traffic.Tracked s) {id : InstanceId} (hid : ¬ last.Gone id) :
    last.ledger.lastSeen? id = none ↔ ∀ s ∈ log, ¬ s.Hears id := by
  -- At the start of the clock nothing lies further back than any timeout.
  have hnow (s : Step) : ¬ s.LongBefore ⟨0⟩ ⟨0⟩ := Nat.not_lt_zero _
  have hoverdue := overdue_iff_of_chain h hmet hid ⟨0⟩ ⟨0⟩
  rw [forall₂_congr fun s _ => imp_congr_right fun _ => iff_false_intro (hnow s)] at hoverdue
  refine Iff.trans ?_ hoverdue
  cases last.ledger.lastSeen? id with
  | none => exact iff_of_true rfl rfl
  | some seen =>
      refine iff_of_false nofun fun hstale => ?_
      exact Nat.not_lt_zero _ (isStale_some_iff.mp hstale)

namespace Docket

/-- The directory and the ledger of a docket fit together, apart from what calls in progress have
yet to note or to forget. -/
structure Tracking (d : Docket) : Prop where
  /-- An entry has a record once its registration has noted its sign of life, -/
  noted : ∀ note ∈ d.log, ∀ a, note.errand = .record a →
    ∀ entry ∈ d.registry.directory.entries, entry.id = a.id →
      d.registry.ledger.tracks entry.id = true
  /-- and so has every entry when no call is in progress. -/
  idle : d.callers = [] → ∀ entry ∈ d.registry.directory.entries,
    d.registry.ledger.tracks entry.id = true
  /-- An identifier that a call is about to forget belongs to nobody, now or later, -/
  never : ∀ caller ∈ d.callers, ∀ id,
    (caller.2.next d.registry d.clock).1 = some (.forget id) →
      ∀ moves, ∀ entry ∈ (d.run moves).registry.directory.entries, entry.id ≠ id
  /-- and nobody who is there loses a record by it. -/
  harmless : ∀ caller ∈ d.callers, ∀ id,
    (caller.2.next d.registry d.clock).1 = some (.forget id) →
      ∀ entry ∈ d.registry.directory.entries,
        (d.registry.forget id).ledger.lastSeen? entry.id = d.registry.ledger.lastSeen? entry.id

/-- The directory and the ledger fit together at every moment, however the calls come and take
their steps. -/
theorem tracking_of_run (settings : RegistrySettings) (supply : IdSupply) (clock : Instant)
    (moves : List Traffic.Move) : ((start settings supply clock).run moves).Tracking := by
  have herase := erase_run (start settings supply clock) moves
  have hchain : Chain (.empty settings supply) clock _ _ _ :=
    chain_start settings supply clock moves
  have hmet := tracked_run settings supply clock moves
  have hcovered := Traffic.covered_run (.start settings supply clock)
    (fun _ h => absurd h List.not_mem_nil) moves
  have htracked := (Traffic.Tracked.start settings supply clock).run moves
  generalize (start settings supply clock).run moves = d at herase hchain hmet ⊢
  change d.erase = Traffic.run ⟨.empty settings supply, clock, []⟩ moves at herase
  rw [← herase] at hcovered htracked
  have hgone : ∀ caller ∈ d.callers, ∀ id,
      (caller.2.next d.registry d.clock).1 = some (.forget id) → d.registry.Gone id :=
    fun caller hcaller id haction => htracked.gone_of_errand (List.mem_map_of_mem hcaller) haction
  refine ⟨fun note hnote a herrand entry hentry hid => ?_, fun hidle entry hentry => ?_,
    fun caller hcaller id haction moves => ?_, fun caller hcaller id haction entry hentry => ?_⟩
  · -- An entry that is in the directory has not gone, so it is untracked only if nothing has ever
    -- been noted of it.
    have hpresent : ¬ d.registry.Gone entry.id := fun hgone => hgone.2 entry hentry rfl
    rw [Ledger.tracks_eq_isSome, Option.isSome_iff_ne_none, ne_eq,
      unheard_iff_of_chain hchain hmet hpresent]
    intro hnone
    refine hnone note hnote ?_
    rw [hid]
    exact Step.hears_of_record herrand
  · rcases hcovered entry hentry with hseen | ⟨a, herrand, -⟩
    · exact hseen
    · have hnobody : d.erase.errands = [] := by
        show d.callers.map _ = []
        rw [hidle]
        rfl
      rw [hnobody] at herrand
      cases herrand
  · have hlater : (d.run moves).registry = (d.erase.run moves).registry :=
      congrArg Traffic.registry (erase_run d moves)
    rw [hlater, Traffic.run_eq_actAll]
    exact ((hgone caller hcaller id haction).actAll _).2
  · exact (hgone caller hcaller id haction).lastSeen?_forget hentry

/-- A log deregisters while a heartbeat of it is on its way, and registers again before its first
identifier is forgotten. -/
theorem tracked_on_return :
    let supply : IdSupply := .numbered 'i' [] [] 'd' (by decide) (by decide)
    let log : Registration := { role := .log, url := "http://p" }
    let returned : Registration := { log with id := supply.mint 2 }
    let moves : List Traffic.Move := [.visit (.register log), .advance 0, .advance 0, .advance 0,
      .visit (.heartbeat .basic (supply.mint 1)), .advance 0, .visit (.deregister .log "http://p"),
      .advance 1, .visit (.register log), .advance 2, .advance 2]
    let whole : List Traffic.Move := moves ++ [.advance 0, .advance 0, .advance 0]
    let d := (start ⟨⟨60⟩, ⟨9⟩, ⟨9⟩, 1⟩ supply ⟨0⟩).run moves
    let ended := (start ⟨⟨60⟩, ⟨9⟩, ⟨9⟩, 1⟩ supply ⟨0⟩).run whole
    returned ∈ d.registry.directory.entries ∧ d.registry.ledger.tracks returned.id = true ∧
      (2, .forget (supply.mint 1)) ∈ d.callers ∧
      (∀ more, ∀ entry ∈ (d.run more).registry.directory.entries, entry.id ≠ supply.mint 1) ∧
      (d.registry.forget (supply.mint 1)).ledger.lastSeen? returned.id =
        d.registry.ledger.lastSeen? returned.id ∧
      ended.callers = [] ∧ returned ∈ ended.registry.directory.entries ∧
      ended.registry.ledger.tracks returned.id = true := by
  intro supply log returned moves whole d ended
  have htracking : d.Tracking := tracking_of_run ⟨⟨60⟩, ⟨9⟩, ⟨9⟩, 1⟩ supply ⟨0⟩ moves
  have hended : ended.Tracking := tracking_of_run ⟨⟨60⟩, ⟨9⟩, ⟨9⟩, 1⟩ supply ⟨0⟩ whole
  let note : Step := d.log.get ⟨6, by decide +kernel⟩
  have hmem : note ∈ d.log := List.get_mem _ _
  have hnote : note.errand = .record ⟨returned.id, returned, returned, true⟩ := by decide +kernel
  have hthere : returned ∈ d.registry.directory.entries := by decide +kernel
  have hpending : (2, .forget (supply.mint 1)) ∈ d.callers := by decide +kernel
  have hidle : ended.callers = [] := by decide +kernel
  have hstays : returned ∈ ended.registry.directory.entries := by decide +kernel
  refine ⟨hthere, htracking.noted note hmem _ hnote returned hthere rfl, hpending, ?_, ?_, hidle,
    hstays, hended.idle hidle returned hstays⟩
  · exact htracking.never _ hpending _ rfl
  · exact htracking.harmless _ hpending _ rfl returned hthere

end Docket
end Rollcall
