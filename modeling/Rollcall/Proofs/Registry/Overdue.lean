import Rollcall.Proofs.Registry.Course
import Rollcall.Proofs.Registry.Tracking

/-!
# Who is overdue

A sweep judges by the copy that it has made of the ledger, and evicts some time after that. Here
the two are brought together with what the callers do meanwhile. A registration admits in one step
and notes the sign of life in another; a heartbeat may come when the ledger has been copied already.

* `overdue_iff_of_chain` — by the ledger who is not gone is overdue exactly if all signs of life
  noted so far lie further back than the timeout;
* `evicted_iff_unheard` — a sweep takes an entry out exactly if that is so of the ledger it has
  copied, and what this means for an instance that has just come or has just been heard of.
-/

namespace Rollcall

namespace Step

/-- The step notes a sign of life. -/
def Hears (s : Step) (id : InstanceId) : Prop := s.action? = some (.record id s.clock)

/-- The step lies further back from `now` than the timeout. The timeout itself is not further
back. -/
def LongBefore (s : Step) (timeout : Duration) (now : Instant) : Prop :=
  s.clock.nanos + timeout.nanos < now.nanos

instance (s : Step) (timeout : Duration) (now : Instant) : Decidable (s.LongBefore timeout now) :=
  inferInstanceAs (Decidable (_ < _))

/-- The step shows an entry to be alive: it puts the entry in, or it is an accepted heartbeat. -/
def Shows (s : Step) (entry : Registration) : Prop :=
  (∃ a, s.admission? = some a ∧ a.inserted = true ∧ a.entry = entry) ∨ s.errand = .beat entry.id

theorem hears_of_record {s : Step} {a : Admission} (h : s.errand = .record a) : s.Hears a.id := by
  rw [Hears, action?, h]
  rfl

theorem hears_of_beat {s : Step} {id : InstanceId} (h : s.errand = .beat id) : s.Hears id := by
  rw [Hears, action?, h]
  rfl

theorem LongBefore.mono {s s' : Step} {timeout : Duration} {now : Instant}
    (h : s'.LongBefore timeout now) (hle : s.clock.nanos ≤ s'.clock.nanos) :
    s.LongBefore timeout now :=
  Nat.lt_of_le_of_lt (Nat.add_le_add_right hle _) h

/-- A step that hears nothing of an instance, which is not gone, leaves its record alone. -/
theorem lastSeen?_after {s : Step} (hmet : Docket.Met Traffic.Tracked s) {id : InstanceId}
    (hnot : ¬ s.Hears id) (hid : ¬ s.after.Gone id) :
    s.after.ledger.lastSeen? id = s.registry.ledger.lastSeen? id := by
  obtain ⟨t, htracked, herrand, hregistry, -⟩ := hmet
  cases haction : s.action? with
  | none => rw [after_of_none haction]
  | some x =>
      rw [after_of_some haction] at hid ⊢
      rw [Registry.ledger_act]
      cases x with
      | record other now =>
          obtain ⟨rfl, -⟩ := Errand.record_cases haction
          have hne : id ≠ other := by
            rintro rfl
            exact hnot haction
          rw [Ledger.lastSeen?_record, if_neg hne]
      | forget other =>
          -- Only who has gone is forgotten.
          have hne : id ≠ other := by
            rintro rfl
            have hgone := (htracked.errands _ herrand).gone id (Errand.forgets?_of_forget haction)
            rw [hregistry] at hgone
            exact hid (hgone.actAll [.forget id])
          rw [Ledger.lastSeen?_forget, if_neg hne]
      | _ => rfl

end Step

theorem isStale_some_iff {timeout : Duration} {seen now : Instant} :
    isStale timeout (some seen) now = true ↔ seen.nanos + timeout.nanos < now.nanos := by
  rw [isStale, decide_eq_true_iff]
  show timeout.nanos < now.nanos - seen.nanos ↔ _
  omega

namespace Chain

variable {r last : Registry} {clock stop : Instant} {log : List Step}

/-- The sign of life of an admission is noted after the admission. -/
theorem le_of_noted (h : Chain r clock log last stop)
    (hmet : ∀ s ∈ log, Docket.Met Traffic.Tracked s) {s note : Step} {a : Admission}
    (hs : s ∈ log) (hadmission : s.admission? = some a) (hinserted : a.inserted = true)
    (hnote : note ∈ log) (hrecord : note.errand = .record a) :
    s.clock.nanos ≤ note.clock.nanos := by
  obtain ⟨t, htracked, herrand, hregistry, -⟩ := hmet note hnote
  have hminted : note.registry.Minted a.id := by
    rw [← hregistry]
    refine (htracked.errands _ herrand).held a.id ?_
    rw [hrecord]
    exact List.mem_singleton_self _
  have hnew := (Step.not_minted_of_admission hadmission hinserted).2
  obtain ⟨front, back, rfl⟩ := List.append_of_mem hs
  obtain ⟨hfront, hback⟩ := h.split
  rcases List.mem_append.mp hnote with hbefore | hrest
  · exact absurd (hfront.minted_of_mem hbefore hminted) hnew
  · rcases List.mem_cons.mp hrest with rfl | hafter
    · exact absurd hminted hnew
    · exact (hback.le_of_mem hafter).1

end Chain

/-- By the ledger, who is not gone is overdue exactly if all signs of life lie further back than the
timeout. -/
theorem overdue_iff_of_chain {settings : RegistrySettings} {supply : IdSupply}
    {start stop : Instant} {log : List Step} {last : Registry}
    (h : Chain (.empty settings supply) start log last stop)
    (hmet : ∀ s ∈ log, Docket.Met Traffic.Tracked s) {id : InstanceId} (hid : ¬ last.Gone id)
    (timeout : Duration) (now : Instant) :
    isStale timeout (last.ledger.lastSeen? id) now = true ↔
      ∀ s ∈ log, s.Hears id → s.LongBefore timeout now := by
  induction log using List.reverseRecOn generalizing last stop with
  | nil =>
      obtain ⟨rfl, -⟩ := h
      exact ⟨fun _ s hs => absurd hs List.not_mem_nil, fun _ => rfl⟩
  | append_singleton log s ih =>
      obtain ⟨hlog, rfl, -⟩ := h.split
      have hlast : s ∈ log ++ [s] := List.mem_append_right _ (List.mem_singleton_self s)
      by_cases hhears : s.Hears id
      -- The last sign of life is the latest one.
      · have hseen : s.after.ledger.lastSeen? id = some s.clock := by
          rw [Step.after_of_some hhears, Registry.ledger_act, Ledger.lastSeen?_record, if_pos rfl]
        rw [hseen, isStale_some_iff]
        constructor
        · intro hlong s' hs' _
          have hle : s'.clock.nanos ≤ s.clock.nanos := by
            rcases List.mem_append.mp hs' with hold | hnew
            · exact (hlog.le_of_mem hold).2
            · exact Nat.le_of_eq (by rw [List.mem_singleton.mp hnew])
          exact Step.LongBefore.mono hlong hle
        · intro hall
          exact hall s hlast hhears
      · -- This step is no sign of life and leaves the last one where it is.
        have hbefore : ¬ s.registry.Gone id := fun hgone => hid (hgone.actAll _)
        rw [Step.lastSeen?_after (hmet s hlast) hhears hid,
          ih hlog (fun s' hs' => hmet s' (List.mem_append_left _ hs')) hbefore]
        constructor
        · intro hall s' hs' hs'hears
          rcases List.mem_append.mp hs' with hold | hnew
          · exact hall s' hold hs'hears
          · obtain rfl := List.mem_singleton.mp hnew
            exact absurd hs'hears hhears
        · exact fun hall s' hs' => hall s' (List.mem_append_left _ hs')

/-! ## Eviction -/

/-- An eviction takes out the entry of that instance under that identifier, and takes out nothing if
there is none. -/
theorem Registry.Coherent.departure?_evict {r : Registry} (h : r.Coherent)
    {stale gone : Registration} : r.departure? (.evict stale) = some gone ↔
      gone ∈ r.directory.entries ∧ gone.sameInstance stale = true ∧ gone.id = stale.id := by
  have hfind : r.departure? (.evict stale) = r.directory.entries.find? fun entry =>
      Directory.isAt stale.role stale.url entry && entry.id = stale.id := by
    simp only [departure?, Directory.evict?, Directory.takeFirst?, Option.map_map]
    exact Option.map_id'
  have hthat : ∀ entry : Registration,
      (Directory.isAt stale.role stale.url entry && entry.id = stale.id) = true ↔
        entry.sameInstance stale = true ∧ entry.id = stale.id := by
    intro entry
    rw [Bool.and_eq_true, Directory.isAt_iff, Registration.sameInstance_iff, decide_eq_true_eq]
  rw [hfind]
  constructor
  · intro hgone
    have hthis := List.find?_some hgone
    exact ⟨List.mem_of_find?_eq_some hgone, (hthat gone).mp hthis⟩
  · rintro ⟨hmem, hsame⟩
    cases hfound : r.directory.entries.find? fun entry =>
        Directory.isAt stale.role stale.url entry && entry.id = stale.id with
    | none => exact absurd ((hthat gone).mpr hsame) (List.find?_eq_none.mp hfound gone hmem)
    | some found =>
        have hthis := List.find?_some hfound
        have hid : found.id = gone.id := ((hthat found).mp hthis).2.trans hsame.2.symm
        rw [h.sound.eq_of_id (List.mem_of_find?_eq_some hfound) hmem hid]

theorem Step.gone?_of_judge {s : Step} {entry gone : Registration} {rest : List Registration}
    {heard : Ledger} {now : Instant} (h : s.errand = .judge (entry :: rest) heard now) :
    s.gone? = some gone ↔ s.registry.overdue heard now entry = true ∧
      s.registry.departure? (.evict entry) = some gone := by
  rw [gone?, action?, h, Errand.next]
  split
  · next hdue => exact ⟨fun hgone => ⟨hdue, hgone⟩, And.right⟩
  · next hdue =>
    constructor
    · intro hgone
      cases hgone
    · intro hboth
      exact absurd hboth.1 hdue

namespace Docket

theorem tracked_run (settings : RegistrySettings) (supply : IdSupply) (clock : Instant)
    (moves : List Traffic.Move) :
    ∀ s ∈ ((start settings supply clock).run moves).log, Met Traffic.Tracked s :=
  met_run (fun _ m h => h.move m) (.start settings supply clock)
    (fun _ hs => absurd hs List.not_mem_nil) moves

/-- A sweep goes by the ledger that it has copied. It takes out the entry under judgement exactly if
that entry is still there and all signs of life noted before the copy lie further back than the
timeout. So an entry that goes has neither come nor been heard of within the timeout exactly if the
sign of life of its admission had been noted by then, or the admission itself lies as far back, and
no heartbeat within the timeout has been accepted since. -/
theorem evicted_iff_unheard (settings : RegistrySettings) (supply : IdSupply) (clock : Instant)
    (moves : List Traffic.Move) {earlier back : List Step} {turn : Step} {entry : Registration}
    {rest : List Registration} {heard : Ledger} {now : Instant}
    (hlog : ((start settings supply clock).run moves).log = earlier ++ turn :: back)
    (hturn : turn.errand = .judge (entry :: rest) heard now) :
    ∃ front copy mid entries, earlier = front ++ copy :: mid ∧ copy.call = turn.call ∧
      copy.errand = .copyLedger entries ∧ ∀ gone,
        (turn.gone? = some gone ↔
          (gone ∈ turn.registry.directory.entries ∧ gone.sameInstance entry = true ∧
            gone.id = entry.id) ∧
          ∀ s ∈ front, s.Hears gone.id → s.LongBefore settings.timeout now) ∧
        (turn.gone? = some gone →
          ((∀ s ∈ earlier, s.Shows gone → s.LongBefore settings.timeout now) ↔
            (∀ s ∈ earlier, ∀ a, s.admission? = some a → a.inserted = true → a.entry = gone →
              s.LongBefore settings.timeout now ∨ ∃ note ∈ front, note.errand = .record a) ∧
            ∀ s ∈ mid, s.errand = .beat gone.id → s.LongBefore settings.timeout now)) := by
  obtain ⟨first, copy, look, more, hcourse, hcopying, -, rfl, -⟩ :=
    copied_of_judge settings supply clock moves hlog hturn
  have hmem : copy ∈ courseOf turn.call earlier := by
    rw [hcourse]
    exact List.mem_cons_of_mem _ List.mem_cons_self
  obtain ⟨hin, hcall⟩ := mem_courseOf.mp hmem
  have hcopy := hcopying.ledger
  obtain ⟨front, mid, rfl⟩ := List.append_of_mem hin
  have hchain : Chain (.empty settings supply) clock
      ((start settings supply clock).run moves).log _ _ := chain_start settings supply clock moves
  have hmet := tracked_run settings supply clock moves
  rw [hlog] at hchain hmet
  have hmet : ∀ s ∈ front ++ copy :: mid, Met Traffic.Tracked s :=
    fun s hs => hmet s (List.mem_append_left _ hs)
  have hearlier := hchain.split.1
  obtain ⟨hfront, hmid⟩ := hearlier.split
  have hcoherent : turn.registry.Coherent := hearlier.coherent (.empty settings supply)
  have htimeout : turn.registry.settings = settings := hearlier.settings_eq
  have hiff : ∀ gone, turn.gone? = some gone ↔
      (gone ∈ turn.registry.directory.entries ∧ gone.sameInstance entry = true ∧
        gone.id = entry.id) ∧
      ∀ s ∈ front, s.Hears gone.id → s.LongBefore settings.timeout now := by
    intro gone
    rw [Step.gone?_of_judge hturn, hcoherent.departure?_evict, and_comm, Registry.overdue, htimeout]
    refine and_congr_right fun hthere => ?_
    -- The entry is there now, so it was not gone when the ledger was copied.
    have hpresent : ¬ copy.registry.Gone gone.id := by
      intro hgone
      exact (hmid.gone (hgone.actAll _)).2 gone hthere.1 rfl
    rw [← hthere.2.2]
    exact overdue_iff_of_chain hfront (fun s hs => hmet s (List.mem_append_left _ hs)) hpresent _ _
  refine ⟨front, copy, mid, _, rfl, hcall, hcopy, fun gone => ⟨hiff gone, fun hgone => ?_⟩⟩
  -- What was noted before the copy is long ago. That leaves the admissions whose time was noted
  -- later and the heartbeats that came after the copy.
  have hunheard := ((hiff gone).mp hgone).2
  constructor
  · intro hlong
    refine ⟨fun s hs a hadmission hinserted hentry => ?_, fun s hs hbeat => ?_⟩
    · exact Or.inl (hlong s hs (Or.inl ⟨a, hadmission, hinserted, hentry⟩))
    · exact hlong s (List.mem_append_right _ (List.mem_cons_of_mem _ hs)) (Or.inr hbeat)
  · rintro ⟨hnoted, hquiet⟩ s hs (⟨a, hadmission, hinserted, rfl⟩ | hbeat)
    · rcases hnoted s hs a hadmission hinserted rfl with hlong | ⟨note, hnote, hrecord⟩
      · exact hlong
      · have hid := (Step.not_minted_of_admission hadmission hinserted).1
        have hhears := Step.hears_of_record hrecord
        rw [← hid] at hhears
        refine (hunheard note hnote hhears).mono ?_
        exact hearlier.le_of_noted hmet hs hadmission hinserted
          (List.mem_append_left _ hnote) hrecord
    · rcases List.mem_append.mp hs with hbefore | hrest
      · exact hunheard s hbefore (Step.hears_of_beat hbeat)
      · rcases List.mem_cons.mp hrest with rfl | hsince
        · rw [hcopy] at hbeat
          cases hbeat
        · exact hquiet s hsince hbeat

/-- A log comes at once, is heard of after 30 of the 60 that it may be silent, and not again until a
sweep after 100. -/
theorem silent_log_goes :
    let supply : IdSupply := .numbered 'i' [] [] 'd' (by decide) (by decide)
    let log : Registration := { role := .log, url := "http://p" }
    let gone : Registration := { log with id := supply.mint 1 }
    let moves : List Traffic.Move := [.visit (.register log), .advance 0, .advance 0, .advance 0,
      .wait ⟨30⟩, .visit (.heartbeat .basic gone.id), .advance 0, .advance 0, .wait ⟨70⟩,
      .visit .sweep, .advance 0, .advance 0, .advance 0, .advance 0]
    let heard : Ledger := Ledger.record {} gone.id ⟨30⟩
    ∃ earlier turn back,
      ((start ⟨⟨60⟩, ⟨9⟩, ⟨9⟩, 1⟩ supply ⟨0⟩).run moves).log = earlier ++ turn :: back ∧
      turn.errand = .judge [gone] heard ⟨100⟩ ∧ turn.gone? = some gone ∧
      ∀ s ∈ earlier, s.Shows gone → s.LongBefore ⟨60⟩ ⟨100⟩ := by
  intro supply log gone moves heard
  let d := (start ⟨⟨60⟩, ⟨9⟩, ⟨9⟩, 1⟩ supply ⟨0⟩).run moves
  let turn : Step := d.log.get ⟨8, by decide +kernel⟩
  have hlog : d.log = d.log.take 8 ++ turn :: d.log.drop 9 := d.log_cut _
  have herrand : turn.errand = .judge [gone] heard ⟨100⟩ := by decide +kernel
  have hgone : turn.gone? = some gone := by decide +kernel
  -- Whatever is done at the registry before the sweep is done 70 before it or earlier.
  have hlong : ∀ s ∈ d.log.take 8, s.action?.isSome = true → s.LongBefore ⟨60⟩ ⟨100⟩ := by
    have hall : (d.log.take 8).all fun s =>
        s.action?.isNone || decide (s.LongBefore ⟨60⟩ ⟨100⟩) := by decide +kernel
    intro s hs hsome
    rcases Bool.or_eq_true _ _ |>.mp (List.all_eq_true.mp hall s hs) with hnone | hbefore
    · rw [Option.isNone_iff_eq_none.mp hnone] at hsome
      cases hsome
    · exact of_decide_eq_true hbefore
  obtain ⟨front, copy, mid, entries, hsplit, -, -, hevicted⟩ :=
    evicted_iff_unheard ⟨⟨60⟩, ⟨9⟩, ⟨9⟩, 1⟩ supply ⟨0⟩ moves hlog herrand
  refine ⟨_, _, _, hlog, herrand, hgone, ((hevicted gone).2 hgone).mpr ⟨?_, ?_⟩⟩
  · intro s hs a hadmission _ _
    obtain ⟨reg, -, haction, -⟩ := Step.admission?_eq hadmission
    exact Or.inl (hlong s hs (by rw [haction]; rfl))
  · intro s hs hbeat
    refine hlong s ?_ ?_
    · rw [hsplit]
      exact List.mem_append_right _ (List.mem_cons_of_mem _ hs)
    · rw [show s.action? = _ from Step.hears_of_beat hbeat]
      rfl

/-- A log is admitted, a sweep copies the ledger and evicts it, all before the sign of life of the
admission is noted, and all at one instant. -/
theorem evicted_at_birth :
    let supply : IdSupply := .numbered 'i' [] [] 'd' (by decide) (by decide)
    let log : Registration := { role := .log, url := "http://p" }
    let gone : Registration := { log with id := supply.mint 1 }
    let moves : List Traffic.Move := [.visit (.register log), .visit .sweep, .advance 0, .advance 1,
      .advance 1, .advance 1, .advance 1]
    ∃ earlier turn back,
      ((start ⟨⟨60⟩, ⟨9⟩, ⟨9⟩, 1⟩ supply ⟨0⟩).run moves).log = earlier ++ turn :: back ∧
      turn.errand = .judge [gone] {} ⟨0⟩ ∧ turn.gone? = some gone ∧
      ∃ s ∈ earlier, s.Shows gone ∧ ¬ s.LongBefore ⟨60⟩ ⟨0⟩ := by
  intro supply log gone moves
  let d := (start ⟨⟨60⟩, ⟨9⟩, ⟨9⟩, 1⟩ supply ⟨0⟩).run moves
  let turn : Step := d.log.get ⟨4, by decide +kernel⟩
  let first : Step := (d.log.take 4).get ⟨0, by decide +kernel⟩
  have hadmission : first.admission? = some ⟨gone.id, gone, gone, true⟩ := by decide +kernel
  refine ⟨_, turn, _, d.log_cut _, by decide +kernel, by decide +kernel, first,
    List.get_mem _ _, ?_, ?_⟩
  · exact Or.inl ⟨_, hadmission, rfl, rfl⟩
  · exact Nat.not_lt_zero _

end Docket
end Rollcall
