import Rollcall.Proofs.Registry.Issued
import Rollcall.Proofs.Registry.Overdue

/-!
# What a sweep clears away

A sweep changes the directory and the ledger while it goes through the copies that it has made of
them. When nobody comes between its steps, its two loops come to this:

* `Coherent.judge_foldl` — the first dismisses the overdue entries of the copy, all of them and
  nobody else, in their order;
* `prune_foldl` — the second touches the ledger only, and drops the overdue records of nobody.

Main statement: `cleared_by_sweep`, what is left after a sweep, who has been told of what, and that
a second sweep at the same instant finds nothing to do.
-/

namespace Rollcall

/-- An instance is overdue if nothing is known of it or it has been silent for longer than the
timeout. -/
theorem isStale_iff {timeout : Duration} {seen? : Option Instant} {now : Instant} :
    isStale timeout seen? now = true ↔ seen? = none ∨
      ∃ seen, seen? = some seen ∧ timeout.nanos < now.nanos - seen.nanos := by
  cases seen? with
  | none => simp [isStale]
  | some seen =>
      rw [isStale, decide_eq_true_iff]
      simp [Duration.since]

theorem Ledger.lastSeen?_eq_some_iff {l : Ledger} {id : InstanceId} {seen : Instant} :
    l.lastSeen? id = some seen ↔ (id, seen) ∈ l.records := by
  rw [lastSeen?, Option.map_eq_some_iff]
  constructor
  · rintro ⟨record, hfind, rfl⟩
    obtain rfl : record.1 = id := by simpa using List.find?_some hfind
    exact List.mem_of_find?_eq_some hfind
  · intro hmem
    cases hfind : l.records.find? (·.1 = id) with
    | none => simpa using List.find?_eq_none.mp hfind _ hmem
    | some record =>
        have hid : record.1 = id := by simpa using List.find?_some hfind
        have hsame := List.inj_on_of_nodup_map l.nodup (List.mem_of_find?_eq_some hfind) hmem hid
        exact ⟨record, rfl, congrArg Prod.snd hsame⟩

theorem Ledger.filter_isOther (records : List (InstanceId × Instant)) (id : InstanceId)
    (ids : List InstanceId) :
    (records.filter (isOther id)).filter (·.1 ∉ ids) = records.filter (·.1 ∉ id :: ids) := by
  rw [List.filter_filter]
  refine List.filter_congr fun record _ => ?_
  by_cases hid : record.1 = id
  · simp [isOther, hid]
  · simp [isOther, hid]

theorem Ledger.mem_map_filter (l : Ledger) {record : InstanceId × Instant}
    (h : record ∈ l.records) {p : InstanceId × Instant → Bool} :
    record.1 ∈ (l.records.filter p).map (·.1) ↔ p record = true := by
  rw [List.mem_map]
  constructor
  · rintro ⟨other, hother, hid⟩
    obtain ⟨hmem, hp⟩ := List.mem_filter.mp hother
    rwa [← List.inj_on_of_nodup_map l.nodup hmem h hid]
  · exact fun hp => ⟨record, List.mem_filter.mpr ⟨h, hp⟩, rfl⟩

theorem Ledger.lastSeen?_of_filter {l l' : Ledger} {p : InstanceId × Instant → Bool}
    (h : l'.records = l.records.filter p) {id : InstanceId}
    (hid : ∀ record ∈ l.records, record.1 = id → p record = true) :
    l'.lastSeen? id = l.lastSeen? id := by
  refine Option.ext fun seen => ?_
  rw [lastSeen?_eq_some_iff, lastSeen?_eq_some_iff, h, List.mem_filter]
  exact and_iff_left_of_imp fun hmem => hid _ hmem rfl

namespace Registry

variable {r : Registry} {heard : Ledger} {now : Instant}

/-! ## Dismissals -/

/-- Takes an entry out, with the news of it to everyone else, and drops its record. This is what a
sweep does to each entry that is overdue, if nobody comes between. -/
def dismiss (r : Registry) (gone : Registration) : Registry :=
  (r.act (.evict gone)).forget gone.id

/-- Dismisses several entries, one after the other. -/
def dismissAll (r : Registry) (gone : List Registration) : Registry := gone.foldl dismiss r

/-- The news of the departures when several entries are dismissed, and for whom: for everyone who is
still there. -/
def farewells (r : Registry) : List Registration → List (Patch × List Registration)
  | [] => []
  | gone :: rest =>
    (.ofRemoved [gone], r.directory.others gone) :: (r.dismiss gone).farewells rest

@[simp] theorem settings_dismiss (r : Registry) (gone : Registration) :
    (r.dismiss gone).settings = r.settings :=
  (r.act_fixed (.evict gone)).1

@[simp] theorem settings_dismissAll (r : Registry) (gone : List Registration) :
    (r.dismissAll gone).settings = r.settings := by
  induction gone generalizing r with
  | nil => rfl
  | cons first rest ih => exact (ih (r.dismiss first)).trans (r.settings_dismiss first)

theorem records_dismiss (r : Registry) (gone : Registration) :
    (r.dismiss gone).ledger.records = r.ledger.records.filter (Ledger.isOther gone.id) := by
  show ((r.act (.evict gone)).ledger.forget gone.id).records = _
  rw [ledger_act]
  rfl

theorem records_dismissAll (r : Registry) (gone : List Registration) :
    (r.dismissAll gone).ledger.records =
      r.ledger.records.filter (·.1 ∉ gone.map (·.id)) := by
  induction gone generalizing r with
  | nil => simp [dismissAll]
  | cons first rest ih =>
      refine (ih (r.dismiss first)).trans ?_
      rw [records_dismiss, Ledger.filter_isOther, List.map_cons]

theorem map_farewells (r : Registry) (gone : List Registration) :
    (r.farewells gone).map (·.1) = gone.map fun entry => .ofRemoved [entry] := by
  induction gone generalizing r with
  | nil => rfl
  | cons first rest ih => rw [farewells, List.map_cons, ih, List.map_cons]

namespace Coherent

theorem departure?_of_mem (h : r.Coherent) {gone : Registration}
    (hgone : gone ∈ r.directory.entries) : r.departure? (.evict gone) = some gone :=
  h.departure?_evict.mpr ⟨hgone, Registration.sameInstance_self gone, rfl⟩

theorem evict_of_mem (h : r.Coherent) {gone : Registration}
    (hgone : gone ∈ r.directory.entries) : r.evict gone = .ok (r.act (.evict gone), gone) := by
  have hdep := h.departure?_of_mem hgone
  rw [Registry.departure?_evict] at hdep
  cases hevict : r.evict gone with
  | error e =>
      rw [hevict] at hdep
      cases hdep
  | ok done =>
      obtain ⟨departed, other⟩ := done
      rw [hevict] at hdep
      obtain rfl : other = gone := Option.some.inj hdep
      rw [act_evict_of_ok hevict]

theorem dismiss (h : r.Coherent) (gone : Registration) : (r.dismiss gone).Coherent :=
  (h.act (.evict gone)).act (.forget gone.id)

theorem entries_dismiss (h : r.Coherent) {gone : Registration}
    (hgone : gone ∈ r.directory.entries) :
    (r.dismiss gone).directory.entries = r.directory.entries.filter (· ≠ gone) :=
  (h.entries_of_departure (h.departure?_of_mem hgone)).2

theorem rest_of_dismiss (h : r.Coherent) {first : Registration} {rest : List Registration}
    (hnodup : (first :: rest).Nodup) (hthere : first :: rest ⊆ r.directory.entries) :
    rest ⊆ (r.dismiss first).directory.entries := by
  intro entry hentry
  rw [h.entries_dismiss (hthere List.mem_cons_self), List.mem_filter]
  refine ⟨hthere (List.mem_cons_of_mem _ hentry), decide_eq_true ?_⟩
  rintro rfl
  exact (List.nodup_cons.mp hnodup).1 hentry

/-- Dismissals leave the others in the directory, in their order. -/
theorem entries_dismissAll (h : r.Coherent) {gone : List Registration} (hnodup : gone.Nodup)
    (hthere : gone ⊆ r.directory.entries) :
    (r.dismissAll gone).directory.entries = r.directory.entries.filter (· ∉ gone) := by
  induction gone generalizing r with
  | nil => simp [Registry.dismissAll]
  | cons first rest ih =>
      refine (ih (h.dismiss first) (List.nodup_cons.mp hnodup).2
        (h.rest_of_dismiss hnodup hthere)).trans ?_
      rw [h.entries_dismiss (hthere List.mem_cons_self), List.filter_filter]
      refine List.filter_congr fun entry _ => ?_
      by_cases hfirst : entry = first
      · simp [hfirst]
      · simp [hfirst]

theorem lane_dismiss (h : r.Coherent) {gone : Registration} (hgone : gone ∈ r.directory.entries) :
    (r.dismiss gone).lane =
      r.lane.queue (deliveriesOf (.ofRemoved [gone]) (r.directory.others gone)) := by
  show (r.act (.evict gone)).lane = _
  rw [lane_act, news?_of_departure (h.departure?_of_mem hgone)]

theorem lane_dismissAll (h : r.Coherent) {gone : List Registration} (hnodup : gone.Nodup)
    (hthere : gone ⊆ r.directory.entries) :
    (r.dismissAll gone).lane = (r.farewells gone).foldl
      (fun lane told => lane.queue (deliveriesOf told.1 told.2)) r.lane := by
  induction gone generalizing r with
  | nil => rfl
  | cons first rest ih =>
      refine (ih (h.dismiss first) (List.nodup_cons.mp hnodup).2
        (h.rest_of_dismiss hnodup hthere)).trans ?_
      rw [h.lane_dismiss (hthere List.mem_cons_self)]
      rfl

theorem farewells_subset (h : r.Coherent) {gone : List Registration} (hnodup : gone.Nodup)
    (hthere : gone ⊆ r.directory.entries) :
    ∀ told ∈ r.farewells gone, told.2 ⊆ r.directory.entries := by
  induction gone generalizing r with
  | nil => exact fun _ htold => absurd htold List.not_mem_nil
  | cons first rest ih =>
      intro told htold other hother
      rcases List.mem_cons.mp htold with rfl | htold
      · exact (Directory.mem_others.mp hother).1
      · have hlater := ih (h.dismiss first) (List.nodup_cons.mp hnodup).2
          (h.rest_of_dismiss hnodup hthere) told htold hother
        rw [h.entries_dismiss (hthere List.mem_cons_self)] at hlater
        exact (List.mem_filter.mp hlater).1

/-- Of the news of a departure, an instance that stays gets its one delivery if it depends on the
role. -/
theorem deliveriesOf_farewell (h : r.Coherent) {me gone : Registration}
    (hme : me ∈ r.directory.entries) (hgone : gone ∈ r.directory.entries) (hne : me ≠ gone) :
    deliveriesOf (.ofRemoved [gone]) ((r.directory.others gone).filter (· = me)) =
      if me.dependsOn gone.role then [⟨me.updateUrl, .ofRemoved [gone]⟩] else [] := by
  have hnodup : (r.directory.others gone).Nodup := h.sound.nodup.filter _
  have hother := (h.sound.mem_others hgone).mpr ⟨hme, hne⟩
  rw [filter_eq_singleton hnodup hother, deliveriesOf_ofRemoved]
  cases hasked : me.dependsOn gone.role with
  | true => simp [hasked]
  | false => simp [hasked]

/-- Who stays is told once of everyone who is dismissed and on whose role it depends, in the order
of the dismissals. -/
theorem deliveriesOf_farewells (h : r.Coherent) {gone : List Registration} (hnodup : gone.Nodup)
    (hthere : gone ⊆ r.directory.entries) {me : Registration} (hme : me ∈ r.directory.entries)
    (hstays : me ∉ gone) :
    (r.farewells gone).flatMap (fun told => deliveriesOf told.1 (told.2.filter (· = me))) =
      (gone.filter (me.dependsOn ·.role)).map fun entry =>
        ⟨me.updateUrl, .ofRemoved [entry]⟩ := by
  induction gone generalizing r with
  | nil => rfl
  | cons first rest ih =>
      obtain ⟨hne, hstays⟩ := not_or.mp (mt List.mem_cons.mpr hstays)
      have hfirst := hthere List.mem_cons_self
      have hme' : me ∈ (r.dismiss first).directory.entries := by
        rw [h.entries_dismiss hfirst]
        exact List.mem_filter.mpr ⟨hme, decide_eq_true hne⟩
      rw [farewells, List.flatMap_cons, ih (h.dismiss first) (List.nodup_cons.mp hnodup).2
        (h.rest_of_dismiss hnodup hthere) hme' hstays, h.deliveriesOf_farewell hme hfirst hne]
      cases hasked : me.dependsOn first.role with
      | true => simp [hasked]
      | false => simp [hasked]

/-! ## The two loops -/

/-- Judging the entries of a copy dismisses those that are overdue. The invariant is that everyone
still to be judged is in the directory. -/
theorem judge_foldl (h : r.Coherent) {entries : List Registration} (hnodup : entries.Nodup)
    (hthere : entries ⊆ r.directory.entries) (evicted : List Registration) :
    entries.foldl (judge heard now) (r, evicted) =
      (r.dismissAll (entries.filter (r.overdue heard now)),
        (entries.filter (r.overdue heard now)).reverse ++ evicted) := by
  induction entries generalizing r evicted with
  | nil => rfl
  | cons first rest ih =>
      have hfirst := hthere List.mem_cons_self
      rw [List.foldl_cons]
      cases hdue : r.overdue heard now first with
      | false =>
          rw [judge, if_neg (by simp [hdue]), List.filter_cons_of_neg (by simp [hdue])]
          exact ih h (List.nodup_cons.mp hnodup).2 (List.subset_of_cons_subset hthere) evicted
      | true =>
          -- Who is overdue goes by the copy of the ledger, which a dismissal does not touch.
          have hsame : (r.dismiss first).overdue heard now = r.overdue heard now := by
            funext entry
            rw [overdue, settings_dismiss, overdue]
          have hjudge : judge heard now (r, evicted) first =
              (r.dismiss first, first :: evicted) := by
            rw [judge, if_pos hdue, h.evict_of_mem hfirst]
            rfl
          rw [hjudge, ih (h.dismiss first) (List.nodup_cons.mp hnodup).2
            (h.rest_of_dismiss hnodup hthere), hsame, List.filter_cons_of_pos hdue]
          simp [Registry.dismissAll]

end Coherent

/-- Whether a record is overdue and belongs to nobody. -/
def orphaned (r : Registry) (now : Instant) (record : InstanceId × Instant) : Bool :=
  isStale r.settings.timeout (some record.2) now && !r.directory.isRegistered record.1

theorem orphaned_iff (r : Registry) {record : InstanceId × Instant} :
    r.orphaned now record = true ↔ r.settings.timeout.nanos < now.nanos - record.2.nanos ∧
      ∀ entry ∈ r.directory.entries, entry.id ≠ record.1 := by
  rw [orphaned, Bool.and_eq_true, isStale, decide_eq_true_iff, Bool.not_eq_true',
    ← Bool.not_eq_true, Directory.isRegistered_iff]
  simp only [Duration.since, not_exists, not_and, ne_eq]

/-- Pruning the records of a copy drops those that are overdue and belong to nobody, and changes
nothing else. -/
theorem prune_foldl (r : Registry) (now : Instant) (records : List (InstanceId × Instant)) :
    ∃ ledger : Ledger, records.foldl (prune now) r = { r with ledger := ledger } ∧
      ledger.records =
        r.ledger.records.filter (·.1 ∉ (records.filter (r.orphaned now)).map (·.1)) := by
  induction records generalizing r with
  | nil => exact ⟨r.ledger, rfl, by simp⟩
  | cons first rest ih =>
      rw [List.foldl_cons]
      cases hdrop : r.orphaned now first with
      | false =>
          rw [List.filter_cons_of_neg (by simp [hdrop]),
            show prune now r first = r from if_neg (Bool.eq_false_iff.mp hdrop)]
          exact ih r
      | true =>
          rw [List.filter_cons_of_pos hdrop,
            show prune now r first = r.forget first.1 from if_pos hdrop]
          obtain ⟨ledger, heq, hrecords⟩ := ih (r.forget first.1)
          exact ⟨ledger, heq, hrecords.trans (Ledger.filter_isOther _ _ _)⟩

theorem prune_foldl_of_none {records : List (InstanceId × Instant)}
    (h : ∀ record ∈ records, r.orphaned now record = false) :
    records.foldl (prune now) r = r := by
  induction records with
  | nil => rfl
  | cons first rest ih =>
      have hfirst : prune now r first = r :=
        if_neg (Bool.eq_false_iff.mp (h first List.mem_cons_self))
      rw [List.foldl_cons, hfirst]
      exact ih fun record hrecord => h record (List.mem_cons_of_mem _ hrecord)

/-! ## A sweep -/

/-- The entries that are overdue by the ledger itself. If nobody comes between, the copy that a
sweep goes by is the ledger. -/
def overdueNow (r : Registry) (now : Instant) : List Registration :=
  r.directory.entries.filter (r.overdue r.ledger now)

theorem overdueNow_subset (r : Registry) (now : Instant) :
    r.overdueNow now ⊆ r.directory.entries :=
  List.filter_sublist.subset

namespace Coherent

theorem nodup_overdueNow (h : r.Coherent) : (r.overdueNow now).Nodup := h.sound.nodup.filter _

/-- A sweep dismisses who is overdue, and then prunes the ledger that it has copied before. Its
loops are thereby replaced by two filters. -/
theorem sweep_eq (h : r.Coherent) : r.sweep now =
    (r.ledger.records.foldl (prune now) (r.dismissAll (r.overdueNow now)), r.overdueNow now) := by
  rw [sweep, h.judge_foldl h.sound.nodup (List.Subset.refl _), List.append_nil]
  exact congrArg _ (List.reverse_reverse _)

theorem orphaned_dismissAll (h : r.Coherent) {gone : List Registration} (hnodup : gone.Nodup)
    (hthere : gone ⊆ r.directory.entries) {record : InstanceId × Instant}
    (hother : record.1 ∉ gone.map (·.id)) :
    (r.dismissAll gone).orphaned now record = r.orphaned now record := by
  rw [orphaned, orphaned, settings_dismissAll]
  congr 2
  rw [Bool.eq_iff_iff, Directory.isRegistered_iff, Directory.isRegistered_iff,
    h.entries_dismissAll hnodup hthere]
  refine exists_congr fun entry => ?_
  rw [List.mem_filter, and_assoc]
  refine and_congr_right fun _ => and_iff_right_of_imp fun hid => decide_eq_true fun hgone => ?_
  rw [← hid] at hother
  exact hother (List.mem_map_of_mem hgone)

/-- A sweep does to everything but the ledger what the dismissals do; the ledger keeps the records
of those who stay and of strangers who are not overdue. -/
theorem sweep_eq_dismissAll (h : r.Coherent) (now : Instant) : ∃ ledger : Ledger,
    (r.sweep now).1 = { r.dismissAll (r.overdueNow now) with ledger := ledger } ∧
      ledger.records = r.ledger.records.filter fun record =>
        record.1 ∉ (r.overdueNow now).map (·.id) ∧ r.orphaned now record = false := by
  obtain ⟨ledger, heq, hrecords⟩ :=
    prune_foldl (r.dismissAll (r.overdueNow now)) now r.ledger.records
  refine ⟨ledger, by rw [h.sweep_eq, heq], ?_⟩
  rw [hrecords, records_dismissAll, List.filter_filter]
  refine List.filter_congr fun record hrecord => ?_
  -- The first loop has dropped the records of those it has dismissed; of the rest, a record is
  -- nobody's after the loop exactly if it was nobody's before.
  rw [Bool.eq_iff_iff, Bool.and_eq_true, decide_eq_true_iff, decide_eq_true_iff,
    decide_eq_true_iff, r.ledger.mem_map_filter hrecord, and_comm]
  refine and_congr_right fun hgone => ?_
  rw [h.orphaned_dismissAll h.nodup_overdueNow (r.overdueNow_subset now) hgone,
    Bool.not_eq_true]

/-- Whoever is not overdue stays where it is. -/
theorem entries_sweep (h : r.Coherent) : (r.sweep now).1.directory.entries =
    r.directory.entries.filter (· ∉ r.overdueNow now) := by
  obtain ⟨ledger, heq, -⟩ := h.sweep_eq_dismissAll now
  rw [heq]
  exact h.entries_dismissAll h.nodup_overdueNow (r.overdueNow_subset now)

/-- Whoever is still there after a sweep has kept its record. -/
theorem lastSeen?_sweep (h : r.Coherent) {entry : Registration}
    (hentry : entry ∈ (r.sweep now).1.directory.entries) :
    (r.sweep now).1.ledger.lastSeen? entry.id = r.ledger.lastSeen? entry.id := by
  obtain ⟨ledger, heq, hrecords⟩ := h.sweep_eq_dismissAll now
  rw [h.entries_sweep, List.mem_filter, decide_eq_true_iff] at hentry
  obtain ⟨hthere, hstays⟩ := hentry
  rw [heq]
  refine Ledger.lastSeen?_of_filter hrecords fun record _ hid => decide_eq_true ⟨?_, ?_⟩
  · intro hgone
    obtain ⟨gone, hmem, hsame⟩ := List.mem_map.mp hgone
    obtain rfl := h.sound.eq_of_id (r.overdueNow_subset now hmem) hthere (hsame.trans hid)
    exact hstays hmem
  · rw [orphaned, Directory.isRegistered_iff.mpr ⟨entry, hthere, hid.symm⟩]
    simp

/-- Who is still there after a sweep is not overdue by what the sweep has left of the ledger. -/
theorem overdue_sweep (h : r.Coherent) : ∀ entry ∈ (r.sweep now).1.directory.entries,
    (r.sweep now).1.overdue (r.sweep now).1.ledger now entry = false := by
  obtain ⟨ledger, heq, -⟩ := h.sweep_eq_dismissAll now
  have hsettings : (r.sweep now).1.settings = r.settings := by
    rw [heq]
    exact r.settings_dismissAll _
  intro entry hentry
  rw [overdue, hsettings, h.lastSeen?_sweep hentry, ← Bool.not_eq_true]
  intro hdue
  rw [h.entries_sweep, List.mem_filter, decide_eq_true_iff] at hentry
  exact hentry.2 (List.mem_filter.mpr ⟨hentry.1, hdue⟩)

/-- After a sweep no record is overdue that belongs to nobody. -/
theorem orphaned_sweep (h : r.Coherent) : ∀ record ∈ (r.sweep now).1.ledger.records,
    (r.sweep now).1.orphaned now record = false := by
  obtain ⟨ledger, heq, hrecords⟩ := h.sweep_eq_dismissAll now
  intro record hrecord
  rw [heq] at hrecord ⊢
  replace hrecord : record ∈ ledger.records := hrecord
  rw [hrecords, List.mem_filter, decide_eq_true_iff] at hrecord
  obtain ⟨-, hother, hkept⟩ := hrecord
  rw [← hkept]
  exact h.orphaned_dismissAll h.nodup_overdueNow (r.overdueNow_subset now) hother

/-- A second sweep at the same instant finds nothing to do. So a sweep has done all that there
was. -/
theorem sweep_again (h : r.Coherent) : (r.sweep now).1.sweep now = ((r.sweep now).1, []) := by
  have hswept : (r.sweep now).1.Coherent := by
    have hrun := h.actAll (r.actions (.sweep now))
    rwa [← perform_eq_actAll] at hrun
  have hnobody : (r.sweep now).1.overdueNow now = [] :=
    List.filter_eq_nil_iff.mpr fun entry hentry =>
      Bool.eq_false_iff.mp (h.overdue_sweep entry hentry)
  rw [hswept.sweep_eq, hnobody]
  exact congrArg (·, []) (prune_foldl_of_none h.orphaned_sweep)

end Coherent

/-- What a sweep at an instant makes of a registry: the directory, the ledger, what is queued, and
what is left alone. -/
structure Cleared (r : Registry) (now : Instant) (swept : Registry) (gone : List Registration) :
    Prop where
  /-- It takes each entry at most once, -/
  once : gone.Nodup
  /-- and takes those of which nothing is known, or that have been silent for longer than the
  timeout. -/
  overdue : ∀ entry, entry ∈ gone ↔ entry ∈ r.directory.entries ∧
    (r.ledger.lastSeen? entry.id = none ∨
      ∃ seen, r.ledger.lastSeen? entry.id = some seen ∧
        r.settings.timeout.nanos < now.nanos - seen.nanos)
  /-- The others stay where they are. -/
  query : ∀ role, swept.query role = (r.query role).filter (· ∉ gone)
  /-- A record goes with its entry; and an overdue one goes that is nobody's. -/
  records : swept.ledger.records = r.ledger.records.filter fun record =>
    record.1 ∉ gone.map (·.id) ∧
      ¬ (r.settings.timeout.nanos < now.nanos - record.2.nanos ∧
        ∀ entry ∈ r.directory.entries, entry.id ≠ record.1)
  /-- What is queued is the news of the departures, one fan-out for each, and of these whoever stays
  gets one delivery for each departure from a role that it depends on. -/
  told : ∃ fanOuts : List (Patch × List Registration),
    fanOuts.map (·.1) = gone.map (fun entry => .ofRemoved [entry]) ∧
    (∀ fanOut ∈ fanOuts, fanOut.2 ⊆ r.directory.entries) ∧
    swept.lane = fanOuts.foldl
      (fun lane fanOut => lane.queue (deliveriesOf fanOut.1 fanOut.2)) r.lane ∧
    ∀ me ∈ r.directory.entries, me ∉ gone →
      fanOuts.flatMap (fun fanOut => deliveriesOf fanOut.1 (fanOut.2.filter (· = me))) =
        (gone.filter (me.dependsOn ·.role)).map fun entry => ⟨me.updateUrl, .ofRemoved [entry]⟩
  /-- A second sweep at that instant takes nobody and changes nothing. -/
  again : swept.sweep now = (swept, [])

/-- What a sweep makes of a registry in whatever state it has got into, with whatever deliveries
under way. -/
theorem cleared_by_sweep (settings : RegistrySettings) (supply : IdSupply) (xs : List Action)
    (lane : FanOut) (now : Instant) :
    let r := { (empty settings supply).actAll xs with lane := lane }
    Cleared r now (r.sweep now).1 (r.sweep now).2 := by
  intro r
  have hreached := (Coherent.empty settings supply).actAll xs
  have hr : r.Coherent := ⟨hreached.sound, hreached.minted⟩
  have hgone : (r.sweep now).2 = r.overdueNow now := congrArg Prod.snd hr.sweep_eq
  obtain ⟨ledger, heq, hrecords⟩ := hr.sweep_eq_dismissAll now
  have hnodup : (r.overdueNow now).Nodup := hr.nodup_overdueNow
  have hthere := r.overdueNow_subset now
  rw [hgone]
  refine ⟨hnodup, fun entry => ?_, fun role => ?_, ?_, ?_, hr.sweep_again⟩
  · rw [overdueNow, List.mem_filter, overdue, isStale_iff]
  · show (r.sweep now).1.directory.entries.filter _ = (r.directory.entries.filter _).filter _
    rw [hr.entries_sweep, List.filter_comm]
  · rw [heq, hrecords]
    refine List.filter_congr fun record _ => decide_eq_decide.mpr ?_
    rw [← r.orphaned_iff, Bool.not_eq_true]
  · refine ⟨r.farewells (r.overdueNow now), r.map_farewells _,
      hr.farewells_subset hnodup hthere, ?_, fun me hme hstays => ?_⟩
    · rw [heq]
      exact hr.lane_dismissAll hnodup hthere
    · exact hr.deliveriesOf_farewells hnodup hthere hme hstays

end Registry
end Rollcall
