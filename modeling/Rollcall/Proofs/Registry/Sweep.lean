import Rollcall.Proofs.Registry.Coverage
import Rollcall.Proofs.Registry.Tenure

/-!
# What a sweep takes

A sweep copies the directory, then the ledger, and goes by the two copies, while the calls of others
change both tables under its hands. It takes by identifier, and no identifier is given twice; so
whatever comes after the first copy is safe from it.

* `Errand.follows_sweep` — what begins as a sweep goes on as one, and so it only evicts and forgets;
* `Docket.sweep_goes_by_copies` — a sweep takes only what it has copied and found overdue, leaves
  alone whoever has come since, and forgets only who is not there.
-/

namespace Rollcall

namespace Errand

variable {e e' : Errand} {r : Registry} {clock : Instant}

def ofSweep : Errand → Bool
  | copyEntries | copyLedger _ | readClock .. | judge .. | bury .. | prune .. | drop .. => true
  | _ => false

theorem ofSweep_next (h : e.ofSweep = true) (hnext : (e.next r clock).2 = some e') :
    e'.ofSweep = true := by
  obtain ⟨x?, -, hstep⟩ := advances_of_rest hnext
  cases hstep with
  | enroll | record | remove | accept => cases h
  | _ => rfl

/-- Once a call has copied the directory it is a sweep, and stays one. -/
theorem follows_sweep :
    Follows fun own e => ∀ s ∈ own, s.errand = .copyEntries → e.ofSweep = true := by
  refine ⟨fun e _ s hs => absurd hs List.not_mem_nil,
    fun own s e h hrest first hfirst hcopies => ?_⟩
  refine ofSweep_next ?_ (show (s.errand.next s.registry s.clock).2 = some e from hrest)
  rcases List.mem_append.mp hfirst with hold | hnew
  · exact h first hold hcopies
  · rw [← List.mem_singleton.mp hnew, hcopies]
    rfl

/-- All that a sweep does is to evict who is under judgement, and to forget. -/
theorem action_of_sweep {x : Action} (h : e.ofSweep = true) (hnext : (e.next r clock).1 = some x) :
    (∃ entry rest heard now, e = .judge (entry :: rest) heard now ∧ x = .evict entry) ∨
      ∃ id, x = .forget id := by
  obtain ⟨rest?, hstep⟩ := advances_of_action hnext
  cases hstep with
  | enroll | record | announce | remove | miss | forget | beat => cases h
  | evict entry rest heard now | late entry rest heard now =>
      exact Or.inl ⟨entry, rest, heard, now, rfl, rfl⟩
  | bury id | drop id => exact Or.inr ⟨id, rfl⟩

end Errand

namespace Step

variable {s : Step}

theorem judge_of_gone? (h : s.errand.ofSweep = true) {gone : Registration}
    (hgone : s.gone? = some gone) :
    ∃ entry rest heard now, s.errand = .judge (entry :: rest) heard now := by
  obtain ⟨x, haction, hdep⟩ := Option.bind_eq_some_iff.mp hgone
  rcases Errand.action_of_sweep h haction with ⟨entry, rest, heard, now, herrand, -⟩ | ⟨id, rfl⟩
  · exact ⟨entry, rest, heard, now, herrand⟩
  · cases hdep

theorem not_hears_of_sweep (h : s.errand.ofSweep = true) (id : InstanceId) : ¬ s.Hears id := by
  intro hhears
  rcases Errand.action_of_sweep h hhears with ⟨_, _, _, _, -, hevict⟩ | ⟨_, hforget⟩
  · cases hevict
  · cases hforget

theorem gone_of_forget (hmet : Docket.Met Traffic.Tracked s) {id : InstanceId}
    (haction : s.action? = some (.forget id)) : s.registry.Gone id := by
  obtain ⟨t, htracked, herrand, hregistry, -⟩ := hmet
  rw [← hregistry]
  exact htracked.gone_of_errand herrand haction

end Step

namespace Docket

variable {front mid back : List Step} {first turn : Step}

/-- Whatever a sweep judges, it has copied with its first step, and the ledger after it. What others
have done since is not in the copies. -/
theorem copied_since (settings : RegistrySettings) (supply : IdSupply) (clock : Instant)
    (moves : List Traffic.Move)
    (hlog : ((start settings supply clock).run moves).log = front ++ first :: (mid ++ turn :: back))
    (hfirst : first.errand = .copyEntries) (hcall : turn.call = first.call)
    {entries : List Registration} {heard : Ledger} {now : Instant}
    (hturn : turn.errand = .judge entries heard now) :
    ∃ copy ∈ mid, ∃ look ∈ mid, copy.call = first.call ∧ look.call = first.call ∧
      Copying first copy look ∧ entries <:+ first.registry.directory.entries ∧
      heard = copy.registry.ledger ∧ now = look.clock := by
  -- The copy of the directory is the first step of its call.
  have hnone : courseOf first.call front = [] := by
    have hcoursed := coursed_run Errand.follows_copied settings supply clock moves
    have hcopied := hcoursed.logged _ _ _ hlog
    rw [hfirst] at hcopied
    exact hcopied
  rw [← List.cons_append, ← List.append_assoc] at hlog
  obtain ⟨first', copy, look, rest, hcourse, hcopying⟩ :=
    copied_of_judge settings supply clock moves hlog hturn
  rw [hcall, courseOf, List.filter_append, ← courseOf, hnone, List.nil_append,
    List.filter_cons_of_pos (by simp)] at hcourse
  obtain ⟨rfl, hmid⟩ := List.cons_eq_cons.mp hcourse
  have hcopy : copy ∈ courseOf first.call mid := by
    rw [courseOf, hmid]
    exact List.mem_cons_self
  have hlook : look ∈ courseOf first.call mid := by
    rw [courseOf, hmid]
    exact List.mem_cons_of_mem _ List.mem_cons_self
  obtain ⟨hcopy, hcopycall⟩ := mem_courseOf.mp hcopy
  obtain ⟨hlook, hlookcall⟩ := mem_courseOf.mp hlook
  exact ⟨copy, hcopy, look, hlook, hcopycall, hlookcall, hcopying⟩

/-- Between two of its steps a sweep has copied the ledger and read the clock, and by the copies
that it has made an entry is there and overdue. -/
structure FindsOverdue (timeout : Duration) (first : Step) (mid : List Step)
    (entry : Registration) : Prop where
  copied : entry ∈ first.registry.directory.entries
  overdue : ∃ copy ∈ mid, ∃ look ∈ mid, copy.call = first.call ∧ look.call = first.call ∧
    Copying first copy look ∧
    isStale timeout (copy.registry.ledger.lastSeen? entry.id) look.clock = true

/-- From the copy of the directory the log leads to every later step. -/
theorem chain_since (settings : RegistrySettings) (supply : IdSupply) (clock : Instant)
    (moves : List Traffic.Move)
    (hlog : ((start settings supply clock).run moves).log = front ++ first :: (mid ++ turn :: back))
    (hfirst : first.errand = .copyEntries) :
    Chain (.empty settings supply) clock front first.registry first.clock ∧
      Chain first.registry first.clock mid turn.registry turn.clock := by
  have hchain : Chain (.empty settings supply) clock
      ((start settings supply clock).run moves).log _ _ := chain_start settings supply clock moves
  rw [hlog] at hchain
  obtain ⟨hfront, hrest⟩ := hchain.split
  have hafter : first.after = first.registry := by
    refine Step.after_of_none ?_
    rw [Step.action?, hfirst]
    rfl
  rw [hafter] at hrest
  exact ⟨hfront, hrest.split.1⟩

theorem ofSweep_since (settings : RegistrySettings) (supply : IdSupply) (clock : Instant)
    (moves : List Traffic.Move)
    (hlog : ((start settings supply clock).run moves).log = front ++ first :: (mid ++ turn :: back))
    (hfirst : first.errand = .copyEntries) (hcall : turn.call = first.call) :
    turn.errand.ofSweep = true := by
  rw [← List.cons_append, ← List.append_assoc] at hlog
  refine (coursed_run Errand.follows_sweep settings supply clock moves).logged _ _ _ hlog first
    (mem_courseOf.mpr ⟨?_, hcall.symm⟩) hfirst
  exact List.mem_append_right _ List.mem_cons_self

/-- An entry that a step of a sweep takes out, the sweep has copied and found overdue by its
copies. -/
theorem findsOverdue_of_gone? (settings : RegistrySettings) (supply : IdSupply) (clock : Instant)
    (moves : List Traffic.Move)
    (hlog : ((start settings supply clock).run moves).log = front ++ first :: (mid ++ turn :: back))
    (hfirst : first.errand = .copyEntries) (hcall : turn.call = first.call) {gone : Registration}
    (hgone : turn.gone? = some gone) : FindsOverdue settings.timeout first mid gone := by
  obtain ⟨hfront, hmid⟩ := chain_since settings supply clock moves hlog hfirst
  have hthen : first.registry.Coherent := hfront.coherent (.empty settings supply)
  have hsweep := ofSweep_since settings supply clock moves hlog hfirst hcall
  obtain ⟨entry, rest, heard, now, hjudge⟩ := Step.judge_of_gone? hsweep hgone
  obtain ⟨copy, hcopy, look, hlook, hcopycall, hlookcall, hcopying, hleft, rfl, rfl⟩ :=
    copied_since settings supply clock moves hlog hfirst hcall hjudge
  obtain ⟨hdue, hdep⟩ := (Step.gone?_of_judge hjudge).mp hgone
  obtain ⟨hthere, -, hid⟩ := (hmid.coherent hthen).departure?_evict.mp hdep
  have hentry : entry ∈ first.registry.directory.entries := hleft.subset List.mem_cons_self
  -- The identifier is that of the copied entry, and so it is the same entry still.
  rw [hmid.eq_actAll] at hthere
  obtain rfl := hthen.eq_of_id_later hentry _ hthere hid
  have htimeout : turn.registry.settings = settings := hmid.settings_eq.trans hfront.settings_eq
  rw [Registry.overdue, htimeout] at hdue
  exact ⟨hentry, copy, hcopy, look, hlook, hcopycall, hlookcall, hcopying, hdue⟩

/-- What a later step of a sweep may do, by what the sweep has looked at and by what has happened
since. -/
structure GoesByCopies (timeout : Duration) (first : Step) (mid : List Step) (turn : Step) :
    Prop where
  /-- The entry that it takes out is as it was copied, and has been found overdue. -/
  takes : ∀ gone, turn.gone? = some gone →
    gone ∈ turn.registry.directory.entries ∧ FindsOverdue timeout first mid gone
  /-- It does not take out who has been admitted since, be it in place of a copied entry, -/
  stays : ∀ s ∈ mid, ∀ a, s.admission? = some a → a.inserted = true → turn.gone? ≠ some a.entry
  /-- and leaves the record as it is. -/
  spares : ∀ s ∈ mid, ∀ a, s.admission? = some a → a.inserted = true →
    a.entry ∈ turn.registry.directory.entries → a.entry ∈ turn.after.directory.entries ∧
      turn.after.ledger.lastSeen? a.entry.id = turn.registry.ledger.lastSeen? a.entry.id
  /-- And whatever it forgets belongs to nobody. -/
  forgets : ∀ id, turn.action? = some (.forget id) →
    ∀ entry ∈ turn.registry.directory.entries, entry.id ≠ id

/-- A sweep goes by what it has looked at, whatever others do between its steps. -/
theorem sweep_goes_by_copies (settings : RegistrySettings) (supply : IdSupply) (clock : Instant)
    (moves : List Traffic.Move)
    (hlog : ((start settings supply clock).run moves).log = front ++ first :: (mid ++ turn :: back))
    (hfirst : first.errand = .copyEntries) (hcall : turn.call = first.call) :
    GoesByCopies settings.timeout first mid turn := by
  have hmet : Met Traffic.Tracked turn := by
    refine tracked_run settings supply clock moves turn ?_
    rw [hlog]
    simp
  have hsweep := ofSweep_since settings supply clock moves hlog hfirst hcall
  have hfinds (gone : Registration) (hgone : turn.gone? = some gone) :=
    findsOverdue_of_gone? settings supply clock moves hlog hfirst hcall hgone
  obtain ⟨hfront, hmid⟩ := chain_since settings supply clock moves hlog hfirst
  have hthen : first.registry.Coherent := hfront.coherent (.empty settings supply)
  have hnow : turn.registry.Coherent := hmid.coherent hthen
  -- Whoever was admitted after the copy bears an identifier that nobody in the copy has.
  have hstays : ∀ s ∈ mid, ∀ a, s.admission? = some a → a.inserted = true →
      turn.gone? ≠ some a.entry := by
    intro s hs a hadmission hinserted hgone
    obtain ⟨hid, hnew⟩ := Step.not_minted_of_admission hadmission hinserted
    obtain ⟨earlier, later, rfl⟩ := List.append_of_mem hs
    have hminted := hthen.minted a.entry (hfinds a.entry hgone).copied
    rw [hid] at hminted
    exact hnew (hmid.split.1.minted hminted)
  refine ⟨fun gone hgone => ⟨Step.mem_of_gone? hnow hgone, hfinds gone hgone⟩, hstays,
    fun s hs a hadmission hinserted hthere => ?_,
    fun id haction => (Step.gone_of_forget hmet haction).2⟩
  obtain ⟨hgone, -⟩ | ⟨-, hremains⟩ := Step.gone_or_mem_after hnow hthere
  · exact absurd hgone (hstays s hs a hadmission hinserted)
  · refine ⟨hremains, Step.lastSeen?_after hmet (Step.not_hears_of_sweep hsweep _) ?_⟩
    exact fun hgone => hgone.2 a.entry hremains rfl

/-- A log and a web server fall silent. After a sweep has copied the directory the log deregisters
and registers again: the web server goes, and the log stays with the record of its return. -/
theorem returning_log_stays :
    let supply : IdSupply := .numbered 'i' [] [] 'd' (by decide) (by decide)
    let log : Registration := { role := .log, url := "http://p" }
    let web : Registration := { role := .web, url := "http://q", id := supply.mint 2 }
    let returned : Registration := { log with id := supply.mint 3 }
    let moves : List Traffic.Move := [.visit (.register log), .advance 0, .advance 0, .advance 0,
      .visit (.register web), .advance 0, .advance 0, .advance 0, .wait ⟨70⟩, .visit .sweep,
      .advance 0, .visit (.deregister .log "http://p"), .advance 1, .advance 1,
      .visit (.register log), .advance 1, .advance 1, .advance 1, .advance 0, .advance 0,
      .advance 0, .advance 0, .advance 0]
    let d := (start ⟨⟨60⟩, ⟨9⟩, ⟨9⟩, 1⟩ supply ⟨0⟩).run moves
    (∃ front first mid out back, d.log = front ++ first :: (mid ++ out :: back) ∧
      first.errand = .copyEntries ∧ out.gone? = some web ∧ FindsOverdue ⟨60⟩ first mid web ∧
      returned ∈ out.after.directory.entries ∧
      out.after.ledger.lastSeen? returned.id = out.registry.ledger.lastSeen? returned.id) ∧
    ∃ front first mid bury back, d.log = front ++ first :: (mid ++ bury :: back) ∧
      first.errand = .copyEntries ∧ bury.action? = some (.forget web.id) ∧
      ∀ entry ∈ bury.registry.directory.entries, entry.id ≠ web.id := by
  intro supply log web returned moves d
  let first : Step := d.log.get ⟨6, by decide +kernel⟩
  let rest : List Step := d.log.drop 7
  have hcut : ∀ k (h : k < rest.length),
      d.log = d.log.take 6 ++ first :: (rest.take k ++ rest.get ⟨k, h⟩ :: rest.drop (k + 1)) := by
    intro k h
    rw [List.get_eq_getElem, ← List.drop_eq_getElem_cons h, List.take_append_drop]
    exact d.log_cut _
  let out : Step := rest.get ⟨8, by decide +kernel⟩
  let bury : Step := rest.get ⟨9, by decide +kernel⟩
  let admits : Step := (rest.take 8).get ⟨2, by decide +kernel⟩
  have hfirst : first.errand = .copyEntries := by decide +kernel
  have hgone : out.gone? = some web := by decide +kernel
  have hforgets : bury.action? = some (.forget web.id) := by decide +kernel
  have hadmits : admits.admission? = some ⟨returned.id, returned, returned, true⟩ := by
    decide +kernel
  have hthere : returned ∈ out.registry.directory.entries := by decide +kernel
  have hmem : admits ∈ rest.take 8 := List.get_mem _ _
  have hout := hcut 8 (by decide +kernel)
  have hbury := hcut 9 (by decide +kernel)
  have htakes : GoesByCopies ⟨60⟩ first (rest.take 8) out :=
    sweep_goes_by_copies ⟨⟨60⟩, ⟨9⟩, ⟨9⟩, 1⟩ supply ⟨0⟩ moves hout hfirst (by decide +kernel)
  have hburies : GoesByCopies ⟨60⟩ first (rest.take 9) bury :=
    sweep_goes_by_copies ⟨⟨60⟩, ⟨9⟩, ⟨9⟩, 1⟩ supply ⟨0⟩ moves hbury hfirst (by decide +kernel)
  have hspared := htakes.spares admits hmem _ hadmits rfl hthere
  exact ⟨⟨_, first, _, out, _, hout, hfirst, hgone, (htakes.takes web hgone).2, hspared⟩,
    _, first, _, bury, _, hbury, hfirst, hforgets, hburies.forgets web.id hforgets⟩

end Docket
end Rollcall
