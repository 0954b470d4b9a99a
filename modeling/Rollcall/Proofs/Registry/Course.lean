import Rollcall.Proofs.Registry.Docket

/-!
# The course of a call

What a call does next hangs on the steps that it has taken itself, however many steps of others lie
between them. They are its course.

* `Docket.coursed_run` — what holds of every call that begins, and goes on with each step of its
  own, holds of every call in progress and of every step of the log;
* `Docket.copied_of_judge` — a sweep works through the copies that it has made itself, and in the
  order in which it makes them.
-/

namespace Rollcall

/-- The steps of a call in a log, without those of all others. -/
def courseOf (call : Nat) (log : List Step) : List Step := log.filter (·.call = call)

theorem mem_courseOf {call : Nat} {log : List Step} {s : Step} :
    s ∈ courseOf call log ↔ s ∈ log ∧ s.call = call := by
  simp [courseOf]

theorem courseOf_concat (call : Nat) (log : List Step) (s : Step) :
    courseOf call (log ++ [s]) =
      if s.call = call then courseOf call log ++ [s] else courseOf call log := by
  rw [courseOf, courseOf, List.filter_append]
  split
  · next h => rw [List.filter_cons_of_pos (by simpa using h), List.filter_nil]
  · next h => rw [List.filter_cons_of_neg (by simpa using h), List.filter_nil, List.append_nil]

/-- What holds of a call by the steps that it has taken: from its beginning on, and after each step
of what remains. -/
structure Follows (inv : List Step → Errand → Prop) : Prop where
  opens : ∀ e : Errand, e.Opens → inv [] e
  steps : ∀ own s e, inv own s.errand → s.rest? = some e → inv (own ++ [s]) e

namespace Docket

/-- Every call in progress has come to where it stands by its course, and so had every call whose
step the log shows. -/
structure Coursed (inv : List Step → Errand → Prop) (d : Docket) : Prop where
  callers : ∀ caller ∈ d.callers, inv (courseOf caller.1 d.log) caller.2
  logged : ∀ before s after, d.log = before ++ s :: after → inv (courseOf s.call before) s.errand

variable {inv : List Step → Errand → Prop} {d : Docket}

theorem Coursed.enter (h : d.Coursed inv) (hinv : Follows inv) (hnumbered : d.Numbered)
    {i call : Nat} {errand : Errand} (hcaller : d.callers[i]? = some (call, errand)) :
    (d.enter i ⟨call, errand, d.registry, d.clock⟩).Coursed inv := by
  have hmem : (call, errand) ∈ d.callers := List.mem_of_getElem? hcaller
  refine ⟨fun caller hin => ?_, fun before s after hsplit => ?_⟩
  · show inv (courseOf caller.1 (d.log ++ [_])) caller.2
    rw [courseOf_concat]
    rcases mem_callers_enter hnumbered hcaller hin with ⟨hold, hne⟩ | ⟨rest, hrest, rfl⟩
    · rw [if_neg hne.symm]
      exact h.callers caller hold
    · rw [if_pos rfl]
      exact hinv.steps _ _ rest (h.callers _ hmem) hrest
  · rcases List.eq_nil_or_concat after with rfl | ⟨after, last, rfl⟩
    · obtain ⟨rfl, rfl⟩ := List.append_singleton_inj.mp hsplit
      exact h.callers _ hmem
    · rw [List.concat_eq_append, ← List.cons_append, ← List.append_assoc] at hsplit
      exact h.logged before s after (List.append_singleton_inj.mp hsplit).1

theorem Coursed.next (h : d.Coursed inv) (hinv : Follows inv) (hnumbered : d.Numbered)
    (m : Traffic.Move) : (d.next m).Coursed inv := by
  rcases d.next_cases m with ⟨hlog, -, -, -, hcallers⟩ | ⟨i, call, errand, hcaller, heq⟩
  · refine ⟨fun caller hcaller => ?_, hlog ▸ h.logged⟩
    rw [hlog]
    rcases hcallers caller hcaller with hold | ⟨hnew, v, hfirst⟩
    · exact h.callers caller hold
    · have hnone : courseOf caller.1 d.log = [] := hnumbered.unlogged (Nat.le_of_eq hnew.symm)
      rw [hnone]
      exact hinv.opens _ (v.opens hfirst)
  · rw [heq]
    exact h.enter hinv hnumbered hcaller

theorem numbered_start (settings : RegistrySettings) (supply : IdSupply) (clock : Instant) :
    (start settings supply clock).Numbered :=
  ⟨List.nodup_nil, fun _ h => absurd h List.not_mem_nil, fun _ h => absurd h List.not_mem_nil⟩

/-- What follows from the course of a call holds in every run. It is enough to look at the steps of
one call and at what remains of it, whoever else is at work. -/
theorem coursed_run (hinv : Follows inv) (settings : RegistrySettings) (supply : IdSupply)
    (clock : Instant) (moves : List Traffic.Move) :
    ((start settings supply clock).run moves).Coursed inv := by
  suffices h : ∀ d : Docket, d.Numbered → d.Coursed inv → (d.run moves).Coursed inv by
    refine h _ (numbered_start settings supply clock) ⟨fun _ h => absurd h List.not_mem_nil, ?_⟩
    intro before s after hsplit
    exact absurd hsplit.symm (List.append_ne_nil_of_right_ne_nil _ (List.cons_ne_nil _ _))
  induction moves with
  | nil => exact fun d _ h => h
  | cons m moves ih => exact fun d hnumbered h => ih _ (hnumbered.next m) (h.next hinv hnumbered m)

end Docket

/-! ## Sweeps -/

/-- The steps with which a sweep begins: it copies the directory, then the ledger, and reads the
clock. -/
structure Copying (first copy look : Step) : Prop where
  entries : first.errand = .copyEntries
  ledger : copy.errand = .copyLedger first.registry.directory.entries
  clock : look.errand = .readClock first.registry.directory.entries copy.registry.ledger

/-- What a sweep holds is what it has copied, as far as it has not yet judged it. The first three
steps of a sweep are the only ones that copy. -/
def Errand.Copied (own : List Step) : Errand → Prop
  | .copyEntries => own = []
  | .copyLedger entries => ∃ first, own = [first] ∧ first.errand = .copyEntries ∧
      entries = first.registry.directory.entries
  | .readClock entries heard => ∃ first copy, own = [first, copy] ∧
      first.errand = .copyEntries ∧ copy.errand = .copyLedger first.registry.directory.entries ∧
      entries = first.registry.directory.entries ∧ heard = copy.registry.ledger
  | .judge entries heard now | .bury _ entries heard now => ∃ first copy look rest,
      own = first :: copy :: look :: rest ∧ Copying first copy look ∧
      entries <:+ first.registry.directory.entries ∧ heard = copy.registry.ledger ∧
      now = look.clock
  | _ => True

theorem Errand.follows_copied : Follows fun own e => e.Copied own := by
  refine ⟨fun e h => ?_, fun own s e h hrest => ?_⟩
  · cases h with
    | copyEntries => exact rfl
    | _ => trivial
  · obtain ⟨call, errand, registry, clock⟩ := s
    change (errand.next registry clock).2 = some e at hrest
    obtain ⟨x?, -, hstep⟩ := advances_of_rest hrest
    -- Each copy is taken once, on top of those taken before, and the loop only shortens what is
    -- left of the first.
    cases hstep with
    | copyEntries =>
        obtain rfl : own = [] := h
        exact ⟨_, rfl, rfl, rfl⟩
    | copyLedger entries =>
        obtain ⟨first, rfl, hfirst, rfl⟩ := h
        exact ⟨first, _, rfl, hfirst, rfl, rfl, rfl⟩
    | readClock entries heard =>
        obtain ⟨first, copy, rfl, hfirst, hcopy, rfl, rfl⟩ := h
        exact ⟨first, copy, _, [], rfl, ⟨hfirst, hcopy, rfl⟩, List.suffix_refl _, rfl, rfl⟩
    | evict entry left | late entry left | spare entry left =>
        obtain ⟨first, copy, look, rest, rfl, hcopying, hleft, hheard, hnow⟩ := h
        exact ⟨first, copy, look, _, rfl, hcopying, (List.suffix_cons entry left).trans hleft,
          hheard, hnow⟩
    | bury =>
        obtain ⟨first, copy, look, rest, rfl, hcopied⟩ := h
        exact ⟨first, copy, look, _, rfl, hcopied⟩
    | _ => trivial

namespace Docket

/-- A sweep that judges has copied the directory, then the ledger, and then read the clock, and with
these three steps it began. -/
theorem copied_of_judge (settings : RegistrySettings) (supply : IdSupply) (clock : Instant)
    (moves : List Traffic.Move) {before after : List Step} {turn : Step}
    (hlog : ((start settings supply clock).run moves).log = before ++ turn :: after)
    {entries : List Registration} {heard : Ledger} {now : Instant}
    (hturn : turn.errand = .judge entries heard now) :
    ∃ first copy look rest, courseOf turn.call before = first :: copy :: look :: rest ∧
      Copying first copy look ∧ entries <:+ first.registry.directory.entries ∧
      heard = copy.registry.ledger ∧ now = look.clock := by
  have hcopied := (coursed_run Errand.follows_copied settings supply clock moves).logged _ _ _ hlog
  rw [hturn] at hcopied
  exact hcopied

end Docket
end Rollcall
