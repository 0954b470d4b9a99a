import Rollcall.Proofs.Registry.Lifetime
import Rollcall.Proofs.Registry.Operation

/-!
# The entries of a registry

What the table of a registry looks like after any run of operations, and where its entries come
from. `PutIn` traces an entry back to the operation that admitted it.

Main statement: `table_of_run`, what callers may rely on in every state that a registry can get
into. That the readers of the table agree with one another is part of it.
-/

namespace Rollcall.Registry

/-- One of the operations has put an entry in: it has submitted the registration, the admission has
put it in under the identifier minted for that admission, which nobody in the table carried, and
the entry has been there ever since, just as it was put in. -/
def PutIn (start : Registry) (ops : List Operation) (entry : Registration) : Prop :=
  ∃ before op after submitted, ops = before ++ op :: after ∧ op.submission? = some submitted ∧
    let r := start.run before
    let admission := (r.enroll submitted).2
    admission.inserted = true ∧ admission.entry = entry ∧ admission.id = entry.id ∧
      entry = { submitted with id := r.supply.mint (r.admissions + 1) } ∧
      (∀ old ∈ r.directory.entries, old.id ≠ entry.id) ∧
      ∀ mid rest, after = mid ++ rest →
        entry ∈ (start.run (before ++ op :: mid)).directory.entries

theorem Coherent.run {r : Registry} (h : r.Coherent) (ops : List Operation) :
    (r.run ops).Coherent := by
  rw [run_eq_actAll]
  exact h.actAll _

/-- Between two moments at which an entry is there no operation takes it out. -/
theorem Coherent.mem_between_runs {r : Registry} (h : r.Coherent) {entry : Registration}
    (hentry : entry ∈ r.directory.entries) (mid rest : List Operation)
    (hend : entry ∈ (r.run (mid ++ rest)).directory.entries) :
    entry ∈ (r.run mid).directory.entries := by
  rw [run_append, run_eq_actAll r mid, run_eq_actAll _ rest, ← actAll_append] at hend
  rw [run_eq_actAll]
  exact h.mem_between hentry _ _ hend

/-- An entry that was not there at the start has been put in by one of the operations, and that one
was given the entry by a caller. -/
theorem Coherent.putIn {start : Registry} (h : start.Coherent) {ops : List Operation}
    {entry : Registration} (hend : entry ∈ (start.run ops).directory.entries)
    (hstart : entry ∉ start.directory.entries) : start.PutIn ops entry := by
  -- The last operation after which the entry is there and before which it is not.
  induction ops using List.reverseRecOn with
  | nil => exact absurd hend hstart
  | append_singleton before op ih =>
      by_cases hbefore : entry ∈ (start.run before).directory.entries
      · obtain ⟨before', op', after, submitted, rfl, hsub, hins, hentry, hid, hform, hnew, hstay⟩ :=
          ih hbefore
        refine ⟨before', op', after ++ [op], submitted, by simp, hsub, hins, hentry, hid, hform,
          hnew, ?_⟩
        intro mid rest hsplit
        rcases List.append_eq_append_iff.mp hsplit with ⟨more, rfl, hmore⟩ | ⟨less, rfl, -⟩
        · cases more with
          | nil =>
              rw [List.append_nil]
              exact hbefore
          | cons last none =>
              obtain ⟨rfl, hnone⟩ := List.cons.inj hmore
              obtain ⟨rfl, -⟩ := List.append_eq_nil_iff.mp hnone.symm
              simpa using hend
        · exact hstay mid less rfl
      · rw [run_append, run_cons, run_nil] at hend
        obtain ⟨submitted, hsub, hins, hentry⟩ := (mem_entries_perform hend).resolve_left hbefore
        have hadmission := enroll_of_inserted hins
        have heq : entry = { submitted with id := (start.run before).nextId } := by
          rw [← hentry, hadmission]
        refine ⟨before, op, [], submitted, rfl, hsub, hins, hentry, ?_, heq, ?_, ?_⟩
        · rw [hadmission, heq]
        · rintro old hold hsame
          have hminted := (h.run before).minted old hold
          rw [hsame, heq] at hminted
          exact not_minted_nextId _ hminted
        · intro mid rest hsplit
          obtain ⟨rfl, rfl⟩ := List.append_eq_nil_iff.mp hsplit.symm
          rw [run_append, run_cons, run_nil]
          exact hend

/-- The table of a registry after any operations. Roles and addresses tell its entries apart, and
so do identifiers; every entry carries the identifier of the admission that put it in, whatever
was submitted, and never changes as long as it is there; and all readers see the same table. -/
theorem table_of_run (settings : RegistrySettings) (supply : IdSupply) (ops : List Operation) :
    let start := empty settings supply
    let r := start.run ops
    (∀ role, (∀ entry ∈ r.query role, entry.role = role) ∧ ((r.query role).map (·.url)).Nodup) ∧
    (r.directory.entries.map (·.id)).Nodup ∧
    (∀ entry ∈ r.directory.entries, start.PutIn ops entry) ∧
    (∀ more, ∀ entry ∈ r.directory.entries, ∀ later ∈ (r.run more).directory.entries,
      later.id = entry.id → later = entry) ∧
    r.directory.size = r.directory.entries.length ∧
    r.directory.size = (finsum fun role => (r.query role).length) ∧
    ∀ id, r.directory.isRegistered id = true ↔ ∃ entry ∈ r.directory.entries, entry.id = id := by
  intro start r
  have hstart : start.Coherent := .empty settings supply
  have hr : r.Coherent := hstart.run ops
  refine ⟨fun role => ⟨?_, hr.sound.urls_nodup role⟩, hr.sound.ids, ?_, ?_, rfl,
    r.directory.finsum_length_ofRole.symm, fun id => Directory.isRegistered_iff⟩
  · intro entry hentry
    exact (Directory.mem_ofRole.mp hentry).2
  · intro entry hentry
    exact hstart.putIn hentry List.not_mem_nil
  · intro more entry hentry later hlater hid
    rw [run_eq_actAll] at hlater
    exact hr.eq_of_id_later hentry _ hlater hid

end Rollcall.Registry
