import Rollcall.Proofs.Registry.Docket

/-!
# Tracking under traffic

Who is there and who has been heard of are two tables, and a call touches them in steps of its own,
between which others come. Two things hold of all traffic all the same, `Traffic.Tracked`: an
identifier in the ledger, or in a copy of it, or about to be noted there has been minted; and an
identifier that a call is about to forget belongs to nobody, `Registry.Gone`, and never will again.
-/

namespace Rollcall

namespace Ledger

theorem lastSeen?_forget (l : Ledger) (id other : InstanceId) :
    (l.forget id).lastSeen? other = if other = id then none else l.lastSeen? other := by
  rw [lastSeen?, forget, List.find?_filter]
  split
  · next heq =>
    rw [List.find?_eq_none.mpr, Option.map_none]
    intro r _
    simp [isOther, heq]
  · next hne =>
    rw [lastSeen?]
    congr 2
    funext r
    by_cases hr : r.1 = other
    · simp [isOther, hr, hne]
    · simp [hr]

theorem lastSeen?_record (l : Ledger) (id : InstanceId) (now : Instant) (other : InstanceId) :
    (l.record id now).lastSeen? other = if other = id then some now else l.lastSeen? other := by
  have hforget := l.lastSeen?_forget id other
  split
  · next heq =>
    subst heq
    rw [lastSeen?, record, List.find?_cons_of_pos (by simp)]
    rfl
  · next hne =>
    rw [if_neg hne] at hforget
    rw [lastSeen?, record, List.find?_cons_of_neg (by simpa using Ne.symm hne)]
    exact hforget

theorem mem_ids_record {l : Ledger} {id other : InstanceId} {now : Instant}
    (h : other ∈ (l.record id now).ids) : other = id ∨ other ∈ l.ids := by
  obtain ⟨r, hr, rfl⟩ := List.mem_map.mp h
  rcases List.mem_cons.mp hr with rfl | hold
  · exact Or.inl rfl
  · exact Or.inr (List.mem_map_of_mem (List.mem_filter.mp hold).1)

theorem mem_ids_forget {l : Ledger} {id other : InstanceId} (h : other ∈ (l.forget id).ids) :
    other ∈ l.ids := by
  obtain ⟨r, hr, rfl⟩ := List.mem_map.mp h
  exact List.mem_map_of_mem (List.mem_filter.mp hr).1

end Ledger

namespace Registry

theorem ledger_act (r : Registry) (x : Action) : (r.act x).ledger = match x with
    | .record id now => r.ledger.record id now
    | .forget id => r.ledger.forget id
    | _ => r.ledger := by
  cases hdep : r.departure? x with
  | some gone =>
      obtain ⟨front, back, -, heq⟩ := act_of_departure hdep
      rw [heq]
      cases x with
      | remove | evict => rfl
      | _ => cases hdep
  | none =>
      cases x with
      | remove role url => exact congrArg ledger (afterAttempt_of_none hdep)
      | evict stale => exact congrArg ledger (afterAttempt_of_none hdep)
      | _ => rfl

/-- An identifier has been minted and belongs to nobody. It then never belongs to anybody again. -/
def Gone (r : Registry) (id : InstanceId) : Prop :=
  r.Minted id ∧ ∀ entry ∈ r.directory.entries, entry.id ≠ id

theorem Gone.actAll {r : Registry} {id : InstanceId} (h : r.Gone id) (xs : List Action) :
    (r.actAll xs).Gone id :=
  ⟨h.1.actAll xs, not_registered_actAll h.1 h.2 xs⟩

theorem Coherent.gone_of_departure {r : Registry} (h : r.Coherent) {x : Action}
    {gone : Registration} (hdep : r.departure? x = some gone) : (r.act x).Gone gone.id := by
  obtain ⟨hmem, hentries⟩ := h.entries_of_departure hdep
  refine ⟨(h.minted gone hmem).act x, fun entry hentry hid => ?_⟩
  rw [hentries] at hentry
  obtain ⟨hold, hne⟩ := List.mem_filter.mp hentry
  exact of_decide_eq_true hne (h.sound.eq_of_id hold hmem hid)

end Registry

theorem Chain.gone {r last : Registry} {clock stop : Instant} {log : List Step}
    (h : Chain r clock log last stop) {id : InstanceId} (hid : r.Gone id) :
    last.Gone id := by
  rw [h.eq_actAll]
  exact hid.actAll _

namespace Errand

/-- The identifiers that an errand has copied from the ledger or will note there. -/
def holds : Errand → List InstanceId
  | record a => [a.id]
  | beat id => [id]
  | readClock _ heard | judge _ heard _ | bury _ _ heard _ => heard.ids
  | prune records _ | drop _ records _ => records.map (·.1)
  | _ => []

/-- The identifier that an errand forgets next. -/
def forgets? : Errand → Option InstanceId
  | forget id | bury id .. | drop id .. => some id
  | _ => none

structure Vouched (r : Registry) (e : Errand) : Prop where
  held : ∀ id ∈ e.holds, r.Minted id
  gone : ∀ id, e.forgets? = some id → r.Gone id

variable {r : Registry} {e e' : Errand} {clock : Instant}

theorem Vouched.actAll (h : e.Vouched r) (xs : List Action) : e.Vouched (r.actAll xs) :=
  ⟨fun id hid => (h.held id hid).actAll xs, fun id hid => (h.gone id hid).actAll xs⟩

/-- With nothing to note or to forget there is nothing to vouch for. -/
theorem vouched_of_idle (hholds : e.holds = []) (hforgets : e.forgets? = none) : e.Vouched r := by
  refine ⟨fun id hid => ?_, fun id hid => ?_⟩
  · rw [hholds] at hid
    cases hid
  · rw [hforgets] at hid
    cases hid

/-- What remains of an errand after its step is vouched for. -/
theorem Vouched.next (h : e.Vouched r) (hr : r.Coherent)
    (hledger : ∀ id ∈ r.ledger.ids, r.Minted id) (hnext : (e.next r clock).2 = some e') :
    e'.Vouched (r.actAll (e.next r clock).1.toList) := by
  obtain ⟨x?, haction, hstep⟩ := advances_of_rest hnext
  rw [haction]
  have hheld : ∀ id ∈ e.holds, (r.actAll x?.toList).Minted id :=
    fun id hid => (h.held id hid).actAll _
  cases hstep with
  | enroll reg =>
      refine ⟨fun id hid => ?_, fun id hid => by cases hid⟩
      obtain rfl := List.mem_singleton.mp hid
      exact ⟨r.admissions, Nat.lt_succ_self _, (r.id_enroll reg).symm⟩
  | record | copyEntries => exact vouched_of_idle rfl rfl
  | remove role url departed gone hremove =>
      refine ⟨fun id hid => absurd hid List.not_mem_nil, fun id hid => ?_⟩
      obtain rfl := Option.some.inj hid
      exact hr.gone_of_departure (Registry.departure?_of_remove hremove)
  | accept id hthere =>
      obtain ⟨entry, hentry, rfl⟩ := Directory.isRegistered_iff.mp hthere
      refine ⟨fun other hother => ?_, fun _ hid => by cases hid⟩
      obtain rfl := List.mem_singleton.mp hother
      exact hr.minted entry hentry
  | copyLedger entries => exact ⟨hledger, fun _ hid => by cases hid⟩
  | readClock | judged | late | spare | bury | drop => exact ⟨hheld, fun _ hid => by cases hid⟩
  | evict entry rest heard now departed gone hdue hevict =>
      refine ⟨hheld, fun id hid => ?_⟩
      obtain rfl := Option.some.inj hid
      exact hr.gone_of_departure (Registry.departure?_of_evict hevict)
  | orphan record rest now hstale hnobody =>
      refine ⟨fun id hid => hheld id (List.mem_cons_of_mem _ hid), fun id hid => ?_⟩
      obtain rfl := Option.some.inj hid
      refine ⟨h.held record.1 List.mem_cons_self, fun entry hentry hid => ?_⟩
      have hthere : r.directory.isRegistered record.1 = true :=
        Directory.isRegistered_iff.mpr ⟨entry, hentry, hid⟩
      rw [hnobody] at hthere
      cases hthere
  | keep record rest now hkept =>
      exact ⟨fun id hid => hheld id (List.mem_cons_of_mem _ hid), fun _ hid => by cases hid⟩

/-- What is noted is the sign of life of an admission or a heartbeat, as of now. -/
theorem record_cases {id : InstanceId} {now : Instant}
    (h : (e.next r clock).1 = some (.record id now)) :
    now = clock ∧ ((∃ a, e = .record a ∧ a.id = id) ∨ e = .beat id) := by
  obtain ⟨rest?, hstep⟩ := advances_of_action h
  cases hstep with
  | record a => exact ⟨rfl, Or.inl ⟨a, rfl, rfl⟩⟩
  | beat id => exact ⟨rfl, Or.inr rfl⟩

theorem holds_of_record {id : InstanceId} {now : Instant}
    (h : (e.next r clock).1 = some (.record id now)) : id ∈ e.holds := by
  rcases (record_cases h).2 with ⟨a, rfl, rfl⟩ | rfl
  · exact List.mem_singleton_self _
  · exact List.mem_singleton_self _

theorem forgets?_of_forget {id : InstanceId} (h : (e.next r clock).1 = some (.forget id)) :
    e.forgets? = some id := by
  obtain ⟨rest?, hstep⟩ := advances_of_action h
  cases hstep with
  | forget | bury | drop => rfl

end Errand

namespace Traffic

structure Tracked (t : Traffic) : Prop where
  coherent : t.registry.Coherent
  ledger : ∀ id ∈ t.registry.ledger.ids, t.registry.Minted id
  errands : ∀ e ∈ t.errands, e.Vouched t.registry

theorem Tracked.start (settings : RegistrySettings) (supply : IdSupply) (clock : Instant) :
    Tracked ⟨.empty settings supply, clock, []⟩ :=
  ⟨.empty settings supply, fun _ h => absurd h List.not_mem_nil,
    fun _ h => absurd h List.not_mem_nil⟩

theorem Tracked.move {t : Traffic} (h : t.Tracked) (m : Move) : (t.move m).Tracked := by
  refine ⟨?_, ?_, fun e he => ?_⟩
  · rw [registry_move]
    exact h.coherent.actAll _
  · rw [registry_move]
    cases haction : t.action? m with
    | none => exact h.ledger
    | some x =>
        intro id hid
        refine Registry.Minted.act ?_ x
        change id ∈ (t.registry.act x).ledger.ids at hid
        rw [Registry.ledger_act] at hid
        cases x with
        | record other now =>
            rcases Ledger.mem_ids_record hid with rfl | hold
            -- What enters the ledger is an identifier that the errand holds.
            · obtain ⟨e, he, hnext, -⟩ := errand_of_action haction
              exact (h.errands e he).held id (Errand.holds_of_record hnext)
            · exact h.ledger id hold
        | forget other => exact h.ledger id (Ledger.mem_ids_forget hid)
        | _ => exact h.ledger id hid
  · rw [registry_move]
    rcases mem_errands_move he with hold | ⟨v, rfl, hnew⟩ | ⟨moved, hmem, haction, hnext⟩
    · exact (h.errands e hold).actAll _
    -- Nobody comes with an identifier to note or to forget.
    · cases v.opens hnew with
      | _ => exact Errand.vouched_of_idle rfl rfl
    · rw [haction]
      exact (h.errands moved hmem).next h.coherent h.ledger hnext

end Traffic
end Rollcall
