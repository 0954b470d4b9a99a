import Rollcall.Proofs.Registry.Action

/-!
# The life of an entry

An entry comes into the directory with an identifier that no admission has minted before, stays as
it is, and once it has gone its identifier never comes back. All of it follows from what a single
action does and from the identifiers never repeating themselves:

* `Coherent` — the invariant: a sound directory whose identifiers have all been minted;
* `Coherent.eq_of_id_later` — whoever carries an entry's identifier later on is that very entry;
* `Coherent.mem_between` — an entry that is there at two moments is there at every one between.
-/

namespace Rollcall.Registry

/-- An admission of the registry has minted an identifier, whether it is anybody's or not. -/
def Minted (r : Registry) (id : InstanceId) : Prop :=
  ∃ n, n < r.admissions ∧ r.supply.mint (n + 1) = id

theorem Minted.act {r : Registry} {id : InstanceId} (h : r.Minted id) (x : Action) :
    (r.act x).Minted id := by
  obtain ⟨n, hn, rfl⟩ := h
  obtain ⟨-, hsupply, hgrow⟩ := r.act_fixed x
  exact ⟨n, Nat.lt_of_lt_of_le hn hgrow, by rw [hsupply]⟩

theorem Minted.actAll {r : Registry} {id : InstanceId} (h : r.Minted id) (xs : List Action) :
    (r.actAll xs).Minted id := by
  induction xs generalizing r with
  | nil => exact h
  | cons x xs ih => exact ih (h.act x)

theorem Minted.given {r : Registry} {id : InstanceId} (h : r.Minted id) : id.isEmpty = false := by
  obtain ⟨n, -, rfl⟩ := h
  exact r.supply.given (n + 1)

theorem not_minted_nextId (r : Registry) : ¬ r.Minted r.nextId := by
  rintro ⟨n, hn, hmint⟩
  have hsame := r.supply.injective _ _ hmint
  omega

/-- An arrival brings an identifier that has not been minted before, and has been afterwards. So an
identifier that has gone never comes back. -/
theorem minted_of_arrival {r : Registry} {x : Action} {entry : Registration}
    (h : r.arrival? x = some entry) : ¬ r.Minted entry.id ∧ (r.act x).Minted entry.id := by
  obtain ⟨hid, -, heq⟩ := act_of_arrival h
  refine ⟨hid ▸ r.not_minted_nextId, ?_⟩
  rw [heq]
  exact ⟨r.admissions, Nat.lt_succ_self _, hid.symm⟩

/-! ## The invariant -/

/-- The directory is sound and its identifiers have been minted. Every action keeps this, and an
empty registry has it. -/
structure Coherent (r : Registry) : Prop where
  sound : r.directory.Sound
  minted : ∀ entry ∈ r.directory.entries, r.Minted entry.id

namespace Coherent

variable {r : Registry}

theorem empty (settings : RegistrySettings) (supply : IdSupply) :
    (Registry.empty settings supply).Coherent :=
  ⟨.empty, fun _ h => absurd h List.not_mem_nil⟩

/-- Every action keeps the invariant. An arrival is the one case in which something can go wrong,
and there the identifier is a new one. -/
theorem act (h : r.Coherent) (x : Action) : (r.act x).Coherent := by
  refine ⟨?_, ?_⟩
  · cases harr : r.arrival? x with
    | some entry =>
        cases x with
        | enroll reg =>
            -- The identifier that is given next is that of nobody.
            refine h.sound.enroll (fun old hold hid => ?_) reg
            have hminted := h.minted old hold
            rw [hid] at hminted
            exact r.not_minted_nextId hminted
        | _ => cases harr
    | none =>
        cases hdep : r.departure? x with
        | some gone =>
            obtain ⟨front, back, hsplit, heq⟩ := act_of_departure hdep
            refine h.sound.sublist ?_
            rw [heq, hsplit]
            exact (List.Sublist.refl front).append (List.sublist_cons_self gone back)
        | none =>
            rw [directory_of_still harr hdep]
            exact h.sound
  · intro entry hentry
    rcases mem_entries_act hentry with hold | harr
    · exact (h.minted entry hold).act x
    · exact (minted_of_arrival harr).2

theorem actAll (h : r.Coherent) (xs : List Action) : (r.actAll xs).Coherent := by
  induction xs generalizing r with
  | nil => exact h
  | cons x xs ih => exact ih (h.act x)

end Coherent

/-! ## No return -/

/-- An identifier that has been minted and is not registered stays so, whatever is done. -/
theorem not_registered_act {r : Registry} {id : InstanceId} (hminted : r.Minted id)
    (hgone : ∀ entry ∈ r.directory.entries, entry.id ≠ id) (x : Action) :
    ∀ entry ∈ (r.act x).directory.entries, entry.id ≠ id := by
  rintro entry hentry rfl
  rcases mem_entries_act hentry with hold | harr
  · exact hgone entry hold rfl
  · exact (minted_of_arrival harr).1 hminted

theorem not_registered_actAll {r : Registry} {id : InstanceId} (hminted : r.Minted id)
    (hgone : ∀ entry ∈ r.directory.entries, entry.id ≠ id) (xs : List Action) :
    ∀ entry ∈ (r.actAll xs).directory.entries, entry.id ≠ id := by
  induction xs generalizing r with
  | nil => exact hgone
  | cons x xs ih => exact ih (hminted.act x) (not_registered_act hminted hgone x)

namespace Coherent

variable {r : Registry}

/-- A departure takes out one entry of the directory, and all others stay. -/
theorem entries_of_departure (h : r.Coherent) {x : Action} {gone : Registration}
    (hdep : r.departure? x = some gone) : gone ∈ r.directory.entries ∧
      (r.act x).directory.entries = r.directory.entries.filter (· ≠ gone) := by
  obtain ⟨front, back, hsplit, heq⟩ := act_of_departure hdep
  have hnodup := h.sound.nodup
  rw [hsplit] at hnodup
  have hnot := (List.nodup_cons.mp (List.nodup_middle.mp hnodup)).1
  have hstay : (front ++ back).filter (· ≠ gone) = front ++ back := by
    refine List.filter_eq_self.mpr fun entry hentry => decide_eq_true ?_
    rintro rfl
    exact hnot hentry
  rw [heq, hsplit]
  refine ⟨List.mem_append_right _ List.mem_cons_self, ?_⟩
  show front ++ back = _
  rw [List.filter_append, List.filter_cons_of_neg (by simp), ← List.filter_append, hstay]

/-- One action later, an entry is as it was or its identifier has gone. There is nothing in between:
no entry is ever changed. -/
theorem stays_or_goes (h : r.Coherent) {entry : Registration} (hentry : entry ∈ r.directory.entries)
    (x : Action) : entry ∈ (r.act x).directory.entries ∨
      ∀ later ∈ (r.act x).directory.entries, later.id ≠ entry.id := by
  by_cases hdep : r.departure? x = some entry
  · right
    intro later hlater hid
    rw [(h.entries_of_departure hdep).2, List.mem_filter] at hlater
    obtain ⟨hmem, hne⟩ := hlater
    exact of_decide_eq_true hne (h.sound.eq_of_id hmem hentry hid)
  · exact Or.inl (mem_entries_act_of_mem hentry hdep)

/-- Whoever carries an entry's identifier later on is that very entry, with all its fields. -/
theorem eq_of_id_later (h : r.Coherent) {entry later : Registration}
    (hentry : entry ∈ r.directory.entries) (xs : List Action)
    (hlater : later ∈ (r.actAll xs).directory.entries) (hid : later.id = entry.id) :
    later = entry := by
  induction xs generalizing r with
  | nil => exact h.sound.eq_of_id hlater hentry hid
  | cons x xs ih =>
      rcases h.stays_or_goes hentry x with hstays | hgoes
      · exact ih (h.act x) hstays hlater
      -- Once gone, the identifier is that of nobody later on.
      · have hminted := (h.minted entry hentry).act x
        exact absurd hid (not_registered_actAll hminted hgoes xs later hlater)

/-- An entry that is there at two moments is there at every one between them, since whoever has gone
stays away. -/
theorem mem_between (h : r.Coherent) {entry : Registration} (hentry : entry ∈ r.directory.entries)
    (xs ys : List Action) (hend : entry ∈ (r.actAll (xs ++ ys)).directory.entries) :
    entry ∈ (r.actAll xs).directory.entries := by
  induction xs generalizing r with
  | nil => exact hentry
  | cons x xs ih =>
      rcases h.stays_or_goes hentry x with hstays | hgoes
      · exact ih (h.act x) hstays hend
      · have hminted := (h.minted entry hentry).act x
        exact absurd rfl (not_registered_actAll hminted hgoes (xs ++ ys) entry hend)

end Coherent
end Rollcall.Registry
