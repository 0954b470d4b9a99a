import Rollcall.Proofs.Directory
import Rollcall.Registry.Basic

/-!
# Atomic steps of a registry

The steps between which other callers may come, as data: whatever is done to a registry, by one
caller or by many, is done by a list of actions. Three functions say what an action comes to, and
everything proved of runs goes by them instead of the steps themselves:

    r.arrival? x      the entry that it puts into the directory
    r.departure? x    the entry that it takes out
    r.news? x         the news that it queues, and for whom

Main statements:

* `act_of_arrival`, `act_of_departure`, `directory_of_still` — an action appends its arrival, cuts
  out its departure, and otherwise leaves the directory alone;
* `lane_act` — the fan-out gets the deliveries of the action's news and nothing else.
-/

namespace Rollcall

/-- One atomic step at a registry. Nothing else ever changes it, so whatever every action keeps
holds of every run, `actAll`, however calls are interleaved. -/
inductive Action where
  | enroll (reg : Registration)
  | record (id : InstanceId) (now : Instant)
  | announce (a : Admission)
  | remove (role : Role) (url : String)
  | evict (stale : Registration)
  | forget (id : InstanceId)
  deriving Repr, DecidableEq

namespace Registry

/-- The registry after an attempt to take an entry out; a failed attempt changes nothing. -/
def afterAttempt (r : Registry) : Except RegistryError (Registry × Registration) → Registry
  | .ok (departed, _) => departed
  | .error _ => r

def act (r : Registry) : Action → Registry
  | .enroll reg => (r.enroll reg).1
  | .record id now => r.record id now
  | .announce a => (r.announce a).1
  | .remove role url => r.afterAttempt (r.remove role url)
  | .evict stale => r.afterAttempt (r.evict stale)
  | .forget id => r.forget id

theorem act_remove_of_ok {r departed : Registry} {role : Role} {url : String}
    {gone : Registration} (h : r.remove role url = .ok (departed, gone)) :
    r.act (.remove role url) = departed := by
  simp only [act, h, afterAttempt]

theorem act_evict_of_ok {r departed : Registry} {stale gone : Registration}
    (h : r.evict stale = .ok (departed, gone)) : r.act (.evict stale) = departed := by
  simp only [act, h, afterAttempt]

theorem act_evict_of_error {r : Registry} {stale : Registration} {e : RegistryError}
    (h : r.evict stale = .error e) : r.act (.evict stale) = r := by
  simp only [act, h, afterAttempt]

def actAll (r : Registry) (xs : List Action) : Registry := xs.foldl act r

@[simp] theorem actAll_nil (r : Registry) : r.actAll [] = r := rfl

@[simp] theorem actAll_cons (r : Registry) (x : Action) (xs : List Action) :
    r.actAll (x :: xs) = (r.act x).actAll xs := rfl

theorem actAll_append (r : Registry) (xs ys : List Action) :
    r.actAll (xs ++ ys) = (r.actAll xs).actAll ys :=
  List.foldl_append

/-! ## What an action comes to -/

/-- The identifier that the next admission will mint. -/
def nextId (r : Registry) : InstanceId := r.supply.mint (r.admissions + 1)

/-- The entry that an action puts into the directory. Only an admission puts one in, and only if it
inserts. -/
def arrival? (r : Registry) : Action → Option Registration
  | .enroll reg => if (r.enroll reg).2.inserted then some (r.enroll reg).2.entry else none
  | _ => none

/-- The entry that an action takes out of the directory. An action never does both, put one in and
take one out. -/
def departure? (r : Registry) : Action → Option Registration
  | .remove role url => (r.directory.remove? role url).map (·.1)
  | .evict stale => (r.directory.evict? stale).map (·.1)
  | _ => none

/-- The news that an action queues, and for whom. A departure brings news of itself, so nobody can
leave without the others being told. -/
def news? (r : Registry) : Action → Option (Patch × List Registration)
  | .announce a => some (.ofAdded [a.entry], r.directory.others a.entry)
  | x => (r.departure? x).map fun gone => (.ofRemoved [gone], r.directory.others gone)

theorem enroll_eq (r : Registry) (reg : Registration) :
    r.enroll reg = ({ r with
      admissions := r.admissions + 1, directory := (r.directory.enroll r.nextId reg).1 },
      (r.directory.enroll r.nextId reg).2) := rfl

/-- An admission that puts an entry in takes the registration as it is, under the next
identifier. -/
theorem enroll_of_inserted {r : Registry} {reg : Registration}
    (h : (r.enroll reg).2.inserted = true) : (r.enroll reg).2 =
      ⟨r.nextId, { reg with id := r.nextId }, { reg with id := r.nextId }, true⟩ := by
  rcases r.directory.enroll_cases r.nextId reg with ⟨kept, -, -, heq⟩ | ⟨-, heq⟩
  · rw [enroll_eq, heq] at h
    cases h
  · rw [enroll_eq, heq]

theorem id_enroll (r : Registry) (reg : Registration) : (r.enroll reg).2.id = r.nextId := by
  rcases r.directory.enroll_cases r.nextId reg with ⟨kept, -, -, heq⟩ | ⟨-, heq⟩
  · rw [enroll_eq, heq]
  · rw [enroll_eq, heq]

theorem registration_enroll (r : Registry) (reg : Registration) :
    (r.enroll reg).2.registration = { reg with id := r.nextId } := by
  rcases r.directory.enroll_cases r.nextId reg with ⟨kept, -, -, heq⟩ | ⟨-, heq⟩
  · rw [enroll_eq, heq]
  · rw [enroll_eq, heq]

/-- The entry of an admission, be it a new one or an older one, is of the instance submitted. -/
theorem sameInstance_enroll (r : Registry) (reg : Registration) :
    (r.enroll reg).2.entry.sameInstance reg = true := by
  rcases r.directory.enroll_cases r.nextId reg with ⟨kept, -, hsame, heq⟩ | ⟨-, heq⟩
  · rw [enroll_eq, heq]
    exact hsame
  · rw [enroll_eq, heq]
    exact Registration.sameInstance_self reg

/-- Whoever has been admitted, the directory holds the entry of the admission, whether it is new or
has been there before. -/
theorem mem_enroll (r : Registry) (reg : Registration) :
    (r.enroll reg).2.entry ∈ (r.enroll reg).1.directory.entries := by
  rcases r.directory.enroll_cases r.nextId reg with ⟨kept, hkept, -, heq⟩ | ⟨-, heq⟩
  · rw [enroll_eq, heq]
    exact hkept
  · rw [enroll_eq, heq]
    exact List.mem_append_right _ List.mem_cons_self

/-- An action with an arrival is the admission of an instance that was not there; it appends the
registration under the next identifier. -/
theorem act_of_arrival {r : Registry} {x : Action} {entry : Registration}
    (h : r.arrival? x = some entry) :
    entry.id = r.nextId ∧ (∀ old ∈ r.directory.entries, old.sameInstance entry = false) ∧
      r.act x = { r with
        admissions := r.admissions + 1, directory := ⟨r.directory.entries ++ [entry]⟩ } := by
  cases x with
  | enroll reg =>
      rcases r.directory.enroll_cases r.nextId reg with ⟨kept, -, -, heq⟩ | ⟨hnew, heq⟩
      · simp [arrival?, enroll_eq, heq] at h
      · simp only [arrival?, enroll_eq, heq, if_true, Option.some.injEq] at h
        subst h
        refine ⟨rfl, fun old hold => ?_, ?_⟩
        · simpa using hnew old hold
        · simp only [act, enroll_eq, heq]
  | _ => cases h

/-- An attempt that finds its entry cuts it out and queues the news of it, in one step. -/
theorem afterAttempt_of_taken {r : Registry} {p : Registration → Bool} {gone : Registration}
    {failure : RegistryError} (h : (r.directory.takeFirst? p).map (·.1) = some gone) :
    ∃ front back, r.directory.entries = front ++ gone :: back ∧
      r.afterAttempt (match r.depart (r.directory.takeFirst? p) with
        | some done => .ok done
        | none => .error failure) =
        { r.issue (.ofRemoved [gone]) (r.directory.others gone) with
          directory := ⟨front ++ back⟩ } := by
  obtain ⟨⟨entry, d'⟩, htaken, rfl⟩ := Option.map_eq_some_iff.mp h
  obtain ⟨-, front, back, hsplit, hrest⟩ := Directory.takeFirst?_split htaken
  refine ⟨front, back, hsplit, ?_⟩
  rw [htaken]
  show ({ r.issue _ _ with directory := d' } : Registry) = _
  rw [← hrest]

/-- An attempt that does not find its entry changes nothing. -/
theorem afterAttempt_of_none {r : Registry} {p : Registration → Bool} {failure : RegistryError}
    (h : (r.directory.takeFirst? p).map (·.1) = none) :
    r.afterAttempt (match r.depart (r.directory.takeFirst? p) with
      | some done => .ok done
      | none => .error failure) = r := by
  rw [Option.map_eq_none_iff.mp h]
  rfl

/-- The entry that an attempt to take one out has taken. -/
def taken? : Except RegistryError (Registry × Registration) → Option Registration
  | .ok (_, gone) => some gone
  | .error _ => none

theorem departure?_remove (r : Registry) (role : Role) (url : String) :
    r.departure? (.remove role url) = taken? (r.remove role url) := by
  rw [departure?, remove, depart]
  cases r.directory.remove? role url with
  | none => rfl
  | some taken => rfl

theorem departure?_evict (r : Registry) (stale : Registration) :
    r.departure? (.evict stale) = taken? (r.evict stale) := by
  rw [departure?, evict, depart]
  cases r.directory.evict? stale with
  | none => rfl
  | some taken => rfl

theorem departure?_of_remove {r departed : Registry} {role : Role} {url : String}
    {gone : Registration} (h : r.remove role url = .ok (departed, gone)) :
    r.departure? (.remove role url) = some gone := by
  rw [departure?_remove, h]
  rfl

theorem departure?_of_evict {r departed : Registry} {stale gone : Registration}
    (h : r.evict stale = .ok (departed, gone)) : r.departure? (.evict stale) = some gone := by
  rw [departure?_evict, h]
  rfl

/-- What is taken out of a place stood there. -/
theorem at_of_departure?_remove {r : Registry} {role : Role} {url : String} {gone : Registration}
    (h : r.departure? (.remove role url) = some gone) : gone.role = role ∧ gone.url = url := by
  obtain ⟨taken, htaken, rfl⟩ := Option.map_eq_some_iff.mp h
  exact Directory.isAt_iff.mp (Directory.takeFirst?_split htaken).1

/-- An action with a departure cuts that entry out and queues the news of it for all others. The
rest of the directory keeps its order. -/
theorem act_of_departure {r : Registry} {x : Action} {gone : Registration}
    (h : r.departure? x = some gone) :
    ∃ front back, r.directory.entries = front ++ gone :: back ∧
      r.act x = { r.issue (.ofRemoved [gone]) (r.directory.others gone) with
        directory := ⟨front ++ back⟩ } := by
  cases x with
  | remove role url => exact afterAttempt_of_taken h
  | evict stale => exact afterAttempt_of_taken h
  | _ => cases h

/-- An action with neither an arrival nor a departure leaves the directory alone. -/
theorem directory_of_still {r : Registry} {x : Action} (harr : r.arrival? x = none)
    (hdep : r.departure? x = none) : (r.act x).directory = r.directory := by
  cases x with
  | enroll reg =>
      rcases r.directory.enroll_cases r.nextId reg with ⟨kept, -, -, heq⟩ | ⟨-, heq⟩
      · simp only [act, enroll_eq, heq]
      · simp [arrival?, enroll_eq, heq] at harr
  | remove role url => exact congrArg directory (afterAttempt_of_none hdep)
  | evict stale => exact congrArg directory (afterAttempt_of_none hdep)
  | record | announce | forget => rfl

theorem arrival?_of_departure {r : Registry} {x : Action} {gone : Registration}
    (h : r.departure? x = some gone) : r.arrival? x = none := by
  cases x with
  | enroll => cases h
  | _ => rfl

/-- An action adds an entry, or takes one out, or leaves the directory as it is, and the size goes
with it. -/
theorem size_act (r : Registry) (x : Action) :
    (r.act x).directory.size + (r.departure? x).toList.length =
      r.directory.size + (r.arrival? x).toList.length := by
  cases harr : r.arrival? x with
  | some entry =>
      have hdep : r.departure? x = none := by
        cases hdep : r.departure? x with
        | none => rfl
        | some gone =>
            rw [arrival?_of_departure hdep] at harr
            cases harr
      rw [hdep, (act_of_arrival harr).2.2]
      simp [Directory.size]
  | none =>
      cases hdep : r.departure? x with
      | some gone =>
          obtain ⟨front, back, hsplit, heq⟩ := act_of_departure hdep
          rw [heq]
          simp only [Directory.size, hsplit, Option.toList_some, Option.toList_none,
            List.length_append, List.length_cons, List.length_nil]
          omega
      | none =>
          rw [directory_of_still harr hdep]

theorem news?_of_departure {r : Registry} {x : Action} {gone : Registration}
    (h : r.departure? x = some gone) :
    r.news? x = some (.ofRemoved [gone], r.directory.others gone) := by
  cases x with
  | announce => cases h
  | _ => simp only [news?, h, Option.map_some]

/-- News is of an announced entry or of a departed one. -/
theorem news?_cases {r : Registry} {x : Action} {news : Patch} {recipients : List Registration}
    (h : r.news? x = some (news, recipients)) :
    (∃ a, x = .announce a ∧ news = .ofAdded [a.entry]) ∨
      ∃ gone, r.departure? x = some gone ∧ news = .ofRemoved [gone] := by
  cases hdep : r.departure? x with
  | some gone =>
      right
      rw [news?_of_departure hdep] at h
      obtain ⟨rfl, -⟩ := Prod.mk.inj (Option.some.inj h)
      exact ⟨gone, rfl, rfl⟩
  | none =>
      left
      cases x with
      | announce a =>
          obtain ⟨rfl, -⟩ := Prod.mk.inj (Option.some.inj h)
          exact ⟨a, rfl, rfl⟩
      | _ =>
          simp only [news?, hdep] at h
          cases h

/-- What an action queues are the deliveries of its news, and it takes nothing back. -/
theorem lane_act (r : Registry) (x : Action) :
    (r.act x).lane = match r.news? x with
      | some (news, recipients) => r.lane.queue (deliveriesOf news recipients)
      | none => r.lane := by
  cases hdep : r.departure? x with
  | some gone =>
      obtain ⟨front, back, -, heq⟩ := act_of_departure hdep
      rw [heq, news?_of_departure hdep]
      rfl
  | none =>
      cases x with
      | remove role url =>
          simp only [news?, hdep, Option.map_none]
          exact congrArg lane (afterAttempt_of_none hdep)
      | evict stale =>
          simp only [news?, hdep, Option.map_none]
          exact congrArg lane (afterAttempt_of_none hdep)
      | _ => rfl

/-! ## What no action changes -/

/-- The settings and the source of identifiers never change, and admissions are never uncounted. -/
theorem act_fixed (r : Registry) (x : Action) :
    (r.act x).settings = r.settings ∧ (r.act x).supply = r.supply ∧
      r.admissions ≤ (r.act x).admissions := by
  cases hdep : r.departure? x with
  | some gone =>
      obtain ⟨front, back, -, heq⟩ := act_of_departure hdep
      rw [heq]
      exact ⟨rfl, rfl, Nat.le_refl _⟩
  | none =>
      cases x with
      | remove role url =>
          rw [show r.act (.remove role url) = r from afterAttempt_of_none hdep]
          exact ⟨rfl, rfl, Nat.le_refl _⟩
      | evict stale =>
          rw [show r.act (.evict stale) = r from afterAttempt_of_none hdep]
          exact ⟨rfl, rfl, Nat.le_refl _⟩
      | enroll reg => exact ⟨rfl, rfl, Nat.le_succ _⟩
      | _ => exact ⟨rfl, rfl, Nat.le_refl _⟩

/-- Whoever is there after an action was there before, or is its arrival. No action changes an
entry. -/
theorem mem_entries_act {r : Registry} {x : Action} {entry : Registration}
    (h : entry ∈ (r.act x).directory.entries) :
    entry ∈ r.directory.entries ∨ r.arrival? x = some entry := by
  cases harr : r.arrival? x with
  | some new =>
      rw [(act_of_arrival harr).2.2] at h
      rcases List.mem_append.mp h with hold | hnew
      · exact Or.inl hold
      · rw [List.mem_singleton.mp hnew]
        exact Or.inr rfl
  | none =>
      left
      cases hdep : r.departure? x with
      | some gone =>
          obtain ⟨front, back, hsplit, heq⟩ := act_of_departure hdep
          rw [heq] at h
          rw [hsplit]
          rcases List.mem_append.mp h with hfront | hback
          · exact List.mem_append_left _ hfront
          · exact List.mem_append_right _ (List.mem_cons_of_mem _ hback)
      | none => rwa [directory_of_still harr hdep] at h

/-- An entry that an action does not take out is still there afterwards, just as it was. -/
theorem mem_entries_act_of_mem {r : Registry} {x : Action} {entry : Registration}
    (h : entry ∈ r.directory.entries) (hdep : r.departure? x ≠ some entry) :
    entry ∈ (r.act x).directory.entries := by
  cases harr : r.arrival? x with
  | some new =>
      rw [(act_of_arrival harr).2.2]
      exact List.mem_append_left _ h
  | none =>
      cases hgone : r.departure? x with
      | some gone =>
          obtain ⟨front, back, hsplit, heq⟩ := act_of_departure hgone
          have hne : entry ≠ gone := by
            rintro rfl
            exact hdep hgone
          rw [heq]
          rw [hsplit] at h
          rcases List.mem_append.mp h with hfront | hrest
          · exact List.mem_append_left _ hfront
          · exact List.mem_append_right _ ((List.mem_cons.mp hrest).resolve_left hne)
      | none => rwa [directory_of_still harr hgone]

end Registry
end Rollcall
