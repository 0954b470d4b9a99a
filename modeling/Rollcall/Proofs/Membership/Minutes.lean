import Rollcall.Proofs.Membership.Call

/-!
# The minutes of a member and its registry

What a member asks of its registry and what it hears is put down in order, together with every change
of its cache: an inquiry, its answer, the forgetting of all providers, a patch.

Patches aside, what comes next depends on nothing but what came last, `Remark.Follows`:

    nothing yet ───▶ asks to register ◀──── cleared ◀──── heartbeat: unauthorized
                       │          ▲
                       ▼          │
                   acknowledged   failed
                       │
                       ▼
                   heartbeat ◀──── heartbeat: answered otherwise

This file is about minutes that are kept like this, `Minutes.Kept`: which identifier a heartbeat
carries, what comes before an attempt to register, and what comes after a heartbeat in trouble.
-/

namespace Rollcall

/-- Something that is put down: what is said, and what changes the member's cache. Steps that do
neither leave no trace. -/
inductive Remark where
  | asked (inquiry : Inquiry)
  | answered (inquiry : Inquiry) (answer : Except MemberError InstanceId)
  /-- The member forgets all providers. -/
  | cleared
  | patched (p : Patch)

namespace Remark

/-- Whether something is said to the registry or by it. -/
def isSaid : Remark → Bool
  | asked _ | answered .. => true
  | _ => false

/-- Whether something is not a patch. Patches come at any time and have no part in the protocol. -/
def isMark : Remark → Bool
  | patched _ => false
  | _ => true

def issued? : Remark → Option InstanceId
  | answered (.register _) (.ok id) => some id
  | _ => none

def concerns? : Remark → Option InstanceId
  | asked (.heartbeat id) | answered (.heartbeat id) _ => some id
  | answered (.register _) (.ok id) => some id
  | _ => none

def change (c : ProviderCache) : Remark → ProviderCache
  | cleared => c.clear
  | patched p => c.apply p
  | _ => c

end Remark

/-- What has been put down, in order. -/
abbrev Minutes := List Remark

namespace Minutes

/-- What came first, patches aside. -/
def firstMark? (log : Minutes) : Option Remark := log.find? Remark.isMark

/-- What came last, patches aside. -/
def lastMark? (log : Minutes) : Option Remark := (log.filter Remark.isMark).getLast?

/-- What was said last. -/
def lastSaid? (log : Minutes) : Option Remark := (log.filter Remark.isSaid).getLast?

/-- The identifier of the latest acknowledgement, which is the one that heartbeats have to carry. -/
def latestId? (log : Minutes) : Option InstanceId := (log.filterMap Remark.issued?).getLast?

/-- The cache that has been cleared and patched like this, in this order. -/
def cache (log : Minutes) : ProviderCache := log.foldl Remark.change {}

variable (log : Minutes) (e : Remark)

theorem getLast?_filter_concat (p : Remark → Bool) :
    ((log ++ [e]).filter p).getLast? = if p e then some e else (log.filter p).getLast? := by
  rw [List.filter_append]
  by_cases h : p e
  · rw [List.filter_cons_of_pos h, List.filter_nil, List.getLast?_concat, if_pos h]
  · rw [List.filter_cons_of_neg h, List.filter_nil, List.append_nil, if_neg h]

theorem lastMark?_concat :
    lastMark? (log ++ [e]) = if e.isMark then some e else lastMark? log :=
  getLast?_filter_concat log e _

theorem lastSaid?_concat :
    lastSaid? (log ++ [e]) = if e.isSaid then some e else lastSaid? log :=
  getLast?_filter_concat log e _

theorem lastMark?_append_cons {e : Remark} (he : e.isMark = true) {back : Minutes}
    (hback : ∀ x ∈ back, x.isMark = false) : lastMark? (log ++ e :: back) = some e := by
  have hnone : back.filter Remark.isMark = [] := by
    refine List.filter_eq_nil_iff.mpr fun x hx => ?_
    simp [hback x hx]
  unfold lastMark?
  rw [List.filter_append, List.filter_cons_of_pos he, hnone, List.getLast?_concat]

theorem latestId?_concat : latestId? (log ++ [e]) = e.issued?.or (latestId? log) := by
  unfold latestId?
  rw [List.filterMap_append]
  cases h : e.issued? with
  | none => simp [h]
  | some id => simp [h]

theorem cache_concat : cache (log ++ [e]) = e.change (cache log) := by
  simp only [cache, List.foldl_append, List.foldl_cons, List.foldl_nil]

end Minutes

/-! ## The protocol -/

/-- What may come next, patches aside, by what came last: the protocol as a relation between two
remarks. -/
inductive Remark.Follows (reg : Registration) : Option Remark → Remark → Prop
  | begin : Follows reg none (.asked (.register reg))
  | answer (inquiry : Inquiry) (answer : Except MemberError InstanceId) :
    Follows reg (some (.asked inquiry)) (.answered inquiry answer)
  | retry (e : MemberError) :
    Follows reg (some (.answered (.register reg) (.error e))) (.asked (.register reg))
  | beat (id : InstanceId) :
    Follows reg (some (.answered (.register reg) (.ok id))) (.asked (.heartbeat id))
  | beatAgain (id any : InstanceId) :
    Follows reg (some (.answered (.heartbeat id) (.ok any))) (.asked (.heartbeat id))
  | beatDespite (id : InstanceId) (e : MemberError) (hknown : e ≠ .unauthorized)
    (hgoes : e ≠ .cancelled) :
    Follows reg (some (.answered (.heartbeat id) (.error e))) (.asked (.heartbeat id))
  | clear (id : InstanceId) :
    Follows reg (some (.answered (.heartbeat id) (.error .unauthorized))) .cleared
  | again : Follows reg (some .cleared) (.asked (.register reg))

namespace Minutes

open Remark (Follows)

/-- Minutes of which each remark follows from those before it. -/
inductive Kept (reg : Registration) : Minutes → Prop
  | nil : Kept reg []
  | mark {log : Minutes} {e : Remark} (h : Kept reg log) (he : Follows reg log.lastMark? e) :
    Kept reg (log ++ [e])
  | patch {log : Minutes} (h : Kept reg log) (p : Patch) : Kept reg (log ++ [.patched p])

variable {reg : Registration} {log front back : Minutes} {e : Remark} {id : InstanceId}

theorem isMark_of_follows {last? : Option Remark} (h : Follows reg last? e) : e.isMark = true := by
  cases h with
  | _ => rfl

theorem Kept.split (h : Kept reg (front ++ e :: back)) :
    Kept reg front ∧ (e.isMark = true → Follows reg front.lastMark? e) := by
  generalize hlog : front ++ e :: back = log at h
  induction h generalizing back with
  | nil => exact absurd hlog (by simp)
  | @mark log last h he ih =>
      rcases List.eq_nil_or_concat back with rfl | ⟨back, x, rfl⟩
      · obtain ⟨rfl, rfl⟩ := List.append_singleton_inj.mp hlog
        exact ⟨h, fun _ => he⟩
      · rw [List.concat_eq_append, ← List.cons_append, ← List.append_assoc] at hlog
        exact ih (List.append_singleton_inj.mp hlog).1
  | @patch log h p ih =>
      rcases List.eq_nil_or_concat back with rfl | ⟨back, x, rfl⟩
      · obtain ⟨rfl, rfl⟩ := List.append_singleton_inj.mp hlog
        exact ⟨h, nofun⟩
      · rw [List.concat_eq_append, ← List.cons_append, ← List.append_assoc] at hlog
        exact ih (List.append_singleton_inj.mp hlog).1

/-- What comes after a mark, patches aside, follows from it. -/
theorem Kept.follows (h : Kept reg (front ++ e :: back)) (he : e.isMark = true) {x : Remark}
    (hx : back.firstMark? = some x) : Follows reg (some e) x := by
  obtain ⟨hmark, mid, rest, rfl, hmid⟩ := List.find?_eq_some_iff_append.mp hx
  rw [← List.cons_append, ← List.append_assoc] at h
  have hfollows := h.split.2 hmark
  rwa [lastMark?_append_cons front he fun y hy => by simpa using hmid y hy] at hfollows

/-- A member that forgets its providers says nothing with it: before, it was told that the registry
has lost track of it. -/
theorem Kept.lastSaid (h : Kept reg log) :
    (log.lastMark? = some .cleared ∧
      ∃ id, log.lastSaid? = some (.answered (.heartbeat id) (.error .unauthorized))) ∨
    (log.lastMark? ≠ some .cleared ∧ log.lastSaid? = log.lastMark?) := by
  induction h with
  | nil => exact Or.inr ⟨nofun, rfl⟩
  | @mark log x h hx ih =>
      rw [lastMark?_concat, lastSaid?_concat]
      generalize hlast : log.lastMark? = last? at hx ih
      cases hx with
      | clear id =>
          rcases ih with ⟨hcleared, -⟩ | ⟨-, ih⟩
          · cases hcleared
          · exact Or.inl ⟨rfl, id, ih⟩
      | _ => exact Or.inr ⟨nofun, rfl⟩
  | @patch log p h ih =>
      rw [lastMark?_concat, lastSaid?_concat]
      exact ih

/-- Heartbeats, and the answers to them, are about the identifier that was acknowledged last. -/
theorem Kept.latest (h : Kept reg log) (he : log.lastMark? = some e)
    (hid : e.concerns? = some id) : log.latestId? = some id := by
  induction h generalizing e with
  | nil => cases he
  | @mark log x h hx ih =>
      rw [lastMark?_concat, if_pos (isMark_of_follows hx)] at he
      obtain rfl := Option.some.inj he
      rw [latestId?_concat]
      generalize hlast : log.lastMark? = last? at hx
      -- The last identifier given is that of the last registration answered, and every heartbeat
      -- after it repeats the one before.
      cases hx with
      | begin | retry | clear | again => cases hid
      | beat | beatAgain | beatDespite => exact ih hlast hid
      | answer inquiry answer =>
          cases inquiry with
          | deregister role url => cases hid
          | heartbeat id => exact ih hlast hid
          | register reg =>
              cases answer with
              | error e => cases hid
              | ok id => exact hid
  | @patch log p h ih =>
      rw [lastMark?_concat] at he
      rw [latestId?_concat]
      exact ih he hid

/-- The registry has lost track of the member and has not acknowledged it since. Until it does there
are no heartbeats. -/
def Lost (reg : Registration) : Option Remark → Prop
  | some (.answered (.heartbeat _) (.error e)) => e = .unauthorized
  | some (.answered (.register _) (.error _)) => True
  | some .cleared => True
  | some (.asked inquiry) => inquiry = .register reg
  | _ => False

/-- It stays so until a registration is acknowledged. -/
theorem lost_of_follows {last? : Option Remark} (h : Lost reg last?) (he : Follows reg last? e)
    (hissued : e.issued? = none) : Lost reg (some e) := by
  cases he with
  | begin | beat | beatAgain => exact h.elim
  | beatDespite id e hknown => exact (hknown h).elim
  | retry | clear | again => constructor
  | answer inquiry answer =>
      obtain rfl : inquiry = .register reg := h
      cases answer with
      | ok id => cases hissued
      | error e => constructor

theorem Kept.lost (h : Kept reg (front ++ back)) (hfront : Lost reg front.lastMark?)
    (hback : ∀ x ∈ back, x.issued? = none) : Lost reg (front ++ back).lastMark? := by
  induction back generalizing front with
  | nil => rwa [List.append_nil]
  | cons x back ih =>
      have hx : Lost reg (lastMark? (front ++ [x])) := by
        rw [lastMark?_concat]
        split
        · next hmark => exact lost_of_follows hfront (h.split.2 hmark) (hback x List.mem_cons_self)
        · exact hfront
      rw [List.append_cons] at h ⊢
      exact ih h hx fun y hy => hback y (List.mem_cons_of_mem x hy)

/-- After a heartbeat that the registry does not recognise, there is no other one before a
registration has been acknowledged. -/
theorem Kept.acknowledged_between {mid : Minutes} {id' : InstanceId}
    (h : Kept reg (front ++ .answered (.heartbeat id) (.error .unauthorized) :: mid ++
      .asked (.heartbeat id') :: back)) :
    ∃ x ∈ mid, x.issued?.isSome = true := by
  obtain ⟨hbefore, hfollows⟩ := h.split
  apply Classical.byContradiction
  intro hnone
  rw [List.append_cons] at hbefore hfollows
  have hlost : Lost reg (lastMark? (front ++ [.answered (.heartbeat id) (.error .unauthorized)])) := by
    rw [lastMark?_concat]
    rfl
  have hstill := hbefore.lost hlost fun x hx => by
    simpa using fun hissued => hnone ⟨x, hx, hissued⟩
  cases lost_of_follows hstill (hfollows rfl) rfl

/-- Every heartbeat carries the identifier that was acknowledged last. -/
theorem Kept.heartbeat (h : Kept reg (front ++ .asked (.heartbeat id) :: back)) :
    front.latestId? = some id := by
  obtain ⟨hfront, hfollows⟩ := h.split
  have hlatest := (hfront.mark (hfollows rfl)).latest (by rw [lastMark?_concat]; rfl) rfl
  rwa [latestId?_concat] at hlatest

/-- What comes before an attempt to register: nothing, an attempt that failed, or that the registry
has lost track of the member and all providers have been forgotten. -/
theorem Kept.register {r : Registration} (h : Kept reg (front ++ .asked (.register r) :: back)) :
    r = reg ∧ (front.lastSaid? = none ∨
      (∃ e, front.lastSaid? = some (.answered (.register reg) (.error e))) ∨
      front.lastMark? = some .cleared ∧
        ∃ id, front.lastSaid? = some (.answered (.heartbeat id) (.error .unauthorized))) := by
  obtain ⟨hfront, hfollows⟩ := h.split
  have hsaid := hfront.lastSaid
  have hnext := hfollows rfl
  generalize hlast : front.lastMark? = last? at hnext hsaid
  cases hnext with
  | begin =>
      rcases hsaid with ⟨hcleared, -⟩ | ⟨-, hsaid⟩
      · cases hcleared
      · exact ⟨rfl, Or.inl hsaid⟩
  | retry e =>
      rcases hsaid with ⟨hcleared, -⟩ | ⟨-, hsaid⟩
      · cases hcleared
      · exact ⟨rfl, Or.inr (Or.inl ⟨e, hsaid⟩)⟩
  | again =>
      rcases hsaid with hsaid | ⟨hcleared, -⟩
      · exact ⟨rfl, Or.inr (Or.inr hsaid)⟩
      · exact absurd rfl hcleared

/-- What comes before the providers are forgotten. -/
theorem Kept.cleared (h : Kept reg (front ++ .cleared :: back)) :
    ∃ id, front.lastMark? = some (.answered (.heartbeat id) (.error .unauthorized)) := by
  have hfollows := h.split.2 rfl
  generalize front.lastMark? = last? at hfollows
  cases hfollows with
  | clear id => exact ⟨id, rfl⟩

/-- What comes first after a heartbeat that the registry does not recognise: everything is
forgotten. -/
theorem Kept.unrecognised
    (h : Kept reg (front ++ .answered (.heartbeat id) (.error .unauthorized) :: back))
    (he : back.firstMark? = some e) : e = .cleared := by
  cases h.follows rfl he with
  | beatDespite _ _ hknown => exact absurd rfl hknown
  | clear => rfl

/-- What comes first after a heartbeat that failed in any other way: the next heartbeat, under the
same identifier. -/
theorem Kept.troubled {trouble : MemberError}
    (h : Kept reg (front ++ .answered (.heartbeat id) (.error trouble) :: back))
    (hknown : trouble ≠ .unauthorized) (he : back.firstMark? = some e) :
    trouble ≠ .cancelled ∧ e = .asked (.heartbeat id) := by
  cases h.follows rfl he with
  | beatDespite _ _ _ hgoes => exact ⟨hgoes, rfl⟩
  | clear => exact absurd rfl hknown

end Minutes
end Rollcall
