import Rollcall.Proofs.Registry.Course
import Rollcall.Proofs.Registry.Issued

/-!
# Whom a delivery is for

A delivery is meant for somebody: a catch-up for the registrant who has submitted a registration,
the news of a fan-out for an instance that the directory holds. It suits them, `Delivery.Suits`, if
it tells of others only, and only of roles that they have asked for, and goes where they want it.

That there is a place to send it to is checked when a registration comes, and so it has to be known
of everything that is on its way or in the directory, `Traffic.Valid`.

* `Registry.suits_of_catchUp`, `Registry.suits_of_news` — all that a registry delivers suits those
  whom it is for, as long as what it holds is valid;
* `Docket.valid_run` — and it is, whenever a call takes a step; the same goes for everything else that
  holds of all that is submitted, whatever the identifier, `Docket.bears_run`.
-/

namespace Rollcall

/-- A delivery suits a registration: it goes to its update address, and tells of other instances
that have come, or of other instances that have gone, in roles that the registration depends on. -/
structure Delivery.Suits (d : Delivery) (reg : Registration) : Prop where
  target : d.target = reg.updateUrl
  given : Text.isBlankText d.target = false
  news : d.patch.isEmpty = false
  oneWay : d.patch.added = [] ∨ d.patch.removed = []
  asked : ∀ other ∈ d.patch.added ++ d.patch.removed, reg.dependsOn other.role = true
  others : ∀ other ∈ d.patch.added ++ d.patch.removed, other.sameInstance reg = false

/-- Who depends on any role has a place to send the news to. -/
theorem Registration.updateUrl_of_validate {reg : Registration} (h : reg.validate = .ok ())
    {r : Role} (hdep : reg.dependsOn r = true) : Text.isBlankText reg.updateUrl = false := by
  have hsome : reg.requires.isEmpty = false := by
    rw [RoleSet.isEmpty, List.isEmpty_eq_false_iff]
    exact List.ne_nil_of_mem (List.contains_iff_mem.mp hdep)
  rw [validate, hsome] at h
  cases hblank : Text.isBlankText reg.updateUrl with
  | false => rfl
  | true =>
      rw [hblank] at h
      split at h
      · cases h
      · split at h
        · cases h
        · cases h

/-- With valid registrations the place of delivery need not be looked at: whoever depends on any
role has one. -/
theorem Delivery.suits_of_valid {reg : Registration} (hvalid : reg.validate = .ok ()) {p : Patch}
    (hnews : p.isEmpty = false) (honeWay : p.added = [] ∨ p.removed = [])
    (hasked : ∀ other ∈ p.added ++ p.removed, reg.dependsOn other.role = true)
    (hothers : ∀ other ∈ p.added ++ p.removed, other.sameInstance reg = false) :
    Delivery.Suits ⟨reg.updateUrl, p⟩ reg := by
  refine ⟨rfl, ?_, hnews, honeWay, hasked, hothers⟩
  have hsome : p.added ++ p.removed ≠ [] := by
    intro hnone
    obtain ⟨hadded, hremoved⟩ := List.append_eq_nil_iff.mp hnone
    rw [Patch.isEmpty, hadded, hremoved] at hnews
    cases hnews
  obtain ⟨other, hother⟩ := List.exists_mem_of_ne_nil _ hsome
  exact Registration.updateUrl_of_validate hvalid (hasked other hother)

namespace Registry

variable {r : Registry}

theorem suits_of_catchUp {a : Admission} (hvalid : a.registration.validate = .ok ())
    {d : Delivery} (h : (r.announce a).2 = some d) : d.Suits a.registration := by
  simp only [announce, Option.ite_none_left_eq_some, Option.some.injEq] at h
  obtain ⟨hsome, rfl⟩ := h
  refine Delivery.suits_of_valid hvalid (Bool.eq_false_of_not_eq_true hsome) (Or.inr rfl) ?_ ?_
  all_goals
    intro other hother
    rw [Directory.catchUp, Patch.ofAdded, List.append_nil] at hother
    obtain ⟨hmem, hne⟩ := List.mem_filter.mp hother
  · obtain ⟨role, hrole, hplays⟩ := List.mem_flatMap.mp hmem
    obtain rfl := of_decide_eq_true (List.mem_filter.mp hplays).2
    exact List.contains_iff_mem.mpr hrole
  · exact Bool.eq_false_of_not_eq_true' hne

/-- News is of one instance, and for others only. Nobody is told of its own coming or going. -/
theorem recipients_of_news {x : Action} {news : Patch} {recipients : List Registration}
    (h : r.news? x = some (news, recipients)) : ∃ subject, recipients = r.directory.others subject ∧
      (news = .ofAdded [subject] ∨ news = .ofRemoved [subject]) := by
  rcases news?_cases h with ⟨a, rfl, rfl⟩ | ⟨gone, hgone, rfl⟩
  · obtain ⟨-, rfl⟩ := Prod.mk.inj (Option.some.inj h)
    exact ⟨a.entry, rfl, Or.inl rfl⟩
  · rw [news?_of_departure hgone] at h
    obtain ⟨-, rfl⟩ := Prod.mk.inj (Option.some.inj h)
    exact ⟨gone, rfl, Or.inr rfl⟩

/-- Whoever is sent a part of such news is sent all of it, having asked for the role. -/
theorem scopedTo_of_news {news : Patch} {subject recipient : Registration}
    (hnews : news = .ofAdded [subject] ∨ news = .ofRemoved [subject])
    (hsome : (news.scopedTo recipient).isEmpty = false) :
    recipient.dependsOn subject.role = true ∧ news.scopedTo recipient = news := by
  rcases hnews with rfl | rfl
  · rw [Patch.scopedTo_ofAdded] at hsome ⊢
    split at hsome
    · next hasked => exact ⟨hasked, if_pos hasked⟩
    · cases hsome
  · rw [Patch.scopedTo_ofRemoved] at hsome ⊢
    split at hsome
    · next hasked => exact ⟨hasked, if_pos hasked⟩
    · cases hsome

theorem suits_of_news (hvalid : ∀ entry ∈ r.directory.entries, entry.validate = .ok ())
    {x : Action} {news : Patch} {recipients : List Registration}
    (h : r.news? x = some (news, recipients)) {d : Delivery}
    (hd : d ∈ deliveriesOf news recipients) : ∃ entry ∈ r.directory.entries,
      entry ∈ recipients ∧ d = ⟨entry.updateUrl, news.scopedTo entry⟩ ∧ d.Suits entry := by
  obtain ⟨subject, rfl, hnews⟩ := recipients_of_news h
  obtain ⟨entry, hentry, hpart⟩ := List.mem_filterMap.mp hd
  obtain ⟨hthere, hother⟩ := Directory.mem_others.mp hentry
  simp only [Option.ite_none_left_eq_some, Option.some.injEq] at hpart
  obtain ⟨hsome, rfl⟩ := hpart
  have hsome := Bool.eq_false_of_not_eq_true hsome
  obtain ⟨hasked, hpart⟩ := scopedTo_of_news hnews hsome
  have hone : ∀ other ∈ news.added ++ news.removed, other = subject := by
    rcases hnews with rfl | rfl
    · exact fun other hother => List.mem_singleton.mp hother
    · exact fun other hother => List.mem_singleton.mp hother
  refine ⟨entry, hthere, hentry, rfl, ?_⟩
  rw [hpart] at hsome ⊢
  refine Delivery.suits_of_valid (hvalid entry hthere) hsome ?_ (fun other h => ?_)
    fun other h => ?_
  · exact hnews.symm.imp (congrArg Patch.added) (congrArg Patch.removed)
  · rw [hone other h]
    exact hasked
  · rw [hone other h, Registration.sameInstance_comm]
    exact hother

end Registry

/-! ## What is valid -/

/-- The registration that an errand submits, or has submitted and has yet to announce. -/
def Errand.submission? : Errand → Option Registration
  | enroll reg => some reg
  | record a | announce a => some a.registration
  | _ => none

/-- A move submits a registration: somebody comes with it, and it is complete. What is incomplete is
refused before it becomes an errand. -/
def Traffic.Move.Submits (m : Traffic.Move) (reg : Registration) : Prop :=
  m = .visit (.register reg) ∧ reg.validate = .ok ()

namespace Traffic

/-- Whether a property of registrations holds of everything in the directory, and of everything that
calls have submitted or have still to announce. -/
structure Bears (P : Registration → Prop) (t : Traffic) : Prop where
  entries : ∀ entry ∈ t.registry.directory.entries, P entry
  errands : ∀ e ∈ t.errands, ∀ reg, e.submission? = some reg → P reg
  admitted : ∀ e ∈ t.errands, ∀ a, e.unannounced? = some a → P a.entry

structure Valid (t : Traffic) : Prop where
  entries : ∀ entry ∈ t.registry.directory.entries, entry.validate = .ok ()
  errands : ∀ e ∈ t.errands, ∀ reg, e.submission? = some reg → reg.validate = .ok ()

variable {P : Registration → Prop}

theorem Bears.start (settings : RegistrySettings) (supply : IdSupply) (clock : Instant) :
    Bears P ⟨.empty settings supply, clock, []⟩ :=
  ⟨fun _ h => absurd h List.not_mem_nil, fun _ h => absurd h List.not_mem_nil,
    fun _ h => absurd h List.not_mem_nil⟩

/-- A call that comes with a registration submits it. -/
theorem submits_of_visit {v : Visit} {e : Errand} (h : v.errand? = some e) {reg : Registration}
    (hreg : e.submission? = some reg) : Move.Submits (.visit v) reg := by
  cases v with
  | register submitted =>
      simp only [Visit.errand?] at h
      split at h
      · next hvalid =>
        obtain rfl := Option.some.inj h
        obtain rfl := Option.some.inj hreg
        exact ⟨rfl, hvalid⟩
      · cases h
  | _ =>
      obtain rfl := Option.some.inj h
      cases hreg

/-- What an errand has submitted stays what it is, but for the identifier that it is given. So a
property that does not look at identifiers passes from what is submitted to what is told. -/
theorem bears_next (hid : ∀ reg id, P reg → P { reg with id := id }) {r : Registry}
    {clock : Instant} {e e' : Errand} (h : ∀ reg, e.submission? = some reg → P reg)
    (hnext : (e.next r clock).2 = some e') {reg : Registration}
    (hreg : e'.submission? = some reg) : P reg := by
  obtain ⟨x?, -, hstep⟩ := Errand.advances_of_rest hnext
  cases hstep with
  | enroll submitted =>
      obtain rfl := Option.some.inj hreg
      rw [Registry.registration_enroll]
      exact hid submitted _ (h submitted rfl)
  | record a => exact h reg hreg
  | _ => cases hreg

theorem Bears.entries_move (hid : ∀ reg id, P reg → P { reg with id := id }) {t : Traffic}
    (h : t.Bears P) (m : Move) : ∀ entry ∈ (t.move m).registry.directory.entries, P entry := by
  intro entry hentry
  rw [registry_move] at hentry
  cases haction : t.action? m with
  | none =>
      rw [haction] at hentry
      exact h.entries entry hentry
  | some x =>
      rw [haction] at hentry
      rcases Registry.mem_entries_act hentry with hold | harrival
      · exact h.entries entry hold
      · cases x with
        | enroll reg =>
            simp only [Registry.arrival?, Option.ite_none_right_eq_some,
              Option.some.injEq] at harrival
            -- The new entry is what was submitted, but for the identifier, which the property
            -- passes over.
            obtain ⟨hinserted, rfl⟩ := harrival
            rw [Registry.enroll_of_inserted hinserted]
            obtain ⟨e, he, hnext, -⟩ := errand_of_action haction
            obtain rfl := (next_opening hnext).1 reg rfl
            exact hid reg _ (h.errands _ he reg rfl)
        | _ => cases harrival

theorem Bears.errands_move (hid : ∀ reg id, P reg → P { reg with id := id }) {t : Traffic}
    (h : t.Bears P) {m : Move} (hm : ∀ reg, m.Submits reg → P reg) :
    ∀ e ∈ (t.move m).errands, ∀ reg, e.submission? = some reg → P reg := by
  intro e he reg hreg
  rcases mem_errands_move he with hold | ⟨v, rfl, hnew⟩ | ⟨moved, hmem, -, hnext⟩
  · exact h.errands e hold reg hreg
  · exact hm reg (submits_of_visit hnew hreg)
  · exact bears_next hid (h.errands moved hmem) hnext hreg

/-- A property that does not hang on the identifier goes on to hold of everything, as long as it holds
of what is submitted. -/
theorem Bears.move (hid : ∀ reg id, P reg → P { reg with id := id }) {t : Traffic} (h : t.Bears P)
    {m : Move} (hm : ∀ reg, m.Submits reg → P reg) : (t.move m).Bears P := by
  refine ⟨h.entries_move hid m, h.errands_move hid hm, fun e he a ha => ?_⟩
  rcases unannounced_move he ha with ⟨earlier, hearlier, hheld⟩ | ⟨reg, haction, rfl⟩
  · exact h.admitted earlier hearlier a hheld
  · exact h.entries_move hid m _ (mem_move_of_enroll haction)

end Traffic

namespace Docket

variable {P : Registration → Prop}

/-- What holds of everything that is submitted in a run holds, whenever a call takes a step, of
everything that the registry and its calls hold. -/
theorem bears_run (hid : ∀ reg id, P reg → P { reg with id := id }) (settings : RegistrySettings)
    (supply : IdSupply) (clock : Instant) {moves : List Traffic.Move}
    (hsubmitted : ∀ m ∈ moves, ∀ reg, m.Submits reg → P reg) :
    ∀ s ∈ ((start settings supply clock).run moves).log, Met (Traffic.Bears P) s :=
  met_run_of_mem (fun m hm _ h => h.move hid (hsubmitted m hm)) (.start settings supply clock)
    (fun _ hs => absurd hs List.not_mem_nil)

theorem valid_run (settings : RegistrySettings) (supply : IdSupply) (clock : Instant)
    (moves : List Traffic.Move) :
    ∀ s ∈ ((start settings supply clock).run moves).log, Met Traffic.Valid s := by
  intro s hs
  have hbears := bears_run (P := fun reg => reg.validate = .ok ()) (fun reg id h => h) settings
    supply clock (fun m _ reg h => h.2) s hs
  obtain ⟨t, ht, hmet⟩ := hbears
  exact ⟨t, ⟨ht.entries, ht.errands⟩, hmet⟩

end Docket
end Rollcall
