import Rollcall.Proofs.Registry.Lifetime

/-!
# What is issued to an instance

The patches that a registry issues to one instance, action by action: the catch-up, when it is the
instance itself that is announced, and the instance's share of the news.
-/

namespace Rollcall

theorem Patch.scopedTo_ofAdded (recipient reg : Registration) :
    (Patch.ofAdded [reg]).scopedTo recipient =
      if recipient.dependsOn reg.role then .ofAdded [reg] else {} := by
  cases h : recipient.dependsOn reg.role <;> simp [Patch.scopedTo, Patch.ofAdded, h]

theorem Patch.scopedTo_ofRemoved (recipient reg : Registration) :
    (Patch.ofRemoved [reg]).scopedTo recipient =
      if recipient.dependsOn reg.role then .ofRemoved [reg] else {} := by
  cases h : recipient.dependsOn reg.role <;> simp [Patch.scopedTo, Patch.ofRemoved, h]

theorem filter_eq_singleton {recipients : List Registration} (hnodup : recipients.Nodup)
    {me : Registration} (hmem : me ∈ recipients) : recipients.filter (· = me) = [me] := by
  rw [List.filter_eq, List.count_eq_one_of_mem hnodup hmem]
  rfl

/-- News that concerns one role goes, as a whole, to everyone who depends on that role. -/
theorem deliveriesOf_of_scoped {news : Patch} {role : Role} (hsome : news.isEmpty = false)
    (hscoped : ∀ recipient, news.scopedTo recipient =
      if recipient.dependsOn role then news else {}) (recipients : List Registration) :
    deliveriesOf news recipients =
      (recipients.filter (·.dependsOn role)).map fun recipient => ⟨recipient.updateUrl, news⟩ := by
  have hpart : ∀ recipient : Registration,
      (if (news.scopedTo recipient).isEmpty then none
        else some (⟨recipient.updateUrl, news.scopedTo recipient⟩ : Delivery)) =
      if recipient.dependsOn role then some ⟨recipient.updateUrl, news⟩ else none := by
    intro recipient
    rw [hscoped]
    cases recipient.dependsOn role with
    | true => simp [hsome]
    | false => rfl
  simp only [deliveriesOf, hpart]
  induction recipients with
  | nil => rfl
  | cons recipient rest ih =>
      cases hasked : recipient.dependsOn role with
      | true => simp [hasked, ih]
      | false => simp [hasked, ih]

theorem deliveriesOf_ofAdded (reg : Registration) (recipients : List Registration) :
    deliveriesOf (.ofAdded [reg]) recipients = (recipients.filter (·.dependsOn reg.role)).map
      fun recipient => ⟨recipient.updateUrl, .ofAdded [reg]⟩ :=
  deliveriesOf_of_scoped rfl (fun recipient => Patch.scopedTo_ofAdded recipient reg) recipients

theorem deliveriesOf_ofRemoved (reg : Registration) (recipients : List Registration) :
    deliveriesOf (.ofRemoved [reg]) recipients = (recipients.filter (·.dependsOn reg.role)).map
      fun recipient => ⟨recipient.updateUrl, .ofRemoved [reg]⟩ :=
  deliveriesOf_of_scoped rfl (fun recipient => Patch.scopedTo_ofRemoved recipient reg) recipients

namespace Registry

theorem catchUp_announce (r : Registry) (a : Admission) :
    (r.announce a).2 = if (r.directory.catchUp a.registration).added = [] then none
      else some ⟨a.registration.updateUrl,
        .ofAdded (r.directory.catchUp a.registration).added⟩ := by
  rw [announce]
  have hform : r.directory.catchUp a.registration =
      .ofAdded (r.directory.catchUp a.registration).added := rfl
  generalize (r.directory.catchUp a.registration).added = told at hform ⊢
  rw [hform]
  cases told with
  | nil => rfl
  | cons => rfl

/-- The catch-up that an action issues to an instance, which is the one announced. -/
def catchUpTo (me : Registration) (r : Registry) : Action → List Patch
  | .announce a =>
    if a.registration.sameInstance me then (r.announce a).2.toList.map (·.patch) else []
  | _ => []

theorem catchUpTo_of_not_announce (me : Registration) (r : Registry) {x : Action}
    (hnot : ∀ a, x ≠ .announce a) : r.catchUpTo me x = [] := by
  cases x with
  | announce a => exact absurd rfl (hnot a)
  | _ => rfl

/-- The patches of an action's news that are queued for an instance. -/
def newsTo (me : Registration) (r : Registry) (x : Action) : List Patch :=
  match r.news? x with
  | some (news, recipients) => (deliveriesOf news (recipients.filter (· = me))).map (·.patch)
  | none => []

/-- The patches that a list of actions issues to an instance, in the order in which they are issued.
Nothing is said of the order in which they arrive. -/
def issuedTo (me : Registration) (r : Registry) : List Action → List Patch
  | [] => []
  | x :: xs => r.catchUpTo me x ++ r.newsTo me x ++ (r.act x).issuedTo me xs

theorem issuedTo_append (me : Registration) (r : Registry) (xs ys : List Action) :
    r.issuedTo me (xs ++ ys) = r.issuedTo me xs ++ (r.actAll xs).issuedTo me ys := by
  induction xs generalizing r with
  | nil => rfl
  | cons x xs ih => simp only [List.cons_append, issuedTo, ih, actAll_cons, List.append_assoc]

/-- What is queued for a recipient is its part of the news, and not nothing. -/
theorem mem_newsTo {me : Registration} {r : Registry} {x : Action} {p : Patch}
    (h : p ∈ r.newsTo me x) : ∃ news recipients, r.news? x = some (news, recipients) ∧
      p = news.scopedTo me ∧ p.isEmpty = false := by
  simp only [newsTo] at h
  split at h
  · next news recipients hnews =>
    obtain ⟨d, hd, rfl⟩ := List.mem_map.mp h
    obtain ⟨recipient, hrecipient, hpart⟩ := List.mem_filterMap.mp hd
    obtain rfl : recipient = me := of_decide_eq_true (List.mem_filter.mp hrecipient).2
    dsimp only at hpart
    split at hpart
    · cases hpart
    · next hsome =>
      obtain rfl := Option.some.inj hpart
      exact ⟨news, recipients, hnews, rfl, Bool.eq_false_of_not_eq_true hsome⟩
  · cases h

/-- The patches of an action: a catch-up, the news of an announcement, or that of a departure. -/
theorem mem_issuedTo_cases {me : Registration} {r : Registry} {x : Action} {p : Patch}
    (h : p ∈ r.issuedTo me [x]) :
    (∃ a, x = .announce a ∧ p = r.directory.catchUp a.registration) ∨
    (∃ a, x = .announce a ∧ p = .ofAdded [a.entry]) ∨
    ∃ gone, r.departure? x = some gone ∧ p = .ofRemoved [gone] := by
  simp only [issuedTo, List.append_nil] at h
  rcases List.mem_append.mp h with hcatchUp | hnews
  · left
    cases x with
    | announce a =>
        simp only [catchUpTo, announce] at hcatchUp
        split at hcatchUp
        · split at hcatchUp
          · cases hcatchUp
          · exact ⟨a, rfl, List.mem_singleton.mp hcatchUp⟩
        · cases hcatchUp
    | _ => cases hcatchUp
  · right
    obtain ⟨news, recipients, hx, rfl, hsome⟩ := mem_newsTo hnews
    rcases news?_cases hx with ⟨a, rfl, rfl⟩ | ⟨gone, hdep, rfl⟩
    · left
      rw [Patch.scopedTo_ofAdded] at hsome ⊢
      split at hsome
      · next hasked => exact ⟨a, rfl, if_pos hasked⟩
      · cases hsome
    · right
      rw [Patch.scopedTo_ofRemoved] at hsome ⊢
      split at hsome
      · next hasked => exact ⟨gone, hdep, if_pos hasked⟩
      · cases hsome

/-- News reaches a recipient once, in the part that concerns it, if any does. -/
theorem newsTo_of_mem {me : Registration} {r : Registry} {x : Action} {news : Patch}
    {recipients : List Registration} (hnews : r.news? x = some (news, recipients))
    (hnodup : recipients.Nodup) (hmem : me ∈ recipients) :
    r.newsTo me x = if (news.scopedTo me).isEmpty then [] else [news.scopedTo me] := by
  simp only [newsTo, hnews, filter_eq_singleton hnodup hmem, deliveriesOf, List.filterMap_cons,
    List.filterMap_nil]
  cases (news.scopedTo me).isEmpty
  · rfl
  · rfl

theorem newsTo_of_not_mem {me : Registration} {r : Registry} {x : Action} {news : Patch}
    {recipients : List Registration} (hnews : r.news? x = some (news, recipients))
    (hnot : me ∉ recipients) : r.newsTo me x = [] := by
  have hnone : recipients.filter (· = me) = [] := by
    refine List.filter_eq_nil_iff.mpr fun entry hentry heq => hnot ?_
    rw [← of_decide_eq_true heq]
    exact hentry
  simp only [newsTo, hnews, hnone]
  rfl

namespace Coherent

variable {r : Registry} {me : Registration}

/-- Everyone in the directory but the instance itself hears of what an announcement adds, if it
depends on the role. -/
theorem newsTo_announce (h : r.Coherent) (hme : me ∈ r.directory.entries) (a : Admission) :
    r.newsTo me (.announce a) =
      if me.sameInstance a.entry = false ∧ me.dependsOn a.entry.role = true
      then [.ofAdded [a.entry]] else [] := by
  by_cases hother : me.sameInstance a.entry = false
  · rw [newsTo_of_mem rfl (h.sound.nodup.filter _) (Directory.mem_others.mpr ⟨hme, hother⟩),
      Patch.scopedTo_ofAdded]
    cases hdep : me.dependsOn a.entry.role
    · simp [hother, Patch.isEmpty]
    · simp [hother, Patch.isEmpty, Patch.ofAdded]
  · rw [newsTo_of_not_mem rfl (mt (fun hm => (Directory.mem_others.mp hm).2) hother), if_neg]
    exact fun hboth => hother hboth.1

/-- Everyone in the directory but the instance itself hears of a departure, if it depends on the
role. -/
theorem newsTo_departure (h : r.Coherent) (hme : me ∈ r.directory.entries) {x : Action}
    {gone : Registration} (hdep : r.departure? x = some gone) (hne : me ≠ gone) :
    r.newsTo me x = if me.dependsOn gone.role = true then [.ofRemoved [gone]] else [] := by
  have hgone := (h.entries_of_departure hdep).1
  rw [newsTo_of_mem (news?_of_departure hdep) (h.sound.nodup.filter _)
    ((h.sound.mem_others hgone).mpr ⟨hme, hne⟩), Patch.scopedTo_ofRemoved]
  cases hasked : me.dependsOn gone.role
  · simp [Patch.isEmpty]
  · simp [Patch.isEmpty, Patch.ofRemoved]

end Coherent

/-- Without a departure only announcements have news. -/
theorem newsTo_of_still {me : Registration} {r : Registry} {x : Action}
    (hdep : r.departure? x = none) (hnot : ∀ a, x ≠ .announce a) : r.newsTo me x = [] := by
  cases hnews : r.news? x with
  | none => simp only [newsTo, hnews]
  | some told =>
      rcases news?_cases hnews with ⟨a, rfl, -⟩ | ⟨gone, hgone, -⟩
      · exact absurd rfl (hnot a)
      · rw [hdep] at hgone
        cases hgone

end Registry
end Rollcall
