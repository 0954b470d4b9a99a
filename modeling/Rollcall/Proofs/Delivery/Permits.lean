import Mathlib.Data.List.Basic
import Mathlib.Data.List.Perm.Basic
import Rollcall.Delivery.FanOut

/-!
# Dispatchers and permits

The fan-outs that share a stock of permits, read by how far a delivery has come:

    asking lane      dispatchers about to ask for a permit
    lane.line        dispatchers that have asked, and wait, first come first served
    granted lane     dispatchers that have waited and been given a permit
    sends lane       deliveries that have their permit and are about to start

A delivery goes through these in order, or from the first to the last at once if a permit is free.
Two invariants carry everything that is said about permits later on. `Balanced`: no permit is ever
lost or made, and nobody waits while one is free. `Served`: permits are given in the order in which
they are asked for, so those who have asked and not been served are exactly the line.

What the dispatchers have not asked for yet, `unasked`, is the other half of the account: `shift`
says that a step takes from it what it asks for, and nothing else.
-/

namespace Rollcall

namespace Turn

variable {δ : Type}

def ask? : Turn δ → Option (Dispatcher δ)
  | .ask x => some x
  | _ => none

def grant? : Turn δ → Option (Dispatcher δ)
  | .grant x => some x
  | _ => none

def send? : Turn δ → Option δ
  | .send d => some d
  | _ => none

def permits : Turn δ → Nat
  | .ask _ => 0
  | .grant _ => 1
  | .send _ => 1

end Turn

/-- What is left of a fan-out, unless nothing is. -/
def leftover {δ : Type} (rest : List δ) : List (List δ) :=
  (Dispatcher.ofList? rest).toList.map Dispatcher.rest

@[simp] theorem flatten_leftover {δ : Type} (rest : List δ) : (leftover rest).flatten = rest := by
  cases rest with
  | nil => rfl
  | cons d rest => simp [leftover, Dispatcher.ofList?, Dispatcher.rest]

theorem eq_of_mem_leftover {δ : Type} {rest left : List δ} (h : left ∈ leftover rest) :
    left = rest := by
  cases rest with
  | nil => cases h
  | cons d rest => exact List.mem_singleton.mp h

namespace FanOut

variable {δ : Type}

def asking (lane : FanOut δ) : List (Dispatcher δ) := lane.ready.filterMap Turn.ask?

def granted (lane : FanOut δ) : List (Dispatcher δ) := lane.ready.filterMap Turn.grant?

def sends (lane : FanOut δ) : List δ := lane.ready.filterMap Turn.send?

/-- The deliveries that have a permit and have not started: what is about to start, and what the
dispatchers that have been given one will hand out with it. -/
def holding (lane : FanOut δ) : List δ := lane.sends ++ lane.granted.map Dispatcher.next

/-- What no permit has been asked for, dispatcher by dispatcher. One that waits has asked for its
next delivery, so only those after it count. -/
def unasked (lane : FanOut δ) : List (List δ) :=
  lane.asking.map Dispatcher.rest ++ (lane.granted ++ lane.line).flatMap (leftover ·.later)

/-- What has not started yet: what holds a permit, what a dispatcher asks for, and what it will ask
for later. -/
def queued (lane : FanOut δ) : List δ :=
  lane.sends ++ (lane.asking ++ (lane.granted ++ lane.line)).flatMap Dispatcher.rest

/-- The dispatcher that asks in the next step, if it is one that asks. -/
def asking? (lane : FanOut δ) : Option (Dispatcher δ) := lane.ready.head?.bind Turn.ask?

/-- What the next step starts. -/
def starting? (lane : FanOut δ) : Option δ := lane.ready.head?.bind Turn.send?

/-! ## What single operations move -/

theorem views_of_ready {lane : FanOut δ} {turn : Turn δ} {ready : List (Turn δ)}
    (h : lane.ready = turn :: ready) :
    let tail : FanOut δ := { lane with ready := ready }
    lane.asking = turn.ask?.toList ++ tail.asking ∧
      lane.granted = turn.grant?.toList ++ tail.granted ∧
      lane.sends = turn.send?.toList ++ tail.sends := by
  cases turn <;>
    simp [asking, granted, sends, h, List.filterMap_cons, Turn.ask?, Turn.grant?, Turn.send?]

theorem views_asks (xs : List (Dispatcher δ)) :
    (xs.map Turn.ask).filterMap Turn.ask? = xs ∧
      (xs.map Turn.ask).filterMap Turn.grant? = ([] : List (Dispatcher δ)) ∧
      (xs.map Turn.ask).filterMap Turn.send? = ([] : List δ) := by
  induction xs with
  | nil => exact ⟨rfl, rfl, rfl⟩
  | cons x xs ih =>
      obtain ⟨hask, hgrant, hsend⟩ := ih
      simp only [List.map_cons, List.filterMap_cons, Turn.ask?, Turn.grant?, Turn.send?]
      exact ⟨congrArg _ hask, hgrant, hsend⟩

theorem queue_views (lane : FanOut δ) (ds : List δ) :
    (lane.queue ds).asking = lane.asking ++ (Dispatcher.ofList? ds).toList ∧
      (lane.queue ds).granted = lane.granted ∧ (lane.queue ds).sends = lane.sends := by
  obtain ⟨hask, hgrant, hsend⟩ := views_asks (Dispatcher.ofList? ds).toList
  simp only [asking, granted, sends, queue, List.filterMap_append, hask, hgrant, hsend,
    List.append_nil, and_self]

/-- A permit that comes free takes nobody out of the order: the head of the line, to whom it goes,
is the next to be served anyway. -/
theorem release_views (lane : FanOut δ) :
    lane.release.asking = lane.asking ∧ lane.release.sends = lane.sends ∧
      lane.release.granted ++ lane.release.line = lane.granted ++ lane.line := by
  unfold release
  split
  · next h => simp [asking, granted, sends, h]
  · next x line h => simp [asking, granted, sends, h, Turn.ask?, Turn.grant?, Turn.send?]

theorem handOut_views (lane : FanOut δ) (x : Dispatcher δ) :
    (lane.handOut x).asking = (Dispatcher.ofList? x.later).toList ++ lane.asking ∧
      (lane.handOut x).granted = lane.granted ∧
      (lane.handOut x).sends = lane.sends ++ [x.next] := by
  obtain ⟨hask, hgrant, hsend⟩ := views_asks (Dispatcher.ofList? x.later).toList
  simp only [asking, granted, sends, handOut, List.filterMap_append, hask, hgrant, hsend]
  simp [Turn.ask?, Turn.grant?, Turn.send?]

/-- Ends one of the stalled deliveries, if its deadline has come. Where `expire` ends all that are
due, this lets anything else run between two of them. -/
def lapse (now : Instant) (lane : FanOut δ) (i : Nat) : FanOut δ :=
  match lane.aloft[i]? with
  | some flight =>
    if flight.deadline.nanos ≤ now.nanos then
      release { lane with aloft := lane.aloft.eraseIdx i }
    else lane
  | none => lane

theorem lapse_cases (now : Instant) (lane : FanOut δ) (i : Nat) : lane.lapse now i = lane ∨
    i < lane.aloft.length ∧
      lane.lapse now i = release { lane with aloft := lane.aloft.eraseIdx i } := by
  unfold lapse
  split
  · next flight hflight =>
    obtain ⟨hi, -⟩ := List.getElem?_eq_some_iff.mp hflight
    split
    · exact Or.inr ⟨hi, rfl⟩
    · exact Or.inl rfl
  · exact Or.inl rfl

/-! ## Permits -/

/-- All `limit` permits are accounted for: free, held by a turn, or aloft. Nobody waits while one
is free. -/
structure Balanced (limit : Nat) (lane : FanOut δ) : Prop where
  sated : lane.line ≠ [] → lane.free = 0
  permits : lane.free + total Turn.permits lane.ready + lane.aloft.length = limit

namespace Balanced

variable {limit : Nat} {lane : FanOut δ}

theorem ofLimit (maxInFlight : Nat) :
    Balanced (max 1 maxInFlight) (ofLimit maxInFlight : FanOut δ) :=
  ⟨fun h => absurd rfl h, rfl⟩

theorem total_asks (xs : List (Dispatcher δ)) : total Turn.permits (xs.map Turn.ask) = 0 := by
  induction xs with
  | nil => rfl
  | cons x xs ih => simpa [total, Turn.permits] using ih

theorem queue (h : Balanced limit lane) (ds : List δ) : Balanced limit (lane.queue ds) := by
  refine ⟨h.sated, ?_⟩
  have hpermits := h.permits
  simp only [FanOut.queue, total_append, total_asks]
  omega

theorem release (h : Balanced limit lane) : Balanced (limit + 1) lane.release := by
  have hpermits := h.permits
  unfold FanOut.release
  split
  · next hline =>
    refine ⟨fun hne => absurd hline hne, ?_⟩
    show lane.free + 1 + total Turn.permits lane.ready + lane.aloft.length = _
    omega
  · next x line hline =>
    refine ⟨fun _ => h.sated (by simp [hline]), ?_⟩
    simp only [total_append, total, Turn.permits]
    omega

theorem releases (ended : List (Flight δ)) (h : Balanced limit lane) :
    Balanced (limit + ended.length) (ended.foldl (fun lane _ => lane.release) lane) := by
  induction ended generalizing limit lane with
  | nil => exact h
  | cons flight ended ih =>
      rw [List.length_cons, Nat.add_comm ended.length, ← Nat.add_assoc]
      exact ih h.release

theorem expire (h : Balanced limit lane) (now : Instant) : Balanced limit (lane.expire now) := by
  let due (f : Flight δ) : Bool := f.deadline.nanos ≤ now.nanos
  have hsplit := List.length_eq_length_filter_add (l := lane.aloft) due
  have hpermits := h.permits
  -- Without those that are due, so many permits are missing; the releases make up for them.
  have hkept : Balanced (limit - (lane.aloft.filter due).length)
      { lane with aloft := lane.aloft.filter (!due ·) } := by
    refine ⟨h.sated, ?_⟩
    show lane.free + total Turn.permits lane.ready + (lane.aloft.filter (!due ·)).length = _
    omega
  have hall := hkept.releases (lane.aloft.filter due)
  rwa [Nat.sub_add_cancel (by omega)] at hall

theorem lapse (h : Balanced limit lane) (now : Instant) (i : Nat) :
    Balanced limit (lane.lapse now i) := by
  rcases lane.lapse_cases now i with hsame | ⟨hi, hless⟩
  · rwa [hsame]
  · have hpermits := h.permits
    have hrest : Balanced (limit - 1) { lane with aloft := lane.aloft.eraseIdx i } := by
      refine ⟨h.sated, ?_⟩
      show lane.free + total Turn.permits lane.ready + (lane.aloft.eraseIdx i).length = _
      rw [List.length_eraseIdx_of_lt hi]
      omega
    have hback := hrest.release
    rwa [Nat.sub_add_cancel (by omega), ← hless] at hback

theorem handOut (h : Balanced limit lane) (x : Dispatcher δ) :
    Balanced (limit + 1) (lane.handOut x) := by
  refine ⟨h.sated, ?_⟩
  have hpermits := h.permits
  simp only [FanOut.handOut, total_append, total_asks, total, Turn.permits]
  omega

theorem ask (h : Balanced limit lane) (x : Dispatcher δ) : Balanced limit (lane.ask x) := by
  have hpermits := h.permits
  unfold FanOut.ask
  split
  · next hfree => exact ⟨fun _ => hfree, hpermits⟩
  -- A free permit leaves the stock and is the delivery's from then on.
  · next free hfree =>
    have hless : Balanced (limit - 1) { lane with free := free } := by
      refine ⟨fun hline => ?_, ?_⟩
      · have hzero := h.sated hline
        omega
      · show free + total Turn.permits lane.ready + lane.aloft.length = _
        omega
    have hout := hless.handOut x
    rwa [Nat.sub_add_cancel (by omega)] at hout

theorem send [Parcel δ] (now : Instant) (timeout : Duration) (rec : Recorder) (d : δ)
    (h : Balanced limit lane) : Balanced (limit + 1) (send now timeout lane rec d).1 := by
  unfold FanOut.send
  split
  · split
    · exact h.release
    · refine ⟨h.sated, ?_⟩
      have hpermits := h.permits
      simp only [List.length_append, List.length_singleton]
      omega
  · exact h.release

theorem tail {turn : Turn δ} {ready : List (Turn δ)} (h : Balanced limit lane)
    (hready : lane.ready = turn :: ready) :
    Balanced (limit - turn.permits) { lane with ready := ready } ∧ turn.permits ≤ limit := by
  have hpermits := h.permits
  rw [hready, total] at hpermits
  refine ⟨⟨h.sated, ?_⟩, by omega⟩
  show lane.free + total Turn.permits ready + lane.aloft.length = _
  omega

theorem step [Parcel δ] (now : Instant) (timeout : Duration) (rec : Recorder)
    (h : Balanced limit lane) : Balanced limit (step now timeout lane rec).1 := by
  unfold FanOut.step
  split
  · exact h
  · next x ready hready =>
    obtain ⟨hrest, -⟩ := h.tail hready
    exact hrest.ask x
  · next x ready hready =>
    obtain ⟨hrest, hone⟩ : Balanced (limit - 1) _ ∧ 1 ≤ limit := h.tail hready
    have hout := hrest.handOut x
    rwa [Nat.sub_add_cancel hone] at hout
  · next d ready hready =>
    obtain ⟨hrest, hone⟩ : Balanced (limit - 1) _ ∧ 1 ≤ limit := h.tail hready
    have hsend := send now timeout rec d hrest
    rwa [Nat.sub_add_cancel hone] at hsend

/-- Whatever holds a permit is counted. So no more deliveries are under way than there are
permits. -/
theorem holding_add_aloft_le (h : Balanced limit lane) :
    lane.holding.length + lane.aloft.length ≤ limit := by
  have hready (ready : List (Turn δ)) : (ready.filterMap Turn.send?).length +
      (ready.filterMap Turn.grant?).length = total Turn.permits ready := by
    induction ready with
    | nil => rfl
    | cons turn ready ih =>
        cases turn <;>
          simp only [List.filterMap_cons, Turn.send?, Turn.grant?, List.length_cons, total,
            Turn.permits] <;> omega
  have hpermits := h.permits
  rw [← hready] at hpermits
  simp only [holding, sends, granted, List.length_append, List.length_map]
  omega

end Balanced

/-! ## First come, first served -/

/-- Of those who have `asked`, in this order, the last ones are in the line and the others have been
served; and who has been served has `started` or still holds the permit. -/
def Served (lane : FanOut δ) (asked started : List δ) : Prop :=
  ∃ served, asked = served ++ lane.line.map Dispatcher.next ∧
    served.Perm (started ++ lane.holding)

namespace Served

variable {lane : FanOut δ} {asked started : List δ}

theorem ofLimit (maxInFlight : Nat) : Served (ofLimit maxInFlight : FanOut δ) [] [] :=
  ⟨[], rfl, .refl _⟩

theorem queue (h : Served lane asked started) (ds : List δ) :
    Served (lane.queue ds) asked started := by
  obtain ⟨served, hasked, hperm⟩ := h
  obtain ⟨-, hgranted, hsends⟩ := lane.queue_views ds
  refine ⟨served, hasked, ?_⟩
  rw [holding, hgranted, hsends]
  exact hperm

theorem release (h : Served lane asked started) : Served lane.release asked started := by
  obtain ⟨served, hasked, hperm⟩ := h
  unfold FanOut.release
  split
  · next hline => exact ⟨served, hasked, hperm⟩
  · next x line hline =>
    refine ⟨served ++ [x.next], ?_, ?_⟩
    · rw [hasked, hline]
      simp
    · have hholding : FanOut.holding { lane with line := line, ready := lane.ready ++ [.grant x] } =
          lane.holding ++ [x.next] := by
        simp [holding, sends, granted, Turn.send?, Turn.grant?]
      rw [hholding, ← List.append_assoc]
      exact hperm.append_right _

theorem releases {α : Type} (ended : List α) (h : Served lane asked started) :
    Served (ended.foldl (fun lane _ => lane.release) lane) asked started := by
  induction ended generalizing lane with
  | nil => exact h
  | cons x ended ih => exact ih h.release

theorem handOut {x : Dispatcher δ} (h : ∃ served, asked = served ++ lane.line.map Dispatcher.next ∧
      served.Perm (started ++ (lane.holding ++ [x.next]))) :
    Served (lane.handOut x) asked started := by
  obtain ⟨served, hasked, hperm⟩ := h
  obtain ⟨-, hgranted, hsends⟩ := lane.handOut_views x
  refine ⟨served, hasked, hperm.trans ?_⟩
  apply List.Perm.append_left
  rw [holding, holding, hgranted, hsends, List.append_assoc, List.append_assoc]
  exact List.perm_append_comm.append_left _

theorem ask {limit : Nat} (hbalanced : lane.Balanced limit) (h : Served lane asked started)
    (x : Dispatcher δ) : Served (lane.ask x) (asked ++ [x.next]) started := by
  obtain ⟨served, hasked, hperm⟩ := h
  unfold FanOut.ask
  split
  · refine ⟨served, ?_, hperm⟩
    rw [hasked, List.map_append, List.append_assoc]
    rfl
  · next free hfree =>
    have hline : lane.line = [] := by
      by_contra hne
      have hzero := hbalanced.sated hne
      omega
    apply handOut
    refine ⟨served ++ [x.next], ?_, ?_⟩
    · simp [hasked, hline]
    · rw [← List.append_assoc]
      exact hperm.append_right _

theorem send [Parcel δ] (now : Instant) (timeout : Duration) (rec : Recorder) (d : δ)
    (h : Served lane asked started) : Served (send now timeout lane rec d).1 asked started := by
  unfold FanOut.send
  split
  · split
    · exact h.release
    · exact h
  · exact h.release

theorem step [Parcel δ] {limit : Nat} (hbalanced : lane.Balanced limit)
    (h : Served lane asked started) (now : Instant) (timeout : Duration) (rec : Recorder) :
    Served (step now timeout lane rec).1 (asked ++ (lane.asking?.map Dispatcher.next).toList)
      (started ++ lane.starting?.toList) := by
  obtain ⟨served, hasked, hperm⟩ := h
  rcases hready : lane.ready with _ | ⟨turn, ready⟩
  · simpa [FanOut.step, asking?, starting?, hready] using ⟨served, hasked, hperm⟩
  obtain ⟨-, hgranted, hsends⟩ := views_of_ready hready
  rw [holding, hgranted, hsends] at hperm
  cases turn with
  -- The dispatcher that asks held nothing before.
  | ask x =>
      have hrest : Served { lane with ready := ready } asked started := ⟨served, hasked, hperm⟩
      have hask := hrest.ask (hbalanced.tail hready).1 x
      simpa [FanOut.step, asking?, starting?, hready, Turn.ask?, Turn.send?] using hask
  -- Whoever has been given a permit has asked for it, and been served, before.
  | grant x =>
      have hout : Served (FanOut.handOut { lane with ready := ready } x) asked started := by
        apply handOut
        refine ⟨served, hasked, hperm.trans ?_⟩
        apply List.Perm.append_left
        simp only [holding, Turn.send?, Turn.grant?, Option.toList_none, Option.toList_some,
          List.nil_append, List.singleton_append, List.map_cons, List.append_assoc]
        exact (List.perm_append_singleton _ _).symm.append_left _
      simpa [FanOut.step, asking?, starting?, hready, Turn.ask?, Turn.send?] using hout
  -- The delivery that starts goes from those that hold a permit to those that have started.
  | send d =>
      have hrest : Served { lane with ready := ready } asked (started ++ [d]) := by
        refine ⟨served, hasked, ?_⟩
        rw [holding, List.append_assoc]
        exact hperm
      have hsend := hrest.send now timeout rec d
      simpa [FanOut.step, asking?, starting?, hready, Turn.ask?, Turn.send?] using hsend

theorem expire (h : Served lane asked started) (now : Instant) :
    Served (lane.expire now) asked started :=
  releases _ h

theorem lapse (h : Served lane asked started) (now : Instant) (i : Nat) :
    Served (lane.lapse now i) asked started := by
  rcases lane.lapse_cases now i with hsame | ⟨-, hless⟩
  · rwa [hsame]
  · rw [hless]
    exact release h

/-- Who has started has asked, and of those who have asked before it, only as many have not started
as there are permits: each of them holds one of its own. -/
theorem overtaken_le {limit : Nat} [DecidableEq δ] (hbalanced : lane.Balanced limit)
    (h : Served lane asked started) {t : δ} (ht : t ∈ lane.sends) (hnew : t ∉ started) :
    ∃ before after, asked = before ++ t :: after ∧
      (before.filter (· ∉ started)).length < limit := by
  obtain ⟨served, hasked, hperm⟩ := h
  have hheld : t ∈ lane.holding := List.mem_append_left _ ht
  have hserved : t ∈ served := hperm.mem_iff.mpr (List.mem_append_right _ hheld)
  obtain ⟨before, after, rfl⟩ := List.append_of_mem hserved
  refine ⟨before, after ++ lane.line.map Dispatcher.next, by rw [hasked]; simp, ?_⟩
  have hcount := (hperm.filter (· ∉ started)).length_eq
  have hnone : started.filter (· ∉ started) = [] := by simp
  have hmost : (lane.holding.filter (· ∉ started)).length ≤ lane.holding.length :=
    List.length_filter_le _ _
  have hpermits := hbalanced.holding_add_aloft_le
  rw [List.filter_append, List.filter_append, hnone,
    List.filter_cons_of_pos (by simpa using hnew)] at hcount
  simp only [List.length_append, List.length_cons, List.nil_append] at hcount
  omega

end Served

/-! ## What has not been asked for -/

theorem unasked_queue (lane : FanOut δ) (ds : List δ) :
    (lane.queue ds).unasked.Perm (leftover ds ++ lane.unasked) := by
  obtain ⟨hasking, hgranted, -⟩ := lane.queue_views ds
  rw [unasked, unasked, hasking, hgranted, List.map_append, ← List.append_assoc]
  exact List.perm_append_comm.append_right _

theorem unasked_release (lane : FanOut δ) : lane.release.unasked = lane.unasked := by
  obtain ⟨hasking, -, hwaiting⟩ := lane.release_views
  rw [unasked, unasked, hasking, hwaiting]

theorem unasked_releases {α : Type} (ended : List α) (lane : FanOut δ) :
    (ended.foldl (fun lane _ => lane.release) lane).unasked = lane.unasked := by
  induction ended generalizing lane with
  | nil => rfl
  | cons x ended ih => rw [List.foldl_cons, ih, unasked_release]

theorem unasked_expire (lane : FanOut δ) (now : Instant) :
    (lane.expire now).unasked = lane.unasked :=
  unasked_releases _ _

theorem unasked_lapse (lane : FanOut δ) (now : Instant) (i : Nat) :
    (lane.lapse now i).unasked = lane.unasked := by
  rcases lane.lapse_cases now i with hsame | ⟨-, hless⟩
  · rw [hsame]
  · rw [hless, unasked_release]
    rfl

theorem unasked_handOut (lane : FanOut δ) (x : Dispatcher δ) :
    (lane.handOut x).unasked = leftover x.later ++ lane.unasked := by
  obtain ⟨hasking, hgranted, -⟩ := lane.handOut_views x
  rw [unasked, unasked, hasking, hgranted, List.map_append, List.append_assoc]
  rfl

theorem unasked_ask (lane : FanOut δ) (x : Dispatcher δ) :
    (lane.ask x).unasked.Perm (leftover x.later ++ lane.unasked) := by
  unfold ask
  split
  · have hlast : FanOut.unasked { lane with line := lane.line ++ [x] } =
        lane.unasked ++ leftover x.later := by
      simp [unasked, asking, granted]
    rw [hlast]
    exact List.perm_append_comm
  · rw [unasked_handOut]
    exact .refl _

/-- What a step does to what has not been asked for. Only asking for a permit takes something from
it: the front of what is left to a dispatcher. -/
theorem shift [Parcel δ] (now : Instant) (timeout : Duration) (lane : FanOut δ) (rec : Recorder) :
    let after := (step now timeout lane rec).1
    (lane.asking? = none ∧ after.unasked.Perm lane.unasked) ∨
      ∃ x others, lane.asking? = some x ∧ lane.unasked = x.rest :: others ∧
        after.unasked.Perm (leftover x.later ++ others) := by
  rcases hready : lane.ready with _ | ⟨turn, ready⟩
  · left
    simp [step, asking?, hready]
  obtain ⟨hasking, hgranted, -⟩ := views_of_ready hready
  cases turn with
  | ask x =>
      -- A dispatcher that asks is shorter by the ticket that it asks for.
      right
      refine ⟨x, FanOut.unasked { lane with ready := ready }, by simp [asking?, hready, Turn.ask?],
        ?_, ?_⟩
      · rw [unasked, hasking, hgranted]
        rfl
      · simp only [step, hready]
        exact unasked_ask _ x
  -- What is left to a dispatcher that has been given a permit is what it will ask for next.
  | grant x =>
      left
      refine ⟨by simp [asking?, hready, Turn.ask?], ?_⟩
      simp only [step, hready]
      rw [unasked_handOut, unasked, unasked, hasking, hgranted]
      exact List.perm_append_comm_assoc _ _ _
  | send d =>
      left
      refine ⟨by simp [asking?, hready, Turn.ask?], ?_⟩
      have hsend : (send now timeout { lane with ready := ready } rec d).1.unasked =
          FanOut.unasked { lane with ready := ready } := by
        unfold send
        split
        · split
          · exact unasked_release _
          · rfl
        · exact unasked_release _
      simp only [step, hready, hsend]
      rw [unasked, unasked, hasking, hgranted]
      exact .refl _

/-- What has not started has a permit, or waits for one in the line, or has not been asked for. -/
theorem queued_perm (lane : FanOut δ) : lane.queued.Perm
    (lane.holding ++ (lane.line.map Dispatcher.next ++ lane.unasked.flatten)) := by
  have hsplit (xs : List (Dispatcher δ)) : (xs.flatMap Dispatcher.rest).Perm
      (xs.map Dispatcher.next ++ (xs.flatMap (leftover ·.later)).flatten) := by
    induction xs with
    | nil => exact .refl _
    | cons x xs ih =>
        simp only [List.flatMap_cons, List.map_cons, List.flatten_append, flatten_leftover,
          Dispatcher.rest, List.cons_append]
        apply List.Perm.cons
        exact (ih.append_left _).trans (List.perm_append_comm_assoc _ _ _)
  have hwaiting := hsplit (lane.granted ++ lane.line)
  have hasking : lane.asking.flatMap Dispatcher.rest =
      (lane.asking.map Dispatcher.rest).flatten := List.flatMap_def ..
  classical
  rw [List.perm_iff_count] at hwaiting ⊢
  intro d
  have hcount := hwaiting d
  simp only [queued, holding, unasked, hasking, List.flatMap_append, List.map_append,
    List.flatten_append, List.count_append] at hcount ⊢
  omega

end FanOut
end Rollcall
