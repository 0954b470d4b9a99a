import Rollcall.Proofs.Delivery.Journal

/-!
# An executor that keeps to the order

An executor with a single thread lets run first what has become ready first, as `FanOut.step` does.
Under such an executor the deliveries of one call start in the order of its recipients, however many
permits there are: the call has one dispatcher, from which its deliveries come one by one, and each
of them goes behind all that are about to start already.

The invariant is `Books.InTurn`. What a call has started, then what of it is about to start, and then
what is left to its dispatcher are, in this order, the tickets of the call. Every event keeps it. An
executor that puts one turn before others does not, `Journal.prefer`.

Main statement: `Journal.started_in_turn`.
-/

namespace Rollcall

@[simp] theorem Dispatcher.flatMap_rest_ofList? {δ : Type} (ds : List δ) :
    (ofList? ds).toList.flatMap rest = ds := by
  cases ds with
  | nil => rfl
  | cons d ds => simp [ofList?, rest]

namespace FanOut

variable {δ : Type}

/-- The dispatchers, those first that will be the first to hand something out: a permit that comes
free goes to the head of the line, and whoever asks for one joins the line at its end. -/
def dispatchers (lane : FanOut δ) : List (Dispatcher δ) := lane.granted ++ lane.line ++ lane.asking

/-- What is about to start, and then what is left to the dispatchers. Read in this order, the
tickets of one call stand in the order of its recipients. -/
def path (lane : FanOut δ) : List δ := lane.sends ++ lane.dispatchers.flatMap Dispatcher.rest

theorem path_perm_queued (lane : FanOut δ) : lane.path.Perm lane.queued := by
  apply List.Perm.append_left
  apply List.Perm.flatMap_right
  exact List.perm_append_comm

theorem dispatchers_release (lane : FanOut δ) : lane.release.dispatchers = lane.dispatchers := by
  obtain ⟨hasking, -, hwaiting⟩ := lane.release_views
  rw [dispatchers, dispatchers, hasking, hwaiting]

theorem path_release (lane : FanOut δ) : lane.release.path = lane.path := by
  obtain ⟨-, hsends, -⟩ := lane.release_views
  rw [path, path, hsends, dispatchers_release]

theorem dispatchers_releases {α : Type} (ended : List α) (lane : FanOut δ) :
    let after := ended.foldl (fun lane _ => lane.release) lane
    after.dispatchers = lane.dispatchers ∧ after.path = lane.path := by
  induction ended generalizing lane with
  | nil => exact ⟨rfl, rfl⟩
  | cons x ended ih =>
      rw [List.foldl_cons, ← dispatchers_release lane, ← path_release lane]
      exact ih lane.release

/-- What a step does to the order: it starts the first of what is about to start, or it lets a
dispatcher hand out its next delivery, which goes to the end of what is about to start. The
dispatcher may come back in another place, behind others that do not wait for its call. -/
inductive Moves (lane after : FanOut δ) : Prop
  | still (dispatchers : after.dispatchers = lane.dispatchers)
      (sends : lane.sends = lane.starting?.toList ++ after.sends)
  | handOut (x : Dispatcher δ) (front mid back : List (Dispatcher δ))
      (starts : lane.starting? = none) (before : lane.dispatchers = front ++ x :: (mid ++ back))
      (dispatchers : after.dispatchers =
        front ++ (mid ++ ((Dispatcher.ofList? x.later).toList ++ back)))
      (sends : after.sends = lane.sends ++ [x.next])

variable {lane : FanOut δ} {ready : List (Turn δ)}

/-- Without a free permit the dispatcher joins the line, where it was already, behind all who wait
and before all who have yet to ask. With one nobody waits, and so it is served ahead of the whole
line. -/
theorem moves_ask {limit : Nat} (h : lane.Balanced limit) {x : Dispatcher δ}
    (hready : lane.ready = .ask x :: ready) : lane.Moves (ask { lane with ready := ready } x) := by
  obtain ⟨hasking, hgranted, hsends⟩ := views_of_ready hready
  have hnone : lane.starting? = none := by simp [starting?, hready, Turn.send?]
  rcases hfree : lane.free with _ | free
  · simp only [ask]
    refine .still ?_ (by rw [hnone]; exact hsends)
    rw [dispatchers, dispatchers, hasking, hgranted]
    show (FanOut.granted { lane with ready := ready } ++ (lane.line ++ [x])) ++ _ = _
    simp [Turn.ask?, Turn.grant?, asking, granted]
  · have hline : lane.line = [] := by
      by_contra hne
      have hzero := h.sated hne
      omega
    simp only [ask]
    obtain ⟨hnext, hwaiting, hlast⟩ := handOut_views { lane with free := free, ready := ready } x
    refine .handOut x lane.granted [] (FanOut.asking { lane with ready := ready }) hnone ?_ ?_ ?_
    · rw [dispatchers, hasking, hline]
      simp [Turn.ask?]
    · rw [dispatchers, hnext, hwaiting, hgranted]
      show (FanOut.granted { lane with ready := ready } ++ lane.line) ++ _ = _
      rw [hline]
      simp [Turn.grant?, granted, asking]
    · rw [hlast, hsends]
      rfl

/-- Whoever has been given a permit hands out, and then asks again behind all others. -/
theorem moves_grant {x : Dispatcher δ} (hready : lane.ready = .grant x :: ready) :
    lane.Moves (handOut { lane with ready := ready } x) := by
  obtain ⟨hasking, hgranted, hsends⟩ := views_of_ready hready
  obtain ⟨hnext, hwaiting, hlast⟩ := handOut_views { lane with ready := ready } x
  refine .handOut x [] (FanOut.granted { lane with ready := ready } ++ lane.line)
    (FanOut.asking { lane with ready := ready })
    (by simp [starting?, hready, Turn.send?]) ?_ ?_ ?_
  · rw [dispatchers, hasking, hgranted]
    simp [Turn.ask?, Turn.grant?]
  · rw [dispatchers, hnext, hwaiting]
    show (FanOut.granted { lane with ready := ready } ++ lane.line) ++ _ = _
    simp
  · rw [hlast, hsends]
    rfl

/-- The only turn in which something starts. It takes the first of the sends off the lane, and no
dispatcher moves, whatever the transport makes of the delivery. -/
theorem moves_send [Parcel δ] {d : δ} (hready : lane.ready = .send d :: ready) (now : Instant)
    (timeout : Duration) (rec : Recorder) :
    lane.Moves (send now timeout { lane with ready := ready } rec d).1 := by
  obtain ⟨hasking, hgranted, hsends⟩ := views_of_ready hready
  have hstart : lane.starting? = some d := by simp [starting?, hready, Turn.send?]
  have hsame : lane.dispatchers = FanOut.dispatchers { lane with ready := ready } := by
    rw [dispatchers, dispatchers, hasking, hgranted]
    rfl
  have hfirst : lane.sends = d :: FanOut.sends { lane with ready := ready } := hsends
  have hrelease := release_views { lane with ready := ready }
  simp only [send]
  split
  · split
    · refine .still ((dispatchers_release _).trans hsame.symm) ?_
      rw [hstart, hrelease.2.1, hfirst]
      rfl
    · refine .still hsame.symm ?_
      rw [hstart, hfirst]
      rfl
  · refine .still ((dispatchers_release _).trans hsame.symm) ?_
    rw [hstart, hrelease.2.1, hfirst]
    rfl

theorem moves_step [Parcel δ] {limit : Nat} (h : lane.Balanced limit) (now : Instant)
    (timeout : Duration) (rec : Recorder) : lane.Moves (step now timeout lane rec).1 := by
  rcases hready : lane.ready with _ | ⟨turn, ready⟩
  · have hsame : (step now timeout lane rec).1 = lane := by simp [step, hready]
    rw [hsame]
    exact .still rfl (by simp [starting?, hready])
  cases turn with
  | ask x =>
      simp only [step, hready]
      exact moves_ask h hready
  | grant x =>
      simp only [step, hready]
      exact moves_grant hready
  | send d =>
      simp only [step, hready]
      exact moves_send hready now timeout rec

end FanOut

namespace Books

/-- Of each call there is one dispatcher at most, and it has tickets of that call only; and what the
call has started, what of it is about to start and what is left to the dispatcher are its tickets, in
the order of the recipients. -/
structure InTurn (b : Books) (calls : List (List Delivery)) : Prop where
  single : (b.lane.dispatchers.map (·.next.call)).Nodup
  uniform : ∀ x ∈ b.lane.dispatchers, ∀ t ∈ x.later, t.call = x.next.call
  order : ∀ call ds, calls[call]? = some ds →
    (b.started ++ b.lane.path).filter (·.call = call) = ticketsOf call ds

variable {b b' : Books} {calls : List (List Delivery)}

theorem InTurn.empty (maxInFlight : Nat) : (empty maxInFlight).InTurn [] :=
  ⟨List.nodup_nil, nofun, nofun⟩

theorem InTurn.of_same (h : b.InTurn calls) (hdispatchers : b'.lane.dispatchers = b.lane.dispatchers)
    (hpath : b'.started ++ b'.lane.path = b.started ++ b.lane.path) : b'.InTurn calls := by
  refine ⟨?_, ?_, ?_⟩
  · rw [hdispatchers]
    exact h.single
  · rw [hdispatchers]
    exact h.uniform
  · rw [hpath]
    exact h.order

theorem filter_ticketsOf (call other : Nat) (ds : List Delivery) :
    (ticketsOf call ds).filter (·.call = other) = if call = other then ticketsOf call ds else [] := by
  split
  · next heq =>
    apply List.filter_eq_self.mpr
    intro t ht
    simpa [heq] using call_of_mem_ticketsOf ht
  · next hne =>
    apply List.filter_eq_nil_iff.mpr
    intro t ht
    simpa [call_of_mem_ticketsOf ht] using hne

theorem call_of_mem_rest {call : Nat} {ds : List Delivery} {x : Dispatcher Ticket}
    (hx : x ∈ (Dispatcher.ofList? (ticketsOf call ds)).toList) : ∀ t ∈ x.rest, t.call = call := by
  intro t ht
  have hmem : t ∈ (Dispatcher.ofList? (ticketsOf call ds)).toList.flatMap Dispatcher.rest :=
    List.mem_flatMap.mpr ⟨x, hx, ht⟩
  rw [Dispatcher.flatMap_rest_ofList?] at hmem
  exact call_of_mem_ticketsOf hmem

theorem InTurn.of_call {ds : List Delivery} (h : b.InTurn calls)
    (hknown : ∀ t ∈ b.started ++ b.lane.path, t.call < calls.length)
    (hstarted : b'.started = b.started)
    (hlane : b'.lane = b.lane.queue (ticketsOf calls.length ds)) :
    b'.InTurn (calls ++ [ds]) := by
  obtain ⟨hasking, hgranted, hsends⟩ := b.lane.queue_views (ticketsOf calls.length ds)
  -- The call adds one dispatcher at the very end, and its tickets to the end of the path.
  have hdispatchers : b'.lane.dispatchers =
      b.lane.dispatchers ++ (Dispatcher.ofList? (ticketsOf calls.length ds)).toList := by
    rw [hlane, FanOut.dispatchers, FanOut.dispatchers, hasking, hgranted]
    show b.lane.granted ++ b.lane.line ++ _ = _
    simp
  have hpath : b'.lane.path = b.lane.path ++ ticketsOf calls.length ds := by
    rw [FanOut.path, FanOut.path, hdispatchers, List.flatMap_append,
      Dispatcher.flatMap_rest_ofList?, hlane, hsends, List.append_assoc]
  have hnew {x : Dispatcher Ticket}
      (hx : x ∈ (Dispatcher.ofList? (ticketsOf calls.length ds)).toList) :
      ∀ t ∈ x.rest, t.call = calls.length := call_of_mem_rest hx
  refine ⟨?_, ?_, ?_⟩
  · rw [hdispatchers, List.map_append]
    refine List.nodup_append.mpr ⟨h.single, ?_, ?_⟩
    · cases Dispatcher.ofList? (ticketsOf calls.length ds) with
      | none => exact List.nodup_nil
      | some x => exact List.nodup_singleton _
    · rintro call hold other hother rfl
      obtain ⟨x, hx, rfl⟩ := List.mem_map.mp hold
      obtain ⟨y, hy, hsame⟩ := List.mem_map.mp hother
      have hmem : x.next ∈ b.lane.path :=
        List.mem_append_right _ (List.mem_flatMap.mpr ⟨x, hx, List.mem_cons_self⟩)
      -- The tickets of the call bear a number that no ticket has had before.
      have hlt := hknown x.next (List.mem_append_right _ hmem)
      rw [← hsame, hnew hy y.next List.mem_cons_self] at hlt
      exact Nat.lt_irrefl _ hlt
  · rw [hdispatchers]
    intro x hx t ht
    rcases List.mem_append.mp hx with hold | hlast
    · exact h.uniform x hold t ht
    · rw [hnew hlast t (List.mem_cons_of_mem _ ht), hnew hlast x.next List.mem_cons_self]
  · intro call es hcall
    -- An older call finds no more of its own tickets than before, and the new one finds nothing but
    -- its own.
    rw [hstarted, hpath, ← List.append_assoc, List.filter_append, filter_ticketsOf]
    rcases last_call hcall with hold | ⟨rfl, rfl⟩
    · have hlt := (List.getElem?_eq_some_iff.mp hold).1
      rw [h.order call es hold, if_neg (Nat.ne_of_gt hlt), List.append_nil]
    · have hnone : (b.started ++ b.lane.path).filter (·.call = calls.length) = [] := by
        apply List.filter_eq_nil_iff.mpr
        intro t ht
        simpa using Nat.ne_of_lt (hknown t ht)
      rw [hnone, if_pos rfl, List.nil_append]

/-- Of the call that a dispatcher is of, nothing lies with any other. -/
theorem InTurn.passed {x : Dispatcher Ticket} {front rest : List (Dispatcher Ticket)}
    (h : b.InTurn calls) (hbefore : b.lane.dispatchers = front ++ x :: rest)
    (ys : List (Dispatcher Ticket)) (hys : ys ⊆ front ++ rest) :
    (ys.flatMap Dispatcher.rest).filter (·.call = x.next.call) = [] := by
  have hsingle := h.single
  rw [hbefore, List.map_append, List.map_cons, List.nodup_middle, ← List.map_append] at hsingle
  have hown := (List.nodup_cons.mp hsingle).1
  apply List.filter_eq_nil_iff.mpr
  intro t ht
  obtain ⟨y, hy, hmem⟩ := List.mem_flatMap.mp ht
  have hin : y ∈ b.lane.dispatchers := by
    rw [hbefore]
    rcases List.mem_append.mp (hys hy) with hfront | hrest
    · exact List.mem_append_left _ hfront
    · exact List.mem_append_right _ (List.mem_cons_of_mem _ hrest)
  have hcall : t.call = y.next.call := by
    rcases List.mem_cons.mp hmem with rfl | htail
    · rfl
    · exact h.uniform y hin t htail
  have hother : y.next.call ≠ x.next.call := fun hsame =>
    hown (List.mem_map.mpr ⟨y, hys hy, hsame⟩)
  simpa [hcall] using hother

/-- Handing out takes a ticket from the front of what its call has left, and puts it behind what the
call has about to start. The tickets that it passes on its way are of other calls. -/
theorem InTurn.of_handOut {x : Dispatcher Ticket} {front mid back : List (Dispatcher Ticket)}
    (h : b.InTurn calls) (hstarted : b'.started = b.started)
    (hbefore : b.lane.dispatchers = front ++ x :: (mid ++ back))
    (hdispatchers : b'.lane.dispatchers =
      front ++ (mid ++ ((Dispatcher.ofList? x.later).toList ++ back)))
    (hsends : b'.lane.sends = b.lane.sends ++ [x.next]) : b'.InTurn calls := by
  have hsingle := h.single
  have huniform := h.uniform
  rw [hbefore] at hsingle huniform
  rw [List.map_append, List.map_cons, List.nodup_middle, ← List.map_append] at hsingle
  have hlater : ∀ t ∈ x.later, t.call = x.next.call := huniform x (by simp)
  refine ⟨?_, ?_, ?_⟩
  · rw [hdispatchers]
    -- Served for the last time, the dispatcher is gone from the lane; otherwise it carries on under
    -- the same call.
    cases hleft : x.later with
    | nil => simpa [Dispatcher.ofList?] using (List.nodup_cons.mp hsingle).2
    | cons u us =>
        have hu : u.call = x.next.call := hlater u (by simp [hleft])
        rw [← List.append_assoc, List.map_append, Dispatcher.ofList?, Option.toList_some,
          List.singleton_append, List.map_cons, List.nodup_middle, ← List.map_append, hu,
          List.append_assoc]
        exact hsingle
  · rw [hdispatchers]
    intro y hy t ht
    simp only [List.mem_append] at hy
    rcases hy with hy | hy | hy | hy
    · exact huniform y (by simp [hy]) t ht
    · exact huniform y (by simp [hy]) t ht
    · cases hleft : x.later with
      | nil => simp [hleft, Dispatcher.ofList?] at hy
      | cons u us =>
          obtain rfl : y = ⟨u, us⟩ := by simpa [hleft, Dispatcher.ofList?] using hy
          rw [hlater t (by simpa [hleft] using Or.inr ht), hlater u (by simp [hleft])]
    · exact huniform y (by simp [hy]) t ht
  · intro call ds hcall
    rw [← h.order call ds hcall, hstarted, FanOut.path, FanOut.path, hbefore, hdispatchers, hsends]
    simp only [List.flatMap_append, List.flatMap_cons, List.filter_append, List.append_assoc,
      Dispatcher.flatMap_rest_ofList?, Dispatcher.rest, List.cons_append, List.filter_cons,
      List.filter_nil]
    -- For its own call the ticket moves to the end of the sends past tickets of other calls only;
    -- for another call it is as if it were not there.
    by_cases hsame : x.next.call = call
    · subst hsame
      have hfront := h.passed hbefore front (by simp)
      have hmid := h.passed hbefore mid (by simp)
      simp [hfront, hmid]
    · have hnone : x.later.filter (·.call = call) = [] := by
        apply List.filter_eq_nil_iff.mpr
        intro t ht
        simpa [hlater t ht] using hsame
      simp [hsame, hnone]

theorem InTurn.after {limit : Nat} (h : b.InTurn calls) (hbalanced : b.lane.Balanced limit)
    (hnumbered : b.calls = calls.length)
    (hknown : ∀ t ∈ b.started ++ b.lane.path, t.call < calls.length) (e? : Option Event) :
    (b.after e?).InTurn (calls ++ called e?) := by
  rcases e? with _ | e
  · simpa [Books.after, called] using h
  cases e with
  | fanOut ds =>
      have hlane : (b.after (some (.fanOut ds))).lane =
          b.lane.queue (ticketsOf calls.length ds) := by
        rw [← hnumbered]
        rfl
      exact h.of_call hknown rfl hlane
  | step now timeout =>
      simp only [called, List.append_nil]
      -- What starts leaves the path at its front and joins what has started, so the two together
      -- stay the same, up to the one ticket that is handed out.
      cases FanOut.moves_step hbalanced now timeout b.transport with
      | still hdispatchers hsends =>
          apply h.of_same hdispatchers
          show (b.started ++ b.lane.starting?.toList) ++
            FanOut.path (b.lane.step now timeout b.transport).1 = _
          rw [FanOut.path, FanOut.path, hdispatchers, hsends]
          simp
      | handOut x front mid back hstarts hbefore hdispatchers hsends =>
          apply h.of_handOut _ hbefore hdispatchers hsends
          show b.started ++ b.lane.starting?.toList = _
          simp [hstarts]
  | expire now =>
      simp only [called, List.append_nil]
      -- A timeout gives permits back, and whom they go to has been in the line already.
      obtain ⟨hdispatchers, hpath⟩ := FanOut.dispatchers_releases _ _
      exact h.of_same hdispatchers (congrArg _ hpath)
  | lapse now i =>
      simp only [called, List.append_nil]
      rcases b.lane.lapse_cases now i with hsame | ⟨-, hless⟩
      · apply h.of_same
        · exact congrArg FanOut.dispatchers hsame
        · exact congrArg (b.started ++ FanOut.path ·) hsame
      · apply h.of_same
        · exact (congrArg FanOut.dispatchers hless).trans (FanOut.dispatchers_release _)
        · exact congrArg (b.started ++ ·)
            ((congrArg FanOut.path hless).trans (FanOut.path_release _))
  | fail | stall =>
      simp only [called, List.append_nil]
      exact h.of_same rfl rfl

end Books

namespace Journal

variable {settings : RegistrySettings} {supply : IdSupply} {j : Journal}

theorem Kept.call_lt (h : j.Kept settings) (k : Desk) {t : Ticket}
    (ht : t ∈ (j.books k).started ++ (j.books k).lane.path) : t.call < (j.calls k).length := by
  have hperm := (j.books k).lane.path_perm_queued.append_left (j.books k).started
  rw [h.started k] at hperm ht
  have hmem : t ∈ j.tickets k := (hperm.trans (h.tickets_perm k)).mem_iff.mp ht
  obtain ⟨ds, hcall, -⟩ := mem_ticketsOfAll.mp hmem
  exact (List.getElem?_eq_some_iff.mp hcall).1

theorem inTurn_run (h : j.Kept settings) (hturn : ∀ k, (j.books k).InTurn (j.calls k))
    (incidents : List Incident) (k : Desk) :
    ((j.run incidents).books k).InTurn ((j.run incidents).calls k) := by
  induction incidents generalizing j with
  | nil => exact hturn k
  | cons i incidents ih =>
      apply ih (h.next i)
      intro k
      obtain ⟨hsingle, huniform, horder⟩ := (hturn k).after (h.balanced k) (h.numbered k)
        (fun t ht => h.call_lt k ht) (j.office.event? k i)
      exact ⟨hsingle, huniform, horder⟩

/-- As long as what has become ready first runs first, each call starts its deliveries in the order
of its recipients. -/
theorem started_in_turn (settings : RegistrySettings) (supply : IdSupply)
    (incidents : List Incident) (k : Desk) {call : Nat} {ds : List Delivery}
    (hcall : (((start settings supply).run incidents).calls k)[call]? = some ds) :
    (((start settings supply).run incidents).started k).filter (·.call = call) <+:
      ticketsOf call ds := by
  have hstart : ∀ k, ((start settings supply).books k).InTurn ((start settings supply).calls k) :=
    fun _ => .empty _
  have hturn := inTurn_run (.start settings supply) hstart incidents k
  have hreach : Reachable settings supply ((start settings supply).run incidents) :=
    Reachable.start.run incidents
  rw [← hturn.order call ds hcall, List.filter_append, hreach.kept.started k]
  exact List.prefix_append _ _

end Journal
end Rollcall
