import Mathlib.Data.List.Nodup
import Rollcall.Proofs.Delivery.Permits

/-!
# Keeping books of deliveries

Two deliveries may look the same, so whoever asks which one started first has to tell them apart.
Here the fan-outs hand out tickets: a delivery, the call of a fan-out that it comes from and its
place there. Fan-outs do not look at what they hand out, and so the books say what really happens:
leaving away what the tickets add gives the fan-outs that a registry runs, `Books.erase_next`.

Beside the fan-outs the books enter which tickets a permit has been asked for, and which have
started, in the order in which that happened. Every event keeps them `Orderly`: a ticket has been
asked for or will be, once, and each call asks for its own in the order in which it was given them.
-/

namespace Rollcall

/-- A delivery, the call of a fan-out that it comes from, and its place in that call. Deliveries
that look the same are told apart by the latter two. -/
structure Ticket where
  call : Nat
  place : Nat
  delivery : Delivery
  deriving Repr, DecidableEq

instance : Parcel Ticket := ⟨Ticket.delivery⟩

def ticketsOf (call : Nat) (ds : List Delivery) : List Ticket :=
  ds.zipIdx.map fun (d, place) => ⟨call, place, d⟩

theorem map_ticketsOf (call : Nat) (ds : List Delivery) :
    (ticketsOf call ds).map Ticket.delivery = ds := by
  rw [ticketsOf, List.map_map]
  exact List.zipIdx_map_fst 0 ds

theorem nodup_ticketsOf (call : Nat) (ds : List Delivery) : (ticketsOf call ds).Nodup := by
  refine List.Nodup.of_map Ticket.place ?_
  rw [ticketsOf, List.map_map, show Ticket.place ∘ _ = Prod.snd from rfl, List.zipIdx_map_snd]
  exact List.nodup_range'

theorem call_of_mem_ticketsOf {call : Nat} {ds : List Delivery} {t : Ticket}
    (h : t ∈ ticketsOf call ds) : t.call = call := by
  obtain ⟨_, -, rfl⟩ := List.mem_map.mp h
  rfl

/-- The tickets of some calls, which are numbered as they come. -/
def ticketsOfAll (calls : List (List Delivery)) : List Ticket :=
  calls.zipIdx.flatMap fun call => ticketsOf call.2 call.1

theorem mem_ticketsOfAll {calls : List (List Delivery)} {t : Ticket} : t ∈ ticketsOfAll calls ↔
    ∃ ds, calls[t.call]? = some ds ∧ t ∈ ticketsOf t.call ds := by
  rw [ticketsOfAll, List.mem_flatMap]
  constructor
  · rintro ⟨⟨ds, call⟩, hcall, ht⟩
    obtain rfl := call_of_mem_ticketsOf ht
    exact ⟨ds, List.mk_mem_zipIdx_iff_getElem?.mp hcall, ht⟩
  · rintro ⟨ds, hcall, ht⟩
    exact ⟨(ds, t.call), List.mk_mem_zipIdx_iff_getElem?.mpr hcall, ht⟩

/-- Tickets of different calls are different, and so are those of one. All that is said about each
being started once rests on this. -/
theorem nodup_ticketsOfAll (calls : List (List Delivery)) : (ticketsOfAll calls).Nodup := by
  refine List.nodup_flatMap.mpr ⟨fun call _ => nodup_ticketsOf call.2 call.1, ?_⟩
  have hdifferent : (calls.zipIdx.map Prod.snd).Pairwise (· ≠ ·) := by
    rw [List.zipIdx_map_snd]
    exact List.nodup_range'
  refine (List.pairwise_map.mp hdifferent).imp fun {call other} hne t ht hother => hne ?_
  rw [← call_of_mem_ticketsOf ht, call_of_mem_ticketsOf hother]

theorem ticketsOfAll_concat (calls : List (List Delivery)) (ds : List Delivery) :
    ticketsOfAll (calls ++ [ds]) = ticketsOfAll calls ++ ticketsOf calls.length ds := by
  rw [ticketsOfAll, List.zipIdx_append, List.flatMap_append]
  simp [ticketsOfAll]

/-- What can happen to fan-outs and to the transport that they use. Which of the ready turns is the
next one is not an event of its own here: an executor may put any of them first before a step,
`FanOut.prefer`. -/
inductive Event where
  | fanOut (ds : List Delivery)
  | step (now : Instant) (timeout : Duration)
  | expire (now : Instant)
  | lapse (now : Instant) (i : Nat)
  | fail (target : String)
  | stall (target : String)

/-- Fan-outs and their transport after an event. -/
def Event.apply : Event → FanOut × Recorder → FanOut × Recorder
  | .fanOut ds, (lane, rec) => (lane.queue ds, rec)
  | .step now timeout, (lane, rec) => lane.step now timeout rec
  | .expire now, (lane, rec) => (lane.expire now, rec)
  | .lapse now i, (lane, rec) => (lane.lapse now i, rec)
  | .fail target, (lane, rec) => (lane, rec.fail target)
  | .stall target, (lane, rec) => (lane, rec.stall target)

/-! ## Leaving away what a parcel adds -/

/-- The dispatcher of the images of what another one hands out. -/
def Dispatcher.map {δ ε : Type} (f : δ → ε) (x : Dispatcher δ) : Dispatcher ε :=
  ⟨f x.next, x.later.map f⟩

namespace FanOut

variable {δ ε : Type} (f : δ → ε)

def mapTurn : Turn δ → Turn ε
  | .ask x => .ask (x.map f)
  | .grant x => .grant (x.map f)
  | .send d => .send (f d)

def mapFlight (flight : Flight δ) : Flight ε := ⟨f flight.delivery, flight.deadline⟩

/-- The fan-outs that hand out the images of what others hand out. Nothing of what they do depends
on what it is that they hand out. -/
def map (lane : FanOut δ) : FanOut ε where
  free := lane.free
  line := lane.line.map (·.map f)
  ready := lane.ready.map (mapTurn f)
  aloft := lane.aloft.map (mapFlight f)

theorem map_asks (ds : List δ) : ((Dispatcher.ofList? ds).toList.map Turn.ask).map (mapTurn f) =
    (Dispatcher.ofList? (ds.map f)).toList.map Turn.ask := by
  cases ds with
  | nil => rfl
  | cons d ds => rfl

theorem map_queue (lane : FanOut δ) (ds : List δ) :
    (lane.queue ds).map f = (lane.map f).queue (ds.map f) := by
  simp only [queue, map, List.map_append, map_asks]

theorem map_release (lane : FanOut δ) : lane.release.map f = (lane.map f).release := by
  obtain ⟨free, line, ready, aloft⟩ := lane
  cases line with
  | nil => rfl
  | cons x line => simp [release, map, mapTurn]

theorem map_releases {α β : Type} (ended : List α) (ended' : List β)
    (hlength : ended.length = ended'.length) (lane : FanOut δ) :
    (ended.foldl (fun lane _ => lane.release) lane).map f =
      ended'.foldl (fun lane _ => lane.release) (lane.map f) := by
  induction ended generalizing ended' lane with
  | nil =>
      rw [List.length_nil, eq_comm, List.length_eq_zero_iff] at hlength
      rw [hlength]
      rfl
  | cons x ended ih =>
      cases ended' with
      | nil => cases hlength
      | cons y ended' =>
          rw [List.foldl_cons, List.foldl_cons, ← map_release]
          exact ih ended' (Nat.succ.inj hlength) _

theorem map_expire (lane : FanOut δ) (now : Instant) :
    (lane.expire now).map f = (lane.map f).expire now := by
  have hfilter (p : Duration → Bool) : (lane.map f).aloft.filter (fun flight => p flight.deadline) =
      (lane.aloft.filter fun flight => p flight.deadline).map (mapFlight f) := by
    rw [map, List.filter_map]
    rfl
  rw [expire, expire, map_releases f _ ((lane.map f).aloft.filter fun flight =>
    flight.deadline.nanos ≤ now.nanos)]
  · congr 1
    show FanOut.mk _ _ _ _ = FanOut.mk _ _ _ _
    congr 1
    exact (hfilter fun deadline => !decide (deadline.nanos ≤ now.nanos)).symm
  · rw [hfilter fun deadline => decide (deadline.nanos ≤ now.nanos), List.length_map]

theorem map_lapse (lane : FanOut δ) (now : Instant) (i : Nat) :
    (lane.lapse now i).map f = (lane.map f).lapse now i := by
  have hflight : (lane.map f).aloft[i]? = lane.aloft[i]?.map (mapFlight f) := List.getElem?_map
  have hrest : (lane.map f).aloft.eraseIdx i = (lane.aloft.eraseIdx i).map (mapFlight f) :=
    List.eraseIdx_map ..
  unfold lapse
  rw [hflight, hrest]
  cases lane.aloft[i]? with
  | none => rfl
  | some flight =>
      show _ = if flight.deadline.nanos ≤ now.nanos then _ else _
      dsimp only
      split
      · rw [map_release]
        rfl
      · rfl

theorem map_handOut (lane : FanOut δ) (x : Dispatcher δ) :
    (lane.handOut x).map f = (lane.map f).handOut (x.map f) := by
  simp only [handOut, map, List.map_append, map_asks, Dispatcher.map, List.map_cons, List.map_nil,
    mapTurn]

theorem map_ask (lane : FanOut δ) (x : Dispatcher δ) :
    (lane.ask x).map f = (lane.map f).ask (x.map f) := by
  obtain ⟨free, line, ready, aloft⟩ := lane
  cases free with
  | zero => simp [ask, map]
  | succ free => exact map_handOut f ⟨free, line, ready, aloft⟩ x

theorem map_send [Parcel δ] [Parcel ε] (hf : ∀ d, Parcel.delivery (f d) = Parcel.delivery d)
    (now : Instant) (timeout : Duration) (lane : FanOut δ) (rec : Recorder) (d : δ) :
    ((send now timeout lane rec d).1.map f, (send now timeout lane rec d).2) =
      send now timeout (lane.map f) rec (f d) := by
  simp only [send, hf]
  split
  · split
    · rw [map_release]
    · simp [map, mapFlight]
  · rw [map_release]

theorem map_step [Parcel δ] [Parcel ε] (hf : ∀ d, Parcel.delivery (f d) = Parcel.delivery d)
    (now : Instant) (timeout : Duration) (lane : FanOut δ) (rec : Recorder) :
    ((step now timeout lane rec).1.map f, (step now timeout lane rec).2) =
      step now timeout (lane.map f) rec := by
  have hmap : (lane.map f).ready = lane.ready.map (mapTurn f) := rfl
  rcases hready : lane.ready with _ | ⟨x | x | d, ready⟩
  · simp only [step, hmap, hready, List.map_nil]
  · simp only [step, hmap, hready, List.map_cons, mapTurn]
    rw [map_ask]
    rfl
  · simp only [step, hmap, hready, List.map_cons, mapTurn]
    rw [map_handOut]
    rfl
  · simp only [step, hmap, hready, List.map_cons, mapTurn]
    exact map_send f hf now timeout { lane with ready := ready } rec d

end FanOut

/-! ## The books -/

/-- Fan-outs that hand out tickets, how often they have been called, which tickets a permit has been
asked for, and which have started, in order. -/
structure Books where
  lane : FanOut Ticket
  transport : Recorder := {}
  calls : Nat := 0
  asked : List Ticket := []
  started : List Ticket := []

namespace Books

def empty (maxInFlight : Nat) : Books := { lane := .ofLimit maxInFlight }

def next (b : Books) : Event → Books
  | .fanOut ds => { b with lane := b.lane.queue (ticketsOf b.calls ds), calls := b.calls + 1 }
  | .step now timeout =>
    let (lane, transport) := b.lane.step now timeout b.transport
    { b with
      lane := lane
      transport := transport
      asked := b.asked ++ (b.lane.asking?.map Dispatcher.next).toList
      started := b.started ++ b.lane.starting?.toList }
  | .expire now => { b with lane := b.lane.expire now }
  | .lapse now i => { b with lane := b.lane.lapse now i }
  | .fail target => { b with transport := b.transport.fail target }
  | .stall target => { b with transport := b.transport.stall target }

def after (b : Books) : Option Event → Books
  | some e => b.next e
  | none => b

def called : Option Event → List (List Delivery)
  | some (.fanOut ds) => [ds]
  | _ => []

theorem calls_after (b : Books) (e? : Option Event) :
    (b.after e?).calls = b.calls + (called e?).length := by
  rcases e? with _ | e
  · rfl
  · cases e with
    | _ => rfl

/-- What a registry has of it: fan-outs of mere deliveries, and the transport. -/
def erase (b : Books) : FanOut × Recorder := (b.lane.map Ticket.delivery, b.transport)

/-- The books are kept on what really happens: leaving away the tickets after an event gives what
the event does to fan-outs of mere deliveries. Whatever the books say is therefore true of those. -/
theorem erase_next (b : Books) (e : Event) : (b.next e).erase = e.apply b.erase := by
  cases e with
  | fanOut ds =>
      show (FanOut.map _ (b.lane.queue _), b.transport) = _
      rw [FanOut.map_queue, map_ticketsOf]
      rfl
  | step now timeout =>
      exact FanOut.map_step Ticket.delivery (fun _ => rfl) now timeout b.lane b.transport
  | expire now =>
      show (FanOut.map _ (b.lane.expire now), b.transport) = _
      rw [FanOut.map_expire]
      rfl
  | lapse now i =>
      show (FanOut.map _ (b.lane.lapse now i), b.transport) = _
      rw [FanOut.map_lapse]
      rfl
  | fail | stall => rfl

/-! ## What events keep -/

theorem balanced_next {limit : Nat} {b : Books} (h : b.lane.Balanced limit) (e : Event) :
    (b.next e).lane.Balanced limit := by
  cases e with
  | fanOut ds => exact h.queue _
  | step now timeout => exact h.step now timeout b.transport
  | expire now => exact h.expire now
  | lapse now i => exact h.lapse now i
  | fail | stall => exact h

theorem served_next {limit : Nat} {b : Books} (hbalanced : b.lane.Balanced limit)
    (h : b.lane.Served b.asked b.started) (e : Event) :
    (b.next e).lane.Served (b.next e).asked (b.next e).started := by
  cases e with
  | fanOut ds => exact h.queue _
  | step now timeout => exact h.step hbalanced now timeout b.transport
  | expire now => exact h.expire now
  | lapse now i => exact h.lapse now i
  | fail | stall => exact h

/-- What an event does to the tickets by whether a permit has been asked for: it brings those of a
new call, or asks for the next one of a call, or does nothing to them. -/
inductive Shifted (b after : Books) (called : List (List Delivery)) : Prop
  | still (called : called = []) (asked : after.asked = b.asked)
      (unasked : after.lane.unasked.Perm b.lane.unasked)
  | call (ds : List Delivery) (called : called = [ds]) (asked : after.asked = b.asked)
      (unasked : after.lane.unasked.Perm (leftover (ticketsOf b.calls ds) ++ b.lane.unasked))
  | ask (x : Dispatcher Ticket) (others : List (List Ticket)) (called : called = [])
      (asked : after.asked = b.asked ++ [x.next]) (before : b.lane.unasked = x.rest :: others)
      (unasked : after.lane.unasked.Perm (leftover x.later ++ others))

theorem shifted_after (b : Books) (e? : Option Event) : b.Shifted (b.after e?) (called e?) := by
  rcases e? with _ | e
  · exact .still rfl rfl (.refl _)
  cases e with
  | fail | stall => exact .still rfl rfl (.refl _)
  | fanOut ds => exact .call ds rfl rfl (b.lane.unasked_queue _)
  | expire now => exact .still rfl rfl (.of_eq (b.lane.unasked_expire now))
  | lapse now i => exact .still rfl rfl (.of_eq (b.lane.unasked_lapse now i))
  | step now timeout =>
      rcases b.lane.shift now timeout b.transport with ⟨hask, hunasked⟩ |
        ⟨x, others, hask, hbefore, hunasked⟩
      · refine .still rfl ?_ hunasked
        show b.asked ++ _ = b.asked
        simp [hask]
      · refine .ask x others rfl ?_ hbefore hunasked
        show b.asked ++ _ = b.asked ++ _
        simp [hask]

/-- Every ticket of the calls has been asked for, or is left to a dispatcher, and only once. Each
call has asked for its tickets from the first on, and what a dispatcher has left is the rest of its
call. -/
structure Orderly (b : Books) (calls : List (List Delivery)) : Prop where
  placed : (b.asked ++ b.lane.unasked.flatten).Perm (ticketsOfAll calls)
  asked : ∀ call ds, calls[call]? = some ds →
    b.asked.filter (·.call = call) <+: ticketsOf call ds
  unasked : ∀ rest ∈ b.lane.unasked, ∃ call ds, calls[call]? = some ds ∧
    b.asked.filter (·.call = call) ++ rest = ticketsOf call ds

variable {b : Books} {calls : List (List Delivery)}

theorem Orderly.empty (maxInFlight : Nat) : (empty maxInFlight).Orderly [] :=
  ⟨.refl _, nofun, nofun⟩

theorem Orderly.call_lt (h : b.Orderly calls) {t : Ticket} (ht : t ∈ b.asked) :
    t.call < calls.length := by
  have hmem : t ∈ ticketsOfAll calls := h.placed.mem_iff.mp (List.mem_append_left _ ht)
  obtain ⟨ds, hcall, -⟩ := mem_ticketsOfAll.mp hmem
  exact (List.getElem?_eq_some_iff.mp hcall).1

theorem last_call {ds es : List Delivery} {call : Nat} (h : (calls ++ [ds])[call]? = some es) :
    calls[call]? = some es ∨ call = calls.length ∧ es = ds := by
  rw [List.getElem?_append] at h
  split at h
  · exact Or.inl h
  · rw [List.getElem?_singleton] at h
    split at h
    · exact Or.inr ⟨by omega, (Option.some.inj h).symm⟩
    · cases h

theorem Orderly.of_call {after : Books} {ds : List Delivery} (h : b.Orderly calls)
    (hsame : after.asked = b.asked) (hunasked : after.lane.unasked.Perm
      (leftover (ticketsOf calls.length ds) ++ b.lane.unasked)) :
    after.Orderly (calls ++ [ds]) := by
  -- None of the tickets of a call that has just come has been asked for.
  have hnone : b.asked.filter (·.call = calls.length) = [] := by
    apply List.filter_eq_nil_iff.mpr
    intro t ht
    simpa using Nat.ne_of_lt (h.call_lt ht)
  refine ⟨?_, ?_, ?_⟩
  · have hflatten : after.lane.unasked.flatten.Perm
        (ticketsOf calls.length ds ++ b.lane.unasked.flatten) := by
      simpa using hunasked.flatten
    rw [hsame, ticketsOfAll_concat]
    calc (b.asked ++ after.lane.unasked.flatten).Perm _ := hflatten.append_left _
      _ |>.Perm (b.asked ++ (b.lane.unasked.flatten ++ ticketsOf calls.length ds)) :=
        List.perm_append_comm.append_left _
      _ |>.Perm _ := .of_eq (List.append_assoc ..).symm
      _ |>.Perm _ := h.placed.append_right _
  · intro call es hcall
    rw [hsame]
    rcases last_call hcall with hold | ⟨rfl, rfl⟩
    · exact h.asked call es hold
    · rw [hnone]
      exact List.nil_prefix
  · intro rest hrest
    rw [hsame]
    rcases List.mem_append.mp (hunasked.mem_iff.mp hrest) with hnew | hold
    · refine ⟨calls.length, ds, List.getElem?_concat_length, ?_⟩
      rw [hnone, eq_of_mem_leftover hnew]
      rfl
    · obtain ⟨call, es, hcall, hparts⟩ := h.unasked rest hold
      refine ⟨call, es, ?_, hparts⟩
      rw [List.getElem?_append_left (List.getElem?_eq_some_iff.mp hcall).1, hcall]

/-- Asking takes the first of what is left to a dispatcher, and touches no other call: a second
dispatcher of the same call would have the same left, and a ticket is left to one only. -/
theorem Orderly.of_ask {after : Books} {x : Dispatcher Ticket} {others : List (List Ticket)}
    (h : b.Orderly calls) (hmore : after.asked = b.asked ++ [x.next])
    (hbefore : b.lane.unasked = x.rest :: others)
    (hunasked : after.lane.unasked.Perm (leftover x.later ++ others)) : after.Orderly calls := by
  have hplaced := h.placed
  have hnodup : (b.asked ++ b.lane.unasked.flatten).Nodup :=
    hplaced.nodup_iff.mpr (nodup_ticketsOfAll calls)
  rw [hbefore, List.flatten_cons] at hplaced hnodup
  -- The dispatcher belongs to one call, and what it asks for is the next ticket of that one.
  obtain ⟨call, ds, hcall, hparts⟩ := h.unasked x.rest (by simp [hbefore])
  have hmem : x.next ∈ ticketsOf call ds := by
    rw [← hparts]
    exact List.mem_append_right _ List.mem_cons_self
  have hown : x.next.call = call := call_of_mem_ticketsOf hmem
  have hself : after.asked.filter (·.call = call) =
      b.asked.filter (·.call = call) ++ [x.next] := by
    simp [hmore, List.filter_append, hown]
  have hother (other : Nat) (hne : other ≠ call) :
      after.asked.filter (·.call = other) = b.asked.filter (·.call = other) := by
    have hno : x.next.call ≠ other := fun heq => hne (heq.symm.trans hown)
    simp [hmore, List.filter_append, hno]
  refine ⟨?_, ?_, ?_⟩
  · refine List.Perm.trans ?_ hplaced
    rw [hmore, List.append_assoc]
    apply List.Perm.append_left
    simpa [Dispatcher.rest] using hunasked.flatten
  · intro other es hes
    by_cases heq : other = call
    · subst heq
      obtain rfl := Option.some.inj (hcall.symm.trans hes)
      rw [hself, ← hparts, List.prefix_append_right_inj]
      exact ⟨x.later, rfl⟩
    · rw [hother other heq]
      exact h.asked other es hes
  · -- Of its own call no other part is left on the lane: the next ticket would lie there twice.
    intro rest hrest
    rcases List.mem_append.mp (hunasked.mem_iff.mp hrest) with hnew | hold
    · refine ⟨call, ds, hcall, ?_⟩
      rw [hself, eq_of_mem_leftover hnew, List.append_assoc]
      exact hparts
    · obtain ⟨other, es, hes, hsum⟩ := h.unasked rest (by simp [hbefore, hold])
      refine ⟨other, es, hes, ?_⟩
      by_cases heq : other = call
      · subst heq
        obtain rfl := Option.some.inj (hcall.symm.trans hes)
        have hsame : rest = x.rest := List.append_cancel_left (hsum.trans hparts.symm)
        have hnext : x.next ∈ others.flatten :=
          List.mem_flatten.mpr ⟨rest, hold, by simp [hsame, Dispatcher.rest]⟩
        have hdisjoint := (List.nodup_append.mp (List.nodup_append.mp hnodup).2.1).2.2
        exact absurd rfl (hdisjoint x.next (by simp [Dispatcher.rest]) x.next hnext)
      · rw [hother other heq]
        exact hsum

theorem Orderly.of_still {after : Books} (h : b.Orderly calls) (hsame : after.asked = b.asked)
    (hunasked : after.lane.unasked.Perm b.lane.unasked) : after.Orderly calls := by
  refine ⟨?_, ?_, ?_⟩
  · rw [hsame]
    exact (hunasked.flatten.append_left _).trans h.placed
  · rw [hsame]
    exact h.asked
  · intro rest hrest
    rw [hsame]
    exact h.unasked rest (hunasked.mem_iff.mp hrest)

theorem Orderly.after (h : b.Orderly calls) (hnumbered : b.calls = calls.length)
    (e? : Option Event) : (b.after e?).Orderly (calls ++ called e?) := by
  cases b.shifted_after e? with
  | still hcalled hsame hunasked =>
      rw [hcalled, List.append_nil]
      exact h.of_still hsame hunasked
  | call ds hcalled hsame hunasked =>
      rw [hcalled]
      rw [hnumbered] at hunasked
      exact h.of_call hsame hunasked
  | ask x others hcalled hmore hbefore hunasked =>
      rw [hcalled, List.append_nil]
      exact h.of_ask hmore hbefore hunasked

end Books
end Rollcall
