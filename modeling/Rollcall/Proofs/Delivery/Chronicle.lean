import Rollcall.Proofs.Delivery.Attempts
import Rollcall.Proofs.Registry.Audience
import Rollcall.Proofs.Registry.Requests

/-!
# Calls and deliveries together

A docket knows which step of which call does what, a journal what is delivered when. A chronicle
keeps both: the calls in progress, made directly or by requests, take their steps in any order, and
in between the office starts what has been queued, in any order too.

* `Chronicle.Agrees` — the two tell of the same registry, and every fan-out and every catch-up in
  the journal was called for by a step on the docket;
* `Chronicle.delivers_what_suits` — so every delivery that is attempted suits whom it is meant for.
-/

namespace Rollcall

/-! ## Registries that differ in what they have queued -/

namespace Registry

def onLane (r : Registry) (lane : FanOut) : Registry := { r with lane := lane }

theorem onLane_onLane {r r' : Registry} {lane : FanOut} (h : r = r'.onLane lane) (after : FanOut) :
    r.onLane after = r'.onLane after := by
  rw [h]
  rfl

variable (r : Registry) (lane : FanOut)

theorem news?_onLane (x : Action) : (r.onLane lane).news? x = r.news? x := by
  cases x with
  | _ => rfl

theorem catchUp?_onLane (x : Action) : (r.onLane lane).catchUp? x = r.catchUp? x := by
  cases x with
  | _ => rfl

/-- What an action does, but for what it queues, hangs on nothing that is queued. This is why calls
can be looked at without deliveries. -/
theorem act_onLane (x : Action) :
    (r.onLane lane).act x = (r.act x).onLane ((r.onLane lane).act x).lane := by
  cases x with
  | remove role url =>
      simp only [act, remove, onLane, depart]
      cases r.directory.remove? role url with
      | none => rfl
      | some taken => rfl
  | evict stale =>
      simp only [act, evict, onLane, depart]
      cases r.directory.evict? stale with
      | none => rfl
      | some taken => rfl
  | _ => rfl

end Registry

/-! ## Chronicles -/

/-- Whether an incident brings something new to deliver. -/
def Incident.brings : Incident → Bool
  | act _ | fanOut .. | deliver _ => true
  | _ => false

/-- The calls at a registry and the deliveries, kept side by side: the docket knows whose step has
called which fan-out, and the journal what has become of it. -/
structure Chronicle where
  docket : Docket
  journal : Journal

/-- What can happen next: a call is made or takes a step, a request comes, or the office goes on
with what it has to deliver. Nothing is said of the order in which these come. -/
inductive Motion where
  | call (m : Traffic.Move)
  | request (request : Http.Request)
  | turn
  | expire
  | wait (span : Duration)
  | fail (target : String)
  | stall (target : String)
  | prefer (i : Nat)

namespace Chronicle

def start (settings : RegistrySettings) (supply : IdSupply) (clock : Instant) : Chronicle where
  docket := .start settings supply clock
  journal := .start settings supply

/-- A move of the calls; what it does at the registry it does at the office. -/
def move (x : Chronicle) (m : Traffic.Move) : Chronicle where
  docket := x.docket.next m
  journal := x.journal.run ((x.docket.erase.action? m).toList.map .act)

def meet (x : Chronicle) (i : Incident) : Chronicle := { x with journal := x.journal.next i }

def next (key : AccessKey) (x : Chronicle) : Motion → Chronicle
  | .call m => x.move m
  | .request request => match Registry.Api.visit? key request with
    | some v => x.move (.visit v)
    | none => x
  | .turn => x.meet (.turn .own)
  | .expire => x.meet (.expire .own)
  | .wait span => x.meet (.wait span)
  | .fail target => x.meet (.fail target)
  | .stall target => x.meet (.stall target)
  | .prefer i => { x with journal := x.journal.prefer .own i }

def run (key : AccessKey) (x : Chronicle) (motions : List Motion) : Chronicle :=
  motions.foldl (next key) x

/-- The moves of the calls in a run. -/
def moves (key : AccessKey) (motions : List Motion) : List Traffic.Move :=
  motions.filterMap fun
    | .call m => some m
    | .request request => (Registry.Api.visit? key request).map .visit
    | _ => none

theorem docket_run (key : AccessKey) (x : Chronicle) (motions : List Motion) :
    (x.run key motions).docket = x.docket.run (moves key motions) := by
  induction motions generalizing x with
  | nil => rfl
  | cons m motions ih =>
      refine (ih (x.next key m)).trans ?_
      cases m with
      | request request =>
          simp only [next, moves, List.filterMap_cons]
          cases Registry.Api.visit? key request with
          | none => rfl
          | some v => rfl
      | _ => rfl

end Chronicle

/-! ## What docket and journal agree on -/

namespace Docket

variable {d d' : Docket}

/-- A step of the log has called this fan-out. A delivery that is in no such fan-out, and in no
catch-up that a step has found, is never attempted. -/
def Called (d : Docket) (ds : List Delivery) : Prop :=
  ∃ s ∈ d.log, ∃ news recipients, s.fanOut? = some (news, recipients) ∧
    ds = deliveriesOf news recipients

/-- A step of the log has found this catch-up. -/
def Found (d : Docket) (delivery : Delivery) : Prop :=
  ∃ s ∈ d.log, ∃ a, s.errand = .announce a ∧ (s.registry.announce a).2 = some delivery

theorem log_subset_next (d : Docket) (m : Traffic.Move) : d.log ⊆ (d.next m).log := by
  rcases d.next_cases m with ⟨hsame, -⟩ | ⟨i, call, errand, -, heq⟩
  · rw [hsame]
    exact List.Subset.refl _
  · rw [heq]
    exact List.subset_append_left _ _

theorem Called.mono {ds : List Delivery} (h : d.Called ds) (hlog : d.log ⊆ d'.log) :
    d'.Called ds := by
  obtain ⟨s, hs, hcalled⟩ := h
  exact ⟨s, hlog hs, hcalled⟩

theorem Found.mono {delivery : Delivery} (h : d.Found delivery) (hlog : d.log ⊆ d'.log) :
    d'.Found delivery := by
  obtain ⟨s, hs, hfound⟩ := h
  exact ⟨s, hlog hs, hfound⟩

/-- An action at the registry is always that of a step of some call, and that step is entered into
the log. -/
theorem exists_step_of_action {m : Traffic.Move} {x : Action} (h : d.erase.action? m = some x) :
    ∃ s ∈ (d.next m).log, s.action? = some x ∧ s.registry = d.registry := by
  cases m with
  | visit | wait => cases h
  | advance i =>
      have hget : d.erase.errands[i]? = d.callers[i]?.map (·.2) := List.getElem?_map
      rw [Traffic.action?, hget] at h
      cases hcaller : d.callers[i]? with
      | none =>
          rw [hcaller] at h
          cases h
      | some caller =>
          obtain ⟨call, errand⟩ := caller
          rw [hcaller] at h
          refine ⟨⟨call, errand, d.registry, d.clock⟩, ?_, h, rfl⟩
          simp only [next, hcaller]
          exact List.mem_append_right _ (List.mem_singleton_self _)

theorem registry_next (d : Docket) (m : Traffic.Move) :
    (d.next m).registry = d.registry.actAll (d.erase.action? m).toList := by
  have hmove := Traffic.registry_move d.erase m
  rw [← erase_next] at hmove
  exact hmove

end Docket

namespace Chronicle

variable {settings : RegistrySettings} {supply : IdSupply} {x : Chronicle}

structure Agrees (settings : RegistrySettings) (supply : IdSupply) (x : Chronicle) : Prop where
  reachable : x.journal.Reachable settings supply
  registry : ∃ lane, x.journal.office.registry = x.docket.registry.onLane lane
  own : ∀ ds ∈ x.journal.calls .own, x.docket.Called ds
  side : x.journal.calls .side = []
  awaited : ∀ delivery ∈ x.journal.awaited, x.docket.Found delivery

theorem Agrees.start (settings : RegistrySettings) (supply : IdSupply) (clock : Instant) :
    (start settings supply clock).Agrees settings supply where
  reachable := .start
  registry := ⟨_, rfl⟩
  own _ h := absurd h List.not_mem_nil
  side := rfl
  awaited _ h := absurd h List.not_mem_nil

theorem Agrees.move (h : x.Agrees settings supply) (m : Traffic.Move) :
    (x.move m).Agrees settings supply := by
  have hlog := x.docket.log_subset_next m
  have hregistry := x.docket.registry_next m
  obtain ⟨lane, hsame⟩ := h.registry
  unfold Chronicle.move
  cases haction : x.docket.erase.action? m with
  | none =>
      rw [haction] at hregistry
      -- The move is none of the directory's, so the journal stays as it is.
      refine ⟨h.reachable, ⟨lane, ?_⟩, fun ds hds => (h.own ds hds).mono hlog, h.side,
        fun delivery hdelivery => (h.awaited delivery hdelivery).mono hlog⟩
      rw [hregistry]
      exact hsame
  | some action =>
      rw [haction] at hregistry
      obtain ⟨s, hs, hsaction, hsregistry⟩ := Docket.exists_step_of_action haction
      -- The registry of the office and that of the docket differ by the lane only, and neither the
      -- news nor the catch-up of an action depends on it.
      have hnews : x.journal.office.registry.news? action = s.registry.news? action := by
        rw [hsame, Registry.news?_onLane, hsregistry]
      have hcatchUp : x.journal.office.registry.catchUp? action = s.registry.catchUp? action := by
        rw [hsame, Registry.catchUp?_onLane, hsregistry]
      refine ⟨h.reachable.next _, ⟨(x.journal.office.registry.act action).lane, ?_⟩,
        fun ds hds => ?_, ?_, fun delivery hdelivery => ?_⟩
      · show x.journal.office.registry.act action = _
        rw [hregistry, hsame]
        exact Registry.act_onLane _ _ _
      · rcases List.mem_append.mp hds with hold | hnew
        · exact (h.own ds hold).mono hlog
        · change ds ∈ Books.called ((x.journal.office.registry.news? action).map _) at hnew
          rw [hnews] at hnew
          cases htold : s.registry.news? action with
          | none =>
              rw [htold] at hnew
              cases hnew
          | some told =>
              rw [htold] at hnew
              refine ⟨s, hs, told.1, told.2, ?_, List.mem_singleton.mp hnew⟩
              rw [Step.fanOut?, hsaction]
              exact htold
      · exact (List.append_nil _).trans h.side
      · rcases List.mem_append.mp hdelivery with hold | hnew
        · exact (h.awaited delivery hold).mono hlog
        · change delivery ∈ (x.journal.office.registry.catchUp? action).toList at hnew
          rw [hcatchUp, Option.mem_toList] at hnew
          cases action with
          | announce a => exact ⟨s, hs, a, (Traffic.next_opening hsaction).2 a rfl, hnew⟩
          | _ => cases hnew

theorem Agrees.meet (h : x.Agrees settings supply) {i : Incident} (hi : i.brings = false) :
    (x.meet i).Agrees settings supply := by
  obtain ⟨lane, hsame⟩ := h.registry
  -- Nothing new is called or awaited, so only the lanes move.
  have hcalled (k : Desk) : Books.called (x.journal.office.event? k i) = [] := by
    cases i with
    | act | fanOut | deliver => cases hi
    | turn desk | expire desk | lapse desk =>
        rw [Office.event?]
        split
        · rfl
        · rfl
    | _ => rfl
  have hcalls (k : Desk) : (x.journal.next i).calls k = x.journal.calls k := by
    show x.journal.calls k ++ _ = _
    rw [hcalled, List.append_nil]
  have hawaited : (x.journal.next i).awaited = x.journal.awaited := by
    cases i with
    | act | fanOut | deliver => cases hi
    | _ => exact List.append_nil _
  refine ⟨h.reachable.next i, ?_, ?_, ?_, ?_⟩
  · show ∃ lane, (x.journal.office.meet i).registry = _
    cases i with
    | act | fanOut | deliver => cases hi
    | turn desk | expire desk | lapse desk =>
        cases desk with
        | own => exact ⟨_, Registry.onLane_onLane hsame _⟩
        | side => exact ⟨lane, hsame⟩
    | _ => exact ⟨lane, hsame⟩
  · show ∀ ds ∈ (x.journal.next i).calls .own, _
    rw [hcalls]
    exact h.own
  · show (x.journal.next i).calls .side = []
    rw [hcalls]
    exact h.side
  · show ∀ delivery ∈ (x.journal.next i).awaited, _
    rw [hawaited]
    exact h.awaited

theorem Agrees.prefer (h : x.Agrees settings supply) (i : Nat) :
    Agrees settings supply { x with journal := x.journal.prefer .own i } := by
  obtain ⟨lane, hsame⟩ := h.registry
  refine ⟨h.reachable.prefer .own i, ⟨(x.journal.office.lane .own).prefer i, ?_⟩, h.own, h.side,
    h.awaited⟩
  show x.journal.office.registry.onLane _ = _
  exact Registry.onLane_onLane hsame _

theorem Agrees.next (key : AccessKey) (h : x.Agrees settings supply) (m : Motion) :
    (x.next key m).Agrees settings supply := by
  cases m with
  | call m => exact h.move m
  | request request =>
      unfold Chronicle.next
      dsimp only
      split
      · exact h.move _
      · exact h
  | prefer i => exact h.prefer i
  | turn => exact h.meet (i := .turn .own) rfl
  | expire => exact h.meet (i := .expire .own) rfl
  | wait span => exact h.meet (i := .wait span) rfl
  | fail target => exact h.meet (i := .fail target) rfl
  | stall target => exact h.meet (i := .stall target) rfl

theorem Agrees.run (key : AccessKey) (h : x.Agrees settings supply) (motions : List Motion) :
    (x.run key motions).Agrees settings supply := by
  induction motions generalizing x with
  | nil => exact h
  | cons m motions ih => exact ih (h.next key m)

end Chronicle

/-! ## Whom a delivery is meant for -/

/-- Whoever has an admission to announce has made it. -/
theorem Errand.follows_admitted : Follows fun own e =>
    ∀ a, e.unannounced? = some a → ∃ s ∈ own, s.admission? = some a := by
  refine ⟨fun e h a ha => ?_, fun own s e h hrest a ha => ?_⟩
  · cases h with
    | _ => cases ha
  · rcases Traffic.unannounced_next hrest ha with hheld | ⟨reg, herrand, rfl⟩
    · obtain ⟨earlier, hearlier, hadmission⟩ := h a hheld
      exact ⟨earlier, List.mem_append_left _ hearlier, hadmission⟩
    · refine ⟨s, List.mem_append_right _ (List.mem_singleton_self s), ?_⟩
      rw [Step.admission?, herrand]

namespace Docket

/-- A delivery is meant for a registration: a catch-up for the one that the call has submitted which
found it, and the part of some news for the entry that the directory held when it was called. -/
def Meant (d : Docket) : Item → Registration → Prop
  | .awaited delivery, reg => ∃ s ∈ d.log, ∃ a, s.errand = .announce a ∧
    (s.registry.announce a).2 = some delivery ∧
    ∃ own ∈ d.log, own.call = s.call ∧ own.errand = .enroll reg ∧ own.admission? = some a
  | .ticket _ t, entry => ∃ s ∈ d.log, ∃ news recipients, s.fanOut? = some (news, recipients) ∧
    entry ∈ recipients ∧ entry ∈ s.registry.directory.entries ∧
    t.delivery = ⟨entry.updateUrl, news.scopedTo entry⟩

variable (settings : RegistrySettings) (supply : IdSupply) (clock : Instant)
  (moves : List Traffic.Move)

theorem suits_of_found {delivery : Delivery}
    (h : ((start settings supply clock).run moves).Found delivery) :
    ∃ reg, ((start settings supply clock).run moves).Meant (.awaited delivery) reg ∧
      delivery.Suits reg := by
  obtain ⟨s, hs, a, herrand, hfound⟩ := h
  obtain ⟨t, hvalid, hmem, -, -⟩ := valid_run settings supply clock moves s hs
  have hsuits : delivery.Suits a.registration := by
    refine Registry.suits_of_catchUp (hvalid.errands _ hmem _ ?_) hfound
    rw [herrand]
    rfl
  obtain ⟨before, after, hlog⟩ := List.append_of_mem hs
  obtain ⟨own, hown, hadmission⟩ := (coursed_run Errand.follows_admitted settings supply clock
    moves).logged before s after hlog a (by rw [herrand]; rfl)
  obtain ⟨hin, hcall⟩ := mem_courseOf.mp hown
  obtain ⟨reg, hsubmitted, -, rfl⟩ := Step.admission?_eq hadmission
  refine ⟨reg, ⟨s, hs, _, herrand, hfound, own, ?_, hcall, hsubmitted, hadmission⟩, ?_⟩
  · rw [hlog]
    exact List.mem_append_left _ hin
  -- What has been submitted differs from what is announced by the identifier only.
  · rw [Registry.registration_enroll] at hsuits
    exact ⟨hsuits.target, hsuits.given, hsuits.news, hsuits.oneWay, hsuits.asked, hsuits.others⟩

theorem suits_of_called {desk : Desk} {t : Ticket} {ds : List Delivery}
    (h : ((start settings supply clock).run moves).Called ds) (ht : t.delivery ∈ ds) :
    ∃ reg, ((start settings supply clock).run moves).Meant (.ticket desk t) reg ∧
      t.delivery.Suits reg := by
  obtain ⟨s, hs, news, recipients, hfanOut, rfl⟩ := h
  obtain ⟨traffic, hvalid, -, hregistry, -⟩ := valid_run settings supply clock moves s hs
  have hentries := hvalid.entries
  rw [hregistry] at hentries
  obtain ⟨x, -, hnews⟩ := Option.bind_eq_some_iff.mp hfanOut
  obtain ⟨entry, hthere, hentry, hpart, hsuits⟩ := Registry.suits_of_news hentries hnews ht
  exact ⟨entry, ⟨s, hs, news, recipients, hfanOut, hentry, hthere, hpart⟩, hsuits⟩

end Docket

namespace Chronicle

/-- Every delivery that the transport attempts suits whom it is meant for, whatever calls and
requests come, however they take their steps and in whatever order the deliveries start. -/
theorem delivers_what_suits (settings : RegistrySettings) (supply : IdSupply) (clock : Instant)
    (key : AccessKey) (motions : List Motion) :
    let x := (start settings supply clock).run key motions
    x.journal.office.transport.attempts = x.journal.log.length ∧
      ∀ s ∈ x.journal.log, ∃ reg, x.docket.Meant s.item reg ∧ s.delivery.Suits reg := by
  intro x
  have hagrees := (Agrees.start settings supply clock).run key motions
  have hkept := hagrees.reachable.kept
  refine ⟨hkept.attempts, fun s hs => ?_⟩
  have hdocket : x.docket = (Docket.start settings supply clock).run (moves key motions) :=
    docket_run key (start settings supply clock) motions
  obtain ⟨item, transport, time⟩ := s
  cases item with
  | awaited delivery =>
      have hfound := hagrees.awaited delivery (by
        rw [← hkept.awaited]
        exact List.mem_filterMap.mpr ⟨_, hs, rfl⟩)
      rw [hdocket]
      exact Docket.suits_of_found settings supply clock _ (hdocket ▸ hfound)
  | ticket desk t =>
      -- A delivery of a fan-out comes from a call, and that from a move which announces.
      have hstarted : t ∈ x.journal.started desk :=
        List.mem_filterMap.mpr ⟨_, hs, if_pos rfl⟩
      have hticket : t ∈ x.journal.tickets desk :=
        (hkept.tickets_perm desk).mem_iff.mp (List.mem_append_left _ hstarted)
      obtain ⟨⟨ds, call⟩, hcall, hin⟩ := List.mem_flatMap.mp hticket
      have hds : ds ∈ x.journal.calls desk := List.fst_mem_of_mem_zipIdx hcall
      have ht : t.delivery ∈ ds := by
        rw [← map_ticketsOf call ds]
        exact List.mem_map_of_mem hin
      cases desk with
      | side =>
          -- Nobody calls a fan-out but the registry itself.
          rw [show x.journal.calls .side = [] from hagrees.side] at hds
          cases hds
      | own =>
          rw [hdocket]
          exact Docket.suits_of_called settings supply clock _ (hdocket ▸ hagrees.own ds hds) ht

/-- A web server comes and is told of the log that is there. Then the log deregisters, and the web
server is told of that. -/
theorem web_hears_of_log :
    let log : Registration := { role := .log, url := "http://p" }
    let web : Registration := {
      role := .web, url := "http://w", requires := RoleSet.ofList [.log]
      updateUrl := "http://w/n" }
    let supply : IdSupply := .numbered 'i' [] [] 'd' (by decide) (by decide)
    let known : Registration := { log with id := supply.mint 1 }
    let motions : List Motion := [.call (.visit (.register log)), .call (.advance 0),
      .call (.advance 0), .call (.advance 0), .call (.visit (.register web)), .call (.advance 0),
      .call (.advance 0), .call (.advance 0), .call (.visit (.deregister .log "http://p")),
      .call (.advance 0), .turn, .turn]
    let x := (start ⟨⟨60⟩, ⟨9⟩, ⟨9⟩, 1⟩ supply ⟨0⟩).run ⟨"key"⟩ motions
    (∃ s ∈ x.journal.log, s.delivery = ⟨"http://w/n", .ofAdded [known]⟩ ∧
      ∃ reg, x.docket.Meant s.item reg ∧ s.delivery.Suits reg) ∧
    ∃ s ∈ x.journal.log, s.delivery = ⟨"http://w/n", .ofRemoved [known]⟩ ∧
      ∃ reg, x.docket.Meant s.item reg ∧ s.delivery.Suits reg := by
  intro log web supply known motions x
  let caughtUp : Start := x.journal.log.get ⟨0, by decide +kernel⟩
  let told : Start := x.journal.log.get ⟨1, by decide +kernel⟩
  have hcaughtUp : caughtUp ∈ x.journal.log := List.get_mem _ _
  have htold : told ∈ x.journal.log := List.get_mem _ _
  obtain ⟨-, hsuits⟩ := delivers_what_suits ⟨⟨60⟩, ⟨9⟩, ⟨9⟩, 1⟩ supply ⟨0⟩ ⟨"key"⟩ motions
  exact ⟨⟨caughtUp, hcaughtUp, by decide +kernel, hsuits caughtUp hcaughtUp⟩,
    told, htold, by decide +kernel, hsuits told htold⟩

end Chronicle
end Rollcall
