import Rollcall.Proofs.Delivery.Journal
import Rollcall.Proofs.Registry.Issued
import Rollcall.Proofs.Registry.Operation
import Rollcall.Registry.Timeline

/-!
# The order of deliveries

Which of two deliveries starts first is decided in three places. A fan-out asks for its deliveries
in the order of the recipients, one at a time. The permits go to those who ask in the order in which
they ask, whatever call they belong to. And a delivery that has its permit starts when the executor
lets it run, so it may overtake others, but only such as hold a permit too: fewer than there are
permits.

Nothing else orders the deliveries of different calls. Each call has a dispatcher of its own, and
whose turn comes first, and how far a dispatcher gets before another one asks, is up to the executor
and to the permits that are free at that moment.

Main statement: `starts_in_order`, for all journals and whatever may happen after them. That there
is no more to it is shown by `removed_before_added`, in which a recipient hears that an instance has
gone before it hears that it has come, for either of two reasons.
-/

namespace Rollcall

namespace Journal

variable {settings : RegistrySettings} {supply : IdSupply} {j later : Journal}

/-- What may come of a journal, in whatever order the executor lets things run. -/
inductive Continues (j : Journal) : Journal → Prop
  | refl : Continues j j
  | next {later : Journal} (h : Continues j later) (i : Incident) : Continues j (later.next i)
  | prefer {later : Journal} (h : Continues j later) (k : Desk) (i : Nat) :
    Continues j (later.prefer k i)

theorem Reachable.continues (h : j.Reachable settings supply) (hlater : j.Continues later) :
    later.Reachable settings supply := by
  induction hlater with
  | refl => exact h
  | next _ i ih => exact ih.next i
  | prefer _ k i ih => exact ih.prefer k i

theorem asked_after (b : Books) (e? : Option Event) : b.asked <+: (b.after e?).asked := by
  cases b.shifted_after e? with
  | still _ hsame _ => rw [hsame]
  | call ds _ hsame _ => rw [hsame]
  | ask x others _ hmore _ _ =>
      rw [hmore]
      exact List.prefix_append _ _

/-- Who has asked has asked before all who have not. What has been asked for is only ever added to
at its end. -/
theorem Continues.asked (h : j.Continues later) (k : Desk) :
    (j.books k).asked <+: (later.books k).asked := by
  induction h with
  | refl => exact List.prefix_rfl
  | next _ i ih => exact ih.trans (asked_after _ _)
  | prefer _ desk i ih => exact books_prefer (p := fun b => _ <+: b.asked) ih ih

/-- Whatever has started has been asked for. Of what had been asked for before it, fewer than
`limit` deliveries had not started yet when it did. -/
def Punctual (limit : Nat) (asked started : List Ticket) : Prop :=
  ∀ front t back, started = front ++ t :: back → ∃ before after, asked = before ++ t :: after ∧
    (before.filter (· ∉ front)).length < limit

theorem Punctual.append {limit : Nat} {asked started : List Ticket}
    (h : Punctual limit asked started) (more : List Ticket) :
    Punctual limit (asked ++ more) started := by
  intro front t back hstarted
  obtain ⟨before, after, rfl, hfew⟩ := h front t back hstarted
  exact ⟨before, after ++ more, by simp, hfew⟩

theorem Punctual.concat {limit : Nat} {asked started : List Ticket} {t : Ticket}
    (h : Punctual limit asked started) (hnew : ∃ before after, asked = before ++ t :: after ∧
      (before.filter (· ∉ started)).length < limit) : Punctual limit asked (started ++ [t]) := by
  intro front u back hstarted
  rcases List.eq_nil_or_concat back with rfl | ⟨back, last, rfl⟩
  · obtain ⟨rfl, hlast⟩ := List.append_inj' hstarted rfl
    obtain rfl := List.singleton_inj.mp hlast
    exact hnew
  · rw [List.concat_eq_append, ← List.cons_append, ← List.append_assoc] at hstarted
    exact h front u back (List.append_inj' hstarted rfl).1

theorem Kept.started_before_next (h : j.Kept settings) {k : Desk} {t : Ticket}
    (hstart : (j.books k).lane.starting? = some t) :
    t ∈ (j.books k).lane.sends ∧ t ∉ (j.books k).started := by
  have hsends : t ∈ (j.books k).lane.sends := by
    obtain ⟨turn, hhead, hturn⟩ := Option.bind_eq_some_iff.mp hstart
    exact List.mem_filterMap.mpr ⟨turn, List.mem_of_head? hhead, hturn⟩
  refine ⟨hsends, ?_⟩
  have hnodup := (h.tickets_perm k).nodup_iff.mpr (nodup_ticketsOfAll _)
  rw [h.started k]
  intro hstarted
  exact (List.nodup_append.mp hnodup).2.2 t hstarted t (List.mem_append_left _ hsends) rfl

/-- All starts are punctual: a step that starts a ticket takes it from those that hold a permit, and
these are the only ones it can overtake. -/
theorem Reachable.punctual (h : j.Reachable settings supply) (k : Desk) :
    Punctual (max 1 settings.maxInFlight) (j.books k).asked (j.books k).started := by
  induction h with
  | start => exact fun front t back hstarted => by simp [Journal.start, Books.empty] at hstarted
  | prefer _ desk i ih => exact books_prefer (p := fun b => Punctual _ b.asked b.started) ih ih
  | @next j h i ih =>
      have hkept := h.kept
      show Punctual _ ((j.books k).after (j.office.event? k i)).asked
        ((j.books k).after (j.office.event? k i)).started
      -- What is asked for only grows, so what is known of those that have started stays true.
      obtain ⟨more, hasked⟩ := asked_after (j.books k) (j.office.event? k i)
      rw [← hasked]
      -- A delivery starts in a turn of its own lane and at no other time.
      by_cases hturn : i = .turn k
      · subst hturn
        rw [Office.event?, if_pos rfl]
        show Punctual _ _ ((j.books k).started ++ (j.books k).lane.starting?.toList)
        cases hstart : (j.books k).lane.starting? with
        | none =>
            rw [Option.toList_none, List.append_nil]
            exact ih.append more
        | some t =>
            obtain ⟨hsends, hnew⟩ := hkept.started_before_next hstart
            apply (ih.append more).concat
            obtain ⟨before, after, hsplit, hfew⟩ :=
              (hkept.served k).overtaken_le (hkept.balanced k) hsends hnew
            exact ⟨before, after ++ more, by rw [hsplit]; simp, hfew⟩
      · rw [started_after fun now timeout hstep => hturn (Office.event?_eq_step hstep).1]
        exact ih.append more

/-- With one permit nothing can be overtaken, so what has started is a beginning of what has been
asked for. -/
theorem Punctual.started_prefix {asked started : List Ticket} (h : Punctual 1 asked started)
    (hasked : asked.Nodup) (hstarted : started.Nodup) : started <+: asked := by
  -- By induction on what has started, latest last. With one permit nothing may be overtaken.
  induction started using List.reverseRecOn with
  | nil => exact List.nil_prefix
  | append_singleton front t ih =>
      obtain ⟨hnodup, -, hnew⟩ := List.nodup_append.mp hstarted
      have hfront : front <+: asked := by
        apply ih _ hnodup
        intro one u back hsplit
        exact h one u (back ++ [t]) (by rw [hsplit]; simp)
      obtain ⟨before, after, rfl, hnone⟩ := h front t [] rfl
      have hall : ∀ u ∈ before, u ∈ front := by
        have hnil := List.eq_nil_of_length_eq_zero (Nat.lt_one_iff.mp hnone)
        simpa using List.filter_eq_nil_iff.mp hnil
      -- What has been asked for before `t`, and what has started before it, are both prefixes of
      -- what has been asked for. They are the same: one more in the first would have started,
      -- and one more in the second would be `t`.
      rcases List.prefix_or_prefix_of_prefix hfront (List.prefix_append before (t :: after)) with
        ⟨rest, rfl⟩ | ⟨rest, rfl⟩
      · cases rest with
        | nil => exact ⟨after, by simp⟩
        | cons u rest =>
            have hu := hall u (by simp)
            simp only [List.append_assoc, List.cons_append] at hasked
            exact absurd rfl ((List.nodup_append.mp hasked).2.2 u hu u List.mem_cons_self)
      · cases rest with
        | nil => exact ⟨after, by simp⟩
        | cons u rest =>
            obtain ⟨tail, htail⟩ := hfront
            rw [List.append_assoc] at htail
            obtain ⟨rfl, -⟩ := List.cons.inj (List.append_cancel_left htail)
            exact absurd rfl (hnew u (by simp) u List.mem_cons_self)

theorem Kept.nodup_asked (h : j.Kept settings) (k : Desk) : (j.books k).asked.Nodup :=
  ((h.orderly k).placed.nodup_iff.mpr (nodup_ticketsOfAll _)).of_append_left

/-- With one permit deliveries start in the order in which they are asked for. -/
theorem Reachable.started_prefix (h : j.Reachable settings supply) (k : Desk)
    (hone : settings.maxInFlight ≤ 1) : j.started k <+: (j.books k).asked := by
  have hpunctual := h.punctual k
  rw [h.kept.started k, Nat.max_eq_left hone] at hpunctual
  exact hpunctual.started_prefix (h.kept.nodup_asked k) (h.kept.nodup_started k)

end Journal

/-- The order in which deliveries start, whatever fan-outs are called, whoever fails or stalls, and
in whatever order an executor runs dispatchers, deliveries and timeouts. With `limit` permits:

* a call asks for its deliveries in the order of its recipients;
* when a delivery starts, fewer than `limit` of those asked for before it have not started yet;
* if at some moment `i` has been asked for and `t` has not, then `i` comes before `t` in what is
  asked for from then on. So when `t` starts, `i` has started, or is one of the fewer than `limit`
  that `t` has overtaken; and with one permit `i` has started. -/
theorem starts_in_order {settings : RegistrySettings} {supply : IdSupply} {j : Journal}
    (h : j.Reachable settings supply) (k : Desk) :
    let limit := max 1 settings.maxInFlight
    (j.books k).lane.map Ticket.delivery = j.office.lane k ∧
    (∀ call ds, (j.calls k)[call]? = some ds →
      (j.books k).asked.filter (·.call = call) <+: ticketsOf call ds) ∧
    (∀ front t back, j.started k = front ++ t :: back → ∃ before after,
      (j.books k).asked = before ++ t :: after ∧ (before.filter (· ∉ front)).length < limit) ∧
    (settings.maxInFlight ≤ 1 → j.started k <+: (j.books k).asked) ∧
    ∀ later, j.Continues later → ∀ i ∈ (j.books k).asked, ∀ t ∉ (j.books k).asked,
      ∀ front back, later.started k = front ++ t :: back →
        (∃ before after, (later.books k).asked = before ++ t :: after ∧ i ∈ before ∧
          (before.filter (· ∉ front)).length < limit) ∧
        (settings.maxInFlight ≤ 1 → i ∈ front) := by
  intro limit
  have hpunctual := h.punctual k
  rw [h.kept.started k] at hpunctual
  refine ⟨congrArg Prod.fst (h.kept.faithful k), (h.kept.orderly k).asked, hpunctual,
    h.started_prefix k, ?_⟩
  intro later hlater i hi t ht front back hstarted
  have hreached := h.continues hlater
  obtain ⟨before, after, hasked, hfew⟩ := hreached.punctual k front t back
    (by rw [hreached.kept.started k, hstarted])
  -- What had been asked for by then is a prefix of what has been asked for now, without `t`.
  have hbefore : i ∈ before := by
    obtain ⟨more, hmore⟩ := hlater.asked k
    rw [hasked] at hmore
    rcases List.append_eq_append_iff.mp hmore with ⟨rest, rfl, -⟩ | ⟨rest, hbooks, hrest⟩
    · exact List.mem_append_left _ hi
    · cases rest with
      | nil =>
          rw [List.append_nil] at hbooks
          rwa [← hbooks]
      | cons u rest =>
          obtain ⟨rfl, -⟩ := List.cons.inj hrest
          rw [hbooks] at ht
          exact absurd (by simp) ht
  refine ⟨⟨before, after, hasked, hbefore, hfew⟩, ?_⟩
  intro hone
  -- With one permit the few that may be missing are none.
  rw [Nat.max_eq_left hone, Nat.lt_one_iff, List.length_eq_zero_iff] at hfew
  by_contra hnot
  exact List.filter_eq_nil_iff.mp hfew i hbefore (by simpa using hnot)

/-- One permit, and two calls with news for the same web instance. The dispatcher of the first call
has asked for that delivery when the second call is made; so in whatever follows the instance hears
that the log has come before it hears that it has gone. -/
theorem two_calls_in_order :
    let web (host : String) : Registration :=
      { role := .web, url := host, requires := RoleSet.ofList [.log], updateUrl := host ++ "/news" }
    let log : Registration := { role := .log, url := "http://p" }
    let supply : IdSupply := .numbered 'i' [] [] 'd' (by decide) (by decide)
    let settings : RegistrySettings := ⟨⟨60⟩, ⟨60⟩, ⟨5⟩, 1⟩
    let j := (Journal.start settings supply).run [.stall "http://x/news",
      .fanOut (.ofAdded [log]) [web "http://x", web "http://r"], .turn .side, .turn .side,
      .fanOut (.ofRemoved [log]) [web "http://r"]]
    let i : Ticket := ⟨0, 1, ⟨"http://r/news", .ofAdded [log]⟩⟩
    let t : Ticket := ⟨1, 0, ⟨"http://r/news", .ofRemoved [log]⟩⟩
    i ∈ (j.books .side).asked ∧ t ∉ (j.books .side).asked ∧ ∀ later, j.Continues later →
      ∀ front back, later.started .side = front ++ t :: back → i ∈ front := by
  intro web log supply settings j i t
  have hreachable : j.Reachable settings supply := Journal.Reachable.start.run _
  have hi : i ∈ (j.books .side).asked := by decide +kernel
  have ht : t ∉ (j.books .side).asked := by decide +kernel
  refine ⟨hi, ht, ?_⟩
  intro later hlater front back hstarted
  obtain ⟨-, -, -, -, hafter⟩ := starts_in_order hreachable .side
  exact (hafter later hlater i hi t ht front back hstarted).2 (by decide)

/-- A web instance hears that a log has gone before it hears that it has come.

With one permit: three web instances depend on logs, the first of them stalls, and a log comes. Two
web instances go while the news waits, and so does the log. Of those two pieces of news the later
one has fewer deliveries before that for the third web instance, so its dispatcher asks first.

With two permits: the news that a log has come and that it has gone are asked for in this order, and
both are given a permit; but the executor lets the later delivery run first. -/
theorem removed_before_added :
    let web (host : String) : Registration :=
      { role := .web, url := host, requires := RoleSet.ofList [.log], updateUrl := host ++ "/news" }
    let log : Registration := { role := .log, url := "http://p" }
    let settings (permits : Nat) : RegistrySettings := ⟨⟨60⟩, ⟨60⟩, ⟨5⟩, permits⟩
    let supply : IdSupply := .numbered 'i' [] [] 'd' (by decide) (by decide)
    let comes (t : Timeline) (reg : Registration) := (t.register reg).1.rest
    let goes (t : Timeline) (reg : Registration) :=
      Timeline.rest { t with registry := t.registry.perform (.deregister reg.role reg.url) }
    let start := Timeline.start (settings 1) ⟨"key"⟩ supply
    let stalling := { start with transport := start.transport.stall "http://s/news" }
    let present := [web "http://s", web "http://x", web "http://r", log].foldl comes stalling
    let served := [web "http://s", web "http://x", log].foldl goes present
    let me : Registration := { web "http://r" with id := supply.mint 3 }
    let gone : Registration := { log with id := supply.mint 4 }
    let asked := (Journal.start (settings 2) supply).run [.fanOut (.ofAdded [log]) [web "http://r"],
      .fanOut (.ofRemoved [log]) [web "http://r"], .turn .side, .turn .side]
    let j := (asked.prefer .side 1).run [.turn .side, .turn .side]
    (me ∈ served.registry.directory.entries ∧ served.transport.fate me.updateUrl = .arrived ∧
      (Registry.empty (settings 1) supply).issuedTo me
        ((Registry.empty (settings 1) supply).actionsOf
          ([web "http://s", web "http://x", web "http://r", log].map (.register · ⟨0⟩) ++
            [web "http://s", web "http://x", log].map fun reg => .deregister reg.role reg.url)) =
        [.ofAdded [gone], .ofRemoved [gone]] ∧
      (served.advance ⟨6⟩).transport.arrivedAt me.updateUrl =
        [.ofRemoved [gone], .ofAdded [gone]]) ∧
    (j.books .side).asked = [⟨0, 0, ⟨"http://r/news", .ofAdded [log]⟩⟩,
      ⟨1, 0, ⟨"http://r/news", .ofRemoved [log]⟩⟩] ∧
    j.office.transport.arrivedAt "http://r/news" = [.ofRemoved [log], .ofAdded [log]] := by
  decide +kernel

end Rollcall
