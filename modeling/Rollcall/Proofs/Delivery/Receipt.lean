import Rollcall.Proofs.Delivery.Chronicle
import Rollcall.Proofs.Link.KeyCheck
import Rollcall.Proofs.Link.Table
import Rollcall.Proofs.Patch

/-!
# Patches are taken in as they were issued

What a registry issues goes through the hands of the transport to an instance that knows nothing of
the registry but the key and the wire form. A patch that is posted there with the key is read back and
taken in, `PatchEndpoint.serve_posted`, as long as it fits into a body; nothing that the registry does
sees to that.

* `Docket.bears_of_issued` — a registry tells of nothing but what has been submitted to it;
* `Chronicle.taken_in_iff` — so whatever it issues is taken in, and the cache after it is the one that
  the patch makes, exactly if it fits into a body.
-/

namespace Rollcall

open Http (Request Route)
open Text (Bytes)

/-! ## What is issued -/

namespace Docket

/-- The calls on a docket have issued a delivery: one of them has found it as a catch-up, or has called
the fan-out that it is part of. -/
def Issues (d : Docket) (delivery : Delivery) : Prop :=
  d.Found delivery ∨ ∃ ds, d.Called ds ∧ delivery ∈ ds

variable {P : Registration → Prop} (hid : ∀ reg id, P reg → P { reg with id := id })
  {settings : RegistrySettings} {supply : IdSupply} {clock : Instant} {moves : List Traffic.Move}
  (hsubmitted : ∀ m ∈ moves, ∀ reg, m.Submits reg → P reg) {delivery : Delivery}

include hid hsubmitted

/-- A catch-up tells of entries of the directory. -/
theorem bears_of_found (h : ((start settings supply clock).run moves).Found delivery) :
    ∀ reg ∈ delivery.patch.added ++ delivery.patch.removed, P reg := by
  intro reg hreg
  obtain ⟨s, hs, a, -, hfound⟩ := h
  obtain ⟨t, hbears, -, hregistry, -⟩ := bears_run hid settings supply clock hsubmitted s hs
  simp only [Registry.announce, Option.ite_none_left_eq_some, Option.some.injEq] at hfound
  obtain ⟨-, rfl⟩ := hfound
  rw [Directory.catchUp, Patch.ofAdded, List.append_nil] at hreg
  obtain ⟨role, -, hplays⟩ := List.mem_flatMap.mp (List.mem_filter.mp hreg).1
  exact hbears.entries reg (hregistry ▸ (List.mem_filter.mp hplays).1)

/-- The news of a fan-out is of an entry that has been admitted, or of one that has left. What holds
of all registrations that are submitted, whatever their identifier, therefore holds of all that is
told. -/
theorem bears_of_called {ds : List Delivery}
    (h : ((start settings supply clock).run moves).Called ds) (hdelivery : delivery ∈ ds) :
    ∀ reg ∈ delivery.patch.added ++ delivery.patch.removed, P reg := by
  obtain ⟨s, hs, news, recipients, hfanOut, rfl⟩ := h
  obtain ⟨t, hbears, hin, hregistry, -⟩ := bears_run hid settings supply clock hsubmitted s hs
  obtain ⟨x, haction, hnews⟩ := Option.bind_eq_some_iff.mp hfanOut
  have hall : ∀ reg ∈ news.added ++ news.removed, P reg := by
    rcases Registry.news?_cases hnews with ⟨a, rfl, rfl⟩ | ⟨gone, hgone, rfl⟩
    · have herrand := (Traffic.next_opening haction).2 a rfl
      intro reg hreg
      obtain rfl := List.mem_singleton.mp hreg
      exact hbears.admitted _ hin a (by rw [herrand]; rfl)
    · obtain ⟨front, back, hentries, -⟩ := Registry.act_of_departure hgone
      intro reg hreg
      obtain rfl := List.mem_singleton.mp hreg
      refine hbears.entries _ ?_
      rw [hregistry, hentries]
      exact List.mem_append_right _ List.mem_cons_self
  obtain ⟨recipient, -, hpart⟩ := List.mem_filterMap.mp hdelivery
  simp only [Option.ite_none_left_eq_some, Option.some.injEq] at hpart
  obtain ⟨-, rfl⟩ := hpart
  intro reg hreg
  rw [Patch.scopedTo, ← List.filter_append] at hreg
  exact hall reg (List.mem_filter.mp hreg).1

/-- Whatever holds of all that is submitted, and does not hang on the identifier, holds of all that is
told. -/
theorem bears_of_issued (h : ((start settings supply clock).run moves).Issues delivery) :
    ∀ reg ∈ delivery.patch.added ++ delivery.patch.removed, P reg := by
  rcases h with hfound | ⟨ds, hcalled, hdelivery⟩
  · exact bears_of_found hid hsubmitted hfound
  · exact bears_of_called hid hsubmitted hcalled hdelivery

end Docket

/-! ## What is taken in -/

/-- A request posts a patch to where patches arrive: with the right method, the written form of the
patch as its body, and the bytes of the key in its header. -/
structure Patch.PostedBy (p : Patch) (key : AccessKey) (route : Route) (request : Request) : Prop where
  method : request.method = "POST"
  route : (route.match? request.target.path).isSome = true
  key : key.PresentedBy request
  body : request.body = p.bytes

/-- What a delivery sends arrives as a post of its patch, if the connection leaves the key as it
is. -/
theorem Delivery.postedBy_of_request {key : AccessKey} {d : Delivery} {o : Http.Outgoing}
    {carry : Bytes → Bytes} {arrived : Request} {route : Route} (hsent : d.request key = .ok o)
    (harrived : o.arrivingOver? carry = some arrived) (hcarry : carry key.bytes = key.bytes)
    (hroute : (route.match? arrived.target.path).isSome = true) :
    d.patch.PostedBy key route arrived := by
  have hsends := sends_request hsent
  refine ⟨hsends.method_arrived harrived, hroute, (hsends.presentedBy_iff harrived).mpr hcarry, ?_⟩
  obtain ⟨-, -, -, hbody⟩ := Http.of_prepare (ok_of_mapError hsent)
  obtain ⟨request, hrequest, rfl⟩ := Option.map_eq_some_iff.mp harrived
  obtain ⟨target, -, rfl⟩ := Option.map_eq_some_iff.mp hrequest
  exact hbody

/-- A patch that is posted with the key is taken in as it is read if it fits into a body, and turned
away for its size otherwise. There is no third case. -/
theorem PatchEndpoint.serve_posted {key : AccessKey} (hkey : key.Printable) {p : Patch} {route : Route}
    {request : Request} (h : p.PostedBy key route request) (cache : ProviderCache) :
    serve route key cache request =
      if p.bytes.length ≤ Http.bodyLimit then (.ok, cache.apply p.normal)
      else (.payloadTooLarge, cache) := by
  by_cases hfits : p.bytes.length ≤ Http.bodyLimit
  · have hbrings : Brings key request p.normal :=
      ⟨h.method, h.body ▸ hfits, hkey, h.key, h.body ▸ p.ofBytes?_bytes⟩
    rw [if_pos hfits, serve_of_brings h.route hbrings]
  · rw [if_neg hfits, serve_of_tooLarge h.route h.method (h.body ▸ Nat.lt_of_not_le hfits)]

namespace Chronicle

/-- A move of the calls submits what a direct call brings, or what a request has been read as; and a
reader gives no role in disguise. -/
theorem canonical_of_moves {key : AccessKey} {motions : List Motion}
    (hdirect : ∀ reg, Motion.call (.visit (.register reg)) ∈ motions → reg.Canonical) :
    ∀ m ∈ moves key motions, ∀ reg, m.Submits reg → reg.Canonical := by
  rintro m hm reg ⟨rfl, -⟩
  obtain ⟨motion, hmotion, hmove⟩ := List.mem_filterMap.mp hm
  cases motion with
  | call m =>
      obtain rfl := Option.some.inj hmove
      exact hdirect reg hmotion
  | request request =>
      obtain ⟨v, hvisit, heq⟩ := Option.map_eq_some_iff.mp hmove
      obtain rfl := Traffic.Move.visit.inj heq
      exact Registration.canonical_of_ofBytes? (Registry.Api.of_visit?_register hvisit).1
  | _ => cases hmove

/-! ### A log with a description, and a web server -/

def describedLog (text : String) : Registration :=
  { role := .log, url := "http://p", description := some text }

def dependentWeb : Registration := {
  role := .web, url := "http://w", requires := .ofList [.log], updateUrl := "http://w/n" }

def logComesAndLeaves (text : String) : List Motion := [
  .call (.visit (.register (describedLog text))), .call (.advance 0), .call (.advance 0),
  .call (.advance 0), .call (.visit (.register dependentWeb)), .call (.advance 0),
  .call (.advance 0), .call (.advance 0), .call (.visit (.deregister .log "http://p")),
  .call (.advance 0)]

theorem validate_describedLog (text : String) : (describedLog text).validate = .ok () := by
  have hrole : Role.isBlank .log = false := by decide
  have hurl : Text.isBlankText "http://p" = false := by decide
  simp [Registration.validate, describedLog, hrole, hurl, RoleSet.isEmpty]

theorem canonical_describedLog (text : String) : (describedLog text).Canonical :=
  ⟨rfl, RoleSet.canonical_empty⟩

theorem canonical_of_logComesAndLeaves (text : String) :
    ∀ reg, Motion.call (.visit (.register reg)) ∈ logComesAndLeaves text → reg.Canonical := by
  intro reg hreg
  simp only [logComesAndLeaves, List.mem_cons, Motion.call.injEq, Traffic.Move.visit.injEq,
    Visit.register.injEq, reduceCtorEq, List.not_mem_nil, or_false, false_or] at hreg
  rcases hreg with rfl | rfl
  · exact canonical_describedLog text
  · refine ⟨rfl, RoleSet.canonical_ofList fun r hr => ?_⟩
    obtain rfl := List.mem_singleton.mp hr
    rfl

/-- The web server is told that the log is there, and then that it has left. -/
theorem issues_describedLog (settings : RegistrySettings) (supply : IdSupply) (clock : Instant)
    (key : AccessKey) (text : String) :
    let d := ((start settings supply clock).run key (logComesAndLeaves text)).docket
    let known := { describedLog text with id := supply.mint 1 }
    d.Issues ⟨"http://w/n", .ofAdded [known]⟩ ∧ d.Issues ⟨"http://w/n", .ofRemoved [known]⟩ := by
  intro d known
  have hlog : (Visit.register (describedLog text)).errand? = some (.enroll (describedLog text)) := by
    rw [Visit.errand?, validate_describedLog]
  have hweb : (Visit.register dependentWeb).errand? = some (.enroll dependentWeb) := by
    rw [Visit.errand?, show dependentWeb.validate = .ok () by decide]
  have hdocket : d = ((Docket.start settings supply clock).run (moves key (logComesAndLeaves text))) :=
    docket_run key _ _
  rw [hdocket]
  simp only [logComesAndLeaves, moves, List.filterMap_cons, List.filterMap_nil, Docket.run_cons,
    Docket.run_nil, Docket.next, hlog, hweb]
  constructor
  · refine .inl ⟨_, List.mem_append_left _ (List.mem_append_right _ (List.mem_singleton_self _)), _,
      rfl, ?_⟩
    rfl
  · refine .inr ⟨_, ⟨_, List.mem_append_right _ (List.mem_singleton_self _), .ofRemoved [known],
      [{ dependentWeb with id := supply.mint 2 }], ?_, rfl⟩, ?_⟩
    · rfl
    · exact List.mem_singleton_self _

/-- Whatever a registry issues, be it the news of a fan-out or a catch-up, and in whatever order its
calls take their steps, is taken in by whoever it is posted to with the key exactly if it fits into a
body. The cache is then the one that the patch makes, as it is read: this is the patch itself, unless
a call from inside has brought a role in disguise. A patch that does not fit is refused, and the cache
stays as it was. -/
theorem taken_in_iff (settings : RegistrySettings) (supply : IdSupply) (clock : Instant)
    {key : AccessKey} (hkey : key.Visible) (motions : List Motion) {delivery : Delivery}
    (hissued : ((start settings supply clock).run key motions).docket.Issues delivery) {route : Route}
    {request : Request} (hposted : delivery.patch.PostedBy key route request)
    (cache : ProviderCache) :
    (delivery.patch.bytes.length ≤ Http.bodyLimit →
      PatchEndpoint.serve route key cache request = (.ok, cache.apply delivery.patch.normal)) ∧
    (Http.bodyLimit < delivery.patch.bytes.length →
      PatchEndpoint.serve route key cache request = (.payloadTooLarge, cache)) ∧
    ((∀ reg, Motion.call (.visit (.register reg)) ∈ motions → reg.Canonical) →
      (PatchEndpoint.serve route key cache request = (.ok, cache.apply delivery.patch) ↔
        delivery.patch.bytes.length ≤ Http.bodyLimit)) := by
  have hserve := PatchEndpoint.serve_posted (AccessKey.printable_of_visible hkey) hposted cache
  refine ⟨fun hfits => ?_, fun hlarge => ?_, fun hdirect => ?_⟩
  · rw [hserve, if_pos hfits]
  · rw [hserve, if_neg (Nat.not_le.mpr hlarge)]
  · rw [docket_run] at hissued
    have hcanonical : delivery.patch.Canonical := by
      have hall := Docket.bears_of_issued (P := Registration.Canonical) (fun _ _ h => h)
        (canonical_of_moves hdirect) hissued
      exact ⟨fun reg hreg => hall reg (List.mem_append_left _ hreg),
        fun reg hreg => hall reg (List.mem_append_right _ hreg)⟩
    rw [hserve, Patch.normal_eq_self_iff.mpr hcanonical]
    constructor
    · intro htaken
      by_contra hlarge
      rw [if_neg hlarge] at htaken
      cases htaken
    · exact fun hfits => if_pos hfits

/-- The web server is sent what it has to be told of the log, and takes it in. -/
theorem web_takes_in_log :
    let key : AccessKey := ⟨"k"⟩
    let supply : IdSupply := .numbered 'i' [] [] 'd' (by decide) (by decide)
    let d := ((start ⟨⟨60⟩, ⟨9⟩, ⟨9⟩, 1⟩ supply ⟨0⟩).run key (logComesAndLeaves "loud")).docket
    let catchUp : Delivery :=
      ⟨"http://w/n", .ofAdded [{ describedLog "loud" with id := supply.mint 1 }]⟩
    let cache : ProviderCache := {}
    d.Issues catchUp ∧ ∃ o arrived, catchUp.request key = .ok o ∧ o.arrivingOver? id = some arrived ∧
      PatchEndpoint.serve [.fixed [], .fixed ['n']] key cache arrived =
        (.ok, cache.apply catchUp.patch) := by
  intro key supply d catchUp cache
  have hissued : d.Issues catchUp := (issues_describedLog _ supply ⟨0⟩ key "loud").1
  have htarget : Http.Target.ofText? catchUp.target = some ⟨some "http", "w", "/n", none⟩ := by
    decide +kernel
  have hplain : ("http" : String).toLower = "http" := by decide +kernel
  obtain ⟨o, hprepared, harriving⟩ := Http.prepare_arriving htarget (congrArg some hplain)
    (show (some key.secret).all Http.canBeHeader = true by decide)
  have hsent : catchUp.request key = .ok o := by
    rw [Delivery.request, hprepared]
    rfl
  have harrived : o.arrivingOver? id = some _ := congrArg (Option.map _) harriving
  have hposted := Delivery.postedBy_of_request hsent harrived rfl
    (show (Route.match? [.fixed [], .fixed ['n']] "/n").isSome = true by decide)
  have htaken := (taken_in_iff _ supply ⟨0⟩ (by decide) _ hissued hposted cache).2.2
    (canonical_of_logComesAndLeaves "loud")
  exact ⟨hissued, o, _, hsent, harrived, htaken.mpr (by decide +kernel)⟩

/-! ### A description that fills a body -/

/-- A description of plain letters takes a byte for each of them. -/
theorem length_bytes_describedLog (id : InstanceId) (n : Nat) :
    ({ describedLog (String.ofList (List.replicate n 'a')) with id := id }).bytes.length =
      n + ({ describedLog "" with id := id }).bytes.length := by
  let tokens := ({ describedLog "" with id := id }).toJson.tokens
  have htokens (text : String) : ({ describedLog text with id := id }).toJson.tokens =
      tokens.take 15 ++ .string (Json.escape text.toList) :: tokens.drop 16 := rfl
  have hlength (text : String) : ({ describedLog text with id := id }).bytes.length =
      ((tokens.take 15).flatMap Json.Token.bytes).length + (Json.escape text.toList).length + 2 +
        ((tokens.drop 16).flatMap Json.Token.bytes).length := by
    rw [Registration.bytes, Json.Value.render, htokens, List.flatMap_append, List.flatMap_cons,
      Json.Token.bytes]
    simp only [List.length_append, List.length_cons, List.length_nil]
    omega
  have hletters : (Json.escape (List.replicate n 'a')).length = n := by
    have hchar : Json.escapeChar 'a' = ['a'] := by decide
    have hbyte : String.utf8EncodeChar 'a' = [0x61] := by decide
    rw [Json.escape, List.flatMap_replicate, hchar, List.flatten_replicate_singleton,
      Text.Utf8.encode, List.flatMap_replicate, hbyte, List.flatten_replicate_singleton,
      List.length_replicate]
  have hnone : (Json.escape ("" : String).toList).length = 0 := by decide
  rw [hlength, hlength, String.toList_ofList, hletters, hnone]
  omega

/-- A log registers with a description that fills the body of the request to the last byte. What the
web server has to be told of it, when it comes and when it leaves, is longer, and is refused. -/
theorem full_body_overflows :
    let key : AccessKey := ⟨"k"⟩
    let supply : IdSupply := .numbered 'i' [] [] 'd' (by decide) (by decide)
    let text := String.ofList (List.replicate 2097031 'a')
    let log := describedLog text
    let known := { log with id := supply.mint 1 }
    let d := ((start ⟨⟨60⟩, ⟨9⟩, ⟨9⟩, 1⟩ supply ⟨0⟩).run key (logComesAndLeaves text)).docket
    let request (p : Patch) : Request := ⟨"POST", ⟨none, "", "/n", none⟩,
      [⟨Wire.keyHeader, Text.Utf8.ofString "k"⟩], p.bytes⟩
    let served (p : Patch) := PatchEndpoint.serve [.fixed [], .fixed ['n']] key {} (request p)
    log.Canonical ∧ log.validate = .ok () ∧ log.bytes.length = Http.bodyLimit ∧
      (d.Issues ⟨"http://w/n", .ofAdded [known]⟩ ∧
        served (.ofAdded [known]) = (.payloadTooLarge, {})) ∧
      d.Issues ⟨"http://w/n", .ofRemoved [known]⟩ ∧
        served (.ofRemoved [known]) = (.payloadTooLarge, {}) := by
  intro key supply text log known d request served
  -- The long text is never evaluated: each length is that of the same registration without it, and
  -- the number of its letters.
  have hlog : log.bytes.length = Http.bodyLimit := by
    have hrest : ({ describedLog "" with id := {} }).bytes.length = 121 := by decide +kernel
    exact (length_bytes_describedLog {} 2097031).trans (by rw [hrest, Http.bodyLimit])
  have hknown : Http.bodyLimit < known.bytes.length + 25 := by
    have hrest : ({ describedLog "" with id := supply.mint 1 }).bytes.length = 124 := by
      decide +kernel
    have hlength := length_bytes_describedLog (supply.mint 1) 2097031
    rw [hrest] at hlength
    rw [hlength, Http.bodyLimit]
    omega
  have hserved (p : Patch) (hlarge : Http.bodyLimit < p.bytes.length) :
      served p = (.payloadTooLarge, {}) := by
    have hposted : p.PostedBy key [.fixed [], .fixed ['n']] (request p) := by
      have hroute : (Route.match? [.fixed [], .fixed ['n']] "/n").isSome = true := by decide
      refine ⟨rfl, hroute, ?_, rfl⟩
      simp [AccessKey.PresentedBy, Request.first?, request, AccessKey.bytes, key]
    have hserve := PatchEndpoint.serve_posted (by decide) hposted {}
    rwa [if_neg (Nat.not_le.mpr hlarge)] at hserve
  obtain ⟨hcame, hleft⟩ := issues_describedLog ⟨⟨60⟩, ⟨9⟩, ⟨9⟩, 1⟩ supply ⟨0⟩ key text
  refine ⟨canonical_describedLog text, validate_describedLog text, hlog, ⟨hcame, hserved _ ?_⟩, hleft,
    hserved _ ?_⟩
  · rwa [Patch.length_bytes_ofAdded]
  · rwa [Patch.length_bytes_ofRemoved]

end Chronicle
end Rollcall
