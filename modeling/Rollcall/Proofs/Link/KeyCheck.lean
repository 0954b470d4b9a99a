import Rollcall.Delivery.Post
import Rollcall.Proofs.Link.Request
import Rollcall.Proofs.PatchEndpoint
import Rollcall.Proofs.Registry.Refusal

/-!
# Who is turned away for the key

A registry and an instance turn away whatever does not show the key, and nothing else: this is the one
reason for the status 401 where registrations and patches arrive. What shows the key is known from
`AccessKey.header?_iff`; so a key that is not printable ASCII cannot be shown at all, although it can
be configured and sent.
-/

namespace Rollcall

open Http (Outgoing Request)
open Text (Bytes)

/-! ## At the door -/

namespace Timeline

variable {t : Timeline} {request : Request}

/-- A registration is turned away for the key if it fits into a body and does not show the key. -/
theorem unauthorized_serve_iff (hmethod : request.method = "POST")
    (hpath : request.target.path = Wire.servicesPath) :
    (t.serve request).2.status = .unauthorized ↔
      request.body.length ≤ Http.bodyLimit ∧ ¬ (t.key.Printable ∧ t.key.PresentedBy request) := by
  rw [← AccessKey.header?_iff]
  have hposted := Registry.Api.posted_post t.key t.registry t.clock request
  rw [← Registry.Api.serve_post hmethod hpath] at hposted
  cases hdone : Registry.Api.serve t.key t.registry t.clock request with
  | mk registry handling =>
      rw [hdone] at hposted
      rw [reply_serve hdone]
      cases hposted with
      | tooLarge hsize => exact ⟨nofun, fun h => absurd h.1 (Nat.not_le.mpr hsize)⟩
      | unauthorized hsize hkey => exact ⟨fun _ => ⟨hsize, hkey⟩, fun _ => rfl⟩
      | undecodable hsize hkey => exact ⟨nofun, fun h => absurd hkey h.2⟩
      | incomplete hsize hkey => exact ⟨nofun, fun h => absurd hkey h.2⟩
      | enrolled hsize hkey reg hread _ e h =>
          refine ⟨fun hrefused => ?_, fun h => absurd hkey h.2⟩
          rcases Registry.Api.reply_enrolling e (t.outcome registry) with ⟨hok, -⟩ | ⟨hfailed, -⟩
          · rw [hok] at hrefused
            cases hrefused
          · rw [hfailed] at hrefused
            cases hrefused

end Timeline

namespace PatchEndpoint

variable {route : Http.Route} {key : AccessKey} {cache : ProviderCache} {request : Request}

/-- A patch is turned away for the key if it fits into a body and does not show the key. -/
theorem unauthorized_serve_iff (hmethod : request.method = "POST")
    (hroute : (route.match? request.target.path).isSome = true) :
    (serve route key cache request).1 = .unauthorized ↔
      request.body.length ≤ Http.bodyLimit ∧ ¬ (key.Printable ∧ key.PresentedBy request) := by
  have hserved := served_serve route key cache request
  generalize serve route key cache request = done at hserved ⊢
  cases hserved with
  | elsewhere hnone => exact absurd hroute (Bool.eq_false_iff.mp hnone)
  | notPosted _ hnot => exact absurd hmethod hnot
  | tooLarge _ _ hsize => exact ⟨nofun, fun h => absurd h.1 (Nat.not_le.mpr hsize)⟩
  | unauthorized _ hfails => exact ⟨fun _ => ⟨hfails.fits, hfails.unshown⟩, fun _ => rfl⟩
  | undecodable _ _ _ hkey => exact ⟨nofun, fun h => absurd hkey h.2⟩
  | taken _ _ hbrings => exact ⟨nofun, fun h => absurd ⟨hbrings.printable, hbrings.presented⟩ h.2⟩

end PatchEndpoint

/-! ## On the way -/

namespace Http

/-- What a server gets of a request over a connection that makes something else of the values of
headers. -/
def Outgoing.arrivingOver? (carry : Bytes → Bytes) (o : Outgoing) : Option Request :=
  o.arriving?.map fun request =>
    { request with headers := request.headers.map fun h => { h with value := carry h.value } }

theorem of_prepare {method address : String} {contentType? key? : Option String} {body : Bytes}
    {o : Outgoing} (h : prepare method address contentType? key? body = .ok o) :
    o.method = method ∧ o.contentType? = contentType? ∧ o.key? = key? ∧ o.body = body := by
  unfold prepare at h
  split at h
  · cases h
  · split at h
    · cases h
    · split at h
      · cases h
      · obtain rfl := Except.ok.inj h
        exact ⟨rfl, rfl, rfl, rfl⟩

end Http

/-- A request with the key, as a link and a delivery send it. -/
structure AccessKey.Sends (key : AccessKey) (o : Outgoing) : Prop where
  method : o.method = "POST"
  contentType : o.contentType? = some "application/json"
  key : o.key? = some key.secret

theorem ok_of_mapError {ε ε' α : Type} {f : ε → ε'} {x : Except ε α} {a : α}
    (h : x.mapError f = .ok a) : x = .ok a := by
  cases x with
  | error e => cases h
  | ok b => exact congrArg _ (Except.ok.inj h)

theorem RegistryLink.sends_registerRequest {link : RegistryLink} {reg : Registration} {o : Outgoing}
    (h : link.registerRequest reg = .ok o) : link.key.Sends o := by
  obtain ⟨hmethod, hcontentType, hkey, -⟩ := Http.of_prepare (ok_of_mapError h)
  exact ⟨hmethod, hcontentType, hkey⟩

theorem Delivery.sends_request {key : AccessKey} {d : Delivery} {o : Outgoing}
    (h : d.request key = .ok o) : key.Sends o := by
  obtain ⟨hmethod, hcontentType, hkey, -⟩ := Http.of_prepare (ok_of_mapError h)
  exact ⟨hmethod, hcontentType, hkey⟩

namespace AccessKey

variable {key : AccessKey} {o : Outgoing} {carry : Bytes → Bytes} {arrived : Request}

/-- What is sent with the key shows it exactly if the connection leaves its bytes as they are. -/
theorem Sends.presentedBy_iff (h : key.Sends o) (harrived : o.arrivingOver? carry = some arrived) :
    key.PresentedBy arrived ↔ carry key.bytes = key.bytes := by
  obtain ⟨request, hrequest, rfl⟩ := Option.map_eq_some_iff.mp harrived
  obtain ⟨target, -, rfl⟩ := Option.map_eq_some_iff.mp hrequest
  have hother : ("content-type" : String).toLower ≠ Wire.keyHeader.toLower := by
    decide +kernel
  simp [PresentedBy, Request.first?, Http.headersOf, h.contentType, h.key, hother, bytes]

theorem Sends.method_arrived (h : key.Sends o) (harrived : o.arrivingOver? carry = some arrived) :
    arrived.method = "POST" := by
  obtain ⟨request, hrequest, rfl⟩ := Option.map_eq_some_iff.mp harrived
  obtain ⟨target, -, rfl⟩ := Option.map_eq_some_iff.mp hrequest
  exact h.method

/-- A key passes exactly if it is printable ASCII and the first header for it has its bytes. So this
is what a registration or a patch that fits into a body is turned away for, and if it is sent with the
key, it is turned away exactly if the key is not printable or does not arrive as it was sent. -/
theorem turned_away_iff (carry : Bytes → Bytes) :
    (∀ (key : AccessKey) (request : Request),
      key.verify (request.header? Wire.keyHeader) = true ↔
        key.Printable ∧ key.PresentedBy request) ∧
    (∀ (t : Timeline) (request : Request), request.method = "POST" →
      request.target.path = Wire.servicesPath →
      ((t.serve request).2.status = .unauthorized ↔ request.body.length ≤ Http.bodyLimit ∧
        ¬ (t.key.Printable ∧ t.key.PresentedBy request))) ∧
    (∀ (route : Http.Route) (key : AccessKey) (cache : ProviderCache) (request : Request),
      request.method = "POST" → (route.match? request.target.path).isSome = true →
      ((PatchEndpoint.serve route key cache request).1 = .unauthorized ↔
        request.body.length ≤ Http.bodyLimit ∧ ¬ (key.Printable ∧ key.PresentedBy request))) ∧
    (∀ (t : Timeline) (link : RegistryLink) (reg : Registration) (o : Outgoing) (arrived : Request),
      link.key = t.key → link.registerRequest reg = .ok o → o.arrivingOver? carry = some arrived →
      arrived.target.path = Wire.servicesPath →
      ((t.serve arrived).2.status = .unauthorized ↔ arrived.body.length ≤ Http.bodyLimit ∧
        ¬ (t.key.Printable ∧ carry t.key.bytes = t.key.bytes))) ∧
    ∀ (route : Http.Route) (key : AccessKey) (cache : ProviderCache) (d : Delivery) (o : Outgoing)
      (arrived : Request), d.request key = .ok o → o.arrivingOver? carry = some arrived →
      (route.match? arrived.target.path).isSome = true →
      ((PatchEndpoint.serve route key cache arrived).1 = .unauthorized ↔
        arrived.body.length ≤ Http.bodyLimit ∧ ¬ (key.Printable ∧ carry key.bytes = key.bytes)) := by
  refine ⟨fun key request => ?_, fun t request => Timeline.unauthorized_serve_iff,
    fun route key cache request => PatchEndpoint.unauthorized_serve_iff, ?_, ?_⟩
  · rw [verify_iff, header?_iff]
  · intro t link reg o arrived hkey hsent harrived hpath
    have hsends : t.key.Sends o := hkey ▸ RegistryLink.sends_registerRequest hsent
    rw [Timeline.unauthorized_serve_iff (hsends.method_arrived harrived) hpath,
      hsends.presentedBy_iff harrived]
  · intro route key cache d o arrived hsent harrived hroute
    have hsends : key.Sends o := Delivery.sends_request hsent
    rw [PatchEndpoint.unauthorized_serve_iff (hsends.method_arrived harrived) hroute,
      hsends.presentedBy_iff harrived]

/-- A key with a space within it lets its registrant in over a connection that drops the space around
the values of headers. One with a space before it does not. -/
theorem spaced_key_passes_padded_does_not :
    let carry : Bytes → Bytes := fun value =>
      ((value.dropWhile (· = 0x20)).reverse.dropWhile (· = 0x20)).reverse
    let supply : IdSupply := .numbered 'i' [] [] 'd' (by decide) (by decide)
    let start (key : AccessKey) := Timeline.start ⟨⟨60⟩, ⟨9⟩, ⟨9⟩, 1⟩ key supply
    let log : Registration := { role := .log, url := "http://p" }
    let sent (key : AccessKey) : Outgoing :=
      ⟨"POST", Wire.servicesPath, some "application/json", some key.secret, log.bytes⟩
    let arrived (value : String) : Request := ⟨"POST", ⟨none, "", Wire.servicesPath, none⟩,
      Http.headersOf (some "application/json") (some value), log.bytes⟩
    let link (key : AccessKey) : RegistryLink := ⟨"http://h", key, ⟨5⟩⟩
    let spaced : AccessKey := ⟨"open sesame"⟩
    let padded : AccessKey := ⟨" sesame"⟩
    ((link spaced).registerRequest log = .ok (sent spaced) ∧
      (sent spaced).arrivingOver? carry = some (arrived "open sesame") ∧
      ((start spaced).serve (arrived "open sesame")).2.status ≠ .unauthorized) ∧
    (link padded).registerRequest log = .ok (sent padded) ∧
      (sent padded).arrivingOver? carry = some (arrived "sesame") ∧
      ((start padded).serve (arrived "sesame")).2.status = .unauthorized := by
  intro carry supply start log sent arrived link spaced padded
  obtain ⟨-, -, -, hregister, -⟩ := turned_away_iff carry
  have hsent (key : AccessKey) (hkey : Http.canBeHeader key.secret = true) :
      (link key).registerRequest log = .ok (sent key) := by
    have htarget : Http.Target.ofText? ("http://h" ++ Wire.servicesPath) =
        some ⟨some "http", "h", Wire.servicesPath, none⟩ := by decide +kernel
    have hplain : ("http" : String).toLower = "http" := by decide +kernel
    rw [RegistryLink.registerRequest, RegistryLink.prepare, Http.prepare, htarget]
    simp [link, hkey, hplain, Http.Target.pathAndQuery, Except.mapError, sent]
  have hspaced : (sent spaced).arrivingOver? carry = some (arrived "open sesame") := by
    decide +kernel
  have hpadded : (sent padded).arrivingOver? carry = some (arrived "sesame") := by decide +kernel
  have hsize (value : String) : (arrived value).body.length ≤ Http.bodyLimit := by
    show log.bytes.length ≤ Http.bodyLimit
    decide +kernel
  have hspacedSent := hsent spaced (by decide)
  have hpaddedSent := hsent padded (by decide)
  refine ⟨⟨hspacedSent, hspaced, ?_⟩, hpaddedSent, hpadded, ?_⟩
  · rw [ne_eq, hregister (start spaced) _ _ _ _ rfl hspacedSent hspaced rfl]
    exact fun h => h.2 (by decide +kernel)
  · rw [hregister (start padded) _ _ _ _ rfl hpaddedSent hpadded rfl]
    exact ⟨hsize _, by decide +kernel⟩

/-- A key with an accent can be configured, but a request with the very bytes of it is turned away. -/
theorem accented_key_turned_away :
    let key : AccessKey := ⟨"clé"⟩
    let supply : IdSupply := .numbered 'i' [] [] 'd' (by decide) (by decide)
    let start := Timeline.start ⟨⟨60⟩, ⟨9⟩, ⟨9⟩, 1⟩ key supply
    let log : Registration := { role := .log, url := "http://p" }
    let request : Request := ⟨"POST", ⟨none, "", Wire.servicesPath, none⟩,
      [⟨Wire.keyHeader, Text.Utf8.ofString "clé"⟩], log.bytes⟩
    ofEnvironment [(keyVariable, "clé")] = .ok key ∧ key.PresentedBy request ∧
      (start.serve request).2.status = .unauthorized := by
  intro key supply start log request
  refine ⟨by rfl, by decide +kernel, by decide +kernel⟩

end AccessKey
end Rollcall
