import Rollcall.Proofs.Link.Request
import Rollcall.Proofs.Registration
import Rollcall.Proofs.Registry.Requests
import Rollcall.Registry.Timeline

/-!
# What becomes of what arrives

A request that is well formed is served by the call that it stands for: its reply is the outcome of
that call, `Api.told`, and whatever the call does to the registry is done. There is one statement for
each of the four calls, `serve_register`, `serve_heartbeat`, `serve_deregister` and `serve_query`, and
they say what the call is made with: the role and the address as they are after trimming.
-/

namespace Rollcall

open Http (Reply Request)

theorem Http.Request.takeText_ofString {request : Request} {s : String}
    (hbody : request.body = Text.Utf8.ofString s)
    (hfits : (Text.Utf8.ofString s).length ≤ bodyLimit) : request.takeText = .ok s := by
  simp only [takeText, takeBody, hbody, if_neg (Nat.not_lt.mpr hfits), bind, Except.bind,
    Text.Utf8.string?_ofString]

namespace Registry.Api

/-- The reply to a call, by its outcome. -/
def told {α : Type} (grant : α → Reply) : Except RegistryError α → Reply
  | .ok a => grant a
  | .error e => failure e

theorem conclude_eq (e : Enrolment) (fault? : Option DeliveryFault) :
    conclude e fault? = told (fun id => ⟨.ok, .text id.text⟩) (e.conclude fault?) := by
  rw [conclude]
  cases e.conclude fault? with
  | error e => rfl
  | ok id => rfl

theorem place?_heartbeat : place? Wire.basicHeartbeatPath = some (.heartbeat "basic".toList) := by
  decide

theorem partText?_basic : Http.Route.partText? "basic".toList = some "basic" := by
  rw [Http.Route.partText?, Http.percentDecode_of_not_mem (by decide)]
  exact Text.Utf8.string?_ofString "basic"

theorem parameter?_pair {request : Request} {name : String}
    (h : request.query = Http.Form.encodePair Wire.roleParameter name) :
    parameter? request = .ok (some name) := by
  rw [parameter?, h, Http.Form.pairs_encodePair]
  simp

theorem requiredRole_of_not_blank {name : String} (h : Text.isBlankText name = false) :
    requiredRole (some name) = .ok (.ofText (Text.trimmed name)) := by
  have hgiven : ¬ (Text.trimmed name).isEmpty = true := by
    intro hempty
    rw [String.isEmpty_iff, Text.trimmed, ← String.toList_inj, String.toList_ofList] at hempty
    have hblank := (Text.trim_eq_nil_iff _).mp hempty
    rw [Text.isBlankText, hblank] at h
    cases h
  rw [requiredRole, Option.getD_some]
  exact if_neg hgiven

/-- The list of a role that is named by a query, if the name is not blank. The role is that of the
trimmed name. -/
theorem get_pair (r : Registry) {request : Request} {name : String}
    (hquery : request.query = Http.Form.encodePair Wire.roleParameter name)
    (hname : Text.isBlankText name = false) : get r request =
      ⟨.ok, .json (.array ((r.query (.ofText (Text.trimmed name))).map Registration.toJson))⟩ := by
  simp only [get, parameter?_pair hquery, requiredRole_of_not_blank hname, bind, Except.bind, pure,
    Except.pure]
  rfl

end Registry.Api

namespace Timeline

open Registry.Api

variable {t : Timeline} {request : Request}

/-! ## Calls from inside -/

def heartbeat (t : Timeline) (id : InstanceId) : Timeline × Except RegistryError Unit :=
  match t.registry.heartbeat .basic id t.clock with
  | .error e => (t, .error e)
  | .ok registry => ({ t with registry := registry }, .ok ())

def deregister (t : Timeline) (role : Role) (url : String) : Timeline × Except RegistryError Unit :=
  match t.registry.deregister role url with
  | .error e => (t, .error e)
  | .ok (registry, _) => ({ t with registry := registry }, .ok ())

/-! ## Calls from outside -/

theorem serve_register (hmethod : request.method = "POST")
    (hpath : request.target.path = Wire.servicesPath)
    (hkey : request.header? Wire.keyHeader = some t.key.secret)
    (hsize : request.body.length ≤ Http.bodyLimit) {reg : Registration}
    (hreg : Registration.ofBytes? request.body = some reg) :
    t.serve request =
      ((t.register reg).1, told (fun id => ⟨.ok, .text id.text⟩) (t.register reg).2) := by
  rw [serve, serve_post hmethod hpath, post, Request.takeBody_of_le hsize, register]
  dsimp only
  rw [if_pos (AccessKey.verify_iff.mpr hkey), hreg]
  dsimp only
  cases t.registry.register reg t.clock with
  | error e => rfl
  | ok done =>
      dsimp only
      rw [conclude_eq]

theorem serve_heartbeat (hmethod : request.method = "POST")
    (hpath : request.target.path = Wire.basicHeartbeatPath) {body : String}
    (hbody : request.takeText = .ok body) :
    t.serve request = ((t.heartbeat (.ofText body)).1,
      told (fun _ => .bare .ok) (t.heartbeat (.ofText body)).2) := by
  have hkind : HeartbeatKind.ofText "basic" = .ok .basic := rfl
  rw [serve, Registry.Api.serve, hpath, place?_heartbeat]
  simp only [serveAt, hmethod, beat, partText?_basic, hbody, hkind, bind, Except.bind, withoutBody,
    heartbeat]
  cases t.registry.heartbeat .basic (.ofText body) t.clock with
  | error e => rfl
  | ok registry => rfl

theorem serve_deregister (hmethod : request.method = "DELETE")
    (hpath : request.target.path = Wire.servicesPath) {name body : String}
    (hquery : request.query = Http.Form.encodePair Wire.roleParameter name)
    (hname : Text.isBlankText name = false) (hbody : request.takeText = .ok body) :
    t.serve request = ((t.deregister (.ofText (Text.trimmed name)) (Text.trimmed body)).1,
      told (fun _ => .bare .ok) (t.deregister (.ofText (Text.trimmed name)) (Text.trimmed body)).2) := by
  rw [serve, Registry.Api.serve, hpath, place?_services]
  simp only [serveAt, hmethod, delete, parameter?_pair hquery, hbody, requiredRole_of_not_blank hname,
    bind, Except.bind, pure, Except.pure, withoutBody, deregister]
  cases t.registry.deregister (.ofText (Text.trimmed name)) (Text.trimmed body) with
  | error e => rfl
  | ok done => rfl

theorem serve_query (hmethod : request.method = "GET")
    (hpath : request.target.path = Wire.servicesPath) {name : String}
    (hquery : request.query = Http.Form.encodePair Wire.roleParameter name)
    (hname : Text.isBlankText name = false) :
    t.serve request = (t, ⟨.ok, .json (.array
      ((t.registry.query (.ofText (Text.trimmed name))).map Registration.toJson))⟩) := by
  rw [serve, Registry.Api.serve, hpath, place?_services]
  simp only [serveAt, hmethod, get_pair t.registry hquery hname, withoutBody]
  rfl

end Timeline
end Rollcall
