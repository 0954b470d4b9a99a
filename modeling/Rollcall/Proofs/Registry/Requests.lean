import Rollcall.Proofs.Registry.Traffic
import Rollcall.Registry.Api

/-!
# Requests are calls

What a request asks of a registry is read off the request alone: the same checks, in the same order,
whatever the registry holds. Once they are passed it is one of the calls that anybody can make, and
the registry goes on from there as it does for any other caller. Whoever fails a check is told so with
a status that puts the blame on the request, and nothing has been done by then.

* `Registry.Api.handled_serve` — what becomes of a request, by the call that it is;
* `Registry.Api.comes_serve` — the same for the registry alone.
-/

namespace Rollcall

open Http (Refusal Reply Request Status)

/-! ## Whose fault it is -/

namespace Http

/-- Whether a status puts the blame on the request. -/
def Status.BlamesRequest (s : Status) : Prop := 400 ≤ s.code ∧ s.code < 500

/-- Whether a status puts the blame on the server. -/
def Status.BlamesServer (s : Status) : Prop := 500 ≤ s.code ∧ s.code < 600

namespace Status

variable {s : Status}

instance : Decidable s.BlamesRequest := inferInstanceAs (Decidable (_ ∧ _))

instance : Decidable s.BlamesServer := inferInstanceAs (Decidable (_ ∧ _))

theorem BlamesRequest.not_blamesServer (h : s.BlamesRequest) : ¬ s.BlamesServer := by
  unfold BlamesRequest BlamesServer at *
  omega

theorem blamesRequest_badRequest : badRequest.BlamesRequest := by decide

theorem blamesRequest_unauthorized : unauthorized.BlamesRequest := by decide

theorem blamesRequest_notFound : notFound.BlamesRequest := by decide

theorem blamesRequest_methodNotAllowed : methodNotAllowed.BlamesRequest := by decide

theorem blamesServer_internalServerError : internalServerError.BlamesServer := by decide

end Status

theorem Refusal.blamesRequest (refusal : Refusal) : refusal.status.BlamesRequest := by
  cases refusal with
  | _ => decide

variable {request : Request}

theorem Request.takeBody_of_le (h : request.body.length ≤ bodyLimit) :
    request.takeBody = .ok request.body :=
  if_neg (Nat.not_lt.mpr h)

theorem Request.takeBody_of_lt (h : bodyLimit < request.body.length) :
    request.takeBody = .error .bodyTooLarge :=
  if_pos h

/-- Whether a request has a method that only reads. -/
def Request.Reads (request : Request) : Prop := request.method = "GET" ∨ request.method = "HEAD"

theorem Request.not_reads_of_post (h : request.method = "POST") : ¬ request.Reads := by
  simp [Reads, h]

theorem Request.not_reads_of_delete (h : request.method = "DELETE") : ¬ request.Reads := by
  simp [Reads, h]

end Http

/-! ## What each call can be refused with -/

/-- Only the secret itself is the right key. -/
theorem AccessKey.verify_iff {key : AccessKey} {candidate? : Option String} :
    key.verify candidate? = true ↔ candidate? = some key.secret := by
  cases candidate? with
  | none => simp [verify]
  | some candidate => simp [verify]

theorem Registration.error_of_validate {reg : Registration} {e : InputError}
    (h : reg.validate = .error e) : ∃ field, e = .missingField field := by
  unfold validate at h
  split at h
  · exact ⟨_, (Except.error.inj h).symm⟩
  · split at h
    · exact ⟨_, (Except.error.inj h).symm⟩
    · split at h
      · exact ⟨_, (Except.error.inj h).symm⟩
      · cases h

namespace Registry

variable {r : Registry} {now : Instant} {e : RegistryError}

theorem error_of_register {reg : Registration} (h : r.register reg now = .error e) :
    ∃ flaw, e = .malformed flaw := by
  rw [register] at h
  split at h
  · next hinvalid =>
    obtain ⟨field, rfl⟩ := Registration.error_of_validate hinvalid
    exact ⟨_, (Except.error.inj h).symm⟩
  · cases h

theorem validate_of_register {reg : Registration} {done : Registry × Enrolment}
    (h : r.register reg now = .ok done) : reg.validate = .ok () := by
  rw [register] at h
  split at h
  · cases h
  · next hvalid => exact hvalid

theorem error_of_deregister {role : Role} {url : String} (h : r.deregister role url = .error e) :
    e = .notFound role url := by
  rw [deregister, remove] at h
  split at h
  · cases h
  · exact (Except.error.inj h).symm

theorem error_of_heartbeat {kind : HeartbeatKind} {id : InstanceId}
    (h : r.heartbeat kind id now = .error e) : e = .unregistered id := by
  rw [heartbeat, accept] at h
  split at h
  · cases h
  · exact (Except.error.inj h).symm

end Registry

namespace Registry.Api

open Http

theorem error_of_requiredRole {name? : Option String} {e : RegistryError}
    (h : requiredRole name? = .error e) : e = .malformed .noRole := by
  unfold requiredRole at h
  dsimp only at h
  split at h
  · exact (Except.error.inj h).symm
  · cases h

theorem error_of_ofText {name : String} {e : RegistryError}
    (h : HeartbeatKind.ofText name = .error e) : e = .unknownHeartbeatKind name := by
  unfold HeartbeatKind.ofText at h
  split at h
  · cases h
  · exact (Except.error.inj h).symm

/-! ## What a request asks for -/

def registering? (key : AccessKey) (request : Request) : Option Visit :=
  match request.takeBody with
  | .error _ => none
  | .ok body =>
    if key.verify (request.header? Wire.keyHeader) then
      (Registration.ofBytes? body).map .register
    else none

def leaving? (request : Request) : Option Visit :=
  match parameter? request, request.takeText with
  | .ok name?, .ok body => match requiredRole name? with
    | .ok role => some (.deregister role (Text.trimmed body))
    | .error _ => none
  | _, _ => none

def beating? (kind : List Char) (request : Request) : Option Visit :=
  match Route.partText? kind, request.takeText with
  | some name, .ok body => match HeartbeatKind.ofText name with
    | .ok kind => some (.heartbeat kind (.ofText body))
    | .error _ => none
  | _, _ => none

/-- The call that a request is, if it is one. Of a request only this reaches the tables. -/
def visit? (key : AccessKey) (request : Request) : Option Visit :=
  match place? request.target.path with
  | some .services =>
    if request.method = "POST" then registering? key request
    else if request.method = "DELETE" then leaving? request
    else none
  | some (.heartbeat kind) => if request.method = "POST" then beating? kind request else none
  | _ => none

/-- A registration that passes every check: it is posted to the services with the right key, fits into
a body, and is complete. -/
structure Submits (key : AccessKey) (request : Request) (reg : Registration) : Prop where
  method : request.method = "POST"
  path : request.target.path = Wire.servicesPath
  fits : request.body.length ≤ Http.bodyLimit
  key : request.header? Wire.keyHeader = some key.secret
  read : Registration.ofBytes? request.body = some reg
  valid : reg.validate = .ok ()

/-! ## What becomes of it -/

/-- What becomes of a registration that is posted, in the order of the checks: its size, the key, what
it says, and whether it is complete. -/
inductive Posted (key : AccessKey) (r : Registry) (now : Instant) (request : Request) :
    Registry × Handling → Prop
  | tooLarge (hsize : Http.bodyLimit < request.body.length) :
    Posted key r now request (r, .answered (.refuse .bodyTooLarge))
  | unauthorized (hsize : request.body.length ≤ Http.bodyLimit)
    (hkey : request.header? Wire.keyHeader ≠ some key.secret) :
    Posted key r now request (r, .answered (failure .unauthorized))
  | undecodable (hsize : request.body.length ≤ Http.bodyLimit)
    (hkey : request.header? Wire.keyHeader = some key.secret)
    (hread : Registration.ofBytes? request.body = none) :
    Posted key r now request (r, .answered (failure (.malformed .undecodable)))
  | incomplete (hsize : request.body.length ≤ Http.bodyLimit)
    (hkey : request.header? Wire.keyHeader = some key.secret) (reg : Registration)
    (hread : Registration.ofBytes? request.body = some reg) (flaw : RequestFlaw)
    (h : r.register reg now = .error (.malformed flaw)) :
    Posted key r now request (r, .answered (failure (.malformed flaw)))
  | enrolled (hsize : request.body.length ≤ Http.bodyLimit)
    (hkey : request.header? Wire.keyHeader = some key.secret) (reg : Registration)
    (hread : Registration.ofBytes? request.body = some reg) (enrolled : Registry) (e : Enrolment)
    (h : r.register reg now = .ok (enrolled, e)) : Posted key r now request (enrolled, .enrolling e)

/-- What becomes of a request, by the call that it is: it is refused or only read, and changes
nothing; the call is made, in vain or with success; or it is a registration that waits for its
catch-up. -/
inductive Handled (key : AccessKey) (r : Registry) (now : Instant) (request : Request) :
    Option Visit → Registry × Handling → Prop
  | unread (reply : Reply) (hblames : reply.status.BlamesRequest) :
    Handled key r now request none (r, .answered reply)
  | answered (reply : Reply) (hok : reply.status = .ok) :
    Handled key r now request none (r, .answered reply)
  | refused (reg : Registration) (e : RegistryError) (h : r.register reg now = .error e)
    (reply : Reply) (hblames : reply.status.BlamesRequest) :
    Handled key r now request (some (.register reg)) (r, .answered reply)
  | missed (v : Visit) (hsilent : ∀ reg, v ≠ .register reg) (h : r.perform (v.operation now) = r)
    (reply : Reply) (hblames : reply.status.BlamesRequest) :
    Handled key r now request (some v) (r, .answered reply)
  | granted (v : Visit) (hsilent : ∀ reg, v ≠ .register reg) (after : Registry)
    (h : r.perform (v.operation now) = after) (reply : Reply) (hok : reply.status = .ok)
    (hwrites : ¬ request.Reads) : Handled key r now request (some v) (after, .answered reply)
  | enrolled (reg : Registration) (hsubmits : Submits key request reg) (enrolled : Registry)
    (e : Enrolment) (h : r.register reg now = .ok (enrolled, e)) :
    Handled key r now request (some (.register reg)) (enrolled, .enrolling e)

/-- What a request comes to, by the call that it is: nothing, a registration that is refused, a call
that announces nobody, or a registration that waits for its catch-up. -/
inductive Comes (r : Registry) (now : Instant) : Option Visit → Registry × Handling → Prop
  | unread (reply : Reply) : Comes r now none (r, .answered reply)
  | refused (reg : Registration) (e : RegistryError) (h : r.register reg now = .error e)
    (reply : Reply) : Comes r now (some (.register reg)) (r, .answered reply)
  | operated (v : Visit) (hsilent : ∀ reg, v ≠ .register reg) (reply : Reply) :
    Comes r now (some v) (r.perform (v.operation now), .answered reply)
  | enrolled (reg : Registration) (enrolled : Registry) (e : Enrolment)
    (h : r.register reg now = .ok (enrolled, e)) :
    Comes r now (some (.register reg)) (enrolled, .enrolling e)

theorem Handled.comes {key : AccessKey} {r : Registry} {now : Instant} {request : Request}
    {v? : Option Visit} {done : Registry × Handling} (h : Handled key r now request v? done) :
    Comes r now v? done := by
  cases h with
  | unread reply => exact .unread reply
  | answered reply => exact .unread reply
  | refused reg e h reply => exact .refused reg e h reply
  | missed v hsilent h reply =>
      have hcomes : Comes r now (some v) (r.perform (v.operation now), .answered reply) :=
        .operated v hsilent reply
      rwa [h] at hcomes
  | granted v hsilent after h reply => exact h ▸ .operated v hsilent reply
  | enrolled reg hsubmits enrolled e h => exact .enrolled reg enrolled e h

variable (key : AccessKey) (r : Registry) (now : Instant) (request : Request)

theorem posted_post : Posted key r now request (post key r now request) := by
  unfold post
  by_cases hsize : Http.bodyLimit < request.body.length
  · rw [Request.takeBody_of_lt hsize]
    exact .tooLarge hsize
  have hsize := Nat.le_of_not_lt hsize
  rw [Request.takeBody_of_le hsize]
  dsimp only
  by_cases hkey : key.verify (request.header? Wire.keyHeader) = true
  · rw [if_pos hkey]
    have hkey := AccessKey.verify_iff.mp hkey
    cases hread : Registration.ofBytes? request.body with
    | none => exact .undecodable hsize hkey hread
    | some reg =>
        dsimp only
        cases hdone : r.register reg now with
        | error e =>
            obtain ⟨flaw, rfl⟩ := error_of_register hdone
            exact .incomplete hsize hkey reg hread flaw hdone
        | ok done => exact .enrolled hsize hkey reg hread _ _ hdone
  · rw [if_neg hkey]
    exact .unauthorized hsize (mt AccessKey.verify_iff.mpr hkey)

variable {key request} in
/-- What is read of a registration once its size and its key have been checked. -/
theorem registering?_of_key (hsize : request.body.length ≤ Http.bodyLimit)
    (hkey : request.header? Wire.keyHeader = some key.secret) :
    registering? key request = (Registration.ofBytes? request.body).map .register := by
  rw [registering?, Request.takeBody_of_le hsize]
  exact if_pos (AccessKey.verify_iff.mpr hkey)

theorem handled_post (hmethod : request.method = "POST")
    (hpath : request.target.path = Wire.servicesPath) :
    Handled key r now request (registering? key request) (post key r now request) := by
  have hposted := posted_post key r now request
  generalize post key r now request = done at hposted
  cases hposted with
  | tooLarge hsize =>
      rw [registering?, Request.takeBody_of_lt hsize]
      exact .unread _ (Refusal.blamesRequest _)
  | unauthorized hsize hkey =>
      rw [registering?, Request.takeBody_of_le hsize]
      dsimp only
      rw [if_neg (mt AccessKey.verify_iff.mp hkey)]
      exact .unread _ Status.blamesRequest_unauthorized
  | undecodable hsize hkey hread =>
      rw [registering?_of_key hsize hkey, hread]
      exact .unread _ Status.blamesRequest_badRequest
  | incomplete hsize hkey reg hread flaw h =>
      rw [registering?_of_key hsize hkey, hread]
      exact .refused reg _ h _ Status.blamesRequest_badRequest
  | enrolled hsize hkey reg hread enrolled e h =>
      rw [registering?_of_key hsize hkey, hread]
      exact .enrolled reg ⟨hmethod, hpath, hsize, hkey, hread, validate_of_register h⟩ _ _ h

theorem handled_get : Handled key r now request none (r, .answered (get r request)) := by
  unfold get
  cases parameter? request with
  | error refusal => exact .unread _ refusal.blamesRequest
  | ok name? =>
      cases hrole : requiredRole name? with
      | error e =>
          obtain rfl := error_of_requiredRole hrole
          simp only [bind, Except.bind, pure, Except.pure, hrole]
          exact .unread _ Status.blamesRequest_badRequest
      | ok role =>
          simp only [bind, Except.bind, pure, Except.pure, hrole]
          exact .answered _ rfl

theorem handled_delete (hwrites : ¬ request.Reads) : Handled key r now request (leaving? request)
    ((delete r request).1, .answered (delete r request).2) := by
  unfold leaving? delete
  cases parameter? request with
  | error refusal => exact .unread _ refusal.blamesRequest
  | ok name? =>
      cases request.takeText with
      | error refusal => exact .unread _ refusal.blamesRequest
      | ok body =>
          cases hrole : requiredRole name? with
          | error e =>
              obtain rfl := error_of_requiredRole hrole
              simp only [bind, Except.bind, pure, Except.pure, hrole]
              exact .unread _ Status.blamesRequest_badRequest
          | ok role =>
              -- From here on the request is a visit: the role and the URL have been read.
              let v : Visit := .deregister role (Text.trimmed body)
              have hsilent : ∀ reg, v ≠ .register reg := fun _ => nofun
              cases hgone : r.deregister role (Text.trimmed body) with
              | error e =>
                  have hperform : r.perform (v.operation now) = r := by
                    rw [Visit.operation, perform, hgone, afterAttempt]
                  obtain rfl := error_of_deregister hgone
                  simp only [bind, Except.bind, pure, Except.pure, hrole, hgone]
                  exact .missed v hsilent hperform _ Status.blamesRequest_notFound
              | ok done =>
                  have hperform : r.perform (v.operation now) = done.1 := by
                    rw [Visit.operation, perform, hgone, afterAttempt]
                  simp only [bind, Except.bind, pure, Except.pure, hrole, hgone]
                  exact .granted v hsilent _ hperform _ rfl hwrites

theorem handled_beat (hwrites : ¬ request.Reads) (kind : List Char) :
    Handled key r now request (beating? kind request)
      ((beat kind r now request).1, .answered (beat kind r now request).2) := by
  unfold beating? beat
  cases Route.partText? kind with
  | none => exact .unread _ (Refusal.blamesRequest _)
  | some name =>
      cases request.takeText with
      | error refusal => exact .unread _ refusal.blamesRequest
      | ok body =>
          cases hkind : HeartbeatKind.ofText name with
          | error e =>
              obtain rfl := error_of_ofText hkind
              simp only [bind, Except.bind, hkind]
              exact .unread _ Status.blamesRequest_notFound
          | ok beaten =>
              -- From here on the request is a visit: the kind and the identifier have been read.
              let v : Visit := .heartbeat beaten (.ofText body)
              have hsilent : ∀ reg, v ≠ .register reg := fun _ => nofun
              cases hheard : r.heartbeat beaten (.ofText body) now with
              | error e =>
                  have hperform : r.perform (v.operation now) = r := by
                    rw [Visit.operation, perform, hheard]
                  obtain rfl := error_of_heartbeat hheard
                  simp only [bind, Except.bind, hkind, hheard]
                  exact .missed v hsilent hperform _ Status.blamesRequest_unauthorized
              | ok heard =>
                  have hperform : r.perform (v.operation now) = heard := by
                    rw [Visit.operation, perform, hheard]
                  simp only [bind, Except.bind, hkind, hheard]
                  exact .granted v hsilent _ hperform _ rfl hwrites

theorem place?_services : place? Wire.servicesPath = some .services := by decide

theorem path_of_place?_services {path : String} (h : place? path = some .services) :
    path = Wire.servicesPath := by
  unfold place? at h
  split at h
  · cases h
  · split at h
    · cases h
    · split at h
      · next hpath => exact hpath
      · split at h
        · cases h
        · cases h

theorem handled_serveAt {place : Place} (hplace : place? request.target.path = some place) :
    Handled key r now request (visit? key request) (serveAt key r now request place) := by
  unfold visit? serveAt
  rw [hplace]
  have hrefuse : Handled key r now request none (r, .answered (.bare .methodNotAllowed)) :=
    .unread _ Status.blamesRequest_methodNotAllowed
  cases place with
  | health | ready =>
      dsimp only
      split
      · exact .answered _ rfl
      · exact hrefuse
  | services =>
      dsimp only
      by_cases hread : (request.method = "GET" || request.method = "HEAD") = true
      · -- Nothing but reading is served under the methods that read.
        have hreads : request.Reads := by
          simpa [Request.Reads] using hread
        rw [if_pos hread, if_neg fun hpost => Request.not_reads_of_post hpost hreads,
          if_neg fun hdelete => Request.not_reads_of_delete hdelete hreads]
        exact handled_get key r now request
      · rw [if_neg hread]
        by_cases hpost : request.method = "POST"
        · rw [if_pos hpost, if_pos hpost]
          exact handled_post key r now request hpost (path_of_place?_services hplace)
        · rw [if_neg hpost, if_neg hpost]
          split
          · next hdelete =>
            exact handled_delete key r now request (Request.not_reads_of_delete hdelete)
          · exact hrefuse
  | heartbeat kind =>
      dsimp only
      split
      · next hpost => exact handled_beat key r now request (Request.not_reads_of_post hpost) kind
      · exact hrefuse

theorem status_withoutBody (reply : Reply) :
    (if request.method = "HEAD" then Reply.bare reply.status else reply).status = reply.status := by
  split
  · rfl
  · rfl

/-- What becomes of a request, by the call that it is. Each of its constructors is one outcome, with
the checks that lead to it, so whatever is said about requests is a case analysis of it. -/
theorem handled_serve :
    Handled key r now request (visit? key request) (serve key r now request) := by
  unfold serve
  cases hplace : place? request.target.path with
  | none =>
      have hnone : visit? key request = none := by
        unfold visit?
        rw [hplace]
      rw [hnone]
      exact .unread _ Status.blamesRequest_notFound
  | some place =>
      have hhandled := handled_serveAt key r now request hplace
      dsimp only
      generalize visit? key request = v?, serveAt key r now request place = done at hhandled ⊢
      cases hhandled with
      | unread reply hblames => exact .unread _ (by rwa [status_withoutBody])
      | answered reply hok => exact .answered _ (by rwa [status_withoutBody])
      | refused reg e h reply hblames => exact .refused reg e h _ (by rwa [status_withoutBody])
      | missed v hsilent h reply hblames =>
          exact .missed v hsilent h _ (by rwa [status_withoutBody])
      | granted v hsilent after h reply hok hwrites =>
          exact .granted v hsilent after h _ (by rwa [status_withoutBody]) hwrites
      | enrolled reg hsubmits enrolled e h => exact .enrolled reg hsubmits enrolled e h

/-- Serving a request is making the call that it is, so nothing can be done over HTTP that a call
could not do. -/
theorem comes_serve : Comes r now (visit? key request) (serve key r now request) :=
  (handled_serve key r now request).comes

/-! ## What is posted -/

variable {key r now request}

/-- What is posted to the services is a registration. -/
theorem serve_post (hmethod : request.method = "POST")
    (hpath : request.target.path = Wire.servicesPath) :
    serve key r now request = post key r now request := by
  rw [serve, hpath, place?_services]
  simp only [serveAt, hmethod]
  cases hpost : post key r now request with
  | mk registry handling =>
      cases handling with
      | answered reply => simp [withoutBody, hmethod]
      | enrolling e => simp [withoutBody]

/-- A registration that passes every check is admitted, and waits for its catch-up. -/
theorem serve_of_submits {reg : Registration} (h : Submits key request reg) {enrolled : Registry}
    {e : Enrolment} (hdone : r.register reg now = .ok (enrolled, e)) :
    serve key r now request = (enrolled, .enrolling e) := by
  rw [serve_post h.method h.path, post, Request.takeBody_of_le h.fits]
  dsimp only
  rw [if_pos (AccessKey.verify_iff.mpr h.key), h.read]
  dsimp only
  rw [hdone]

end Registry.Api
end Rollcall
