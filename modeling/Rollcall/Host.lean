import Rollcall.Membership.Attendance
import Rollcall.PatchEndpoint

/-!
# Hosts

A host is an instance with its listener. Order matters: the patch endpoint is in place before the
registration goes out, so that the catch-up finds somebody at home. Once the registration has been
acknowledged the instance keeps itself alive until it is shut down.

    patchPath url                      where the endpoint is mounted for an update address
    start key routes attendance span   mounts the endpoint, registers and begins to keep alive
    serve                              answers a request
    shutdown                           deregisters and ends what is under way

What the service itself serves is its own affair and comes as a parameter, `Routes`. The patch
endpoint is merged into it. No router takes two handlers for one method at one route, so it does not
matter which of the two is asked first.
-/

namespace Rollcall

open Http

/-- The routes that a service brings along. -/
structure Routes where
  /-- What the handler for a request answers, if there is a handler. -/
  answer? : Request → Option Reply
  /-- What is said to a request that nobody handles. -/
  unhandled : Request → Reply

/-- A running instance: its own routes, the endpoint where it hears of others, and the member with
all that is under way. -/
structure Host where
  key : AccessKey
  routes : Routes
  /-- Where patches arrive, if anywhere. -/
  endpoint? : Option Route
  attendance : Attendance

namespace Host

/-- The path of an update address. An address without a path means the root; what is no address at
all is an error of configuration. -/
def patchPath (updateUrl : String) : Except MemberError String :=
  match Target.ofText? updateUrl with
  | none => .error (.configuration ("invalid serviceUpdateURL " ++ updateUrl))
  | some target => .ok (if target.path.isEmpty then "/" else target.path)

/-- The route of the patch endpoint; an instance without an update address has none. -/
def endpointFor (updateUrl : String) : Except MemberError (Option Route) :=
  if updateUrl.isEmpty then .ok none
  else do
    match Route.ofText? (← patchPath updateUrl) with
    | some route => .ok (some route)
    | none => .error (.configuration ("no route for serviceUpdateURL " ++ updateUrl))

/-- Mounts the endpoint and registers, which may take so long at most; then heartbeats begin, the
first of them one period from now. If the registration comes to nothing, all that is under way is
cancelled. The member is handed back whatever happens. -/
def start (key : AccessKey) (routes : Routes) (attendance : Attendance) (span : Duration) :
    Attendance × Except MemberError (Host × InstanceId) :=
  match endpointFor attendance.member.registration.updateUrl with
  | .error e => (attendance, .error e)
  | .ok endpoint? =>
    match attendance.await .register span with
    | (attendance, some (.registered id)) =>
      let (attendance, _) := attendance.spawn (.keepAlive attendance.time attendance.period)
      (attendance, .ok (⟨key, routes, endpoint?, attendance⟩, id))
    | (attendance, some (.failed e)) => (attendance.cancel, .error e)
    | (attendance, _) => (attendance.cancel, .error .cancelled)

/-- Answers a request. A request to the endpoint's route with a method that is not served there is
told so, and whatever is not the endpoint's is left to the service. -/
def serve (h : Host) (request : Request) : Host × Reply :=
  match h.routes.answer? request with
  | some reply => (h, reply)
  | none =>
    let m := h.attendance.member
    match h.endpoint?.map fun route => PatchEndpoint.serve route h.key m.cache request with
    | none | some (.notFound, _) => (h, h.routes.unhandled request)
    | some (status, cache) =>
      let attendance := { h.attendance with member := { m with cache := cache } }
      ({ h with attendance := attendance }, .bare status)

/-- Deregisters the instance, for which it waits so long at most, and ends what is under way. The
host then serves no more. -/
def shutdown (h : Host) (span : Duration) : Attendance :=
  (h.attendance.await .deregister span).1.cancel

end Host
end Rollcall
