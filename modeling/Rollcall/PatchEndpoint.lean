import Rollcall.AccessKey
import Rollcall.Http.Route
import Rollcall.ProviderCache
import Rollcall.Wire

/-!
# Where patches arrive

An instance takes patches at one route. The key is looked at before the body is read as a patch, so
that a stranger learns nothing, and a patch is taken in as a whole or not at all.

    serve route key cache request   the status of the answer and the cache afterwards
-/

namespace Rollcall.PatchEndpoint

open Http

/-- Takes a patch at the endpoint. The size of the body is looked at before the key, and the key
before the body is read. -/
def receive (key : AccessKey) (cache : ProviderCache) (request : Request) :
    Status × ProviderCache :=
  match request.takeBody with
  | .error refusal => (refusal.status, cache)
  | .ok body =>
    if key.verify (request.header? Wire.keyHeader) then
      match Patch.ofBytes? body with
      | some patch => (.ok, cache.apply patch)
      | none => (.badRequest, cache)
    else (.unauthorized, cache)

/-- Serves a request. Only a POST to the endpoint's own route can change the cache, and it changes
it by a whole patch or not at all. -/
def serve (route : Route) (key : AccessKey) (cache : ProviderCache) (request : Request) :
    Status × ProviderCache :=
  match route.match? request.target.path with
  | none => (.notFound, cache)
  | some _ =>
    if request.method = "POST" then receive key cache request else (.methodNotAllowed, cache)

end Rollcall.PatchEndpoint
