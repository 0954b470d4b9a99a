import Rollcall.PatchEndpoint
import Rollcall.Proofs.Link.Key
import Rollcall.Proofs.Registry.Requests

/-!
# Patches are taken in whole or not at all

A request to the endpoint passes its checks in a fixed order, `served_serve`: the route, the method,
the size of the body, the key, and only then what the body says. The cache is touched after the last
of them, so a body that goes wrong in its last entry leaves as little behind as one that is not read.

* `cache_of_requests` — after any number of requests the cache is what the patches that have passed
  every check have made of it, one after the other;
* `all_or_nothing` — a request is granted exactly if it brings in a patch, which is then taken in as a
  whole, and strangers get one answer, whatever they send and whatever the cache holds.
-/

namespace Rollcall.PatchEndpoint

open Http (Request Route Status)

variable {route : Route} {key : AccessKey} {cache : ProviderCache} {request : Request} {patch : Patch}

/-! ## The checks -/

/-- Whether a request to the endpoint brings in a patch: it is posted, its body is not too large, it
shows the key, and its body is that patch. -/
structure Brings (key : AccessKey) (request : Request) (patch : Patch) : Prop where
  posted : request.method = "POST"
  fits : request.body.length ≤ Http.bodyLimit
  printable : key.Printable
  presented : key.PresentedBy request
  decoded : Patch.ofBytes? request.body = some patch

/-- Whether a request to the endpoint comes as far as the check of the key and fails it: it is posted,
its body is not too large, and it does not show the key. -/
structure FailsKeyCheck (key : AccessKey) (request : Request) : Prop where
  posted : request.method = "POST"
  fits : request.body.length ≤ Http.bodyLimit
  unshown : ¬ (key.Printable ∧ key.PresentedBy request)

/-- What a request comes to, with the checks in their order. Each constructor is one end, with all
the checks that were passed on the way to it. -/
inductive Served (route : Route) (key : AccessKey) (cache : ProviderCache) (request : Request) :
    Status × ProviderCache → Prop
  | elsewhere (hroute : (route.match? request.target.path).isSome = false) :
    Served route key cache request (.notFound, cache)
  | notPosted (hroute : (route.match? request.target.path).isSome = true)
    (hmethod : request.method ≠ "POST") :
    Served route key cache request (.methodNotAllowed, cache)
  | tooLarge (hroute : (route.match? request.target.path).isSome = true)
    (hmethod : request.method = "POST") (hsize : Http.bodyLimit < request.body.length) :
    Served route key cache request (.payloadTooLarge, cache)
  | unauthorized (hroute : (route.match? request.target.path).isSome = true)
    (hfails : FailsKeyCheck key request) :
    Served route key cache request (.unauthorized, cache)
  | undecodable (hroute : (route.match? request.target.path).isSome = true)
    (hmethod : request.method = "POST") (hsize : request.body.length ≤ Http.bodyLimit)
    (hkey : key.Printable ∧ key.PresentedBy request)
    (hread : Patch.ofBytes? request.body = none) :
    Served route key cache request (.badRequest, cache)
  | taken (hroute : (route.match? request.target.path).isSome = true) (patch : Patch)
    (hbrings : Brings key request patch) :
    Served route key cache request (.ok, cache.apply patch)

/-- What is posted where patches arrive is a patch. -/
theorem serve_post (hmethod : request.method = "POST")
    (hroute : (route.match? request.target.path).isSome = true) :
    serve route key cache request = receive key cache request := by
  obtain ⟨parts, hparts⟩ := Option.isSome_iff_exists.mp hroute
  rw [serve, hparts]
  exact if_pos hmethod

/-- The key of what is not posted is not even looked at. -/
theorem serve_of_not_posted (hroute : (route.match? request.target.path).isSome = true)
    (hmethod : request.method ≠ "POST") :
    serve route key cache request = (.methodNotAllowed, cache) := by
  obtain ⟨parts, hparts⟩ := Option.isSome_iff_exists.mp hroute
  rw [serve, hparts]
  exact if_neg hmethod

/-- Neither is the key of what is too large. -/
theorem serve_of_tooLarge (hroute : (route.match? request.target.path).isSome = true)
    (hmethod : request.method = "POST") (hsize : Http.bodyLimit < request.body.length) :
    serve route key cache request = (.payloadTooLarge, cache) := by
  rw [serve_post hmethod hroute, receive, Request.takeBody_of_lt hsize]
  rfl

theorem verify_header_iff : key.verify (request.header? Wire.keyHeader) = true ↔
    key.Printable ∧ key.PresentedBy request := AccessKey.verify_iff.trans AccessKey.header?_iff

/-- Of a request that fails the check of the key the body is not read. -/
theorem serve_of_failsKeyCheck (hroute : (route.match? request.target.path).isSome = true)
    (h : FailsKeyCheck key request) : serve route key cache request = (.unauthorized, cache) := by
  rw [serve_post h.posted hroute, receive, Request.takeBody_of_le h.fits]
  exact if_neg (mt verify_header_iff.mp h.unshown)

/-- What a request that shows the key comes to is up to its body. -/
theorem serve_of_shown (hroute : (route.match? request.target.path).isSome = true)
    (hmethod : request.method = "POST") (hsize : request.body.length ≤ Http.bodyLimit)
    (hkey : key.Printable ∧ key.PresentedBy request) : serve route key cache request =
      match Patch.ofBytes? request.body with
      | none => (.badRequest, cache)
      | some patch => (.ok, cache.apply patch) := by
  rw [serve_post hmethod hroute, receive, Request.takeBody_of_le hsize]
  dsimp only
  rw [if_pos (verify_header_iff.mpr hkey)]
  cases Patch.ofBytes? request.body with
  | none => rfl
  | some patch => rfl

/-- A patch that is brought in is taken in. -/
theorem serve_of_brings (hroute : (route.match? request.target.path).isSome = true)
    (h : Brings key request patch) : serve route key cache request = (.ok, cache.apply patch) := by
  rw [serve_of_shown hroute h.posted h.fits ⟨h.printable, h.presented⟩, h.decoded]

/-- Whatever is served has come to one of these ends. -/
theorem served_serve (route : Route) (key : AccessKey) (cache : ProviderCache) (request : Request) :
    Served route key cache request (serve route key cache request) := by
  -- In the order of the checks: each is passed, or has its own answer.
  by_cases hroute : (route.match? request.target.path).isSome = true
  swap
  · have hnone : route.match? request.target.path = none := Option.not_isSome_iff_eq_none.mp hroute
    rw [serve, hnone]
    exact .elsewhere (Bool.eq_false_iff.mpr hroute)
  by_cases hmethod : request.method = "POST"
  swap
  · rw [serve_of_not_posted hroute hmethod]
    exact .notPosted hroute hmethod
  by_cases hsize : request.body.length ≤ Http.bodyLimit
  swap
  · have hsize := Nat.lt_of_not_le hsize
    rw [serve_of_tooLarge hroute hmethod hsize]
    exact .tooLarge hroute hmethod hsize
  by_cases hkey : key.Printable ∧ key.PresentedBy request
  swap
  · have hfails : FailsKeyCheck key request := ⟨hmethod, hsize, hkey⟩
    rw [serve_of_failsKeyCheck hroute hfails]
    exact .unauthorized hroute hfails
  rw [serve_of_shown hroute hmethod hsize hkey]
  cases hread : Patch.ofBytes? request.body with
  | none => exact .undecodable hroute hmethod hsize hkey hread
  | some patch => exact .taken hroute patch ⟨hmethod, hsize, hkey.1, hkey.2, hread⟩

/-! ## One request after another -/

def patch? (route : Route) (key : AccessKey) (request : Request) : Option Patch :=
  if (route.match? request.target.path).isSome = true ∧ request.method = "POST" ∧
      request.body.length ≤ Http.bodyLimit ∧ key.Printable ∧ key.PresentedBy request then
    Patch.ofBytes? request.body
  else none

theorem patch?_eq_some_iff : patch? route key request = some patch ↔
    (route.match? request.target.path).isSome = true ∧ Brings key request patch := by
  rw [patch?]
  constructor
  · intro h
    split at h
    · next hpassed =>
      obtain ⟨hroute, hmethod, hsize, hprintable, hpresented⟩ := hpassed
      exact ⟨hroute, hmethod, hsize, hprintable, hpresented, h⟩
    · cases h
  · rintro ⟨hroute, hbrings⟩
    rw [if_pos ⟨hroute, hbrings.posted, hbrings.fits, hbrings.printable, hbrings.presented⟩]
    exact hbrings.decoded

/-- Whatever brings in no patch is not granted and changes nothing. -/
theorem serve_of_not_brings (h : ∀ patch, (route.match? request.target.path).isSome = true →
    ¬ Brings key request patch) :
    (serve route key cache request).1 ≠ .ok ∧ (serve route key cache request).2 = cache := by
  have hserved := served_serve route key cache request
  generalize serve route key cache request = done at hserved ⊢
  cases hserved with
  | taken hroute patch hbrings => exact absurd hbrings (h patch hroute)
  | elsewhere | notPosted | tooLarge | unauthorized | undecodable =>
      refine ⟨fun hok => ?_, rfl⟩
      cases hok

/-- A cache after a number of requests. -/
def serveAll (route : Route) (key : AccessKey) (cache : ProviderCache) (requests : List Request) :
    ProviderCache :=
  requests.foldl (fun c request => (serve route key c request).2) cache

/-- After any number of requests the cache is what the patches that they have brought in have made of
it, one after the other. -/
theorem cache_of_requests (cache : ProviderCache) (requests : List Request) :
    serveAll route key cache requests =
      (requests.filterMap (patch? route key)).foldl ProviderCache.apply cache := by
  induction requests generalizing cache with
  | nil => rfl
  | cons request rest ih =>
      show serveAll route key (serve route key cache request).2 rest = _
      rw [ih, List.filterMap_cons]
      cases hpatch : patch? route key request with
      | some patch =>
          obtain ⟨hroute, hbrings⟩ := patch?_eq_some_iff.mp hpatch
          rw [serve_of_brings hroute hbrings]
          rfl
      | none =>
          have hnot (patch : Patch) (hroute : (route.match? request.target.path).isSome = true)
              (hbrings : Brings key request patch) : False := by
            rw [patch?_eq_some_iff.mpr ⟨hroute, hbrings⟩] at hpatch
            cases hpatch
          rw [(serve_of_not_brings hnot).2]

/-! ## What is answered -/

/-- How an endpoint deals with a request to its route, whatever it knows: what is answered hangs on
the request and on the key alone. -/
structure Deals (route : Route) (key : AccessKey) (request : Request) : Prop where
  /-- The answer is that all is well exactly if the request brings in a patch. -/
  granted_iff : ∀ cache, (serve route key cache request).1 = .ok ↔ ∃ patch, Brings key request patch
  /-- Then the whole patch is taken in. -/
  taken : ∀ cache patch, Brings key request patch →
    (serve route key cache request).2 = cache.apply patch
  /-- In every other case nothing is. -/
  untouched : ∀ cache, (¬ ∃ patch, Brings key request patch) →
    (serve route key cache request).2 = cache
  /-- Two requests that fail the check of the key get the same answer, whatever is in them and whatever
  the caches hold. -/
  alike : FailsKeyCheck key request → ∀ other cache cache',
    (route.match? other.target.path).isSome = true → FailsKeyCheck key other →
    (serve route key cache request).1 = (serve route key cache' other).1
  /-- What is not posted does not come as far as that check: it gets an answer of its own, whatever
  else is in it and whatever the cache holds. -/
  unchecked : ∀ cache, request.method ≠ "POST" →
    (serve route key cache request).1 = .methodNotAllowed

/-- A request to the endpoint is granted exactly if it is posted, fits into a body, shows the key and
is a patch, and then the cache is the one that the whole patch makes; else the cache is as it was, and
strangers cannot tell their bodies or the caches apart by the answers. So after any number of requests
the cache is what the patches among them that have been granted have made of it. -/
theorem all_or_nothing (route : Route) (key : AccessKey) :
    (∀ request : Request, (route.match? request.target.path).isSome = true →
      Deals route key request) ∧
    ∀ (cache : ProviderCache) (requests : List Request), serveAll route key cache requests =
      (requests.filterMap (patch? route key)).foldl ProviderCache.apply cache := by
  refine ⟨fun request hroute => ?_, cache_of_requests⟩
  have hrefused (cache : ProviderCache) (h : ¬ ∃ patch, Brings key request patch) :
      (serve route key cache request).1 ≠ .ok ∧ (serve route key cache request).2 = cache :=
    serve_of_not_brings fun patch _ hbrings => h ⟨patch, hbrings⟩
  refine ⟨fun cache => ⟨fun hok => ?_, fun ⟨patch, h⟩ => ?_⟩, fun cache patch h => ?_,
    fun cache h => (hrefused cache h).2, fun hfails other cache cache' hother hfails' => ?_,
    fun cache hmethod => ?_⟩
  · by_contra h
    exact (hrefused cache h).1 hok
  · rw [serve_of_brings hroute h]
  · rw [serve_of_brings hroute h]
  · rw [serve_of_failsKeyCheck hroute hfails, serve_of_failsKeyCheck hother hfails']
  · rw [serve_of_not_posted hroute hmethod]

/-- A patch whose last entry is cut short leaves nothing of the entries before it, and a stranger is
told the same of it as of the whole patch, by a cache that knows the log and by one that does not. -/
theorem cut_patch_leaves_nothing :
    let route : Route := [.fixed [], .fixed ['n']]
    let key : AccessKey := ⟨"k"⟩
    let log : Registration := { role := .log, url := "http://p" }
    let whole : Patch := { added := [log], removed := [{ log with url := "http://q" }] }
    let target : Http.Target := ⟨none, "", "/n", none⟩
    let shown : List Http.Header := [⟨Wire.keyHeader, Text.Utf8.ofString "k"⟩]
    let posted (headers : List Http.Header) (body : Text.Bytes) : Request :=
      ⟨"POST", target, headers, body⟩
    let cut : Text.Bytes := whole.bytes.dropLast
    (route.match? target.path).isSome = true ∧
      serveAll route key {} [posted shown cut, posted [] whole.bytes] = {} ∧
      serveAll route key {} [posted shown cut, posted shown whole.bytes] = .apply {} whole ∧
      (serve route key {} (posted shown cut)).1 ≠ .ok ∧
      (serve route key {} (posted [] cut)).1 =
        (serve route key (.apply {} whole) (posted [] whole.bytes)).1 := by
  intro route key log whole target shown posted cut
  have hroute : (route.match? target.path).isSome = true := by decide
  have hcut : patch? route key (posted shown cut) = none := by decide +kernel
  have hstranger : patch? route key (posted [] whole.bytes) = none := by decide +kernel
  have hwhole : patch? route key (posted shown whole.bytes) = some whole := by decide +kernel
  obtain ⟨hdeals, hrun⟩ := all_or_nothing route key
  refine ⟨hroute, ?_, ?_, ?_, ?_⟩
  · rw [hrun, List.filterMap_cons_none hcut, List.filterMap_cons_none hstranger]
    rfl
  · rw [hrun, List.filterMap_cons_none hcut, List.filterMap_cons_some hwhole]
    rfl
  · rw [ne_eq, (hdeals (posted shown cut) hroute).granted_iff]
    rintro ⟨patch, hbrings⟩
    have hgranted : patch? route key (posted shown cut) = some patch :=
      patch?_eq_some_iff.mpr ⟨hroute, hbrings⟩
    rw [hcut] at hgranted
    cases hgranted
  · have hfails (body : Text.Bytes) (hsize : body.length ≤ Http.bodyLimit) :
        FailsKeyCheck key (posted [] body) := ⟨rfl, hsize, fun hshown => nomatch hshown.2⟩
    exact (hdeals (posted [] cut) hroute).alike (hfails cut (by decide +kernel)) _ _ _ hroute
      (hfails whole.bytes (by decide +kernel))

end Rollcall.PatchEndpoint
