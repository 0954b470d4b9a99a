import Rollcall.Proofs.Link.Service
import Rollcall.Proofs.Net.Base

/-!
# The name of a role in a query

A link writes the name of a role into the query of an address, and the registry reads it from there. A
name can be any text at all, one that is full of the signs that queries are made of among them, and the
registry wants it without the space around it.

* `Net.Url.pairs_withPair` — a pair that is added to a query is one pair, and leaves the others alone;
* `RegistryLink.role_comes_through` — from whatever base, the address that is written for a role leads
  to the services and asks for this role and for nothing else.
-/

namespace Rollcall

open Http (Outgoing Request Target)
open Net (Url)

/-! ## Queries -/

namespace Net.Url

variable {u : Url}

/-- The bytes of the query of a URL. -/
def queryBytes (u : Url) : Text.Bytes := Text.Utf8.encode (u.query?.getD [])

/-- The pairs that the query of a URL holds. -/
def pairs (u : Url) : List (String × String) := Http.Form.pairs u.queryBytes

/-- A pair that is added to a URL is one pair of its query, and leaves the others alone. -/
theorem pairs_withPair (u : Url) (name value : String) :
    (u.withPair name value).pairs = u.pairs ++ [(name, value)] := by
  have hpair : Text.Utf8.encode
      ((Http.Form.encodePair name value).map fun b => Char.ofNat b.toNat) =
      Http.Form.encodePair name value := encode_pairChars name value
  unfold pairs queryBytes withPair
  dsimp only [Option.getD_some]
  cases hquery : u.query?.getD [] with
  | nil =>
      rw [List.isEmpty_nil, if_pos rfl, hpair, Http.Form.pairs_encodePair]
      rfl
  | cons c rest =>
      have hjoined : Text.Utf8.encode ((c :: rest) ++
          '&' :: (Http.Form.encodePair name value).map fun b => Char.ofNat b.toNat) =
          Text.Utf8.encode (c :: rest) ++ Http.byte '&' :: Http.Form.encodePair name value := by
        have hmark (cs : List Char) : Text.Utf8.encode ('&' :: cs) =
            Http.byte '&' :: Text.Utf8.encode cs := rfl
        rw [Text.Utf8.encode_append, hmark, hpair]
      rw [List.isEmpty_cons, if_neg Bool.false_ne_true, hjoined, Http.Form.pairs_append,
        Http.Form.pairs_encodePair]

end Net.Url

namespace Registry.Api

def asked (request : Request) : Except Http.Refusal (Except RegistryError Role) :=
  (parameter? request).map requiredRole

theorem requiredRole_of_blank {name : String} (h : Text.isBlankText name = true) :
    requiredRole (some name) = .error (.malformed .noRole) := by
  have hempty : (Text.trimmed name).isEmpty = true := by
    rw [String.isEmpty_iff, Text.trimmed, (Text.trim_eq_nil_iff _).mpr h]
  rw [requiredRole, Option.getD_some]
  exact if_pos hempty

/-- A query that is the pair of a role asks for the role whose name it is without the space around
it, unless it is blank. -/
theorem asked_pair {request : Request} {name : String}
    (h : request.query = Http.Form.encodePair Wire.roleParameter name) :
    asked request = .ok (if Text.isBlankText name = true then .error (.malformed .noRole)
      else .ok (.ofText (Text.trimmed name))) := by
  rw [asked, parameter?_pair h]
  show Except.ok (requiredRole (some name)) = _
  split
  · next hblank => rw [requiredRole_of_blank hblank]
  · next hblank => rw [requiredRole_of_not_blank (Bool.not_eq_true _ ▸ hblank)]

end Registry.Api

/-! ## Addresses -/

/-- Whether an address is the base of a registry: a URL of the plain protocol that names a place and
nothing else, with any number of slashes behind it. -/
structure IsBase (address : String) : Prop where
  readable : (Url.ofText? address).isSome = true
  placed : ∃ scheme place slashes, Url.Placed scheme place (List.replicate slashes '/') ∧
    address = String.ofList (Url.placedChars scheme place (List.replicate slashes '/'))

theorem isBase_of_hostName {scheme host : List Char} {port? : Option Nat}
    (hscheme : scheme.map Char.toLower = "http".toList) (h : Net.HostName host)
    (hport : ∀ port ∈ port?, port ≤ 65535) (slashes : Nat) :
    IsBase (String.ofList (Url.placedChars scheme (host ++ Net.portChars port?)
      (List.replicate slashes '/'))) := by
  have hslash (c : Char) (hc : c ∈ List.replicate slashes '/') : c = '/' := List.eq_of_mem_replicate hc
  have hplaced : Url.Placed scheme (host ++ Net.portChars port?) (List.replicate slashes '/') := by
    refine ⟨hscheme, List.append_ne_nil_of_left_ne_nil h.given _, fun c hc => ?_,
      fun c hc => hslash c (List.mem_of_mem_head? hc), fun c hc => .inl (hslash c hc)⟩
    rcases Net.mem_place h.chars hc with hname | rfl
    · exact Net.of_isNameChar (P := fun c => Url.isPlaceChar c = true) (by decide) hname
    · rfl
  refine ⟨?_, scheme, _, slashes, hplaced, rfl⟩
  rw [Url.ofText?, String.toList_ofList, hplaced.ofChars?_placedChars,
    Url.readAuthority?_place h hport]
  rfl

namespace RegistryLink

def servicesAt (a : Net.UrlAuthority) : Url :=
  ⟨"http".toList, some a, Wire.servicesPath.toList, none, none⟩

/-- The slashes behind a base do not count, however many there are. -/
theorem base_ofAddress {scheme place : List Char} {slashes : Nat}
    (h : Url.Placed scheme place (List.replicate slashes '/')) (key : AccessKey) (timeout : Duration) :
    (ofAddress (String.ofList (Url.placedChars scheme place (List.replicate slashes '/'))) key
      timeout).base = String.ofList (Url.placedChars scheme place []) := by
  obtain ⟨front, last, hlast⟩ : ∃ front last, place = front ++ [last] :=
    ⟨_, _, (List.dropLast_append_getLast h.given).symm⟩
  have hslash : last ≠ '/' := by
    refine (Url.of_isPlaceChar (h.place last ?_)).2.1
    rw [hlast]
    exact List.mem_append_right front List.mem_cons_self
  have hdropped : (Url.placedChars scheme place (List.replicate slashes '/')).reverse.dropWhile
      (· = '/') = (Url.placedChars scheme place []).reverse := by
    have hsplit : (Url.placedChars scheme place (List.replicate slashes '/')).reverse =
        List.replicate slashes '/' ++ (Url.placedChars scheme place []).reverse := by
      simp [Url.placedChars]
    rw [hsplit]
    refine Text.dropWhile_run (fun c hc => decide_eq_true (List.eq_of_mem_replicate hc)) ?_
    rw [hlast]
    simp [Url.placedChars, hslash]
  show String.ofList _ = _
  rw [String.toList_ofList, hdropped, List.reverse_reverse]

/-- The address of the services of a role, from a base: the services at the place of the base, with the
pair that names the role. -/
theorem servicesAddress_ofAddress {address : String} (h : IsBase address) (key : AccessKey)
    (timeout : Duration) (role : Role) :
    ∃ place a, Url.readAuthority? "http".toList place = some a ∧
      (ofAddress address key timeout).servicesAddress role =
        .ok ((servicesAt a).withPair Wire.roleParameter role.text).text := by
  obtain ⟨scheme, place, slashes, hplaced, rfl⟩ := h.placed
  have hread := h.readable
  rw [Url.ofText?, String.toList_ofList, hplaced.ofChars?_placedChars, Option.isSome_map] at hread
  obtain ⟨a, ha⟩ := Option.isSome_iff_exists.mp hread
  refine ⟨place, a, ha, ?_⟩
  -- The path behind the base is of place characters only, so the two are read together as the base
  -- alone is.
  have hservices : Url.Placed scheme place Wire.servicesPath.toList := by
    have hletters : ∀ c ∈ "services".toList, Url.isPlaceChar c = true :=
      List.all_eq_true.mp (by decide)
    refine ⟨hplaced.scheme, hplaced.given, hplaced.place, ?_, fun c hc => ?_⟩
    · rintro c ⟨⟩
      rfl
    · exact (List.mem_cons.mp hc).imp_right (hletters c)
  have hurl : Url.ofText? (String.ofList (Url.placedChars scheme place []) ++ Wire.servicesPath) =
      some (servicesAt a) := by
    have hchars : (String.ofList (Url.placedChars scheme place []) ++ Wire.servicesPath).toList =
        Url.placedChars scheme place Wire.servicesPath.toList := by
      simp [Url.placedChars]
    have hpath : Url.hierarchicalPath true Wire.servicesPath.toList = Wire.servicesPath.toList := by
      decide
    rw [Url.ofText?, hchars, hservices.ofChars?_placedChars, ha, hpath]
    rfl
  rw [servicesAddress, base_ofAddress hplaced, hurl]

/-! ## On the way -/

/-- What is prepared for an address asks for what the address is read as. -/
theorem of_prepared {method address : String} {contentType? key? : Option String} {body : Text.Bytes}
    {o : Outgoing} (h : Http.prepare method address contentType? key? body = .ok o) :
    ∃ t, Target.ofText? address = some t ∧ t.Plain ∧ o.target = t.pathAndQuery := by
  unfold Http.prepare at h
  split at h
  · cases h
  · next t ht =>
    split at h
    · cases h
    · split at h
      · cases h
      · next hplain =>
        obtain rfl := Except.ok.inj h
        exact ⟨t, ht, Classical.not_not.mp hplain, rfl⟩

/-- How a URL asks a registry for a role: it leads to the services, and its one pair names the
role. -/
structure AsksFor (url : Url) (role : Role) : Prop where
  /-- It leads to the services, and the name is the one thing that it asks for. -/
  path : url.path = Wire.servicesPath.toList
  pairs : url.pairs = [(Wire.roleParameter, role.text)]
  fragment : url.fragment? = none
  /-- Whoever reads it as the target of a request finds the same path and the same query. -/
  read : ∀ t, Target.ofText? url.text = some t →
    t.path = Wire.servicesPath ∧ t.query?.map String.toList = url.query?
  /-- A request that is sent to it arrives at the services, with this query. -/
  arrives : ∀ method contentType? key? body o arrived,
    Http.prepare method url.text contentType? key? body = .ok o → o.arriving? = some arrived →
    arrived.target.path = Wire.servicesPath ∧ arrived.query = url.queryBytes
  /-- Whatever arrives with this query asks for the role without the space around its name, unless
  there is nothing else in it. -/
  asks : ∀ request : Request, request.query = url.queryBytes → Registry.Api.asked request =
    .ok (if role.isBlank then .error (.malformed .noRole) else .ok (.ofText (Text.trimmed role.text)))

theorem asksFor_servicesAt {place : List Char} {a : Net.UrlAuthority}
    (ha : Url.readAuthority? "http".toList place = some a) (role : Role) :
    AsksFor ((servicesAt a).withPair Wire.roleParameter role.text) role := by
  let pair := Url.pairChars Wire.roleParameter role.text
  let url := (servicesAt a).withPair Wire.roleParameter role.text
  have hquery : url.query? = some pair := rfl
  have hbytes : url.queryBytes = Http.Form.encodePair Wire.roleParameter role.text :=
    Url.encode_pairChars Wire.roleParameter role.text
  have hchars : url.text.toList = Url.placedChars "http".toList (Url.authorityChars a)
      ('/' :: "services".toList ++ '?' :: pair) := by
    have hservices : (servicesAt a).chars = Url.placedChars "http".toList (Url.authorityChars a)
        ('/' :: "services".toList) := by
      simp [Url.chars, servicesAt, Url.placedChars, Wire.servicesPath]
    rw [Url.text, String.toList_ofList, Url.chars_withPair rfl rfl, hservices]
    simp [Url.placedChars, pair]
  -- Whoever reads the text as a target finds the path and the query that were written, as there is
  -- no break before them.
  have hread (t : Target) (ht : Target.ofText? url.text = some t) :
      t.path = Wire.servicesPath ∧ t.query?.map String.toList = url.query? := by
    obtain ⟨-, ht⟩ := Option.ite_none_left_eq_some.mp ht
    rw [hchars] at ht
    obtain ⟨hpath, hquery⟩ := Net.of_ofChars?_placedChars
      (Url.unbroken_authorityChars (by decide) ha) (by decide)
      (Url.all_isQueryChar_pairChars Wire.roleParameter role.text) ht
    refine ⟨hpath.trans ofList_services, ?_⟩
    rw [hquery, Option.map_some, String.toList_ofList]
    rfl
  refine ⟨rfl, ?_, rfl, hread, ?_, fun request hrequest => ?_⟩
  · rw [Url.pairs, hbytes, Http.Form.pairs_encodePair]
  · intro method contentType? key? body o arrived hprepared harrived
    obtain ⟨t, ht, hplain, htarget⟩ := of_prepared hprepared
    obtain ⟨hpath, hquery⟩ := hread t ht
    rw [Outgoing.arriving?, htarget, Target.ofText?_pathAndQuery ht hplain.isSome] at harrived
    obtain rfl := Option.some.inj harrived
    refine ⟨hpath, ?_⟩
    show Text.Utf8.ofString (t.query?.getD "") = Text.Utf8.encode (url.query?.getD [])
    rw [← hquery]
    cases t.query? with
    | none => rfl
    | some query => rfl
  · exact Registry.Api.asked_pair (hrequest.trans hbytes)

/-- From whatever base, with any number of slashes behind it, a link writes one address for each role,
whatever its name. It leads to the services and asks for the role without the space around its name,
or for none exactly if the name is blank; and no name adds, drops or alters another pair. -/
theorem role_comes_through {address : String} (h : IsBase address) (key : AccessKey)
    (timeout : Duration) (role : Role) :
    (∃ url : Url, (ofAddress address key timeout).servicesAddress role = .ok url.text ∧
      AsksFor url role) ∧
    RequestFlaw.noRole.message = "serviceName is required" ∧
    ∀ (u : Url) (name : String), (u.withPair name role.text).pairs = u.pairs ++ [(name, role.text)] := by
  obtain ⟨place, a, ha, haddress⟩ := servicesAddress_ofAddress h key timeout role
  exact ⟨⟨_, haddress, asksFor_servicesAt ha role⟩, rfl, fun u name => u.pairs_withPair name role.text⟩

/-- A name that looks like two pairs, a fragment and an escape is asked for as it is, but for the space
around it. -/
theorem misleading_name_comes_through :
    let address := "HTTP://10.0.0.100:3000///"
    let role : Role := .custom " log&serviceName=web#%2B+?\t"
    let link := ofAddress address ⟨"k"⟩ ⟨5⟩
    IsBase address ∧ ∃ url : Url, link.servicesAddress role = .ok url.text ∧
      url.pairs = [("serviceName", " log&serviceName=web#%2B+?\t")] ∧
      ∀ request : Request, request.query = url.queryBytes →
        Registry.Api.asked request = .ok (.ok (.custom "log&serviceName=web#%2B+?")) := by
  intro address role link
  have hbase : IsBase address := by
    let ip : Net.IPv4 := ⟨10, 0, 0, 100⟩
    have hscheme : "HTTP".toList.map Char.toLower = "http".toList := by decide +kernel
    have hport : ∀ port ∈ some 3000, port ≤ 65535 := by decide
    have hwritten : String.ofList (Url.placedChars "HTTP".toList
        (ip.chars ++ Net.portChars (some 3000)) (List.replicate 3 '/')) = address := by decide +kernel
    exact hwritten ▸ isBase_of_hostName hscheme (Net.hostName_of_ip ip) hport 3
  obtain ⟨⟨url, haddress, hasks⟩, -, -⟩ := role_comes_through hbase ⟨"k"⟩ ⟨5⟩ role
  refine ⟨hbase, url, haddress, hasks.pairs, fun request hrequest => ?_⟩
  have hblank : role.isBlank = false := by decide
  have htrimmed : Text.trimmed role.text = "log&serviceName=web#%2B+?" := by decide +kernel
  have hcustom : Role.ofText "log&serviceName=web#%2B+?" = .custom "log&serviceName=web#%2B+?" := by
    decide +kernel
  rw [hasks.asks request hrequest, hblank, htrimmed, hcustom]
  rfl

end RegistryLink
end Rollcall
