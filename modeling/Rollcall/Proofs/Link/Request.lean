import Rollcall.Proofs.Link.Key
import Rollcall.Proofs.Net.Address
import Rollcall.RegistryLink

/-!
# What arrives at the registry

What an instance asks for is a request of its own, and what the registry gets is another one: the
address has been taken apart on the way, and the query has been written and waits to be read.

A link `Leads` to a registry if its addresses have the paths that the registry serves. Then for every
call that an instance makes something arrives, unless the name of the role makes the address too long,
and it says what arrives: `arriving?_register`, `arriving?_heartbeat`, and `arriving?_services` for the
calls that name a role. The key arrives with a registration, and is read as it is if it is made of
visible characters: `AccessKey.header?_of_visible`.
-/

namespace Rollcall

open Http (Header Outgoing Request Target)
open Text (Bytes)

/-! ## On the way -/

namespace Http

def headersOf (contentType? key? : Option String) : List Header :=
  (contentType?.map fun v => ⟨"content-type", Text.Utf8.ofString v⟩).toList ++
    (key?.map fun v => ⟨Wire.keyHeader, Text.Utf8.ofString v⟩).toList

/-- What a server gets of a request, if it can read what the request is aimed at. The connection
changes nothing else. -/
def Outgoing.arriving? (o : Outgoing) : Option Request :=
  (Target.ofText? o.target).map fun target =>
    ⟨o.method, target, headersOf o.contentType? o.key?, o.body⟩

/-- An absolute address of the plain protocol. -/
def Target.Plain (t : Target) : Prop := t.scheme?.map String.toLower = some "http"

theorem Target.Plain.isSome {t : Target} (h : t.Plain) : t.scheme?.isSome = true := by
  cases hscheme : t.scheme? with
  | none =>
      rw [Plain, hscheme] at h
      cases h
  | some scheme => rfl

/-- What is prepared for an address arrives where the address leads. -/
theorem prepare_arriving {method address : String} {contentType? key? : Option String} {body : Bytes}
    {t : Target} (h : Target.ofText? address = some t) (hplain : t.Plain)
    (hkey : key?.all canBeHeader = true) :
    ∃ o, prepare method address contentType? key? body = .ok o ∧
      o.arriving? = some ⟨method, ⟨none, "", t.path, t.query?⟩, headersOf contentType? key?, body⟩ := by
  refine ⟨⟨method, t.pathAndQuery, contentType?, key?, body⟩, ?_, ?_⟩
  · rw [Target.Plain] at hplain
    simp [prepare, h, hkey, hplain]
  · rw [Outgoing.arriving?, Target.ofText?_pathAndQuery h hplain.isSome]
    rfl

theorem prepare_of_unread {method address : String} {contentType? key? : Option String} {body : Bytes}
    (h : Target.ofText? address = none) :
    prepare method address contentType? key? body = .error .address := by
  rw [prepare, h]

end Http

/-! ## The key -/

/-- Whether a key can be read back from a header: it is made of visible ASCII characters. -/
def AccessKey.Visible (key : AccessKey) : Prop :=
  ∀ c ∈ key.secret.toList, 0x21 ≤ c.toNat ∧ c.toNat ≤ 0x7E

namespace AccessKey

variable {key : AccessKey}

instance : Decidable key.Visible := List.decidableBAll _ _

theorem canBeHeader_of_visible (h : key.Visible) : Http.canBeHeader key.secret = true := by
  rw [Http.canBeHeader, List.all_eq_true]
  intro c hc
  obtain ⟨hlow, hhigh⟩ := h c hc
  have hcontrol : 0x20 ≤ c.toNat ∧ c.toNat ≠ 0x7F := by omega
  simp [hcontrol]

theorem printable_of_visible (h : key.Visible) : key.Printable := by
  -- The bytes that the characters of the key have if each of them takes one; they are those of its
  -- encoding.
  let bytes : Bytes := key.secret.toList.map fun c => UInt8.ofNat c.toNat
  have hbyte : ∀ c ∈ key.secret.toList, (UInt8.ofNat c.toNat).toNat = c.toNat := by
    intro c hc
    have hc := h c hc
    exact Text.Utf8.toNat_byte (by omega)
  have hsmall : ∀ b ∈ bytes, 0x20 ≤ b.toNat ∧ b.toNat < 0x7F := by
    intro b hb
    obtain ⟨c, hc, rfl⟩ := List.mem_map.mp hb
    have hvisible := h c hc
    rw [hbyte c hc]
    omega
  have hchars : Text.Utf8.asciiChars bytes = key.secret.toList := by
    rw [Text.Utf8.asciiChars, List.map_map]
    refine (List.map_congr_left fun c hc => ?_).trans (List.map_id _)
    rw [Function.comp_apply, hbyte c hc, Char.ofNat_toNat, id]
  have hbytes : key.bytes = bytes := by
    rw [AccessKey.bytes, Text.Utf8.ofString, ← hchars]
    refine Text.Utf8.encode_asciiChars fun b hb => ?_
    have hb := hsmall b hb
    omega
  rw [Printable, hbytes, List.all_eq_true]
  intro b hb
  obtain ⟨hlow, hhigh⟩ := hsmall b hb
  simp [Http.isPrintableByte, UInt8.le_iff_toNat_le, UInt8.lt_iff_toNat_lt, hlow, hhigh]

theorem presentedBy_of_headers {request : Request} {contentType : String}
    (hheaders : request.headers = Http.headersOf (some contentType) (some key.secret)) :
    key.PresentedBy request := by
  have hother : ("content-type" : String).toLower ≠ Wire.keyHeader.toLower := by
    decide +kernel
  simp [PresentedBy, Request.first?, hheaders, Http.headersOf, hother, bytes]

theorem header?_of_visible (h : key.Visible) {request : Request} {contentType : String}
    (hheaders : request.headers = Http.headersOf (some contentType) (some key.secret)) :
    request.header? Wire.keyHeader = some key.secret :=
  header?_iff.mpr ⟨printable_of_visible h, presentedBy_of_headers hheaders⟩

end AccessKey

/-! ## Where a link leads -/

/-- Whether an address is one of the plain protocol that leads to a path. -/
def LeadsTo (address path : String) : Prop :=
  ∃ t, Target.ofText? address = some t ∧ t.Plain ∧ t.path = path

namespace RegistryLink

/-- Whether a link leads to a registry: its addresses have the paths that are served there. -/
structure Leads (link : RegistryLink) : Prop where
  services : LeadsTo (link.base ++ Wire.servicesPath) Wire.servicesPath
  heartbeat : LeadsTo (link.base ++ Wire.basicHeartbeatPath) Wire.basicHeartbeatPath
  /-- The same after the address has been read as a URL, which has no query and no fragment. -/
  url : ∃ url, Net.Url.ofText? (link.base ++ Wire.servicesPath) = some url ∧ url.query? = none ∧
    url.fragment? = none ∧ '?' ∉ url.text.toList ∧ '#' ∉ url.text.toList ∧
    LeadsTo url.text Wire.servicesPath

/-! ### Links by the name of a host -/

variable {host : List Char} {port? : Option Nat}

theorem length_portChars (hport : ∀ port ∈ port?, port ≤ 65535) :
    (Net.portChars port?).length ≤ 6 := by
  cases port? with
  | none => exact Nat.zero_le _
  | some port =>
      have hsmall : port < 10 ^ 5 := by
        have := hport port rfl
        omega
      have hdigits : (Text.decimal port).length ≤ 5 :=
        (Nat.length_toDigits_le_iff (by decide) (by decide)).mpr hsmall
      rw [Net.portChars, List.length_cons]
      omega

theorem leadsTo_address (h : Net.HostName host) (hlength : host.length ≤ 255)
    (hport : ∀ port ∈ port?, port ≤ 65535) {tail : List Char}
    (hpath : ('/' :: tail).all Target.isPathChar = true) (hshort : tail.length ≤ 255) :
    LeadsTo (String.ofList (Net.addressChars host port? ('/' :: tail)))
      (String.ofList ('/' :: tail)) := by
  have hsize : (String.ofList (Net.addressChars host port? ('/' :: tail))).utf8ByteSize ≤
      Target.maxLength := by
    have hbytes := Text.Utf8.length_encode_le (Net.addressChars host port? ('/' :: tail))
    have hdigits := length_portChars hport
    rw [Net.length_addressChars, List.length_cons] at hbytes
    rw [Text.Utf8.utf8ByteSize_ofList, Target.maxLength]
    exact Nat.le_trans hbytes (by omega)
  refine ⟨⟨some "http", String.ofList (host ++ Net.portChars port?), String.ofList ('/' :: tail),
    none⟩, ?_, ?_, rfl⟩
  · rw [Target.ofText?, if_neg (Nat.not_lt.mpr hsize), String.toList_ofList]
    exact Net.ofChars?_address h hpath
  · show some ("http" : String).toLower = some "http"
    decide +kernel

/-- The address of a link that names a host and perhaps a port. -/
def AtHost (link : RegistryLink) (host : List Char) (port? : Option Nat) : Prop :=
  link.base = String.ofList (Net.addressChars host port? [])

variable {link : RegistryLink}

theorem AtHost.append (h : link.AtHost host port?) (tail : List Char) :
    link.base ++ String.ofList ('/' :: tail) =
      String.ofList (Net.addressChars host port? ('/' :: tail)) := by
  rw [show link.base = _ from h, ← String.ofList_append]
  simp [Net.addressChars]

theorem ofList_services : String.ofList ('/' :: "services".toList) = Wire.servicesPath := by decide

theorem ofList_heartbeat :
    String.ofList ('/' :: "heartbeat/basic".toList) = Wire.basicHeartbeatPath := by decide

theorem isAddressChar_services : ∀ c ∈ '/' :: "services".toList, Net.Url.isAddressChar c = true :=
  List.all_eq_true.mp (by decide)

/-- The services of a host as a URL, without the standard port. -/
def servicesUrl (host : List Char) (port? : Option Nat) : Net.Url :=
  ⟨"http".toList, some ⟨none, host, port?.filter (· ≠ 80)⟩, '/' :: "services".toList, none, none⟩

theorem AtHost.url (hat : link.AtHost host port?) (h : Net.HostName host)
    (hport : ∀ port ∈ port?, port ≤ 65535) :
    Net.Url.ofText? (link.base ++ Wire.servicesPath) = some (servicesUrl host port?) := by
  have hpath : Net.Url.absolutePath ('/' :: "services".toList) = '/' :: "services".toList := by decide
  have hurl := Net.Url.ofChars?_address h hport isAddressChar_services
  rw [hpath] at hurl
  rw [← ofList_services, hat.append, Net.Url.ofText?, String.toList_ofList]
  exact hurl

theorem text_servicesUrl (host : List Char) (port? : Option Nat) : (servicesUrl host port?).text =
    String.ofList (Net.addressChars host (port?.filter (· ≠ 80)) ('/' :: "services".toList)) := by
  rw [Net.Url.text, servicesUrl, Net.Url.chars_address]

theorem le_of_mem_filter (hport : ∀ port ∈ port?, port ≤ 65535) :
    ∀ port ∈ port?.filter (· ≠ 80), port ≤ 65535 := by
  intro port hmem
  exact hport port (Option.filter_eq_some_iff.mp hmem).1

/-- A link to a host, with or without a port, leads to a registry. So what is asked of links below
can be had. -/
theorem AtHost.leads (hat : link.AtHost host port?) (h : Net.HostName host)
    (hlength : host.length ≤ 255) (hport : ∀ port ∈ port?, port ≤ 65535) : link.Leads := by
  have hall : ∀ c ∈ Net.addressChars host (port?.filter (· ≠ 80)) ('/' :: "services".toList),
      Net.Url.isAddressChar c = true := Net.Url.all_addressChars h.chars isAddressChar_services
  refine ⟨?_, ?_, servicesUrl host port?, hat.url h hport, rfl, rfl, ?_, ?_, ?_⟩
  · rw [← ofList_services, hat.append]
    exact leadsTo_address h hlength hport (by decide) (by decide)
  · rw [← ofList_heartbeat, hat.append]
    exact leadsTo_address h hlength hport (by decide) (by decide)
  · rw [text_servicesUrl, String.toList_ofList]
    exact fun hmem => (Net.Url.of_isAddressChar (hall _ hmem)).2.2.1 rfl
  · rw [text_servicesUrl, String.toList_ofList]
    exact fun hmem => (Net.Url.of_isAddressChar (hall _ hmem)).2.1 rfl
  · rw [text_servicesUrl, ← ofList_services]
    exact leadsTo_address h hlength (le_of_mem_filter hport) (by decide) (by decide)

/-- Whether the address of the services of a role is not too long for a request. -/
def Fits (link : RegistryLink) (role : Role) : Prop :=
  ∃ address, link.servicesAddress role = .ok address ∧ address.utf8ByteSize ≤ Target.maxLength

/-- Whether the name of a role comes through to the registry: there is no space around it, and it fits
into an address. -/
structure Names (link : RegistryLink) (role : Role) : Prop where
  trimmed : Text.trimmed role.text = role.text
  fits : link.Fits role

/-- A name of 20000 bytes fits into the address of a host, even if all of it has to be escaped. -/
theorem AtHost.fits (hat : link.AtHost host port?) (h : Net.HostName host)
    (hlength : host.length ≤ 255) (hport : ∀ port ∈ port?, port ≤ 65535) {role : Role}
    (hname : role.text.utf8ByteSize ≤ 20000) : link.Fits role := by
  refine ⟨((servicesUrl host port?).withPair Wire.roleParameter role.text).text, ?_, ?_⟩
  · rw [servicesAddress, hat.url h hport]
  · have hfront := Text.Utf8.length_encode_le
      (Net.addressChars host (port?.filter (· ≠ 80)) ('/' :: "services".toList))
    have hdigits := length_portChars (le_of_mem_filter hport)
    have hpair := Http.Form.length_encodePair_le Wire.roleParameter role.text
    have hparameter : Wire.roleParameter.utf8ByteSize = 11 := by decide
    have hpath : ('/' :: "services".toList).length = 9 := by decide
    have hmark : (Text.Utf8.encode ['?']).length = 1 := by decide
    rw [Net.length_addressChars, hpath] at hfront
    rw [Net.Url.text_withPair rfl rfl, text_servicesUrl, String.toList_ofList,
      Text.Utf8.utf8ByteSize_ofList, List.append_cons, Text.Utf8.length_encode_append,
      Text.Utf8.length_encode_append, Net.Url.encode_pairChars, hmark, Target.maxLength]
    omega

/-- What arrives at the registry for what an instance asks for. -/
def arriving? (request : Except MemberError Outgoing) : Option Request :=
  request.toOption.bind Outgoing.arriving?

theorem arriving?_prepare {method address : String} {contentType? key? : Option String} {body : Bytes}
    {t : Target} (h : Target.ofText? address = some t) (hplain : t.Plain)
    (hkey : key?.all Http.canBeHeader = true) :
    arriving? (prepare method address contentType? key? body) =
      some ⟨method, ⟨none, "", t.path, t.query?⟩, Http.headersOf contentType? key?, body⟩ := by
  obtain ⟨o, hprepared, harriving⟩ := Http.prepare_arriving h hplain hkey
  rw [arriving?, prepare, hprepared]
  exact harriving

/-! ## What arrives -/

theorem arriving?_register (h : link.Leads) (hkey : Http.canBeHeader link.key.secret = true)
    (reg : Registration) : ∃ arrived, arriving? (link.registerRequest reg) = some arrived ∧
      arrived.method = "POST" ∧ arrived.target.path = Wire.servicesPath ∧
      arrived.headers = Http.headersOf (some "application/json") (some link.key.secret) ∧
      arrived.body = reg.bytes := by
  obtain ⟨t, ht, hplain, hpath⟩ := h.services
  have harriving : arriving? (link.registerRequest reg) = some _ := arriving?_prepare ht hplain hkey
  exact ⟨_, harriving, rfl, hpath, rfl, rfl⟩

theorem arriving?_heartbeat (h : link.Leads) (id : InstanceId) :
    ∃ arrived, arriving? (link.heartbeatRequest id) = some arrived ∧ arrived.method = "POST" ∧
      arrived.target.path = Wire.basicHeartbeatPath ∧
      arrived.body = Text.Utf8.ofString id.text := by
  obtain ⟨t, ht, hplain, hpath⟩ := h.heartbeat
  have harriving : arriving? (link.heartbeatRequest id) = some _ := arriving?_prepare ht hplain rfl
  exact ⟨_, harriving, rfl, hpath, rfl⟩

/-- The address of the services of a role leads to the services, with the pair that names the role as
its query, unless it is too long. -/
theorem servicesAddress_leads (h : link.Leads) {role : Role} {address : String}
    (haddress : link.servicesAddress role = .ok address)
    (hlength : address.utf8ByteSize ≤ Target.maxLength) :
    ∃ t, Target.ofText? address = some t ∧ t.Plain ∧ t.path = Wire.servicesPath ∧
      t.query? = some (String.ofList (Net.Url.pairChars Wire.roleParameter role.text)) := by
  obtain ⟨url, hurl, hquery, hfragment, hmark, hhash, t, ht, hplain, hpath⟩ := h.url
  rw [servicesAddress, hurl] at haddress
  have htext : address = String.ofList
      (url.text.toList ++ '?' :: Net.Url.pairChars Wire.roleParameter role.text) := by
    rw [← Net.Url.text_withPair hquery hfragment]
    exact (Except.ok.inj haddress).symm
  subst htext
  exact ⟨_, Target.ofText?_query ht hplain.isSome hmark hhash (Net.Url.all_isQueryChar_pairChars _ _)
    hlength, hplain, hpath, rfl⟩

/-- What arrives for a role arrives at the services and names the role. -/
theorem arriving?_services (h : link.Leads) {role : Role} (hfits : link.Fits role)
    (method : String) (contentType? : Option String) (body : Bytes) :
    ∃ arrived,
      arriving? (do prepare method (← link.servicesAddress role) contentType? none body) =
        some arrived ∧
      arrived.method = method ∧ arrived.target.path = Wire.servicesPath ∧
      arrived.query = Http.Form.encodePair Wire.roleParameter role.text ∧ arrived.body = body := by
  obtain ⟨address, haddress, hlength⟩ := hfits
  obtain ⟨t, ht, hplain, hpath, hquery⟩ := servicesAddress_leads h haddress hlength
  have hprepared : (do prepare method (← link.servicesAddress role) contentType? none body) =
      prepare method address contentType? none body := by
    rw [haddress]
    rfl
  rw [hprepared]
  have harriving : arriving? (prepare method address contentType? none body) = some _ :=
    arriving?_prepare ht hplain rfl
  refine ⟨_, harriving, rfl, hpath, ?_, rfl⟩
  · show Text.Utf8.ofString (t.query?.getD "") = _
    rw [hquery, Option.getD_some, Text.Utf8.ofString, String.toList_ofList, Net.Url.encode_pairChars]

/-- Nothing arrives if the address is too long. -/
theorem arriving?_of_not_fits {role : Role} (hfits : ¬ link.Fits role)
    (method : String) (contentType? : Option String) (body : Bytes) :
    arriving? (do prepare method (← link.servicesAddress role) contentType? none body) = none := by
  cases haddress : link.servicesAddress role with
  | error e => rfl
  | ok address =>
      have hlength : Target.maxLength < address.utf8ByteSize :=
        Nat.lt_of_not_le fun hle => hfits ⟨address, haddress, hle⟩
      have hunread : Target.ofText? address = none := by
        rw [Target.ofText?, if_pos hlength]
      show arriving? (prepare method address contentType? none body) = none
      rw [prepare, Http.prepare_of_unread hunread]
      rfl

end RegistryLink
end Rollcall
