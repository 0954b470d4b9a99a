import Rollcall.Proofs.Link.Service
import Rollcall.Proofs.Link.Table

/-!
# Who can be reached by the name it has given

An instance that has registered over HTTP is in the table under the role and the address that it has
given, and this is how it is asked for and how it leaves. Both are told in another place of a request
than where they came from: the role in the query, and the address in the body, where the space around
it does not count.

`contact_iff` says which instances are found there. A role is found exactly if no space is around its
name and the name fits into an address; an instance of such a role can leave exactly if no space is
around its own address. Everybody else stays in the table until it has been silent for too long.
-/

namespace Rollcall

open Http (Request)
open Registry.Api (told)

/-! ## In the table -/

theorem Registration.given_of_validate {reg : Registration} (h : reg.validate = .ok ()) :
    reg.role.isBlank = false := by
  unfold validate at h
  by_cases hblank : reg.role.isBlank = true
  · rw [if_pos hblank] at h
    cases h
  · exact Bool.not_eq_true _ ▸ hblank

namespace Timeline

variable {t : Timeline} {request : Request} {entry : Registration}

theorem Enters.canonical (h : t.Enters request entry) : entry.Canonical := by
  obtain ⟨reg, hbody, -, -, rfl⟩ := h.exists_body
  have hcanonical : reg.Canonical := Registration.canonical_of_ofBytes? hbody
  exact hcanonical

theorem Enters.given (h : t.Enters request entry) : entry.role.isBlank = false := by
  obtain ⟨reg, -, -, hvalid, rfl⟩ := h.exists_body
  exact Registration.given_of_validate hvalid

theorem Enters.length_url_le (h : t.Enters request entry) :
    (Text.Utf8.ofString entry.url).length ≤ Http.bodyLimit := by
  obtain ⟨reg, hbody, hsize, -, rfl⟩ := h.exists_body
  have hurl : (Text.Utf8.ofString reg.url).length ≤ request.body.length :=
    Registration.length_url_le_of_ofBytes? hbody
  exact Nat.le_trans hurl hsize

end Timeline

/-- A name leads to the role it belongs to as long as nothing of it is trimmed. Here is where a role
with space around its name is lost. -/
theorem Role.ofText_trimmed_iff {r : Role} (h : r.Canonical) :
    ofText (Text.trimmed r.text) = r ↔ Text.trimmed r.text = r.text := by
  constructor
  · intro heq
    rw [← text_ofText (Text.trimmed r.text), heq]
  · intro heq
    rw [heq]
    exact h

/-- An entry is told apart from all others by what is written for it, since its identifier is. -/
theorem Registry.Coherent.eq_of_toJson {r : Registry} (h : r.Coherent) {a b : Registration}
    (ha : a ∈ r.directory.entries) (hb : b ∈ r.directory.entries) (heq : a.toJson = b.toJson) :
    a = b := by
  have hread := a.ofJson?_toJson
  rw [heq, b.ofJson?_toJson] at hread
  have hnormal : b.normal = a.normal := Option.some.inj hread
  have hid : a.normal.id = b.normal.id := by rw [hnormal]
  exact h.sound.eq_of_id ha hb hid

/-- The list of a role contains the entries of that role. -/
theorem Registry.Coherent.toJson_mem_query_iff {r : Registry} (h : r.Coherent) {entry : Registration}
    (hentry : entry ∈ r.directory.entries) {role : Role} :
    entry.toJson ∈ (r.query role).map Registration.toJson ↔ entry.role = role := by
  rw [List.mem_map]
  constructor
  · rintro ⟨listed, hlisted, heq⟩
    obtain ⟨hmem, hrole⟩ := Directory.mem_ofRole.mp hlisted
    rw [← h.eq_of_toJson hmem hentry heq, hrole]
  · intro hrole
    exact ⟨entry, Directory.mem_ofRole.mpr ⟨hentry, hrole⟩, rfl⟩

/-! ## Leaving -/

/-- A departure takes one entry out of a sound directory. -/
theorem Directory.Sound.entries_of_takeFirst? {d d' : Directory} (h : d.Sound)
    {p : Registration → Bool} {gone : Registration} (htaken : d.takeFirst? p = some (gone, d')) :
    p gone = true ∧ gone ∈ d.entries ∧ d'.entries = d.entries.erase gone := by
  obtain ⟨hp, front, back, hsplit, heq⟩ := takeFirst?_split htaken
  have hnodup := h.nodup
  rw [hsplit] at hnodup ⊢
  have hnot : gone ∉ front := fun hmem =>
    (List.nodup_cons.mp (List.nodup_middle.mp hnodup)).1 (List.mem_append_left back hmem)
  refine ⟨hp, List.mem_append_right front List.mem_cons_self, ?_⟩
  rw [heq, List.erase_append_right _ hnot, List.erase_cons_head]

namespace Timeline

variable {t : Timeline} {entry : Registration} {role : Role} {url : String}

/-- Whether a reply grants what was asked, and an entry has been taken out of the table, and no
other. -/
def Loses (t : Timeline) (entry : Registration) (done : Timeline × Http.Reply) : Prop :=
  done.2.status = .ok ∧
    done.1.registry.directory.entries = t.registry.directory.entries.erase entry

/-- An entry is lost by its own role and address, and by no others. -/
theorem loses_deregister_iff (hsound : t.registry.directory.Sound)
    (hentry : entry ∈ t.registry.directory.entries) :
    t.Loses entry ((t.deregister role url).1,
      told (fun _ => .bare .ok) (t.deregister role url).2) ↔ entry.role = role ∧ entry.url = url := by
  unfold deregister Registry.deregister Registry.remove Registry.depart
  cases htaken : t.registry.directory.remove? role url with
  | none =>
      have hnone := Directory.takeFirst?_eq_none.mp htaken entry hentry
      constructor
      · rintro ⟨hstatus, -⟩
        cases hstatus
      · intro hat
        rw [Directory.isAt_iff.mpr hat] at hnone
        cases hnone
  | some taken =>
      obtain ⟨gone, d'⟩ := taken
      obtain ⟨hp, hgone, heq⟩ := hsound.entries_of_takeFirst? htaken
      have hat := Directory.isAt_iff.mp hp
      constructor
      · -- Had another entry gone, this one would still be there.
        rintro ⟨-, hentries⟩
        change d'.entries = _ at hentries
        have hsame : gone = entry := by
          by_contra hne
          have hstays : entry ∈ d'.entries := by
            rw [heq]
            exact (List.mem_erase_of_ne (Ne.symm hne)).mpr hentry
          rw [hentries] at hstays
          exact hsound.nodup.not_mem_erase hstays
        rwa [hsame] at hat
      · intro hown
        have hsame : gone.sameInstance entry = true :=
          Registration.sameInstance_iff.mpr ⟨hat.1.trans hown.1.symm, hat.2.trans hown.2.symm⟩
        rw [hsound.eq_of_sameInstance hgone hentry hsame] at heq
        exact ⟨rfl, heq⟩

end Timeline

/-! ## From outside -/

namespace Timeline

variable {t : Timeline} {entry : Registration}

/-- Whether what arrives, if anything, is answered with 200 and a list that contains an entry. -/
def Lists (t : Timeline) (arriving? : Option Request) (entry : Registration) : Prop :=
  ∃ request items, arriving? = some request ∧
    (t.serve request).2 = ⟨.ok, .json (.array items)⟩ ∧ entry.toJson ∈ items

/-- Whether what arrives, if anything, makes the table lose an entry. -/
def Removes (t : Timeline) (arriving? : Option Request) (entry : Registration) : Prop :=
  ∃ request, arriving? = some request ∧ t.Loses entry (t.serve request)

theorem not_lists_none : ¬ t.Lists none entry := by
  rintro ⟨request, items, harriving, -⟩
  cases harriving

theorem not_removes_none : ¬ t.Removes none entry := by
  rintro ⟨request, harriving, -⟩
  cases harriving

/-- What is served with a list of registrations lists those. -/
theorem lists_some_iff {request : Request} {regs : List Registration}
    (h : t.serve request = (t, ⟨.ok, .json (.array (regs.map Registration.toJson))⟩)) :
    t.Lists (some request) entry ↔ entry.toJson ∈ regs.map Registration.toJson := by
  constructor
  · rintro ⟨arrived, items, harriving, hserve, hmem⟩
    obtain rfl := Option.some.inj harriving
    rw [h] at hserve
    injection hserve with _ hcontent
    injection hcontent with hvalue
    injection hvalue with hitems
    rwa [hitems]
  · intro hmem
    refine ⟨request, _, rfl, ?_, hmem⟩
    rw [h]

theorem removes_some_iff {request : Request} :
    t.Removes (some request) entry ↔ t.Loses entry (t.serve request) := by
  constructor
  · rintro ⟨arrived, harriving, hloses⟩
    rwa [Option.some.inj harriving]
  · intro hloses
    exact ⟨request, rfl, hloses⟩

end Timeline

namespace RegistryLink

variable {link : RegistryLink} {t : Timeline} {entry : Registration}

/-- An entry is found in the list of its role if the name of the role comes through, and not
otherwise. -/
theorem lists_iff (hlink : link.Leads) (hcoherent : t.registry.Coherent)
    (hentry : entry ∈ t.registry.directory.entries) (hcanonical : entry.role.Canonical)
    (hgiven : entry.role.isBlank = false) :
    t.Lists (arriving? (link.queryRequest entry.role)) entry ↔ link.Names entry.role := by
  by_cases hfits : link.Fits entry.role
  · obtain ⟨arrived, harriving, hmethod, hpath, hquery, -⟩ :=
      arriving?_services hlink hfits "GET" none []
    have hserve := t.serve_query hmethod hpath hquery hgiven
    calc t.Lists (arriving? (link.queryRequest entry.role)) entry
        ↔ t.Lists (some arrived) entry := by rw [← harriving]; rfl
      _ ↔ entry.role = .ofText (Text.trimmed entry.role.text) := by
          rw [Timeline.lists_some_iff hserve, hcoherent.toJson_mem_query_iff hentry]
      _ ↔ Text.trimmed entry.role.text = entry.role.text := by
          rw [eq_comm, Role.ofText_trimmed_iff hcanonical]
      _ ↔ link.Names entry.role := ⟨fun h => ⟨h, hfits⟩, Names.trimmed⟩
  · have harriving : arriving? (link.queryRequest entry.role) = none :=
      arriving?_of_not_fits hfits "GET" none []
    rw [harriving]
    exact iff_of_false Timeline.not_lists_none fun h => hfits h.fits

/-- An entry is removed by its role and address if both come through, and not otherwise. -/
theorem removes_iff (hlink : link.Leads) (hsound : t.registry.directory.Sound)
    (hentry : entry ∈ t.registry.directory.entries) (hcanonical : entry.role.Canonical)
    (hgiven : entry.role.isBlank = false)
    (hurl : (Text.Utf8.ofString entry.url).length ≤ Http.bodyLimit) :
    t.Removes (arriving? (link.deregisterRequest entry.role entry.url)) entry ↔
      link.Names entry.role ∧ Text.trimmed entry.url = entry.url := by
  by_cases hfits : link.Fits entry.role
  · obtain ⟨arrived, harriving, hmethod, hpath, hquery, hbody⟩ := arriving?_services hlink hfits
      "DELETE" (some "text/plain") (Text.Utf8.ofString entry.url)
    have htext : arrived.takeText = .ok entry.url := Request.takeText_ofString hbody hurl
    have hserve := t.serve_deregister hmethod hpath hquery hgiven htext
    calc t.Removes (arriving? (link.deregisterRequest entry.role entry.url)) entry
        ↔ t.Loses entry (t.serve arrived) := by
          rw [← Timeline.removes_some_iff, ← harriving]; rfl
      _ ↔ entry.role = .ofText (Text.trimmed entry.role.text) ∧
            entry.url = Text.trimmed entry.url := by
          rw [hserve, Timeline.loses_deregister_iff hsound hentry]
      _ ↔ Text.trimmed entry.role.text = entry.role.text ∧ Text.trimmed entry.url = entry.url := by
          rw [eq_comm, Role.ofText_trimmed_iff hcanonical, eq_comm (a := entry.url)]
      _ ↔ link.Names entry.role ∧ Text.trimmed entry.url = entry.url := by
          exact and_congr_left fun _ => ⟨fun h => ⟨h, hfits⟩, Names.trimmed⟩
  · have harriving : arriving? (link.deregisterRequest entry.role entry.url) = none :=
      arriving?_of_not_fits hfits "DELETE" (some "text/plain") (Text.Utf8.ofString entry.url)
    rw [harriving]
    exact iff_of_false Timeline.not_removes_none fun h => hfits h.1.fits

/-- An instance that has registered over HTTP is found in the list of its role, as long as it is in the
table, exactly if the name of the role comes through; and it can leave exactly if its address comes
through as well. -/
theorem contact_iff (hlink : link.Leads) {entered : Timeline} {request : Request}
    (henters : entered.Enters request entry) {settings : RegistrySettings} {key : AccessKey}
    {supply : IdSupply} (hreachable : t.Reachable settings key supply)
    (hentry : entry ∈ t.registry.directory.entries) :
    (t.Lists (arriving? (link.queryRequest entry.role)) entry ↔ link.Names entry.role) ∧
    (t.Removes (arriving? (link.deregisterRequest entry.role entry.url)) entry ↔
      link.Names entry.role ∧ Text.trimmed entry.url = entry.url) := by
  have hcoherent := hreachable.coherent
  have hcanonical : entry.role.Canonical := henters.canonical.1
  constructor
  · exact lists_iff hlink hcoherent hentry hcanonical henters.given
  · exact removes_iff hlink hcoherent.sound hentry hcanonical henters.given henters.length_url_le

/-- A payment service in another region, with a space in the name of its role, is found and can
leave. -/
theorem contact_billing :
    let supply : IdSupply := .numbered 'i' [] [] 'd' (by decide) (by decide)
    let link : RegistryLink := ⟨"http://10.0.0.100:3000", ⟨"k"⟩, ⟨5000000000⟩⟩
    let start := Timeline.start ⟨⟨60⟩, ⟨9⟩, ⟨9⟩, 1⟩ ⟨"k"⟩ supply
    let billing : Registration := { role := .custom "billing eu", url := "http://b" }
    let entry := { billing with id := supply.mint 1 }
    let request : Request := ⟨"POST", ⟨none, "", Wire.servicesPath, none⟩,
      Http.headersOf none (some "k"), billing.bytes⟩
    let t := (start.serve request).1
    link.Leads ∧ start.Enters request entry ∧
      t.Lists (arriving? (link.queryRequest entry.role)) entry ∧
      t.Removes (arriving? (link.deregisterRequest entry.role entry.url)) entry := by
  intro supply link start billing entry request t
  have hread : Registration.ofBytes? request.body = some billing := by
    rw [billing.ofBytes?_bytes, billing.normal_eq_self_iff.mpr ⟨by rfl, RoleSet.canonical_empty⟩]
  have hkey : request.header? Wire.keyHeader = some "k" := by decide +kernel
  have hserve := start.serve_register (by rfl) (by rfl) hkey (by decide +kernel) hread
  have henters : start.Enters request entry := by
    refine ⟨?_, List.not_mem_nil, ?_⟩
    · rw [hserve]
      decide
    · rw [hserve]
      decide
  have hat : link.AtHost (Net.IPv4.chars ⟨10, 0, 0, 100⟩) (some 3000) := by
    show link.base = _
    decide
  have hhost := Net.hostName_of_ip ⟨10, 0, 0, 100⟩
  have hlink : link.Leads := hat.leads hhost (by decide) (by decide)
  have hnames : link.Names entry.role :=
    ⟨by decide, hat.fits hhost (by decide) (by decide) (by decide)⟩
  have hreachable : (start.serve request).1.Reachable _ _ supply := .serve .start request
  have hcontact := contact_iff hlink henters hreachable henters.present
  exact ⟨hlink, henters, hcontact.1.mpr hnames, hcontact.2.mpr ⟨hnames, by decide⟩⟩

/-- A web server that has put a space before the name of its role is neither found nor able to
leave. -/
theorem lost_padded_web :
    let supply : IdSupply := .numbered 'i' [] [] 'd' (by decide) (by decide)
    let link : RegistryLink := ⟨"http://10.0.0.100:3000", ⟨"k"⟩, ⟨5000000000⟩⟩
    let start := Timeline.start ⟨⟨60⟩, ⟨9⟩, ⟨9⟩, 1⟩ ⟨"k"⟩ supply
    let entry : Registration :=
      { role := .custom " web", url := "http://p", id := supply.mint 1 }
    let request : Request := ⟨"POST", ⟨none, "", Wire.servicesPath, none⟩,
      Http.headersOf none (some "k"),
      Text.Utf8.ofString "\x7b\"serviceName\":\" web\",\"serviceURL\":\"http://p\"\x7d"⟩
    let t := (start.serve request).1
    link.Leads ∧ start.Enters request entry ∧
      ¬ t.Lists (arriving? (link.queryRequest entry.role)) entry ∧
      ¬ t.Removes (arriving? (link.deregisterRequest entry.role entry.url)) entry := by
  intro supply link start entry request t
  have hread : Registration.ofBytes? request.body = some { entry with id := {} } := by decide +kernel
  have hkey : request.header? Wire.keyHeader = some "k" := by decide +kernel
  have hserve := start.serve_register (by rfl) (by rfl) hkey (by decide +kernel) hread
  have henters : start.Enters request entry := by
    refine ⟨?_, List.not_mem_nil, ?_⟩
    · rw [hserve]
      decide
    · rw [hserve]
      decide
  have hat : link.AtHost (Net.IPv4.chars ⟨10, 0, 0, 100⟩) (some 3000) := by
    show link.base = _
    decide
  have hlink : link.Leads := hat.leads (Net.hostName_of_ip _) (by decide) (by decide)
  -- The role that was stored begins with a space, and the one that is asked for has lost it.
  have hpadded : ¬ link.Names entry.role := fun h => absurd h.trimmed (by decide)
  have hreachable : (start.serve request).1.Reachable _ _ supply := .serve .start request
  have hcoherent := hreachable.coherent
  have hcanonical := henters.canonical.1
  have hlists := lists_iff hlink hcoherent henters.present hcanonical henters.given
  have hremoves := removes_iff hlink hcoherent.sound henters.present hcanonical henters.given
    henters.length_url_le
  exact ⟨hlink, henters, fun h => hpadded (hlists.mp h), fun h => hpadded (hremoves.mp h).1⟩

end RegistryLink
end Rollcall
