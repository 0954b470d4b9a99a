import Rollcall.Proofs.Link.Reply
import Rollcall.Proofs.Link.Service
import Rollcall.Proofs.Link.Table

/-!
# The registry is the same from outside

An instance makes a call over a link: its request goes out, the registry at the other end serves what
arrives, and the reply is read. That does to the registry what the same call from inside does, and
comes to the same outcome, where a refusal is told by its status: `remote_eq`.

Only roles that are known ones in disguise, a custom role by the name of a known one, cannot be told
from these over a link. No request brings one, because whoever reads a role from a text recognises
the known names: a table that has none, `Timeline.Canonical`, has none after any request,
`canonical_serve`. So a caller from inside would have to put it there.
-/

namespace Rollcall

open Http (Outgoing Reply Request Status)
open Registry.Api (told)
open Text (Bytes)

/-! ## Calls -/

/-- What an instance can want of a registry: the four operations that are offered to the outside. -/
inductive Wish where
  | register (reg : Registration)
  | heartbeat (id : InstanceId)
  | deregister (role : Role) (url : String)
  | query (role : Role)

/-- What it can get. -/
inductive Answer where
  | id (id : InstanceId)
  | nothing
  | instances (regs : List Registration)

/-- What is left of an answer on the way to a reader. Only a list of registrations can lose
anything: a role in disguise is read as the known one. -/
def Answer.normal : Answer → Answer
  | instances regs => instances (regs.map Registration.normal)
  | answer => answer

namespace Timeline

def direct (t : Timeline) : Wish → Timeline × Except RegistryError Answer
  | .register reg => ((t.register reg).1, (t.register reg).2.map .id)
  | .heartbeat id => ((t.heartbeat id).1, (t.heartbeat id).2.map fun _ => .nothing)
  | .deregister role url => ((t.deregister role url).1, (t.deregister role url).2.map fun _ => .nothing)
  | .query role => (t, .ok (.instances (t.registry.query role)))

/-- Whether no role in the table is a known one in disguise. Wishes that are conveyed keep this. -/
def Canonical (t : Timeline) : Prop := ∀ entry ∈ t.registry.directory.entries, entry.Canonical

end Timeline

namespace RegistryLink

/-- A call over a link: what arrives is served, and the reply comes back as it is. If nothing
arrives nothing is done. -/
def carried {α : Type} (link : RegistryLink) (t : Timeline) (request : Except MemberError Outgoing)
    (read : Status × Bytes → Except MemberError α) : Timeline × Except MemberError α :=
  match arriving? request with
  | some arrived => ((t.serve arrived).1, link.call request read
      (.answered (t.serve arrived).2.status (t.serve arrived).2.content.bytes))
  | none => (t, link.call request read .unreachable)

def remote (link : RegistryLink) (t : Timeline) : Wish → Timeline × Except MemberError Answer
  | .register reg => link.carried t (link.registerRequest reg) fun x => (readId x).map .id
  | .heartbeat id => link.carried t (link.heartbeatRequest id) fun x => (readNothing x).map fun _ => .nothing
  | .deregister role url =>
    link.carried t (link.deregisterRequest role url) fun x => (readNothing x).map fun _ => .nothing
  | .query role => link.carried t (link.queryRequest role) fun x => (readList x).map .instances

/-- Whether a role is told as it is: it is no known one in disguise, and has a name, which comes
through. -/
structure Tells (link : RegistryLink) (role : Role) : Prop extends link.Names role where
  canonical : role.Canonical
  given : role.isBlank = false

/-- Whether a text is told as it is: without space at the ends, and not too long for a body. -/
structure Carries (s : String) : Prop where
  trimmed : Text.trimmed s = s
  fits : (Text.Utf8.ofString s).length ≤ Http.bodyLimit

/-- Whether a wish is told as it is: what it names is canonical, and nothing of it is trimmed or too
long. -/
def Conveys (link : RegistryLink) : Wish → Prop
  | .register reg => reg.Canonical ∧ reg.bytes.length ≤ Http.bodyLimit
  | .heartbeat id => Carries id.text
  | .deregister role url => link.Tells role ∧ Carries url
  | .query role => link.Tells role

/-! ## The four calls -/

variable {link : RegistryLink} {t : Timeline}

/-- What comes back of a call that is served. -/
theorem carried_told {α β : Type} {request : Except MemberError Outgoing} {arrived : Request}
    (harriving : arriving? request = some arrived) {after : Timeline} {grant : α → Reply}
    {outcome : Except RegistryError α}
    (hserve : t.serve arrived = (after, told grant outcome))
    {read : Status × Bytes → Except MemberError β} {f : α → β}
    (hread : ∀ a, outcome = .ok a → read ((grant a).status, (grant a).content.bytes) = .ok (f a))
    (hrefused : ∀ (e : RegistryError) body, read (e.status, body) = .error e.afar) :
    link.carried t request read = (after, (outcome.map f).mapError RegistryError.afar) := by
  obtain ⟨o, ho, -⟩ := Option.bind_eq_some_iff.mp harriving
  have hrequest : request = .ok o := by
    cases request with
    | error e => cases ho
    | ok sent => exact congrArg Except.ok (Option.some.inj ho)
  rw [carried, harriving]
  dsimp only
  rw [hserve, hrequest]
  cases outcome with
  | error e => exact congrArg (Prod.mk after) (hrefused e _)
  | ok a => exact congrArg (Prod.mk after) (hread a rfl)

theorem id_of_register {reg : Registration} {id : InstanceId} (h : (t.register reg).2 = .ok id) :
    id = t.registry.nextId := by
  rw [Timeline.register] at h
  cases hregister : t.registry.register reg t.clock with
  | error e =>
      rw [hregister] at h
      cases h
  | ok done =>
      rw [hregister] at h
      change done.2.conclude _ = .ok id at h
      unfold Enrolment.conclude at h
      split at h
      · cases h
      · rw [← Except.ok.inj h, Registry.id_of_register hregister]

theorem remote_register (hlink : link.Leads) (hkey : link.key = t.key) (hvisible : t.key.Visible)
    {reg : Registration} (hcanonical : reg.Canonical) (hsize : reg.bytes.length ≤ Http.bodyLimit) :
    link.remote t (.register reg) =
      ((t.direct (.register reg)).1, (t.direct (.register reg)).2.mapError RegistryError.afar) := by
  have hcan : Http.canBeHeader link.key.secret = true := by
    rw [hkey]
    exact AccessKey.canBeHeader_of_visible hvisible
  obtain ⟨arrived, harriving, hmethod, hpath, hheaders, hbody⟩ := arriving?_register hlink hcan reg
  have hheader : arrived.header? Wire.keyHeader = some t.key.secret := by
    rw [hkey] at hheaders
    exact AccessKey.header?_of_visible hvisible hheaders
  have hread : Registration.ofBytes? arrived.body = some reg := by
    rw [hbody, reg.ofBytes?_bytes, (reg.normal_eq_self_iff).mpr hcanonical]
  have hserve := Timeline.serve_register hmethod hpath hheader (hbody ▸ hsize) hread
  refine carried_told harriving hserve (fun id hid => ?_) (fun e body => ?_)
  · rw [id_of_register hid]
    exact congrArg (Except.map Answer.id) (readId_mint t.registry.supply _)
  · exact congrArg (Except.map Answer.id) (readId_failure e body)

theorem remote_heartbeat (hlink : link.Leads) {id : InstanceId} (hid : Carries id.text) :
    link.remote t (.heartbeat id) =
      ((t.direct (.heartbeat id)).1, (t.direct (.heartbeat id)).2.mapError RegistryError.afar) := by
  obtain ⟨arrived, harriving, hmethod, hpath, hbody⟩ := arriving?_heartbeat hlink id
  have hserve := Timeline.serve_heartbeat (t := t) hmethod hpath (Request.takeText_ofString hbody hid.fits)
  rw [show InstanceId.ofText id.text = id from congrArg InstanceId.mk hid.trimmed] at hserve
  refine carried_told harriving hserve (fun _ _ => rfl) (fun e body => ?_)
  rw [readNothing_failure]
  rfl

theorem remote_deregister (hlink : link.Leads) {role : Role} (hrole : link.Tells role) {url : String}
    (hurl : Carries url) :
    link.remote t (.deregister role url) = ((t.direct (.deregister role url)).1,
      (t.direct (.deregister role url)).2.mapError RegistryError.afar) := by
  obtain ⟨arrived, harriving, hmethod, hpath, hquery, hbody⟩ := arriving?_services hlink hrole.fits
    "DELETE" (some "text/plain") (Text.Utf8.ofString url)
  have hserve := Timeline.serve_deregister (t := t) hmethod hpath hquery hrole.given
    (Request.takeText_ofString hbody hurl.fits)
  rw [hrole.trimmed, hurl.trimmed, show Role.ofText role.text = role from hrole.canonical] at hserve
  refine carried_told harriving hserve (fun _ _ => rfl) (fun e body => ?_)
  rw [readNothing_failure]
  rfl

theorem remote_query (hlink : link.Leads) {role : Role} (hrole : link.Tells role) :
    link.remote t (.query role) =
      (t, .ok (.instances ((t.registry.query role).map Registration.normal))) := by
  obtain ⟨arrived, harriving, hmethod, hpath, hquery, -⟩ :=
    arriving?_services hlink hrole.fits "GET" none []
  have hserve := Timeline.serve_query (t := t) hmethod hpath hquery hrole.given
  rw [hrole.trimmed, show Role.ofText role.text = role from hrole.canonical] at hserve
  -- The list is what is granted, and it is granted always.
  have htold : t.serve arrived = (t, told
      (fun regs => ⟨.ok, .json (.array (regs.map Registration.toJson))⟩)
      (.ok (t.registry.query role))) := hserve
  refine carried_told harriving htold (f := fun regs => Answer.instances (regs.map Registration.normal))
    (fun regs _ => ?_) (fun e body => ?_)
  · exact congrArg (Except.map Answer.instances) (readList_render regs)
  · exact congrArg (Except.map Answer.instances) (readList_failure e body)

end RegistryLink

/-! ## One call -/

namespace Timeline

variable {link : RegistryLink} {t : Timeline}

theorem canonical_register (h : t.Canonical) {reg : Registration} (hreg : reg.Canonical) :
    (t.register reg).1.Canonical := by
  rw [register]
  cases hregister : t.registry.register reg t.clock with
  | error e => exact h
  | ok done =>
      intro entry hentry
      change entry ∈ (catchUp { t with registry := done.1 } done.2).1.registry.directory.entries at hentry
      rw [(sameTable_catchUp _ _).directory] at hentry
      rcases Registry.mem_entries_register hregister hentry with hold | ⟨-, rfl⟩
      · exact h entry hold
      · exact hreg

theorem canonical_heartbeat (h : t.Canonical) (id : InstanceId) : (t.heartbeat id).1.Canonical := by
  unfold heartbeat Registry.heartbeat Registry.accept
  by_cases hregistered : t.registry.directory.isRegistered id = true
  · rw [if_pos hregistered]
    exact h
  · rw [if_neg hregistered]
    exact h

theorem canonical_deregister (h : t.Canonical) (role : Role) (url : String) :
    (t.deregister role url).1.Canonical := by
  intro entry hentry
  have hperform : (t.deregister role url).1.registry = t.registry.perform (.deregister role url) := by
    rw [deregister, Registry.perform]
    cases t.registry.deregister role url with
    | error e => rfl
    | ok done => rfl
  rw [hperform] at hentry
  rcases Registry.mem_entries_perform hentry with hold | ⟨reg, hsub, -⟩
  · exact h entry hold
  · cases hsub

/-- Calls bring no known role in disguise, so a table that begins without one stays without. -/
theorem canonical_direct (h : t.Canonical) {wish : Wish} (hwish : link.Conveys wish) :
    (t.direct wish).1.Canonical := by
  cases wish with
  | register reg => exact canonical_register h hwish.1
  | heartbeat id => exact canonical_heartbeat h id
  | deregister role url => exact canonical_deregister h role url
  | query role => exact h

/-- Whatever is asked for over a link, a table without known roles in disguise stays so: the entry that
a request puts in has been read from its body. -/
theorem canonical_serve (h : t.Canonical) (request : Request) : (t.serve request).1.Canonical := by
  intro entry hentry
  by_cases hold : entry ∈ t.registry.directory.entries
  · exact h entry hold
  · obtain ⟨reg, hbody, -, -, rfl⟩ := exists_body_of_new hold hentry
    -- The identifier that the registration gets has no part in its form.
    have hread : reg.Canonical := Registration.canonical_of_ofBytes? hbody
    exact hread

/-- Answers that hold no list are as they are. -/
theorem map_normal {α : Type} {f : α → Answer} (h : ∀ a, (f a).normal = f a)
    (x : Except RegistryError α) : (x.map f).map Answer.normal = x.map f := by
  cases x with
  | error e => rfl
  | ok a => exact congrArg Except.ok (h a)

theorem normal_query (h : t.Canonical) (role : Role) :
    (t.registry.query role).map Registration.normal = t.registry.query role := by
  refine (List.map_congr_left fun entry hentry => ?_).trans (List.map_id _)
  exact entry.normal_eq_self_iff.mpr (h entry (Directory.mem_ofRole.mp hentry).1)

theorem normal_direct (h : t.Canonical) (wish : Wish) :
    (t.direct wish).2.map Answer.normal = (t.direct wish).2 := by
  cases wish with
  | query role => exact congrArg (fun regs => Except.ok (Answer.instances regs)) (normal_query h role)
  | _ => exact map_normal (fun _ => rfl) _

end Timeline

namespace RegistryLink

variable {link : RegistryLink} {t : Timeline}

/-- In any state a call from outside does what the call from inside does, and comes to the same, but
for the form of the roles in a list. -/
theorem remote_normal (hlink : link.Leads) (hkey : link.key = t.key) (hvisible : t.key.Visible)
    {wish : Wish} (hwish : link.Conveys wish) : link.remote t wish = ((t.direct wish).1,
      ((t.direct wish).2.map Answer.normal).mapError RegistryError.afar) := by
  cases wish with
  | register reg =>
      rw [remote_register hlink hkey hvisible hwish.1 hwish.2, Timeline.direct,
        Timeline.map_normal fun _ => rfl]
  | heartbeat id =>
      rw [remote_heartbeat hlink hwish, Timeline.direct, Timeline.map_normal fun _ => rfl]
  | deregister role url =>
      rw [remote_deregister hlink hwish.1 hwish.2, Timeline.direct, Timeline.map_normal fun _ => rfl]
  | query role => exact remote_query hlink hwish

/-- Where no known role is in disguise, a call from outside comes to the same as one from inside,
without exception. -/
theorem remote_canonical (hlink : link.Leads) (hkey : link.key = t.key) (hvisible : t.key.Visible)
    (hcanonical : t.Canonical) {wish : Wish} (hwish : link.Conveys wish) :
    link.remote t wish = ((t.direct wish).1, (t.direct wish).2.mapError RegistryError.afar) := by
  rw [remote_normal hlink hkey hvisible hwish, Timeline.normal_direct hcanonical]

/-- A call from outside does what the call from inside does, and comes to the same. In any state that
is so but for the form of the roles in a list. Where no known role is in disguise it is so without
exception, and it stays so, after this call and after whatever request is served. -/
theorem remote_eq (hlink : link.Leads) (hkey : link.key = t.key) (hvisible : t.key.Visible)
    {wish : Wish} (hwish : link.Conveys wish) :
    link.remote t wish = ((t.direct wish).1,
      ((t.direct wish).2.map Answer.normal).mapError RegistryError.afar) ∧
    (t.Canonical →
      link.remote t wish = ((t.direct wish).1, (t.direct wish).2.mapError RegistryError.afar) ∧
      (t.direct wish).1.Canonical ∧ ∀ request, (t.serve request).1.Canonical) := by
  refine ⟨remote_normal hlink hkey hvisible hwish, fun hcanonical => ⟨?_, ?_, ?_⟩⟩
  · exact remote_canonical hlink hkey hvisible hcanonical hwish
  · exact Timeline.canonical_direct hcanonical hwish
  · exact Timeline.canonical_serve hcanonical

/-- The instance of a role with a space in its name is found under its address, as it was put in. -/
theorem remote_query_billing :
    let supply : IdSupply := .numbered 'i' [] [] 'd' (by decide) (by decide)
    let link : RegistryLink := ⟨"http://10.0.0.100:3000", ⟨"k"⟩, ⟨5000000000⟩⟩
    let billing : Registration := { role := .custom "billing eu", url := "http://b" }
    let t := ((Timeline.start ⟨⟨60⟩, ⟨9⟩, ⟨9⟩, 1⟩ ⟨"k"⟩ supply).register billing).1
    let wish := Wish.query (.custom "billing eu")
    link.Leads ∧ link.key = t.key ∧ t.key.Visible ∧ link.Conveys wish ∧
      t.Canonical ∧
      link.remote t wish = (t, .ok (.instances [{ billing with id := supply.mint 1 }])) := by
  intro supply link billing t wish
  have hat : link.AtHost (Net.IPv4.chars ⟨10, 0, 0, 100⟩) (some 3000) := by
    show link.base = _
    decide
  have hhost := Net.hostName_of_ip ⟨10, 0, 0, 100⟩
  have hlink : link.Leads := hat.leads hhost (by decide) (by decide)
  have hfits : link.Fits (.custom "billing eu") := hat.fits hhost (by decide) (by decide) (by decide)
  have hwish : link.Conveys wish := ⟨⟨by decide, hfits⟩, by rfl, by decide⟩
  have hkey : link.key = t.key := by decide
  have hvisible : t.key.Visible := by decide
  have hentries : t.registry.directory.entries = [{ billing with id := supply.mint 1 }] := by
    decide +kernel
  have hcanonical : t.Canonical := by
    rw [Timeline.Canonical, hentries]
    intro entry hentry
    rw [List.mem_singleton.mp hentry]
    exact ⟨by rfl, RoleSet.canonical_empty⟩
  -- Only the call in the same program is worked out; that the other one comes to the same is the
  -- theorem.
  have hquery : t.direct wish = (t, .ok (.instances [{ billing with id := supply.mint 1 }])) := by
    rw [Timeline.direct, Registry.query, Directory.ofRole, hentries]
    rfl
  have hremote := ((remote_eq hlink hkey hvisible hwish).2 hcanonical).1
  rw [hquery] at hremote
  exact ⟨hlink, hkey, hvisible, hwish, hcanonical, hremote⟩

end RegistryLink
end Rollcall
