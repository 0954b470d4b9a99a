import Rollcall.Membership.Config
import Rollcall.Proofs.Config.Layer
import Rollcall.Registry.Config

/-!
# What settings describe

Settings describe a configuration field by field: each field is what is said of it, and standard if
nothing is said. Whatever is a record, table or list, says something, and nothing else does.

Main statements: `RegistryConfig.ofSetting?_eq_some_iff` and `MemberConfig.ofSetting?_eq_some_iff`,
and for settings made of tables, where a field is what stands at its path, `said?_eq_at?` and
`field?_eq_at?`.
-/

namespace Rollcall
namespace Config

theorem ofFile_eq_ok_iff {text : String} {s : Setting} :
    ofFile text = .ok s ↔ Toml.ofText? text = some s := by
  cases h : Toml.ofText? text <;> simp [ofFile, h]

theorem table_of_ofFile {text : String} {s : Setting} (h : ofFile text = .ok s) :
    ∃ entries, s = .table entries := by
  have hread := ofFile_eq_ok_iff.mp h
  simp only [Toml.ofText?, Option.bind_eq_bind, Option.bind_eq_some_iff] at hread
  obtain ⟨_, -, _, -, _, -, hroot⟩ := hread
  exact ⟨_, (Option.some.inj hroot).symm⟩

theorem fitted_eq_ok_iff {α : Type} {read? : Setting → Option α}
    {settings : Except ConfigError Setting} {a : α} :
    fitted read? settings = .ok a ↔ ∃ s, settings = .ok s ∧ read? s = some a := by
  cases settings with
  | error e => simp [fitted, Except.bind]
  | ok s => cases h : read? s <;> simp [fitted, Except.bind, h]

namespace Setting

/-- Whether settings can be read as a record. -/
def IsRecord : Setting → Prop
  | .table _ | .list _ => True
  | _ => False

/-- What settings say of a field of a record. -/
def field? (names : List String) (s : Setting) (name : String) : Option Setting :=
  (s.record? names).bind fun field => field name

theorem record?_eq_some_iff {s : Setting} {names : List String}
    {field : String → Option Setting} :
    s.record? names = some field ↔ s.IsRecord ∧ s.field? names = field := by
  cases s <;> simp [record?, IsRecord, field?, funext_iff]

theorem nat?_eq_some_iff {s : Setting} {n : Nat} :
    s.nat? = some n ↔ s = .integer n ∧ n < 18446744073709551616 := by
  cases s with
  | integer m => grind [nat?]
  | _ => simp [nat?]

theorem seconds?_eq_some_iff {s : Setting} {d : Duration} :
    s.seconds? = some d ↔
      ∃ n : Nat, s = .integer n ∧ n < 18446744073709551616 ∧ .ofSeconds n = d := by
  simp [seconds?, nat?_eq_some_iff, and_assoc]

theorem at?_cons (s : Setting) (name : String) (path : List String) :
    s.at? (name :: path) = (s.at? [name]).bind fun t => t.at? path := by
  cases s with
  | table entries =>
      simp only [at?, Option.bind_assoc]
      rfl
  | _ => rfl

theorem field?_eq_at? (entries : Entries Setting) (names : List String) (name : String) :
    (Setting.table entries).field? names name = (Setting.table entries).at? [name] := by
  cases h : entries.get? name <;> simp [field?, record?, at?, h]

end Setting
end Config

open Config (Setting)

/-! ## Registries -/

namespace RegistryConfig

def groups : List String := ["api", "heartbeat", "notify"]

def fields : String → List String
  | "api" => ["listen_addr"]
  | "heartbeat" => ["sweep_interval", "timeout"]
  | "notify" => ["delivery_timeout", "max_in_flight"]
  | _ => []

/-- What settings say of a field of a group, if they say anything of it. A group may be a table or a
list. -/
def said? (s : Setting) (group name : String) : Option Setting :=
  (s.field? groups group).bind fun g => g.field? (fields group) name

/-- Whether a configuration is what settings describe: the settings and their groups are records,
and each field is what is said of it, or standard. -/
structure Describes (s : Setting) (c : RegistryConfig) : Prop where
  record : s.IsRecord
  group : ∀ name ∈ groups, ∀ g, s.field? groups name = some g → g.IsRecord
  listenAddress : Setting.orDefault standard.listenAddress
    (fun s => s.text?.bind Net.Endpoint.ofText?) (said? s "api" "listen_addr") =
      some c.listenAddress
  sweepInterval : Setting.orDefault standard.sweepInterval Setting.seconds?
    (said? s "heartbeat" "sweep_interval") = some c.sweepInterval
  timeout : Setting.orDefault standard.timeout Setting.seconds?
    (said? s "heartbeat" "timeout") = some c.timeout
  deliveryTimeout : Setting.orDefault standard.deliveryTimeout Setting.seconds?
    (said? s "notify" "delivery_timeout") = some c.deliveryTimeout
  maxInFlight : Setting.orDefault standard.maxInFlight Setting.nat?
    (said? s "notify" "max_in_flight") = some c.maxInFlight

variable {s : Setting} {c c' : RegistryConfig} {g? : Option Setting}

theorem readApi?_eq_some_iff : Setting.orDefault c c.readApi? g? = some c' ↔
    (∀ g, g? = some g → g.IsRecord) ∧ ∃ address,
      Setting.orDefault c.listenAddress (fun s => s.text?.bind Net.Endpoint.ofText?)
        (g?.bind fun g => g.field? (fields "api") "listen_addr") = some address ∧
      { c with listenAddress := address } = c' := by
  cases g? with
  | none => simp [Setting.orDefault]
  | some g =>
      simp [Setting.orDefault, readApi?, fields, Option.bind_eq_some_iff,
        Setting.record?_eq_some_iff, and_assoc]

theorem readHeartbeat?_eq_some_iff : Setting.orDefault c c.readHeartbeat? g? = some c' ↔
    (∀ g, g? = some g → g.IsRecord) ∧ ∃ sweepInterval timeout,
      Setting.orDefault c.sweepInterval Setting.seconds?
        (g?.bind fun g => g.field? (fields "heartbeat") "sweep_interval") = some sweepInterval ∧
      Setting.orDefault c.timeout Setting.seconds?
        (g?.bind fun g => g.field? (fields "heartbeat") "timeout") = some timeout ∧
      { c with sweepInterval := sweepInterval, timeout := timeout } = c' := by
  cases g? with
  | none => simp [Setting.orDefault]
  | some g =>
      simp [Setting.orDefault, readHeartbeat?, fields, Option.bind_eq_some_iff,
        Setting.record?_eq_some_iff, and_assoc]

theorem readNotify?_eq_some_iff : Setting.orDefault c c.readNotify? g? = some c' ↔
    (∀ g, g? = some g → g.IsRecord) ∧ ∃ deliveryTimeout maxInFlight,
      Setting.orDefault c.deliveryTimeout Setting.seconds?
        (g?.bind fun g => g.field? (fields "notify") "delivery_timeout") = some deliveryTimeout ∧
      Setting.orDefault c.maxInFlight Setting.nat?
        (g?.bind fun g => g.field? (fields "notify") "max_in_flight") = some maxInFlight ∧
      { c with deliveryTimeout := deliveryTimeout, maxInFlight := maxInFlight } = c' := by
  cases g? with
  | none => simp [Setting.orDefault]
  | some g =>
      simp [Setting.orDefault, readNotify?, fields, Option.bind_eq_some_iff,
        Setting.record?_eq_some_iff, and_assoc]

theorem ofSetting?_eq_some_iff : ofSetting? s = some c ↔ Describes s c := by
  simp only [ofSetting?, Option.bind_eq_bind, Option.bind_eq_some_iff, Setting.record?_eq_some_iff,
    readApi?_eq_some_iff, readHeartbeat?_eq_some_iff, readNotify?_eq_some_iff]
  constructor
  · rintro ⟨_, ⟨hs, rfl⟩, _, ⟨hapi, address, haddress, rfl⟩, _,
      ⟨hheartbeat, sweepInterval, timeout, hsweep, htimeout, rfl⟩,
      hnotify, deliveryTimeout, maxInFlight, hdelivery, hmax, rfl⟩
    refine ⟨hs, ?_, haddress, hsweep, htimeout, hdelivery, hmax⟩
    simpa [groups] using ⟨hapi, hheartbeat, hnotify⟩
  · intro h
    have hgroup := h.group
    simp only [groups, List.forall_mem_cons] at hgroup
    obtain ⟨hapi, hheartbeat, hnotify, -⟩ := hgroup
    exact ⟨_, ⟨h.record, rfl⟩, _, ⟨hapi, _, h.listenAddress, rfl⟩, _,
      ⟨hheartbeat, _, _, h.sweepInterval, h.timeout, rfl⟩,
      hnotify, _, _, h.deliveryTimeout, h.maxInFlight, rfl⟩

/-- Where a group is a table or not given, a field is what stands at its path. -/
theorem said?_eq_at? {entries : Config.Entries Setting} {group : String}
    (h : (Setting.table entries).GivesTable group) (name : String) :
    said? (.table entries) group name = (Setting.table entries).at? [group, name] := by
  rw [said?, Setting.field?_eq_at?, Setting.at?_cons _ group [name]]
  refine Option.bind_congr fun g hg => ?_
  obtain ⟨inner, rfl⟩ := h g hg
  exact Setting.field?_eq_at? inner (fields group) name

end RegistryConfig

/-! ## Members -/

namespace MemberConfig

def fields : List String :=
  ["registry_url", "retry_interval", "heartbeat_interval", "request_timeout"]

/-- Whether a configuration is what settings describe. -/
structure Describes (s : Setting) (c : MemberConfig) : Prop where
  record : s.IsRecord
  registryAddress : Setting.orDefault standard.registryAddress Setting.text?
    (s.field? fields "registry_url") = some c.registryAddress
  retryInterval : Setting.orDefault standard.retryInterval Setting.seconds?
    (s.field? fields "retry_interval") = some c.retryInterval
  heartbeatInterval : Setting.orDefault standard.heartbeatInterval Setting.seconds?
    (s.field? fields "heartbeat_interval") = some c.heartbeatInterval
  requestTimeout : Setting.orDefault standard.requestTimeout Setting.seconds?
    (s.field? fields "request_timeout") = some c.requestTimeout

theorem ofSetting?_eq_some_iff {s : Setting} {c : MemberConfig} :
    ofSetting? s = some c ↔ Describes s c := by
  simp only [ofSetting?, Option.bind_eq_bind, Option.bind_eq_some_iff, Setting.record?_eq_some_iff,
    Option.some.injEq]
  constructor
  · rintro ⟨_, ⟨hs, rfl⟩, address, haddress, retry, hretry, heartbeat, hheartbeat, request,
      hrequest, rfl⟩
    exact ⟨hs, haddress, hretry, hheartbeat, hrequest⟩
  · intro h
    exact ⟨_, ⟨h.record, rfl⟩, _, h.registryAddress, _, h.retryInterval, _, h.heartbeatInterval, _,
      h.requestTimeout, rfl⟩

end MemberConfig
end Rollcall
