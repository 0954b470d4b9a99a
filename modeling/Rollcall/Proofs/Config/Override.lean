import Rollcall.Proofs.Config.Environment
import Rollcall.Proofs.Config.Reading

/-!
# Numbers overridden by variables

A configuration that a file describes, with variables set for some of its numbers, is that of the
file with these numbers replaced and nothing else: no other field falls back to its standard, and
none changes in another group.

A name is cut of the blanks around it before its beginning is looked at. So a variable is foreign if
what is left does not begin as the variables of the style do, and it is not enough that the name
itself does not.

Main statement: `Config.load_overrides`.
-/

namespace Rollcall
namespace Config

variable {text : String} {environment : List (String × String)} {s : Setting}

namespace Setting

theorem nat?_integer {n : Nat} (h : n < 9223372036854775808) : (Setting.integer n).nat? = some n :=
  nat?_eq_some_iff.mpr ⟨rfl, Nat.lt_trans h (by decide)⟩

theorem seconds?_integer {n : Nat} (h : n < 9223372036854775808) :
    (Setting.integer n).seconds? = some (.ofSeconds n) :=
  seconds?_eq_some_iff.mpr ⟨n, rfl, Nat.lt_trans h (by decide), rfl⟩

/-- A field over which a number may be laid has the number if there is one, and else what it had. -/
theorem orDefault_overlaid {α : Type} {default a : α} {read : Setting → Option α} {ofNat : Nat → α}
    {old number : Option Setting} {given : Option Nat}
    (hread : ∀ n, given = some n → read (.integer n) = some (ofNat n))
    (hnumber : number = given.map fun n : Nat => .integer n)
    (hold : orDefault default read old = some a) :
    orDefault default read (number.or old) = some ((given.map ofNat).getD a) := by
  subst hnumber
  cases given with
  | none => exact hold
  | some n => exact hread n rfl

theorem isRecord_merge {layer : Setting} {depth : Nat} (base : Setting)
    (hlayer : layer.Uniform (depth + 1)) : (base.merge layer).IsRecord := by
  obtain ⟨merged, htable⟩ := table_merge base hlayer
  rw [htable]
  trivial

/-- Under a layer of fields, a field is what the layer has, and else what it was. -/
theorem field?_merge {entries : Entries Setting} {layer : Setting} (hlayer : layer.Uniform 1)
    (names : List String) (name : String) :
    ((Setting.table entries).merge layer).field? names name =
      (layer.at? [name]).or ((Setting.table entries).field? names name) := by
  rw [field?_eq_at?, ← at?_merge hlayer rfl]
  obtain ⟨merged, htable⟩ := table_merge (.table entries) hlayer
  rw [htable, field?_eq_at?]

end Setting

/-- Under variables, the settings of a file are those of a table of the file under a layer. -/
theorem layered_eq (style : VariableStyle) (hfile : ofFile text = .ok s) :
    layered style (some text) environment = .ok (s.merge (style.settings environment)) := by
  rw [layered, Option.elim_some, hfile]
  rfl

end Config

open Config (Setting VariableStyle)

/-! ## Registries -/

namespace RegistryConfig

/-- The fields that are numbers; spans of time are so many seconds. The address to listen on is none
of them. -/
inductive Quantity where
  | sweepInterval
  | timeout
  | deliveryTimeout
  | maxInFlight
  deriving DecidableEq

def numbers : variableStyle.Numbers Quantity where
  name
    | .sweepInterval => "REGISTRY_HEARTBEAT__SWEEP_INTERVAL"
    | .timeout => "REGISTRY_HEARTBEAT__TIMEOUT"
    | .deliveryTimeout => "REGISTRY_NOTIFY__DELIVERY_TIMEOUT"
    | .maxInFlight => "REGISTRY_NOTIFY__MAX_IN_FLIGHT"
  place
    | .sweepInterval => ["heartbeat", "sweep_interval"]
    | .timeout => ["heartbeat", "timeout"]
    | .deliveryTimeout => ["notify", "delivery_timeout"]
    | .maxInFlight => ["notify", "max_in_flight"]
  depth := 1
  place_name k := by cases k <;> rfl
  length_place k := by cases k <;> rfl
  place_inj k l := by cases k <;> cases l <;> decide

def override (c : RegistryConfig) (given : Quantity → Option Nat) : RegistryConfig where
  listenAddress := c.listenAddress
  sweepInterval := ((given .sweepInterval).map Duration.ofSeconds).getD c.sweepInterval
  timeout := ((given .timeout).map Duration.ofSeconds).getD c.timeout
  deliveryTimeout := ((given .deliveryTimeout).map Duration.ofSeconds).getD c.deliveryTimeout
  maxInFlight := (given .maxInFlight).getD c.maxInFlight

variable {text : String} {c : RegistryConfig} {s : Setting} {own : List (Quantity × Nat)}
  {environment : List (String × String)}

/-- Under a layer of fields of groups, a field is what the layer has, and else what it was, unless
the file gives a group as a list. -/
theorem said?_merge {entries : Config.Entries Setting} {layer : Setting} {group : String}
    (hgroup : (Setting.table entries).GivesTable group) (hlayer : layer.Uniform 2) (name : String) :
    said? ((Setting.table entries).merge layer) group name =
      (layer.at? [group, name]).or (said? (.table entries) group name) := by
  have hmerged := hgroup.merge hlayer
  rw [said?_eq_at? hgroup, ← Setting.at?_merge hlayer rfl]
  obtain ⟨merged, htable⟩ := Setting.table_merge (.table entries) hlayer
  rw [htable] at hmerged ⊢
  exact said?_eq_at? hmerged name

theorem load_override (hparse : parse text = .ok c) (hfile : Config.ofFile text = .ok s)
    (hgroups : ∀ group ∈ groups, s.GivesTable group)
    (hgiven : numbers.Given
      (fun name => ¬ VariableStyle.Begins variableStyle.start (Text.trimmed name)) own
      environment) :
    load (some text) environment = .ok (c.override fun k => own.lookup k) := by
  obtain ⟨entries, rfl⟩ := Config.table_of_ofFile hfile
  obtain ⟨_, hsame, hread⟩ := Config.fitted_eq_ok_iff.mp hparse
  obtain rfl := Except.ok.inj (hfile.symm.trans hsame)
  have hold := ofSetting?_eq_some_iff.mp hread
  obtain ⟨hlayer, hnumber, hnone⟩ := hgiven.at?_settings
  have hseconds (k : Quantity) (n : Nat) (hn : own.lookup k = some n) :
      (Setting.integer n).seconds? = some (.ofSeconds n) :=
    Setting.seconds?_integer (hgiven.lookup_lt hn)
  refine Config.fitted_eq_ok_iff.mpr ⟨_, Config.layered_eq variableStyle hfile,
    ofSetting?_eq_some_iff.mpr ?_⟩
  -- What the variables put counts from here on only by what is found at each place.
  generalize variableStyle.settings environment = layer at hlayer hnumber hnone
  exact {
    record := Setting.isRecord_merge _ hlayer
    group := fun name hname g hg => by
      obtain ⟨merged, htable⟩ := Setting.table_merge (.table entries) hlayer
      have hmerged := (hgroups name hname).merge hlayer
      rw [htable] at hg hmerged
      rw [Setting.field?_eq_at?] at hg
      obtain ⟨inner, rfl⟩ := hmerged g hg
      trivial
    -- Not a number, so no variable reaches it.
    listenAddress := by
      have hother : ∀ k, numbers.place k ≠ ["api", "listen_addr"] := by
        intro k
        cases k <;> decide
      rw [said?_merge (hgroups "api" (by decide)) hlayer, hnone _ rfl hother, Option.none_or]
      exact hold.listenAddress
    sweepInterval := by
      rw [said?_merge (hgroups "heartbeat" (by decide)) hlayer]
      exact Setting.orDefault_overlaid (hseconds .sweepInterval) (hnumber .sweepInterval)
        hold.sweepInterval
    timeout := by
      rw [said?_merge (hgroups "heartbeat" (by decide)) hlayer]
      exact Setting.orDefault_overlaid (hseconds .timeout) (hnumber .timeout) hold.timeout
    deliveryTimeout := by
      rw [said?_merge (hgroups "notify" (by decide)) hlayer]
      exact Setting.orDefault_overlaid (hseconds .deliveryTimeout) (hnumber .deliveryTimeout)
        hold.deliveryTimeout
    maxInFlight := by
      rw [said?_merge (hgroups "notify" (by decide)) hlayer]
      have hcount (n : Nat) (hn : own.lookup .maxInFlight = some n) :
          (Setting.integer n).nat? = some n := Setting.nat?_integer (hgiven.lookup_lt hn)
      have hoverlaid :=
        Setting.orDefault_overlaid hcount (hnumber .maxInFlight) hold.maxInFlight
      rwa [Option.map_id'] at hoverlaid }

end RegistryConfig

/-! ## Members -/

namespace MemberConfig

/-- The fields that are numbers, all of them spans of time in seconds. -/
inductive Quantity where
  | retryInterval
  | heartbeatInterval
  | requestTimeout
  deriving DecidableEq

def numbers : variableStyle.Numbers Quantity where
  name
    | .retryInterval => "EPHEMERIS_RETRY_INTERVAL"
    | .heartbeatInterval => "EPHEMERIS_HEARTBEAT_INTERVAL"
    | .requestTimeout => "EPHEMERIS_REQUEST_TIMEOUT"
  place
    | .retryInterval => ["retry_interval"]
    | .heartbeatInterval => ["heartbeat_interval"]
    | .requestTimeout => ["request_timeout"]
  depth := 0
  place_name k := by cases k <;> rfl
  length_place k := by cases k <;> rfl
  place_inj k l := by cases k <;> cases l <;> decide

def override (c : MemberConfig) (given : Quantity → Option Nat) : MemberConfig where
  registryAddress := c.registryAddress
  retryInterval := ((given .retryInterval).map Duration.ofSeconds).getD c.retryInterval
  heartbeatInterval := ((given .heartbeatInterval).map Duration.ofSeconds).getD c.heartbeatInterval
  requestTimeout := ((given .requestTimeout).map Duration.ofSeconds).getD c.requestTimeout

variable {text : String} {c : MemberConfig} {s : Setting} {own : List (Quantity × Nat)}
  {environment : List (String × String)}

theorem load_override (hparse : parse text = .ok c)
    (hgiven : numbers.Given
      (fun name => ¬ VariableStyle.Begins variableStyle.start (Text.trimmed name)) own
      environment) :
    load (some text) environment = .ok (c.override fun k => own.lookup k) := by
  obtain ⟨s, hfile, hread⟩ := Config.fitted_eq_ok_iff.mp hparse
  obtain ⟨entries, rfl⟩ := Config.table_of_ofFile hfile
  have hold := ofSetting?_eq_some_iff.mp hread
  obtain ⟨hlayer, hnumber, hnone⟩ := hgiven.at?_settings
  have hseconds (k : Quantity) (n : Nat) (hn : own.lookup k = some n) :
      (Setting.integer n).seconds? = some (.ofSeconds n) :=
    Setting.seconds?_integer (hgiven.lookup_lt hn)
  refine Config.fitted_eq_ok_iff.mpr ⟨_, Config.layered_eq variableStyle hfile,
    ofSetting?_eq_some_iff.mpr ?_⟩
  -- What the variables put counts from here on only by what is found at each place.
  generalize variableStyle.settings environment = layer at hlayer hnumber hnone
  exact {
    record := Setting.isRecord_merge _ hlayer
    registryAddress := by
      have hother : ∀ k, numbers.place k ≠ ["registry_url"] := by
        intro k
        cases k <;> decide
      rw [Setting.field?_merge hlayer, hnone _ rfl hother, Option.none_or]
      exact hold.registryAddress
    retryInterval := by
      rw [Setting.field?_merge hlayer]
      exact Setting.orDefault_overlaid (hseconds .retryInterval) (hnumber .retryInterval)
        hold.retryInterval
    heartbeatInterval := by
      rw [Setting.field?_merge hlayer]
      exact Setting.orDefault_overlaid (hseconds .heartbeatInterval) (hnumber .heartbeatInterval)
        hold.heartbeatInterval
    requestTimeout := by
      rw [Setting.field?_merge hlayer]
      exact Setting.orDefault_overlaid (hseconds .requestTimeout) (hnumber .requestTimeout)
        hold.requestTimeout }

end MemberConfig

/-! ## Both -/

namespace Config

/-- Variables for some of the numbers, each with its own and mixed with others that do not begin as
the style wants once the blanks around them are cut, replace these numbers in what the file says and
nothing else. For registries this takes a file in which the groups are tables. -/
theorem load_overrides :
    (∀ (text : String) (c : RegistryConfig) (s : Setting)
        (own : List (RegistryConfig.Quantity × Nat)) (environment : List (String × String)),
      RegistryConfig.parse text = .ok c → ofFile text = .ok s →
      (∀ group ∈ RegistryConfig.groups, s.GivesTable group) →
      RegistryConfig.numbers.Given
        (fun name => ¬ VariableStyle.Begins "REGISTRY_" (Text.trimmed name)) own environment →
      RegistryConfig.load (some text) environment = .ok (c.override fun k => own.lookup k)) ∧
    ∀ (text : String) (c : MemberConfig) (own : List (MemberConfig.Quantity × Nat))
        (environment : List (String × String)),
      MemberConfig.parse text = .ok c →
      MemberConfig.numbers.Given
        (fun name => ¬ VariableStyle.Begins "EPHEMERIS_" (Text.trimmed name)) own environment →
      MemberConfig.load (some text) environment = .ok (c.override fun k => own.lookup k) :=
  ⟨fun _ _ _ _ _ hparse hfile hgroups hgiven =>
      RegistryConfig.load_override hparse hfile hgroups hgiven,
    fun _ _ _ _ hparse hgiven => MemberConfig.load_override hparse hgiven⟩

/-- A variable for one group leaves what the file says of it and of another group, and a variable
for a member leaves the other interval. -/
theorem load_overrides_one_of_each :
    RegistryConfig.load (some "[heartbeat]\ntimeout = 30\n[notify]\nmax_in_flight = 8\n")
        [("PATH", "/bin"), ("REGISTRY_HEARTBEAT__SWEEP_INTERVAL", "7")] =
      .ok { RegistryConfig.standard with
        timeout := .ofSeconds 30, sweepInterval := .ofSeconds 7, maxInFlight := 8 } ∧
    MemberConfig.load (some "retry_interval = 9\n") [("EPHEMERIS_REQUEST_TIMEOUT", "2")] =
      .ok { MemberConfig.standard with
        retryInterval := .ofSeconds 9, requestTimeout := .ofSeconds 2 } := by
  constructor
  · obtain ⟨s, hs, hgroups⟩ : ∃ s ∈ Toml.ofText?
        "[heartbeat]\ntimeout = 30\n[notify]\nmax_in_flight = 8\n",
        ∀ group ∈ RegistryConfig.groups, s.GivesTable group := by decide +kernel
    refine load_overrides.1 _ { RegistryConfig.standard with
      timeout := .ofSeconds 30, maxInFlight := 8 } s [(.sweepInterval, 7)] _ (by decide +kernel)
      (ofFile_eq_ok_iff.mpr hs) hgroups
      ⟨by decide, by decide, [("PATH", "/bin")], by decide +kernel, ?_⟩
    exact List.Perm.swap _ _ []
  · refine load_overrides.2 _ { MemberConfig.standard with retryInterval := .ofSeconds 9 }
      [(.requestTimeout, 2)] _ (by decide +kernel) ⟨by decide, by decide, [], nofun, ?_⟩
    exact .refl _

/-- A name that begins with a blank does not begin as the style wants, and sets a number all the
same. -/
theorem indented_name_counts :
    ¬ ∀ (text : String) (c : RegistryConfig) (s : Setting)
        (own : List (RegistryConfig.Quantity × Nat)) (environment : List (String × String)),
      RegistryConfig.parse text = .ok c → ofFile text = .ok s →
      (∀ group ∈ RegistryConfig.groups, s.GivesTable group) →
      RegistryConfig.numbers.Given
        (fun name => ¬ VariableStyle.Begins "REGISTRY_" name) own environment →
      RegistryConfig.load (some text) environment = .ok (c.override fun k => own.lookup k) := by
  intro hall
  obtain ⟨s, hs, hgroups⟩ : ∃ s ∈ Toml.ofText? "[heartbeat]\ntimeout = 30\n",
      ∀ group ∈ RegistryConfig.groups, s.GivesTable group := by decide +kernel
  have hliteral := hall "[heartbeat]\ntimeout = 30\n"
    { RegistryConfig.standard with timeout := .ofSeconds 30 } s []
    [(" REGISTRY_HEARTBEAT__TIMEOUT", "5")] (by decide +kernel) (ofFile_eq_ok_iff.mpr hs) hgroups
    ⟨by decide, nofun, _, by decide +kernel, .refl _⟩
  have hreal : RegistryConfig.load (some "[heartbeat]\ntimeout = 30\n")
      [(" REGISTRY_HEARTBEAT__TIMEOUT", "5")] =
      .ok { RegistryConfig.standard with timeout := .ofSeconds 5 } := by decide +kernel
  rw [hreal] at hliteral
  exact absurd (Except.ok.inj hliteral) (by decide)

end Config
end Rollcall
