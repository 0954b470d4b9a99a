import Rollcall.Delivery.FanOut
import Rollcall.Proofs.Config.Reading

/-!
# Which configurations can run

Timers need a period, and there are only so many permits. A configuration takes any whole number, so
it is accepted also where whoever starts with it stops at once: where someone asked for a timer
without a period, or for more permits than there can be. What nobody asked for is never in the way,
and neither is a limit of no permits at all, which counts as one.

A configuration counts as `Runnable` here if it meets what timers and permits demand of the numbers
themselves. It may still be out of reach for the clock: a period of so many seconds that the instant of
its end has no number any more is not caught, since that depends on when the clock started.

Main statement: `Config.runs_iff_within_limits`.
-/

namespace Rollcall

open Config (Setting)

/-- Whether a timer can tick with a period. With none at all it would never let time pass. -/
def Duration.CanTick (period : Duration) : Prop := 0 < period.nanos

instance (period : Duration) : Decidable period.CanTick := inferInstanceAs (Decidable (0 < _))

/-- The most permits that a stock of permits can hold: an eighth of what a machine word counts,
since three bits are used for other things. -/
def FanOut.mostPermits : Nat := 18446744073709551615 / 8

namespace Config.Setting

variable {field? : Option Setting}

/-- A span of time that can tick by itself cannot exactly if it is said to be nothing. What is said
is in whole seconds, so there is nothing between. -/
theorem canTick_iff_of_seconds {default d : Duration} (hdefault : default.CanTick)
    (h : orDefault default seconds? field? = some d) : d.CanTick ↔ field? ≠ some (.integer 0) := by
  cases field? with
  | none =>
      obtain rfl := Option.some.inj h
      simpa using hdefault
  | some s =>
      obtain ⟨n, rfl, -, rfl⟩ := seconds?_eq_some_iff.mp h
      simp only [Duration.CanTick, Duration.ofSeconds, ne_eq, Option.some.injEq, integer.injEq]
      omega

/-- A number that keeps a bound by itself keeps it exactly if nothing above it is said. -/
theorem le_iff_of_nat {default n most : Nat} (hdefault : default ≤ most)
    (h : orDefault default nat? field? = some n) :
    n ≤ most ↔ ∀ k : Nat, field? = some (.integer k) → k ≤ most := by
  cases field? with
  | none =>
      obtain rfl := Option.some.inj h
      simpa using hdefault
  | some s =>
      obtain ⟨rfl, -⟩ := nat?_eq_some_iff.mp h
      simp only [Option.some.injEq, integer.injEq, Int.natCast_inj, forall_eq']

end Config.Setting

/-- What holds of a configuration exactly if the settings allow it does so wherever the settings come
from. -/
theorem Config.iff_of_fitted {α : Type} {read? : Setting → Option α} {holds : α → Prop}
    {allowed : Setting → Prop} (hread : ∀ s c, read? s = some c → (holds c ↔ allowed s))
    {settings : Except ConfigError Setting} {c : α} (h : fitted read? settings = .ok c) :
    ∃ s, settings = .ok s ∧ (holds c ↔ allowed s) := by
  obtain ⟨s, hs, hc⟩ := fitted_eq_ok_iff.mp h
  exact ⟨s, hs, hread s c hc⟩

/-! ## Registries -/

namespace RegistryConfig

/-- Whether a configuration meets what a registry demands of it when it starts: that its sweeps have a
period, since there is no timer without one, and that its permits, at least one of them, are not more
than a stock of permits can hold. Whether the clock can tell the instant at which the first
period ends is another matter, and not asked. -/
structure Runnable (c : RegistryConfig) : Prop where
  sweeps : c.sweepInterval.CanTick
  permits : 1 ≤ (FanOut.ofLimit c.maxInFlight : FanOut).free ∧
    (FanOut.ofLimit c.maxInFlight : FanOut).free ≤ FanOut.mostPermits

/-- Whether settings ask for nothing that a registry cannot do. This is said of the settings alone,
without the configuration that is read from them. -/
structure WithinLimits (s : Setting) : Prop where
  sweeps : said? s "heartbeat" "sweep_interval" ≠ some (.integer 0)
  permits : ∀ n : Nat, said? s "notify" "max_in_flight" = some (.integer n) → n ≤ FanOut.mostPermits

theorem Describes.runnable_iff {s : Setting} {c : RegistryConfig} (h : Describes s c) :
    c.Runnable ↔ WithinLimits s := by
  have hsweeps := Setting.canTick_iff_of_seconds (by decide) h.sweepInterval
  have hpermits := Setting.le_iff_of_nat (show _ ≤ FanOut.mostPermits by decide) h.maxInFlight
  constructor
  · intro hc
    exact ⟨hsweeps.mp hc.sweeps, hpermits.mp (Nat.le_trans (Nat.le_max_right 1 _) hc.permits.2)⟩
  · intro hs
    exact ⟨hsweeps.mpr hs.sweeps, Nat.le_max_left 1 _,
      Nat.max_le.mpr ⟨by decide, hpermits.mpr hs.permits⟩⟩

end RegistryConfig

/-! ## Members -/

namespace MemberConfig

/-- Whether a configuration meets what a member demands of it when it begins to report alive: that its
heartbeats have a period. -/
structure Runnable (c : MemberConfig) : Prop where
  heartbeats : c.heartbeatInterval.CanTick

/-- Whether settings ask for nothing that a member cannot do. -/
structure WithinLimits (s : Setting) : Prop where
  heartbeats : s.field? fields "heartbeat_interval" ≠ some (.integer 0)

theorem Describes.runnable_iff {s : Setting} {c : MemberConfig} (h : Describes s c) :
    c.Runnable ↔ WithinLimits s := by
  have hheartbeats := Setting.canTick_iff_of_seconds (by decide) h.heartbeatInterval
  exact ⟨fun hc => ⟨hheartbeats.mp hc.heartbeats⟩, fun hs => ⟨hheartbeats.mpr hs.heartbeats⟩⟩

end MemberConfig

/-! ## Accepted configurations -/

namespace Config

/-- A configuration that is accepted can run exactly if the settings it is read from are within the
limits, be they those of a file alone or of a file, if there is one, under variables. -/
theorem runs_iff_within_limits (text : String) (file? : Option String)
    (environment : List (String × String)) :
    (∀ c, RegistryConfig.parse text = .ok c →
      ∃ s, ofFile text = .ok s ∧ (c.Runnable ↔ RegistryConfig.WithinLimits s)) ∧
    (∀ c, RegistryConfig.load file? environment = .ok c →
      ∃ s, layered RegistryConfig.variableStyle file? environment = .ok s ∧
        (c.Runnable ↔ RegistryConfig.WithinLimits s)) ∧
    (∀ c, MemberConfig.parse text = .ok c →
      ∃ s, ofFile text = .ok s ∧ (c.Runnable ↔ MemberConfig.WithinLimits s)) ∧
    ∀ c, MemberConfig.load file? environment = .ok c →
      ∃ s, layered MemberConfig.variableStyle file? environment = .ok s ∧
        (c.Runnable ↔ MemberConfig.WithinLimits s) := by
  have hregistry (s : Setting) (c : RegistryConfig) (h : RegistryConfig.ofSetting? s = some c) :
      c.Runnable ↔ RegistryConfig.WithinLimits s :=
    (RegistryConfig.ofSetting?_eq_some_iff.mp h).runnable_iff
  have hmember (s : Setting) (c : MemberConfig) (h : MemberConfig.ofSetting? s = some c) :
      c.Runnable ↔ MemberConfig.WithinLimits s :=
    (MemberConfig.ofSetting?_eq_some_iff.mp h).runnable_iff
  exact ⟨fun _ => iff_of_fitted hregistry, fun _ => iff_of_fitted hregistry,
    fun _ => iff_of_fitted hmember, fun _ => iff_of_fitted hmember⟩

/-- A second between sweeps or between heartbeats is within the limits, in a file and in a variable,
and no time between them is not. -/
theorem a_second_is_enough :
    (∃ s, ofFile "[heartbeat]\nsweep_interval = 1\n" = .ok s ∧ RegistryConfig.WithinLimits s) ∧
    (∃ s, layered RegistryConfig.variableStyle none
      [("REGISTRY_HEARTBEAT__SWEEP_INTERVAL", "1")] = .ok s ∧ RegistryConfig.WithinLimits s) ∧
    (∃ s, ofFile "heartbeat_interval = 1\n" = .ok s ∧ MemberConfig.WithinLimits s) ∧
    ∃ s, layered MemberConfig.variableStyle none [("EPHEMERIS_HEARTBEAT_INTERVAL", "0")] = .ok s ∧
      ¬ MemberConfig.WithinLimits s := by
  have hsweeps : RegistryConfig.Runnable
      { RegistryConfig.standard with sweepInterval := .ofSeconds 1 } := ⟨by decide, by decide⟩
  have hheartbeats : MemberConfig.Runnable
      { MemberConfig.standard with heartbeatInterval := .ofSeconds 1 } := ⟨by decide⟩
  have hnever : ¬ MemberConfig.Runnable
      { MemberConfig.standard with heartbeatInterval := .ofSeconds 0 } :=
    fun h => absurd h.heartbeats (by decide)
  refine ⟨?_, ?_, ?_, ?_⟩
  · obtain ⟨s, hs, hiff⟩ := (runs_iff_within_limits "[heartbeat]\nsweep_interval = 1\n" none []).1
      { RegistryConfig.standard with sweepInterval := .ofSeconds 1 } (by decide +kernel)
    exact ⟨s, hs, hiff.mp hsweeps⟩
  · obtain ⟨s, hs, hiff⟩ :=
      (runs_iff_within_limits "" none [("REGISTRY_HEARTBEAT__SWEEP_INTERVAL", "1")]).2.1
        { RegistryConfig.standard with sweepInterval := .ofSeconds 1 } (by decide +kernel)
    exact ⟨s, hs, hiff.mp hsweeps⟩
  · obtain ⟨s, hs, hiff⟩ := (runs_iff_within_limits "heartbeat_interval = 1\n" none []).2.2.1
      { MemberConfig.standard with heartbeatInterval := .ofSeconds 1 } (by decide +kernel)
    exact ⟨s, hs, hiff.mp hheartbeats⟩
  · obtain ⟨s, hs, hiff⟩ :=
      (runs_iff_within_limits "" none [("EPHEMERIS_HEARTBEAT_INTERVAL", "0")]).2.2.2
        { MemberConfig.standard with heartbeatInterval := .ofSeconds 0 } (by decide +kernel)
    exact ⟨s, hs, fun hlimits => hnever (hiff.mpr hlimits)⟩

/-- A zero is accepted for either interval, and so are more permits than there can be; nothing of it
can run. -/
theorem accepts_what_cannot_run :
    (∃ c, RegistryConfig.parse "[heartbeat]\nsweep_interval = 0\n" = .ok c ∧ ¬ c.Runnable) ∧
    (∃ c, RegistryConfig.parse "[notify]\nmax_in_flight = 2305843009213693952\n" = .ok c ∧
      ¬ c.Runnable) ∧
    ∃ c, MemberConfig.parse "heartbeat_interval = 0\n" = .ok c ∧ ¬ c.Runnable := by
  refine ⟨⟨{ RegistryConfig.standard with sweepInterval := .ofSeconds 0 }, by decide +kernel, ?_⟩,
    ⟨{ RegistryConfig.standard with maxInFlight := 2305843009213693952 }, by decide +kernel, ?_⟩,
    ⟨{ MemberConfig.standard with heartbeatInterval := .ofSeconds 0 }, by decide +kernel, ?_⟩⟩
  · exact fun h => absurd h.sweeps (by decide)
  · exact fun h => absurd h.permits.2 (by decide)
  · exact fun h => absurd h.heartbeats (by decide)

end Config
end Rollcall
