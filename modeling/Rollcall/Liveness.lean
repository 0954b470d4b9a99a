import Rollcall.Duration
import Rollcall.InstanceId

/-!
# Who has been heard of, and when

The ledger holds for each identifier the instant of its last sign of life. An instance is overdue
when it has been silent for longer than the timeout, or has never been heard of at all.

    ledger.lastSeen? id    when an instance was last heard of
    ledger.record id now   notes a sign of life
    ledger.forget id       drops what is known of an instance
    isStale timeout s now  whether an instance last seen at `s` is overdue
-/

namespace Rollcall

/-- A point of time, as the span since the start of its clock. -/
abbrev Instant := Duration

/-- Whether an instance that was last heard of at `seen?` is overdue. The timeout itself is still in
time; an instance of which nothing was ever heard is overdue at any moment. -/
def isStale (timeout : Duration) (seen? : Option Instant) (now : Instant) : Bool :=
  match seen? with
  | none => true
  | some seen => timeout.nanos < (now.since seen).nanos

/-- The signs of life: for each identifier at most one record, that of its last one. Records may be
of identifiers that belong to nobody any more; a sweep drops those once they are overdue. -/
structure Ledger where
  records : List (InstanceId × Instant) := []
  nodup : (records.map (·.1)).Nodup := by exact List.nodup_nil
  deriving Repr

namespace Ledger

def isOther (id : InstanceId) (record : InstanceId × Instant) : Bool := record.1 != id

theorem nodup_filter (l : Ledger) (p : InstanceId × Instant → Bool) :
    ((l.records.filter p).map (·.1)).Nodup :=
  l.nodup.sublist (List.filter_sublist.map _)

def forget (l : Ledger) (id : InstanceId) : Ledger :=
  ⟨l.records.filter (isOther id), l.nodup_filter _⟩

def record (l : Ledger) (id : InstanceId) (now : Instant) : Ledger where
  records := (id, now) :: l.records.filter (isOther id)
  nodup := by
    refine List.nodup_cons.2 ⟨fun h => ?_, l.nodup_filter _⟩
    obtain ⟨r, hr, heq⟩ := List.mem_map.1 h
    simp [isOther, heq] at hr

def lastSeen? (l : Ledger) (id : InstanceId) : Option Instant :=
  (l.records.find? (·.1 = id)).map (·.2)

def tracks (l : Ledger) (id : InstanceId) : Bool := l.records.any (·.1 = id)

def ids (l : Ledger) : List InstanceId := l.records.map (·.1)

def size (l : Ledger) : Nat := l.records.length

def isEmpty (l : Ledger) : Bool := l.records.isEmpty

end Ledger

def trackingDebug (tracked : Nat) (timeout : Duration) : String :=
  "HeartbeatTracker \x7b tracked: " ++ String.ofList (Text.decimal tracked) ++ ", timeout: " ++
    timeout.text ++ ", .. \x7d"

end Rollcall
