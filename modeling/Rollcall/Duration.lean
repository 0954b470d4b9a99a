import Rollcall.Text.Digits

/-!
# Spans of time

A duration is a whole number of nanoseconds. It is written in the largest unit of which it holds at
least one, with as many decimal places as it needs and no trailing zero: `5s`, `1.5s`, `250ms`,
`999.999999ms`, `1µs`, `0ns`.
-/

namespace Rollcall

/-- A span of time in whole nanoseconds, and also a point of time measured from the start of its
clock. It is not bounded, so nothing here overflows. -/
structure Duration where
  /-- How many nanoseconds it lasts. -/
  nanos : Nat
  deriving Repr, DecidableEq, Inhabited

namespace Duration

def ofSeconds (n : Nat) : Duration := ⟨n * 1000000000⟩

def ofMillis (n : Nat) : Duration := ⟨n * 1000000⟩

/-- A unit of time: its length in nanoseconds, the decimal places below it, and its sign. -/
structure TimeUnit where
  nanos : Nat
  places : Nat
  sign : String

/-- The units above the nanosecond, the largest first. -/
def largeUnits : List TimeUnit := [⟨1000000000, 9, "s"⟩, ⟨1000000, 6, "ms"⟩, ⟨1000, 3, "µs"⟩]

/-- The unit in which a duration is written: the largest one of which it holds a whole one. -/
def unit (d : Duration) : TimeUnit :=
  (largeUnits.find? (·.nanos ≤ d.nanos)).getD ⟨1, 0, "ns"⟩

/-- The decimal places of `rest` out of `places`, without trailing zeros. -/
def fraction (places rest : Nat) : List Char :=
  ((Text.zeroFilled places (Text.decimal rest)).reverse.dropWhile (· = '0')).reverse

def text (d : Duration) : String :=
  let whole := Text.decimal (d.nanos / d.unit.nanos)
  let places := fraction d.unit.places (d.nanos % d.unit.nanos)
  let point := if places.isEmpty then [] else '.' :: places
  String.ofList (whole ++ point) ++ d.unit.sign

/-- The span from `earlier` to `later`, and nothing if `later` lies before it, so that a sign of
life that was noted while others looked at the clock counts as fresh. -/
def since (later earlier : Duration) : Duration := ⟨later.nanos - earlier.nanos⟩

end Duration
end Rollcall
