import FencedLedger.Duration

/-!
# Units of time

The units that durations are written in, with the names that are read for each.
A month is a twelfth of a year and a year has 365.25 days.
-/

namespace FencedLedger

/-- A unit of time. -/
inductive TimeUnit where
  | nanosecond
  | microsecond
  | millisecond
  | second
  | minute
  | hour
  | day
  | week
  | month
  | year
  deriving DecidableEq, Repr

namespace TimeUnit

/-- Every unit, from the smallest. -/
def all : List TimeUnit :=
  [.nanosecond, .microsecond, .millisecond, .second, .minute, .hour, .day, .week, .month, .year]

/-- The names that are read for a unit. Case matters. -/
def names : TimeUnit → List String
  | .nanosecond => ["nanos", "nsec", "ns"]
  | .microsecond => ["usec", "us", "µs"]
  | .millisecond => ["millis", "msec", "ms"]
  | .second => ["seconds", "second", "secs", "sec", "s"]
  | .minute => ["minutes", "minute", "min", "mins", "m"]
  | .hour => ["hours", "hour", "hr", "hrs", "h"]
  | .day => ["days", "day", "d"]
  | .week => ["weeks", "week", "wk", "wks", "w"]
  | .month => ["months", "month", "M"]
  | .year => ["years", "year", "yr", "yrs", "y"]

/-- The unit of a name. -/
def ofName? (name : String) : Option TimeUnit := all.find? fun u => u.names.contains name

/-- An amount per unit, either in seconds or in nanoseconds. -/
inductive Scale where
  | seconds (perUnit : Nat)
  | nanos (perUnit : Nat)
  deriving DecidableEq, Repr

/-- The amount that a whole unit stands for. -/
def whole : TimeUnit → Scale
  | .nanosecond => .nanos 1
  | .microsecond => .nanos 1000
  | .millisecond => .nanos 1000000
  | .second => .seconds 1
  | .minute => .seconds 60
  | .hour => .seconds 3600
  | .day => .seconds 86400
  | .week => .seconds 604800
  | .month => .seconds 2630016
  | .year => .seconds 31557600

/-- The amount that fractions of a unit are taken of: nanoseconds up to a minute
and seconds beyond. A nanosecond has no fractions. -/
def fractional? : TimeUnit → Option Scale
  | .nanosecond => none
  | .second => some (.nanos 1000000000)
  | .minute => some (.nanos 60000000000)
  | u => some u.whole

end TimeUnit

end FencedLedger
