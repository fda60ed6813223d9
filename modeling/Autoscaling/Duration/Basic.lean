namespace Autoscaling

-- Powers are those of the core library, also where a theory of monoids is in scope.
attribute [scoped instance (20000)] instPowNat
attribute [default_instance (20000)] instPowNat

def ceilMillis (nanos : Nat) : Nat := (nanos + (10 ^ 6 - 1)) / 10 ^ 6

/-- A span of whole nanoseconds, below 2^64 seconds. -/
structure Duration where
  nanos : Nat
  bounded : nanos < 2 ^ 64 * 10 ^ 9 := by decide
deriving DecidableEq

namespace Duration

inductive Unit
  | hour
  | minute
  | second
  | millisecond
  | nanosecond
deriving DecidableEq

def Unit.nanos : Unit → Nat
  | .hour => 3600 * 10 ^ 9
  | .minute => 60 * 10 ^ 9
  | .second => 10 ^ 9
  | .millisecond => 10 ^ 6
  | .nanosecond => 1

def Unit.symbol : Unit → List Char
  | .hour => ['h']
  | .minute => ['m']
  | .second => ['s']
  | .millisecond => ['m', 's']
  | .nanosecond => ['n', 's']

theorem Unit.nanos_pos (u : Unit) : 0 < u.nanos := by cases u <;> decide

def secs (d : Duration) : Nat := d.nanos / 10 ^ 9

def subsecNanos (d : Duration) : Nat := d.nanos % 10 ^ 9

def zero : Duration := ⟨0, by decide⟩

def ofNanos? (n : Nat) : Option Duration :=
  if h : n < 2 ^ 64 * 10 ^ 9 then some ⟨n, h⟩ else none

def ofNanos (n : UInt64) : Duration := ⟨n.toNat, by have := n.toNat_lt; omega⟩

def ofSeconds (n : UInt64) : Duration := ⟨n.toNat * 10 ^ 9, by have := n.toNat_lt; omega⟩

@[simp] theorem nanos_ofNanos (n : UInt64) : (ofNanos n).nanos = n.toNat := rfl

@[simp] theorem nanos_ofSeconds (n : UInt64) : (ofSeconds n).nanos = n.toNat * 10 ^ 9 := rfl

@[ext] theorem ext {d e : Duration} (h : d.nanos = e.nanos) : d = e := by
  cases d; cases e; cases h; rfl

/-- The whole milliseconds that cover the span. -/
def millis (d : Duration) : Nat := ceilMillis d.nanos

end Duration

end Autoscaling
