import Autoscaling.Duration.Basic
import Autoscaling.Table

namespace Autoscaling

/-- A point in time in nanoseconds from the epoch, its whole seconds in 64 bits with sign. -/
structure Time where
  nanos : Int
  above : -2 ^ 63 * 10 ^ 9 ≤ nanos := by decide
  below : nanos < 2 ^ 63 * 10 ^ 9 := by decide
deriving DecidableEq

namespace Time

def ofNanos? (n : Int) : Option Time :=
  if h : -2 ^ 63 * 10 ^ 9 ≤ n ∧ n < 2 ^ 63 * 10 ^ 9 then some ⟨n, h.1, h.2⟩ else none

/-- The time nearest to so many nanoseconds from the epoch. -/
def clamp (n : Int) : Time :=
  ⟨max (-2 ^ 63 * 10 ^ 9) (min n (2 ^ 63 * 10 ^ 9 - 1)), by omega, by omega⟩

def ofMillis (n : Int) : Time := clamp (n * 10 ^ 6)

def add? (t : Time) (d : Duration) : Option Time := ofNanos? (t.nanos + d.nanos)

end Time

/-- The last recorded scaling of each group of each job. -/
abbrev History := Table (String × String) Time

namespace History

def empty : History := Table.empty

def record (h : History) (job group : String) (t : Time) : History :=
  h.insert (job, group) t

def last? (h : History) (job group : String) : Option Time := h.get? (job, group)

def forgetJob (h : History) (job : String) : History := h.retain (·.1 ≠ job)

/-- A cooldown that ends beyond all times has not ended. -/
def inCooldown (h : History) (job group : String) (cooldown : Duration) (now : Time) : Bool :=
  match h.last? job group with
  | none => false
  | some t =>
    match t.add? cooldown with
    | none => true
    | some ending => now.nanos < ending.nanos

@[simp] theorem last?_empty (job group : String) : empty.last? job group = none := rfl

@[simp] theorem last?_record (h : History) (job other group group' : String) (t : Time) :
    (h.record other group' t).last? job group =
      if job = other ∧ group = group' then some t else h.last? job group := by
  simp [record, last?]

@[simp] theorem last?_forgetJob (h : History) (job other group : String) :
    (h.forgetJob other).last? job group = if job = other then none else h.last? job group := by
  simp [forgetJob, last?]

end History

end Autoscaling
