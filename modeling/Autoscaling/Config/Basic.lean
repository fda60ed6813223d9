import Autoscaling.Duration.Text

namespace Autoscaling

structure Config where
  scalingInterval : Duration := .ofSeconds 60
  scalingThreads : UInt64 := 3
  workerExpiry : Duration := .ofSeconds 60
  drainPollInterval : Duration := .ofSeconds 1
deriving DecidableEq

namespace Config

def default : Config := {}

inductive Field
  | scalingInterval
  | scalingThreads
  | workerExpiry
  | drainPollInterval
deriving DecidableEq

def Field.all : List Field := [.scalingInterval, .scalingThreads, .workerExpiry, .drainPollInterval]

def Field.name : Field → String
  | .scalingInterval => "scaling_interval"
  | .scalingThreads => "scaling_threads"
  | .workerExpiry => "worker_expiry"
  | .drainPollInterval => "drain_poll_interval"

theorem Field.mem_all (f : Field) : f ∈ Field.all := by cases f <;> decide

def Field.ofName? (name : String) : Option Field := Field.all.find? (·.name == name)

def isZero (c : Config) : Field → Bool
  | .scalingInterval => c.scalingInterval.nanos == 0
  | .scalingThreads => c.scalingThreads == 0
  | .workerExpiry => c.workerExpiry.nanos == 0
  | .drainPollInterval => c.drainPollInterval.nanos == 0

def Field.reason : Field → String
  | .scalingThreads => "scaling_threads must be at least 1"
  | f => f.name ++ " must be greater than zero"

def fault? (c : Config) : Option Field := Field.all.find? c.isZero

structure Invalid where
  reason : String
deriving DecidableEq

def Invalid.message (e : Invalid) : String := "invalid config: " ++ e.reason

def validate (c : Config) : Except Invalid Unit :=
  match c.fault? with
  | some f => .error ⟨f.reason⟩
  | none => .ok ()

theorem isZero_of_validate {c : Config} (h : c.validate = .ok ()) (f : Field) :
    c.isZero f = false := by
  unfold validate at h
  split at h
  · contradiction
  · next none => simpa using List.find?_eq_none.1 none f f.mem_all

theorem scalingInterval_pos {c : Config} (h : c.validate = .ok ()) :
    0 < c.scalingInterval.nanos :=
  Nat.pos_of_ne_zero (ne_of_beq_false (isZero_of_validate h .scalingInterval))

theorem drainPollInterval_pos {c : Config} (h : c.validate = .ok ()) :
    0 < c.drainPollInterval.nanos :=
  Nat.pos_of_ne_zero (ne_of_beq_false (isZero_of_validate h .drainPollInterval))

end Config

end Autoscaling
