import Autoscaling.WorkItem

/-!
The worker pool: slots, a queue and workers. Each item holds one of `capacity` slots from its
acceptance until its worker is through with it. Submitters wait in line for slots; idle workers
stand in line for the queue, and only the first of them receives. Workers are made when items
outnumber them and leave when they have been idle for `expiry`.

Every move is a function of the pool; beside the new pool it gives the agents that the move wakes,
in order.
-/

namespace Autoscaling

/-- Those who act by turns: workers, the evaluations that workers wait for, and callers. -/
inductive Agent
  | worker (w : Nat)
  | evaluation (w : Nat)
  | caller (c : Nat)
deriving DecidableEq

inductive Creation (ε α : Type)
  | made (x : α)
  | refused (e : ε)
  | crashed

namespace Pool

inductive Error
  | noCapacity
  | released
deriving DecidableEq

def Error.message : Error → String
  | .noCapacity => "worker pool capacity must be at least 1"
  | .released => "worker pool has been released"

inductive Stage
  | waiting
  | granted
  | holding
  /-- The item is queued; a worker may be missing. -/
  | queued
deriving DecidableEq

structure Submission where
  caller : Nat
  item : WorkItem
  stage : Stage
deriving DecidableEq

inductive Progress
  | spawned
  | sleeping (wakeAt : Nat)
  | held
  | freed
deriving DecidableEq

inductive Worker
  | resting
  | idle (deadline : Nat)
  | holding (item : WorkItem)
  | evaluating (item : WorkItem) (progress : Progress)
  | finished (item : WorkItem)
  | exited
deriving DecidableEq

end Pool

structure Pool where
  capacity : Nat
  expiry : Nat
  free : Nat
  released : Bool := false
  submissions : List Pool.Submission := []
  queue : List WorkItem := []
  idle : List Nat := []
  workers : List Pool.Worker := []
  live : Nat := 0
  handles : List Nat := []
deriving DecidableEq

namespace Pool

/-- More slots cannot be counted. -/
def maxSlots : Nat := 2 ^ 61 - 1

def create (capacity expiry : Nat) : Creation Error Pool :=
  if capacity = 0 then .refused .noCapacity
  else if maxSlots < capacity then .crashed
  else .made { capacity, expiry, free := capacity }

def inFlight (p : Pool) : Nat := p.capacity - p.free

def worker (p : Pool) (w : Nat) : Worker := p.workers.getD w .exited

def setWorker (p : Pool) (w : Nat) (x : Worker) : Pool := { p with workers := p.workers.set w x }

def closed (p : Pool) : Bool := p.released && p.submissions.isEmpty

def firstIdle (p : Pool) : List Agent := p.idle.head?.toList.map .worker

end Pool

end Autoscaling
