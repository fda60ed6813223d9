import Autoscaling.Machine.Step
import Autoscaling.Pool.Work

/-!
How many moves can follow before every agent waits. A call is priced like the work of a pool: the
price covers its own moves and the agents that they wake.
-/

namespace Autoscaling

attribute [local instance (20000)] Zero.ofOfNat0

namespace Pass

def visitWork (jobs : List (String × JobPolicies)) : Nat :=
  1 + (jobs.map fun (_, groups) => 4 * groups.size + 27).sum

def openWork (store : Store) : Nat := 2 + visitWork store.entries

def queryWork : Query → Nat
  | .deployment => 2
  | .cooldown => 0

def Stage.work (store : Store) : Stage → Nat
  | .opening => openWork store
  | .visiting p => visitWork p.rest
  | .checking q p c => visitWork p.rest + 4 * c.left.length + queryWork q + 24
  | .held q p c | .answering q p c => visitWork p.rest + 4 * c.left.length + queryWork q + 23
  | .submitting p _ false => visitWork p.rest + 22
  | .submitting p _ true => visitWork p.rest + 1

end Pass

namespace Machine

/-- At most so many ticks are served at this instant. -/
def dueTicks (s : Machine) (tick : Nat) : Nat :=
  if tick ≤ s.nanos then (s.nanos - tick) / s.interval.nanos + 1 else 0

def tickWork (s : Machine) (tick : Nat) : Nat := s.dueTicks tick * (Pass.openWork s.store + 2)

def callWork (s : Machine) : Call → Nat
  | .submitting items false => 24 * items.length + 1
  | .submitting items true => 24 * (items.length - 1) + 2
  | .evaluating stage => stage.work s.store + 1
  | .entering => 5
  | .selecting tick => s.tickWork tick + if s.shutdown then 2 else 3
  | .ticking next stage => s.tickWork next + stage.work s.store + 4
  | .stopping => 10
  | .polling => 8
  | .sleeping wakeAt => if wakeAt ≤ s.now then 9 else 7
  | .releasing => 5
  | .joining _ handles => Pool.handlesWork s.pool.workers handles + 2
  | .returned => 0

def work (s : Machine) : Nat :=
  s.ready.length + s.pool.work + (s.calls.map s.callWork).sum

def run : Nat → Machine → Machine
  | 0, s => s
  | n + 1, s => if s.ready.isEmpty then s else run n s.step

/-- Moves until every agent waits. -/
def settle (s : Machine) : Machine := run s.work s

end Machine

end Autoscaling
