import Autoscaling.Config.Basic
import Autoscaling.Phase
import Autoscaling.Pool.Line
import Autoscaling.Scenario
import Autoscaling.Store

/-!
A scaling loop with its store, its pool and what its scaler does, all run on one thread. Agents act
by turns: the first of those that are ready moves until it has to wait, then the next one. Time
stands still while any is ready.
-/

namespace Autoscaling

structure Report where
  jobsEvaluated : Nat := 0
  submitted : List String := []
  gated : List String := []
deriving DecidableEq

inductive Outcome
  | skipped
  | fetchFailed
  | noPolicies
  | completed (r : Report)
deriving DecidableEq

structure Pass where
  number : Nat
  began : Nat
  rest : List (String × JobPolicies)
  report : Report := {}
deriving DecidableEq

structure Check where
  job : String
  groups : JobPolicies
  left : List (String × Policy)
  safe : Bool := false
deriving DecidableEq

namespace Pass

inductive Stage
  | opening
  | visiting (p : Pass)
  | checking (q : Query) (p : Pass) (c : Check)
  | held (q : Query) (p : Pass) (c : Check)
  | answering (q : Query) (p : Pass) (c : Check)
  | submitting (p : Pass) (i : WorkItem) (entered : Bool)
deriving DecidableEq

end Pass

inductive Call
  | submitting (items : List WorkItem) (entered : Bool)
  | evaluating (stage : Pass.Stage)
  | entering
  /-- The loop between passes; the next tick is due at `tick` nanoseconds. -/
  | selecting (tick : Nat)
  | ticking (next : Nat) (stage : Pass.Stage)
  | stopping
  | polling
  | sleeping (wakeAt : Nat)
  | releasing
  /-- A stop, or else a release, waits for workers to leave. -/
  | joining (stop : Bool) (handles : List Nat)
  | returned
deriving DecidableEq

namespace Call

def awaits (w : Nat) : Call → Bool
  | .joining _ (h :: _) => h == w
  | _ => false

def isSelecting : Call → Bool
  | .selecting _ => true
  | _ => false

end Call

inductive Answer
  | evaluate (o : Outcome)
  | release
  | run
  | stop (first : Bool)
  | submit (job : String) (accepted : Bool)
deriving DecidableEq

inductive Event
  | accepted (i : WorkItem)
  | refused (i : WorkItem)
  | taken (i : WorkItem)
  | dropped (i : WorkItem) (r : Pool.Reason)
  | started (i : WorkItem)
  | finished (i : WorkItem)
  | panicked (i : WorkItem)
  | ticked
  | read
  | askedDeploying (job group : String)
  | askedCooldown (job group : String) (cooldown : Duration)
  | answered (a : Answer)
deriving DecidableEq

def Query.asked (job group : String) (cooldown : Duration) : Query → Event
  | .deployment => .askedDeploying job group
  | .cooldown => .askedCooldown job group cooldown

/-- Times are milliseconds from the start unless said otherwise. -/
structure Machine where
  pool : Pool
  interval : Duration := .ofSeconds 60
  drainPoll : Duration := .ofSeconds 1
  interval_pos : 0 < interval.nanos := by decide
  drainPoll_pos : 0 < drainPoll.nanos := by decide
  timed : Bool := false
  now : Nat := 0
  /-- The agents that can move, the first of which does. -/
  ready : List Agent := []
  /-- When sleeping agents wake, in the order in which they went to sleep. -/
  timers : List (Nat × Agent) := []
  calls : List Call := []
  shutdown : Bool := false
  lifecycle : Lifecycle := {}
  store : Store := ∅
  storeFails : Bool := false
  scenario : Scenario := {}
  /-- Held evaluations, in the order in which permits free them. -/
  evaluationLine : List (String × Nat) := []
  questionLine : List (Question × Nat) := []
  /-- How often a pass has read the store. -/
  reads : Nat := 0
  timings : Recorder := ∅
  /-- All events with their times, the last first. -/
  journal : List (Nat × Event) := []
deriving DecidableEq

namespace Machine

def direct (s : Machine) (f : Scenario → Scenario) : Machine := { s with scenario := f s.scenario }

def nanos (s : Machine) : Nat := s.now * 10 ^ 6

def clock (s : Machine) : Time := .ofMillis s.now

def log (s : Machine) (e : Event) : Machine := { s with journal := (s.now, e) :: s.journal }

def wake (s : Machine) (agents : List Agent) : Machine :=
  { s with ready := agents.foldl (fun r a => if a ∈ r then r else r ++ [a]) s.ready }

def wait (s : Machine) : Machine := { s with ready := s.ready.tail }

def sleep (s : Machine) (a : Agent) (wakeAt : Nat) : Machine :=
  { s.wait with
    timers := if (wakeAt, a) ∈ s.timers then s.timers else s.timers ++ [(wakeAt, a)] }

def cancel (s : Machine) (a : Agent) : Machine := { s with timers := s.timers.filter (·.2 ≠ a) }

def call (s : Machine) (c : Nat) : Call := s.calls.getD c .returned

def setCall (s : Machine) (c : Nat) (x : Call) : Machine := { s with calls := s.calls.set c x }

def callers (s : Machine) (isAsked : Call → Bool) : List Agent :=
  ((List.range s.calls.length).filter (isAsked <| s.call ·)).map .caller

def answer (s : Machine) (c : Nat) (a : Answer) : Machine :=
  ((s.setCall c .returned).log (.answered a)).wait

def time (s : Machine) (key : List String) (millis : Nat) : Machine :=
  { s with timings := s.timings.record key ((Duration.ofNanos? (millis * 10 ^ 6)).getD .zero) }

end Machine

end Autoscaling
