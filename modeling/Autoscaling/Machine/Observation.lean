import Autoscaling.Machine.Run

namespace Autoscaling

structure Observation where
  time : Nat
  running : Nat
  inFlight : Nat
  phase : Phase
  isRunning : Bool
  started : List (Nat × WorkItem)
  finished : List (Nat × String)
  answers : List (Nat × Answer)
  questions : List (Nat × Event)

def Answer.rank : Answer → Nat
  | .evaluate _ => 0
  | .release => 1
  | .run => 2
  | .stop _ => 3
  | .submit .. => 4

namespace Observation

def started? : Nat × Event → Option (Nat × WorkItem)
  | (t, .started i) => some (t, i)
  | _ => none

def finished? : Nat × Event → Option (Nat × String)
  | (t, .finished i) => some (t, i.job)
  | _ => none

def answer? : Nat × Event → Option (Nat × Answer)
  | (t, .answered a) => some (t, a)
  | _ => none

def isQuestion : Nat × Event → Bool
  | (_, .read) | (_, .askedDeploying ..) | (_, .askedCooldown ..) => true
  | _ => false

def jobOrder (a b : Nat × String) : Bool := a.1 < b.1 || (a.1 == b.1 && a.2 ≤ b.2)

def answerOrder (a b : Nat × Answer) : Bool :=
  a.1 < b.1 || (a.1 == b.1 && Answer.rank a.2 ≤ Answer.rank b.2)

def of (s : Machine) (seen : Nat) : Observation :=
  let events := (s.journal.take (s.journal.length - seen)).reverse
  { time := s.now
    running := s.pool.live
    inFlight := s.pool.inFlight
    phase := s.lifecycle.phase
    isRunning := s.lifecycle.loopActive
    started := events.filterMap started?
    finished := (events.filterMap finished?).mergeSort jobOrder
    answers := (events.filterMap answer?).mergeSort answerOrder
    questions := events.filter isQuestion }

end Observation

namespace Machine

def play : Machine → List Command → Machine × List Observation
  | s, [] => (s, [])
  | s, c :: rest =>
    let s' := s.perform c
    let (last, seen) := s'.play rest
    (last, Observation.of s' s.journal.length :: seen)

end Machine

end Autoscaling
