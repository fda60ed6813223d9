import Autoscaling.Machine.Work

namespace Autoscaling

namespace Machine

inductive Error
  | config (e : Config.Invalid)
  | pool (e : Pool.Error)
deriving DecidableEq

def Error.message : Error → String
  | .config e => "config error: " ++ e.message
  | .pool e => "worker pool error: " ++ e.message

def around (pool : Pool) (scenario : Scenario) : Machine := { pool, scenario }

def ofPool (capacity expiry : Nat) (scenario : Scenario) : Creation Pool.Error Machine :=
  match Pool.create capacity expiry with
  | .made pool => .made (around pool scenario)
  | .refused e => .refused e
  | .crashed => .crashed

def ofConfig (c : Config) (timed : Bool) (scenario : Scenario) : Creation Error Machine :=
  match h : c.validate with
  | .error e => .refused (.config e)
  | .ok () =>
    match Pool.create c.scalingThreads.toNat c.workerExpiry.millis with
    | .made pool =>
      .made
        { pool, timed, scenario
          interval := c.scalingInterval
          drainPoll := c.drainPollInterval
          interval_pos := Config.scalingInterval_pos h
          drainPoll_pos := Config.drainPollInterval_pos h }
    | .refused e => .refused (.pool e)
    | .crashed => .crashed

def nextTimer (s : Machine) : Option Nat := (s.timers.map (·.1)).min?

def due (s : Machine) : List Agent := (s.timers.filter (·.1 ≤ s.now)).map (·.2)

def fire (s : Machine) : Machine :=
  { s with timers := s.timers.filter fun timer => s.now < timer.1 }.wake s.due

/-- Visits the timers on the way to `target`; each visit takes a millisecond at least. -/
def visitTimers (target : Nat) : Nat → Machine → Machine
  | 0, s => { s with now := target }
  | fuel + 1, s =>
    match s.nextTimer with
    | none => { s with now := target }
    | some t =>
      if target < t then { s with now := target }
      else visitTimers target fuel ({ s with now := max s.now t }.fire.settle)

def advance (s : Machine) (millis : Nat) : Machine := visitTimers (s.now + millis) (millis + 1) s

inductive Command
  | submit (items : List WorkItem)
  | evaluate
  | run
  | stop
  | release
  | advance (millis : Nat)
  | unhold (job : String)
  | unholdAnswer (q : Question)
  | shutdown
  | write (w : Store.Write)
  | storeFails (on : Bool)
  | change (x : Scenario.Change)
deriving DecidableEq

def begin (s : Machine) (x : Call) : Machine :=
  { s with calls := s.calls ++ [x] }.wake [.caller s.calls.length]

def freeEvaluation (s : Machine) (w : Nat) : Machine :=
  match s.pool.worker w with
  | .evaluating i _ => (s.setProgress w i .freed).wake [.evaluation w]
  | _ => s

/-- One evaluation of the job goes on: the first in line, or else the next to come. -/
def unhold (s : Machine) (job : String) : Machine :=
  match s.evaluationLine.find? (·.1 = job) with
  | some (j, w) => { s with evaluationLine := s.evaluationLine.erase (j, w) }.freeEvaluation w
  | none => s.direct (.permit job)

def freeStage : Pass.Stage → Pass.Stage
  | .held q p c => .answering q p c
  | stage => stage

def freeCall : Call → Call
  | .evaluating stage => .evaluating (freeStage stage)
  | .ticking next stage => .ticking next (freeStage stage)
  | x => x

def unholdAnswer (s : Machine) (q : Question) : Machine :=
  match s.questionLine.find? (·.1 = q) with
  | some (q, c) =>
    ({ s with questionLine := s.questionLine.erase (q, c) }.setCall c (freeCall (s.call c))).wake
      [.caller c]
  | none => s.direct (.permitAnswer q)

def write (s : Machine) (w : Store.Write) : Machine :=
  { s with store := s.store.write w }.time w.key 0

def apply (s : Machine) : Command → Machine
  | .submit items => s.begin (.submitting items false)
  | .evaluate => s.begin (.evaluating .opening)
  | .run => s.begin .entering
  | .stop => s.begin .stopping
  | .release => s.begin .releasing
  | .advance millis => s.advance millis
  | .unhold job => s.unhold job
  | .unholdAnswer q => s.unholdAnswer q
  | .shutdown => s.signalShutdown
  | .write w => s.write w
  | .storeFails on => { s with storeFails := on }
  | .change x => s.direct (.change x)

def perform (s : Machine) (c : Command) : Machine := (s.apply c).settle

end Machine

end Autoscaling
