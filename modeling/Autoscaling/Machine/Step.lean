import Autoscaling.Machine.Pass

namespace Autoscaling

/-- The tick after one that was due at `due` and is served at `now`, in nanoseconds. Up to five
milliseconds late the next tick follows by the period; later, ticks that have passed are left
out. -/
def nextTick (due now period : Nat) : Nat :=
  if due + 5 * 10 ^ 6 < now then now + period - (now - due) % period else due + period

namespace Machine

def joiners (s : Machine) (w : Nat) : List Agent := s.callers (Call.awaits w)

def stepWorker (s : Machine) (w : Nat) : Machine :=
  match s.pool.worker w with
  | .resting => { s with pool := s.pool.listen w s.now }
  | .idle deadline =>
    match s.pool.receive w s.now deadline with
    | (_, _, .nothing) => s.sleep (.worker w) deadline
    | (pool, woken, .item i) =>
      (({ s with pool }.cancel (.worker w)).wake woken).log (.taken i)
    | (pool, woken, .leaves) =>
      (({ s with pool }.cancel (.worker w)).wake (woken ++ s.joiners w)).wait
  | .holding i =>
    match s.pool.dispatch w i s.shutdown with
    | (pool, woken, some r) => ({ s with pool }.wake woken).log (.dropped i r)
    | (pool, woken, none) => ({ s with pool }.wake woken).wait
  | .finished _ =>
    let (pool, woken) := s.pool.complete w
    { s with pool }.wake woken
  | .evaluating .. | .exited => s.wait

def endEvaluation (s : Machine) (w : Nat) (i : WorkItem) : Machine :=
  (({ s with pool := s.pool.setWorker w (.finished i) }.cancel (.evaluation w)).wake
    [.worker w]).wait

def finishEvaluation (s : Machine) (w : Nat) (i : WorkItem) : Machine :=
  let s := s.log (.finished i)
  let s := if s.scenario.records then s.direct (.recordAll i.job i.policies.keys s.clock) else s
  s.endEvaluation w i

def setProgress (s : Machine) (w : Nat) (i : WorkItem) (p : Pool.Progress) : Machine :=
  { s with pool := s.pool.setWorker w (.evaluating i p) }

def stepEvaluation (s : Machine) (w : Nat) : Machine :=
  match s.pool.worker w with
  | .evaluating i .spawned =>
    let s := s.log (.started i)
    match s.scenario.behaviour i.job with
    | .instant => s.finishEvaluation w i
    | .takes millis => s.setProgress w i (.sleeping (s.now + millis))
    | .panics => (s.log (.panicked i)).endEvaluation w i
    | .held =>
      if i.job ∈ s.scenario.permits then (s.direct (.spend i.job)).finishEvaluation w i
      else
        ({ s with evaluationLine := s.evaluationLine ++ [(i.job, w)] }.setProgress w i .held).wait
  | .evaluating i (.sleeping wakeAt) =>
    if wakeAt ≤ s.now then s.finishEvaluation w i else s.sleep (.evaluation w) wakeAt
  | .evaluating i .freed => s.finishEvaluation w i
  | _ => s.wait

def stepSubmitter (s : Machine) (c : Nat) (items : List WorkItem) (entered : Bool) : Machine :=
  match items with
  | [] => (s.setCall c .returned).wait
  | i :: rest =>
    match s.submit c i entered with
    | (s, .goOn) => s.setCall c (.submitting items true)
    | (s, .wait) => (s.setCall c (.submitting items true)).wait
    | (s, .accepted) =>
      (s.setCall c (.submitting rest false)).log (.answered (.submit i.job true))
    | (s, .refused) =>
      (s.setCall c (.submitting rest false)).log (.answered (.submit i.job false))

def stepPass (s : Machine) (c : Nat) (stage : Pass.Stage) (within : Pass.Stage → Call)
    (ended : Machine → Outcome → Machine) : Machine :=
  match Pass.step s c stage with
  | (s, .goOn stage) => s.setCall c (within stage)
  | (s, .wait stage) => (s.setCall c (within stage)).wait
  | (s, .ended o) => ended s o

/-- The loop waits for a tick or for the shutdown, and minds the shutdown first. -/
def stepLoop (s : Machine) (c tick : Nat) : Machine :=
  if s.shutdown then
    ({ s with lifecycle := s.lifecycle.markLoopExited }.cancel (.caller c)).answer c .run
  else if tick ≤ s.nanos then
    ((s.cancel (.caller c)).log .ticked).setCall c
      (.ticking (nextTick tick s.nanos s.interval.nanos) .opening)
  else s.sleep (.caller c) (ceilMillis tick)

def loops (s : Machine) : List Agent := s.callers Call.isSelecting

/-- From now on no item is evaluated any more and no job visited; loops that wait learn it. -/
def signalShutdown (s : Machine) : Machine :=
  if s.shutdown then s else { s with shutdown := true }.wake s.loops

def beginRelease (s : Machine) (c : Nat) (stop : Bool) : Machine :=
  let (pool, woken) := s.pool.release
  ({ s with pool }.setCall c (.joining stop s.pool.handles)).wake woken

def stepCaller (s : Machine) (c : Nat) : Machine :=
  match s.call c with
  | .submitting items entered => s.stepSubmitter c items entered
  | .evaluating stage => s.stepPass c stage .evaluating fun s o => s.answer c (.evaluate o)
  | .entering =>
    match s.lifecycle.markRunning? with
    | none => s.answer c .run
    | some lifecycle => { s with lifecycle }.setCall c (.selecting (s.nanos + s.interval.nanos))
  | .selecting tick => s.stepLoop c tick
  | .ticking next stage =>
    s.stepPass c stage (.ticking next) fun s _ => s.setCall c (.selecting next)
  | .stopping =>
    match s.lifecycle.requestStop? with
    | none => s.answer c (.stop false)
    | some lifecycle =>
      ({ s with lifecycle }.setCall c .polling).signalShutdown
  | .polling =>
    if s.lifecycle.isDrained then s.beginRelease c true
    else s.setCall c (.sleeping (s.now + s.drainPoll.millis))
  | .sleeping wakeAt =>
    if wakeAt ≤ s.now then (s.cancel (.caller c)).setCall c .polling
    else s.sleep (.caller c) wakeAt
  | .releasing => s.beginRelease c false
  | .joining stop [] =>
    if stop then { s with lifecycle := s.lifecycle.markStopped }.answer c (.stop true)
    else s.answer c .release
  | .joining stop (w :: ws) =>
    if s.pool.worker w = .exited then s.setCall c (.joining stop ws) else s.wait
  | .returned => s.wait

def step (s : Machine) : Machine :=
  match s.ready.head? with
  | none => s
  | some (.worker w) => s.stepWorker w
  | some (.evaluation w) => s.stepEvaluation w
  | some (.caller c) => s.stepCaller c

end Machine

end Autoscaling
