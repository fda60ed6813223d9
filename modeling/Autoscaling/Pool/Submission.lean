import Autoscaling.Pool.Basic

namespace Autoscaling.Pool

def grantFirst : List Submission → Option (Nat × List Submission)
  | [] => none
  | s :: rest =>
    if s.stage = .waiting then some (s.caller, { s with stage := .granted } :: rest)
    else (grantFirst rest).map fun (c, rest) => (c, s :: rest)

/-- A slot goes to the first in line, if there is one; a released pool has no line. -/
def freeSlot (p : Pool) : Pool × List Agent :=
  match if p.released then none else grantFirst p.submissions with
  | some (c, submissions) => ({ p with submissions }, [.caller c])
  | none => ({ p with free := p.free + 1 }, [])

inductive Turn
  | goOn
  | wait
  | accepted
  | refused
deriving DecidableEq

def submission? (p : Pool) (c : Nat) : Option Submission :=
  p.submissions.find? (·.caller = c)

def setStage (p : Pool) (s : Submission) (stage : Stage) : Pool :=
  { p with submissions := p.submissions.replace s { s with stage } }

def leave (p : Pool) (s : Submission) : Pool × List Agent :=
  let p := { p with submissions := p.submissions.erase s }
  (p, if p.closed then p.firstIdle else [])

def enter (p : Pool) (c : Nat) (item : WorkItem) : Pool × Turn :=
  if p.released then (p, .refused)
  else if 0 < p.free then
    ({ p with free := p.free - 1, submissions := p.submissions ++ [⟨c, item, .holding⟩] }, .goOn)
  else ({ p with submissions := p.submissions ++ [⟨c, item, .waiting⟩] }, .wait)

/-- Makes a worker when fewer live than slots are taken. -/
def spawnIfNeeded (p : Pool) : Pool × List Agent :=
  if p.released || p.inFlight ≤ p.live || p.capacity ≤ p.live then (p, [])
  else
    let w := p.workers.length
    ({ p with
        live := p.live + 1
        workers := p.workers ++ [.resting]
        handles := p.handles.filter (p.worker · ≠ .exited) ++ [w] },
      [.worker w])

def proceed (p : Pool) (s : Submission) : Pool × List Agent × Turn :=
  match s.stage with
  | .waiting =>
    if p.released then
      let (p, woken) := p.leave s
      (p, woken, .refused)
    else (p, [], .wait)
  | .granted =>
    if p.released then
      let (p, freed) := p.freeSlot
      let (p, woken) := p.leave s
      (p, freed ++ woken, .refused)
    else (p.setStage s .holding, [], .goOn)
  | .holding =>
    ({ p.setStage s .queued with queue := p.queue ++ [s.item] }, p.firstIdle, .goOn)
  | .queued =>
    let (p, spawned) := p.spawnIfNeeded
    let (p, woken) := p.leave s
    (p, spawned ++ woken, .accepted)

def submit (p : Pool) (c : Nat) (item : WorkItem) (entered : Bool) :
    Pool × List Agent × Turn :=
  if entered then
    match p.submission? c with
    | some s => p.proceed s
    | none => (p, [], .refused)
  else
    let (p, turn) := p.enter c item
    (p, [], turn)

/-- From now on nothing is accepted; those in line for slots learn it, and so does the worker at the
queue if nothing more can come. A later release only finds that no worker is left to wait for. -/
def release (p : Pool) : Pool × List Agent :=
  let p' := { p with released := true, handles := [] }
  if p.released then (p', [])
  else
    let inLine := (p.submissions.filter (·.stage = .waiting)).map (Agent.caller ·.caller)
    (p', inLine ++ if p'.closed then p'.firstIdle else [])

end Autoscaling.Pool
