import Autoscaling.Machine.Basic

/-!
Passes. A pass reads the store once, visits the jobs in ascending order and submits each job that
has a group which is neither deploying nor cooling down; the first group that is not safe ends the
check of its job.
-/

namespace Autoscaling

namespace Machine

def submit (s : Machine) (c : Nat) (i : WorkItem) (entered : Bool) : Machine × Pool.Turn :=
  let (pool, woken, turn) := s.pool.submit c i entered
  let s := { s with pool }.wake woken
  (match turn with
    | .accepted => s.log (.accepted i)
    | .refused => s.log (.refused i)
    | .goOn | .wait => s, turn)

def endPass (s : Machine) : Machine := { s with lifecycle := s.lifecycle.endPass }

end Machine

namespace Pass

inductive Turn
  | goOn (stage : Stage)
  | wait (stage : Stage)
  | ended (o : Outcome)

def timingKey : List String := ["autoscale", "evaluate_policies"]

def complete (p : Pass) (s : Machine) : Machine × Turn :=
  let s := if s.timed then s.time timingKey (s.now - p.began) else s
  (s.endPass, .ended (.completed p.report))

def decide (p : Pass) (c : Check) : Stage :=
  if c.safe then .submitting p ⟨c.job, c.groups, p.number⟩ false
  else .visiting { p with report := { p.report with gated := p.report.gated ++ [c.job] } }

def submitted (p : Pass) (job : String) : Pass :=
  { p with report := { p.report with submitted := p.report.submitted ++ [job] } }

def openStep (s : Machine) : Machine × Turn :=
  match s.lifecycle.beginPass? with
  | none => (s, .ended .skipped)
  | some lifecycle =>
    let s := { s with lifecycle, reads := s.reads + 1 }.log .read
    if s.storeFails then (s.endPass, .ended .fetchFailed)
    else
      let s := s.time Store.Query.all.key 0
      if s.store.isEmpty then (s.endPass, .ended .noPolicies)
      else (s, .goOn (.visiting { number := s.reads, began := s.now, rest := s.store.entries }))

def visitStep (s : Machine) (p : Pass) : Machine × Turn :=
  match p.rest with
  | [] => p.complete s
  | (job, groups) :: rest =>
    if s.shutdown then p.complete s
    else
      let report := { p.report with jobsEvaluated := p.report.jobsEvaluated + 1 }
      (s, .goOn (.checking .deployment { p with rest, report }
        { job, groups, left := groups.entries }))

def checkStep (s : Machine) (caller : Nat) (q : Query) (p : Pass) (c : Check) :
    Machine × Turn :=
  match c.left with
  | [] => (s, .goOn (p.decide c))
  | (group, policy) :: _ =>
    let question := (q, c.job, group)
    let s := s.log (q.asked c.job group policy.cooldown)
    if question ∉ s.scenario.heldQuestions then (s, .goOn (.answering q p c))
    else if question ∈ s.scenario.questionPermits then
      (s.direct (.spendAnswer question), .goOn (.answering q p c))
    else
      ({ s with questionLine := s.questionLine ++ [(question, caller)] }, .wait (.held q p c))

/-- A deployment ends the check of the job before it comes to the cooldown. -/
def answerStep (s : Machine) (q : Query) (p : Pass) (c : Check) : Machine × Turn :=
  match c.left with
  | [] => (s, .goOn (p.decide c))
  | (group, policy) :: left =>
    if s.scenario.objects q (c.job, group) policy.cooldown s.clock then (s, .goOn (p.decide c))
    else
      match q with
      | .deployment => (s, .goOn (.checking .cooldown p c))
      | .cooldown => (s, .goOn (.checking .deployment p { c with left, safe := true }))

def submitStep (s : Machine) (caller : Nat) (p : Pass) (i : WorkItem) (entered : Bool) :
    Machine × Turn :=
  match s.submit caller i entered with
  | (s, .goOn) => (s, .goOn (.submitting p i true))
  | (s, .wait) => (s, .wait (.submitting p i true))
  | (s, .accepted) => (s, .goOn (.visiting (p.submitted i.job)))
  | (s, .refused) => (s, .goOn (.visiting p))

def step (s : Machine) (caller : Nat) : Stage → Machine × Turn
  | .opening => openStep s
  | .visiting p => visitStep s p
  | .checking q p c => checkStep s caller q p c
  | .held q p c => (s, .wait (.held q p c))
  | .answering q p c => answerStep s q p c
  | .submitting p i entered => submitStep s caller p i entered

end Pass

end Autoscaling
