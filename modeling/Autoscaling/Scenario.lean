import Autoscaling.Dict
import Autoscaling.History

namespace Autoscaling

inductive Behaviour
  | instant
  | takes (millis : Nat)
  /-- Waits for a permit. -/
  | held
  | panics
deriving DecidableEq

abbrev Member := String × String

instance : LawfulBEq Member := inferInstance

inductive Query
  | deployment
  | cooldown
deriving DecidableEq

abbrev Question := Query × Member

instance : LawfulBEq Question := inferInstance

structure Scenario where
  behaviours : Dict Behaviour := ∅
  records : Bool := false
  deploying : List Member := []
  undetermined : List Member := []
  history : History := ∅
  /-- Questions whose answers wait for a permit. -/
  heldQuestions : List Question := []
  permits : List String := []
  questionPermits : List Question := []
deriving DecidableEq

namespace Scenario

def behaviour (s : Scenario) (job : String) : Behaviour := (s.behaviours.get? job).getD .instant

def toggle {α : Type} [DecidableEq α] (l : List α) (x : α) (on : Bool) : List α :=
  if on then x :: l.filter (· ≠ x) else l.filter (· ≠ x)

def permit (job : String) (s : Scenario) : Scenario := { s with permits := s.permits ++ [job] }

def permitAnswer (q : Question) (s : Scenario) : Scenario :=
  { s with questionPermits := s.questionPermits ++ [q] }

def spend (job : String) (s : Scenario) : Scenario := { s with permits := s.permits.erase job }

def spendAnswer (q : Question) (s : Scenario) : Scenario :=
  { s with questionPermits := s.questionPermits.erase q }

def recordScale (m : Member) (t : Time) (s : Scenario) : Scenario :=
  { s with history := s.history.record m.1 m.2 t }

def recordAll (job : String) (groups : List String) (t : Time) (s : Scenario) : Scenario :=
  groups.foldl (fun s group => s.recordScale (job, group) t) s

inductive Change
  | deploying (m : Member) (on : Bool)
  | undetermined (m : Member) (on : Bool)
  | hold (q : Question) (on : Bool)
  | recordScale (m : Member) (t : Time)
  | forgetJob (job : String)
deriving DecidableEq

def change (x : Change) (s : Scenario) : Scenario :=
  match x with
  | .deploying m on => { s with deploying := toggle s.deploying m on }
  | .undetermined m on => { s with undetermined := toggle s.undetermined m on }
  | .hold q on => { s with heldQuestions := toggle s.heldQuestions q on }
  | .recordScale m t => s.recordScale m t
  | .forgetJob job => { s with history := s.history.forgetJob job }

/-- The group cools down, or nobody can say that it does not. -/
def coolsDown (s : Scenario) (m : Member) (cooldown : Duration) (now : Time) : Bool :=
  m ∈ s.undetermined || s.history.inCooldown m.1 m.2 cooldown now

def objects (s : Scenario) (q : Query) (m : Member) (cooldown : Duration) (now : Time) : Bool :=
  match q with
  | .deployment => m ∈ s.deploying
  | .cooldown => s.coolsDown m cooldown now

end Scenario

end Autoscaling
