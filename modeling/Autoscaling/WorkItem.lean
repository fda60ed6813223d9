import Autoscaling.Policy.Basic

namespace Autoscaling

structure WorkItem where
  job : String
  policies : JobPolicies
  /-- The pass that made the item; passes are counted by their reads. -/
  pass : Nat := 0
deriving DecidableEq

namespace WorkItem

inductive Malformed
  | noJob
  | noGroups
deriving DecidableEq

def Malformed.message : Malformed → String
  | .noJob => "work item has an empty job id"
  | .noGroups => "work item carries no group policies"

def fault? (i : WorkItem) : Option Malformed :=
  if i.job = "" then some .noJob
  else if i.policies.isEmpty then some .noGroups
  else none

end WorkItem

end Autoscaling
