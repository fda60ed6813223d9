import Autoscaling.Policy.Basic
import Autoscaling.Recorder

namespace Autoscaling

abbrev Store := PolicySet

namespace Store

def empty : Store := Dict.empty

inductive Write
  | putJob (job : String) (groups : JobPolicies)
  | putGroup (job group : String) (p : Policy)
  | deleteGroup (job group : String)
  | deleteJob (job : String)
deriving DecidableEq

inductive Query
  | all
  | job (job : String)
  | group (job group : String)
deriving DecidableEq

inductive Answer
  | all (jobs : PolicySet)
  | job (groups : Option JobPolicies)
  | group (p : Option Policy)
deriving DecidableEq

def write (s : Store) : Write → Store
  | .putJob job groups => s.insert job groups
  | .putGroup job group p => s.insert job (((s.get? job).getD ∅).insert group p)
  | .deleteGroup job group =>
    match s.get? job with
    | none => s
    | some groups => s.insert job (groups.erase group)
  | .deleteJob job => s.erase job

def ask (s : Store) : Query → Answer
  | .all => .all s
  | .job job => .job (s.get? job)
  | .group job group => .group ((s.get? job).bind (·.get? group))

def Write.job : Write → String
  | .putJob job _ | .putGroup job _ _ | .deleteGroup job _ | .deleteJob job => job

def Write.revise : Write → Option JobPolicies → Option JobPolicies
  | .putJob _ groups, _ => some groups
  | .putGroup _ group p, before => some ((before.getD ∅).insert group p)
  | .deleteGroup _ group, before => before.map (·.erase group)
  | .deleteJob _, _ => none

theorem get?_write_self (s : Store) (w : Write) :
    (s.write w).get? w.job = w.revise (s.get? w.job) := by
  cases w with
  | deleteGroup job group =>
    cases found : s.get? job <;> simp [write, Write.job, Write.revise, found]
  | _ => simp [write, Write.job, Write.revise]

theorem get?_write_of_ne (s : Store) {w : Write} {job : String} (ne : job ≠ w.job) :
    (s.write w).get? job = s.get? job := by
  cases w with
  | deleteGroup own group =>
    have ne : job ≠ own := ne
    cases found : s.get? own <;> simp [write, found, ne]
  | putJob own | putGroup own | deleteJob own =>
    have ne : job ≠ own := ne
    simp [write, ne]

theorem get?_write (s : Store) (w : Write) (job : String) :
    (s.write w).get? job = if job = w.job then w.revise (s.get? job) else s.get? job := by
  split
  · next eq => rw [eq, get?_write_self]
  · next ne => exact get?_write_of_ne s ne

def Write.key : Write → List String
  | .putJob .. => ["policy", "memory", "put_job_policy"]
  | .putGroup .. => ["policy", "memory", "put_job_group_policy"]
  | .deleteGroup .. => ["policy", "memory", "delete_job_group_policy"]
  | .deleteJob .. => ["policy", "memory", "delete_job_policy"]

def Query.key : Query → List String
  | .all => ["policy", "memory", "get_policies"]
  | .job .. => ["policy", "memory", "get_job_policy"]
  | .group .. => ["policy", "memory", "get_job_group_policy"]

structure Unavailable where
  reason : String
deriving DecidableEq

def Unavailable.message (e : Unavailable) : String := "policy backend unavailable: " ++ e.reason

end Store

end Autoscaling
