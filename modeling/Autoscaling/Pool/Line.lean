import Autoscaling.Pool.Submission

namespace Autoscaling.Pool

/-- Deadlines have no bound here: sums that a clock of 64-bit seconds cannot hold, which take an
expiry of some 2^63 seconds, are left out. -/
def listen (p : Pool) (w now : Nat) : Pool :=
  { p.setWorker w (.idle (now + p.expiry)) with idle := p.idle ++ [w] }

def leaveLine (p : Pool) (w : Nat) : Pool × List Agent :=
  let p' := { p with idle := p.idle.erase w }
  (p', if p.idle.head? = some w then p'.firstIdle else [])

def exit (p : Pool) (w : Nat) : Pool := { p.setWorker w .exited with live := p.live - 1 }

inductive Reception
  | item (i : WorkItem)
  | leaves
  | nothing
deriving DecidableEq

/-- The first in line takes an item or sees that none will come; a worker whose time is up leaves
the line and, if nobody else is in it, looks once more. As nothing comes between its two looks, the
second finds no item: whoever is alone in line is the first and has taken it. -/
def reception (p : Pool) (w now deadline : Nat) : Reception :=
  match p.idle.head? == some w, p.queue with
  | true, i :: _ => .item i
  | first, queue =>
    if first && p.closed then .leaves
    else if deadline ≤ now then
      match (p.idle.erase w).isEmpty, queue with
      | true, i :: _ => .item i
      | _, _ => .leaves
    else .nothing

def receive (p : Pool) (w now deadline : Nat) : Pool × List Agent × Reception :=
  let r := p.reception w now deadline
  match r with
  | .item i =>
    let (p, woken) := p.leaveLine w
    ({ p.setWorker w (.holding i) with queue := p.queue.tail }, woken, r)
  | .leaves =>
    let (p, woken) := p.leaveLine w
    (p.exit w, woken, r)
  | .nothing => (p, [], r)

inductive Reason
  | shutdown
  | malformed (m : WorkItem.Malformed)
deriving DecidableEq

def reason? (item : WorkItem) (shutdown : Bool) : Option Reason :=
  if shutdown then some .shutdown else item.fault?.map .malformed

def complete (p : Pool) (w : Nat) : Pool × List Agent := (p.setWorker w .resting).freeSlot

def dispatch (p : Pool) (w : Nat) (item : WorkItem) (shutdown : Bool) :
    Pool × List Agent × Option Reason :=
  match reason? item shutdown with
  | some r =>
    let (p, woken) := p.complete w
    (p, woken, some r)
  | none => (p.setWorker w (.evaluating item .spawned), [.evaluation w], none)

end Autoscaling.Pool
