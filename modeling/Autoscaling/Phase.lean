/-!
The life of the scaling loop: it runs once at most, a stop is asked for once at most, and passes do
not overlap.
-/

namespace Autoscaling

inductive Phase
  | idle
  | running
  | draining
  | stopped
deriving DecidableEq

structure Lifecycle where
  phase : Phase := .idle
  loopActive : Bool := false
  inPass : Bool := false
deriving DecidableEq

namespace Lifecycle

def markRunning? (l : Lifecycle) : Option Lifecycle :=
  if l.phase = .idle then some { l with phase := .running, loopActive := true } else none

def markLoopExited (l : Lifecycle) : Lifecycle := { l with loopActive := false }

def requestStop? (l : Lifecycle) : Option Lifecycle :=
  match l.phase with
  | .idle | .running => some { l with phase := .draining }
  | .draining | .stopped => none

def markStopped (l : Lifecycle) : Lifecycle := { l with phase := .stopped, loopActive := false }

def beginPass? (l : Lifecycle) : Option Lifecycle :=
  if l.inPass then none else some { l with inPass := true }

def endPass (l : Lifecycle) : Lifecycle := { l with inPass := false }

def isDrained (l : Lifecycle) : Bool := !l.loopActive && !l.inPass

inductive Call
  | markRunning
  | markLoopExited
  | requestStop
  | markStopped
  | beginPass
  | endPass
deriving DecidableEq

def orRefuse (l : Lifecycle) : Option Lifecycle → Lifecycle × Option Bool
  | some l' => (l', some true)
  | none => (l, some false)

def call (l : Lifecycle) : Call → Lifecycle × Option Bool
  | .markRunning => l.orRefuse l.markRunning?
  | .markLoopExited => (l.markLoopExited, none)
  | .requestStop => l.orRefuse l.requestStop?
  | .markStopped => (l.markStopped, none)
  | .beginPass => l.orRefuse l.beginPass?
  | .endPass => (l.endPass, none)

end Lifecycle

end Autoscaling
