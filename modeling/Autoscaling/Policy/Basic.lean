import Autoscaling.Dict
import Autoscaling.Duration.Basic
import Autoscaling.Number.Binary64

namespace Autoscaling

structure Policy where
  enabled : Bool := true
  cooldown : Duration := .ofSeconds 180
  minCount : UInt32 := 2
  maxCount : UInt32 := 10
  scaleOutCount : UInt32 := 1
  scaleInCount : UInt32 := 1
  scaleOutCpu : Option Number.Binary64 := none
  scaleOutMemory : Option Number.Binary64 := none
  scaleInCpu : Option Number.Binary64 := none
  scaleInMemory : Option Number.Binary64 := none
deriving DecidableEq

abbrev JobPolicies := Dict Policy

abbrev PolicySet := Dict JobPolicies

namespace Policy

def default : Policy := {}

def withCooldown (d : Duration) : Policy := { cooldown := d }

def sameThreshold : Option Number.Binary64 → Option Number.Binary64 → Bool
  | none, none => true
  | some x, some y => x.same y
  | _, _ => false

def same (p q : Policy) : Bool :=
  p.enabled == q.enabled && p.cooldown == q.cooldown && p.minCount == q.minCount &&
    p.maxCount == q.maxCount && p.scaleOutCount == q.scaleOutCount &&
    p.scaleInCount == q.scaleInCount && sameThreshold p.scaleOutCpu q.scaleOutCpu &&
    sameThreshold p.scaleOutMemory q.scaleOutMemory && sameThreshold p.scaleInCpu q.scaleInCpu &&
    sameThreshold p.scaleInMemory q.scaleInMemory

end Policy

end Autoscaling
