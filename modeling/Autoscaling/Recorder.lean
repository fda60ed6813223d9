import Autoscaling.Duration.Basic
import Autoscaling.Table

namespace Autoscaling

structure Tally where
  count : UInt64
  total : UInt64
  max : UInt64
deriving DecidableEq

namespace Tally

def none : Tally := ⟨0, 0, 0⟩

def clip (d : Duration) : UInt64 := UInt64.ofNat (min d.nanos (2 ^ 64 - 1))

def record (t : Tally) (d : Duration) : Tally :=
  ⟨t.count + 1, t.total + clip d, if t.max < clip d then clip d else t.max⟩

end Tally

structure OperationTiming where
  operation : String
  count : UInt64
  total : Duration
  max : Duration
deriving DecidableEq

abbrev Recorder := Table String Tally

namespace Recorder

def empty : Recorder := Table.empty

def operation (key : List String) : String := ".".intercalate key

def record (r : Recorder) (key : List String) (d : Duration) : Recorder :=
  r.insert (operation key) (((r.get? (operation key)).getD Tally.none).record d)

def timing (name : String) (t : Tally) : OperationTiming :=
  ⟨name, t.count, .ofNanos t.total, .ofNanos t.max⟩

def stats (r : Recorder) (name : String) : Option OperationTiming :=
  (r.get? name).map (timing name)

def snapshot (r : Recorder) : List OperationTiming :=
  (r.entries.map fun (name, t) => timing name t).mergeSort fun a b => a.operation ≤ b.operation

end Recorder

end Autoscaling
