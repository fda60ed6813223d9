import Autoscaling.Number.Fixed
import Autoscaling.Recorder

namespace Autoscaling

/-- The span in seconds as a double: whole seconds and the part below are rounded by themselves and
once more when they are added. -/
def Duration.seconds (d : Duration) : Number.Binary64 :=
  let whole := Number.Binary64.ofNat (d.nanos / 10 ^ 9)
  let part := Number.Binary64.ofUnits false (d.nanos % 10 ^ 9 * Number.Binary64.one) (10 ^ 9)
  .ofUnits false (Number.Binary64.units whole.magnitude + Number.Binary64.units part.magnitude) 1

namespace Exposition

inductive Series
  | calls
  | seconds
  | slowest

namespace Series

def all : List Series := [.calls, .seconds, .slowest]

def name : Series → String
  | .calls => "warpgrid_operation_calls_total"
  | .seconds => "warpgrid_operation_seconds_total"
  | .slowest => "warpgrid_operation_max_seconds"

def help : Series → String
  | .calls => "Completed calls per operation."
  | .seconds => "Cumulative time spent per operation."
  | .slowest => "Slowest observed call per operation."

def kind : Series → String
  | .calls => "counter"
  | .seconds => "counter"
  | .slowest => "gauge"

def sixPlaces (d : Duration) : String := String.ofList (Number.fixed 6 d.seconds.magnitude)

def sample : Series → OperationTiming → String
  | .calls, t => toString t.count.toNat
  | .seconds, t => sixPlaces t.total
  | .slowest, t => sixPlaces t.max

def line (s : Series) (t : OperationTiming) : String :=
  s.name ++ "\x7boperation=\"" ++ t.operation ++ "\"\x7d " ++ s.sample t ++ "\n"

def render (s : Series) (timings : List OperationTiming) : String :=
  "# HELP " ++ s.name ++ " " ++ s.help ++ "\n# TYPE " ++ s.name ++ " " ++ s.kind ++ "\n" ++
    String.join (timings.map s.line)

end Series

def render (timings : List OperationTiming) : String :=
  String.join (Series.all.map (·.render timings))

end Exposition

end Autoscaling
