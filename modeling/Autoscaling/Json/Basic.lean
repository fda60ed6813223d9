import Autoscaling.Number.Shortest
import Autoscaling.Text.Quoted

/-! JSON values. Members keep their order and may repeat a name. -/

namespace Autoscaling

inductive Json
  | null
  | boolean (b : Bool)
  | integer (n : Int)
  | float (x : Number.Binary64)
  | string (s : String)
  | array (elements : List Json)
  | object (members : List (String × Json))

namespace Json

/-- Doubles stand in their places from 0.00001 up to, but not including, 10^16; the last digit of
a tie is even. -/
def floats : Number.FloatStyle := ⟨.even, fun e => -5 ≤ e && e < 16⟩

def member? (name : String) : Json → Option Json
  | .object members => members.lookup name
  | _ => none

end Json

end Autoscaling
