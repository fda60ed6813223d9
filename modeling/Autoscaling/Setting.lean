import Autoscaling.Duration.Text
import Autoscaling.Number.Shortest

namespace Autoscaling

inductive Setting
  | null
  | boolean (b : Bool)
  | integer (n : Int)
  | float (x : Number.Binary64)
  | text (s : String)
  | sequence
  | mapping
deriving DecidableEq

namespace Setting

inductive Wanted
  | boolean
  | count
  | threads
  | threshold
  | policy
deriving DecidableEq

def Wanted.name : Wanted → String
  | .boolean => "a boolean"
  | .count => "u32"
  | .threads => "usize"
  | .threshold => "f64"
  | .policy => "struct GroupScalingPolicy"

inductive Problem
  | mismatch (found : Setting) (wanted : Wanted)
  | outOfRange (n : Int) (wanted : Wanted)
  | noDuration
  | duration (e : Duration.Invalid)
  | repeated (name : String)
  | unknown (name : String) (known : List String)
  | surplus
deriving DecidableEq

def describe (floats : Number.FloatStyle) : Setting → String
  | .null => "null"
  | .boolean b => "boolean `" ++ (if b then "true" else "false") ++ "`"
  | .integer n => "integer `" ++ toString n ++ "`"
  | .float x => "floating point `" ++ floats.write x ++ "`"
  | .text s => "string " ++ Text.quoted s
  | .sequence => "sequence"
  | .mapping => "map"

/-- The style is that of the format that the document is in. -/
def Problem.message (floats : Number.FloatStyle) : Problem → String
  | .mismatch found wanted =>
    "invalid type: " ++ found.describe floats ++ ", expected " ++ wanted.name
  | .outOfRange n wanted =>
    "invalid value: integer `" ++ toString n ++ "`, expected " ++ wanted.name
  | .noDuration => "data did not match any variant of untagged enum Raw"
  | .duration e => e.message
  | .repeated name => "duplicate field `" ++ name ++ "`"
  | .unknown name known =>
    "unknown field `" ++ name ++ "`, expected one of " ++
      ", ".intercalate (known.map fun k => "`" ++ k ++ "`")
  | .surplus => "trailing characters"

def boolean? : Setting → Except Problem Bool
  | .boolean b => .ok b
  | s => .error (.mismatch s .boolean)

def count? : Setting → Except Problem UInt32
  | .integer n =>
    if 0 ≤ n ∧ n < 2 ^ 32 then .ok (UInt32.ofNat n.toNat) else .error (.outOfRange n .count)
  | s => .error (.mismatch s .count)

def threads? : Setting → Except Problem UInt64
  | .integer n =>
    if 0 ≤ n ∧ n < 2 ^ 64 then .ok (UInt64.ofNat n.toNat) else .error (.outOfRange n .threads)
  | s => .error (.mismatch s .threads)

def threshold? : Setting → Except Problem (Option Number.Binary64)
  | .null => .ok none
  | .integer n => .ok (some (.ofInt n))
  | .float x => .ok (some x)
  | s => .error (.mismatch s .threshold)

/-- A whole number of seconds, or a duration text. -/
def duration? : Setting → Except Problem Duration
  | .integer n =>
    if 0 ≤ n ∧ n < 2 ^ 64 then .ok (.ofSeconds (UInt64.ofNat n.toNat)) else .error .noDuration
  | .text s => (Duration.read s).mapError .duration
  | _ => .error .noDuration

end Setting

end Autoscaling
