import Autoscaling.Duration.Basic
import Autoscaling.Text.Blank
import Autoscaling.Text.Quoted

/-!
Durations as text: a whole number and a unit. A text without a unit counts seconds; a duration is
written in the largest unit that divides it.
-/

namespace Autoscaling.Duration

structure Invalid where
  text : String
deriving DecidableEq

def Invalid.message (e : Invalid) : String :=
  "invalid duration " ++ Text.quoted e.text ++
    ": expected e.g. \"500ms\", \"30s\", \"5m\", \"1h\""

/-- Parts a text into number and unit, the longer symbols first. -/
def splitUnit (s : List Char) : List Char × Unit :=
  match s.reverse with
  | 's' :: 'n' :: rest => (rest.reverse, .nanosecond)
  | 's' :: 'm' :: rest => (rest.reverse, .millisecond)
  | 's' :: rest => (rest.reverse, .second)
  | 'm' :: rest => (rest.reverse, .minute)
  | 'h' :: rest => (rest.reverse, .hour)
  | _ => (s, .second)

def digits? (s : List Char) : Option Nat :=
  if !s.isEmpty && s.all Char.isDigit then some (Nat.ofDigitChars 10 s 0) else none

def number? : List Char → Option Nat
  | '+' :: s => digits? s
  | s => digits? s

def word? (n : Nat) : Option UInt64 := if n < 2 ^ 64 then some (UInt64.ofNat n) else none

/-- Reads a text that has been trimmed. The number has to fit a word, and so has what it counts. -/
def trimmed? (s : List Char) : Option Duration := do
  let (number, unit) := splitUnit s
  let n ← number? (Text.trim number)
  let n ← word? n
  let nanos ← word? (n.toNat * unit.nanos)
  return ofNanos nanos

def read (s : String) : Except Invalid Duration :=
  let t := Text.trim s.toList
  match trimmed? t with
  | some d => .ok d
  | none => .error ⟨String.ofList t⟩

def parts (d : Duration) : Nat × Unit :=
  if d.subsecNanos = 0 then
    if d.secs % 3600 = 0 then (d.secs / 3600, .hour)
    else if d.secs % 60 = 0 then (d.secs / 60, .minute)
    else (d.secs, .second)
  else if d.nanos % 10 ^ 6 = 0 then (d.nanos / 10 ^ 6, .millisecond)
  else (d.nanos, .nanosecond)

def write (d : Duration) : String :=
  if d.nanos = 0 then "0s"
  else String.ofList (Nat.toDigits 10 d.parts.1 ++ d.parts.2.symbol)

end Autoscaling.Duration
