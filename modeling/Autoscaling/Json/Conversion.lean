import Autoscaling.Json.Basic

/-!
From the digits of a number to a double. The readers take the conversion as a parameter. The exact
one rounds once. The one in steps rounds the significand, the power of ten and what comes of the
two, and may miss the nearest double.
-/

namespace Autoscaling.Json

open Number

/-- A number without its sign: the whole digits, then the places and the power of ten if the text
gives either. -/
structure Numeral where
  whole : List Char
  places : List Char
  power : Option Int

/-- The double for a numeral with or without a minus sign, infinite if it is out of range. -/
abbrev Conversion := Bool → Numeral → Binary64

namespace Conversion

def exact : Conversion := fun negative n =>
  .ofDecimal negative (Nat.ofDigitChars 10 (n.whole ++ n.places) 0)
    (n.power.getD 0 - n.places.length)

/-- Reads on while the significand fits 64 bits; with the digits that are left. -/
def absorb (significand : Nat) : List Char → Nat × List Char
  | [] => (significand, [])
  | c :: cs =>
    let next := 10 * significand + (c.toNat - '0'.toNat)
    if next < 2 ^ 64 then absorb next cs else (significand, c :: cs)

def powerOfTen (k : Nat) : Binary64 := .ofDecimal false 1 k

/-- Divides by 10^308 until nothing is left, at most so often. -/
def shrink : Nat → Binary64 → Binary64
  | 0, x => x
  | k + 1, x => if x.magnitude = 0 then x else shrink k (x.div (powerOfTen 308))

/-- The powers of ten up to 308 are at hand. -/
def scale (x : Binary64) : Int → Binary64
  | .ofNat k =>
    if k ≤ 308 then x.mul (powerOfTen k)
    else if x.magnitude = 0 then x
    else .infinite false
  | .negSucc k => (shrink (k / 308) x).div (powerOfTen (k % 308 + 1))

def stepwise : Conversion := fun negative n =>
  let (significand, more) := absorb 0 n.whole
  let (significand, dropped) := absorb significand n.places
  let exponent := n.power.getD 0 + more.length - (n.places.length - dropped.length : Nat)
  { scale (.ofNat significand) exponent with negative }

/-- Whole numbers of 64 bits, with or without sign, are integers; all else is a double, which must
be finite. Minus zero is a double. -/
def value (convert : Conversion) (negative : Bool) (n : Numeral) : Option Json :=
  let x := convert negative n
  let float := if x.isFinite then some (Json.float x) else none
  if n.places.isEmpty && n.power.isNone then
    let whole := Nat.ofDigitChars 10 n.whole 0
    if negative then
      if 0 < whole && whole ≤ 2 ^ 63 then some (.integer (-whole)) else float
    else if whole < 2 ^ 64 then some (.integer whole)
    else float
  else float

example : stepwise false ⟨['1'], [], some (-400)⟩ = exact false ⟨['1'], [], some (-400)⟩ := by
  decide +kernel

end Conversion

end Autoscaling.Json
