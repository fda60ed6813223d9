import Autoscaling.Number.Nearest

/-!
Doubles. A finite magnitude is a whole multiple of 2^-1074, its `units`; magnitudes and their units
are ordered alike, so rounding is a matter of whole numbers.
-/

namespace Autoscaling.Number

/-- A double: its sign and the 63 bits below it. -/
structure Binary64 where
  negative : Bool
  magnitude : Nat
  bounded : magnitude < 2 ^ 63 := by decide
deriving DecidableEq

namespace Binary64

def infinity : Nat := 2047 * 2 ^ 52

def one : Nat := 2 ^ 1074

/-- The value of a finite magnitude in units of 2^-1074. -/
def units (m : Nat) : Nat :=
  if m < 2 ^ 52 then m else (2 ^ 52 + m % 2 ^ 52) * 2 ^ (m / 2 ^ 52 - 1)

/-- The magnitude nearest to `num / den` units; a tie goes to the even significand. -/
def nearestMagnitude (num den : Nat) : Nat :=
  let k := (num / den).log2 - 52
  k * 2 ^ 52 + nearest .even num (den * 2 ^ k)

def ofUnits (negative : Bool) (num den : Nat) : Binary64 :=
  ⟨negative, min (nearestMagnitude num den) infinity,
    Nat.lt_of_le_of_lt (Nat.min_le_right ..) (by decide)⟩

def ofNat (n : Nat) : Binary64 := ofUnits false (n * one) 1

def ofInt (n : Int) : Binary64 := ofUnits (n < 0) (n.natAbs * one) 1

def infinite (negative : Bool) : Binary64 := ⟨negative, infinity, by decide⟩

def ofDecimal (negative : Bool) (significand : Nat) (exponent : Int) : Binary64 :=
  let digits : Int := (Nat.toDigits 10 significand).length
  if significand = 0 ∨ digits + exponent < -330 then ⟨negative, 0, by decide⟩
  else if 330 < digits + exponent then infinite negative
  else ofUnits negative (significand * 10 ^ exponent.toNat * one) (10 ^ (-exponent).toNat)

def mul (x y : Binary64) : Binary64 :=
  ofUnits (x.negative != y.negative) (units x.magnitude * units y.magnitude) one

/-- The quotient of finite doubles, of which the second is not zero. -/
def div (x y : Binary64) : Binary64 :=
  ofUnits (x.negative != y.negative) (units x.magnitude * one) (units y.magnitude)

def isFinite (x : Binary64) : Bool := x.magnitude < infinity

def isNaN (x : Binary64) : Bool := infinity < x.magnitude

/-- Equality of numbers: zeros of either sign agree, what is not a number equals nothing. -/
def same (x y : Binary64) : Bool :=
  !x.isNaN && !y.isNaN && (x == y || (x.magnitude == 0 && y.magnitude == 0))

def bits (x : Binary64) : Nat := (if x.negative then 2 ^ 63 else 0) + x.magnitude

example : (ofNat 80).bits = 0x4054000000000000 := by decide +kernel
example : (ofDecimal false 5 (-324)).bits = 1 := by decide +kernel
example : (ofDecimal true 25 (-1)).bits = 0xC004000000000000 := by decide +kernel
example : ((ofNat 1).div (ofNat 3)).mul (ofNat 3) = ofNat 1 := by decide +kernel

end Autoscaling.Number.Binary64
