import Autoscaling.Number.Binary64

namespace Autoscaling.Number

def placed (places n : Nat) : List Char :=
  let fraction := Nat.toDigits 10 (n % 10 ^ places)
  Nat.toDigits 10 (n / 10 ^ places) ++
    '.' :: List.replicate (places - fraction.length) '0' ++ fraction

/-- The value of a finite magnitude to so many places; a half goes to the even digit. -/
def fixed (places magnitude : Nat) : List Char :=
  placed places (nearest .even (Binary64.units magnitude * 10 ^ places) Binary64.one)

end Autoscaling.Number
