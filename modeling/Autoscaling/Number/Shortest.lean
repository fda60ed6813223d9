import Autoscaling.Number.Binary64

/-!
The shortest decimal that rounds to a given double, and of those the nearest to it. Two may be
equally near: 2^-25 lies half-way between 2.9802322387695312e-8 and 2.9802322387695313e-8.
-/

namespace Autoscaling.Number

structure Decimal where
  significand : Nat
  exponent : Int
deriving DecidableEq

namespace Decimal

def digits (d : Decimal) : List Char :=
  ((Nat.toDigits 10 d.significand).reverse.dropWhile (· == '0')).reverse

def leading (d : Decimal) : Int :=
  (Nat.toDigits 10 d.significand).length - 1 + d.exponent

/-- The decimals that round to the magnitude `m` fill an interval, ends included when `m` is even;
`c * 10 ^ p` is compared with its ends in units of 2^-1075. -/
def roundsTo (m c : Nat) (p : Int) : Bool :=
  let point := c * 10 ^ p.toNat * (2 * Binary64.one)
  let scale := 10 ^ (-p).toNat
  let low := (Binary64.units (m - 1) + Binary64.units m) * scale
  let high := (Binary64.units m + Binary64.units (m + 1)) * scale
  if m % 2 = 0 then low ≤ point && point ≤ high else low < point && point < high

/-- The neighbours of the magnitude `m` among the multiples of `10 ^ p`; the one that rounds to
`m`, if both do the nearer. -/
def onGrid (tie : Tie) (m : Nat) (p : Int) : Option Decimal :=
  let value := 2 * Binary64.units m * 10 ^ (-p).toNat
  let step := 10 ^ p.toNat * (2 * Binary64.one)
  let c := value / step
  match roundsTo m c p, roundsTo m (c + 1) p with
  | true, true => some ⟨nearest tie value step, p⟩
  | true, false => some ⟨c, p⟩
  | false, true => some ⟨c + 1, p⟩
  | false, false => none

def firstOnGrid (tie : Tie) (m : Nat) : Nat → Int → Option Decimal
  | 0, _ => none
  | tries + 1, p => (onGrid tie m p).orElse fun _ => firstOnGrid tie m tries (p - 1)

def order (m : Nat) : Int :=
  (Nat.toDigits 10 (Binary64.units m * 10 ^ 330 / Binary64.one)).length - 331

/-- Seventeen digits always suffice. -/
def shortest (tie : Tie) (m : Nat) : Decimal :=
  if m = 0 then ⟨0, 0⟩ else (firstOnGrid tie m 17 (order m)).getD ⟨0, 0⟩

end Decimal

/-- How a double is written: which of two equally near decimals, and the powers of ten of the first
digit for which the digits stand in their places; all others get an exponent with a sign. -/
structure FloatStyle where
  tie : Tie
  positional : Int → Bool

namespace FloatStyle

def zeros (n : Nat) : List Char := List.replicate n '0'

def positionalText (digits : List Char) (leading : Int) : List Char :=
  if leading < 0 then '0' :: '.' :: zeros (-leading - 1).toNat ++ digits
  else
    let whole := leading.toNat + 1
    if digits.length ≤ whole then digits ++ zeros (whole - digits.length) ++ ['.', '0']
    else digits.take whole ++ '.' :: digits.drop whole

def exponentText (digits : List Char) (leading : Int) : List Char :=
  digits.take 1 ++ (if digits.length ≤ 1 then [] else '.' :: digits.drop 1) ++
    'e' :: (if leading < 0 then '-' else '+') :: Nat.toDigits 10 leading.natAbs

def write (style : FloatStyle) (x : Binary64) : String :=
  if x.isNaN then "NaN"
  else
    let body :=
      if x.magnitude = Binary64.infinity then ['i', 'n', 'f']
      else if x.magnitude = 0 then ['0', '.', '0']
      else
        let d := Decimal.shortest style.tie x.magnitude
        if style.positional d.leading then positionalText d.digits d.leading
        else exponentText d.digits d.leading
    String.ofList (if x.negative then '-' :: body else body)

end FloatStyle

end Autoscaling.Number
