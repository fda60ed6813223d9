import Autoscaling.Toml.Basic

namespace Autoscaling.Toml

def isScalarChar (c : Char) : Bool :=
  c.isAlphanum || c == '+' || c == '-' || c == '_' || c == '.' || c == ':'

def ungroup (isDigit : Char → Bool) : List Char → Option (List Char)
  | [] => none
  | [c] => if isDigit c then some [c] else none
  | c :: '_' :: rest => if isDigit c then (ungroup isDigit rest).map (c :: ·) else none
  | c :: rest => if isDigit c then (ungroup isDigit rest).map (c :: ·) else none

def digitValue (c : Char) : Nat :=
  if c.isDigit then c.toNat - '0'.toNat else c.toLower.toNat - 'a'.toNat + 10

def isDigitOf (base : Nat) (c : Char) : Bool :=
  (c.isDigit || ('a' ≤ c.toLower && c.toLower ≤ 'f')) && digitValue c < base

def valueOf (base : Nat) (s : List Char) : Nat := s.foldl (fun n c => n * base + digitValue c) 0

def word? (n : Int) : Option Int := if -2 ^ 63 ≤ n ∧ n < 2 ^ 63 then some n else none

def based? (base : Nat) (s : List Char) : Option Toml := do
  let ds ← ungroup (isDigitOf base) s
  (word? (valueOf base ds)).map .integer

def wholeDigits? (s : List Char) : Option (List Char) :=
  match ungroup Char.isDigit s with
  | some ['0'] => some ['0']
  | some ('0' :: _) => none
  | r => r

def signed : List Char → Bool × List Char
  | '-' :: s => (true, s)
  | '+' :: s => (false, s)
  | s => (false, s)

def decimal? (s : List Char) : Option Toml := do
  let (negative, s) := signed s
  let ds ← wholeDigits? s
  let n : Int := Nat.ofDigitChars 10 ds 0
  (word? (if negative then -n else n)).map .integer

def integer? : List Char → Option Toml
  | '0' :: 'x' :: s => based? 16 s
  | '0' :: 'o' :: s => based? 8 s
  | '0' :: 'b' :: s => based? 2 s
  | s => decimal? s

def power? (s : List Char) : Option Int := do
  let (negative, s) := signed s
  let ds ← ungroup Char.isDigit s
  let n : Int := Nat.ofDigitChars 10 ds 0
  some (if negative then -n else n)

def isGrouped (c : Char) : Bool := c.isDigit || c == '_'

/-- A number with places, with a power of ten or with both; only below zero may it overflow. -/
def float? (s : List Char) : Option Toml := do
  let (negative, s) := signed s
  if s = ['i', 'n', 'f'] then
    some (.float (.infinite negative))
  else if s = ['n', 'a', 'n'] then
    some (.float ⟨negative, Number.Binary64.infinity + 2 ^ 51, by decide⟩)
  else
    let (whole, s) := s.span isGrouped
    let ws ← wholeDigits? whole
    let (places, power) := match s with
      | '.' :: s => (some (s.takeWhile isGrouped), s.dropWhile isGrouped)
      | s => (none, s)
    let ps ← match places with
      | none => some []
      | some ps => ungroup Char.isDigit ps
    let e ← match power with
      | [] => if places.isSome then some 0 else none
      | c :: s => if c = 'e' ∨ c = 'E' then power? s else none
    let x := Number.Binary64.ofDecimal negative (Nat.ofDigitChars 10 (ws ++ ps) 0) (e - ps.length)
    if x.isFinite || negative then some (.float x) else none

def two? (low high : Nat) (a b : Char) : Option Nat :=
  if a.isDigit && b.isDigit then
    let n := Nat.ofDigitChars 10 [a, b] 0
    if low ≤ n ∧ n ≤ high then some n else none
  else none

def daysOf (year month : Nat) : Nat :=
  if month = 2 then
    if year % 4 = 0 ∧ (year % 100 ≠ 0 ∨ year % 400 = 0) then 29 else 28
  else if month = 4 ∨ month = 6 ∨ month = 9 ∨ month = 11 then 30
  else 31

def date? : List Char → Option (List Char)
  | a :: b :: c :: d :: '-' :: e :: f :: '-' :: g :: h :: rest => do
    let month ← two? 1 12 e f
    let _ ← two? 1 (daysOf (Nat.ofDigitChars 10 [a, b, c, d] 0) month) g h
    if [a, b, c, d].all Char.isDigit then some rest else none
  | _ => none

/-- Reads a time of day; sixty seconds make a leap second. -/
def time? : List Char → Option (List Char)
  | a :: b :: ':' :: c :: d :: ':' :: e :: f :: rest => do
    let _ ← two? 0 23 a b
    let _ ← two? 0 59 c d
    let _ ← two? 0 60 e f
    match rest with
    | '.' :: rest =>
      match rest.span Char.isDigit with
      | ([], _) => none
      | (_, rest) => some rest
    | rest => some rest
  | _ => none

def isOffset : List Char → Bool
  | [] => true
  | ['Z'] => true
  | ['z'] => true
  | [s, a, b, ':', c, d] =>
    (s == '+' || s == '-') && (two? 0 23 a b).isSome && (two? 0 59 c d).isSome
  | _ => false

def isTimeWithOffset (s : List Char) : Bool := ((time? s).map isOffset).getD false

def isDate (s : List Char) : Bool := date? s == some []

def moment? (s : List Char) : Option Toml :=
  let valid := match date? s with
    | some [] => true
    | some (c :: s) => (c == 'T' || c == 't') && isTimeWithOffset s
    | none => time? s == some []
  if valid then some .moment else none

def scalar? (s : List Char) : Option Toml :=
  if s = ['t', 'r', 'u', 'e'] then some (.boolean true)
  else if s = ['f', 'a', 'l', 's', 'e'] then some (.boolean false)
  else (integer? s <|> float? s) <|> moment? s

end Autoscaling.Toml
