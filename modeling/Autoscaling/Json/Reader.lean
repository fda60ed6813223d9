import Autoscaling.Json.Conversion

namespace Autoscaling.Json.Reader

abbrev Step (α : Type) := List Char → Option (α × List Char)

def skip (s : List Char) : List Char :=
  s.dropWhile fun c => c == ' ' || c == '\t' || c == '\n' || c == '\r'

def hexDigit? (c : Char) : Option Nat :=
  if c.isDigit then some (c.toNat - '0'.toNat)
  else if 'a' ≤ c && c ≤ 'f' then some (c.toNat - 'a'.toNat + 10)
  else if 'A' ≤ c && c ≤ 'F' then some (c.toNat - 'A'.toNat + 10)
  else none

def unit : Step Nat
  | a :: b :: c :: d :: rest => do
    let a ← hexDigit? a
    let b ← hexDigit? b
    let c ← hexDigit? c
    let d ← hexDigit? d
    some (((a * 16 + b) * 16 + c) * 16 + d, rest)
  | _ => none

/-- A UTF-16 unit after its mark; a leading surrogate needs a trailing one right behind it. -/
def codePoint (s : List Char) : Option (Char × List Char) := do
  let (high, rest) ← unit s
  if 0xDC00 ≤ high && high < 0xE000 then none
  else if 0xD800 ≤ high && high < 0xDC00 then
    match rest with
    | '\\' :: 'u' :: rest =>
      let (low, rest) ← unit rest
      if 0xDC00 ≤ low && low < 0xE000 then
        some (Char.ofNat (0x10000 + (high - 0xD800) * 0x400 + (low - 0xDC00)), rest)
      else none
    | _ => none
  else some (Char.ofNat high, rest)

def escaped? : Char → Option Char
  | '"' => some '"'
  | '\\' => some '\\'
  | '/' => some '/'
  | 'b' => some '\x08'
  | 'f' => some '\x0c'
  | 'n' => some '\n'
  | 'r' => some '\r'
  | 't' => some '\t'
  | _ => none

def stringBody : Nat → List Char → Step String
  | 0, _, _ => none
  | _ + 1, seen, '"' :: rest => some (String.ofList seen.reverse, rest)
  | fuel + 1, seen, '\\' :: 'u' :: rest => do
    let (c, rest) ← codePoint rest
    stringBody fuel (c :: seen) rest
  | fuel + 1, seen, '\\' :: c :: rest => do
    let c ← escaped? c
    stringBody fuel (c :: seen) rest
  | fuel + 1, seen, c :: rest =>
    if c.toNat < 0x20 then none else stringBody fuel (c :: seen) rest
  | _ + 1, _, [] => none

def digits (s : List Char) : List Char × List Char := s.span Char.isDigit

def digits1 (s : List Char) : Option (List Char × List Char) :=
  match digits s with
  | ([], _) => none
  | r => some r

def whole : Step (List Char)
  | '0' :: rest => if (rest.head?.map Char.isDigit).getD false then none else some (['0'], rest)
  | s => digits1 s

def places : Step (List Char)
  | '.' :: rest => digits1 rest
  | s => some ([], s)

def powerDigits (negative : Bool) (s : List Char) : Option (Option Int × List Char) := do
  let (ds, rest) ← digits1 s
  let n : Int := Nat.ofDigitChars 10 ds 0
  some (some (if negative then -n else n), rest)

def power : Step (Option Int)
  | c :: rest =>
    if c = 'e' ∨ c = 'E' then
      match rest with
      | '+' :: rest => powerDigits false rest
      | '-' :: rest => powerDigits true rest
      | rest => powerDigits false rest
    else some (none, c :: rest)
  | [] => some (none, [])

def numeral (s : List Char) : Option (Numeral × List Char) := do
  let (w, s) ← whole s
  let (p, s) ← places s
  let (e, s) ← power s
  some (⟨w, p, e⟩, s)

def number (convert : Conversion) : Step Json
  | '-' :: s => do
    let (n, s) ← numeral s
    some (← convert.value true n, s)
  | s => do
    let (n, s) ← numeral s
    some (← convert.value false n, s)

def nesting : Nat := 127

mutual

def value (convert : Conversion) : Nat → Nat → List Char → Option (Json × List Char)
  | 0, _, _ => none
  | _ + 1, _, 'n' :: 'u' :: 'l' :: 'l' :: s => some (.null, s)
  | _ + 1, _, 't' :: 'r' :: 'u' :: 'e' :: s => some (.boolean true, s)
  | _ + 1, _, 'f' :: 'a' :: 'l' :: 's' :: 'e' :: s => some (.boolean false, s)
  | fuel + 1, _, '"' :: s => (stringBody fuel [] s).map fun (x, s) => (.string x, s)
  | fuel + 1, depth, '[' :: s =>
    if depth = 0 then none
    else match skip s with
      | ']' :: s => some (.array [], s)
      | s => (elements convert fuel (depth - 1) s).map fun (xs, s) => (.array xs, s)
  | fuel + 1, depth, '{' :: s =>
    if depth = 0 then none
    else match skip s with
      | '}' :: s => some (.object [], s)
      | s => (members convert fuel (depth - 1) s).map fun (ms, s) => (.object ms, s)
  | _ + 1, _, s => number convert s

def elements (convert : Conversion) : Nat → Nat → List Char → Option (List Json × List Char)
  | 0, _, _ => none
  | fuel + 1, depth, s => do
    let (x, s) ← value convert fuel depth s
    match skip s with
    | ',' :: s =>
      let (xs, s) ← elements convert fuel depth (skip s)
      some (x :: xs, s)
    | ']' :: s => some ([x], s)
    | _ => none

def members (convert : Conversion) :
    Nat → Nat → List Char → Option (List (String × Json) × List Char)
  | 0, _, _ => none
  | fuel + 1, depth, '"' :: s => do
    let (name, s) ← stringBody fuel [] s
    match skip s with
    | ':' :: s =>
      let (x, s) ← value convert fuel depth (skip s)
      match skip s with
      | ',' :: s =>
        let (ms, s) ← members convert fuel depth (skip s)
        some ((name, x) :: ms, s)
      | '}' :: s => some ([(name, x)], s)
      | _ => none
    | _ => none
  | _ + 1, _, _ => none

end

/-- Each call reads a character or ends, so twice the length is fuel enough. -/
def document (convert : Conversion) (s : List Char) : Option Json := do
  let (x, s) ← value convert (2 * s.length + 2) nesting (skip s)
  if (skip s).isEmpty then some x else none

end Reader

def read? (convert : Conversion) (s : String) : Option Json := Reader.document convert s.toList

end Autoscaling.Json
