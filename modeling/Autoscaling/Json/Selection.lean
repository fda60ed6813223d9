import Autoscaling.Json.Reader

/-!
Reading chosen members of an object. What the others hold is passed over: it has the form of a JSON
value, but its numbers may be too large, its surrogates may stand alone and it may nest as deep as
it likes.
-/

namespace Autoscaling.Json

namespace Reader

def passString : List Char → Option (List Char)
  | '"' :: s => some s
  | '\\' :: 'u' :: a :: b :: c :: d :: s =>
    if [a, b, c, d].all fun c => (hexDigit? c).isSome then passString s else none
  | '\\' :: c :: s => if (escaped? c).isSome then passString s else none
  | c :: s => if c.toNat < 0x20 then none else passString s
  | [] => none

mutual

def passValue : Nat → List Char → Option (List Char)
  | 0, _ => none
  | _ + 1, 'n' :: 'u' :: 'l' :: 'l' :: s => some s
  | _ + 1, 't' :: 'r' :: 'u' :: 'e' :: s => some s
  | _ + 1, 'f' :: 'a' :: 'l' :: 's' :: 'e' :: s => some s
  | _ + 1, '"' :: s => passString s
  | fuel + 1, '[' :: s =>
    match skip s with
    | ']' :: s => some s
    | s => passElements fuel s
  | fuel + 1, '{' :: s =>
    match skip s with
    | '}' :: s => some s
    | s => passMembers fuel s
  | _ + 1, '-' :: s => (numeral s).map Prod.snd
  | _ + 1, s => (numeral s).map Prod.snd

def passElements : Nat → List Char → Option (List Char)
  | 0, _ => none
  | fuel + 1, s => do
    match skip (← passValue fuel s) with
    | ',' :: s => passElements fuel (skip s)
    | ']' :: s => some s
    | _ => none

def passMembers : Nat → List Char → Option (List Char)
  | 0, _ => none
  | fuel + 1, '"' :: s => do
    match skip (← passString s) with
    | ':' :: s =>
      match skip (← passValue fuel (skip s)) with
      | ',' :: s => passMembers fuel (skip s)
      | '}' :: s => some s
      | _ => none
    | _ => none
  | _ + 1, _ => none

end

variable (convert : Conversion) (wanted : String → Bool)

def selectMember (fuel depth : Nat) (name : String) : Step (List (String × Json)) := fun s =>
  if wanted name then (value convert fuel depth s).map fun (x, s) => ([(name, x)], s)
  else (passValue fuel s).map fun s => ([], s)

def selectMembers : Nat → Nat → List Char → Option (List (String × Json) × List Char)
  | 0, _, _ => none
  | fuel + 1, depth, '"' :: s => do
    let (name, s) ← stringBody fuel [] s
    match skip s with
    | ':' :: s =>
      let (found, s) ← selectMember convert wanted fuel depth name (skip s)
      match skip s with
      | ',' :: s =>
        let (ms, s) ← selectMembers fuel depth (skip s)
        some (found ++ ms, s)
      | '}' :: s => some (found, s)
      | _ => none
    | _ => none
  | _ + 1, _, _ => none

def selection (s : List Char) : Option (List (String × Json)) := do
  let '{' :: rest := skip s | none
  let (ms, rest) ←
    match skip rest with
    | '}' :: rest => some ([], rest)
    | rest => selectMembers convert wanted (2 * s.length + 2) (nesting - 1) rest
  if (skip rest).isEmpty then some ms else none

end Reader

/-- The members with wanted names of the object that a text holds. -/
def select? (convert : Conversion) (wanted : String → Bool) (s : String) :
    Option (List (String × Json)) :=
  Reader.selection convert wanted s.toList

example : (select? .exact (· == "a")
    "\x7b\"a\":1, \"b\": [1e999, \"\\ud800\"]\x7d").map (·.map Prod.fst) = some ["a"] := by
  decide +kernel

end Autoscaling.Json
