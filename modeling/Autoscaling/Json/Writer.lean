import Autoscaling.Json.Basic

namespace Autoscaling.Json

def escape (c : Char) : List Char :=
  if c = '"' then ['\\', '"']
  else if c = '\\' then ['\\', '\\']
  else if c = '\n' then ['\\', 'n']
  else if c = '\r' then ['\\', 'r']
  else if c = '\t' then ['\\', 't']
  else if c.toNat < 0x20 then
    let code := Nat.toDigits 16 c.toNat
    '\\' :: 'u' :: List.replicate (4 - code.length) '0' ++ code
  else [c]

def writeString (s : String) : String :=
  "\"" ++ String.ofList (s.toList.flatMap escape) ++ "\""

mutual

def write : Json → String
  | .null => "null"
  | .boolean true => "true"
  | .boolean false => "false"
  | .integer n => toString n
  | .float x => floats.write x
  | .string s => writeString s
  | .array xs => "[" ++ writeElements xs ++ "]"
  | .object ms => "\x7b" ++ writeMembers ms ++ "\x7d"

def writeElements : List Json → String
  | [] => ""
  | [x] => write x
  | x :: xs => write x ++ "," ++ writeElements xs

def writeMembers : List (String × Json) → String
  | [] => ""
  | [(name, x)] => writeString name ++ ":" ++ write x
  | (name, x) :: ms => writeString name ++ ":" ++ write x ++ "," ++ writeMembers ms

end

section

variable (x y : Json) (xs : List Json) (m n : String × Json) (ms : List (String × Json))

@[simp] theorem write_null : write .null = "null" := rfl

@[simp] theorem write_boolean (b : Bool) :
    write (.boolean b) = if b then "true" else "false" := by cases b <;> rfl

@[simp] theorem write_integer (n : Int) : write (.integer n) = toString n := rfl

@[simp] theorem write_float (x : Number.Binary64) : write (.float x) = floats.write x := rfl

@[simp] theorem write_string (s : String) : write (.string s) = writeString s := rfl

@[simp] theorem write_array : write (.array xs) = "[" ++ writeElements xs ++ "]" := rfl

@[simp] theorem write_object : write (.object ms) = "\x7b" ++ writeMembers ms ++ "\x7d" := rfl

@[simp] theorem writeElements_singleton : writeElements [x] = write x := rfl

@[simp] theorem writeElements_cons_cons :
    writeElements (x :: y :: xs) = write x ++ "," ++ writeElements (y :: xs) := rfl

@[simp] theorem writeMembers_singleton :
    writeMembers [m] = writeString m.1 ++ ":" ++ write m.2 := rfl

@[simp] theorem writeMembers_cons_cons :
    writeMembers (m :: n :: ms) =
      writeString m.1 ++ ":" ++ write m.2 ++ "," ++ writeMembers (n :: ms) := rfl

end

end Autoscaling.Json
