import Autoscaling.Toml.Scalar

namespace Autoscaling.Toml.Reader

abbrev Step (α : Type) := List Char → Option (α × List Char)

def skipBlank (s : List Char) : List Char := s.dropWhile fun c => c == ' ' || c == '\t'

def isPlain (c : Char) : Bool := c == '\t' || (0x20 ≤ c.toNat && c.toNat != 0x7F)

def newline? : List Char → Option (List Char)
  | '\n' :: s => some s
  | '\r' :: '\n' :: s => some s
  | _ => none

def skipComment : List Char → List Char
  | '#' :: s => s.dropWhile isPlain
  | s => s

def lineEnd (s : List Char) : Option (List Char) :=
  match skipComment (skipBlank s) with
  | [] => some []
  | s => newline? s

def skipLines : Nat → List Char → List Char
  | 0, s => s
  | fuel + 1, s =>
    match newline? (skipComment (skipBlank s)) with
    | some s => skipLines fuel s
    | none => skipBlank s

def hexDigits? (s : List Char) : Option Nat :=
  if s.all (isDigitOf 16) then some (valueOf 16 s) else none

def codePoint (count : Nat) (s : List Char) : Option (Char × List Char) := do
  if s.length < count then none
  else
    let n ← hexDigits? (s.take count)
    if n < 0xD800 ∨ (0xE000 ≤ n ∧ n < 0x110000) then some (Char.ofNat n, s.drop count) else none

def escaped : Step Char
  | 'b' :: s => some ('\x08', s)
  | 't' :: s => some ('\t', s)
  | 'n' :: s => some ('\n', s)
  | 'f' :: s => some ('\x0c', s)
  | 'r' :: s => some ('\r', s)
  | '"' :: s => some ('"', s)
  | '\\' :: s => some ('\\', s)
  | 'u' :: s => codePoint 4 s
  | 'U' :: s => codePoint 8 s
  | _ => none

def basicBody : Nat → List Char → Step String
  | 0, _, _ => none
  | _ + 1, seen, '"' :: s => some (String.ofList seen.reverse, s)
  | fuel + 1, seen, '\\' :: s => do
    let (c, s) ← escaped s
    basicBody fuel (c :: seen) s
  | fuel + 1, seen, c :: s => if isPlain c then basicBody fuel (c :: seen) s else none
  | _ + 1, _, [] => none

def literalBody (s : List Char) : Option (String × List Char) :=
  match s.span fun c => c != '\'' && isPlain c with
  | (body, '\'' :: s) => some (String.ofList body, s)
  | _ => none

def dropGap : List Char → List Char
  | ' ' :: s => dropGap s
  | '\t' :: s => dropGap s
  | '\n' :: s => dropGap s
  | '\r' :: '\n' :: s => dropGap s
  | s => s

def continued? (s : List Char) : Option (List Char) := (newline? (skipBlank s)).map dropGap

/-- The rest of a string of several lines between triple quotes; up to two quotes may stand right
before the closing three. -/
def blockBody (quote : Char) (escapes : Bool) : Nat → List Char → Step String
  | 0, _, _ => none
  | _ + 1, _, [] => none
  | fuel + 1, seen, c :: s =>
    if c = quote then
      let run := min 5 ((c :: s).takeWhile (· == quote)).length
      if 3 ≤ run then
        some (String.ofList (List.replicate (run - 3) quote ++ seen).reverse, (c :: s).drop run)
      else blockBody quote escapes fuel (c :: seen) s
    else if escapes && c == '\\' then
      match continued? s with
      | some s => blockBody quote escapes fuel seen s
      | none => do
        let (e, s) ← escaped s
        blockBody quote escapes fuel (e :: seen) s
    else match newline? (c :: s) with
      | some s => blockBody quote escapes fuel ('\n' :: seen) s
      | none => if isPlain c then blockBody quote escapes fuel (c :: seen) s else none

def block (quote : Char) (escapes : Bool) (s : List Char) : Option (String × List Char) :=
  blockBody quote escapes (s.length + 1) [] ((newline? s).getD s)

def string? : List Char → Option (String × List Char)
  | '"' :: '"' :: '"' :: s => block '"' true s
  | '\'' :: '\'' :: '\'' :: s => block '\'' false s
  | '"' :: s => basicBody (s.length + 1) [] s
  | '\'' :: s => literalBody s
  | _ => none

def isBare (c : Char) : Bool := c.isAlphanum || c == '_' || c == '-'

def name : Step String
  | '"' :: s => basicBody (s.length + 1) [] s
  | '\'' :: s => literalBody s
  | s =>
    match s.span isBare with
    | ([], _) => none
    | (bare, s) => some (String.ofList bare, s)

def names : Nat → Step (List String)
  | 0, _ => none
  | fuel + 1, s => do
    let (n, s) ← name (skipBlank s)
    match skipBlank s with
    | '.' :: s =>
      let (ns, s) ← names fuel s
      some (n :: ns, s)
    | s => some ([n], s)

def keyParts : Nat := 79

def key (s : List Char) : Option ((List String × String) × List Char) := do
  let (ns, s) ← names keyParts s
  let n ← ns.getLast?
  some ((ns.dropLast, n), s)

def scalar (s : List Char) : Option (Toml × List Char) := do
  let (run, rest) := s.span isScalarChar
  let x ← scalar? run
  match rest with
  | ' ' :: later =>
    let (time, later) := later.span isScalarChar
    if isDate run && isTimeWithOffset time then some (.moment, later) else some (x, rest)
  | rest => some (x, rest)

def nesting : Nat := 79

mutual

def value : Nat → Nat → Step Toml
  | 0, _, _ => none
  | fuel + 1, depth, '[' :: s =>
    if depth = 0 then none
    else match skipLines s.length s with
      | ']' :: s => some (.array [], s)
      | s => (elements fuel (depth - 1) s).map fun (xs, s) => (.array xs, s)
  | fuel + 1, depth, '\x7b' :: s =>
    if depth = 0 then none
    else match skipBlank s with
      | '\x7d' :: s => some (.inline [], s)
      | s => (members fuel (depth - 1) [] s).map fun (ms, s) => (.inline ms, s)
  | _ + 1, _, s =>
    match s with
    | '"' :: _ => (string? s).map fun (x, s) => (.string x, s)
    | '\'' :: _ => (string? s).map fun (x, s) => (.string x, s)
    | s => scalar s

def elements : Nat → Nat → Step (List Toml)
  | 0, _, _ => none
  | fuel + 1, depth, s => do
    let (x, s) ← value fuel depth s
    match skipLines s.length s with
    | ',' :: s =>
      match skipLines s.length s with
      | ']' :: s => some ([x], s)
      | s => (elements fuel depth s).map fun (xs, s) => (x :: xs, s)
    | ']' :: s => some ([x], s)
    | _ => none

def members : Nat → Nat → Members → Step Members
  | 0, _, _, _ => none
  | fuel + 1, depth, seen, s => do
    let ((path, n), s) ← key s
    match s with
    | '=' :: s =>
      let (x, s) ← value fuel depth (skipBlank s)
      let seen ← define path n x seen
      match skipBlank s with
      | ',' :: s => members fuel depth seen s
      | '\x7d' :: s => some (seen, s)
      | _ => none
    | _ => none

end

/-- The lines from here on, below the header that was opened last. -/
def lines : Nat → List String → Members → List Char → Option Members
  | 0, _, _, _ => none
  | fuel + 1, header, root, s =>
    match skipBlank s with
    | [] => some root
    | '[' :: '[' :: s => do
      let ((path, n), s) ← key s
      match s with
      | ']' :: ']' :: s => lines fuel (path ++ [n]) (← openRow path n root) (← lineEnd s)
      | _ => none
    | '[' :: s => do
      let ((path, n), s) ← key s
      match s with
      | ']' :: s => lines fuel (path ++ [n]) (← openTable path n root) (← lineEnd s)
      | _ => none
    | c :: s => do
      if c == '#' || c == '\n' || c == '\r' then lines fuel header root (← lineEnd (c :: s))
      else
        let ((path, n), s) ← key (c :: s)
        match s with
        | '=' :: s =>
          let (x, s) ← value (2 * s.length + 2) nesting (skipBlank s)
          lines fuel header (← defineUnder header path n x root) (← lineEnd s)
        | _ => none

def document (s : List Char) : Option Members :=
  let s := match s with
    | '\ufeff' :: s => s
    | s => s
  lines (s.length + 1) [] [] s

end Reader

def read? (s : String) : Option Members := Reader.document s.toList

end Autoscaling.Toml
