import Autoscaling.Number.Binary64

namespace Autoscaling

namespace Toml

inductive Origin
  | header
  | implied
  | dotted
deriving DecidableEq

end Toml

inductive Toml
  | boolean (b : Bool)
  | integer (n : Int)
  | float (x : Number.Binary64)
  | string (s : String)
  /-- Dates and times are checked and then forgotten. -/
  | moment
  | array (elements : List Toml)
  | inline (members : List (String × Toml))
  | table (origin : Toml.Origin) (members : List (String × Toml))
  | tables (rows : List (List (String × Toml)))

namespace Toml

abbrev Members := List (String × Toml)

def replace (name : String) (x : Toml) : Members → Members
  | [] => []
  | (n, y) :: rest => if n = name then (n, x) :: rest else (n, y) :: replace name x rest

abbrev Change := Bool → Members → Option Members

/-- Changes the table at the end of a path, making the tables that are missing on the way. Dotted
keys do not pass through a table that has a header of its own. -/
def change (f : Change) (dotted : Bool) : (here : Bool) → List String → Members → Option Members
  | here, [], ms => f here ms
  | _, name :: path, ms =>
    match ms.lookup name with
    | none => do
      let inner ← change f dotted dotted path []
      some (ms ++ [(name, .table (if dotted then .dotted else .implied) inner)])
    | some (.table origin inner) =>
      if dotted && origin == .header then none
      else do
        let inner ← change f dotted (origin == .dotted) path inner
        some (replace name (.table origin inner) ms)
    | some (.tables rows) =>
      match rows.reverse with
      | [] => none
      | last :: before => do
        let last ← change f dotted false path last
        some (replace name (.tables (last :: before).reverse) ms)
    | some _ => none

def define (path : List String) (name : String) (x : Toml) : Members → Option Members :=
  change (fun here ms =>
    if here == path.isEmpty then none
    else match ms.lookup name with
      | some _ => none
      | none => some (ms ++ [(name, x)])) (!path.isEmpty) false path

/-- Opens the table of a header; one that was only implied so far moves behind its neighbours. -/
def openTable (path : List String) (name : String) : Members → Option Members :=
  change (fun _ ms =>
    match ms.lookup name with
    | none => some (ms ++ [(name, .table .header [])])
    | some (.table .implied inner) =>
      some (ms.filter (·.1 != name) ++ [(name, .table .header inner)])
    | some _ => none) false false path

def openRow (path : List String) (name : String) : Members → Option Members :=
  change (fun _ ms =>
    match ms.lookup name with
    | none => some (ms ++ [(name, .tables [[]])])
    | some (.tables rows) => some (replace name (.tables (rows ++ [[]])) ms)
    | some _ => none) false false path

def defineUnder (header path : List String) (name : String) (x : Toml) : Members → Option Members :=
  change (fun _ => define path name x) false false header

end Toml

end Autoscaling
