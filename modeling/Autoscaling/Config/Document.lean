import Autoscaling.Config.Basic
import Autoscaling.Setting
import Autoscaling.Toml.Reader

/-!
Configurations as TOML. What is missing keeps its default; a name that is no setting's is refused.
-/

namespace Autoscaling

def Toml.setting : Toml → Setting
  | .boolean b => .boolean b
  | .integer n => .integer n
  | .float x => .float x
  | .string s => .text s
  | .moment => .mapping
  | .array _ => .sequence
  | .inline _ => .mapping
  | .table _ _ => .mapping
  | .tables _ => .sequence

def Toml.floats : Number.FloatStyle := ⟨.upper, fun _ => true⟩

namespace Config

def Field.assign (f : Field) (s : Setting) (c : Config) : Except Setting.Problem Config :=
  match f with
  | .scalingInterval => s.duration?.map fun x => { c with scalingInterval := x }
  | .scalingThreads => s.threads?.map fun x => { c with scalingThreads := x }
  | .workerExpiry => s.duration?.map fun x => { c with workerExpiry := x }
  | .drainPollInterval => s.duration?.map fun x => { c with drainPollInterval := x }

def assignMembers : Toml.Members → Config → Except Setting.Problem Config
  | [], c => .ok c
  | (name, x) :: rest, c =>
    match Field.ofName? name with
    | none => .error (.unknown name (Field.all.map Field.name))
    | some f => (f.assign x.setting c).bind (assignMembers rest)

inductive File
  | missing
  | directory
  | bytes (content : ByteArray)

inductive FileError
  | notFound
  | isDirectory
  | notUtf8
deriving DecidableEq

def FileError.message : FileError → String
  | .notFound => "No such file or directory (os error 2)"
  | .isDirectory => "Is a directory (os error 21)"
  | .notUtf8 => "stream did not contain valid UTF-8"

def File.text? : File → Except FileError String
  | .missing => .error .notFound
  | .directory => .error .isDirectory
  | .bytes content =>
    match String.fromUTF8? content with
    | some s => .ok s
    | none => .error .notUtf8

inductive ReadError
  | file (e : FileError)
  | notToml
  | problem (p : Setting.Problem)
  | invalid (e : Invalid)
deriving DecidableEq

/-- Nothing is said about a text that is not TOML. -/
def ReadError.message? : ReadError → Option String
  | .file e => some ("failed to read config file: " ++ e.message)
  | .notToml => none
  | .problem p => some (p.message Toml.floats)
  | .invalid e => some e.message

def read (s : String) : Except ReadError Config := do
  match Toml.read? s with
  | none => .error .notToml
  | some members =>
    let c ← (assignMembers members default).mapError .problem
    c.validate.mapError .invalid
    return c

def ofFile (f : File) : Except ReadError Config := do
  read (← f.text?.mapError .file)

end Config

end Autoscaling
