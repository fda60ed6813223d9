import Autoscaling.Json.Selection
import Autoscaling.Policy.Basic
import Autoscaling.Setting

/-!
Policies as JSON. A policy is an object, whose members are found by name, or an array, whose
elements follow the order of the fields; what is missing keeps its default. Names that are no
field's are passed over with what they hold.
-/

namespace Autoscaling

def Json.setting : Json → Setting
  | .null => .null
  | .boolean b => .boolean b
  | .integer n => .integer n
  | .float x => .float x
  | .string s => .text s
  | .array _ => .sequence
  | .object _ => .mapping

namespace Policy

inductive Field
  | enabled
  | cooldown
  | minCount
  | maxCount
  | scaleOutCount
  | scaleInCount
  | scaleOutCpu
  | scaleOutMemory
  | scaleInCpu
  | scaleInMemory
deriving DecidableEq

namespace Field

def all : List Field :=
  [.enabled, .cooldown, .minCount, .maxCount, .scaleOutCount, .scaleInCount, .scaleOutCpu,
    .scaleOutMemory, .scaleInCpu, .scaleInMemory]

def name : Field → String
  | .enabled => "enabled"
  | .cooldown => "cooldown"
  | .minCount => "min_count"
  | .maxCount => "max_count"
  | .scaleOutCount => "scale_out_count"
  | .scaleInCount => "scale_in_count"
  | .scaleOutCpu => "scale_out_cpu_percentage_threshold"
  | .scaleOutMemory => "scale_out_memory_percentage_threshold"
  | .scaleInCpu => "scale_in_cpu_percentage_threshold"
  | .scaleInMemory => "scale_in_memory_percentage_threshold"

theorem mem_all (f : Field) : f ∈ all := by cases f <;> decide

def ofName? (name : String) : Option Field := all.find? (·.name == name)

theorem ofName?_name (f : Field) : ofName? f.name = some f := by cases f <;> decide +kernel

def assign (f : Field) (s : Setting) (p : Policy) : Except Setting.Problem Policy :=
  match f with
  | .enabled => s.boolean?.map fun x => { p with enabled := x }
  | .cooldown => s.duration?.map fun x => { p with cooldown := x }
  | .minCount => s.count?.map fun x => { p with minCount := x }
  | .maxCount => s.count?.map fun x => { p with maxCount := x }
  | .scaleOutCount => s.count?.map fun x => { p with scaleOutCount := x }
  | .scaleInCount => s.count?.map fun x => { p with scaleInCount := x }
  | .scaleOutCpu => s.threshold?.map fun x => { p with scaleOutCpu := x }
  | .scaleOutMemory => s.threshold?.map fun x => { p with scaleOutMemory := x }
  | .scaleInCpu => s.threshold?.map fun x => { p with scaleInCpu := x }
  | .scaleInMemory => s.threshold?.map fun x => { p with scaleInMemory := x }

end Field

/-- Assigns members one after another; a field may be named once. -/
def assignMembers (seen : List Field) :
    List (String × Json) → Policy → Except Setting.Problem Policy
  | [], p => .ok p
  | (name, x) :: rest, p =>
    match Field.ofName? name with
    | none => assignMembers seen rest p
    | some f =>
      if f ∈ seen then .error (.repeated f.name)
      else (f.assign x.setting p).bind (assignMembers (f :: seen) rest)

def assignElements : List Field → List Json → Policy → Except Setting.Problem Policy
  | _, [], p => .ok p
  | [], _ :: _, _ => .error .surplus
  | f :: fs, x :: xs, p => (f.assign x.setting p).bind (assignElements fs xs)

def ofJson : Json → Except Setting.Problem Policy
  | .object members => assignMembers [] members default
  | .array elements => assignElements Field.all elements default
  | x => .error (.mismatch x.setting .policy)

inductive ReadError
  | notJson
  | problem (p : Setting.Problem)
deriving DecidableEq

/-- The policy of a text that is JSON but for what stands under names that are no field's. -/
def readSelected? (convert : Json.Conversion) (s : String) : Option Policy := do
  let members ← Json.select? convert (fun name => (Field.ofName? name).isSome) s
  (assignMembers [] members default).toOption

/-- A problem is told only of a text that is JSON in every part. -/
def read (convert : Json.Conversion) (s : String) : Except ReadError Policy :=
  match Json.read? convert s with
  | some x => (ofJson x).mapError .problem
  | none =>
    match readSelected? convert s with
    | some p => .ok p
    | none => .error .notJson

def thresholdMember (f : Field) : Option Number.Binary64 → List (String × Json)
  | none => []
  | some x => [(f.name, .float x)]

def toJson (p : Policy) : Json :=
  .object <|
    [(Field.enabled.name, .boolean p.enabled),
      (Field.cooldown.name, .string p.cooldown.write),
      (Field.minCount.name, .integer p.minCount.toNat),
      (Field.maxCount.name, .integer p.maxCount.toNat),
      (Field.scaleOutCount.name, .integer p.scaleOutCount.toNat),
      (Field.scaleInCount.name, .integer p.scaleInCount.toNat)] ++
    thresholdMember .scaleOutCpu p.scaleOutCpu ++
    thresholdMember .scaleOutMemory p.scaleOutMemory ++
    thresholdMember .scaleInCpu p.scaleInCpu ++
    thresholdMember .scaleInMemory p.scaleInMemory

end Policy

def JobPolicies.ofMembers (members : List (String × Json)) : Except Setting.Problem JobPolicies :=
  (Dict.ofList members).readAll Policy.ofJson

def JobPolicies.toJson (groups : JobPolicies) : Json :=
  .object (groups.entries.map fun (group, p) => (group, p.toJson))

def PolicySet.toJson (jobs : PolicySet) : Json :=
  .object (jobs.entries.map fun (job, groups) => (job, groups.toJson))

end Autoscaling
