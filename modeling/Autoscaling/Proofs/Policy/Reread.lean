import Autoscaling.Config.Document
import Autoscaling.Proofs.Json.Reread
import Autoscaling.Proofs.Policy.Members

namespace Autoscaling

open Number Json

theorem Number.Binary64.isFinite_ofInt {n : ℤ} (low : -2 ^ 63 ≤ n) (high : n < 2 ^ 64) :
    (ofInt n).isFinite = true := by
  have less : nearestMagnitude (n.natAbs * one) 1 < infinity :=
    nearestMagnitude_lt_infinity (by omega)
  exact decide_eq_true (Nat.lt_of_le_of_lt (Nat.min_le_left ..) less)

def Json.Conversion.reread? (convert : Conversion) (x : Binary64) : Option Binary64 :=
  match Json.read? convert (Json.float x).write with
  | some (.float y) => some y
  | _ => none

theorem Json.Conversion.reread?_eq (convert : Conversion) {x : Binary64}
    (finite : x.isFinite = true) : convert.reread? x = convert.back? x := by
  rw [reread?, read?_write (.float finite), mapFloats]
  cases convert.back? x <;> rfl

namespace Policy

def thresholds (p : Policy) : List Binary64 :=
  [p.scaleOutCpu, p.scaleOutMemory, p.scaleInCpu, p.scaleInMemory].filterMap id

def reread? (convert : Conversion) (p : Policy) : Option Policy := do
  let scaleOutCpu ← p.scaleOutCpu.mapM convert.reread?
  let scaleOutMemory ← p.scaleOutMemory.mapM convert.reread?
  let scaleInCpu ← p.scaleInCpu.mapM convert.reread?
  let scaleInMemory ← p.scaleInMemory.mapM convert.reread?
  some { p with scaleOutCpu, scaleOutMemory, scaleInCpu, scaleInMemory }

structure Finite (p : Policy) : Prop where
  scaleOutCpu : ∀ x ∈ p.scaleOutCpu, x.isFinite = true
  scaleOutMemory : ∀ x ∈ p.scaleOutMemory, x.isFinite = true
  scaleInCpu : ∀ x ∈ p.scaleInCpu, x.isFinite = true
  scaleInMemory : ∀ x ∈ p.scaleInMemory, x.isFinite = true

variable {convert : Conversion} {p q : Policy} {x : Json} {depth : Nat}

theorem finite_default : default.Finite := by
  constructor <;> exact fun _ mem => nomatch mem

theorem finite_of_threshold? {t : Option Binary64} (readable : Readable depth x)
    (read : x.setting.threshold? = .ok t) : ∀ y ∈ t, y.isFinite = true := by
  cases readable with
  | null =>
    cases read
    exact fun _ mem => nomatch mem
  | integer low high =>
    cases read
    rintro _ ⟨⟩
    exact Binary64.isFinite_ofInt low high
  | float finite =>
    cases read
    rintro _ ⟨⟩
    exact finite
  | boolean | string | array | object => cases read

theorem Finite.assign {f : Field} (finite : p.Finite) (readable : Readable depth x)
    (read : f.assign x.setting p = .ok q) : q.Finite := by
  obtain ⟨outCpu, outMemory, inCpu, inMemory⟩ := finite
  cases f
  all_goals obtain ⟨y, value, rfl⟩ := exists_of_map_eq_ok read
  case scaleOutCpu => exact ⟨finite_of_threshold? readable value, outMemory, inCpu, inMemory⟩
  case scaleOutMemory => exact ⟨outCpu, finite_of_threshold? readable value, inCpu, inMemory⟩
  case scaleInCpu => exact ⟨outCpu, outMemory, finite_of_threshold? readable value, inMemory⟩
  case scaleInMemory => exact ⟨outCpu, outMemory, inCpu, finite_of_threshold? readable value⟩
  all_goals exact ⟨outCpu, outMemory, inCpu, inMemory⟩

theorem Finite.assignMembers {seen : List Field} {members : List (String × Json)}
    (finite : p.Finite) (readable : ∀ m ∈ members, Readable depth m.2)
    (read : assignMembers seen members p = .ok q) : q.Finite := by
  induction members generalizing seen p with
  | nil =>
    cases read
    exact finite
  | cons member members ih =>
    obtain ⟨here, later⟩ := List.forall_mem_cons.1 readable
    rw [Policy.assignMembers] at read
    split at read
    · exact ih finite later read
    · split at read
      · cases read
      · obtain ⟨p', first, read⟩ := exists_of_bind_eq_ok read
        exact ih (finite.assign here first) later read

theorem Finite.assignElements {fields : List Field} {elements : List Json} (finite : p.Finite)
    (readable : ∀ x ∈ elements, Readable depth x)
    (read : assignElements fields elements p = .ok q) : q.Finite := by
  induction elements generalizing fields p with
  | nil =>
    cases fields
    all_goals
      cases read
      exact finite
  | cons x elements ih =>
    obtain ⟨here, later⟩ := List.forall_mem_cons.1 readable
    cases fields with
    | nil => cases read
    | cons f fields =>
      obtain ⟨p', first, read⟩ := exists_of_bind_eq_ok read
      exact ih (finite.assign here first) later read

theorem finite_of_ofJson (readable : Readable depth x) (read : ofJson x = .ok p) : p.Finite := by
  cases readable with
  | array all => exact finite_default.assignElements all read
  | object all => exact finite_default.assignMembers all read
  | null | boolean | integer | float | string => cases read

theorem finite_of_read {s : String} (accepted : read convert s = .ok p) : p.Finite := by
  unfold read at accepted
  split at accepted
  · next x json =>
    exact finite_of_ofJson (readable_of_read? json) (eq_ok_of_mapError_eq_ok accepted)
  · split at accepted
    · next p' selected =>
      cases accepted
      obtain ⟨members, found, assigned⟩ := Option.bind_eq_some_iff.1 selected
      exact finite_default.assignMembers (readable_of_select? found)
        (eq_ok_of_toOption_eq_some assigned)
    · cases accepted

theorem sameThreshold_self {t : Option Binary64} (finite : ∀ x ∈ t, x.isFinite = true) :
    sameThreshold t t = true := by
  cases t with
  | none => rfl
  | some x =>
    have less : x.magnitude < Binary64.infinity := of_decide_eq_true (finite x rfl)
    have number : x.isNaN = false := decide_eq_false (Nat.lt_asymm less)
    simp [sameThreshold, Binary64.same, number]

theorem Finite.same_self (finite : p.Finite) : p.same p = true := by
  simp [same, sameThreshold_self finite.scaleOutCpu, sameThreshold_self finite.scaleOutMemory,
    sameThreshold_self finite.scaleInCpu, sameThreshold_self finite.scaleInMemory]

theorem readable_threshold {f : Field} {t : Option Binary64} (finite : ∀ x ∈ t, x.isFinite = true) :
    ∀ m ∈ threshold f t, Readable depth m.2 := by
  cases t with
  | none => exact fun _ mem => nomatch mem
  | some x => exact List.forall_mem_singleton.2 (.float (finite x rfl))

theorem readable_count (n : UInt32) : Readable depth (.integer n.toNat) := by
  have := n.toNat_lt
  exact .integer (by omega) (by omega)

theorem Finite.readable_written (finite : p.Finite) : ∀ m ∈ p.written, Readable depth m.2 := by
  rw [written]
  simp only [List.forall_mem_append, List.forall_mem_cons]
  refine ⟨⟨⟨⟨⟨.boolean _, .string _, readable_count _, readable_count _, readable_count _,
    readable_count _, List.forall_mem_nil _⟩, ?_⟩, ?_⟩, ?_⟩, ?_⟩
  · exact readable_threshold finite.scaleOutCpu
  · exact readable_threshold finite.scaleOutMemory
  · exact readable_threshold finite.scaleInCpu
  · exact readable_threshold finite.scaleInMemory

theorem Finite.readable (finite : p.Finite) : Readable Reader.nesting p.toJson := by
  rw [toJson_eq]
  exact .object (List.forall_mem_map.2 finite.readable_written)

theorem mapMembers_append (f : Binary64 → Option Binary64) (ms ms' : List (String × Json)) :
    mapMembers f (ms ++ ms') =
      (mapMembers f ms).bind fun ms => (mapMembers f ms').map (ms ++ ·) := by
  induction ms with
  | nil =>
    rw [List.nil_append, mapMembers]
    cases mapMembers f ms' <;> rfl
  | cons m ms ih =>
    rw [List.cons_append, mapMembers, mapMembers, ih]
    cases mapFloats f m.2 with
    | none => rfl
    | some x =>
      cases mapMembers f ms with
      | none => rfl
      | some ms => cases mapMembers f ms' <;> rfl

theorem mapMembers_threshold (f : Field) {t : Option Binary64}
    (finite : ∀ x ∈ t, x.isFinite = true) :
    mapMembers convert.back? (thresholdMember f t) =
      (t.mapM convert.reread?).map (thresholdMember f) := by
  cases t with
  | none => rfl
  | some x =>
    rw [thresholdMember, Option.mapM_some, convert.reread?_eq (finite x rfl), mapMembers, mapFloats]
    cases convert.back? x <;> rfl

theorem Finite.mapFloats_toJson (finite : p.Finite) (convert : Conversion) :
    p.toJson.mapFloats convert.back? = (p.reread? convert).map toJson := by
  rw [toJson, mapFloats, mapMembers_append, mapMembers_append, mapMembers_append,
    mapMembers_append, mapMembers_threshold _ finite.scaleOutCpu,
    mapMembers_threshold _ finite.scaleOutMemory, mapMembers_threshold _ finite.scaleInCpu,
    mapMembers_threshold _ finite.scaleInMemory, reread?]
  cases p.scaleOutCpu.mapM convert.reread? with
  | none => rfl
  | some =>
    cases p.scaleOutMemory.mapM convert.reread? with
    | none => rfl
    | some =>
      cases p.scaleInCpu.mapM convert.reread? with
      | none => rfl
      | some => cases p.scaleInMemory.mapM convert.reread? <;> rfl

theorem Finite.readSelected?_write (finite : p.Finite) (lost : p.reread? convert = none) :
    readSelected? convert p.toJson.write = none := by
  have tree := finite.mapFloats_toJson convert
  have readable : ∀ m ∈ p.written.map (fun e => (e.1.name, e.2)),
      Readable (Reader.nesting - 1) m.2 := List.forall_mem_map.2 finite.readable_written
  have chosen : ∀ m ∈ p.written.map (fun e => (e.1.name, e.2)),
      (Field.ofName? m.1).isSome = true :=
    List.forall_mem_map.2 fun e _ => by rw [e.1.ofName?_name]; rfl
  rw [lost, toJson_eq, mapFloats] at tree
  have some : p.written.map (fun e => (e.1.name, e.2)) ≠ [] := List.cons_ne_nil _ _
  have read : select? convert (fun name => (Field.ofName? name).isSome) _ = _ :=
    select?_write some readable chosen
  rw [readSelected?, toJson_eq, read, Option.map_eq_none_iff.1 tree]
  rfl

theorem cooldown_of_reread? (kept : p.reread? convert = some q) : q.cooldown = p.cooldown := by
  rw [reread?] at kept
  simp only [Option.bind_eq_bind, Option.bind_eq_some_iff, Option.some.injEq] at kept
  obtain ⟨_, -, _, -, _, -, _, -, rfl⟩ := kept
  rfl

theorem Finite.read_write (finite : p.Finite) : read convert p.toJson.write =
    match p.reread? convert with
    | none => .error .notJson
    | some q =>
      if p.cooldown.nanos < 2 ^ 64 then .ok q
      else .error (.problem (.duration ⟨p.cooldown.write⟩)) := by
  rw [read, read?_write finite.readable, finite.mapFloats_toJson]
  cases back : p.reread? convert with
  | none =>
    rw [Option.map_none, finite.readSelected?_write back]
  | some q =>
    rw [Option.map_some]
    dsimp only
    rw [ofJson_toJson, cooldown_of_reread? back]
    split <;> rfl

theorem mem_thresholds {x : Binary64} : x ∈ p.thresholds ↔ x ∈ p.scaleOutCpu ∨
    x ∈ p.scaleOutMemory ∨ x ∈ p.scaleInCpu ∨ x ∈ p.scaleInMemory := by
  simp [thresholds, eq_comm]

theorem reread?_of_thresholds (kept : ∀ x ∈ p.thresholds, convert.reread? x = some x) :
    p.reread? convert = some p := by
  have back {t : Option Binary64} (own : ∀ x ∈ t, x ∈ p.thresholds) :
      t.mapM convert.reread? = some t := by
    cases t with
    | none => rfl
    | some x =>
      rw [Option.mapM_some, kept x (own x rfl)]
      rfl
  have outCpu := back fun x own => mem_thresholds.2 (.inl own)
  have outMemory := back fun x own => mem_thresholds.2 (.inr (.inl own))
  have inCpu := back fun x own => mem_thresholds.2 (.inr (.inr (.inl own)))
  have inMemory := back fun x own => mem_thresholds.2 (.inr (.inr (.inr own)))
  rw [reread?, outCpu, outMemory, inCpu, inMemory]
  rfl

theorem Finite.of_mem_thresholds (finite : p.Finite) {x : Binary64} (mem : x ∈ p.thresholds) :
    x.isFinite = true := by
  rcases mem_thresholds.1 mem with own | own | own | own
  · exact finite.scaleOutCpu x own
  · exact finite.scaleOutMemory x own
  · exact finite.scaleInCpu x own
  · exact finite.scaleInMemory x own

end Policy

def Config.durations (c : Config) : List Duration :=
  [c.scalingInterval, c.workerExpiry, c.drainPollInterval]

structure Policy.Reread (convert : Conversion) (p : Policy) : Prop where
  same : p.same p = true
  read : Policy.read convert p.toJson.write =
    match p.reread? convert with
    | none => .error .notJson
    | some q =>
      if p.cooldown.nanos < 2 ^ 64 then .ok q
      else .error (.problem (.duration ⟨p.cooldown.write⟩))
  exact : convert = .exact → p.reread? convert = some p
  stepwise : convert = .stepwise → (∀ x ∈ p.thresholds, x.Short) → p.reread? convert = some p

/-- An accepted policy is read from its own text but for thresholds that the conversion does not
give back, and the durations of an accepted configuration are read from theirs, exactly if they
have fewer than 2^64 nanoseconds. -/
theorem reread_accepted (convert : Conversion) (s : String) :
    (∀ p, Policy.read convert s = .ok p → p.Reread convert) ∧
    (∀ c, Config.read s = .ok c → ∀ d ∈ c.durations,
      (Setting.text d.write).duration? =
        if d.nanos < 2 ^ 64 then .ok d else .error (.duration ⟨d.write⟩)) := by
  refine ⟨fun p accepted => ?_, fun c _ d _ => Policy.duration?_write d⟩
  have finite := Policy.finite_of_read accepted
  refine ⟨finite.same_self, finite.read_write, ?_, ?_⟩
  · rintro rfl
    refine Policy.reread?_of_thresholds fun x mem => ?_
    have finite := finite.of_mem_thresholds mem
    rw [Conversion.reread?_eq _ finite, Conversion.back?_exact finite]
  · rintro rfl short
    refine Policy.reread?_of_thresholds fun x mem => ?_
    have finite := finite.of_mem_thresholds mem
    rw [Conversion.reread?_eq _ finite, Conversion.back?_stepwise finite (short x mem)]

theorem reread_minuteAndHalf :
    let p := { Policy.withCooldown (.ofSeconds 90) with
      scaleOutCpu := some (.ofDecimal false 925 (-1)) }
    Policy.read .stepwise
      "\x7b\"cooldown\":90,\"scale_out_cpu_percentage_threshold\":92.5\x7d" = .ok p ∧
    Policy.read .stepwise p.toJson.write = .ok p ∧
    Config.read "worker_expiry = 90" = .ok { workerExpiry := .ofSeconds 90 } ∧
    (Setting.text (Duration.ofSeconds 90).write).duration? = .ok (.ofSeconds 90) := by
  intro p
  have policy : Policy.read .stepwise
      "\x7b\"cooldown\":90,\"scale_out_cpu_percentage_threshold\":92.5\x7d" = .ok p := by
    decide +kernel
  have config : Config.read "worker_expiry = 90" = .ok { workerExpiry := .ofSeconds 90 } := by
    decide +kernel
  obtain ⟨-, read, -, short⟩ := (reread_accepted .stepwise _).1 p policy
  rw [short rfl (by decide +kernel)] at read
  refine ⟨policy, read.trans ?_, config,
    ((reread_accepted .stepwise _).2 _ config (.ofSeconds 90) ?_).trans ?_⟩
  · exact if_pos (by decide)
  · exact List.mem_cons_of_mem _ List.mem_cons_self
  · exact if_pos (by decide)

/-- A second more than 2^64 - 1 nanoseconds hold is accepted as a number, and then refused as the
text that it is written as. -/
theorem refuses_longCooldown :
    Policy.read .stepwise "\x7b\"cooldown\":18446744074\x7d" =
      .ok (.withCooldown (.ofSeconds 18446744074)) ∧
    Policy.read .stepwise (Policy.withCooldown (.ofSeconds 18446744074)).toJson.write =
      .error (.problem (.duration ⟨"18446744074s"⟩)) ∧
    Config.read "worker_expiry = 18446744074" = .ok { workerExpiry := .ofSeconds 18446744074 } ∧
    (Setting.text (Duration.ofSeconds 18446744074).write).duration? =
      .error (.duration ⟨"18446744074s"⟩) := by
  decide +kernel

/-- The steps take 92.01895919572754 for the double that is written 92.01895919572755, and that text
for the next one. -/
theorem shifts_threshold :
    (Policy.read .stepwise "[true,60,1,2,1,1,92.01895919572754]").bind (fun p =>
      (Policy.read .stepwise p.toJson.write).map p.same) = .ok false ∧
    (Policy.read .exact "[true,60,1,2,1,1,92.01895919572754]").bind (fun p =>
      (Policy.read .exact p.toJson.write).map p.same) = .ok true := by
  decide +kernel

end Autoscaling
