import Autoscaling.Policy.Document
import Autoscaling.Proofs.Duration.Reread

namespace Autoscaling

variable {ε ε' α β : Type}

theorem exists_of_map_eq_ok {f : α → β} {x : Except ε α} {b : β} (eq : x.map f = .ok b) :
    ∃ a, x = .ok a ∧ f a = b := by
  cases x with
  | error => cases eq
  | ok a => exact ⟨a, rfl, Except.ok.inj eq⟩

theorem exists_of_bind_eq_ok {f : α → Except ε β} {x : Except ε α} {b : β}
    (eq : x.bind f = .ok b) : ∃ a, x = .ok a ∧ f a = .ok b := by
  cases x with
  | error => cases eq
  | ok a => exact ⟨a, rfl, eq⟩

theorem eq_ok_of_mapError_eq_ok {f : ε → ε'} {x : Except ε α} {a : α}
    (eq : x.mapError f = .ok a) : x = .ok a := by
  cases x with
  | error => cases eq
  | ok => exact congrArg _ (Except.ok.inj eq)

theorem eq_ok_of_toOption_eq_some {x : Except ε α} {a : α} (eq : x.toOption = some a) :
    x = .ok a := by
  cases x with
  | error => cases eq
  | ok => exact congrArg _ (Option.some.inj eq)

namespace Policy

open Number

variable {seen : List Field} {f : Field} {x : Json} {p q : Policy}

def known (members : List (String × Json)) : List (Field × Json) :=
  members.filterMap fun (name, x) => (Field.ofName? name).map (·, x)

def assignAll : List (Field × Json) → Policy → Except Setting.Problem Policy
  | [], p => .ok p
  | (f, x) :: rest, p => (f.assign x.setting p).bind (assignAll rest)

theorem assignMembers_eq {members : List (String × Json)}
    (once : ((known members).map Prod.fst).Nodup)
    (fresh : ∀ f ∈ (known members).map Prod.fst, f ∉ seen) (p : Policy) :
    assignMembers seen members p = assignAll (known members) p := by
  induction members generalizing seen p with
  | nil => rfl
  | cons member members ih =>
    obtain ⟨name, x⟩ := member
    cases field : Field.ofName? name with
    | none =>
      have skipped : known ((name, x) :: members) = known members := by simp [known, field]
      rw [skipped] at once fresh ⊢
      rw [assignMembers, field]
      exact ih once fresh p
    | some f =>
      have found : known ((name, x) :: members) = (f, x) :: known members := by simp [known, field]
      rw [found] at once fresh ⊢
      rw [List.map_cons] at once fresh
      obtain ⟨new, once⟩ := List.nodup_cons.1 once
      obtain ⟨unseen, fresh⟩ := List.forall_mem_cons.1 fresh
      have later : ∀ g ∈ (known members).map Prod.fst, g ∉ f :: seen := fun g mem =>
        List.not_mem_cons_of_ne_of_not_mem (fun eq => new (eq ▸ mem)) (fresh g mem)
      rw [assignMembers, field]
      dsimp only
      rw [if_neg unseen, assignAll]
      exact congrArg _ (funext fun p => ih once later p)

theorem assignAll_append (xs ys : List (Field × Json)) (p : Policy) :
    assignAll (xs ++ ys) p = (assignAll xs p).bind (assignAll ys) := by
  induction xs generalizing p with
  | nil => rfl
  | cons x xs ih =>
    rw [List.cons_append, assignAll, assignAll]
    cases x.1.assign x.2.setting p with
    | error e => rfl
    | ok p => exact ih p

theorem assignAll_append_of_ok {xs : List (Field × Json)} (first : assignAll xs p = .ok q)
    (ys : List (Field × Json)) : assignAll (xs ++ ys) p = assignAll ys q := by
  rw [assignAll_append, first]
  rfl

def threshold (f : Field) (x : Option Binary64) : List (Field × Json) :=
  (x.map fun x => (f, .float x)).toList

def written (p : Policy) : List (Field × Json) :=
  [(Field.enabled, Json.boolean p.enabled), (Field.cooldown, Json.string p.cooldown.write),
    (Field.minCount, Json.integer p.minCount.toNat), (Field.maxCount, Json.integer p.maxCount.toNat),
    (Field.scaleOutCount, Json.integer p.scaleOutCount.toNat),
    (Field.scaleInCount, Json.integer p.scaleInCount.toNat)] ++
  threshold .scaleOutCpu p.scaleOutCpu ++ threshold .scaleOutMemory p.scaleOutMemory ++
  threshold .scaleInCpu p.scaleInCpu ++ threshold .scaleInMemory p.scaleInMemory

theorem map_threshold (f : Field) (x : Option Binary64) :
    (threshold f x).map (fun e => (e.1.name, e.2)) = thresholdMember f x := by
  cases x <;> rfl

theorem toJson_eq (p : Policy) :
    p.toJson = .object (p.written.map fun e => (e.1.name, e.2)) := by
  simp only [toJson, written, List.map_append, map_threshold, List.map_cons, List.map_nil]

theorem known_map_name (members : List (Field × Json)) :
    known (members.map fun e => (e.1.name, e.2)) = members := by
  simp [known, List.filterMap_map, Field.ofName?_name]

theorem fields_threshold (f : Field) (x : Option Binary64) :
    ((threshold f x).map Prod.fst).Sublist [f] := by
  cases x with
  | none => exact List.nil_sublist [f]
  | some x => exact List.Sublist.refl [f]

theorem fields_written (p : Policy) : (p.written.map Prod.fst).Sublist Field.all := by
  have split : Field.all = Field.all.take 6 ++ [Field.scaleOutCpu] ++ [Field.scaleOutMemory] ++
      [Field.scaleInCpu] ++ [Field.scaleInMemory] := rfl
  rw [split, written, List.map_append, List.map_append, List.map_append, List.map_append]
  exact ((((List.Sublist.refl _).append (fields_threshold ..)).append
    (fields_threshold ..)).append (fields_threshold ..)).append (fields_threshold ..)

theorem ofJson_toJson_eq (p : Policy) : ofJson p.toJson = assignAll p.written default := by
  have once : (p.written.map Prod.fst).Nodup :=
    p.fields_written.nodup (by decide)
  rw [toJson_eq, ofJson, assignMembers_eq, known_map_name]
  · rwa [known_map_name]
  · exact fun _ _ => List.not_mem_nil

theorem count?_toNat (n : UInt32) : (Setting.integer n.toNat).count? = .ok n := by
  have fits : (0 : Int) ≤ n.toNat ∧ (n.toNat : Int) < 2 ^ 32 := by
    have := n.toNat_lt
    omega
  rw [Setting.count?, if_pos fits, Int.toNat_natCast, UInt32.ofNat_toNat]

theorem duration?_write (d : Duration) : (Setting.text d.write).duration? =
    if d.nanos < 2 ^ 64 then .ok d else .error (.duration ⟨d.write⟩) := by
  rw [Setting.duration?, d.read_write]
  split <;> rfl

theorem assignAll_threshold (put : Option Binary64 → Policy)
    (assign : ∀ x, f.assign (.float x) (put none) = .ok (put (some x))) (x : Option Binary64) :
    assignAll (threshold f x) (put none) = .ok (put x) := by
  cases x with
  | none => rfl
  | some x =>
    change (f.assign (.float x) (put none)).bind (assignAll []) = .ok (put (some x))
    rw [assign]
    rfl

theorem assignAll_written (p : Policy) : assignAll p.written default =
    if p.cooldown.nanos < 2 ^ 64 then .ok p else .error (.duration ⟨p.cooldown.write⟩) := by
  obtain ⟨enabled, cooldown, minCount, maxCount, scaleOutCount, scaleInCount, outCpu, outMemory,
    inCpu, inMemory⟩ := p
  have first : assignAll [(.enabled, .boolean enabled), (.cooldown, .string cooldown.write),
        (.minCount, .integer minCount.toNat), (.maxCount, .integer maxCount.toNat),
        (.scaleOutCount, .integer scaleOutCount.toNat),
        (.scaleInCount, .integer scaleInCount.toNat)] default =
      if cooldown.nanos < 2 ^ 64 then
        .ok ⟨enabled, cooldown, minCount, maxCount, scaleOutCount, scaleInCount,
          none, none, none, none⟩
      else .error (.duration ⟨cooldown.write⟩) := by
    simp only [assignAll, Field.assign, Json.setting, Setting.boolean?, count?_toNat,
      duration?_write]
    split <;> rfl
  let put := Policy.mk enabled cooldown minCount maxCount scaleOutCount scaleInCount
  have cpu := assignAll_threshold (f := .scaleOutCpu) (put · none none none) (fun _ => rfl) outCpu
  have memory :=
    assignAll_threshold (f := .scaleOutMemory) (put outCpu · none none) (fun _ => rfl) outMemory
  have cpu' :=
    assignAll_threshold (f := .scaleInCpu) (put outCpu outMemory · none) (fun _ => rfl) inCpu
  have memory' :=
    assignAll_threshold (f := .scaleInMemory) (put outCpu outMemory inCpu) (fun _ => rfl) inMemory
  by_cases short : cooldown.nanos < 2 ^ 64
  · rw [if_pos short] at first ⊢
    have out := (assignAll_append_of_ok first _).trans cpu
    have outs := (assignAll_append_of_ok out _).trans memory
    have more := (assignAll_append_of_ok outs _).trans cpu'
    exact (assignAll_append_of_ok more _).trans memory'
  · rw [if_neg short] at first ⊢
    simp only [written, assignAll_append, first]
    rfl

theorem ofJson_toJson (p : Policy) : ofJson p.toJson =
    if p.cooldown.nanos < 2 ^ 64 then .ok p else .error (.duration ⟨p.cooldown.write⟩) := by
  rw [ofJson_toJson_eq, assignAll_written]

end Policy

end Autoscaling
