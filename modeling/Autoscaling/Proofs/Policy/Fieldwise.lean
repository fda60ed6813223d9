import Autoscaling.Proofs.Policy.Members

namespace Autoscaling.Policy

open Number

inductive Kind
  | flag
  | span
  | count
  | threshold

@[reducible] def Kind.Value : Kind → Type
  | .flag => Bool
  | .span => Duration
  | .count => UInt32
  | .threshold => Option Binary64

/-- What a JSON value means to a field of the kind; where it has no meaning it is not valid. -/
inductive Kind.Means : (k : Kind) → Json → k.Value → Prop
  | flag (b : Bool) : Means .flag (.boolean b) b
  | seconds (n : UInt64) : Means .span (.integer n.toNat) (.ofSeconds n)
  | text {s : String} {d : Duration} (read : Duration.read s = .ok d) : Means .span (.string s) d
  | count (n : UInt32) : Means .count (.integer n.toNat) n
  | absent : Means .threshold .null none
  | whole (n : Int) : Means .threshold (.integer n) (some (.ofInt n))
  | real (x : Binary64) : Means .threshold (.float x) (some x)

def Kind.read : (k : Kind) → Setting → Except Setting.Problem k.Value
  | .flag => Setting.boolean?
  | .span => Setting.duration?
  | .count => Setting.count?
  | .threshold => Setting.threshold?

def Field.kind : Field → Kind
  | .enabled => .flag
  | .cooldown => .span
  | .minCount | .maxCount | .scaleOutCount | .scaleInCount => .count
  | .scaleOutCpu | .scaleOutMemory | .scaleInCpu | .scaleInMemory => .threshold

variable {k : Kind} {f g : Field} {x : Json} {p q : Policy} {l : List (Field × Json)}
  {members : List (String × Json)} {elements : List Json}

theorem duration?_toNat (n : UInt64) :
    (Setting.integer n.toNat).duration? = .ok (.ofSeconds n) := by
  have fits : (0 : Int) ≤ n.toNat ∧ (n.toNat : Int) < 2 ^ 64 := by
    have := n.toNat_lt
    omega
  rw [Setting.duration?, if_pos fits, Int.toNat_natCast, UInt64.ofNat_toNat]

theorem exists_duration {n : Int} {d : Duration} (read : (Setting.integer n).duration? = .ok d) :
    ∃ m : UInt64, n = m.toNat ∧ d = .ofSeconds m := by
  rw [Setting.duration?] at read
  split at read
  · next fits =>
    cases read
    refine ⟨_, ?_, rfl⟩
    rw [UInt64.toNat_ofNat_of_lt' (by change n.toNat < 2 ^ 64; omega), Int.toNat_of_nonneg fits.1]
  · cases read

theorem exists_count {n : Int} {c : UInt32} (read : (Setting.integer n).count? = .ok c) :
    n = c.toNat := by
  rw [Setting.count?] at read
  split at read
  · next fits =>
    cases read
    rw [UInt32.toNat_ofNat_of_lt' (by change n.toNat < 2 ^ 32; omega), Int.toNat_of_nonneg fits.1]
  · cases read

theorem means_of_read {v : k.Value} (read : k.read x.setting = .ok v) : k.Means x v := by
  cases k with
  | flag =>
    cases x with
    | boolean =>
      cases read
      exact .flag _
    | null | integer | float | string | array | object => cases read
  | span =>
    cases x with
    | integer n =>
      obtain ⟨m, rfl, rfl⟩ := exists_duration read
      exact .seconds m
    | string s => exact .text (eq_ok_of_mapError_eq_ok read)
    | null | boolean | float | array | object => cases read
  | count =>
    cases x with
    | integer n =>
      obtain rfl := exists_count read
      exact .count v
    | null | boolean | float | string | array | object => cases read
  | threshold =>
    cases x with
    | null =>
      cases read
      exact .absent
    | integer n =>
      cases read
      exact .whole n
    | float x =>
      cases read
      exact .real x
    | boolean | string | array | object => cases read

theorem Kind.Means.read {v : k.Value} (means : k.Means x v) : k.read x.setting = .ok v := by
  cases means with
  | flag | absent | whole | real => rfl
  | seconds n => exact duration?_toNat n
  | text read =>
    simp only [Kind.read, Json.setting, Setting.duration?, read]
    rfl
  | count n => exact count?_toNat n

def get (p : Policy) : (f : Field) → f.kind.Value
  | .enabled => p.enabled
  | .cooldown => p.cooldown
  | .minCount => p.minCount
  | .maxCount => p.maxCount
  | .scaleOutCount => p.scaleOutCount
  | .scaleInCount => p.scaleInCount
  | .scaleOutCpu => p.scaleOutCpu
  | .scaleOutMemory => p.scaleOutMemory
  | .scaleInCpu => p.scaleInCpu
  | .scaleInMemory => p.scaleInMemory

def put (p : Policy) : (f : Field) → f.kind.Value → Policy
  | .enabled, v => { p with enabled := v }
  | .cooldown, v => { p with cooldown := v }
  | .minCount, v => { p with minCount := v }
  | .maxCount, v => { p with maxCount := v }
  | .scaleOutCount, v => { p with scaleOutCount := v }
  | .scaleInCount, v => { p with scaleInCount := v }
  | .scaleOutCpu, v => { p with scaleOutCpu := v }
  | .scaleOutMemory, v => { p with scaleOutMemory := v }
  | .scaleInCpu, v => { p with scaleInCpu := v }
  | .scaleInMemory, v => { p with scaleInMemory := v }

@[simp] theorem get_put (p : Policy) (f : Field) (v : f.kind.Value) : (p.put f v).get f = v := by
  cases f <;> rfl

theorem get_put_of_ne (p : Policy) (v : f.kind.Value) (ne : g ≠ f) :
    (p.put f v).get g = p.get g := by
  cases f <;> cases g <;> first | rfl | contradiction

theorem ext_get (same : ∀ f, p.get f = q.get f) : p = q := by
  cases p
  cases q
  rw [Policy.mk.injEq]
  exact ⟨same .enabled, same .cooldown, same .minCount, same .maxCount, same .scaleOutCount,
    same .scaleInCount, same .scaleOutCpu, same .scaleOutMemory, same .scaleInCpu,
    same .scaleInMemory⟩

theorem assign_eq (f : Field) (s : Setting) (p : Policy) :
    f.assign s p = (f.kind.read s).map (p.put f) := by
  cases f <;> rfl

theorem assign_eq_ok_iff :
    f.assign x.setting p = .ok q ↔ ∃ v, f.kind.Means x v ∧ p.put f v = q := by
  rw [assign_eq]
  constructor
  · intro ok
    obtain ⟨v, read, rfl⟩ := exists_of_map_eq_ok ok
    exact ⟨v, means_of_read read, rfl⟩
  · rintro ⟨v, means, rfl⟩
    rw [means.read]
    rfl

structure Assigned (l : List (Field × Json)) (p q : Policy) : Prop where
  given : ∀ f x, (f, x) ∈ l → f.kind.Means x (q.get f)
  kept : ∀ f, f ∉ l.map Prod.fst → q.get f = p.get f

theorem assigned_nil_iff : Assigned [] p q ↔ p = q := by
  constructor
  · exact fun assigned => ext_get fun f => (assigned.kept f List.not_mem_nil).symm
  · rintro rfl
    exact ⟨nofun, fun _ _ => rfl⟩

theorem assigned_cons_iff (new : f ∉ l.map Prod.fst) : Assigned ((f, x) :: l) p q ↔
    ∃ v, f.kind.Means x v ∧ Assigned l (p.put f v) q := by
  constructor
  · intro assigned
    refine ⟨q.get f, assigned.given f x List.mem_cons_self, ?_, ?_⟩
    · exact fun g y mem => assigned.given g y (List.mem_cons_of_mem _ mem)
    · intro g other
      by_cases same : g = f
      · subst same
        exact (get_put ..).symm
      · rw [get_put_of_ne _ _ same]
        exact assigned.kept g (List.not_mem_cons_of_ne_of_not_mem same other)
  · rintro ⟨v, means, given, kept⟩
    have own : q.get f = v := (kept f new).trans (get_put ..)
    constructor
    · intro g y mem
      rcases List.mem_cons.1 mem with eq | mem
      · cases eq
        exact own.symm ▸ means
      · exact given g y mem
    · intro g other
      obtain ⟨ne, other⟩ := List.ne_and_not_mem_of_not_mem_cons other
      rw [kept g other, get_put_of_ne _ _ ne]

theorem assignAll_eq_ok_iff (once : (l.map Prod.fst).Nodup) :
    assignAll l p = .ok q ↔ Assigned l p q := by
  induction l generalizing p with
  | nil => rw [assigned_nil_iff, assignAll, Except.ok.injEq]
  | cons e l ih =>
    obtain ⟨f, x⟩ := e
    obtain ⟨new, once⟩ := List.nodup_cons.1 once
    rw [assigned_cons_iff new, assignAll]
    constructor
    · intro ok
      obtain ⟨p', first, rest⟩ := exists_of_bind_eq_ok ok
      obtain ⟨v, means, rfl⟩ := assign_eq_ok_iff.1 first
      exact ⟨v, means, (ih once).1 rest⟩
    · rintro ⟨v, means, rest⟩
      rw [assign_eq_ok_iff.2 ⟨v, means, rfl⟩]
      exact (ih once).2 rest

theorem exists_assigned (once : (l.map Prod.fst).Nodup)
    (valid : ∀ f x, (f, x) ∈ l → ∃ v, f.kind.Means x v) (p : Policy) : ∃ q, Assigned l p q := by
  induction l generalizing p with
  | nil => exact ⟨p, assigned_nil_iff.2 rfl⟩
  | cons e l ih =>
    obtain ⟨f, x⟩ := e
    obtain ⟨new, once⟩ := List.nodup_cons.1 once
    obtain ⟨v, means⟩ := valid f x List.mem_cons_self
    obtain ⟨q, rest⟩ := ih once (fun g y mem => valid g y (List.mem_cons_of_mem _ mem)) (p.put f v)
    exact ⟨q, (assigned_cons_iff new).2 ⟨v, means, rest⟩⟩

def Once (members : List (String × Json)) : Prop :=
  ∀ f : Field, (members.map Prod.fst).count f.name ≤ 1

/-- Fields that are named have the values that the members give, all others their defaults. -/
structure Holds (members : List (String × Json)) (p : Policy) : Prop where
  named : ∀ (f : Field) x, (f.name, x) ∈ members → f.kind.Means x (p.get f)
  unnamed : ∀ f : Field, f.name ∉ members.map Prod.fst → p.get f = default.get f

def named (elements : List Json) : List (String × Json) :=
  (Field.all.zip elements).map fun (f, x) => (f.name, x)

theorem Field.name_of_ofName? {name : String} (found : Field.ofName? name = some f) :
    f.name = name := by
  have same : (f.name == name) = true := List.find?_some (p := (Field.name · == name)) found
  exact eq_of_beq same

theorem Field.name_injective : Function.Injective Field.name := fun f g same =>
  Option.some.inj (f.ofName?_name.symm.trans (same ▸ g.ofName?_name))

theorem mem_known_iff : (f, x) ∈ known members ↔ (f.name, x) ∈ members := by
  simp only [known, List.mem_filterMap, Option.map_eq_some_iff, Prod.exists, Prod.mk.injEq]
  constructor
  · rintro ⟨name, y, mem, g, found, rfl, rfl⟩
    rwa [Field.name_of_ofName? found]
  · exact fun mem => ⟨_, _, mem, f, f.ofName?_name, rfl, rfl⟩

theorem mem_fields_known_iff :
    f ∈ (known members).map Prod.fst ↔ f.name ∈ members.map Prod.fst := by
  simp [mem_known_iff]

theorem count_fields_known (members : List (String × Json)) (f : Field) :
    ((known members).map Prod.fst).count f = (members.map Prod.fst).count f.name := by
  induction members with
  | nil => rfl
  | cons member members ih =>
    obtain ⟨name, x⟩ := member
    cases found : Field.ofName? name with
    | none =>
      have other : name ≠ f.name := by
        rintro rfl
        simp [f.ofName?_name] at found
      have skipped : known ((name, x) :: members) = known members := by simp [known, found]
      rw [skipped, List.map_cons, List.count_cons_of_ne other, ih]
    | some g =>
      obtain rfl := Field.name_of_ofName? found
      have first : known ((g.name, x) :: members) = (g, x) :: known members := by
        simp [known, found]
      have same : (g.name == f.name) = (g == f) := by
        rw [Bool.eq_iff_iff, beq_iff_eq, beq_iff_eq, Field.name_injective.eq_iff]
      rw [first, List.map_cons, List.map_cons, List.count_cons, List.count_cons, ih, same]

theorem Once.nodup (once : Once members) : ((known members).map Prod.fst).Nodup :=
  List.nodup_iff_count_le_one.2 fun f => (count_fields_known members f).symm ▸ once f

theorem holds_iff : Holds members p ↔ Assigned (known members) default p := by
  constructor
  · rintro ⟨named, unnamed⟩
    exact ⟨fun f x mem => named f x (mem_known_iff.1 mem), fun f other =>
      unnamed f (mt mem_fields_known_iff.2 other)⟩
  · rintro ⟨given, kept⟩
    exact ⟨fun f x mem => given f x (mem_known_iff.2 mem), fun f other =>
      kept f (mt mem_fields_known_iff.1 other)⟩

theorem holds_congr {members' : List (String × Json)}
    (same : ∀ (f : Field) x, (f.name, x) ∈ members ↔ (f.name, x) ∈ members') :
    Holds members p ↔ Holds members' p := by
  have names (f : Field) : f.name ∈ members.map Prod.fst ↔ f.name ∈ members'.map Prod.fst := by
    simp [same]
  constructor
  · rintro ⟨named, unnamed⟩
    exact ⟨fun f x mem => named f x ((same f x).2 mem), fun f other =>
      unnamed f (mt (names f).1 other)⟩
  · rintro ⟨named, unnamed⟩
    exact ⟨fun f x mem => named f x ((same f x).1 mem), fun f other =>
      unnamed f (mt (names f).2 other)⟩

theorem assignMembers_of_once (once : Once members) :
    assignMembers [] members default = assignAll (known members) default :=
  assignMembers_eq once.nodup (fun _ _ => List.not_mem_nil) default

theorem assignMembers_eq_ok_iff (once : Once members) :
    assignMembers [] members default = .ok p ↔ Holds members p := by
  rw [assignMembers_of_once once, assignAll_eq_ok_iff once.nodup, holds_iff]

theorem fields_zip (fields : List Field) (elements : List Json) :
    ((fields.zip elements).map Prod.fst).Sublist fields := by
  induction fields generalizing elements with
  | nil => exact .slnil
  | cons f fields ih =>
    cases elements with
    | nil => exact List.nil_sublist _
    | cons x elements => exact (ih elements).cons_cons f

theorem once_named (elements : List Json) : Once (named elements) := by
  intro f
  rw [← count_fields_known, named, known_map_name]
  exact List.nodup_iff_count_le_one.1 ((fields_zip _ elements).nodup (by decide)) f

theorem assignElements_eq {fields : List Field} (le : elements.length ≤ fields.length)
    (p : Policy) : assignElements fields elements p = assignAll (fields.zip elements) p := by
  induction elements generalizing fields p with
  | nil => cases fields <;> rfl
  | cons x elements ih =>
    cases fields with
    | nil => cases le
    | cons f fields =>
      rw [assignElements, List.zip_cons_cons, assignAll]
      exact congrArg _ (funext fun p => ih (Nat.le_of_succ_le_succ le) p)

theorem assignElements_eq_assignMembers (le : elements.length ≤ 10) :
    assignElements Field.all elements default = assignMembers [] (named elements) default := by
  rw [assignMembers_of_once (once_named elements), named, known_map_name]
  exact assignElements_eq le default

inductive Document
  | tree (x : Json)
  | text (s : String)

namespace Document

def policy? (convert : Json.Conversion) : Document → Option Policy
  | .tree x => (ofJson x).toOption
  | .text s => (Policy.read convert s).toOption

inductive Object (convert : Json.Conversion) : Document → List (String × Json) → Prop
  | tree (members : List (String × Json)) : Object convert (.tree (.object members)) members
  | text {s members} (json : Json.read? convert s = some (.object members)) :
    Object convert (.text s) members
  | selected {s members} (other : Json.read? convert s = none)
    (json : Json.select? convert (fun name => (Field.ofName? name).isSome) s = some members) :
    Object convert (.text s) members

inductive Array (convert : Json.Conversion) : Document → List Json → Prop
  | tree (elements : List Json) : Array convert (.tree (.array elements)) elements
  | text {s elements} (json : Json.read? convert s = some (.array elements)) :
    Array convert (.text s) elements

variable {convert : Json.Conversion} {d : Document}

theorem toOption_mapError {ε ε' α : Type} (f : ε → ε') (x : Except ε α) :
    (x.mapError f).toOption = x.toOption := by
  cases x <;> rfl

theorem Object.policy?_eq (object : d.Object convert members) :
    d.policy? convert = (assignMembers [] members default).toOption := by
  cases object with
  | tree => rfl
  | text json =>
    rw [policy?, Policy.read, json]
    exact toOption_mapError ..
  | @selected s _ other json =>
    have found : readSelected? convert s = (assignMembers [] members default).toOption := by
      rw [readSelected?, json]
      rfl
    rw [policy?, Policy.read, other, found]
    cases assignMembers [] members default <;> rfl

theorem Array.policy?_eq (array : d.Array convert elements) :
    d.policy? convert = (assignElements Field.all elements default).toOption := by
  cases array with
  | tree => rfl
  | text json =>
    rw [policy?, Policy.read, json]
    exact toOption_mapError ..

theorem Object.policy?_eq_some_iff (object : d.Object convert members) (once : Once members) :
    d.policy? convert = some p ↔ Holds members p := by
  rw [object.policy?_eq, ← assignMembers_eq_ok_iff once]
  cases assignMembers [] members default <;> simp [Except.toOption]

theorem exists_of_policy? (accepted : d.policy? convert = some p) :
    (∃ members, d.Object convert members) ∨ ∃ elements, d.Array convert elements := by
  cases d with
  | tree x =>
    cases x with
    | object members => exact .inl ⟨members, .tree members⟩
    | array elements => exact .inr ⟨elements, .tree elements⟩
    | null | boolean | integer | float | string => cases accepted
  | text s =>
    cases json : Json.read? convert s with
    | some x =>
      rw [policy?, Policy.read, json] at accepted
      cases x with
      | object members => exact .inl ⟨members, .text json⟩
      | array elements => exact .inr ⟨elements, .text json⟩
      | null | boolean | integer | float | string => cases accepted
    | none =>
      cases selected : Json.select? convert (fun name => (Field.ofName? name).isSome) s with
      | some members => exact .inl ⟨members, .selected json selected⟩
      | none =>
        have found : readSelected? convert s = none := by
          rw [readSelected?, selected]
          rfl
        rw [policy?, Policy.read, json, found] at accepted
        cases accepted

structure Fieldwise (convert : Json.Conversion) (d : Document) : Prop where
  covered : ∀ p, d.policy? convert = some p →
    (∃ members, d.Object convert members) ∨ ∃ elements, d.Array convert elements
  accepted : ∀ members, d.Object convert members → Once members →
    ((∃ p, d.policy? convert = some p) ↔
      ∀ (f : Field) x, (f.name, x) ∈ members → ∃ v, f.kind.Means x v)
  result : ∀ members, d.Object convert members → Once members →
    ∀ p, d.policy? convert = some p ↔ Holds members p
  alike : ∀ members, d.Object convert members → Once members →
    ∀ (d' : Document) members', d'.Object convert members' → Once members' →
      (∀ (f : Field) x, (f.name, x) ∈ members ↔ (f.name, x) ∈ members') →
        d'.policy? convert = d.policy? convert
  listed : ∀ elements, d.Array convert elements → elements.length ≤ 10 →
    ∀ d' : Document, d'.Object convert (named elements) → d.policy? convert = d'.policy? convert

/-- A policy is read field by field. -/
theorem fieldwise (convert : Json.Conversion) (d : Document) : Fieldwise convert d := by
  constructor
  case covered => exact fun _ => exists_of_policy?
  case accepted =>
    intro members object once
    simp only [object.policy?_eq_some_iff once, holds_iff]
    constructor
    · rintro ⟨p, assigned⟩ f x mem
      exact ⟨_, assigned.given f x (mem_known_iff.2 mem)⟩
    · intro valid
      exact exists_assigned once.nodup (fun f x mem => valid f x (mem_known_iff.1 mem)) default
  case result => exact fun _ object once _ => object.policy?_eq_some_iff once
  case alike =>
    intro members object once d' members' object' once' same
    ext p
    rw [object'.policy?_eq_some_iff once', object.policy?_eq_some_iff once, holds_congr same]
  case listed =>
    intro elements array le d' object
    rw [array.policy?_eq, object.policy?_eq, assignElements_eq_assignMembers le]

example : (text "\x7b\"x\":[1e999],\"max_count\":20,\"cooldown\":\"5m\"\x7d").policy? .exact =
    some { maxCount := 20, cooldown := .ofSeconds 300 } := by
  decide +kernel

end Document

end Autoscaling.Policy
