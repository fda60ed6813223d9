import Autoscaling.Json.Selection
import Autoscaling.Proofs.Number.Rounding

namespace Autoscaling.Json

open Number

/-- A value that a text can hold, at most `depth` containers deep. -/
inductive Readable : Nat → Json → Prop
  | null {depth} : Readable depth .null
  | boolean {depth} (b : Bool) : Readable depth (.boolean b)
  | integer {depth} {n : Int} (low : -2 ^ 63 ≤ n) (high : n < 2 ^ 64) : Readable depth (.integer n)
  | float {depth} {x : Binary64} (finite : x.isFinite = true) : Readable depth (.float x)
  | string {depth} (s : String) : Readable depth (.string s)
  | array {depth} {elements : List Json} (all : ∀ x ∈ elements, Readable depth x) :
    Readable (depth + 1) (.array elements)
  | object {depth} {members : List (String × Json)} (all : ∀ m ∈ members, Readable depth m.2) :
    Readable (depth + 1) (.object members)

namespace Reader

variable {convert : Conversion} {depth fuel : Nat} {s rest : List Char} {x : Json}
  {xs : List Json} {ms : List (String × Json)}

theorem readable_of_conversion {negative : Bool} {n : Numeral}
    (value : convert.value negative n = some x) : Readable depth x := by
  have float {y : Binary64} (value : (if y.isFinite then some (Json.float y) else none) = some x) :
      Readable depth x := by
    split at value
    · next finite =>
      cases value
      exact .float finite
    · cases value
  unfold Conversion.value at value
  dsimp only at value
  split at value
  · split at value
    · split at value
      · next range =>
        rw [Bool.and_eq_true, decide_eq_true_eq, decide_eq_true_eq] at range
        cases value
        exact .integer (by omega) (by omega)
      · exact float value
    · split at value
      · cases value
        exact .integer (by omega) (by omega)
      · exact float value
  · exact float value

theorem readable_of_number (read : number convert s = some (x, rest)) : Readable depth x := by
  unfold number at read
  split at read
  all_goals
    obtain ⟨⟨n, s⟩, -, read⟩ := Option.bind_eq_some_iff.1 read
    obtain ⟨y, value, eq⟩ := Option.bind_eq_some_iff.1 read
    cases eq
    exact readable_of_conversion value

structure Sound (convert : Conversion) (fuel : Nat) : Prop where
  ofValue : ∀ {depth s x rest}, value convert fuel depth s = some (x, rest) → Readable depth x
  ofElements : ∀ {depth s xs rest},
    elements convert fuel depth s = some (xs, rest) → ∀ x ∈ xs, Readable depth x
  ofMembers : ∀ {depth s ms rest},
    members convert fuel depth s = some (ms, rest) → ∀ m ∈ ms, Readable depth m.2

theorem readable_of_value (less : ∀ fuel' < fuel, Sound convert fuel')
    (read : value convert fuel depth s = some (x, rest)) : Readable depth x := by
  unfold value at read
  split at read
  · cases read
  · cases read
    exact .null
  · cases read
    exact .boolean true
  · cases read
    exact .boolean false
  · obtain ⟨_, -, eq⟩ := Option.map_eq_some_iff.1 read
    cases eq
    exact .string _
  · split at read
    · cases read
    · next nested =>
      obtain ⟨depth, rfl⟩ := Nat.exists_eq_succ_of_ne_zero nested
      split at read
      · cases read
        exact .array fun _ mem => nomatch mem
      · obtain ⟨_, elements, eq⟩ := Option.map_eq_some_iff.1 read
        cases eq
        exact .array ((less _ (Nat.lt_succ_self _)).ofElements elements)
  · split at read
    · cases read
    · next nested =>
      obtain ⟨depth, rfl⟩ := Nat.exists_eq_succ_of_ne_zero nested
      split at read
      · cases read
        exact .object fun _ mem => nomatch mem
      · obtain ⟨_, members, eq⟩ := Option.map_eq_some_iff.1 read
        cases eq
        exact .object ((less _ (Nat.lt_succ_self _)).ofMembers members)
  · exact readable_of_number read

theorem readable_of_elements (less : ∀ fuel' < fuel, Sound convert fuel')
    (read : elements convert fuel depth s = some (xs, rest)) : ∀ x ∈ xs, Readable depth x := by
  cases fuel with
  | zero => simp [elements] at read
  | succ fuel =>
    have sound := less fuel (Nat.lt_succ_self fuel)
    unfold elements at read
    obtain ⟨⟨x, s⟩, first, read⟩ := Option.bind_eq_some_iff.1 read
    have here := sound.ofValue first
    dsimp only at read
    split at read
    · obtain ⟨⟨xs, s⟩, later, eq⟩ := Option.bind_eq_some_iff.1 read
      cases eq
      exact List.forall_mem_cons.2 ⟨here, sound.ofElements later⟩
    · cases read
      exact List.forall_mem_singleton.2 here
    · cases read

theorem readable_of_members (less : ∀ fuel' < fuel, Sound convert fuel')
    (read : members convert fuel depth s = some (ms, rest)) : ∀ m ∈ ms, Readable depth m.2 := by
  unfold members at read
  split at read
  · cases read
  · have sound := less _ (Nat.lt_succ_self _)
    obtain ⟨⟨name, s⟩, -, read⟩ := Option.bind_eq_some_iff.1 read
    dsimp only at read
    split at read
    · obtain ⟨⟨x, s⟩, first, read⟩ := Option.bind_eq_some_iff.1 read
      have here := sound.ofValue first
      dsimp only at read
      split at read
      · obtain ⟨⟨ms, s⟩, later, eq⟩ := Option.bind_eq_some_iff.1 read
        cases eq
        exact List.forall_mem_cons.2 ⟨here, sound.ofMembers later⟩
      · cases read
        exact List.forall_mem_singleton.2 here
      · cases read
    · cases read
  · cases read

theorem sound (convert : Conversion) (fuel : Nat) : Sound convert fuel := by
  induction fuel using Nat.strongRecOn with
  | ind fuel less =>
    exact ⟨readable_of_value less, readable_of_elements less, readable_of_members less⟩

theorem readable_of_selectMember {wanted : String → Bool} {name : String}
    (read : selectMember convert wanted fuel depth name s = some (ms, rest)) :
    ∀ m ∈ ms, Readable depth m.2 := by
  unfold selectMember at read
  split at read
  · obtain ⟨⟨x, s⟩, value, eq⟩ := Option.map_eq_some_iff.1 read
    cases eq
    exact List.forall_mem_singleton.2 ((sound convert fuel).ofValue value)
  · obtain ⟨_, -, eq⟩ := Option.map_eq_some_iff.1 read
    cases eq
    exact fun _ mem => nomatch mem

theorem readable_of_selectMembers {wanted : String → Bool} (fuel : Nat) :
    ∀ {s ms rest}, selectMembers convert wanted fuel depth s = some (ms, rest) →
      ∀ m ∈ ms, Readable depth m.2 := by
  induction fuel using Nat.strongRecOn with
  | ind fuel less =>
    intro s ms rest read
    unfold selectMembers at read
    split at read
    · cases read
    · obtain ⟨⟨name, s⟩, -, read⟩ := Option.bind_eq_some_iff.1 read
      dsimp only at read
      split at read
      · obtain ⟨⟨found, s⟩, first, read⟩ := Option.bind_eq_some_iff.1 read
        have here := readable_of_selectMember first
        dsimp only at read
        split at read
        · obtain ⟨⟨ms, s⟩, later, eq⟩ := Option.bind_eq_some_iff.1 read
          cases eq
          have later := less _ (Nat.lt_succ_self _) later
          exact fun m mem => (List.mem_append.1 mem).elim (here m) (later m)
        · cases read
          exact here
        · cases read
      · cases read
    · cases read

theorem readable_of_selection {wanted : String → Bool}
    (read : selection convert wanted s = some ms) : ∀ m ∈ ms, Readable (nesting - 1) m.2 := by
  unfold selection at read
  split at read
  · next rest _ =>
    dsimp only at read
    split at read
    · rw [Option.bind_eq_bind, Option.bind_some] at read
      split at read
      · cases read
        exact fun _ mem => nomatch mem
      · cases read
    · obtain ⟨⟨found, rest⟩, members, read⟩ := Option.bind_eq_some_iff.1 read
      dsimp only at read
      split at read
      · cases read
        exact readable_of_selectMembers _ members
      · cases read
  · cases read

end Reader

variable {convert : Conversion}

theorem readable_of_read? {s : String} {x : Json} (read : read? convert s = some x) :
    Readable Reader.nesting x := by
  obtain ⟨⟨y, rest⟩, value, read⟩ := Option.bind_eq_some_iff.1 read
  dsimp only at read
  split at read
  · cases read
    exact (Reader.sound _ _).ofValue value
  · cases read

theorem readable_of_select? {wanted : String → Bool} {s : String} {ms : List (String × Json)}
    (read : select? convert wanted s = some ms) : ∀ m ∈ ms, Readable (Reader.nesting - 1) m.2 :=
  Reader.readable_of_selection read

end Autoscaling.Json
