import Autoscaling.Proofs.Duration.Grammar
import Mathlib.Logic.Function.Defs

namespace Autoscaling.Duration

open Number

variable {d e : Duration}

structure Unit.Largest (u : Unit) (d : Duration) : Prop where
  dvd : u.nanos ∣ d.nanos
  le : ∀ v : Unit, v.nanos ∣ d.nanos → v.nanos ≤ u.nanos

theorem mod_ne_zero_of_larger (d : Duration) {v : Unit} (larger : d.parts.2.nanos < v.nanos) :
    d.nanos % v.nanos ≠ 0 := by
  revert larger
  unfold parts subsecNanos secs
  -- Each test that fails rules out a unit.
  split
  · split
    · cases v <;> simp [Unit.nanos]
    · split <;> cases v <;> simp [Unit.nanos] <;> omega
  · split <;> cases v <;> simp [Unit.nanos] <;> omega

theorem largest_unit (d : Duration) : d.parts.2.Largest d where
  dvd := ⟨d.parts.1, by rw [Nat.mul_comm, d.parts_mul]⟩
  le _ dvd := Nat.le_of_not_lt fun larger =>
    d.mod_ne_zero_of_larger larger (Nat.mod_eq_zero_of_dvd dvd)

structure Shortest (digits : List Char) (n : Nat) : Prop where
  ne_nil : digits ≠ []
  all_isDigit : digits.all Char.isDigit = true
  value : Nat.ofDigitChars 10 digits 0 = n
  length_le : ∀ digits' : List Char, digits' ≠ [] → digits'.all Char.isDigit = true →
    Nat.ofDigitChars 10 digits' 0 = n → digits.length ≤ digits'.length

theorem shortest_toDigits (n : Nat) : Shortest (Nat.toDigits 10 n) n where
  ne_nil := Nat.toDigits_ne_nil
  all_isDigit := List.all_eq_true.2 fun _ => isDigit_of_mem
  value := Nat.ofDigitChars_ten_toDigits
  length_le digits ne all value := by
    have := ofDigitChars_lt (List.all_eq_true.1 all)
    rw [value] at this
    exact (Nat.length_toDigits_le_iff (by decide) (List.length_pos_iff.2 ne)).2 this

theorem splitUnit_toDigits (n : Nat) (u : Unit) :
    splitUnit (Nat.toDigits 10 n ++ u.symbol) = (Nat.toDigits 10 n, u) := by
  refine splitUnit_append (fun c last => ?_) u
  have digit := isDigit_of_mem (List.mem_of_getLast? last)
  constructor <;> rintro rfl <;> exact absurd digit (by decide)

theorem write_injective : Function.Injective write := by
  intro d e same
  obtain ⟨n, u, text, value⟩ := d.toList_write
  obtain ⟨m, v, text', value'⟩ := e.toList_write
  rw [same, text'] at text
  have split := congrArg splitUnit text
  rw [splitUnit_toDigits, splitUnit_toDigits, Prod.mk.injEq] at split
  obtain ⟨digits, rfl⟩ := split
  have number : m = n := by
    rw [← Nat.ofDigitChars_ten_toDigits (n := m), digits, Nat.ofDigitChars_ten_toDigits]
  exact ext (value.symm.trans (number ▸ value'))

theorem nanos_lt_of_read {s : String} (accepted : read s = .ok d) : d.nanos < 2 ^ 64 := by
  rw [read] at accepted
  split at accepted
  · next e read =>
    cases accepted
    obtain ⟨_, _, _, fits⟩ := (trimmed?_eq_some_iff (Text.core_trim s.toList).first).1 read
    exact fits
  · cases accepted

structure Canonical (d : Duration) : Prop where
  zero : d.nanos = 0 → d.write = "0s"
  text : d.nanos ≠ 0 → ∃ digits n, ∃ u : Unit, d.write.toList = digits ++ u.symbol ∧
    Shortest digits n ∧ u.Largest d ∧ n * u.nanos = d.nanos
  alone : ∀ e : Duration, e.write = d.write → e = d
  read : Duration.read d.write = .ok d ↔ d.nanos ≤ 2 ^ 64 - 1
  refused : 2 ^ 64 ≤ d.nanos → Duration.read d.write = .error ⟨d.write⟩
  reread : ∀ s, Duration.read s = .ok d → Duration.read d.write = .ok d

/-- Every duration is written in the largest unit that divides it, and read again if it has fewer
than 2^64 nanoseconds. -/
theorem write_canonical (d : Duration) : Canonical d := by
  have again := d.read_write
  constructor
  case zero => exact fun zero => if_pos zero
  case text =>
    intro some
    refine ⟨_, d.parts.1, d.parts.2, ?_, shortest_toDigits _, d.largest_unit, d.parts_mul⟩
    rw [write, if_neg some, String.toList_ofList]
  case alone => exact fun e same => write_injective same
  case read =>
    constructor
    · intro accepted
      exact Nat.le_sub_one_of_lt (nanos_lt_of_read accepted)
    · intro fits
      rw [again, if_pos (Nat.lt_of_le_sub_one (by decide) fits)]
  case refused =>
    intro large
    rw [again, if_neg (Nat.not_lt_of_le large)]
  case reread =>
    intro s accepted
    rw [again, if_pos (nanos_lt_of_read accepted)]

end Autoscaling.Duration
