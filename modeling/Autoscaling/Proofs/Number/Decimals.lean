import Autoscaling.Number.Fixed
import Mathlib.Data.Rat.Defs
import Mathlib.Tactic.FieldSimp
import Mathlib.Tactic.Positivity
import Mathlib.Tactic.Ring

namespace Autoscaling.Number

theorem span_append {p : α → Bool} {l rest : List α} (all : ∀ a ∈ l, p a = true)
    (stop : ∀ a ∈ rest.head?, p a = false) : (l ++ rest).span p = (l, rest) := by
  rw [List.span_eq_takeWhile_dropWhile, List.takeWhile_append_of_pos all,
    List.dropWhile_append_of_pos all]
  cases rest with
  | nil => simp
  | cons a rest => simp [stop a rfl]

theorem isDigit_of_mem {n : Nat} {c : Char} (mem : c ∈ Nat.toDigits 10 n) : c.isDigit = true :=
  Nat.isDigit_of_mem_toDigits (by decide) (by decide) mem

theorem ofDigitChars_lt {digits : List Char} (all : ∀ c ∈ digits, c.isDigit = true) :
    Nat.ofDigitChars 10 digits 0 < 10 ^ digits.length := by
  induction digits using List.reverseRecOn with
  | nil => decide
  | append_singleton digits c ih =>
    have before := ih fun c mem => all c (List.mem_append_left _ mem)
    have digit : c.toNat ≤ 57 := (Char.isDigit_iff_toNat.1 (all c (by simp))).2
    have last : Nat.ofDigitChars 10 [c] (Nat.ofDigitChars 10 digits 0) =
        10 * Nat.ofDigitChars 10 digits 0 + (c.toNat - 48) := rfl
    rw [Nat.ofDigitChars_append, last, List.length_append, List.length_singleton, Nat.pow_succ]
    omega

def decimal? (s : List Char) : Option ℚ :=
  let (whole, rest) := s.span Char.isDigit
  if whole.isEmpty then none
  else match rest with
    | [] => some (Nat.ofDigitChars 10 whole 0)
    | '.' :: places =>
      if !places.isEmpty && places.all Char.isDigit then
        some (Nat.ofDigitChars 10 (whole ++ places) 0 / 10 ^ places.length)
      else none
    | _ => none

theorem decimal?_toDigits (n : Nat) : decimal? (Nat.toDigits 10 n) = some (n : ℚ) := by
  have split : (Nat.toDigits 10 n ++ []).span Char.isDigit = (Nat.toDigits 10 n, []) :=
    span_append (fun _ => isDigit_of_mem) (by simp)
  rw [List.append_nil] at split
  unfold decimal?
  rw [split]
  simp [Nat.toDigits_ne_nil, Nat.ofDigitChars_ten_toDigits]

theorem decimal?_point {whole places : List Char} (digits : ∀ c ∈ whole, c.isDigit = true)
    (digits' : ∀ c ∈ places, c.isDigit = true) (some : whole ≠ []) (some' : places ≠ []) :
    decimal? (whole ++ '.' :: places) =
      .some (Nat.ofDigitChars 10 (whole ++ places) 0 / 10 ^ places.length : ℚ) := by
  have split : (whole ++ '.' :: places).span Char.isDigit = (whole, '.' :: places) :=
    span_append digits (by simp)
  unfold decimal?
  rw [split]
  simp [some, some']
  exact digits'

def padded (places n : Nat) : List Char :=
  List.replicate (places - (Nat.toDigits 10 n).length) '0' ++ Nat.toDigits 10 n

variable {places n : Nat}

theorem placed_eq (places n : Nat) :
    placed places n = Nat.toDigits 10 (n / 10 ^ places) ++ '.' :: padded places (n % 10 ^ places) := by
  simp [placed, padded]

theorem isDigit_of_mem_padded {c : Char} (mem : c ∈ padded places n) : c.isDigit = true :=
  (List.mem_append.1 mem).elim (fun mem => List.eq_of_mem_replicate mem ▸ rfl) isDigit_of_mem

theorem mem_placed {c : Char} (mem : c ∈ placed places n) : c.isDigit = true ∨ c = '.' := by
  rw [placed_eq, List.mem_append, List.mem_cons] at mem
  rcases mem with mem | rfl | mem
  · exact .inl (isDigit_of_mem mem)
  · exact .inr rfl
  · exact .inl (isDigit_of_mem_padded mem)

theorem length_padded (pos : 0 < places) (small : n < 10 ^ places) :
    (padded places n).length = places := by
  have := (Nat.length_toDigits_le_iff (by decide) pos).2 small
  simp only [padded, List.length_append, List.length_replicate]
  omega

theorem ofDigitChars_padded (places n : Nat) : Nat.ofDigitChars 10 (padded places n) 0 = n := by
  rw [padded, Nat.ofDigitChars_append, Nat.ofDigitChars_replicate_zero, Nat.mul_zero,
    Nat.ofDigitChars_ten_toDigits]

theorem decimal?_placed (pos : 0 < places) (n : Nat) :
    decimal? (placed places n) = some (n / 10 ^ places : ℚ) := by
  have length := length_padded pos (Nat.mod_lt n (Nat.pow_pos (by decide)))
  have some : padded places (n % 10 ^ places) ≠ [] := fun none => by simp [none] at length; omega
  rw [placed_eq, decimal?_point (fun _ => isDigit_of_mem) (fun _ => isDigit_of_mem_padded)
    Nat.toDigits_ne_nil some, length, Nat.ofDigitChars_append, Nat.ofDigitChars_ten_toDigits,
    Nat.ofDigitChars_eq_ofDigitChars_zero, length, ofDigitChars_padded, Nat.div_add_mod]

end Autoscaling.Number
