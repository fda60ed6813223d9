import Autoscaling.Duration.Text
import Autoscaling.Proofs.Number.Decimals

namespace Autoscaling

namespace Text

theorem trimStart_eq_self {s : List Char} (first : ∀ c ∈ s.head?, isBlank c = false) :
    trimStart s = s := by
  cases s with
  | nil => rfl
  | cons c s => exact List.dropWhile_cons_of_neg (Bool.eq_false_iff.1 (first c rfl))

theorem trimEnd_eq_self {s : List Char} (last : ∀ c ∈ s.getLast?, isBlank c = false) :
    trimEnd s = s := by
  have reversed := trimStart_eq_self (s := s.reverse) (by rwa [List.head?_reverse])
  rw [trimStart] at reversed
  rw [trimEnd, reversed, List.reverse_reverse]

theorem trim_eq_self {s : List Char} (first : ∀ c ∈ s.head?, isBlank c = false)
    (last : ∀ c ∈ s.getLast?, isBlank c = false) : trim s = s := by
  rw [trim, trimStart_eq_self first, trimEnd_eq_self last]

end Text

namespace Duration

open Number

theorem Unit.symbol_ne_nil (u : Unit) : u.symbol ≠ [] := by cases u <;> exact List.cons_ne_nil _ _

theorem Unit.isBlank_of_mem {u : Unit} {c : Char} (mem : c ∈ u.symbol) : Text.isBlank c = false := by
  have all : u.symbol.all (!Text.isBlank ·) = true := by cases u <;> decide
  simpa using List.all_eq_true.1 all c mem

theorem splitUnit_append {number : List Char}
    (other : ∀ c ∈ number.getLast?, c ≠ 'm' ∧ c ≠ 'n') (u : Unit) :
    splitUnit (number ++ u.symbol) = (number, u) := by
  obtain ⟨rest, rfl⟩ : ∃ rest, number = List.reverse rest := ⟨_, (List.reverse_reverse _).symm⟩
  rw [List.getLast?_reverse] at other
  cases u with
  | second =>
    cases rest with
    | nil => rfl
    | cons c rest =>
      obtain ⟨minutes, nanos⟩ := other c rfl
      simp only [splitUnit, Unit.symbol, List.reverse_append, List.reverse_reverse,
        List.reverse_singleton, List.singleton_append]
      split <;> simp_all
  | hour | minute | millisecond | nanosecond => simp [splitUnit, Unit.symbol]

theorem parts_mul (d : Duration) : d.parts.1 * d.parts.2.nanos = d.nanos := by
  have whole := Nat.div_add_mod d.nanos (10 ^ 9)
  unfold parts subsecNanos secs
  split
  · split
    · simp only [Unit.nanos]
      omega
    · split <;> simp only [Unit.nanos] <;> omega
  · split <;> simp only [Unit.nanos] <;> omega

theorem number?_toDigits (n : Nat) : number? (Nat.toDigits 10 n) = some n := by
  have digits : digits? (Nat.toDigits 10 n) = some n := by
    have all : (Nat.toDigits 10 n).all Char.isDigit = true :=
      List.all_eq_true.2 fun _ => isDigit_of_mem
    rw [digits?, all, List.isEmpty_eq_false_iff.2 Nat.toDigits_ne_nil, Nat.ofDigitChars_ten_toDigits]
    rfl
  unfold number?
  split
  · next s eq => exact absurd (isDigit_of_mem (eq ▸ List.mem_cons_self)) (by decide)
  · exact digits

theorem isBlank_of_mem_toDigits {n : Nat} {c : Char} (mem : c ∈ Nat.toDigits 10 n) :
    Text.isBlank c = false :=
  Text.not_isBlank_of_isDigit (isDigit_of_mem mem)

theorem trim_toDigits (n : Nat) : Text.trim (Nat.toDigits 10 n) = Nat.toDigits 10 n :=
  Text.trim_eq_self (fun _ first => isBlank_of_mem_toDigits (List.mem_of_mem_head? first))
    fun _ last => isBlank_of_mem_toDigits (List.mem_of_getLast? last)

theorem word?_mul (n : Nat) (u : Unit) :
    (do
      let k ← word? n
      let nanos ← word? (k.toNat * u.nanos)
      return ofNanos nanos) = (word? (n * u.nanos)).map ofNanos := by
  by_cases fits : n < 2 ^ 64
  · have read : word? n = some (UInt64.ofNat n) := if_pos fits
    rw [read, Option.bind_eq_bind, Option.bind_some, UInt64.toNat_ofNat_of_lt' fits]
    exact (Option.map_eq_bind ..).symm
  · have large : ¬ n * u.nanos < 2 ^ 64 := fun product =>
      fits (Nat.lt_of_le_of_lt (Nat.le_mul_of_pos_right n u.nanos_pos) product)
    rw [word?, if_neg fits, word?, if_neg large]
    rfl

theorem trimmed?_append (n : Nat) (u : Unit) :
    trimmed? (Nat.toDigits 10 n ++ u.symbol) = (word? (n * u.nanos)).map ofNanos := by
  have other : ∀ c ∈ (Nat.toDigits 10 n).getLast?, c ≠ 'm' ∧ c ≠ 'n' := by
    intro c last
    have digit := isDigit_of_mem (List.mem_of_getLast? last)
    constructor <;> rintro rfl <;> exact absurd digit (by decide)
  rw [trimmed?, splitUnit_append other]
  dsimp only
  rw [trim_toDigits, number?_toDigits]
  exact word?_mul n u

theorem map_word?_nanos (d : Duration) :
    (word? d.nanos).map ofNanos = if d.nanos < 2 ^ 64 then some d else none := by
  unfold word?
  split
  · next fits => exact congrArg some (ext (UInt64.toNat_ofNat_of_lt' fits))
  · rfl

theorem toList_write (d : Duration) : ∃ n u, d.write.toList = Nat.toDigits 10 n ++ Unit.symbol u ∧
    n * u.nanos = d.nanos := by
  unfold write
  split
  · next zero => exact ⟨0, .second, rfl, by rw [zero, Nat.zero_mul]⟩
  · exact ⟨_, _, String.toList_ofList, d.parts_mul⟩

theorem read_write (d : Duration) :
    read d.write = if d.nanos < 2 ^ 64 then .ok d else .error ⟨d.write⟩ := by
  obtain ⟨n, u, text, value⟩ := d.toList_write
  have trim : Text.trim d.write.toList = d.write.toList := by
    rw [text]
    refine Text.trim_eq_self (fun c first => ?_) fun c last => ?_
    · rw [List.head?_append_of_ne_nil _ Nat.toDigits_ne_nil] at first
      exact isBlank_of_mem_toDigits (List.mem_of_mem_head? first)
    · rw [List.getLast?_append_of_ne_nil _ u.symbol_ne_nil] at last
      exact u.isBlank_of_mem (List.mem_of_getLast? last)
  have trimmed : trimmed? d.write.toList = if d.nanos < 2 ^ 64 then some d else none := by
    rw [text, trimmed?_append, value, map_word?_nanos]
  rw [read]
  rw [trim, trimmed, String.ofList_toList]
  by_cases fits : d.nanos < 2 ^ 64
  · rw [if_pos fits, if_pos fits]
  · rw [if_neg fits, if_neg fits]

end Duration

end Autoscaling
