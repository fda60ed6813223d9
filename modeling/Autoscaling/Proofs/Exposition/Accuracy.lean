import Autoscaling.Proofs.Exposition.Seconds
import Mathlib.Algebra.Order.Ring.Abs
import Mathlib.Tactic.Linarith
import Mathlib.Tactic.NormNum

namespace Autoscaling

open Number Number.Binary64

namespace Number.Binary64

variable {num den gap gap' k m p u v w : Nat}

structure Within (gap num den v : Nat) : Prop where
  below : 2 * num ≤ (2 * v + gap) * den
  above : 2 * v * den ≤ 2 * num + gap * den

theorem Within.add (part : Within gap p den u) (sum : Within gap' (w + u) 1 v) :
    Within (gap + gap') (den * w + p) den v := by
  constructor
  case below =>
    calc
      2 * (den * w + p) = 2 * den * w + 2 * p := by ring
      _ ≤ 2 * den * w + (2 * u + gap) * den := Nat.add_le_add_left part.below _
      _ = 2 * (w + u) * den + gap * den := by ring
      _ ≤ (2 * v + gap') * 1 * den + gap * den :=
        Nat.add_le_add_right (Nat.mul_le_mul_right den sum.below) _
      _ = _ := by ring
  case above =>
    calc
      2 * v * den = 2 * v * 1 * den := by ring
      _ ≤ (2 * (w + u) + gap' * 1) * den := Nat.mul_le_mul_right den sum.above
      _ = 2 * u * den + (2 * den * w + gap' * den) := by ring
      _ ≤ 2 * p + gap * den + (2 * den * w + gap' * den) := Nat.add_le_add_right part.above _
      _ = _ := by ring

theorem Rounds.within (rounds : Rounds num den m) (pos : 0 < den)
    (le : num ≤ 2 ^ (53 + k) * den) : Within (2 ^ k) num den (units m) := by
  have top : units (k * 2 ^ 52 + 2 ^ 53) = 2 ^ (53 + k) := by
    rw [units_grid (.inr (by decide)) (Nat.le_refl _), Nat.pow_add]
  have gap (n : Nat) (less : n < k * 2 ^ 52 + 2 ^ 53) : units (n + 1) ≤ units n + 2 ^ k := by
    rw [units_succ]
    exact Nat.add_le_add_left (Nat.pow_le_pow_right (by decide) (by omega)) _
  have own := rounds_nearestMagnitude (units (k * 2 ^ 52 + 2 ^ 53)) Nat.one_pos
  rw [nearestMagnitude_units] at own
  have bound : m ≤ k * 2 ^ 52 + 2 ^ 53 := rounds.le own pos Nat.one_pos (by rwa [Nat.mul_one, top])
  constructor
  case below =>
    rcases Nat.lt_or_eq_of_le bound with less | rfl
    · calc
        2 * num ≤ (units m + units (m + 1)) * den := rounds.above
        _ ≤ (units m + (units m + 2 ^ k)) * den :=
          Nat.mul_le_mul_right den (Nat.add_le_add_left (gap m less) _)
        _ = _ := by ring
    · rw [top]
      calc
        2 * num ≤ 2 * (2 ^ (53 + k) * den) := Nat.mul_le_mul_left 2 le
        _ ≤ 2 * (2 ^ (53 + k) * den) + 2 ^ k * den := Nat.le_add_right ..
        _ = _ := by ring
  case above =>
    have before : units m ≤ units (m - 1) + 2 ^ k := by
      cases m with
      | zero => exact Nat.le_add_right ..
      | succ n => exact gap n bound
    calc
      2 * units m * den = (units m + units m) * den := by ring
      _ ≤ (units (m - 1) + 2 ^ k + units m) * den :=
        Nat.mul_le_mul_right den (Nat.add_le_add_right before _)
      _ = (units (m - 1) + units m) * den + 2 ^ k * den := by ring
      _ ≤ 2 * num + 2 ^ k * den := Nat.add_le_add_right rounds.below _

theorem exists_within (s : Nat) (pos : 0 < den) (le : num ≤ 2 ^ s * one * den) :
    ∃ gap, 2 ^ 53 * gap = 2 ^ s * one ∧ Within gap num den (units (nearestMagnitude num den)) := by
  have scale : 2 ^ (53 + (s + 1021)) = 2 ^ s * one := by
    rw [show 53 + (s + 1021) = s + 1074 by omega, Nat.pow_add, one]
  refine ⟨2 ^ (s + 1021), by rw [← Nat.pow_add, scale], ?_⟩
  exact (rounds_nearestMagnitude num pos).within pos (by rwa [scale])

end Number.Binary64

namespace Duration

variable {d : Duration} {w p : Nat}

theorem exists_within_sum (few : w < 2 ^ 33) (less : p < 10 ^ 9) :
    w * one + units (partMagnitude p) ≤ 2 ^ 33 * one ∧ ∃ gap, 2 ^ 53 * gap = (2 ^ 33 + 1) * one ∧
      Within gap (10 ^ 9 * (w * one) + p * one) (10 ^ 9)
        (units (nearestMagnitude (w * one + units (partMagnitude p)) 1)) := by
  have small : p * one ≤ 2 ^ 0 * one * 10 ^ 9 := by
    rw [Nat.pow_zero, Nat.one_mul, Nat.mul_comm]
    exact Nat.mul_le_mul_left _ (Nat.le_of_lt less)
  have fits : w * one + units (partMagnitude p) ≤ 2 ^ 33 * one := calc
    _ ≤ w * one + one := Nat.add_le_add_left (Nat.le_of_lt (units_partMagnitude_lt less)) _
    _ = (w + 1) * one := (Nat.succ_mul ..).symm
    _ ≤ _ := Nat.mul_le_mul_right one few
  obtain ⟨gap, scale, part⟩ := exists_within 0 (by decide) small
  obtain ⟨gap', scale', sum⟩ := exists_within 33 Nat.one_pos
    (Nat.le_trans fits (Nat.le_mul_of_pos_right _ Nat.one_pos))
  refine ⟨fits, gap + gap', ?_, part.add sum⟩
  rw [Nat.mul_add, scale, scale']
  ring

theorem exists_within_seconds (small : d.nanos < 2 ^ 33 * 10 ^ 9) :
    ∃ gap, 2 ^ 53 * gap = (2 ^ 33 + 1) * one ∧
      Within gap (d.nanos * one) (10 ^ 9) (units d.seconds.magnitude) := by
  have few : d.nanos / 10 ^ 9 < 2 ^ 33 := Nat.div_lt_of_lt_mul (by rwa [Nat.mul_comm])
  obtain ⟨fits, gap, scale, within⟩ := exists_within_sum few (Nat.mod_lt d.nanos (by decide))
  have finite := Nat.le_trans (nearestMagnitude_mono Nat.one_pos fits)
    (Nat.le_of_lt (nearestMagnitude_lt_infinity (by decide)))
  have whole : units (wholeMagnitude (d.nanos / 10 ^ 9)) = d.nanos / 10 ^ 9 * one :=
    units_nearestMagnitude (Nat.le_of_lt (Nat.lt_of_lt_of_le few (by decide)))
  rw [← Nat.mul_assoc, ← Nat.add_mul, Nat.div_add_mod] at within
  refine ⟨gap, scale, ?_⟩
  rwa [magnitude_seconds, whole, Nat.min_eq_left finite]

theorem micros_close (small : d.nanos < 2 ^ 33 * 10 ^ 9) :
    d.nanos < 1000 * d.micros + 1000 ∧ 1000 * d.micros < d.nanos + 1000 := by
  obtain ⟨gap, scale, below, above⟩ := exists_within_seconds small
  have printed : Nearest (units d.seconds.magnitude * 10 ^ 6) one d.micros :=
    nearest_nearest pos_one
  obtain ⟨below', above', -⟩ := printed
  have unit := pos_one
  -- The errors of the doubles stay below a half, and printing adds a half at most.
  have room : gap * 10 ^ 9 < 1000 * one := by omega
  constructor
  · refine Nat.lt_of_mul_lt_mul_right (a := one) ?_
    have expand : (1000 * d.micros + 1000) * one = 500 * (2 * d.micros * one) + 1000 * one := by
      ring
    omega
  · refine Nat.lt_of_mul_lt_mul_right (a := one) ?_
    have expand : 2 * (1000 * d.micros * one) = 1000 * (2 * d.micros * one) := by ring
    have expand' : (d.nanos + 1000) * one = d.nanos * one + 1000 * one := by ring
    omega

theorem micros_eq (small : d.nanos < 2 ^ 33 * 10 ^ 9) (whole : 10 ^ 3 ∣ d.nanos) :
    d.micros = d.nanos / 10 ^ 3 := by
  obtain ⟨below, above⟩ := micros_close small
  obtain ⟨n, eq⟩ := whole
  omega

end Duration

namespace Exposition.Series

variable {d : Duration}

theorem toList_sixPlaces (small : d.nanos < 2 ^ 33 * 10 ^ 9) (whole : 10 ^ 3 ∣ d.nanos) :
    (sixPlaces d).toList = Nat.toDigits 10 (d.nanos / 10 ^ 9) ++
      '.' :: padded 6 (d.nanos % 10 ^ 9 / 10 ^ 3) := by
  have seconds : d.nanos / 10 ^ 3 / 10 ^ 6 = d.nanos / 10 ^ 9 := Nat.div_div_eq_div_mul ..
  have rest : d.nanos / 10 ^ 3 % 10 ^ 6 = d.nanos % 10 ^ 9 / 10 ^ 3 := by omega
  rw [sixPlaces_eq, String.toList_ofList, Duration.micros_eq small whole, placed_eq, seconds, rest]

structure Accurate (d : Duration) : Prop where
  printed : ∀ t : OperationTiming, (t.total = d → Series.seconds.sample t = sixPlaces d) ∧
    (t.max = d → Series.slowest.sample t = sixPlaces d)
  monotone : ∀ e : Duration, d.nanos ≤ e.nanos → ∃ x y, decimal? (sixPlaces d).toList = some x ∧
    decimal? (sixPlaces e).toList = some y ∧ x ≤ y
  close : d.nanos < 2 ^ 33 * 10 ^ 9 → ∃ x, decimal? (sixPlaces d).toList = some x ∧
    |x - d.nanos / 10 ^ 9| < 1 / 10 ^ 6
  exact : d.nanos < 2 ^ 33 * 10 ^ 9 → 10 ^ 3 ∣ d.nanos → ∃ places : List Char,
    (sixPlaces d).toList = Nat.toDigits 10 (d.nanos / 10 ^ 9) ++ '.' :: places ∧
    places.length = 6 ∧ places.all Char.isDigit = true ∧
    Nat.ofDigitChars 10 places 0 = d.nanos % 10 ^ 9 / 10 ^ 3

/-- Four roundings, one after another, keep the order of spans and lose less than a microsecond. -/
theorem accurate_sixPlaces (d : Duration) : Accurate d := by
  constructor
  case printed =>
    intro t
    exact ⟨fun total => congrArg sixPlaces total, fun max => congrArg sixPlaces max⟩
  case monotone =>
    intro e le
    refine ⟨_, _, decimal?_sixPlaces d, decimal?_sixPlaces e, ?_⟩
    exact div_le_div_of_nonneg_right (Nat.cast_le.2 (Duration.micros_mono le)) (by positivity)
  case close =>
    intro small
    refine ⟨_, decimal?_sixPlaces d, ?_⟩
    obtain ⟨below, above⟩ := Duration.micros_close small
    have below : (d.nanos : ℚ) < 1000 * d.micros + 1000 := by exact_mod_cast below
    have above : (1000 * d.micros : ℚ) < d.nanos + 1000 := by exact_mod_cast above
    rw [abs_lt]
    constructor <;> linarith
  case exact =>
    intro small whole
    refine ⟨_, toList_sixPlaces small whole, length_padded (by decide) (by omega), ?_,
      ofDigitChars_padded ..⟩
    exact List.all_eq_true.2 fun _ => isDigit_of_mem_padded

end Exposition.Series

end Autoscaling
