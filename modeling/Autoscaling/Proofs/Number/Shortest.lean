import Autoscaling.Number.Shortest
import Autoscaling.Proofs.Number.Rounding
import Mathlib.Algebra.Order.Field.Rat
import Mathlib.Data.Nat.Cast.Order.Field
import Mathlib.Tactic.Ring
import Mathlib.Tactic.Positivity

namespace Autoscaling.Number

namespace Binary64

variable {num den m : Nat} {x : ℚ}

/-- So many units, not necessarily whole, are rounded to the magnitude. -/
structure RoundsTo (x : ℚ) (m : Nat) : Prop where
  below : ((units (m - 1) + units m : Nat) : ℚ) ≤ 2 * x
  above : 2 * x ≤ (units m + units (m + 1) : Nat)
  even : 2 * x = (units (m - 1) + units m : Nat) ∨ 2 * x = (units m + units (m + 1) : Nat) →
    m % 2 = 0

theorem rounds_iff (pos : 0 < den) : Rounds num den m ↔ RoundsTo (num / den) m := by
  have pos : (0 : ℚ) < den := Nat.cast_pos.2 pos
  have below (a : Nat) : (a : ℚ) ≤ 2 * (num / den) ↔ a * den ≤ 2 * num := by
    rw [← mul_div_assoc, le_div_iff₀ pos]
    exact_mod_cast Iff.rfl
  have above (a : Nat) : 2 * (num / den : ℚ) ≤ a ↔ 2 * num ≤ a * den := by
    rw [← mul_div_assoc, div_le_iff₀ pos]
    exact_mod_cast Iff.rfl
  have tie (a : Nat) : 2 * (num / den : ℚ) = a ↔ 2 * num = a * den := by
    rw [← mul_div_assoc, div_eq_iff pos.ne']
    exact_mod_cast Iff.rfl
  constructor
  · rintro ⟨low, high, even⟩
    exact ⟨(below _).2 low, (above _).2 high, by rwa [tie, tie]⟩
  · rintro ⟨low, high, even⟩
    exact ⟨(below _).1 low, (above _).1 high, by rwa [tie, tie] at even⟩

theorem roundsTo_of_le (le : x ≤ units m) (low : (units (m - 1) + units m : Nat) < 2 * x) :
    RoundsTo x m := by
  have next : (units m : ℚ) < units (m + 1) := Nat.cast_lt.2 (units_strictMono (Nat.lt_succ_self m))
  push_cast at low
  refine ⟨?_, ?_, ?_⟩
  all_goals push_cast
  · linarith
  · linarith
  · rintro (tie | tie) <;> linarith

theorem roundsTo_of_lt (lt : units m < x) (high : 2 * x < (units m + units (m + 1) : Nat)) :
    RoundsTo x m := by
  have before : (units (m - 1) : ℚ) ≤ units m :=
    Nat.cast_le.2 (units_strictMono.monotone (Nat.sub_le m 1))
  push_cast at high
  refine ⟨?_, ?_, ?_⟩
  all_goals push_cast
  · linarith
  · linarith
  · rintro (tie | tie) <;> linarith

theorem width (pos : 0 < m) :
    2 * units m + 10 ^ 16 * units (m - 1) < 10 ^ 16 * units (m + 1) := by
  obtain ⟨k, q, normal, less, kth, rfl⟩ := exists_grid m
  have here := units_grid normal (Nat.le_of_lt less)
  have next := units_succ (k * 2 ^ 52 + q)
  rw [← kth] at next
  have before := units_succ (k * 2 ^ 52 + q - 1)
  rw [Nat.sub_add_cancel pos] at before
  have two := Nat.two_pow_pos k
  by_cases edge : k ≠ 0 ∧ q = 2 ^ 52
  · -- The neighbour below lies on a finer grid, but the value is small for the grid it lies on.
    obtain ⟨wide, rfl⟩ := edge
    rw [show (k * 2 ^ 52 + 2 ^ 52 - 1) / 2 ^ 52 - 1 = k - 1 by omega] at before
    have half : 2 ^ k = 2 * 2 ^ (k - 1) := by
      rw [← Nat.pow_succ', Nat.succ_eq_add_one, Nat.sub_add_cancel (Nat.pos_of_ne_zero wide)]
    omega
  · rw [show (k * 2 ^ 52 + q - 1) / 2 ^ 52 - 1 = k by omega] at before
    have small : q * 2 ^ k ≤ 2 ^ 53 * 2 ^ k := Nat.mul_le_mul_right _ (Nat.le_of_lt less)
    omega

end Binary64

namespace Decimal

open Binary64

def inUnits (c : Nat) (p : ℤ) : ℚ := c * 10 ^ p * one

theorem inUnits_eq (c : Nat) (p : ℤ) :
    inUnits c p = (c * 10 ^ p.toNat * one : Nat) / (10 ^ (-p).toNat : Nat) := by
  have ten : (10 : ℚ) ^ p = 10 ^ p.toNat / 10 ^ (-p).toNat := by
    rw [← zpow_natCast, ← zpow_natCast, ← zpow_sub₀ (by norm_num)]
    congr 1
    omega
  rw [inUnits, ten]
  push_cast
  ring

variable {m c : Nat} {p : ℤ} {tie : Tie} {d : Decimal}

theorem roundsTo_iff : roundsTo m c p = true ↔ RoundsTo (inUnits c p) m := by
  rw [inUnits_eq, ← rounds_iff (Nat.pow_pos (by decide))]
  have point : c * 10 ^ p.toNat * (2 * one) = 2 * (c * 10 ^ p.toNat * one) := by ring
  unfold roundsTo
  rw [point]
  generalize c * 10 ^ p.toNat * one = num, 10 ^ (-p).toNat = den
  dsimp only
  split
  · next even =>
    rw [Bool.and_eq_true, decide_eq_true_eq, decide_eq_true_eq]
    exact ⟨fun ⟨low, high⟩ => ⟨low, high, fun _ => even⟩, fun rounds => ⟨rounds.below, rounds.above⟩⟩
  · next odd =>
    rw [Bool.and_eq_true, decide_eq_true_eq, decide_eq_true_eq]
    constructor
    · rintro ⟨low, high⟩
      exact ⟨Nat.le_of_lt low, Nat.le_of_lt high, by omega⟩
    · rintro ⟨low, high, even⟩
      exact ⟨by omega, by omega⟩

theorem inUnits_succ (c : Nat) (p : ℤ) : inUnits (c + 1) p = inUnits c p + inUnits 1 p := by
  simp only [inUnits]
  push_cast
  ring

theorem grid (m : Nat) (p : ℤ) :
    inUnits (2 * units m * 10 ^ (-p).toNat / (10 ^ p.toNat * (2 * one))) p ≤ units m ∧
    units m < inUnits (2 * units m * 10 ^ (-p).toNat / (10 ^ p.toNat * (2 * one)) + 1) p := by
  have scale : (0 : ℚ) < (10 ^ (-p).toNat : Nat) := Nat.cast_pos.2 (Nat.pow_pos (by decide))
  have positive : 0 < 10 ^ p.toNat * (2 * one) :=
    Nat.mul_pos (Nat.pow_pos (by decide)) (Nat.mul_pos Nat.two_pos pos_one)
  have expand (c : Nat) : 2 * (c * 10 ^ p.toNat * one) = c * (10 ^ p.toNat * (2 * one)) := by ring
  have division := Nat.div_add_mod (2 * units m * 10 ^ (-p).toNat) (10 ^ p.toNat * (2 * one))
  have less := Nat.mod_lt (2 * units m * 10 ^ (-p).toNat) positive
  generalize 2 * units m * 10 ^ (-p).toNat / (10 ^ p.toNat * (2 * one)) = c at *
  rw [inUnits_eq, inUnits_eq, div_le_iff₀ scale, lt_div_iff₀ scale, ← Nat.cast_mul, Nat.cast_le,
    Nat.cast_lt]
  have here := expand c
  have next := (expand (c + 1)).trans (Nat.succ_mul ..)
  rw [Nat.mul_comm _ c, Nat.mul_assoc 2] at division
  rw [Nat.mul_assoc 2] at less
  generalize 10 ^ p.toNat * (2 * one) = step at *
  generalize 2 * (units m * 10 ^ (-p).toNat) % step = rest at *
  constructor <;> omega

theorem roundsTo_of_onGrid (found : onGrid tie m p = some d) :
    RoundsTo (inUnits d.significand d.exponent) m := by
  unfold onGrid at found
  generalize 2 * units m * 10 ^ (-p).toNat = value, 10 ^ p.toNat * (2 * one) = step at found
  dsimp only at found
  split at found
  · next low high =>
    cases found
    change RoundsTo (inUnits (nearest tie value step) p) m
    rcases nearest_eq_or tie value step with eq | eq
    · rw [eq]
      exact roundsTo_iff.1 low
    · rw [eq]
      exact roundsTo_iff.1 high
  · next low _ =>
    cases found
    exact roundsTo_iff.1 low
  · next _ high =>
    cases found
    exact roundsTo_iff.1 high
  · cases found

theorem exists_onGrid (fine : 2 * inUnits 1 p + units (m - 1) < units (m + 1)) :
    ∃ d, onGrid tie m p = some d := by
  obtain ⟨low, high⟩ := grid m p
  unfold onGrid
  generalize 2 * units m * 10 ^ (-p).toNat = value, 10 ^ p.toNat * (2 * one) = step at low high ⊢
  dsimp only
  cases down : roundsTo m (value / step) p with
  | true => cases roundsTo m (value / step + 1) p <;> exact ⟨_, rfl⟩
  | false =>
    cases up : roundsTo m (value / step + 1) p with
    | true => exact ⟨_, rfl⟩
    | false =>
      rw [← Bool.not_eq_true, roundsTo_iff] at down up
      have below := not_lt.1 fun less => down (roundsTo_of_le low less)
      have above := not_lt.1 fun less => up (roundsTo_of_lt high less)
      rw [inUnits_succ] at above
      push_cast at below above
      linarith

theorem roundsTo_of_firstOnGrid {tries : Nat} (found : firstOnGrid tie m tries p = some d) :
    RoundsTo (inUnits d.significand d.exponent) m := by
  induction tries generalizing p with
  | zero => cases found
  | succ tries ih =>
    rw [firstOnGrid] at found
    cases here : onGrid tie m p with
    | none => exact ih (by simpa [here] using found)
    | some e =>
      obtain rfl : e = d := by simpa [here] using found
      exact roundsTo_of_onGrid here

theorem exists_firstOnGrid {tries : Nat} (last : ∃ d, onGrid tie m (p - tries) = some d) :
    ∃ d, firstOnGrid tie m (tries + 1) p = some d := by
  induction tries generalizing p with
  | zero =>
    obtain ⟨d, last⟩ := last
    exact ⟨d, by simpa [firstOnGrid] using last⟩
  | succ tries ih =>
    rw [firstOnGrid]
    cases onGrid tie m p with
    | some d => exact ⟨d, rfl⟩
    | none => exact ih (by rwa [sub_sub, add_comm, ← Nat.cast_succ])

theorem pow_le_of_length_toDigits {k n : Nat} (pos : 0 < n)
    (length : (Nat.toDigits 10 n).length = k + 1) : 10 ^ k ≤ n := by
  rcases Nat.eq_zero_or_pos k with rfl | some
  · exact pos
  · by_contra less
    have := (Nat.length_toDigits_le_iff (by decide) some).2 (Nat.lt_of_not_le less)
    omega

theorem two_mul_one_lt : 2 * one < 10 ^ 330 := by decide +kernel

theorem inUnits_order_le (pos : 0 < m) : inUnits 1 (order m) ≤ units m := by
  have unit : one ≤ 10 ^ 330 := by
    have := two_mul_one_lt
    omega
  obtain ⟨k, length⟩ : ∃ k, (Nat.toDigits 10 (units m * 10 ^ 330 / one)).length = k + 1 :=
    Nat.exists_eq_succ_of_ne_zero (mt List.length_eq_zero_iff.1 Nat.toDigits_ne_nil)
  have eq : order m = k - (330 : Nat) := by
    rw [order, length]
    push_cast
    ring
  have large : 0 < units m := Nat.lt_of_le_of_lt (Nat.zero_le _) (units_strictMono pos)
  have le : 10 ^ k * one ≤ units m * 10 ^ 330 := by
    refine (Nat.le_div_iff_mul_le pos_one).1 (pow_le_of_length_toDigits ?_ length)
    exact Nat.div_pos (Nat.le_trans unit (Nat.le_mul_of_pos_left _ large)) pos_one
  have le : (10 ^ k * one : ℚ) ≤ units m * 10 ^ 330 := by
    have le : ((10 ^ k * one : Nat) : ℚ) ≤ (units m * 10 ^ 330 : Nat) := Nat.cast_le.2 le
    simpa only [Nat.cast_mul, Nat.cast_pow, Nat.cast_ofNat] using le
  rw [inUnits, eq, zpow_sub₀ (by norm_num), zpow_natCast, zpow_natCast, Nat.cast_one, one_mul,
    div_mul_eq_mul_div, div_le_iff₀ (by positivity)]
  exact le

theorem roundsTo_shortest (pos : 0 < m) (tie : Tie) :
    RoundsTo (inUnits (shortest tie m).significand (shortest tie m).exponent) m := by
  have last : ∃ d, onGrid tie m (order m - (16 : Nat)) = some d := by
    apply exists_onGrid
    have wide : (2 * units m + 10 ^ 16 * units (m - 1) : ℚ) < 10 ^ 16 * units (m + 1) := by
      exact_mod_cast width pos
    have order := inUnits_order_le pos
    have finer : inUnits 1 (Decimal.order m - (16 : Nat)) * 10 ^ 16 = inUnits 1 (Decimal.order m) := by
      rw [inUnits, inUnits, zpow_sub₀ (by norm_num), zpow_natCast]
      generalize (10 : ℚ) ^ Decimal.order m = scale, (one : ℚ) = unit
      ring
    linarith
  obtain ⟨d, found⟩ := exists_firstOnGrid last
  rw [shortest, if_neg (Nat.ne_of_gt pos), found]
  exact roundsTo_of_firstOnGrid found

theorem inUnits_lt (c : Nat) (p : ℤ) :
    inUnits c p < 10 ^ ((Nat.toDigits 10 c).length + p) * one := by
  have unit : (0 : ℚ) < one := Nat.cast_pos.2 pos_one
  have some : 0 < (Nat.toDigits 10 c).length := List.length_pos_iff.2 Nat.toDigits_ne_nil
  have less : c < 10 ^ (Nat.toDigits 10 c).length :=
    (Nat.length_toDigits_le_iff (by decide) some).1 (Nat.le_refl _)
  have less : (c : ℚ) < 10 ^ (Nat.toDigits 10 c).length := by exact_mod_cast less
  rw [inUnits, zpow_add₀ (by norm_num), zpow_natCast]
  exact mul_lt_mul_of_pos_right (mul_lt_mul_of_pos_right less (zpow_pos (by norm_num) p)) unit

theorem le_inUnits (pos : 0 < c) (p : ℤ) :
    10 ^ ((Nat.toDigits 10 c).length - 1 + p) * one ≤ inUnits c p := by
  obtain ⟨k, length⟩ : ∃ k, (Nat.toDigits 10 c).length = k + 1 :=
    Nat.exists_eq_succ_of_ne_zero (mt List.length_eq_zero_iff.1 Nat.toDigits_ne_nil)
  have le : (10 ^ k : ℚ) ≤ c := by exact_mod_cast pow_le_of_length_toDigits pos length
  rw [inUnits, length, Nat.cast_succ, add_sub_cancel_right, zpow_add₀ (by norm_num), zpow_natCast]
  exact mul_le_mul_of_nonneg_right (mul_le_mul_of_nonneg_right le (zpow_nonneg (by norm_num) p))
    (Nat.cast_nonneg _)

theorem one_le_of_roundsTo {x : ℚ} (rounds : RoundsTo x m) (pos : 0 < m) : 1 ≤ 2 * x := by
  have := units_strictMono pos
  exact le_trans (Nat.one_le_cast.2 (by omega)) rounds.below

theorem pos_of_roundsTo (rounds : RoundsTo (inUnits c p) m) (pos : 0 < m) : 0 < c := by
  have low := one_le_of_roundsTo rounds pos
  refine Nat.pos_of_ne_zero ?_
  rintro rfl
  rw [inUnits, Nat.cast_zero, zero_mul, zero_mul] at low
  linarith

theorem order_of_roundsTo (rounds : RoundsTo (inUnits c p) m) (pos : 0 < m) (finite : m < infinity) :
    c ≠ 0 ∧ -330 ≤ (Nat.toDigits 10 c).length + p ∧ (Nat.toDigits 10 c).length + p ≤ 330 := by
  have low := one_le_of_roundsTo rounds pos
  have high : 2 * inUnits c p ≤ (2 * units infinity : Nat) := by
    have := units_strictMono.monotone (Nat.le_of_lt finite)
    have := units_strictMono.monotone (show m + 1 ≤ infinity from finite)
    exact le_trans rounds.above (Nat.cast_le.2 (by omega))
  have some := pos_of_roundsTo rounds pos
  refine ⟨Nat.ne_of_gt some, ?_, ?_⟩
  · by_contra less
    have tiny : (2 * one : ℚ) < 10 ^ 330 := by
      have tiny : ((2 * one : Nat) : ℚ) < (10 ^ 330 : Nat) := Nat.cast_lt.2 two_mul_one_lt
      simpa only [Nat.cast_mul, Nat.cast_pow, Nat.cast_ofNat] using tiny
    have small : (10 : ℚ) ^ ((Nat.toDigits 10 c).length + p) ≤ 10 ^ (-(330 : Nat) : ℤ) :=
      zpow_le_zpow_right₀ (by norm_num) (by omega)
    rw [zpow_neg, zpow_natCast] at small
    have small := mul_le_mul_of_nonneg_right small (Nat.cast_nonneg one)
    rw [← div_eq_inv_mul, le_div_iff₀ (by positivity)] at small
    have value := inUnits_lt c p
    have positive : (0 : ℚ) < 10 ^ 330 := by positivity
    generalize (10 : ℚ) ^ 330 = bound at *
    have more := mul_lt_mul_of_pos_right (lt_of_le_of_lt low (mul_lt_mul_of_pos_left value two_pos))
      positive
    linarith
  · by_contra more
    have huge : (units infinity : ℚ) < 10 ^ 330 * one := by
      have huge : (units infinity : ℚ) < (10 ^ 330 * one : Nat) := Nat.cast_lt.2 (by decide +kernel)
      simpa only [Nat.cast_mul, Nat.cast_pow, Nat.cast_ofNat] using huge
    have large : (10 : ℚ) ^ ((330 : Nat) : ℤ) ≤ 10 ^ ((Nat.toDigits 10 c).length - 1 + p) :=
      zpow_le_zpow_right₀ (by norm_num) (by omega)
    rw [zpow_natCast] at large
    have large := mul_le_mul_of_nonneg_right large (Nat.cast_nonneg one)
    have value := le_inUnits some p
    rw [Nat.cast_mul, Nat.cast_ofNat] at high
    generalize (10 : ℚ) ^ 330 = bound at *
    linarith

theorem ofDecimal_eq {x : Binary64} (rounds : RoundsTo (inUnits c p) x.magnitude)
    (pos : 0 < x.magnitude) (finite : x.isFinite = true) : ofDecimal x.negative c p = x := by
  have finite : x.magnitude < infinity := of_decide_eq_true finite
  obtain ⟨nonzero, low, high⟩ := order_of_roundsTo rounds pos finite
  rw [inUnits_eq, ← rounds_iff (Nat.pow_pos (by decide))] at rounds
  have nearest := nearestMagnitude_eq rounds (Nat.pow_pos (by decide))
  have exact : min x.magnitude infinity = x.magnitude := Nat.min_eq_left (Nat.le_of_lt finite)
  rw [ofDecimal, if_neg (by omega), if_neg (by omega), ofUnits]
  simp only [nearest, exact]

end Decimal

end Autoscaling.Number
