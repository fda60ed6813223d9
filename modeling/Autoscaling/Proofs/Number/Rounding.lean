import Autoscaling.Number.Binary64
import Mathlib.Tactic.Linarith
import Mathlib.Tactic.Ring

namespace Autoscaling.Number

/-- No whole number is nearer to `num / den`, and an odd one is as near as none. -/
structure Nearest (num den n : Nat) : Prop where
  below : 2 * n * den ≤ 2 * num + den
  above : 2 * num ≤ 2 * n * den + den
  even : 2 * n * den = 2 * num + den ∨ 2 * num = 2 * n * den + den → n % 2 = 0

variable {num num' den den' m m' n n' : Nat}

theorem nearest_nearest (pos : 0 < den) : Nearest num den (nearest .even num den) := by
  have division := Nat.div_add_mod num den
  have less := Nat.mod_lt num pos
  unfold nearest Tie.carry
  generalize num / den = q, num % den = r at *
  subst division
  have expand : 2 * (q + 1) * den = 2 * (den * q) + 2 * den := by ring
  have expand' : 2 * q * den = 2 * (den * q) := by ring
  dsimp only
  split
  · exact ⟨by omega, by omega, by omega⟩
  · split
    · exact ⟨by omega, by omega, by omega⟩
    · rcases Nat.mod_two_eq_zero_or_one q with even | odd
      · rw [even, Nat.add_zero]
        exact ⟨by omega, by omega, fun _ => even⟩
      · rw [odd]
        exact ⟨by omega, by omega, fun _ => by omega⟩

theorem Nearest.le (nearest : Nearest num den n) (nearest' : Nearest num' den n') (pos : 0 < den)
    (le : num ≤ num') : n ≤ n' := by
  by_contra more
  obtain ⟨gap, rfl⟩ := Nat.exists_eq_add_of_lt (Nat.lt_of_not_le more)
  have below := nearest.below
  have above := nearest'.above
  have expand : 2 * (n' + gap + 1) * den = 2 * n' * den + 2 * (gap * den) + 2 * den := by ring
  have close : gap * den = 0 := by omega
  have none : gap = 0 := (Nat.mul_eq_zero.1 close).resolve_right (Nat.ne_of_gt pos)
  have even := nearest.even (.inl (by omega))
  have even' := nearest'.even (.inr (by omega))
  omega

theorem nearest_mono (pos : 0 < den) (le : num ≤ num') :
    nearest .even num den ≤ nearest .even num' den :=
  (nearest_nearest pos).le (nearest_nearest pos) pos le

namespace Binary64

theorem units_grid {k q : Nat} (normal : k = 0 ∨ 2 ^ 52 ≤ q) (le : q ≤ 2 ^ 53) :
    units (k * 2 ^ 52 + q) = q * 2 ^ k := by
  unfold units
  rcases Nat.lt_or_ge q (2 ^ 52) with small | large
  · obtain rfl : k = 0 := normal.resolve_right (Nat.not_le.2 small)
    rw [if_pos (by omega)]
    omega
  · rw [if_neg (by omega)]
    rcases Nat.lt_or_eq_of_le le with less | rfl
    · rw [show (k * 2 ^ 52 + q) % 2 ^ 52 = q - 2 ^ 52 by omega,
        show (k * 2 ^ 52 + q) / 2 ^ 52 - 1 = k by omega,
        show 2 ^ 52 + (q - 2 ^ 52) = q by omega]
    · rw [show (k * 2 ^ 52 + 2 ^ 53) % 2 ^ 52 = 0 by omega,
        show (k * 2 ^ 52 + 2 ^ 53) / 2 ^ 52 - 1 = k + 1 by omega, Nat.pow_succ]
      ring

theorem exists_grid (m : Nat) :
    ∃ k q, (k = 0 ∨ 2 ^ 52 ≤ q) ∧ q < 2 ^ 53 ∧ k = m / 2 ^ 52 - 1 ∧ m = k * 2 ^ 52 + q :=
  ⟨m / 2 ^ 52 - 1, m - (m / 2 ^ 52 - 1) * 2 ^ 52, by omega, by omega, rfl, by omega⟩

theorem units_succ (m : Nat) : units (m + 1) = units m + 2 ^ (m / 2 ^ 52 - 1) := by
  obtain ⟨k, q, normal, less, kth, eq⟩ := exists_grid m
  rw [← kth, eq, Nat.add_assoc, units_grid (normal.imp_right (Nat.le_succ_of_le)) less,
    units_grid normal (Nat.le_of_lt less), Nat.succ_mul]

theorem units_strictMono : StrictMono units :=
  strictMono_nat_of_lt_succ fun m => units_succ m ▸ Nat.lt_add_of_pos_right (Nat.two_pow_pos _)

@[simp] theorem units_zero : units 0 = 0 := by simp [units]

/-- No double is nearer to `num / den` units, and one with an odd significand is as near as none. -/
structure Rounds (num den m : Nat) : Prop where
  below : (units (m - 1) + units m) * den ≤ 2 * num
  above : 2 * num ≤ (units m + units (m + 1)) * den
  even : 2 * num = (units (m - 1) + units m) * den ∨ 2 * num = (units m + units (m + 1)) * den →
    m % 2 = 0

theorem rounds_grid {k q : Nat} (normal : k = 0 ∨ 2 ^ 52 ≤ q) (le : q ≤ 2 ^ 53)
    (near : Nearest num (den * 2 ^ k) q) (large : k = 0 ∨ 2 ^ 52 * 2 ^ k * den ≤ num) :
    Rounds num den (k * 2 ^ 52 + q) := by
  have here := units_grid normal le
  have next : q * 2 ^ k + 2 ^ k ≤ units (k * 2 ^ 52 + q + 1) := by
    rw [units_succ, here]
    exact Nat.add_le_add_left (Nat.pow_le_pow_right (by decide) (by omega)) _
  have above : 2 * q * (den * 2 ^ k) + den * 2 ^ k ≤
      (units (k * 2 ^ 52 + q) + units (k * 2 ^ 52 + q + 1)) * den := calc
    _ = (q * 2 ^ k + (q * 2 ^ k + 2 ^ k)) * den := by ring
    _ ≤ _ := Nat.mul_le_mul_right den (Nat.add_le_add (Nat.le_of_eq here.symm) next)
  rcases Nat.eq_zero_or_pos q with rfl | pos
  · obtain rfl : k = 0 := by omega
    exact ⟨by simp, Nat.le_trans near.above above, fun _ => rfl⟩
  · by_cases edge : k ≠ 0 ∧ q = 2 ^ 52
    · -- The neighbour below lies on a finer grid, but the value is not below its own double.
      obtain ⟨wide, rfl⟩ := edge
      have le := units_strictMono.monotone (Nat.sub_le (k * 2 ^ 52 + 2 ^ 52) 1)
      refine ⟨?_, Nat.le_trans near.above above, fun _ => by omega⟩
      calc
        _ ≤ (2 ^ 52 * 2 ^ k + 2 ^ 52 * 2 ^ k) * den :=
          Nat.mul_le_mul_right den (Nat.add_le_add (here ▸ le) (Nat.le_of_eq here))
        _ = 2 * (2 ^ 52 * 2 ^ k * den) := by ring
        _ ≤ 2 * num := Nat.mul_le_mul_left 2 (large.resolve_left wide)
    · have before : units (k * 2 ^ 52 + q - 1) + 2 ^ k = q * 2 ^ k := by
        obtain ⟨q, rfl⟩ : ∃ p, q = p + 1 := ⟨q - 1, by omega⟩
        rw [← Nat.add_assoc, Nat.add_sub_cancel, units_grid (by omega) (by omega), Nat.succ_mul]
      have below : (units (k * 2 ^ 52 + q - 1) + units (k * 2 ^ 52 + q)) * den + den * 2 ^ k =
          2 * q * (den * 2 ^ k) := by
        rw [here]
        calc
          _ = (units (k * 2 ^ 52 + q - 1) + 2 ^ k + q * 2 ^ k) * den := by ring
          _ = _ := by rw [before]; ring
      refine ⟨by have := near.below; omega, Nat.le_trans near.above above, fun tie => ?_⟩
      have even := near.even (by have := near.above; omega)
      omega

theorem rounds_nearestMagnitude (num : Nat) (pos : 0 < den) :
    Rounds num den (nearestMagnitude num den) := by
  unfold nearestMagnitude
  have scale : (num / den).log2 - 52 = 0 ∨ 2 ^ 52 * 2 ^ ((num / den).log2 - 52) ≤ num / den := by
    by_cases small : (num / den).log2 ≤ 52
    · exact .inl (by omega)
    · right
      rw [← Nat.pow_add, Nat.add_sub_cancel' (by omega)]
      exact Nat.log2_self_le fun zero => by simp [zero] at small
  have fits : num / den < 2 ^ 53 * 2 ^ ((num / den).log2 - 52) := by
    rw [← Nat.pow_add]
    exact Nat.lt_of_lt_of_le Nat.lt_log2_self (Nat.pow_le_pow_right (by decide) (by omega))
  generalize (num / den).log2 - 52 = k at *
  have two := Nat.two_pow_pos k
  have floor := nearest_eq_or .even num (den * 2 ^ k)
  rw [← Nat.div_div_eq_div_mul] at floor
  have less := (Nat.div_lt_iff_lt_mul two).2 fits
  have more : k = 0 ∨ 2 ^ 52 ≤ num / den / 2 ^ k :=
    scale.imp_right (Nat.le_div_iff_mul_le two).2
  refine rounds_grid (more.imp_right (by omega)) (by omega)
    (nearest_nearest (Nat.mul_pos pos two)) (scale.imp_right fun le => ?_)
  exact (Nat.le_div_iff_mul_le pos).1 le

theorem Rounds.le (rounds : Rounds num den m) (rounds' : Rounds num' den' m') (pos : 0 < den)
    (pos' : 0 < den') (le : num * den' ≤ num' * den) : m ≤ m' := by
  by_contra more
  have low : units m' ≤ units (m - 1) := units_strictMono.monotone (by omega)
  have high : units (m' + 1) ≤ units m := units_strictMono.monotone (by omega)
  have middles := Nat.add_le_add low high
  have up : (units (m - 1) + units m) * (den * den') ≤ 2 * (num * den') := calc
    _ = (units (m - 1) + units m) * den * den' := (Nat.mul_assoc ..).symm
    _ ≤ 2 * num * den' := Nat.mul_le_mul_right den' rounds.below
    _ = _ := Nat.mul_assoc ..
  have down : 2 * (num' * den) ≤ (units m' + units (m' + 1)) * (den * den') := calc
    _ = 2 * num' * den := (Nat.mul_assoc ..).symm
    _ ≤ (units m' + units (m' + 1)) * den' * den := Nat.mul_le_mul_right den rounds'.above
    _ = _ := by ring
  have within := Nat.mul_le_mul_right (den * den') middles
  -- Both values lie on the one middle between `m'` and `m`, so both magnitudes are even.
  have same : units m' + units (m' + 1) = units (m - 1) + units m :=
    Nat.eq_of_mul_eq_mul_right (Nat.mul_pos pos pos') (by omega)
  have tie : 2 * num = (units (m - 1) + units m) * den :=
    Nat.eq_of_mul_eq_mul_right pos' (by rw [Nat.mul_assoc, Nat.mul_assoc]; omega)
  have tie' : 2 * num' = (units m' + units (m' + 1)) * den' :=
    Nat.eq_of_mul_eq_mul_right pos (by
      rw [Nat.mul_assoc, Nat.mul_assoc, Nat.mul_comm den']
      omega)
  have neighbours : m' = m - 1 := units_strictMono.injective (by omega)
  have even := rounds.even (.inl tie)
  have even' := rounds'.even (.inr tie')
  omega

theorem nearestMagnitude_eq (rounds : Rounds num den m) (pos : 0 < den) :
    nearestMagnitude num den = m :=
  have rounds' := rounds_nearestMagnitude num pos
  Nat.le_antisymm (rounds'.le rounds pos pos (Nat.le_refl _))
    (rounds.le rounds' pos pos (Nat.le_refl _))

theorem nearestMagnitude_mono (pos : 0 < den) (le : num ≤ num') :
    nearestMagnitude num den ≤ nearestMagnitude num' den :=
  (rounds_nearestMagnitude num pos).le (rounds_nearestMagnitude num' pos) pos pos
    (Nat.mul_le_mul_right den le)

@[simp] theorem nearestMagnitude_units (m : Nat) : nearestMagnitude (units m) 1 = m := by
  have below : units (m - 1) ≤ units m := units_strictMono.monotone (Nat.sub_le m 1)
  have above : units m < units (m + 1) := units_strictMono (Nat.lt_succ_self m)
  refine nearestMagnitude_eq ⟨by omega, by omega, fun tie => ?_⟩ Nat.one_pos
  rcases Nat.eq_zero_or_pos m with rfl | pos
  · rfl
  · have less : units (m - 1) < units m := units_strictMono (Nat.sub_lt pos Nat.one_pos)
    omega

theorem pos_one : 0 < one := by decide +kernel

theorem nearestMagnitude_lt_infinity (le : n ≤ 2 ^ 64) : nearestMagnitude (n * one) 1 < infinity :=
  Nat.lt_of_le_of_lt (nearestMagnitude_mono Nat.one_pos (Nat.mul_le_mul_right one le))
    (by decide +kernel)

theorem exists_units_eq {q : Nat} (k : Nat) (le : q ≤ 2 ^ 53) : ∃ m, units m = q * 2 ^ k := by
  induction k generalizing q with
  | zero => exact ⟨0 * 2 ^ 52 + q, units_grid (.inl rfl) le⟩
  | succ k ih =>
    by_cases normal : 2 ^ 52 ≤ q
    · exact ⟨_, units_grid (.inr normal) le⟩
    · obtain ⟨m, eq⟩ := ih (q := 2 * q) (by omega)
      exact ⟨m, by rw [eq, Nat.pow_succ]; ring⟩

theorem units_nearestMagnitude {w : Nat} (le : w ≤ 2 ^ 53) :
    units (nearestMagnitude (w * one) 1) = w * one := by
  obtain ⟨m, eq⟩ := exists_units_eq 1074 le
  rw [one, ← eq, nearestMagnitude_units]

theorem nearestMagnitude_mul_right (num : Nat) {den k : Nat} (pos : 0 < k) :
    nearestMagnitude (num * k) (den * k) = nearestMagnitude num den := by
  have quotient (scale : Nat) : nearest .even (num * k) (den * k * scale) =
      nearest .even num (den * scale) := by
    have less (a b : Nat) : a * k < b * k ↔ a < b := Nat.mul_lt_mul_right pos
    rw [Nat.mul_right_comm]
    simp only [nearest, Nat.mul_div_mul_right _ _ pos, Nat.mul_mod_mul_right, ← Nat.mul_assoc, less]
  simp only [nearestMagnitude, Nat.mul_div_mul_right _ _ pos, quotient]

end Binary64

end Autoscaling.Number
