import Autoscaling.Exposition
import Autoscaling.Proofs.Number.Decimals
import Autoscaling.Proofs.Number.Rounding

namespace Autoscaling

open Number Number.Binary64

namespace Duration

def wholeMagnitude (w : Nat) : Nat := nearestMagnitude (w * one) 1

def partMagnitude (p : Nat) : Nat := nearestMagnitude (p * one) (10 ^ 9)

variable {d e : Duration} {w w' p p' : Nat}

theorem wholeMagnitude_mono (le : w ≤ w') : wholeMagnitude w ≤ wholeMagnitude w' :=
  nearestMagnitude_mono Nat.one_pos (Nat.mul_le_mul_right one le)

theorem partMagnitude_mono (le : p ≤ p') : partMagnitude p ≤ partMagnitude p' :=
  nearestMagnitude_mono (by decide) (Nat.mul_le_mul_right one le)

theorem wholeMagnitude_le (less : w ≤ 2 ^ 64) : wholeMagnitude w ≤ infinity :=
  Nat.le_of_lt (nearestMagnitude_lt_infinity less)

theorem units_partMagnitude_lt (less : p < 10 ^ 9) : units (partMagnitude p) < one :=
  Nat.lt_of_le_of_lt (units_strictMono.monotone (partMagnitude_mono (Nat.le_pred_of_lt less)))
    (by decide +kernel)

theorem partMagnitude_le (less : p < 10 ^ 9) : partMagnitude p ≤ infinity := by
  have second : units (wholeMagnitude 1) = one :=
    (units_nearestMagnitude (w := 1) (by decide)).trans (Nat.one_mul one)
  have below : units (partMagnitude p) < units (wholeMagnitude 1) := by
    rw [second]
    exact units_partMagnitude_lt less
  exact Nat.le_trans (units_strictMono.lt_iff_lt.1 below).le (wholeMagnitude_le (by decide))

theorem magnitude_seconds (d : Duration) : d.seconds.magnitude =
    min (nearestMagnitude (units (wholeMagnitude (d.nanos / 10 ^ 9)) +
      units (partMagnitude (d.nanos % 10 ^ 9))) 1) infinity := by
  have bounded := d.bounded
  have whole : wholeMagnitude (d.nanos / 10 ^ 9) ≤ infinity := wholeMagnitude_le (by omega)
  have part : partMagnitude (d.nanos % 10 ^ 9) ≤ infinity :=
    partMagnitude_le (Nat.mod_lt _ (by decide))
  rw [wholeMagnitude] at whole ⊢
  rw [partMagnitude] at part ⊢
  simp only [seconds, Binary64.ofNat, ofUnits, Nat.min_eq_left whole, Nat.min_eq_left part]

theorem nearestMagnitude_large (large : 2 ^ 53 ≤ w) (less : p < one) :
    nearestMagnitude (units (wholeMagnitude w) + p) 1 = wholeMagnitude w := by
  have scale : 1076 * 2 ^ 52 ≤ wholeMagnitude w :=
    Nat.le_trans (by decide +kernel) (wholeMagnitude_mono large)
  generalize wholeMagnitude w = m at *
  have wide : 2 * one ≤ 2 ^ (m / 2 ^ 52 - 1) := calc
    2 * one = 2 ^ 1075 := by decide +kernel
    _ ≤ _ := Nat.pow_le_pow_right (by decide) (by omega)
  have next := units_succ m
  have before : units (m - 1) < units m := units_strictMono (by omega)
  refine nearestMagnitude_eq ⟨by omega, by omega, fun tie => ?_⟩ Nat.one_pos
  omega

theorem nearestMagnitude_whole_lt (less : w < w') (small : p < one) (p' : Nat) :
    nearestMagnitude (units (wholeMagnitude w) + p) 1 ≤
      nearestMagnitude (units (wholeMagnitude w') + p') 1 := by
  rcases Nat.lt_or_ge w (2 ^ 53) with exact | large
  · -- The next whole second is a double, too.
    refine nearestMagnitude_mono Nat.one_pos ?_
    have here : units (wholeMagnitude w) = w * one := units_nearestMagnitude (Nat.le_of_lt exact)
    have next : units (wholeMagnitude (w + 1)) = (w + 1) * one := units_nearestMagnitude exact
    have mono := units_strictMono.monotone (wholeMagnitude_mono less)
    rw [Nat.succ_eq_add_one, next, Nat.succ_mul] at mono
    omega
  · rw [nearestMagnitude_large large small]
    calc
      _ ≤ wholeMagnitude w' := wholeMagnitude_mono (Nat.le_of_lt less)
      _ = nearestMagnitude (units (wholeMagnitude w')) 1 := (nearestMagnitude_units _).symm
      _ ≤ _ := nearestMagnitude_mono Nat.one_pos (Nat.le_add_right ..)

theorem magnitude_seconds_mono (le : d.nanos ≤ e.nanos) :
    d.seconds.magnitude ≤ e.seconds.magnitude := by
  rw [magnitude_seconds, magnitude_seconds]
  refine Nat.le_min.2 ⟨?_, Nat.min_le_right ..⟩
  refine Nat.le_trans (Nat.min_le_left ..) ?_
  rcases Nat.lt_or_ge (d.nanos / 10 ^ 9) (e.nanos / 10 ^ 9) with less | same
  · exact nearestMagnitude_whole_lt less (units_partMagnitude_lt (Nat.mod_lt _ (by decide))) _
  · have same : d.nanos / 10 ^ 9 = e.nanos / 10 ^ 9 := by omega
    have part : d.nanos % 10 ^ 9 ≤ e.nanos % 10 ^ 9 := by omega
    rw [same]
    exact nearestMagnitude_mono Nat.one_pos
      (Nat.add_le_add_left (units_strictMono.monotone (partMagnitude_mono part)) _)

def micros (d : Duration) : Nat :=
  nearest .even (units d.seconds.magnitude * 10 ^ 6) one

theorem micros_mono (le : d.nanos ≤ e.nanos) : d.micros ≤ e.micros :=
  nearest_mono pos_one
    (Nat.mul_le_mul_right _ (units_strictMono.monotone (magnitude_seconds_mono le)))

end Duration

namespace Exposition.Series

theorem sixPlaces_eq (d : Duration) : sixPlaces d = String.ofList (placed 6 d.micros) := rfl

theorem decimal?_sixPlaces (d : Duration) :
    decimal? (sixPlaces d).toList = some (d.micros / 10 ^ 6 : ℚ) := by
  rw [sixPlaces_eq, String.toList_ofList, decimal?_placed (by decide)]

def value : Series → OperationTiming → ℚ
  | .calls, t => t.count.toNat
  | .seconds, t => t.total.micros / 10 ^ 6
  | .slowest, t => t.max.micros / 10 ^ 6

theorem decimal?_sample (s : Series) (t : OperationTiming) :
    decimal? (s.sample t).toList = some (s.value t) := by
  cases s with
  | calls =>
    rw [sample, value, Nat.toString_eq_ofList_toDigits, String.toList_ofList, decimal?_toDigits]
  | seconds | slowest => exact decimal?_sixPlaces _

end Exposition.Series

end Autoscaling
