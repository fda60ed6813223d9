import Autoscaling.Json.Conversion
import Autoscaling.Proofs.Number.Rounding

namespace Autoscaling

open Number Binary64

namespace Number.Binary64

variable {n : Nat} {x y : Binary64}

theorem units_ofNat (le : n ≤ 2 ^ 53) : units (ofNat n).magnitude = n * one := by
  have finite : nearestMagnitude (n * one) 1 < infinity :=
    nearestMagnitude_lt_infinity (Nat.le_trans le (by decide))
  have magnitude : (ofNat n).magnitude = nearestMagnitude (n * one) 1 :=
    Nat.min_eq_left (Nat.le_of_lt finite)
  rw [magnitude, units_nearestMagnitude le]

theorem negative_ofNat (n : Nat) : (ofNat n).negative = false := rfl

theorem ofUnits_mul_right (negative : Bool) (num den : Nat) {k : Nat} (pos : 0 < k) :
    ofUnits negative (num * k) (den * k) = ofUnits negative num den := by
  simp only [ofUnits, nearestMagnitude_mul_right num pos]

theorem ofUnits_zero (negative : Bool) (den : Nat) :
    ofUnits negative 0 den = ⟨negative, 0, by decide⟩ := by
  simp [ofUnits, nearestMagnitude, nearest, Tie.carry]

end Number.Binary64

namespace Json.Conversion

variable {n : Numeral} {digits : List Char} {k m : Nat}

theorem le_ofDigitChars (digits : List Char) (m : Nat) : m ≤ Nat.ofDigitChars 10 digits m := by
  induction digits generalizing m with
  | nil => exact Nat.le_refl m
  | cons c digits ih =>
    rw [Nat.ofDigitChars_cons]
    exact Nat.le_trans (by omega) (ih _)

theorem absorb_eq (fits : Nat.ofDigitChars 10 digits m < 2 ^ 64) :
    absorb m digits = (Nat.ofDigitChars 10 digits m, []) := by
  induction digits generalizing m with
  | nil => rfl
  | cons c digits ih =>
    rw [Nat.ofDigitChars_cons] at fits ⊢
    rw [absorb]
    rw [if_pos (Nat.lt_of_le_of_lt (le_ofDigitChars digits _) fits)]
    exact ih fits

theorem powerOfTen_eq : ∀ k < 23,
    (powerOfTen k).negative = false ∧ units (powerOfTen k).magnitude = 10 ^ k * one := by
  decide +kernel

theorem ofDecimal_eq_ofUnits (few : m ≤ 2 ^ 53) {e : Int} (low : -23 < e) (high : e < 23)
    (negative : Bool) : ofDecimal negative m e =
      ofUnits negative (m * 10 ^ e.toNat * one) (10 ^ (-e).toNat) := by
  rw [ofDecimal]
  by_cases zero : m = 0
  · rw [if_pos (.inl zero), zero, Nat.zero_mul, Nat.zero_mul, ofUnits_zero]
  · have length := (Nat.length_toDigits_le_iff (b := 10) (n := m) (k := 16) (by decide)
      (by decide)).2 (Nat.lt_of_le_of_lt few (by decide))
    rw [if_neg (by omega), if_neg (by omega)]

theorem scale_eq (few : m ≤ 2 ^ 53) {e : Int} (low : -23 < e) (high : e < 23) :
    scale (ofNat m) e = ofUnits false (m * 10 ^ e.toNat * one) (10 ^ (-e).toNat) := by
  cases e with
  | ofNat k =>
    rw [Int.ofNat_eq_natCast] at low high
    obtain ⟨positive, units⟩ := powerOfTen_eq k (by omega)
    have product := ofUnits_mul_right false (m * 10 ^ k * one) 1 pos_one
    have scaled : m * one * (10 ^ k * one) = m * 10 ^ k * one * one := by ring
    have power : (Int.ofNat k).toNat = k := rfl
    have whole : (-Int.ofNat k).toNat = 0 := by simp
    rw [scale, if_pos (by omega), mul, positive, units, units_ofNat few, scaled, power,
      whole, Nat.pow_zero, negative_ofNat, bne_self_eq_false]
    rw [Nat.one_mul] at product
    exact product
  | negSucc k =>
    obtain ⟨positive, units⟩ := powerOfTen_eq (k + 1) (by omega)
    have quotient := ofUnits_mul_right false (m * one) (10 ^ (k + 1)) pos_one
    have whole : m * 10 ^ (Int.negSucc k).toNat * one = m * one := by
      rw [Int.toNat_negSucc, Nat.pow_zero, Nat.mul_one]
    rw [scale, Nat.div_eq_of_lt (by omega), Nat.mod_eq_of_lt (by omega), shrink, div, positive,
      units, units_ofNat few, whole, negative_ofNat, bne_self_eq_false]
    exact quotient

/-- Below 2^53 neither the significand nor a power of ten up to 10^22 is rounded, so that the steps
round once. -/
theorem stepwise_eq_exact (few : Nat.ofDigitChars 10 (n.whole ++ n.places) 0 ≤ 2 ^ 53)
    (low : -23 < n.power.getD 0 - n.places.length) (high : n.power.getD 0 - n.places.length < 23)
    (negative : Bool) : stepwise negative n = exact negative n := by
  have split := Nat.ofDigitChars_append (b := 10) (l := n.whole) (m := n.places) 0
  have whole : absorb 0 n.whole = (Nat.ofDigitChars 10 n.whole 0, []) :=
    absorb_eq (Nat.lt_of_le_of_lt (split ▸ le_ofDigitChars n.places _) (by omega))
  have places : absorb (Nat.ofDigitChars 10 n.whole 0) n.places =
      (Nat.ofDigitChars 10 (n.whole ++ n.places) 0, []) :=
    split ▸ absorb_eq (by omega)
  rw [exact, ofDecimal_eq_ofUnits few low high, stepwise, whole]
  dsimp only
  rw [places]
  dsimp only
  have exponent : n.power.getD 0 + ((([] : List Char).length : Nat) : Int) -
      ((n.places.length - ([] : List Char).length : Nat) : Int) =
        n.power.getD 0 - n.places.length := by simp
  have scaled := scale_eq few low high
  rw [exponent]
  exact congrArg (fun x : Binary64 => { x with negative }) scaled

end Json.Conversion

end Autoscaling
