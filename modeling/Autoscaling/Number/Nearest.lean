namespace Autoscaling

-- Powers are those of the core library, also where a theory of monoids is in scope.
attribute [scoped instance (20000)] instPowNat
attribute [default_instance (20000)] instPowNat

namespace Number

inductive Tie
  | even
  | upper
deriving DecidableEq

def Tie.carry : Tie → Nat → Nat
  | .even, q => q % 2
  | .upper, _ => 1

theorem Tie.carry_le_one (tie : Tie) (q : Nat) : tie.carry q ≤ 1 := by
  cases tie with
  | even => exact Nat.le_of_lt_succ (Nat.mod_lt q (by decide))
  | upper => exact Nat.le_refl 1

/-- The whole number nearest to `num / den`. -/
def nearest (tie : Tie) (num den : Nat) : Nat :=
  let q := num / den
  let twice := 2 * (num % den)
  if twice < den then q else if den < twice then q + 1 else q + tie.carry q

@[simp] theorem nearest_one (tie : Tie) (n : Nat) : nearest tie n 1 = n := by
  simp [nearest, Nat.mod_one]

theorem nearest_eq_or (tie : Tie) (num den : Nat) :
    nearest tie num den = num / den ∨ nearest tie num den = num / den + 1 := by
  unfold nearest
  have := tie.carry_le_one (num / den)
  dsimp only
  split
  · exact .inl rfl
  · split
    · exact .inr rfl
    · omega

example : (List.range 8).map (nearest .even · 2) = [0, 0, 1, 2, 2, 2, 3, 4] := by decide
example : (List.range 8).map (nearest .upper · 2) = [0, 1, 1, 2, 2, 3, 3, 4] := by decide

end Number

end Autoscaling
