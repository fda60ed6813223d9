import Autoscaling.Proofs.Exposition.Seconds
import Autoscaling.Proofs.Recorder.Tallies

namespace Autoscaling

open Exposition Number

structure OperationTiming.AtLeast (t' t : OperationTiming) : Prop where
  operation : t'.operation = t.operation
  count : t.count ≤ t'.count
  total : t.total.nanos ≤ t'.total.nanos
  max : t.max.nanos ≤ t'.max.nanos
  samples : ∀ s : Series, ∃ v v', decimal? (s.sample t).toList = some v ∧
    decimal? (s.sample t').toList = some v' ∧ v ≤ v'

namespace Recorder

/-- In each snapshot the total is at least the maximum, and no later one shows less. -/
def NeverFalls (calls : List Call) : Prop :=
  ∀ before after, before <+: after → after <+: calls →
    ∀ t ∈ (empty.recordAll before).snapshot, t.max.nanos ≤ t.total.nanos ∧
      ∃ t' ∈ (empty.recordAll after).snapshot, t'.AtLeast t

/-- Neither the number of the calls nor their sum reaches 2^64. -/
def Fits (times : List Duration) : Prop := times.length < 2 ^ 64 ∧ spent times < 2 ^ 64

variable {calls : List Call} {name : String} {times times' : List Duration}
  {t t' : OperationTiming}

theorem atLeast_of_le (operation : t'.operation = t.operation) (count : t.count ≤ t'.count)
    (total : t.total.nanos ≤ t'.total.nanos) (max : t.max.nanos ≤ t'.max.nanos) :
    t'.AtLeast t := by
  refine ⟨operation, count, total, max, fun s => ⟨_, _, s.decimal?_sample t, s.decimal?_sample t', ?_⟩⟩
  cases s with
  | calls => exact Nat.cast_le.2 (UInt64.le_iff_toNat_le.1 count)
  | seconds =>
    exact div_le_div_of_nonneg_right (Nat.cast_le.2 (Duration.micros_mono total)) (by positivity)
  | slowest =>
    exact div_le_div_of_nonneg_right (Nat.cast_le.2 (Duration.micros_mono max)) (by positivity)

theorem Fits.earlier (fits : Fits times') (pre : times <+: times') : Fits times :=
  ⟨Nat.lt_of_le_of_lt pre.length_le fits.1, Nat.lt_of_le_of_lt (spent_mono pre) fits.2⟩

theorem Fits.count (fits : Fits times) : (tallyOf times).count.toNat = times.length := by
  rw [count_tallyOf, Nat.mod_eq_of_lt fits.1]

theorem Fits.total (fits : Fits times) : (tallyOf times).total.toNat = spent times := by
  rw [total_tallyOf, Nat.mod_eq_of_lt fits.2]

theorem Fits.max_le_total (fits : Fits times) :
    (tallyOf times).max.toNat ≤ (tallyOf times).total.toNat := by
  rw [max_tallyOf, fits.total]
  exact longest_le_spent times

theorem Fits.atLeast (fits : Fits times') (pre : times <+: times') (name : String) :
    (timing name (tallyOf times')).AtLeast (timing name (tallyOf times)) := by
  have earlier := fits.earlier pre
  refine atLeast_of_le rfl (UInt64.le_iff_toNat_le.2 ?_) ?_ ?_
  · change (tallyOf times).count.toNat ≤ (tallyOf times').count.toNat
    rw [earlier.count, fits.count]
    exact pre.length_le
  · change (tallyOf times).total.toNat ≤ (tallyOf times').total.toNat
    rw [earlier.total, fits.total]
    exact spent_mono pre
  · change (tallyOf times).max.toNat ≤ (tallyOf times').max.toNat
    rw [max_tallyOf, max_tallyOf]
    exact longest_mono pre

theorem neverFalls_of_fits (fits : ∀ name, Fits (timesOf calls name)) : NeverFalls calls := by
  intro before after pre pre' t mem
  obtain ⟨some, eq⟩ := mem_snapshot_recordAll.1 mem
  have fits := (fits t.operation).earlier (timesOf_mono pre' _)
  have pre := timesOf_mono pre t.operation
  have later : timesOf after t.operation ≠ [] := fun none =>
    some (List.prefix_nil.1 (none ▸ pre))
  rw [eq]
  exact ⟨(fits.earlier pre).max_le_total, _, timing_mem_snapshot later,
    fits.atLeast pre t.operation⟩

theorem exists_crossing {f : List Call → Nat} {bound : Nat} (start : f [] < bound)
    (reaches : bound ≤ f calls) :
    ∃ before c, before ++ [c] <+: calls ∧ f before < bound ∧ bound ≤ f (before ++ [c]) := by
  induction calls using List.reverseRecOn with
  | nil => omega
  | append_singleton calls c ih =>
    by_cases earlier : bound ≤ f calls
    · obtain ⟨before, c', pre, crosses⟩ := ih earlier
      exact ⟨before, c', pre.trans (List.prefix_append ..), crosses⟩
    · exact ⟨calls, c, List.prefix_rfl, by omega, reaches⟩

theorem NeverFalls.lt {f : List Duration → Nat} {g : OperationTiming → Nat}
    (never : NeverFalls calls) (name : String) (start : f [] = 0)
    (step : ∀ times d, f (times ++ [d]) < f times + 2 ^ 64)
    (round : ∀ times, g (timing name (tallyOf times)) = f times % 2 ^ 64)
    (mono : ∀ t t', t'.AtLeast t → g t ≤ g t') : f (timesOf calls name) < 2 ^ 64 := by
  by_contra reaches
  have start' : f (timesOf [] name) < 2 ^ 64 := start ▸ Nat.two_pow_pos 64
  obtain ⟨before, c, pre, below, above⟩ :=
    exists_crossing (f := (f <| timesOf · name)) start' (Nat.le_of_not_lt reaches)
  have grows : f (timesOf (before ++ [c]) name) < f (timesOf before name) + 2 ^ 64 := by
    rw [timesOf_concat]
    split
    · exact step ..
    · rw [List.append_nil]
      omega
  have some : timesOf before name ≠ [] := fun none => by
    rw [none, start] at grows
    omega
  obtain ⟨t', mem, atLeast⟩ :=
    (never before _ (List.prefix_append ..) pre _ (timing_mem_snapshot some)).2
  have own : t'.operation = name := atLeast.operation
  have le := mono _ _ atLeast
  rw [(mem_snapshot_recordAll.1 mem).2, own, round, round, Nat.mod_eq_of_lt below,
    Nat.mod_eq_sub_mod above, Nat.mod_eq_of_lt (by omega)] at le
  omega

theorem NeverFalls.fits (never : NeverFalls calls) (name : String) : Fits (timesOf calls name) := by
  constructor
  · refine never.lt (g := (·.count.toNat)) name rfl ?_ count_tallyOf ?_
    · intro times d
      rw [List.length_append, List.length_singleton]
      omega
    · exact fun _ _ atLeast => UInt64.le_iff_toNat_le.1 atLeast.count
  · refine never.lt (g := (·.total.nanos)) name rfl ?_ total_tallyOf ?_
    · intro times d
      rw [spent_concat]
      exact Nat.add_lt_add_left (clipped_lt d) _
    · exact fun _ _ atLeast => atLeast.total

/-- The counters of a recorder go up for as long as they do not go round. -/
theorem neverFalls_iff_fits (calls : List Call) :
    NeverFalls calls ↔ ∀ name, Fits (timesOf calls name) :=
  ⟨NeverFalls.fits, neverFalls_of_fits⟩

/-- After a call of 2^64 - 1 nanoseconds, one of a second takes the total down to a second less a
nanosecond, below the maximum. -/
theorem falls_longCall :
    (empty.recordAll [⟨["slow"], ⟨2 ^ 64 - 1, by decide⟩⟩]).snapshot =
      [⟨"slow", 1, ⟨2 ^ 64 - 1, by decide⟩, ⟨2 ^ 64 - 1, by decide⟩⟩] ∧
    (empty.recordAll [⟨["slow"], ⟨2 ^ 64 - 1, by decide⟩⟩, ⟨["slow"], .ofSeconds 1⟩]).snapshot =
      [⟨"slow", 2, ⟨10 ^ 9 - 1, by decide⟩, ⟨2 ^ 64 - 1, by decide⟩⟩] ∧
    ¬ NeverFalls [⟨["slow"], ⟨2 ^ 64 - 1, by decide⟩⟩, ⟨["slow"], .ofSeconds 1⟩] := by
  refine ⟨by decide +kernel, by decide +kernel, fun never => ?_⟩
  exact absurd (never.fits "slow").2 (by decide +kernel)

end Recorder

end Autoscaling
