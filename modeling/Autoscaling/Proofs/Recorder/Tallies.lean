import Autoscaling.Recorder
import Mathlib.Algebra.GroupWithZero.Nat
import Mathlib.Data.List.Induction

namespace Autoscaling

namespace Recorder

def tallyOf (times : List Duration) : Tally := times.foldl Tally.record Tally.none

def clipped (d : Duration) : Nat := min d.nanos (2 ^ 64 - 1)

def spent (times : List Duration) : Nat := (times.map clipped).sum

def longest (times : List Duration) : Nat := (times.map clipped).foldr max 0

variable {times times' : List Duration} {d : Duration}

@[simp] theorem toNat_clip (d : Duration) : (Tally.clip d).toNat = clipped d :=
  UInt64.toNat_ofNat_of_lt' (Nat.lt_of_le_of_lt (Nat.min_le_right ..) (by decide))

theorem clipped_lt (d : Duration) : clipped d < 2 ^ 64 := by
  simp only [clipped]
  omega

@[simp] theorem tallyOf_concat (times : List Duration) (d : Duration) :
    tallyOf (times ++ [d]) = (tallyOf times).record d := by
  simp [tallyOf]

@[simp] theorem spent_concat (times : List Duration) (d : Duration) :
    spent (times ++ [d]) = spent times + clipped d := by
  simp [spent]

theorem longest_append (times times' : List Duration) :
    longest (times ++ times') = max (longest times) (longest times') := by
  induction times with
  | nil => exact (Nat.zero_max _).symm
  | cons d times ih =>
    change max (clipped d) (longest (times ++ times')) = max (max (clipped d) (longest times)) _
    rw [ih, Nat.max_assoc]

theorem longest_le_spent (times : List Duration) : longest times ≤ spent times := by
  induction times with
  | nil => exact Nat.le_refl 0
  | cons d times ih =>
    simp only [longest, spent, List.map_cons, List.foldr_cons, List.sum_cons] at *
    omega

theorem spent_mono (pre : times <+: times') : spent times ≤ spent times' := by
  obtain ⟨rest, rfl⟩ := pre
  simp [spent]

theorem longest_mono (pre : times <+: times') : longest times ≤ longest times' := by
  obtain ⟨rest, rfl⟩ := pre
  exact longest_append times rest ▸ Nat.le_max_left ..

theorem count_tallyOf (times : List Duration) :
    (tallyOf times).count.toNat = times.length % 2 ^ 64 := by
  induction times using List.reverseRecOn with
  | nil => rfl
  | append_singleton times d ih => simp [Tally.record, ih, UInt64.toNat_add]

theorem total_tallyOf (times : List Duration) :
    (tallyOf times).total.toNat = spent times % 2 ^ 64 := by
  induction times using List.reverseRecOn with
  | nil => rfl
  | append_singleton times d ih => simp [Tally.record, ih, UInt64.toNat_add]

theorem max_tallyOf (times : List Duration) : (tallyOf times).max.toNat = longest times := by
  induction times using List.reverseRecOn with
  | nil => rfl
  | append_singleton times d ih =>
    have single : longest [d] = clipped d := Nat.max_eq_left (Nat.zero_le _)
    rw [tallyOf_concat, longest_append, single, ← ih, ← toNat_clip, Tally.record]
    dsimp only
    split
    · next less => exact (Nat.max_eq_right (Nat.le_of_lt less)).symm
    · next more => exact (Nat.max_eq_left (Nat.le_of_not_lt more)).symm

structure Call where
  key : List String
  elapsed : Duration

def recordAll (r : Recorder) (calls : List Call) : Recorder :=
  calls.foldl (fun r c => r.record c.key c.elapsed) r

def timesOf (calls : List Call) (name : String) : List Duration :=
  (calls.filter (operation ·.key = name)).map (·.elapsed)

variable {calls calls' : List Call} {name : String} {t : OperationTiming}

theorem timesOf_concat (calls : List Call) (c : Call) (name : String) :
    timesOf (calls ++ [c]) name =
      timesOf calls name ++ if operation c.key = name then [c.elapsed] else [] := by
  by_cases own : operation c.key = name <;> simp [timesOf, List.filter_append, own]

theorem timesOf_mono (pre : calls <+: calls') (name : String) :
    timesOf calls name <+: timesOf calls' name :=
  (pre.filter _).map _

theorem get?_recordAll (calls : List Call) (name : String) :
    (empty.recordAll calls).get? name =
      if timesOf calls name = [] then none else some (tallyOf (timesOf calls name)) := by
  induction calls using List.reverseRecOn with
  | nil => rfl
  | append_singleton calls c ih =>
    have step : empty.recordAll (calls ++ [c]) = (empty.recordAll calls).record c.key c.elapsed := by
      simp [recordAll]
    rw [step, timesOf_concat, record, Table.get?_insert]
    by_cases own : name = operation c.key
    · subst own
      rw [if_pos rfl, if_pos rfl, if_neg (by simp), tallyOf_concat, ih]
      split
      · next first => rw [first]; rfl
      · rfl
    · rw [if_neg own, if_neg (Ne.symm own), List.append_nil, ih]

theorem mem_snapshot_iff {r : Recorder} :
    t ∈ r.snapshot ↔ ∃ tally, r.get? t.operation = some tally ∧ t = timing t.operation tally := by
  simp only [snapshot, List.mem_mergeSort, List.mem_map, Prod.exists, Table.get?_eq_some_iff]
  constructor
  · rintro ⟨name, tally, mem, rfl⟩
    exact ⟨tally, mem, rfl⟩
  · rintro ⟨tally, mem, eq⟩
    exact ⟨_, tally, mem, eq.symm⟩

theorem mem_snapshot_recordAll :
    t ∈ (empty.recordAll calls).snapshot ↔ timesOf calls t.operation ≠ [] ∧
      t = timing t.operation (tallyOf (timesOf calls t.operation)) := by
  rw [mem_snapshot_iff, get?_recordAll]
  by_cases none : timesOf calls t.operation = [] <;> simp [none]

theorem timing_mem_snapshot (some : timesOf calls name ≠ []) :
    timing name (tallyOf (timesOf calls name)) ∈ (empty.recordAll calls).snapshot :=
  mem_snapshot_recordAll.2 ⟨some, rfl⟩

end Recorder

end Autoscaling
