import Autoscaling.History
import Mathlib.Data.List.DropRight
import Mathlib.Tactic.TFAE

namespace Autoscaling.History

inductive Report
  | scaled (job group : String) (t : Time)
  | forgotten (job : String)

def Report.forgets (job : String) : Report → Bool
  | .scaled .. => false
  | .forgotten j => job = j

def Report.time? (job group : String) : Report → Option Time
  | .scaled j g t => if job = j ∧ group = g then some t else none
  | .forgotten _ => none

def tell (h : History) : Report → History
  | .scaled job group t => h.record job group t
  | .forgotten job => h.forgetJob job

def tellAll (h : History) (reports : List Report) : History := reports.foldl tell h

def timesAfter (reports : List Report) (job group : String) : List Time :=
  (reports.rtakeWhile (!·.forgets job)).filterMap (·.time? job group)

def MostRecent (times : List Time) : Option Time → Prop
  | none => times = []
  | some t => t ∈ times ∧ ∀ t' ∈ times, t'.nanos ≤ t.nanos

/-- Who cools down in the one history cools down in the other. -/
def Outlasts (h' h : History) : Prop :=
  ∀ job group cooldown now, h.inCooldown job group cooldown now = true →
    h'.inCooldown job group cooldown now = true

/-- At each point, the times of each group have come in order. -/
def InOrder (reports : List Report) : Prop :=
  ∀ before, before <+: reports → ∀ job group,
    (timesAfter before job group).Pairwise (·.nanos ≤ ·.nanos)

def KnowsMostRecent (reports : List Report) : Prop :=
  ∀ before, before <+: reports → ∀ job group,
    MostRecent (timesAfter before job group) ((empty.tellAll before).last? job group)

def NeverShortens (reports : List Report) : Prop :=
  ∀ before job group t, before ++ [.scaled job group t] <+: reports →
    Outlasts (empty.tellAll (before ++ [.scaled job group t])) (empty.tellAll before)

variable {h : History} {job group : String} {t : Time} {reports : List Report}

theorem inCooldown_iff {cooldown : Duration} {now : Time} :
    h.inCooldown job group cooldown now = true ↔
      ∃ t ∈ h.last? job group, now.nanos < t.nanos + cooldown.nanos := by
  unfold inCooldown
  cases h.last? job group with
  | none => simp
  | some t =>
    have above := t.above
    have below := now.below
    simp only [Option.mem_def, Option.some.injEq, exists_eq_left', Time.add?, Time.ofNanos?]
    by_cases within : t.nanos + cooldown.nanos < 2 ^ 63 * 10 ^ 9
    · rw [dif_pos ⟨by omega, within⟩]
      exact decide_eq_true_iff
    · rw [dif_neg (within ·.2)]
      exact iff_of_true rfl (by omega)

theorem outlasts_record (le : ∀ t' ∈ h.last? job group, t'.nanos ≤ t.nanos) :
    Outlasts (h.record job group t) h := by
  intro job' group' cooldown now cools
  obtain ⟨t', known, lt⟩ := inCooldown_iff.1 cools
  rw [inCooldown_iff, last?_record]
  split
  · next same =>
    rw [same.1, same.2] at known
    have := le t' known
    exact ⟨t, rfl, by omega⟩
  · exact ⟨t', known, lt⟩

theorem le_of_outlasts (outlasts : Outlasts (h.record job group t) h) :
    ∀ t' ∈ h.last? job group, t'.nanos ≤ t.nanos := by
  intro t' known
  have cools : h.inCooldown job group ⟨1, by decide⟩ t' = true :=
    inCooldown_iff.2 ⟨t', known, Int.lt_succ t'.nanos⟩
  obtain ⟨t'', known', lt⟩ := inCooldown_iff.1 (outlasts _ _ _ _ cools)
  rw [last?_record, if_pos ⟨rfl, rfl⟩] at known'
  cases known'
  exact Int.lt_add_one_iff.1 lt

@[simp] theorem tellAll_concat (h : History) (reports : List Report) (r : Report) :
    h.tellAll (reports ++ [r]) = (h.tellAll reports).tell r := by
  simp [tellAll]

theorem timesAfter_concat (reports : List Report) (r : Report) (job group : String) :
    timesAfter (reports ++ [r]) job group =
      if r.forgets job then [] else timesAfter reports job group ++ (r.time? job group).toList := by
  unfold timesAfter
  rw [List.rtakeWhile_concat]
  cases r.forgets job with
  | true => rfl
  | false =>
    cases time : r.time? job group <;> simp [time]

theorem timesAfter_scaled (reports : List Report) (job group : String) (t : Time) :
    timesAfter (reports ++ [.scaled job group t]) job group =
      timesAfter reports job group ++ [t] := by
  simp [timesAfter_concat, Report.forgets, Report.time?]

theorem last?_tellAll (reports : List Report) (job group : String) :
    (empty.tellAll reports).last? job group = (timesAfter reports job group).getLast? := by
  induction reports using List.reverseRecOn with
  | nil => rfl
  | append_singleton reports r ih =>
    rw [tellAll_concat, timesAfter_concat]
    cases r with
    | scaled j g t =>
      by_cases same : job = j ∧ group = g <;>
        simp [tell, Report.forgets, Report.time?, same, ih]
    | forgotten j =>
      by_cases same : job = j <;> simp [tell, Report.forgets, Report.time?, same, ih]

theorem MostRecent.of_pairwise {times : List Time}
    (sorted : times.Pairwise (·.nanos ≤ ·.nanos)) : MostRecent times times.getLast? := by
  induction times using List.reverseRecOn with
  | nil => rfl
  | append_singleton times t ih =>
    rw [List.getLast?_concat]
    refine ⟨by simp, fun t' mem => ?_⟩
    rcases List.mem_append.1 mem with mem | mem
    · exact (List.pairwise_append.1 sorted).2.2 t' mem t (List.mem_singleton_self t)
    · exact Int.le_of_eq (congrArg _ (List.mem_singleton.1 mem))

theorem pairwise_concat {times : List Time} (sorted : times.Pairwise (·.nanos ≤ ·.nanos))
    (le : ∀ t' ∈ times.getLast?, t'.nanos ≤ t.nanos) :
    (times ++ [t]).Pairwise (·.nanos ≤ ·.nanos) := by
  refine List.pairwise_append.2 ⟨sorted, List.pairwise_singleton .., fun t' mem t'' mem' => ?_⟩
  rw [List.mem_singleton.1 mem']
  have most := MostRecent.of_pairwise sorted
  cases last : times.getLast? with
  | none => rw [List.getLast?_eq_none_iff.1 last] at mem; cases mem
  | some l =>
    rw [last] at most le
    exact Int.le_trans (most.2 t' mem) (le l rfl)

theorem KnowsMostRecent.neverShortens (knows : KnowsMostRecent reports) :
    NeverShortens reports := by
  intro before job group t pre
  rw [tellAll_concat]
  refine outlasts_record fun t' known => ?_
  have most := knows _ pre job group
  rw [last?_tellAll, timesAfter_scaled, List.getLast?_concat] at most
  rw [last?_tellAll] at known
  exact most.2 t' (List.mem_append_left _ (List.mem_of_getLast? known))

theorem NeverShortens.inOrder (never : NeverShortens reports) : InOrder reports := by
  intro before pre job group
  induction before using List.reverseRecOn with
  | nil => exact .nil
  | append_singleton before r ih =>
    have sorted := ih ((List.prefix_append before [r]).trans pre)
    rw [timesAfter_concat]
    split
    · exact .nil
    · cases r with
      | forgotten j => simpa [Report.time?] using sorted
      | scaled j g t =>
        by_cases same : job = j ∧ group = g
        · obtain ⟨rfl, rfl⟩ := same
          have outlasts := never before job group t pre
          rw [tellAll_concat] at outlasts
          have le := le_of_outlasts outlasts
          rw [last?_tellAll] at le
          simpa [Report.time?] using pairwise_concat sorted le
        · simpa [Report.time?, same] using sorted

/-- A report shortens a cooldown only when it comes late. -/
theorem recent_iff_inOrder (reports : List Report) :
    (∀ (h : History) (job group : String) (t : Time),
      Outlasts (h.record job group t) h ↔ ∀ t' ∈ h.last? job group, t'.nanos ≤ t.nanos) ∧
    [InOrder reports, KnowsMostRecent reports, NeverShortens reports].TFAE := by
  refine ⟨fun h job group t => ⟨le_of_outlasts, outlasts_record⟩, ?_⟩
  tfae_have 1 → 2 := fun inOrder before pre job group => by
    rw [last?_tellAll]
    exact .of_pairwise (inOrder before pre job group)
  tfae_have 2 → 3 := KnowsMostRecent.neverShortens
  tfae_have 3 → 1 := NeverShortens.inOrder
  tfae_finish

/-- The scaling of 1000 s, reported after that of 2000 s, ends the cooldown of a minute at 2030 s. -/
theorem shortens_lateReport :
    (empty.record "api" "web" (.ofMillis 2000000)).inCooldown "api" "web" (.ofSeconds 60)
      (.ofMillis 2030000) = true ∧
    ((empty.record "api" "web" (.ofMillis 2000000)).record "api" "web"
      (.ofMillis 1000000)).inCooldown "api" "web" (.ofSeconds 60) (.ofMillis 2030000) = false := by
  decide

end Autoscaling.History
