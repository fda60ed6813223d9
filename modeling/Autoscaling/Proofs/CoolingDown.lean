import Autoscaling.Proofs.LastScaling

namespace Autoscaling.History

inductive Call
  | report (r : Report)
  | last (job group : String)
  | cools (job group : String) (cooldown : Duration) (now : Time)

structure Request where
  handle : Nat := 0
  call : Call

inductive Reply
  | done
  | last (t : Option Time)
  | cools (b : Bool)
deriving DecidableEq

def perform (h : History) (r : Request) : History × Reply :=
  match r.call with
  | .report r => (h.tell r, .done)
  | .last job group => (h, .last (h.last? job group))
  | .cools job group cooldown now => (h, .cools (h.inCooldown job group cooldown now))

def run : History → List Request → History × List Reply
  | h, [] => (h, [])
  | h, r :: rest =>
    let (h, reply) := h.perform r
    let (last, replies) := h.run rest
    (last, reply :: replies)

def Call.report? : Call → Option Report
  | .report r => some r
  | _ => none

def reports (requests : List Request) : List Report := requests.filterMap (·.call.report?)

def Report.concerns (job group : String) : Report → Bool
  | .scaled j g _ => j = job && g = group
  | .forgotten j => j = job

def Latest (told : List Report) (job group : String) (t : Time) : Prop :=
  ∃ before after, told = before ++ .scaled job group t :: after ∧
    ∀ r ∈ after, r.concerns job group = false

variable {h : History} {job group : String} {t now now' : Time} {cooldown cooldown' : Duration}
  {told : List Report} {r : Report}

theorem not_latest_nil : ¬ Latest [] job group t := by
  rintro ⟨before, after, eq, _⟩
  cases before <;> cases eq

theorem latest_concat_iff : Latest (told ++ [r]) job group t ↔
    r = .scaled job group t ∨ r.concerns job group = false ∧ Latest told job group t := by
  constructor
  · rintro ⟨before, after, eq, none⟩
    rcases List.eq_nil_or_concat after with rfl | ⟨after, last, rfl⟩
    · obtain ⟨_, same⟩ := List.append_inj' eq rfl
      exact .inl (List.cons.inj same).1
    · rw [List.concat_eq_append, ← List.cons_append, ← List.append_assoc] at eq
      obtain ⟨rfl, same⟩ := List.append_inj' eq rfl
      obtain rfl := (List.cons.inj same).1
      rw [List.concat_eq_append] at none
      exact .inr ⟨none r (by simp), before, after, rfl, fun r' mem =>
        none r' (List.mem_append_left _ mem)⟩
  · rintro (rfl | ⟨other, before, after, rfl, none⟩)
    · exact ⟨told, [], rfl, by simp⟩
    · refine ⟨before, after ++ [r], by simp, fun r' mem => ?_⟩
      rcases List.mem_append.1 mem with mem | mem
      · exact none r' mem
      · exact List.mem_singleton.1 mem ▸ other

theorem last?_tellAll_iff (told : List Report) :
    (empty.tellAll told).last? job group = some t ↔ Latest told job group t := by
  induction told using List.reverseRecOn with
  | nil => exact iff_of_false nofun not_latest_nil
  | append_singleton told r ih =>
    rw [tellAll_concat, latest_concat_iff, ← ih]
    cases r with
    | scaled j g t' =>
      simp only [tell, last?_record, Report.concerns]
      grind
    | forgotten j =>
      simp only [tell, last?_forgetJob, Report.concerns]
      grind

theorem run_eq_tellAll (h : History) (requests : List Request) :
    (h.run requests).1 = h.tellAll (reports requests) := by
  induction requests generalizing h with
  | nil => rfl
  | cons r rest ih =>
    simp only [run, ih]
    unfold perform reports
    cases call : r.call <;> simp [call, Call.report?, tellAll]

structure CoolsDown (told : List Report) (h : History) : Prop where
  exact : ∀ handle job group cooldown now, ∃ cools,
    (h.perform ⟨handle, .cools job group cooldown now⟩).2 = .cools cools ∧
    (cools = true ↔ ∃ t, Latest told job group t ∧ now.nanos < t.nanos + cooldown.nanos)
  known : ∀ handle job group t,
    (h.perform ⟨handle, .last job group⟩).2 = .last (some t) ↔ Latest told job group t
  beyond : ∀ job group cooldown now t, Latest told job group t → t.add? cooldown = none →
    h.inCooldown job group cooldown now = true
  antitone : ∀ job group cooldown (now now' : Time), now.nanos ≤ now'.nanos →
    h.inCooldown job group cooldown now' = true → h.inCooldown job group cooldown now = true
  monotone : ∀ job group (cooldown cooldown' : Duration) now, cooldown.nanos ≤ cooldown'.nanos →
    h.inCooldown job group cooldown now = true → h.inCooldown job group cooldown' now = true

/-- However a history was told of scalings and asked, its latest report of a group decides whether
the group cools down. -/
theorem coolsDown_run (requests : List Request) :
    CoolsDown (reports requests) (empty.run requests).1 := by
  have cools (job group : String) (cooldown : Duration) (now : Time) :
      (empty.run requests).1.inCooldown job group cooldown now = true ↔
        ∃ t, Latest (reports requests) job group t ∧ now.nanos < t.nanos + cooldown.nanos := by
    simp only [inCooldown_iff, run_eq_tellAll, Option.mem_def, last?_tellAll_iff]
  constructor
  case exact => exact fun handle job group cooldown now => ⟨_, rfl, cools job group cooldown now⟩
  case known =>
    intro handle job group t
    rw [← last?_tellAll_iff, ← run_eq_tellAll]
    exact Reply.last.injEq .. ▸ Iff.rfl
  case beyond =>
    intro job group cooldown now t latest none
    rw [← last?_tellAll_iff, ← run_eq_tellAll] at latest
    simp only [inCooldown, latest, none]
  case antitone =>
    intro job group cooldown now now' le
    rw [cools, cools]
    rintro ⟨t, latest, lt⟩
    exact ⟨t, latest, Int.lt_of_le_of_lt le lt⟩
  case monotone =>
    intro job group cooldown cooldown' now le
    rw [cools, cools]
    rintro ⟨t, latest, lt⟩
    exact ⟨t, latest, by omega⟩

end Autoscaling.History
