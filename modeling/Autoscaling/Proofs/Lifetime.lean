import Autoscaling.Phase
import Mathlib.Data.List.DropRight

namespace Autoscaling.Lifecycle

variable {α : Type}

def run : Lifecycle → List Call → Lifecycle × List (Call × Option Bool)
  | l, [] => (l, [])
  | l, c :: rest =>
    let (l, answer) := l.call c
    let (last, log) := l.run rest
    (last, (c, answer) :: log)

def phaseAfter (calls : List Call) : Phase :=
  if .markStopped ∈ calls then .stopped
  else if .requestStop ∈ calls then .draining
  else if .markRunning ∈ calls then .running
  else .idle

def Call.endsLoop : Call → Bool
  | .markLoopExited | .markStopped => true
  | .markRunning | .requestStop | .beginPass | .endPass => false

def since (ends : α → Bool) (past : List α) : List α := past.rtakeWhile (!ends ·)

def answerAfter (before : List Call) : Call → Option Bool
  | .markRunning =>
    some (.markRunning ∉ before ∧ .requestStop ∉ before ∧ .markStopped ∉ before)
  | .requestStop => some (.requestStop ∉ before ∧ .markStopped ∉ before)
  | .beginPass => some (.beginPass ∉ since (· = .endPass) before)
  | .markLoopExited | .markStopped | .endPass => none

structure Reflects (calls : List Call) (l : Lifecycle) (log : List (Call × Option Bool)) :
    Prop where
  logged : log.map (·.1) = calls
  answered : ∀ before c answer, before ++ [(c, answer)] <+: log →
    answer = answerAfter (before.map (·.1)) c
  phase : l.phase = phaseAfter calls
  active : l.loopActive = true ↔ (.markRunning, some true) ∈ since (·.1.endsLoop) log
  amid : l.inPass = true ↔ .beginPass ∈ since (· = .endPass) calls
  drained : l.isDrained = true ↔ ¬ (l.loopActive = true ∨ l.inPass = true)

variable {l : Lifecycle} {calls : List Call} {log : List (Call × Option Bool)}

theorem mem_since_concat {ends : α → Bool} {past : List α} {x y : α} :
    x ∈ since ends (past ++ [y]) ↔ ends y = false ∧ (x = y ∨ x ∈ since ends past) := by
  unfold since
  rw [List.rtakeWhile_concat]
  cases ends y <;> simp [or_comm]

theorem phaseAfter_eq_idle_iff : phaseAfter calls = .idle ↔
    .markRunning ∉ calls ∧ .requestStop ∉ calls ∧ .markStopped ∉ calls := by
  grind [phaseAfter]

theorem phaseAfter_early_iff : phaseAfter calls = .idle ∨ phaseAfter calls = .running ↔
    .requestStop ∉ calls ∧ .markStopped ∉ calls := by
  grind [phaseAfter]

def Call.lead (c : Call) (p : Phase) : Phase :=
  match c with
  | .markRunning => if p = .idle then .running else p
  | .requestStop => if p = .idle ∨ p = .running then .draining else p
  | .markStopped => .stopped
  | .markLoopExited | .beginPass | .endPass => p

theorem phaseAfter_concat (calls : List Call) (c : Call) :
    phaseAfter (calls ++ [c]) = c.lead (phaseAfter calls) := by
  cases c with
  | markRunning =>
    by_cases idle : phaseAfter calls = .idle
    · rw [Call.lead, if_pos idle]
      simp [phaseAfter, phaseAfter_eq_idle_iff.1 idle]
    · -- One of the calls has led at least as far.
      rw [Call.lead, if_neg idle]
      grind [phaseAfter]
  | requestStop =>
    by_cases early : phaseAfter calls = .idle ∨ phaseAfter calls = .running
    · rw [Call.lead, if_pos early]
      simp [phaseAfter, phaseAfter_early_iff.1 early]
    · rw [Call.lead, if_neg early]
      grind [phaseAfter]
  | markStopped | markLoopExited | beginPass | endPass => simp [phaseAfter, Call.lead]

theorem call_markRunning (l : Lifecycle) : l.call .markRunning =
    if l.phase = .idle then ({ l with phase := .running, loopActive := true }, some true)
    else (l, some false) := by
  simp only [call, markRunning?]
  split <;> rfl

theorem call_requestStop (l : Lifecycle) : l.call .requestStop =
    if l.phase = .idle ∨ l.phase = .running then ({ l with phase := .draining }, some true)
    else (l, some false) := by
  simp only [call, requestStop?]
  cases l.phase <;> rfl

theorem call_beginPass (l : Lifecycle) :
    l.call .beginPass = ({ l with inPass := true }, some !l.inPass) := by
  obtain ⟨phase, active, pass⟩ := l
  cases pass <;> rfl

theorem phase_call (l : Lifecycle) (c : Call) : (l.call c).1.phase = c.lead l.phase := by
  cases c with
  | markRunning =>
    rw [call_markRunning, Call.lead]
    split <;> rfl
  | requestStop =>
    rw [call_requestStop, Call.lead]
    split <;> rfl
  | beginPass => rw [call_beginPass, Call.lead]
  | markLoopExited | markStopped | endPass => rfl

theorem loopActive_call (l : Lifecycle) (c : Call) : (l.call c).1.loopActive = true ↔
    c.endsLoop = false ∧
      ((.markRunning, some true) = (c, (l.call c).2) ∨ l.loopActive = true) := by
  cases c with
  | markRunning =>
    rw [call_markRunning]
    split <;> simp [Call.endsLoop]
  | requestStop =>
    rw [call_requestStop]
    split <;> simp [Call.endsLoop]
  | beginPass => simp [call_beginPass, Call.endsLoop]
  | endPass => simp [call, endPass, Call.endsLoop]
  | markLoopExited | markStopped => exact iff_of_false Bool.false_ne_true (nomatch ·.1)

theorem inPass_call (l : Lifecycle) (c : Call) : (l.call c).1.inPass = true ↔
    decide (c = .endPass) = false ∧ (.beginPass = c ∨ l.inPass = true) := by
  cases c with
  | markRunning =>
    rw [call_markRunning]
    split <;> simp
  | requestStop =>
    rw [call_requestStop]
    split <;> simp
  | beginPass => simp [call_beginPass]
  | markLoopExited => simp [call, markLoopExited]
  | markStopped => simp [call, markStopped]
  | endPass => exact iff_of_false Bool.false_ne_true (nomatch ·.1)

theorem isDrained_iff (l : Lifecycle) :
    l.isDrained = true ↔ ¬ (l.loopActive = true ∨ l.inPass = true) := by
  simp [isDrained]

namespace Reflects

theorem answer (told : Reflects calls l log) (c : Call) : (l.call c).2 = answerAfter calls c := by
  cases c with
  | markRunning =>
    simp only [call_markRunning, answerAfter, ← phaseAfter_eq_idle_iff, ← told.phase]
    split <;> simp [*]
  | requestStop =>
    simp only [call_requestStop, answerAfter, ← phaseAfter_early_iff, ← told.phase]
    split <;> simp [*]
  | beginPass => simp [call_beginPass, answerAfter, ← told.amid]
  | markLoopExited | markStopped | endPass => rfl

theorem step (told : Reflects calls l log) (c : Call) :
    Reflects (calls ++ [c]) (l.call c).1 (log ++ [(c, (l.call c).2)]) := by
  constructor
  case logged => rw [List.map_append, told.logged, List.map_singleton]
  case answered =>
    intro before d answer pre
    -- The entry is the last one, which the calls so far settle, or one of those before.
    rcases List.prefix_concat_iff.1 pre with last | earlier
    · obtain ⟨rfl, same⟩ := List.append_inj' last rfl
      cases same
      rw [told.logged, told.answer]
    · exact told.answered before d answer earlier
  case phase => rw [phase_call, phaseAfter_concat, told.phase]
  case active => rw [loopActive_call, mem_since_concat, told.active]
  case amid => rw [inPass_call, mem_since_concat, told.amid]
  case drained => exact isDrained_iff _

end Reflects

theorem run_concat (l : Lifecycle) (calls : List Call) (c : Call) :
    l.run (calls ++ [c]) =
      (((l.run calls).1.call c).1, (l.run calls).2 ++ [(c, ((l.run calls).1.call c).2)]) := by
  induction calls generalizing l with
  | nil => rfl
  | cons d calls ih => simp only [List.cons_append, run, ih]

theorem reflects_fresh : Reflects [] {} [] := by
  constructor
  case answered =>
    intro before c answer pre
    simp at pre
  case drained => exact isDrained_iff _
  all_goals simp [phaseAfter, since]

/-- Whatever is called, the calls tell what has become of a fresh lifecycle and what it answered. -/
theorem reflects_run (calls : List Call) :
    Reflects calls (run {} calls).1 (run {} calls).2 := by
  -- From the end: what a call is answered hangs on all the calls before it.
  induction calls using List.reverseRecOn with
  | nil => exact reflects_fresh
  | append_singleton calls c ih =>
    rw [run_concat]
    exact ih.step c

example : run {} [.markLoopExited, .markRunning, .beginPass, .markStopped, .requestStop] =
    ({ phase := .stopped, loopActive := false, inPass := true },
      [(.markLoopExited, none), (.markRunning, some true), (.beginPass, some true),
        (.markStopped, none), (.requestStop, some false)]) := by
  decide

end Autoscaling.Lifecycle
