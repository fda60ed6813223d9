import Autoscaling.Proofs.Machine.Turns

namespace Autoscaling.Machine

/-- What one rule lets come after `m`, where it is the turn of `before`. -/
inductive Onward (rule : Rule) (before : Option Agent) (m : Machine) :
    Option Agent → Machine → Prop
  | here : Onward rule before m before m
  | command (on : Onward rule before m none s) (may : rule.comes s c)
      (instant : c.isInstant = true) :
      Onward rule before m none (s.apply c)
  | elapse (on : Onward rule before m none s) (settled : s.ready = []) (later : s.now ≤ t)
      (timely : ∀ timer ∈ s.timers, t ≤ timer.1) :
      Onward rule before m none (s.elapse t)
  | choose (on : Onward rule before m none s) (ready : a ∈ s.ready) (may : rule.chooses s a) :
      Onward rule before m (some a) (s.prefer a)
  | move (on : Onward rule before m (some a) s) (goesOn : s.step.ready.head? = some a) :
      Onward rule before m (some a) s.step
  | pause (on : Onward rule before m (some a) s) (waits : s.step.ready.head? ≠ some a) :
      Onward rule before m none s.step

variable {rule : Rule} {start m s s' : Machine} {before turn turn' : Option Agent}
  {cs cs' : List Command} {a : Agent}

theorem Run.onward (run : Run rule start cs before m) (on : Onward rule before m turn s) :
    ∃ cs', Run rule start cs' turn s := by
  induction on with
  | here => exact ⟨cs, run⟩
  | command _ may instant ih =>
    obtain ⟨cs, run⟩ := ih
    exact ⟨_, run.command may instant⟩
  | elapse _ settled later timely ih =>
    obtain ⟨cs, run⟩ := ih
    exact ⟨cs, run.elapse settled later timely⟩
  | choose _ ready may ih =>
    obtain ⟨cs, run⟩ := ih
    exact ⟨cs, run.choose ready may⟩
  | move _ goesOn ih =>
    obtain ⟨cs, run⟩ := ih
    exact ⟨cs, run.move goesOn⟩
  | pause _ waits ih =>
    obtain ⟨cs, run⟩ := ih
    exact ⟨cs, run.pause waits⟩

namespace Onward

theorem trans (first : Onward rule before m turn s) (second : Onward rule turn s turn' s') :
    Onward rule before m turn' s' := by
  induction second with
  | here => exact first
  | command _ may instant ih => exact ih.command may instant
  | elapse _ settled later timely ih => exact ih.elapse settled later timely
  | choose _ ready may ih => exact ih.choose ready may
  | move _ goesOn ih => exact ih.move goesOn
  | pause _ waits ih => exact ih.pause waits

theorem run (on : Onward rule before m none s) (run : Run rule s cs turn s') :
    Onward rule before m turn s' := by
  induction run with
  | start => exact on
  | command _ may instant ih => exact ih.command may instant
  | elapse _ settled later timely ih => exact ih.elapse settled later timely
  | choose _ ready may ih => exact ih.choose ready may
  | move _ goesOn ih => exact ih.move goesOn
  | pause _ waits ih => exact ih.pause waits

theorem here_or_step (on : Onward rule (some a) m turn s) : (turn = some a ∧ s = m) ∨
    ∃ turn₁, Onward rule (some a) m turn₁ m.step ∧ Onward rule turn₁ m.step turn s := by
  induction on with
  | here => exact .inl ⟨rfl, rfl⟩
  | command _ may instant ih =>
    obtain ⟨turn₁, first, rest⟩ := ih.resolve_left nofun
    exact .inr ⟨turn₁, first, rest.command may instant⟩
  | elapse _ settled later timely ih =>
    obtain ⟨turn₁, first, rest⟩ := ih.resolve_left nofun
    exact .inr ⟨turn₁, first, rest.elapse settled later timely⟩
  | choose _ ready may ih =>
    obtain ⟨turn₁, first, rest⟩ := ih.resolve_left nofun
    exact .inr ⟨turn₁, first, rest.choose ready may⟩
  | move on goesOn ih =>
    refine .inr ?_
    rcases ih with ⟨own, rfl⟩ | ⟨turn₁, first, rest⟩
    · cases own
      exact ⟨some a, on.move goesOn, .here⟩
    · exact ⟨turn₁, first, rest.move goesOn⟩
  | pause on waits ih =>
    refine .inr ?_
    rcases ih with ⟨own, rfl⟩ | ⟨turn₁, first, rest⟩
    · cases own
      exact ⟨none, on.pause waits, .here⟩
    · exact ⟨turn₁, first, rest.pause waits⟩

end Onward

end Autoscaling.Machine
