import Autoscaling.Proofs.Drain
import Autoscaling.Proofs.Machine.Gate

namespace Autoscaling.Machine

variable {s s' start : Machine} {turn : Option Agent} {cs : List Command} {c : Nat}

def EndsPass (s : Machine) (c : Nat) (o : Outcome) : Prop :=
  ∃ stage s', (s.call c).stage? = some stage ∧ Pass.step s c stage = (s', .ended o)

structure SingleFlight (turn : Option Agent) (s : Machine) : Prop where
  alone : ∀ c d, (s.call c).inPass = true → (s.call d).inPass = true → c = d
  gate : s.lifecycle.inPass = true ↔ ∃ c, (s.call c).inPass = true
  skipped : ∀ c d, turn = some (.caller c) → (s.call c).stage? = some .opening →
    (s.call d).inPass = true →
    s.EndsPass c .skipped ∧
      (s.call c = .evaluating .opening → s.step = s.answer c (.evaluate .skipped)) ∧
      (∀ next, s.call c = .ticking next .opening → s.step = s.setCall c (.selecting next))
  reopened : ∀ c o, turn = some (.caller c) → s.EndsPass c o →
    (o = .skipped ∧ ∃ d, (s.call d).inPass = true) ∨
      (o ≠ .skipped ∧ s.step.lifecycle.inPass = false ∧ ∀ d, (s.step.call d).inPass = false)

theorem reopens {stage : Pass.Stage} {o : Outcome} (head : s.ready.head? = some (.caller c))
    (call : (s.call c).stage? = some stage) (ends : Pass.step s c stage = (s', .ended o)) :
    (o = .skipped ∧ s.lifecycle.inPass = true) ∨
      (o ≠ .skipped ∧ s.step.lifecycle.inPass = false) := by
  have lifecycle : s.step.lifecycle = s'.lifecycle := by
    rw [step_of_caller head]
    cases eq : s.call c <;> rw [eq] at call <;> cases call
    all_goals
      simp only [stepCaller, eq, stepPass, ends]
      rfl
  obtain ⟨⟨told, _, _, leads⟩, _, _⟩ := Pass.treads_step s c stage
  have strides := (Pass.walks_step s c stage).strides
  rw [ends] at leads strides
  rw [lifecycle]
  dsimp only at leads strides
  generalize s'.lifecycle = l at strides
  cases leads with
  | skip busy => exact .inl ⟨rfl, busy⟩
  | fail free | lack free =>
    cases strides
    exact .inr ⟨by simp, free⟩
  | finish =>
    cases strides
    exact .inr ⟨by simp, rfl⟩

/-- In every order of ticks and calls at most one pass is under way. -/
theorem Run.singleFlight {rule : Rule} {c : Config} {timed : Bool} {scenario : Scenario}
    (made : ofConfig c timed scenario = .made start) (run : Run rule start cs turn s) :
    SingleFlight turn s := by
  have fresh := fresh_ofConfig made
  have gated := run.gated fresh
  constructor
  case alone => exact gated.alone
  case gate => exact gated.gate
  case skipped =>
    rintro c d rfl opening amid
    have shut : s.lifecycle.beginPass? = none := by
      simp [Lifecycle.beginPass?, gated.gate.2 ⟨d, amid⟩]
    have skips : Pass.step s c .opening = (s, .ended .skipped) := by
      simp only [Pass.step, Pass.openStep, shut]
    refine ⟨⟨_, _, opening, skips⟩, fun call => ?_, fun next call => ?_⟩
    all_goals
      rw [step_of_caller run.head_of_turn]
      simp only [stepCaller, call, stepPass, skips]
  case reopened =>
    rintro c o rfl ⟨stage, s', call, ends⟩
    obtain ⟨_, _, act⟩ := run.act fresh
    have after := gated.step act run.head_of_turn
    rcases reopens run.head_of_turn call ends with ⟨skipped, shut⟩ | ⟨other, free⟩
    · exact .inl ⟨skipped, gated.gate.1 shut⟩
    · exact .inr ⟨other, free, after.not_inPass free⟩

def twoPasses : List Command :=
  [.change (.hold (.cooldown, "a", "g") true), .write (.putJob "a" heldItem.policies), .evaluate,
    .evaluate]

/-- The second pass comes while the first waits to hear whether the group cools down. -/
theorem singleFlight_heldLoop :
    (∃ p c, (heldLoop.play twoPasses).1.call 0 = .evaluating (.held .cooldown p c)) ∧
    .answered (.evaluate .skipped) ∈ (heldLoop.play twoPasses).1.history ∧
    SingleFlight none (heldLoop.play twoPasses).1 := by
  have run := loop_play twoPasses (fresh_ofConfig made_heldLoop)
    (by simp [twoPasses, Command.isOfLoop])
  have waits : (heldLoop.play twoPasses).1.call 0 = .evaluating (.held .cooldown
      { number := 1, began := 0, rest := [], report := { jobsEvaluated := 1 } }
      { job := "a", groups := heldItem.policies, left := heldItem.policies.entries }) := by
    decide +kernel
  exact ⟨⟨_, _, waits⟩, by decide +kernel, run.singleFlight made_heldLoop⟩

end Autoscaling.Machine
