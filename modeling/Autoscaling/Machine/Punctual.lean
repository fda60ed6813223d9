import Autoscaling.Machine.Run
import Autoscaling.Machine.Settling

namespace Autoscaling.Machine

def Punctual (s : Machine) : Prop := ∀ timer ∈ s.timers, s.now < timer.1

structure Delays (s s' : Machine) : Prop where
  now : s'.now = s.now
  timers : ∀ timer ∈ s'.timers, timer ∈ s.timers ∨ s.now < timer.1

theorem Delays.punctual {s s' : Machine} (h : Delays s s') (punctual : s.Punctual) :
    s'.Punctual := fun timer mem => by
  rw [h.now]
  exact (h.timers timer mem).elim (punctual timer) id

theorem Delays.of_timers {s s' : Machine} (now : s'.now = s.now) (timers : s'.timers = s.timers) :
    Delays s s' :=
  ⟨now, fun _ h => .inl (timers ▸ h)⟩

theorem Delays.refl (s : Machine) : Delays s s := .of_timers rfl rfl

theorem Delays.trans {s s' s'' : Machine} (h : Delays s s') (h' : Delays s' s'') :
    Delays s s'' :=
  ⟨h'.now.trans h.now, fun timer mem =>
    (h'.timers timer mem).elim (h.timers timer) fun later => .inr (h.now ▸ later)⟩

theorem Delays.after {s s' s'' : Machine} (h : Delays s' s'') (now : s'.now = s.now)
    (timers : s'.timers = s.timers) : Delays s s'' :=
  (Delays.of_timers now timers).trans h

theorem delays_sleep {s : Machine} (a : Agent) {wakeAt : Nat} (h : s.now < wakeAt) :
    Delays s (s.sleep a wakeAt) := by
  refine ⟨rfl, fun timer mem => ?_⟩
  simp only [sleep] at mem
  split at mem
  · exact .inl mem
  · rcases List.mem_append.1 mem with mem | mem
    · exact .inl mem
    · rw [List.mem_singleton.1 mem]
      exact .inr h

theorem delays_cancel (s : Machine) (a : Agent) : Delays s (s.cancel a) :=
  ⟨rfl, fun _ mem => .inl (List.mem_filter.1 mem).1⟩

theorem lt_of_reception {p : Pool} {w now deadline : Nat}
    (h : p.reception w now deadline = .nothing) : now < deadline := by
  unfold Pool.reception at h
  grind

theorem delays_stepWorker (s : Machine) (w : Nat) : Delays s (s.stepWorker w) := by
  unfold stepWorker
  split
  · exact .of_timers rfl rfl
  · next deadline _ =>
    split
    · next eq =>
      refine delays_sleep _ (lt_of_reception (p := s.pool) (w := w) ?_)
      unfold Pool.receive at eq
      cases r : s.pool.reception w s.now deadline <;> simp [r] at eq ⊢
    · exact (delays_cancel s (.worker w)).trans (.of_timers rfl rfl)
    · exact (delays_cancel s (.worker w)).trans (.of_timers rfl rfl)
  · split <;> exact .of_timers rfl rfl
  all_goals exact .of_timers rfl rfl

theorem delays_endEvaluation (s : Machine) (w : Nat) (i : WorkItem) :
    Delays s (s.endEvaluation w i) :=
  (delays_cancel s (.evaluation w)).trans (.of_timers rfl rfl)

theorem delays_finishEvaluation (s : Machine) (w : Nat) (i : WorkItem) :
    Delays s (s.finishEvaluation w i) := by
  unfold finishEvaluation
  dsimp only
  split
  · exact (delays_endEvaluation _ w i).after rfl rfl
  · exact (delays_endEvaluation _ w i).after rfl rfl

theorem delays_stepEvaluation (s : Machine) (w : Nat) : Delays s (s.stepEvaluation w) := by
  unfold stepEvaluation
  split
  · dsimp only
    split
    · exact (delays_finishEvaluation _ w _).after rfl rfl
    · exact .of_timers rfl rfl
    · exact (delays_endEvaluation _ w _).after rfl rfl
    · split
      · exact (delays_finishEvaluation _ w _).after rfl rfl
      · exact .of_timers rfl rfl
  · split
    · exact delays_finishEvaluation s w _
    · exact delays_sleep _ (by omega)
  · exact delays_finishEvaluation s w _
  · exact .of_timers rfl rfl

theorem delays_submit (s : Machine) (c : Nat) (i : WorkItem) (entered : Bool) :
    Delays s (s.submit c i entered).1 := by
  unfold submit
  dsimp only
  split <;> exact .of_timers rfl rfl

theorem delays_passStep (s : Machine) (c : Nat) (stage : Pass.Stage) :
    Delays s (Pass.step s c stage).1 := by
  cases stage with
  | opening =>
    simp only [Pass.step, Pass.openStep]
    split
    · exact .refl s
    · repeat' split
      all_goals exact .of_timers rfl rfl
  | visiting p =>
    simp only [Pass.step, Pass.visitStep, Pass.complete]
    repeat' split
    all_goals exact .of_timers rfl rfl
  | checking q p c =>
    simp only [Pass.step, Pass.checkStep]
    repeat' split
    all_goals exact .of_timers rfl rfl
  | held q p c => exact .refl s
  | answering q p c =>
    simp only [Pass.step, Pass.answerStep]
    repeat' split
    all_goals exact .of_timers rfl rfl
  | submitting p i entered =>
    have := delays_submit s c i entered
    simp only [Pass.step, Pass.submitStep]
    generalize s.submit c i entered = r at this
    obtain ⟨s', turn⟩ := r
    cases turn <;> exact this

theorem delays_stepSubmitter (s : Machine) (c : Nat) (items : List WorkItem) (entered : Bool) :
    Delays s (s.stepSubmitter c items entered) := by
  unfold stepSubmitter
  split
  · exact .of_timers rfl rfl
  · next i rest =>
    have := delays_submit s c i entered
    generalize s.submit c i entered = r at this
    obtain ⟨s', turn⟩ := r
    cases turn <;> exact this.trans (.of_timers rfl rfl)

theorem delays_stepPass {s : Machine} {c : Nat} {stage : Pass.Stage}
    {within : Pass.Stage → Call} {ended : Machine → Outcome → Machine}
    (last : ∀ s o, Delays s (ended s o)) : Delays s (s.stepPass c stage within ended) := by
  have := delays_passStep s c stage
  unfold stepPass
  generalize Pass.step s c stage = r at this
  obtain ⟨s', turn⟩ := r
  cases turn with
  | ended o => exact this.trans (last s' o)
  | _ => exact this.trans (.of_timers rfl rfl)

theorem delays_stepLoop (s : Machine) (c tick : Nat) : Delays s (s.stepLoop c tick) := by
  unfold stepLoop
  split
  · exact ((delays_cancel _ (.caller c)).after rfl rfl).trans (.of_timers rfl rfl)
  · split
    · exact (delays_cancel s (.caller c)).trans (.of_timers rfl rfl)
    · next early =>
      refine delays_sleep _ ?_
      simp only [nanos, ceilMillis] at *
      omega

theorem delays_stepCaller (s : Machine) (c : Nat) : Delays s (s.stepCaller c) := by
  unfold stepCaller
  split
  · exact delays_stepSubmitter ..
  · exact delays_stepPass fun _ _ => .of_timers rfl rfl
  · split <;> exact .of_timers rfl rfl
  · exact delays_stepLoop ..
  · exact delays_stepPass fun _ _ => .of_timers rfl rfl
  · split
    · exact .of_timers rfl rfl
    · unfold signalShutdown
      split <;> exact .of_timers rfl rfl
  · split <;> exact .of_timers rfl rfl
  · split
    · exact (delays_cancel s (.caller c)).trans (.of_timers rfl rfl)
    · exact delays_sleep _ (by omega)
  · exact .of_timers rfl rfl
  · split <;> exact .of_timers rfl rfl
  · split <;> exact .of_timers rfl rfl
  · exact .of_timers rfl rfl

theorem delays_step (s : Machine) : Delays s s.step := by
  unfold step
  split
  · exact .refl s
  · exact delays_stepWorker ..
  · exact delays_stepEvaluation ..
  · exact delays_stepCaller ..

theorem delays_settle (s : Machine) : Delays s s.settle := by
  have run (n : Nat) : ∀ s, Delays s (run n s) := by
    induction n with
    | zero => exact Delays.refl
    | succ n ih =>
      intro s
      unfold Machine.run
      split
      · exact .refl s
      · exact (delays_step s).trans (ih s.step)
  exact run s.work s

theorem lt_of_nextTimer {s : Machine} {t : Nat} (h : s.Punctual) (eq : s.nextTimer = some t) :
    s.now < t := by
  obtain ⟨timer, mem, rfl⟩ := List.mem_map.1 (List.min?_mem eq)
  exact h timer mem

@[simp] theorem now_advance (s : Machine) (millis : Nat) :
    (s.advance millis).now = s.now + millis := by
  have visit (target fuel : Nat) : ∀ s, (visitTimers target fuel s).now = target := by
    induction fuel with
    | zero => exact fun _ => rfl
    | succ fuel ih =>
      intro s
      unfold visitTimers
      split
      · rfl
      · split
        · rfl
        · exact ih _
  exact visit ..

theorem punctual_visitTimers {target fuel : Nat} {s : Machine} (punctual : s.Punctual)
    (enough : target < s.now + fuel) : (visitTimers target fuel s).Punctual := by
  induction fuel generalizing s with
  | zero => exact fun timer mem => Nat.lt_trans enough (punctual timer mem)
  | succ fuel ih =>
    unfold visitTimers
    split
    · next none =>
      intro timer mem
      have : s.timers = [] := by simpa [nextTimer] using none
      simp [this] at mem
    · next t eq =>
      have later := lt_of_nextTimer punctual eq
      split
      · next beyond =>
        exact fun timer mem =>
          Nat.lt_of_lt_of_le beyond ((List.min?_eq_some_iff.1 eq).2 _ (List.mem_map_of_mem mem))
      · have settles := delays_settle { s with now := max s.now t }.fire
        refine ih (settles.punctual fun timer mem => ?_) ?_
        · exact of_decide_eq_true (List.mem_filter.1 mem).2
        · rw [settles.now]
          change target < max s.now t + fuel
          omega

theorem punctual_advance {s : Machine} (punctual : s.Punctual) (millis : Nat) :
    (s.advance millis).Punctual :=
  punctual_visitTimers punctual (by omega)

theorem punctual_apply {s : Machine} (punctual : s.Punctual) (c : Command) :
    (s.apply c).Punctual := by
  cases c with
  | advance millis => exact punctual_advance punctual millis
  | unhold job =>
    have timers : (s.unhold job).timers = s.timers ∧ (s.unhold job).now = s.now := by
      unfold unhold freeEvaluation
      repeat' split
      all_goals exact ⟨rfl, rfl⟩
    exact (Delays.of_timers timers.2 timers.1).punctual punctual
  | unholdAnswer q =>
    have timers : (s.unholdAnswer q).timers = s.timers ∧ (s.unholdAnswer q).now = s.now := by
      unfold unholdAnswer
      split <;> exact ⟨rfl, rfl⟩
    exact (Delays.of_timers timers.2 timers.1).punctual punctual
  | shutdown =>
    have timers : s.signalShutdown.timers = s.timers ∧ s.signalShutdown.now = s.now := by
      unfold signalShutdown
      split <;> exact ⟨rfl, rfl⟩
    exact (Delays.of_timers timers.2 timers.1).punctual punctual
  | _ => exact punctual

theorem punctual_perform {s : Machine} (punctual : s.Punctual) (c : Command) :
    (s.perform c).Punctual :=
  (delays_settle _).punctual (punctual_apply punctual c)

end Autoscaling.Machine
