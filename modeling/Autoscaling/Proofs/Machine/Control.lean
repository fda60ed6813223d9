import Autoscaling.Machine.Settling
import Autoscaling.Proofs.Machine.Caller

namespace Autoscaling

structure Control where
  lifecycle : Lifecycle
  shutdown : Bool
  released : Bool

def Machine.control (s : Machine) : Control := ⟨s.lifecycle, s.shutdown, s.pool.released⟩

def Muted (told : List Event) : Prop := ∀ b, .answered (.stop b) ∉ told

theorem muted_nil : Muted [] := fun _ => List.not_mem_nil

def Event.endsStop : Event → Bool
  | .answered (.stop _) => true
  | _ => false

theorem endsStop_asked (q : Query) (job group : String) (cooldown : Duration) :
    (q.asked job group cooldown).endsStop = false := by
  cases q <;> rfl

theorem muted_singleton {e : Event} (other : e.endsStop = false) : Muted [e] := by
  intro b mem
  rw [← List.mem_singleton.1 mem] at other
  cases other

namespace Pool

theorem released_freeSlot (p : Pool) : p.freeSlot.1.released = p.released := by
  obtain ⟨_, _, eq⟩ := freeSlot_fst p
  rw [eq]

theorem released_proceed (p : Pool) (s : Submission) : (p.proceed s).1.released = p.released := by
  unfold proceed
  split
  · split <;> rfl
  · split
    · exact released_freeSlot p
    · rfl
  · rfl
  · rcases spawnIfNeeded_cases p with ⟨eq, _⟩ | ⟨eq, _⟩ <;> rw [eq] <;> rfl

theorem released_enter (p : Pool) (c : Nat) (i : WorkItem) :
    (p.enter c i).1.released = p.released := by
  unfold enter
  repeat' split
  all_goals rfl

theorem released_submit (p : Pool) (c : Nat) (i : WorkItem) (entered : Bool) :
    (p.submit c i entered).1.released = p.released := by
  unfold submit
  split
  · split
    · exact released_proceed p _
    · rfl
  · exact released_enter p c i

end Pool

namespace Pass

def Stage.hasBegun : Stage → Bool
  | .opening => false
  | _ => true

def Stage.mayGo (shutdown : Bool) : Stage → Bool
  | .opening => false
  | .visiting _ => !shutdown
  | _ => true

theorem Stage.hasBegun_of_mayGo {stage : Stage} {shutdown : Bool}
    (may : stage.mayGo shutdown = true) : stage.hasBegun = true := by
  cases stage with
  | opening => cases may
  | _ => rfl

inductive Strides (s : Machine) : Stage → Turn → Lifecycle → Prop
  | skip : Strides s .opening (.ended o) s.lifecycle
  | begin (free : s.lifecycle.inPass = false) :
      Strides s .opening (.goOn (.visiting p)) { s.lifecycle with inPass := true }
  | go (may : stage.mayGo s.shutdown = true) (begun : next.hasBegun = true) :
      Strides s stage (.goOn next) s.lifecycle
  | wait (may : stage.mayGo s.shutdown = true) (begun : next.hasBegun = true) :
      Strides s stage (.wait next) s.lifecycle
  | finish : Strides s (.visiting p) (.ended o) s.lifecycle.endPass

structure Walks (s : Machine) (stage : Stage) (r : Machine × Turn) : Prop where
  told : ∃ told, r.1.history = s.history ++ told ∧ Muted told
  released : r.1.pool.released = s.pool.released
  strides : Strides s stage r.2 r.1.lifecycle

variable {s s' : Machine} {stage next : Stage}

theorem told_nothing (h : s'.history = s.history) :
    ∃ told, s'.history = s.history ++ told ∧ Muted told :=
  ⟨[], by rw [h, List.append_nil], muted_nil⟩

theorem told_event {e : Event} (h : s'.history = s.history ++ [e])
    (other : e.endsStop = false) : ∃ told, s'.history = s.history ++ told ∧ Muted told :=
  ⟨[e], h, muted_singleton other⟩

theorem hasBegun_decide (p : Pass) (check : Check) : (p.decide check).hasBegun = true := by
  unfold decide
  split <;> rfl

theorem walks_openStep (s : Machine) : Walks s .opening (openStep s) := by
  unfold openStep
  cases begins : s.lifecycle.beginPass? with
  | none => exact ⟨told_nothing rfl, rfl, .skip⟩
  | some lifecycle =>
    unfold Lifecycle.beginPass? at begins
    split at begins
    · cases begins
    · next free =>
      cases begins
      have free : s.lifecycle.inPass = false := by simpa using free
      have skipped (o : Outcome) :
          Strides s .opening (.ended o) { s.lifecycle with inPass := false } := by
        have same : { s.lifecycle with inPass := false } = s.lifecycle := by rw [← free]
        rw [same]
        exact .skip
      dsimp only
      split
      · exact ⟨told_event (Machine.history_log _ _) rfl, rfl, skipped _⟩
      · split
        · exact ⟨told_event (Machine.history_log _ _) rfl, rfl, skipped _⟩
        · exact ⟨told_event (Machine.history_log _ _) rfl, rfl, .begin free⟩

theorem walks_visitStep (s : Machine) (p : Pass) : Walks s (.visiting p) (visitStep s p) := by
  have completes : Walks s (.visiting p) (p.complete s) := by
    unfold complete
    dsimp only
    split <;> exact ⟨told_nothing rfl, rfl, .finish⟩
  unfold visitStep
  split
  · exact completes
  · split
    · exact completes
    · next running =>
      exact ⟨told_nothing rfl, rfl, .go (by simpa [Stage.mayGo] using running) rfl⟩

theorem walks_submitStep (s : Machine) (c : Nat) (p : Pass) (i : WorkItem) (entered : Bool) :
    Walks s (.submitting p i entered) (submitStep s c p i entered) := by
  have released := Pool.released_submit s.pool c i entered
  unfold submitStep Machine.submit
  generalize s.pool.submit c i entered = r at released
  obtain ⟨pool, woken, turn⟩ := r
  cases turn with
  | goOn => exact ⟨told_nothing rfl, released, .go rfl rfl⟩
  | wait => exact ⟨told_nothing rfl, released, .wait rfl rfl⟩
  | accepted | refused =>
    exact ⟨told_event (Machine.history_log _ _) rfl, released, .go rfl rfl⟩

theorem walks_step (s : Machine) (c : Nat) (stage : Stage) : Walks s stage (step s c stage) := by
  cases stage with
  | opening => exact walks_openStep s
  | visiting p => exact walks_visitStep s p
  | checking q p check =>
    simp only [step, checkStep]
    split
    · exact ⟨told_nothing rfl, rfl, .go rfl (hasBegun_decide _ _)⟩
    · split
      · exact ⟨told_event (Machine.history_log _ _) (endsStop_asked ..), rfl, .go rfl rfl⟩
      · split
        · exact ⟨told_event (Machine.history_log _ _) (endsStop_asked ..), rfl, .go rfl rfl⟩
        · exact ⟨told_event (Machine.history_log _ _) (endsStop_asked ..), rfl, .wait rfl rfl⟩
  | held q p check => exact ⟨told_nothing rfl, rfl, .wait rfl rfl⟩
  | answering q p check =>
    simp only [step, answerStep]
    split
    · exact ⟨told_nothing rfl, rfl, .go rfl (hasBegun_decide _ _)⟩
    · split
      · exact ⟨told_nothing rfl, rfl, .go rfl (hasBegun_decide _ _)⟩
      · cases q <;> exact ⟨told_nothing rfl, rfl, .go rfl rfl⟩
  | submitting p i entered => exact walks_submitStep s c p i entered

end Pass

namespace Call

def stage? : Call → Option Pass.Stage
  | .evaluating stage | .ticking _ stage => some stage
  | _ => none

def inPass (x : Call) : Bool :=
  match x.stage? with
  | none | some .opening => false
  | _ => true

def isSpent (x : Call) : Bool :=
  match x.stage? with
  | none | some .opening | some (.visiting _) => true
  | _ => false

def isLooping : Call → Bool
  | .selecting _ | .ticking .. => true
  | _ => false

def isPolling : Call → Bool
  | .polling | .sleeping _ => true
  | _ => false

def isJoining : Call → Bool
  | .joining true _ => true
  | _ => false

def ofLoop : Call → Bool
  | .submitting .. | .releasing | .joining false _ => false
  | _ => true

end Call

namespace Machine

inductive Hosts : (Pass.Stage → Call) → Call → Prop
  | evaluating : Hosts .evaluating .returned
  | ticking : Hosts (.ticking next) (.selecting next)

inductive Deed (s : Machine) : Call → Call → Control → List Event → Prop
  | rest : Deed s x x s.control []
  | skip (hosts : Hosts within after) (muted : Muted told) :
      Deed s (within .opening) after s.control told
  | begin (hosts : Hosts within after) (muted : Muted told) (free : s.lifecycle.inPass = false) :
      Deed s (within .opening) (within (.visiting p))
        { s.control with lifecycle := { s.lifecycle with inPass := true } } told
  | go (hosts : Hosts within after) (muted : Muted told) (may : stage.mayGo s.shutdown = true)
      (begun : next.hasBegun = true) :
      Deed s (within stage) (within next) s.control told
  | finish (hosts : Hosts within after) (muted : Muted told) :
      Deed s (within (.visiting p)) after { s.control with lifecycle := s.lifecycle.endPass } told
  | enter (new : s.lifecycle.phase = .idle) :
      Deed s .entering (.selecting tick)
        { s.control with
          lifecycle := { s.lifecycle with phase := .running, loopActive := true } } []
  | barred : Deed s .entering .returned s.control [.answered .run]
  | tick : Deed s (.selecting tick) (.ticking next .opening) s.control [.ticked]
  | leave (signalled : s.shutdown = true) :
      Deed s (.selecting tick) .returned
        { s.control with lifecycle := s.lifecycle.markLoopExited } [.answered .run]
  | ask (first : s.lifecycle.phase = .idle ∨ s.lifecycle.phase = .running) :
      Deed s .stopping .polling
        { s.control with lifecycle := { s.lifecycle with phase := .draining }, shutdown := true } []
  | refuse (asked : s.lifecycle.phase = .draining ∨ s.lifecycle.phase = .stopped) :
      Deed s .stopping .returned s.control [.answered (.stop false)]
  | poll : Deed s .polling (.sleeping wakeAt) s.control []
  | wake : Deed s (.sleeping wakeAt) .polling s.control []
  | release (drained : s.lifecycle.isDrained = true) :
      Deed s .polling (.joining true s.pool.handles) { s.control with released := true } []
  | join (gone : s.pool.worker w = .exited) :
      Deed s (.joining true (w :: ws)) (.joining true ws) s.control []
  | stop : Deed s (.joining true []) .returned
      { s.control with lifecycle := s.lifecycle.markStopped } [.answered (.stop true)]

theorem Hosts.inPass {within : Pass.Stage → Call} {after : Call} {stage : Pass.Stage}
    (hosts : Hosts within after) : (within stage).inPass = stage.hasBegun := by
  cases hosts <;> cases stage <;> rfl

def Swings (call call' gate gate' : Bool) : Prop :=
  (call' = call ∧ gate' = gate) ∨
  (call = false ∧ gate = false ∧ call' = true ∧ gate' = true) ∨
  (call = true ∧ call' = false ∧ gate' = false)

theorem Deed.swings {s : Machine} {x y : Call} {k : Control} {told : List Event}
    (deed : Deed s x y k told) :
    Swings x.inPass y.inPass s.lifecycle.inPass k.lifecycle.inPass := by
  cases deed with
  | skip hosts => exact .inl ⟨by cases hosts <;> rfl, rfl⟩
  | begin hosts _ free => exact .inr (.inl ⟨hosts.inPass, free, hosts.inPass, rfl⟩)
  | go hosts _ may begun =>
    refine .inl ⟨?_, rfl⟩
    rw [hosts.inPass, hosts.inPass, begun, Pass.Stage.hasBegun_of_mayGo may]
  | finish hosts => exact .inr (.inr ⟨hosts.inPass, by cases hosts <;> rfl, rfl⟩)
  | _ => exact .inl ⟨rfl, rfl⟩

def Does (s : Machine) (c : Nat) (s' : Machine) : Prop :=
  ∃ told, s'.history = s.history ++ told ∧ Deed s (s.call c) (s'.call c) s'.control told

variable {s s' : Machine} {c : Nat}

theorem does_stepPass {stage : Pass.Stage} {within : Pass.Stage → Call} {after : Call}
    {ended : Machine → Outcome → Machine} (hosts : Hosts within after)
    (call : s.call c = within stage)
    (last : ∀ s' o, (s'.call c = s.call c) → ∃ told, (ended s' o).history = s'.history ++ told ∧
      Muted told ∧ (ended s' o).call c = after ∧ (ended s' o).control = s'.control) :
    s.Does c (s.stepPass c stage within ended) := by
  have keeps := (moves_step s c stage).keeps
  obtain ⟨⟨told, history, muted⟩, released, strides⟩ := Pass.walks_step s c stage
  have ne : s.call c ≠ .returned := by
    rw [call]
    cases hosts <;> simp
  unfold stepPass
  generalize Pass.step s c stage = r at keeps history released strides
  obtain ⟨s₁, turn⟩ := r
  dsimp only at keeps history released strides
  have set (x : Call) : (s₁.setCall c x).call c = x :=
    call_setCall_self (by rwa [keeps.call]) x
  have control {l : Lifecycle} (eq : s₁.lifecycle = l) :
      s₁.control = { s.control with lifecycle := l } := by
    simp only [Machine.control, eq, keeps.shutdown, released]
  have finishes {o : Outcome} {l : Lifecycle} (eq : s₁.lifecycle = l)
      (deed : ∀ told, Muted told →
        Deed s (within stage) after { s.control with lifecycle := l } told) :
      s.Does c (ended s₁ o) := by
    obtain ⟨more, ends, muted', call', same⟩ := last s₁ o (keeps.call c)
    refine ⟨told ++ more, by rw [ends, history, List.append_assoc], ?_⟩
    rw [call, call', same, control eq]
    exact deed _ fun b mem => (List.mem_append.1 mem).elim (muted b) (muted' b)
  have goes {next : Pass.Stage} {l : Lifecycle} (eq : s₁.lifecycle = l)
      (deed : Deed s (within stage) (within next) { s.control with lifecycle := l } told) :
      s.Does c (s₁.setCall c (within next)) := by
    refine ⟨told, history, ?_⟩
    have same : (s₁.setCall c (within next)).control = s₁.control := rfl
    rw [call, set, same, control eq]
    exact deed
  generalize eq : s₁.lifecycle = l at strides
  cases strides with
  | skip => exact finishes eq fun _ muted => .skip hosts muted
  | finish => exact finishes eq fun _ muted => .finish hosts muted
  | begin free => exact goes eq (.begin hosts muted free)
  | go may begun => exact goes eq (.go hosts muted may begun)
  | wait may begun => exact goes eq (.go hosts muted may begun)

@[simp] theorem history_signalShutdown (s : Machine) : s.signalShutdown.history = s.history := by
  unfold signalShutdown
  split <;> rfl

@[simp] theorem control_signalShutdown (s : Machine) :
    s.signalShutdown.control = { s.control with shutdown := true } := by
  unfold signalShutdown
  split
  · next signalled => simp [control, signalled]
  · rfl

theorem does_rest (history : s'.history = s.history) (call : s'.call c = s.call c)
    (control : s'.control = s.control) : s.Does c s' := by
  refine ⟨[], by rw [history, List.append_nil], ?_⟩
  rw [call, control]
  exact .rest

theorem does_answer {x : Call} {k : Control} {a : Answer} (call : s.call c = x)
    (history : s'.history = s.history) (control : s'.control = k)
    (deed : Deed s x .returned k [.answered a]) : s.Does c (s'.answer c a) := by
  refine ⟨[.answered a], ?_, ?_⟩
  · rw [← history]
    exact history_log (s'.setCall c .returned) _
  · have after : (s'.answer c a).call c = .returned := call_setCall_returned s' c
    have same : (s'.answer c a).control = s'.control := rfl
    rw [call, after, same, control]
    exact deed

theorem does_setCall {x y : Call} {k : Control} {told : List Event} (call : s.call c = x)
    (same : s'.call c = x) (ne : x ≠ .returned) (history : s'.history = s.history ++ told)
    (control : s'.control = k) (deed : Deed s x y k told) : s.Does c (s'.setCall c y) := by
  refine ⟨told, history, ?_⟩
  have kept : (s'.setCall c y).control = s'.control := rfl
  rw [call, call_setCall_self (by rwa [same]), kept, control]
  exact deed

theorem does_stepLoop {tick : Nat} (call : s.call c = .selecting tick) :
    s.Does c (s.stepLoop c tick) := by
  unfold stepLoop
  split
  · next signalled => exact does_answer call rfl rfl (.leave signalled)
  · split
    · exact does_setCall call call (by simp) (history_log _ _) rfl .tick
    · exact does_rest rfl rfl rfl

theorem does_stop (call : s.call c = .stopping) : s.Does c (s.stepCaller c) := by
  unfold stepCaller
  rw [call]
  dsimp only
  cases phase : s.lifecycle.phase with
  | idle | running =>
    have asked : s.lifecycle.requestStop? = some { s.lifecycle with phase := .draining } := by
      simp only [Lifecycle.requestStop?, phase]
    rw [asked]
    dsimp only
    refine ⟨[], ?_, ?_⟩
    · rw [history_signalShutdown, List.append_nil]
      rfl
    · have ne : s.call c ≠ .returned := by simp [call]
      have after : ({ s with lifecycle := { s.lifecycle with phase := .draining } }.setCall c
          .polling).call c = .polling := call_setCall_self ne _
      rw [call, call_signalShutdown, after, control_signalShutdown]
      exact .ask (by simp [phase])
  | draining | stopped =>
    have asked : s.lifecycle.requestStop? = none := by
      simp only [Lifecycle.requestStop?, phase]
    rw [asked]
    exact does_answer call rfl rfl (.refuse (by simp [phase]))

theorem does_poll (call : s.call c = .polling) : s.Does c (s.stepCaller c) := by
  have ne : s.call c ≠ .returned := by simp [call]
  unfold stepCaller
  rw [call]
  dsimp only
  split
  · next drained =>
    refine ⟨[], (List.append_nil _).symm, ?_⟩
    have after : (s.beginRelease c true).call c = .joining true s.pool.handles :=
      call_setCall_self (s := { s with pool := s.pool.release.1 }) ne _
    have released : (s.beginRelease c true).control = { s.control with released := true } := by
      change Control.mk _ _ s.pool.release.1.released = _
      rw [Pool.release_fst]
      rfl
    rw [call, after, released]
    exact .release drained
  · exact does_setCall call call (by simp) (List.append_nil _).symm rfl .poll

theorem does_stepCaller (ofLoop : (s.call c).ofLoop = true) : s.Does c (s.stepCaller c) := by
  cases call : s.call c with
  | submitting | releasing =>
    rw [call] at ofLoop
    cases ofLoop
  | stopping => exact does_stop call
  | polling => exact does_poll call
  | evaluating stage =>
    simp only [stepCaller, call]
    refine does_stepPass .evaluating call fun s' o _ => ?_
    exact ⟨[.answered (.evaluate o)], history_log (s'.setCall c .returned) _, muted_singleton rfl,
      call_setCall_returned s' c, rfl⟩
  | ticking following stage =>
    simp only [stepCaller, call]
    refine does_stepPass .ticking call fun s' o same => ?_
    exact ⟨[], (List.append_nil _).symm, muted_nil,
      call_setCall_self (by simp [same, call]) _, rfl⟩
  | entering =>
    simp only [stepCaller, call]
    split
    · exact does_answer call rfl rfl .barred
    · next lifecycle runs =>
      unfold Lifecycle.markRunning? at runs
      split at runs
      · next new =>
        cases runs
        exact does_setCall call call (by simp) (List.append_nil _).symm rfl (.enter new)
      · cases runs
  | selecting tick =>
    simp only [stepCaller, call]
    exact does_stepLoop call
  | sleeping wakeAt =>
    simp only [stepCaller, call]
    split
    · exact does_setCall call call (by simp) (List.append_nil _).symm rfl .wake
    · exact does_rest rfl rfl rfl
  | joining stop handles =>
    cases stop with
    | false =>
      rw [call] at ofLoop
      cases ofLoop
    | true =>
      cases handles with
      | nil =>
        simp only [stepCaller, call]
        exact does_answer call rfl rfl .stop
      | cons w ws =>
        simp only [stepCaller, call]
        split
        · next gone =>
          exact does_setCall call call (by simp) (List.append_nil _).symm rfl (.join gone)
        · exact does_rest rfl rfl rfl
  | returned =>
    simp only [stepCaller, call]
    exact does_rest rfl rfl rfl

structure Apart (s s' : Machine) : Prop where
  told : ∃ told, s'.history = s.history ++ told ∧ Muted told
  lifecycle : s'.lifecycle = s.lifecycle
  shutdown : s'.shutdown = s.shutdown

namespace Apart

theorem of_eq (history : s'.history = s.history) (lifecycle : s'.lifecycle = s.lifecycle)
    (shutdown : s'.shutdown = s.shutdown) : Apart s s' :=
  ⟨Pass.told_nothing history, lifecycle, shutdown⟩

theorem log (h : Apart s s') {e : Event} (other : e.endsStop = false) : Apart s (s'.log e) := by
  obtain ⟨told, eq, muted⟩ := h.told
  refine ⟨⟨told ++ [e], by rw [history_log, eq, List.append_assoc], fun b mem => ?_⟩, h.lifecycle,
    h.shutdown⟩
  exact (List.mem_append.1 mem).elim (muted b) (muted_singleton other b)

theorem finishEvaluation (h : Apart s s') (w : Nat) (i : WorkItem) :
    Apart s (s'.finishEvaluation w i) := by
  have logged : Apart s (s'.log (.finished i)) := h.log rfl
  unfold Machine.finishEvaluation
  dsimp only
  split <;> exact ⟨logged.told, logged.lifecycle, logged.shutdown⟩

end Apart

theorem apart_stepWorker (s : Machine) (w : Nat) : Apart s (s.stepWorker w) := by
  unfold stepWorker
  split
  · exact .of_eq rfl rfl rfl
  · split
    · exact .of_eq rfl rfl rfl
    · apply Apart.log
      · exact .of_eq rfl rfl rfl
      · rfl
    · exact .of_eq rfl rfl rfl
  · split
    · apply Apart.log
      · exact .of_eq rfl rfl rfl
      · rfl
    · exact .of_eq rfl rfl rfl
  all_goals exact .of_eq rfl rfl rfl

theorem apart_stepEvaluation (s : Machine) (w : Nat) : Apart s (s.stepEvaluation w) := by
  have same : Apart s s := .of_eq rfl rfl rfl
  unfold stepEvaluation
  split
  · next i _ =>
    have begun : Apart s (s.log (.started i)) := same.log rfl
    dsimp only
    split
    · exact begun.finishEvaluation w i
    · exact ⟨begun.told, begun.lifecycle, begun.shutdown⟩
    · have ends := begun.log (e := .panicked i) rfl
      exact ⟨ends.told, ends.lifecycle, ends.shutdown⟩
    · split
      · have permitted : Apart s ((s.log (.started i)).direct (.spend i.job)) :=
          ⟨begun.told, begun.lifecycle, begun.shutdown⟩
        exact permitted.finishEvaluation w i
      · exact ⟨begun.told, begun.lifecycle, begun.shutdown⟩
  · split
    · exact same.finishEvaluation w _
    · exact .of_eq rfl rfl rfl
  · exact same.finishEvaluation w _
  · exact .of_eq rfl rfl rfl

end Machine

end Autoscaling
