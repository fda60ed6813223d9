import Autoscaling.Proofs.Machine.Turns
import Autoscaling.Proofs.Pool.Renumbered

/-!
A machine beside one that has read the store more often. The states are the same but for the
numbers of passes, and the same is told but for the reads that the one was spared; whatever moves or
comes next does the same to both.
-/

namespace Autoscaling

def Pass.renumber (g : Nat → Nat) (p : Pass) : Pass := { p with number := g p.number }

def Pass.Stage.renumber (g : Nat → Nat) : Pass.Stage → Pass.Stage
  | .opening => .opening
  | .visiting p => .visiting (p.renumber g)
  | .checking q p c => .checking q (p.renumber g) c
  | .held q p c => .held q (p.renumber g) c
  | .answering q p c => .answering q (p.renumber g) c
  | .submitting p i entered => .submitting (p.renumber g) (i.renumber g) entered

def Pass.Turn.renumber (g : Nat → Nat) : Pass.Turn → Pass.Turn
  | .goOn stage => .goOn (stage.renumber g)
  | .wait stage => .wait (stage.renumber g)
  | .ended o => .ended o

def Call.renumber (g : Nat → Nat) : Call → Call
  | .submitting items entered => .submitting (items.map (·.renumber g)) entered
  | .evaluating stage => .evaluating (stage.renumber g)
  | .ticking next stage => .ticking next (stage.renumber g)
  | x => x

def Event.renumber (g : Nat → Nat) : Event → Event
  | .accepted i => .accepted (i.renumber g)
  | .refused i => .refused (i.renumber g)
  | .taken i => .taken (i.renumber g)
  | .dropped i r => .dropped (i.renumber g) r
  | .started i => .started (i.renumber g)
  | .finished i => .finished (i.renumber g)
  | .panicked i => .panicked (i.renumber g)
  | e => e

def Store.reading : String := Recorder.operation Store.Query.all.key

namespace Machine

inductive Retells (g : Nat → Nat) (k k' : List (Nat × Event)) :
    List (Nat × Event) → List (Nat × Event) → Prop
  | here : Retells g k k' k k'
  | told (same : Retells g k k' l l') :
      Retells g k k' ((moment, e) :: l) ((moment, e.renumber g) :: l')
  | read (same : Retells g k k' l l') : Retells g k k' l ((moment, .read) :: l')

def retold (s : Machine) (g : Nat → Nat) (n : Nat) (x : Recorder) (l : List (Nat × Event)) :
    Machine :=
  { s with
    pool := s.pool.renumber g
    calls := s.calls.map (·.renumber g)
    reads := s.reads + n
    timings := x
    journal := l }

/-- Since `k` and `k'` were told, `s` has gone the same way as `t`, with `n` reads more in all. -/
structure Akin (g : Nat → Nat) (n : Nat) (k k' : List (Nat × Event)) (t s : Machine) : Prop where
  state : s = t.retold g n s.timings s.journal
  timings : ∀ name, name ≠ Store.reading → s.timings.get? name = t.timings.get? name
  events : Retells g k k' t.journal s.journal

variable {g : Nat → Nat} {n c w : Nat} {k k' : List (Nat × Event)} {t s : Machine}
  {i : WorkItem}

def readStore (s : Machine) (l : Lifecycle) : Machine :=
  { s with lifecycle := l, reads := s.reads + 1 }.log .read

theorem openStep_of_free {l : Lifecycle} (begins : s.lifecycle.beginPass? = some l) :
    Pass.openStep s =
      if s.storeFails then ((s.readStore l).endPass, .ended .fetchFailed)
      else if s.store.isEmpty then
        (((s.readStore l).time Store.Query.all.key 0).endPass, .ended .noPolicies)
      else
        ((s.readStore l).time Store.Query.all.key 0,
          .goOn (.visiting
            { number := s.reads + 1, began := s.now, rest := s.store.entries })) := by
  simp only [Pass.openStep, begins]
  rfl

theorem reads_stepPass {stage : Pass.Stage} {within : Pass.Stage → Call}
    {ended : Machine → Outcome → Machine} (last : ∀ s o, (ended s o).reads = s.reads) :
    (s.stepPass c stage within ended).reads = (Pass.step s c stage).1.reads := by
  unfold stepPass
  generalize Pass.step s c stage = r
  obtain ⟨s₁, turn⟩ := r
  cases turn with
  | ended o => exact last s₁ o
  | _ => rfl

theorem call_retold (x : Recorder) (l : List (Nat × Event)) :
    (t.retold g n x l).call c = (t.call c).renumber g := by
  simp only [call, retold, List.getD_eq_getElem?_getD, List.getElem?_map]
  cases t.calls[c]? <;> rfl

namespace Akin

theorem pool (akin : Akin g n k k' t s) : s.pool = t.pool.renumber g := by
  rw [akin.state]
  rfl

theorem call (akin : Akin g n k k' t s) (c : Nat) : s.call c = (t.call c).renumber g := by
  rw [akin.state, call_retold]

theorem reads (akin : Akin g n k k' t s) : s.reads = t.reads + n := by
  rw [akin.state]
  rfl

theorem now (akin : Akin g n k k' t s) : s.now = t.now := by
  rw [akin.state]
  rfl

theorem ready (akin : Akin g n k k' t s) : s.ready = t.ready := by
  rw [akin.state]
  rfl

theorem timers (akin : Akin g n k k' t s) : s.timers = t.timers := by
  rw [akin.state]
  rfl

theorem shutdown (akin : Akin g n k k' t s) : s.shutdown = t.shutdown := by
  rw [akin.state]
  rfl

theorem lifecycle (akin : Akin g n k k' t s) : s.lifecycle = t.lifecycle := by
  rw [akin.state]
  rfl

theorem store (akin : Akin g n k k' t s) : s.store = t.store := by
  rw [akin.state]
  rfl

theorem storeFails (akin : Akin g n k k' t s) : s.storeFails = t.storeFails := by
  rw [akin.state]
  rfl

theorem scenario (akin : Akin g n k k' t s) : s.scenario = t.scenario := by
  rw [akin.state]
  rfl

theorem nanos (akin : Akin g n k k' t s) : s.nanos = t.nanos := by
  rw [Machine.nanos, akin.now]
  rfl

theorem period (akin : Akin g n k k' t s) : s.interval.nanos = t.interval.nanos := by
  rw [akin.state]
  rfl

theorem drainPoll (akin : Akin g n k k' t s) : s.drainPoll.millis = t.drainPoll.millis := by
  rw [akin.state]
  rfl

theorem clock (akin : Akin g n k k' t s) : s.clock = t.clock := by
  rw [Machine.clock, akin.now]
  rfl

theorem callers (akin : Akin g n k k' t s) {isAsked : Call → Bool}
    (same : ∀ x, isAsked (x.renumber g) = isAsked x) : s.callers isAsked = t.callers isAsked := by
  have length : s.calls.length = t.calls.length := by
    rw [akin.state]
    exact List.length_map _
  simp only [Machine.callers, length, akin.call, same]

theorem silent (akin : Akin g n k k' t s) (f f' : Machine → Machine)
    (same : ∀ x l, f' (t.retold g n x l) = (f t).retold g n x l)
    (timings : (f t).timings = t.timings) (journal : (f t).journal = t.journal) :
    Akin g n k k' (f t) (f' s) := by
  have state : f' s = (f t).retold g n s.timings s.journal := by
    rw [akin.state]
    exact same _ _
  rw [state]
  exact ⟨rfl, timings ▸ akin.timings, journal ▸ akin.events⟩

theorem wake (akin : Akin g n k k' t s) (l : List Agent) :
    Akin g n k k' (t.wake l) (s.wake l) :=
  akin.silent (·.wake l) (·.wake l) (fun _ _ => rfl) rfl rfl

theorem wait (akin : Akin g n k k' t s) : Akin g n k k' t.wait s.wait :=
  akin.silent Machine.wait Machine.wait (fun _ _ => rfl) rfl rfl

theorem sleep (akin : Akin g n k k' t s) (a : Agent) (wakeAt : Nat) :
    Akin g n k k' (t.sleep a wakeAt) (s.sleep a wakeAt) :=
  akin.silent (·.sleep a wakeAt) (·.sleep a wakeAt) (fun _ _ => rfl) rfl rfl

theorem cancel (akin : Akin g n k k' t s) (a : Agent) :
    Akin g n k k' (t.cancel a) (s.cancel a) :=
  akin.silent (·.cancel a) (·.cancel a) (fun _ _ => rfl) rfl rfl

theorem direct (akin : Akin g n k k' t s) (x : Scenario → Scenario) :
    Akin g n k k' (t.direct x) (s.direct x) :=
  akin.silent (·.direct x) (·.direct x) (fun _ _ => rfl) rfl rfl

theorem withPool (akin : Akin g n k k' t s) (p : Pool) :
    Akin g n k k' { t with pool := p } { s with pool := p.renumber g } :=
  akin.silent ({ · with pool := p }) ({ · with pool := p.renumber g })
    (fun _ _ => rfl) rfl rfl

theorem withLifecycle (akin : Akin g n k k' t s) (l : Lifecycle) :
    Akin g n k k' { t with lifecycle := l } { s with lifecycle := l } :=
  akin.silent ({ · with lifecycle := l }) ({ · with lifecycle := l }) (fun _ _ => rfl) rfl rfl

theorem setCall (akin : Akin g n k k' t s) (c : Nat) (x : Call) :
    Akin g n k k' (t.setCall c x) (s.setCall c (x.renumber g)) :=
  akin.silent (·.setCall c x) (·.setCall c (x.renumber g))
    (fun _ _ => by simp only [Machine.setCall, retold, List.map_set]) rfl rfl

theorem log (akin : Akin g n k k' t s) (e : Event) :
    Akin g n k k' (t.log e) (s.log (e.renumber g)) := by
  constructor
  case state =>
    have told : (s.log (e.renumber g)).journal = (t.now, e.renumber g) :: s.journal := by
      rw [← akin.now]
      rfl
    rw [told]
    exact congrArg (·.log (e.renumber g)) akin.state
  case timings => exact akin.timings
  case events =>
    simp only [Machine.log, akin.now]
    exact .told akin.events

theorem time (akin : Akin g n k k' t s) (key : List String) (millis : Nat) :
    Akin g n k k' (t.time key millis) (s.time key millis) := by
  constructor
  case state => exact congrArg (·.time key millis) akin.state
  case timings =>
    intro name other
    simp only [Machine.time, Recorder.record, Table.get?_insert]
    split
    · next eq => rw [← eq, akin.timings name other]
    · exact akin.timings name other
  case events => exact akin.events

theorem answer (akin : Akin g n k k' t s) (c : Nat) (a : Answer) :
    Akin g n k k' (t.answer c a) (s.answer c a) :=
  ((akin.setCall c .returned).log (.answered a)).wait

theorem joiners (akin : Akin g n k k' t s) (w : Nat) : s.joiners w = t.joiners w :=
  akin.callers fun x => by cases x <;> rfl

theorem stepWorker (akin : Akin g n k k' t s) (w : Nat) :
    Akin g n k k' (t.stepWorker w) (s.stepWorker w) := by
  unfold Machine.stepWorker
  rw [akin.pool, Pool.worker_renumber, ← akin.pool]
  cases t.pool.worker w with
  | resting =>
    have listens : s.pool.listen w s.now = (t.pool.listen w t.now).renumber g := by
      rw [akin.pool, akin.now, Pool.listen_renumber]
    dsimp only [Pool.Worker.renumber]
    rw [listens]
    exact akin.withPool _
  | idle deadline =>
    have receives : s.pool.receive w s.now deadline =
        ((t.pool.receive w t.now deadline).1.renumber g, (t.pool.receive w t.now deadline).2.1,
          (t.pool.receive w t.now deadline).2.2.renumber g) := by
      rw [akin.pool, akin.now, Pool.receive_renumber]
    dsimp only [Pool.Worker.renumber]
    rw [receives, akin.joiners]
    generalize t.pool.receive w t.now deadline = r
    obtain ⟨p, woken, reception⟩ := r
    cases reception with
    | item i => exact (((akin.withPool p).cancel (.worker w)).wake woken).log (.taken i)
    | leaves => exact (((akin.withPool p).cancel (.worker w)).wake (woken ++ t.joiners w)).wait
    | nothing => exact akin.sleep (.worker w) deadline
  | holding i =>
    have dispatches : s.pool.dispatch w (i.renumber g) s.shutdown =
        ((t.pool.dispatch w i t.shutdown).1.renumber g, (t.pool.dispatch w i t.shutdown).2) := by
      rw [akin.pool, akin.shutdown, Pool.dispatch_renumber]
    dsimp only [Pool.Worker.renumber]
    rw [dispatches]
    generalize t.pool.dispatch w i t.shutdown = r
    obtain ⟨p, woken, reason⟩ := r
    cases reason with
    | none => exact ((akin.withPool p).wake woken).wait
    | some r => exact ((akin.withPool p).wake woken).log (.dropped i r)
  | finished i =>
    dsimp only [Pool.Worker.renumber]
    rw [akin.pool, Pool.complete_renumber]
    exact (akin.withPool (t.pool.complete w).1).wake (t.pool.complete w).2
  | evaluating | exited => exact akin.wait

theorem setWorker (akin : Akin g n k k' t s) (w : Nat) (x : Pool.Worker) :
    Akin g n k k' { t with pool := t.pool.setWorker w x }
      { s with pool := s.pool.setWorker w (x.renumber g) } := by
  rw [akin.pool, Pool.setWorker_renumber]
  exact akin.withPool _

theorem setProgress (akin : Akin g n k k' t s) (w : Nat) (i : WorkItem)
    (progress : Pool.Progress) :
    Akin g n k k' (t.setProgress w i progress) (s.setProgress w (i.renumber g) progress) :=
  akin.setWorker w (.evaluating i progress)

theorem endEvaluation (akin : Akin g n k k' t s) (w : Nat) (i : WorkItem) :
    Akin g n k k' (t.endEvaluation w i) (s.endEvaluation w (i.renumber g)) :=
  (((akin.setWorker w (.finished i)).cancel (.evaluation w)).wake [.worker w]).wait

theorem finishEvaluation (akin : Akin g n k k' t s) (w : Nat) (i : WorkItem) :
    Akin g n k k' (t.finishEvaluation w i) (s.finishEvaluation w (i.renumber g)) := by
  have told := akin.log (.finished i)
  have clock : (s.log (.finished (i.renumber g))).clock = (t.log (.finished i)).clock :=
    told.clock
  have scenario : (s.log (.finished (i.renumber g))).scenario = (t.log (.finished i)).scenario :=
    told.scenario
  unfold Machine.finishEvaluation
  dsimp only
  rw [clock, scenario]
  split
  · exact (told.direct _).endEvaluation w i
  · exact told.endEvaluation w i

theorem beginEvaluation (akin : Akin g n k k' t s)
    (spawned : t.pool.worker w = .evaluating i .spawned) :
    Akin g n k k' (t.stepEvaluation w) (s.stepEvaluation w) := by
  have spawned' : s.pool.worker w = .evaluating (i.renumber g) .spawned := by
    rw [akin.pool, Pool.worker_renumber, spawned]
    rfl
  have told := akin.log (.started i)
  have behaviour : (s.log (.started (i.renumber g))).scenario.behaviour i.job =
      (t.log (.started i)).scenario.behaviour i.job := congrArg (·.behaviour i.job) told.scenario
  have permits : (s.log (.started (i.renumber g))).scenario.permits =
      (t.log (.started i)).scenario.permits := congrArg (·.permits) told.scenario
  have now : (s.log (.started (i.renumber g))).now = (t.log (.started i)).now := told.now
  have job : (i.renumber g).job = i.job := rfl
  simp only [Machine.stepEvaluation, spawned, spawned', job, behaviour]
  cases (t.log (.started i)).scenario.behaviour i.job with
  | instant => exact told.finishEvaluation w i
  | takes millis =>
    rw [now]
    exact told.setProgress w i _
  | panics => exact (told.log (.panicked i)).endEvaluation w i
  | held =>
    dsimp only
    rw [permits]
    split
    · exact (told.direct (.spend i.job)).finishEvaluation w i
    · have waits := told.silent
        (fun m => { m with evaluationLine := m.evaluationLine ++ [(i.job, w)] })
        (fun m => { m with evaluationLine := m.evaluationLine ++ [(i.job, w)] })
        (fun _ _ => rfl) rfl rfl
      exact (waits.setProgress w i .held).wait

theorem stepEvaluation (akin : Akin g n k k' t s) (w : Nat) :
    Akin g n k k' (t.stepEvaluation w) (s.stepEvaluation w) := by
  cases worker : t.pool.worker w with
  | evaluating i progress =>
    have worker' : s.pool.worker w = .evaluating (i.renumber g) progress := by
      rw [akin.pool, Pool.worker_renumber, worker]
      rfl
    cases progress with
    | spawned => exact akin.beginEvaluation worker
    | sleeping wakeAt =>
      simp only [Machine.stepEvaluation, worker, worker', akin.now]
      split
      · exact akin.finishEvaluation w i
      · exact akin.sleep (.evaluation w) wakeAt
    | freed =>
      simp only [Machine.stepEvaluation, worker, worker']
      exact akin.finishEvaluation w i
    | held =>
      simp only [Machine.stepEvaluation, worker, worker']
      exact akin.wait
  | _ =>
    simp only [Machine.stepEvaluation, akin.pool, Pool.worker_renumber, worker]
    exact akin.wait

theorem submit (akin : Akin g n k k' t s) (inj : Function.Injective g) (c : Nat) (i : WorkItem)
    (entered : Bool) :
    Akin g n k k' (t.submit c i entered).1 (s.submit c (i.renumber g) entered).1 ∧
      (s.submit c (i.renumber g) entered).2 = (t.submit c i entered).2 := by
  unfold Machine.submit
  rw [akin.pool, Pool.submit_renumber inj]
  generalize t.pool.submit c i entered = r
  obtain ⟨p, woken, turn⟩ := r
  have woke := (akin.withPool p).wake woken
  cases turn with
  | accepted => exact ⟨woke.log (.accepted i), rfl⟩
  | refused => exact ⟨woke.log (.refused i), rfl⟩
  | goOn | wait => exact ⟨woke, rfl⟩

theorem endPass (akin : Akin g n k k' t s) : Akin g n k k' t.endPass s.endPass :=
  akin.silent Machine.endPass Machine.endPass (fun _ _ => rfl) rfl rfl

structure Turns (g : Nat → Nat) (n : Nat) (k k' : List (Nat × Event))
    (r r' : Machine × Pass.Turn) : Prop where
  akin : Akin g n k k' r.1 r'.1
  turn : r'.2 = r.2.renumber g

theorem complete (akin : Akin g n k k' t s) (p : Pass) :
    Turns g n k k' (p.complete t) ((p.renumber g).complete s) := by
  have timed : s.timed = t.timed := by
    rw [akin.state]
    rfl
  have began : s.now - (p.renumber g).began = t.now - p.began := by
    rw [akin.now]
    rfl
  unfold Pass.complete
  rw [timed, began]
  split
  · exact ⟨(akin.time Pass.timingKey _).endPass, rfl⟩
  · exact ⟨akin.endPass, rfl⟩

theorem renumber_decide (g : Nat → Nat) (p : Pass) (check : Check) :
    (p.renumber g).decide check = (p.decide check).renumber g := by
  unfold Pass.decide
  split <;> rfl

theorem openStep (akin : Akin g n k k' t s)
    (numbered : (Pass.openStep t).1.reads ≠ t.reads → g (t.reads + 1) = t.reads + 1 + n) :
    Turns g n k k' (Pass.openStep t) (Pass.openStep s) := by
  cases begins : t.lifecycle.beginPass? with
  | none =>
    simp only [Pass.openStep, akin.lifecycle, begins]
    exact ⟨akin, rfl⟩
  | some l =>
    have begins' : s.lifecycle.beginPass? = some l := by rw [akin.lifecycle, begins]
    have read : Akin g n k k' (t.readStore l) (s.readStore l) :=
      (akin.silent (fun m => { m with lifecycle := l, reads := m.reads + 1 })
        (fun m => { m with lifecycle := l, reads := m.reads + 1 })
        (fun _ _ => by simp only [retold, Nat.add_right_comm]) rfl rfl).log .read
    rw [openStep_of_free begins] at numbered ⊢
    rw [openStep_of_free begins', akin.storeFails, akin.store, akin.now, akin.reads]
    split
    · exact ⟨read.endPass, rfl⟩
    · next succeeds =>
      have timed := read.time Store.Query.all.key 0
      split
      · exact ⟨timed.endPass, rfl⟩
      · next stocked =>
        rw [if_neg succeeds, if_neg stocked] at numbered
        have number : t.reads + n + 1 = g (t.reads + 1) := by
          rw [numbered (Nat.succ_ne_self _), Nat.add_right_comm]
        rw [number]
        exact ⟨timed, rfl⟩

theorem visitStep (akin : Akin g n k k' t s) (p : Pass) :
    Turns g n k k' (Pass.visitStep t p) (Pass.visitStep s (p.renumber g)) := by
  have rest : (p.renumber g).rest = p.rest := rfl
  unfold Pass.visitStep
  rw [rest, akin.shutdown]
  cases p.rest with
  | nil => exact akin.complete p
  | cons visited rest =>
    dsimp only
    split
    · exact akin.complete p
    · exact ⟨akin, rfl⟩

theorem checkStep (akin : Akin g n k k' t s) (c : Nat) (q : Query) (p : Pass) (check : Check) :
    Turns g n k k' (Pass.checkStep t c q p check) (Pass.checkStep s c q (p.renumber g) check) := by
  unfold Pass.checkStep
  cases check.left with
  | nil => exact ⟨akin, congrArg Pass.Turn.goOn (renumber_decide g p check)⟩
  | cons visited left =>
    obtain ⟨group, policy⟩ := visited
    generalize question : q.asked check.job group policy.cooldown = e
    have same : e.renumber g = e := by rw [← question]; cases q <;> rfl
    have asked := akin.log e
    rw [same] at asked
    have held : (s.log e).scenario.heldQuestions = (t.log e).scenario.heldQuestions :=
      congrArg (·.heldQuestions) asked.scenario
    have permits : (s.log e).scenario.questionPermits = (t.log e).scenario.questionPermits :=
      congrArg (·.questionPermits) asked.scenario
    dsimp only
    rw [question, held, permits]
    split
    · exact ⟨asked, rfl⟩
    · split
      · exact ⟨asked.direct _, rfl⟩
      · have waits := asked.silent
          (fun m => { m with questionLine := m.questionLine ++ [((q, check.job, group), c)] })
          (fun m => { m with questionLine := m.questionLine ++ [((q, check.job, group), c)] })
          (fun _ _ => rfl) rfl rfl
        exact ⟨waits, rfl⟩

theorem answerStep (akin : Akin g n k k' t s) (q : Query) (p : Pass) (check : Check) :
    Turns g n k k' (Pass.answerStep t q p check) (Pass.answerStep s q (p.renumber g) check) := by
  have decided : Turns g n k k' (t, .goOn (p.decide check))
      (s, .goOn ((p.renumber g).decide check)) :=
    ⟨akin, congrArg Pass.Turn.goOn (renumber_decide g p check)⟩
  unfold Pass.answerStep
  cases check.left with
  | nil => exact decided
  | cons visited left =>
    obtain ⟨group, policy⟩ := visited
    dsimp only
    rw [akin.scenario, akin.clock]
    split
    · exact decided
    · cases q <;> exact ⟨akin, rfl⟩

theorem submitStep (akin : Akin g n k k' t s) (inj : Function.Injective g) (c : Nat) (p : Pass)
    (i : WorkItem) (entered : Bool) :
    Turns g n k k' (Pass.submitStep t c p i entered)
      (Pass.submitStep s c (p.renumber g) (i.renumber g) entered) := by
  obtain ⟨after, turn⟩ := akin.submit inj c i entered
  unfold Pass.submitStep
  generalize t.submit c i entered = r at after turn
  generalize s.submit c (i.renumber g) entered = r' at after turn
  obtain ⟨t₁, turn₁⟩ := r
  obtain ⟨s₁, turn₁'⟩ := r'
  cases turn
  cases turn₁ <;> exact ⟨after, rfl⟩

theorem passStep (akin : Akin g n k k' t s) (inj : Function.Injective g) (c : Nat)
    (stage : Pass.Stage)
    (numbered : (Pass.step t c stage).1.reads ≠ t.reads → g (t.reads + 1) = t.reads + 1 + n) :
    Turns g n k k' (Pass.step t c stage) (Pass.step s c (stage.renumber g)) := by
  cases stage with
  | opening => exact akin.openStep numbered
  | visiting p => exact akin.visitStep p
  | checking q p check => exact akin.checkStep c q p check
  | held q p check => exact ⟨akin, rfl⟩
  | answering q p check => exact akin.answerStep q p check
  | submitting p i entered => exact akin.submitStep inj c p i entered

theorem stepPass (akin : Akin g n k k' t s) (inj : Function.Injective g) (c : Nat)
    (stage : Pass.Stage) {within : Pass.Stage → Call} {ended : Machine → Outcome → Machine}
    (hosts : ∀ stage, within (stage.renumber g) = (within stage).renumber g)
    (last : ∀ {t s : Machine} (o : Outcome), Akin g n k k' t s →
      Akin g n k k' (ended t o) (ended s o))
    (still : ∀ t o, (ended t o).reads = t.reads)
    (numbered : (t.stepPass c stage within ended).reads ≠ t.reads →
      g (t.reads + 1) = t.reads + 1 + n) :
    Akin g n k k' (t.stepPass c stage within ended)
      (s.stepPass c (stage.renumber g) within ended) := by
  rw [reads_stepPass still] at numbered
  obtain ⟨after, turn⟩ := akin.passStep inj c stage numbered
  unfold Machine.stepPass
  generalize Pass.step t c stage = r at after turn
  generalize Pass.step s c (stage.renumber g) = r' at after turn
  obtain ⟨t₁, turn₁⟩ := r
  obtain ⟨s₁, turn₁'⟩ := r'
  cases turn
  cases turn₁ with
  | goOn next =>
    dsimp only [Pass.Turn.renumber]
    rw [hosts]
    exact after.setCall c (within next)
  | wait next =>
    dsimp only [Pass.Turn.renumber]
    rw [hosts]
    exact (after.setCall c (within next)).wait
  | ended o => exact last o after

theorem stepSubmitter (akin : Akin g n k k' t s) (inj : Function.Injective g) (c : Nat)
    (items : List WorkItem) (entered : Bool) :
    Akin g n k k' (t.stepSubmitter c items entered)
      (s.stepSubmitter c (items.map (·.renumber g)) entered) := by
  cases items with
  | nil => exact (akin.setCall c .returned).wait
  | cons i rest =>
    obtain ⟨after, turn⟩ := akin.submit inj c i entered
    simp only [Machine.stepSubmitter, List.map_cons]
    generalize t.submit c i entered = r at after turn
    generalize s.submit c (i.renumber g) entered = r' at after turn
    obtain ⟨t₁, turn₁⟩ := r
    obtain ⟨s₁, turn₁'⟩ := r'
    cases turn
    cases turn₁ with
    | goOn => exact after.setCall c (.submitting (i :: rest) true)
    | wait => exact (after.setCall c (.submitting (i :: rest) true)).wait
    | accepted =>
      exact (after.setCall c (.submitting rest false)).log (.answered (.submit i.job true))
    | refused =>
      exact (after.setCall c (.submitting rest false)).log (.answered (.submit i.job false))

theorem stepLoop (akin : Akin g n k k' t s) (c tick : Nat) :
    Akin g n k k' (t.stepLoop c tick) (s.stepLoop c tick) := by
  unfold Machine.stepLoop
  by_cases signalled : t.shutdown = true
  · rw [if_pos signalled, if_pos (akin.shutdown.trans signalled), akin.lifecycle]
    exact ((akin.withLifecycle t.lifecycle.markLoopExited).cancel (.caller c)).answer c .run
  · have signalled' : ¬ s.shutdown = true := by rwa [akin.shutdown]
    rw [if_neg signalled, if_neg signalled', akin.nanos, akin.period]
    split
    · exact ((akin.cancel (.caller c)).log .ticked).setCall c
        (.ticking (nextTick tick t.nanos t.interval.nanos) .opening)
    · exact akin.sleep (.caller c) (ceilMillis tick)

theorem signalShutdown (akin : Akin g n k k' t s) :
    Akin g n k k' t.signalShutdown s.signalShutdown := by
  have loops : s.loops = t.loops := akin.callers fun x => by cases x <;> rfl
  unfold Machine.signalShutdown
  by_cases signalled : t.shutdown = true
  · rwa [if_pos signalled, if_pos (akin.shutdown.trans signalled)]
  · have signalled' : ¬ s.shutdown = true := by rwa [akin.shutdown]
    rw [if_neg signalled, if_neg signalled', loops]
    exact (akin.silent ({ · with shutdown := true }) ({ · with shutdown := true })
      (fun _ _ => rfl) rfl rfl).wake t.loops

theorem beginRelease (akin : Akin g n k k' t s) (c : Nat) (stop : Bool) :
    Akin g n k k' (t.beginRelease c stop) (s.beginRelease c stop) := by
  have releases : s.pool.release = (t.pool.release.1.renumber g, t.pool.release.2) := by
    rw [akin.pool, Pool.release_renumber]
  have handles : s.pool.handles = t.pool.handles := by
    rw [akin.pool]
    rfl
  unfold Machine.beginRelease
  rw [releases, handles]
  exact ((akin.withPool _).setCall c (.joining stop t.pool.handles)).wake _

theorem stepCaller (akin : Akin g n k k' t s) (inj : Function.Injective g) (c : Nat)
    (numbered : (t.stepCaller c).reads ≠ t.reads → g (t.reads + 1) = t.reads + 1 + n) :
    Akin g n k k' (t.stepCaller c) (s.stepCaller c) := by
  have call' := akin.call c
  cases call : t.call c with
  | submitting items entered =>
    rw [call] at call'
    simp only [Machine.stepCaller, call, call', Call.renumber]
    exact akin.stepSubmitter inj c items entered
  | evaluating stage =>
    rw [call] at call'
    simp only [Machine.stepCaller, call, call', Call.renumber] at numbered ⊢
    exact akin.stepPass inj c stage (fun _ => rfl)
      (fun o akin => akin.answer c (.evaluate o)) (fun _ _ => rfl) numbered
  | ticking next stage =>
    rw [call] at call'
    simp only [Machine.stepCaller, call, call', Call.renumber] at numbered ⊢
    exact akin.stepPass inj c stage (fun _ => rfl)
      (fun o akin => akin.setCall c (.selecting next)) (fun _ _ => rfl) numbered
  | entering =>
    rw [call] at call'
    simp only [Machine.stepCaller, call, call', Call.renumber, akin.lifecycle]
    cases t.lifecycle.markRunning? with
    | none => exact akin.answer c .run
    | some l =>
      dsimp only
      rw [akin.nanos, akin.period]
      exact (akin.withLifecycle l).setCall c (.selecting (t.nanos + t.interval.nanos))
  | selecting tick =>
    rw [call] at call'
    simp only [Machine.stepCaller, call, call', Call.renumber]
    exact akin.stepLoop c tick
  | stopping =>
    rw [call] at call'
    simp only [Machine.stepCaller, call, call', Call.renumber, akin.lifecycle]
    cases t.lifecycle.requestStop? with
    | none => exact akin.answer c (.stop false)
    | some l => exact ((akin.withLifecycle l).setCall c .polling).signalShutdown
  | polling =>
    rw [call] at call'
    simp only [Machine.stepCaller, call, call', Call.renumber, akin.lifecycle, akin.now,
      akin.drainPoll]
    split
    · exact akin.beginRelease c true
    · exact akin.setCall c (.sleeping (t.now + t.drainPoll.millis))
  | sleeping wakeAt =>
    rw [call] at call'
    simp only [Machine.stepCaller, call, call', Call.renumber, akin.now]
    split
    · exact (akin.cancel (.caller c)).setCall c .polling
    · exact akin.sleep (.caller c) wakeAt
  | releasing =>
    rw [call] at call'
    simp only [Machine.stepCaller, call, call', Call.renumber]
    exact akin.beginRelease c false
  | joining stop handles =>
    rw [call] at call'
    cases handles with
    | nil =>
      simp only [Machine.stepCaller, call, call', Call.renumber, akin.lifecycle]
      split
      · exact (akin.withLifecycle t.lifecycle.markStopped).answer c (.stop true)
      · exact akin.answer c .release
    | cons w ws =>
      simp only [Machine.stepCaller, call, call', Call.renumber, akin.pool,
        Pool.exited_renumber]
      split
      · exact akin.setCall c (.joining stop ws)
      · exact akin.wait
  | returned =>
    rw [call] at call'
    simp only [Machine.stepCaller, call, call', Call.renumber]
    exact akin.wait

theorem step (akin : Akin g n k k' t s) (inj : Function.Injective g)
    (numbered : t.step.reads ≠ t.reads → g (t.reads + 1) = t.reads + 1 + n) :
    Akin g n k k' t.step s.step := by
  unfold Machine.step at numbered ⊢
  rw [akin.ready]
  cases head : t.ready.head? with
  | none => exact akin
  | some a =>
    cases a with
    | worker w => exact akin.stepWorker w
    | evaluation w => exact akin.stepEvaluation w
    | caller c =>
      rw [head] at numbered
      exact akin.stepCaller inj c numbered

theorem prefer (akin : Akin g n k k' t s) (a : Agent) :
    Akin g n k k' (t.prefer a) (s.prefer a) :=
  akin.silent (·.prefer a) (·.prefer a) (fun _ _ => rfl) rfl rfl

theorem elapse (akin : Akin g n k k' t s) (later : Nat) :
    Akin g n k k' (t.elapse later) (s.elapse later) :=
  akin.silent (·.elapse later) (·.elapse later) (fun _ _ => rfl) rfl rfl

theorem begin (akin : Akin g n k k' t s) {x : Call} (same : x.renumber g = x) :
    Akin g n k k' (t.begin x) (s.begin x) :=
  akin.silent (·.begin x) (·.begin x)
    (fun _ _ => by simp only [Machine.begin, Machine.wake, retold, List.map_append, List.map_cons,
      List.map_nil, same, List.length_map]) rfl rfl

theorem freeEvaluation (akin : Akin g n k k' t s) (w : Nat) :
    Akin g n k k' (t.freeEvaluation w) (s.freeEvaluation w) := by
  unfold Machine.freeEvaluation
  rw [akin.pool, Pool.worker_renumber]
  cases t.pool.worker w with
  | evaluating i => exact (akin.setProgress w i .freed).wake [.evaluation w]
  | _ => exact akin

theorem unhold (akin : Akin g n k k' t s) (job : String) :
    Akin g n k k' (t.unhold job) (s.unhold job) := by
  have line : s.evaluationLine.find? (·.1 = job) = t.evaluationLine.find? (·.1 = job) := by
    rw [akin.state]
    rfl
  unfold Machine.unhold
  rw [line]
  cases t.evaluationLine.find? (·.1 = job) with
  | none => exact akin.direct (.permit job)
  | some entry =>
    have shorter := akin.silent
      (fun m => { m with evaluationLine := m.evaluationLine.erase (entry.1, entry.2) })
      (fun m => { m with evaluationLine := m.evaluationLine.erase (entry.1, entry.2) })
      (fun _ _ => rfl) rfl rfl
    exact shorter.freeEvaluation entry.2

theorem freeCall_renumber (g : Nat → Nat) (x : Call) :
    freeCall (x.renumber g) = (freeCall x).renumber g := by
  cases x with
  | evaluating stage | ticking _ stage => cases stage <;> rfl
  | _ => rfl

theorem unholdAnswer (akin : Akin g n k k' t s) (q : Question) :
    Akin g n k k' (t.unholdAnswer q) (s.unholdAnswer q) := by
  have line : s.questionLine.find? (·.1 = q) = t.questionLine.find? (·.1 = q) := by
    rw [akin.state]
    rfl
  unfold Machine.unholdAnswer
  rw [line]
  cases t.questionLine.find? (·.1 = q) with
  | none => exact akin.direct (.permitAnswer q)
  | some entry =>
    have shorter := akin.silent
      (fun x => { x with questionLine := x.questionLine.erase (entry.1, entry.2) })
      (fun x => { x with questionLine := x.questionLine.erase (entry.1, entry.2) })
      (fun _ _ => rfl) rfl rfl
    dsimp only
    rw [akin.call, freeCall_renumber]
    exact (shorter.setCall entry.2 (freeCall (t.call entry.2))).wake [.caller entry.2]

theorem apply (akin : Akin g n k k' t s) {x : Command} (other : ∀ items, x ≠ .submit items)
    (instant : x.isInstant = true) : Akin g n k k' (t.apply x) (s.apply x) := by
  cases x with
  | submit items => exact absurd rfl (other items)
  | advance => cases instant
  | evaluate | run | stop | release => exact akin.begin rfl
  | unhold job => exact akin.unhold job
  | unholdAnswer q => exact akin.unholdAnswer q
  | shutdown => exact akin.signalShutdown
  | write w =>
    exact (akin.silent (fun m => { m with store := m.store.write w })
      (fun m => { m with store := m.store.write w }) (fun _ _ => rfl) rfl rfl).time w.key 0
  | storeFails on =>
    exact akin.silent ({ · with storeFails := on }) ({ · with storeFails := on })
      (fun _ _ => rfl) rfl rfl
  | change x => exact akin.direct (.change x)

end Akin

end Machine

end Autoscaling
