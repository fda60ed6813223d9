import Autoscaling.Proofs.Machine.Course

namespace Autoscaling

def Agent.evaluation? : Agent → Option Nat
  | .evaluation w => some w
  | _ => none

def Calm (agents : List Agent) : Prop := ∀ b ∈ agents, b.evaluation? = none

theorem calm_nil : Calm [] := fun _ mem => nomatch mem

theorem Calm.append {l l' : List Agent} (h : Calm l) (h' : Calm l') : Calm (l ++ l') :=
  fun b mem => (List.mem_append.1 mem).elim (h b) (h' b)

theorem calm_singleton {a : Agent} (h : a.evaluation? = none) : Calm [a] := fun b mem => by
  rwa [List.mem_singleton.1 mem]

namespace Pool

variable {p p' : Pool} {w c : Nat} {i : WorkItem} {a : Agent} {woken : List Agent}
  {events : List Event}

theorem Move.evaluates (h : Move now shutdown p a woken events p') (other : a ≠ .evaluation w)
    (runs : (p.worker w).isEvaluating = true) : p'.worker w = p.worker w := by
  rcases h.worker_cases w with same | ⟨_, none⟩ | ⟨rfl, _⟩ | ⟨gone, _⟩
  · exact same
  · cases eq : p.worker w with
    | evaluating i x => exact absurd eq (none i x)
    | _ =>
      rw [eq] at runs
      cases runs
  · exact absurd rfl other
  · rw [gone] at runs
    cases runs

theorem Move.started_nil (h : Move now shutdown p a woken events p')
    (other : a.evaluation? = none) : marked .started events = [] := by
  cases h with
  | progress | finish | panic => cases other
  | _ => rfl

theorem calm_firstIdle (p : Pool) : Calm p.firstIdle := fun b mem => by
  obtain ⟨w, _, rfl⟩ := List.mem_map.1 mem
  rfl

theorem calm_ite {shut : Prop} [Decidable shut] {l : List Agent} (h : Calm l) :
    Calm (if shut then l else []) := by
  split
  · exact h
  · exact calm_nil

theorem calm_freeSlot (p : Pool) : Calm p.freeSlot.2 := by
  rcases freeSlot_cases p with ⟨_, _, _, _, _, _, free⟩ | ⟨_, free⟩ <;> rw [free]
  · exact calm_singleton rfl
  · exact calm_nil

theorem calm_leave (p : Pool) (s : Submission) : Calm (p.leave s).2 := calm_ite (calm_firstIdle _)

theorem calm_receive (p : Pool) (w now deadline : Nat) : Calm (p.receive w now deadline).2.1 := by
  unfold receive
  cases p.reception w now deadline with
  | item | leaves => exact calm_ite (calm_firstIdle _)
  | nothing => exact calm_nil

theorem calm_proceed (p : Pool) (s : Submission) : Calm (p.proceed s).2.1 := by
  unfold proceed
  split
  · split
    · exact calm_leave p s
    · exact calm_nil
  · split
    · exact (calm_freeSlot p).append (calm_leave _ s)
    · exact calm_nil
  · exact calm_firstIdle p
  · rcases spawnIfNeeded_cases p with ⟨eq, _⟩ | ⟨eq, _⟩ <;> rw [eq]
    · exact calm_leave p s
    · exact (calm_singleton rfl).append (calm_leave _ s)

theorem calm_submit (p : Pool) (c : Nat) (i : WorkItem) (entered : Bool) :
    Calm (p.submit c i entered).2.1 := by
  unfold submit
  split
  · split
    · exact calm_proceed p _
    · exact calm_nil
  · exact calm_nil

theorem calm_release (p : Pool) : Calm p.release.2 := by
  unfold release
  dsimp only
  split
  · exact calm_nil
  · refine Calm.append (fun b mem => ?_) (calm_ite (calm_firstIdle _))
    obtain ⟨s, _, rfl⟩ := List.mem_map.1 mem
    rfl

end Pool

namespace Machine

variable {s s' : Machine} {a : Agent} {c w : Nat} {l : List Agent}

def lineup (s : Machine) : List Nat := s.ready.filterMap Agent.evaluation?

theorem mem_lineup : w ∈ s.lineup ↔ .evaluation w ∈ s.ready := by
  refine List.mem_filterMap.trans ⟨fun ⟨b, mem, eq⟩ => ?_, fun mem => ⟨_, mem, rfl⟩⟩
  cases b <;> cases eq
  exact mem

def spawned (s : Machine) : List WorkItem :=
  s.lineup.filterMap fun w => (s.pool.worker w).item? .handed

def handedOver (s : Machine) : List WorkItem := marked .started s.history ++ s.spawned

theorem evaluations_erase (other : a.evaluation? = none) (l : List Agent) :
    (l.erase a).filterMap Agent.evaluation? = l.filterMap Agent.evaluation? := by
  induction l with
  | nil => rfl
  | cons b l ih =>
    by_cases same : b = a
    · rw [same, List.erase_cons_head, List.filterMap_cons_none other]
    · rw [List.erase_cons_tail (by simpa using same), List.filterMap_cons, List.filterMap_cons, ih]

theorem evaluations_first {w : Nat} (l : List Agent)
    (first : (l.filterMap Agent.evaluation?).head? = some w) :
    w :: (l.erase (.evaluation w)).filterMap Agent.evaluation? =
      l.filterMap Agent.evaluation? := by
  induction l with
  | nil => cases first
  | cons b l ih =>
    cases eq : b.evaluation? with
    | none =>
      have other : b ≠ .evaluation w := by
        rintro rfl
        cases eq
      rw [List.filterMap_cons_none eq] at first ⊢
      rw [List.erase_cons_tail (by simpa using other), List.filterMap_cons_none eq]
      exact ih first
    | some v =>
      rw [List.filterMap_cons_some eq] at first ⊢
      cases first
      have own : b = .evaluation w := by
        cases b <;> cases eq
        rfl
      rw [own, List.erase_cons_head]

theorem lineup_wake (calm : Calm l) : (s.wake l).lineup = s.lineup := by
  simp only [lineup, wake]
  generalize s.ready = r
  induction l generalizing r with
  | nil => rfl
  | cons b l ih =>
    rw [List.foldl_cons, ih fun d mem => calm d (List.mem_cons_of_mem _ mem)]
    split
    · rfl
    · rw [List.filterMap_append, List.filterMap_cons_none (calm b (List.mem_cons_self ..)),
        List.filterMap_nil, List.append_nil]

theorem lineup_wake_evaluation (new : w ∉ s.lineup) :
    (s.wake [.evaluation w]).lineup = s.lineup ++ [w] := by
  have other : .evaluation w ∉ s.ready := fun mem => new (mem_lineup.2 mem)
  simp only [lineup, wake, List.foldl_cons, List.foldl_nil, if_neg other, List.filterMap_append]
  rfl

theorem lineup_wait (head : s.ready.head? = some a) :
    s.lineup = a.evaluation?.toList ++ s.wait.lineup := by
  obtain ⟨l, ready⟩ := List.head?_eq_some_iff.1 head
  simp only [lineup, wait, ready, List.tail_cons, List.filterMap_cons]
  cases a.evaluation? <;> rfl

theorem calm_callers (s : Machine) (isAsked : Call → Bool) : Calm (s.callers isAsked) :=
  fun b mem => by
    obtain ⟨c, _, rfl⟩ := List.mem_map.1 mem
    rfl

structure Skirts (s s' : Machine) : Prop where
  lineup : s'.lineup = s.lineup
  timers : ∀ t w, (t, .evaluation w) ∈ s'.timers → (t, .evaluation w) ∈ s.timers

namespace Skirts

theorem of_eq (ready : s'.ready = s.ready) (timers : s'.timers = s.timers) : Skirts s s' :=
  ⟨by rw [Machine.lineup, ready, Machine.lineup], fun t w mem => timers ▸ mem⟩

theorem refl (s : Machine) : Skirts s s := of_eq rfl rfl

theorem trans {s'' : Machine} (h : Skirts s s') (h' : Skirts s' s'') : Skirts s s'' :=
  ⟨h'.lineup.trans h.lineup, fun t w mem => h.timers t w (h'.timers t w mem)⟩

theorem pool (h : Skirts s s') (p : Pool) : Skirts s { s' with pool := p } :=
  ⟨h.lineup, h.timers⟩

theorem lifecycle (h : Skirts s s') (l : Lifecycle) : Skirts s { s' with lifecycle := l } :=
  ⟨h.lineup, h.timers⟩

theorem log (h : Skirts s s') (e : Event) : Skirts s (s'.log e) := ⟨h.lineup, h.timers⟩

theorem setCall (h : Skirts s s') (c : Nat) (x : Call) : Skirts s (s'.setCall c x) :=
  ⟨h.lineup, h.timers⟩

theorem wake (h : Skirts s s') (calm : Calm l) : Skirts s (s'.wake l) :=
  ⟨(lineup_wake calm).trans h.lineup, h.timers⟩

theorem wait (h : Skirts s s') (head : s'.ready.head? = some a) (other : a.evaluation? = none) :
    Skirts s s'.wait := by
  have waited := lineup_wait head
  rw [other, Option.toList_none, List.nil_append] at waited
  exact ⟨waited.symm.trans h.lineup, h.timers⟩

theorem cancel (h : Skirts s s') (a : Agent) : Skirts s (s'.cancel a) :=
  ⟨h.lineup, fun t w mem => h.timers t w (List.mem_filter.1 mem).1⟩

theorem sleep (h : Skirts s s') (head : s'.ready.head? = some a) (other : a.evaluation? = none)
    (t : Nat) : Skirts s (s'.sleep a t) := by
  refine ⟨(h.wait head other).lineup, fun u w mem => h.timers u w ?_⟩
  simp only [Machine.sleep] at mem
  split at mem
  · exact mem
  · refine (List.mem_append.1 mem).resolve_right fun new => ?_
    cases List.mem_singleton.1 new
    cases other

theorem answer (h : Skirts s s') (head : s'.ready.head? = some (.caller c)) (x : Answer) :
    Skirts s (s'.answer c x) :=
  ((h.setCall c .returned).log (.answered x)).wait head rfl

theorem signalShutdown (h : Skirts s s') : Skirts s s'.signalShutdown := by
  unfold Machine.signalShutdown
  split
  · exact h
  · have signalled : Skirts s { s' with shutdown := true } := ⟨h.lineup, h.timers⟩
    exact signalled.wake (calm_callers s' _)

end Skirts

theorem skirts_submit (s : Machine) (c : Nat) (i : WorkItem) (entered : Bool) :
    Skirts s (s.submit c i entered).1 := by
  have calm := s.pool.calm_submit c i entered
  unfold submit
  generalize s.pool.submit c i entered = r at calm
  obtain ⟨pool, woken, turn⟩ := r
  have woke := ((Skirts.refl s).pool pool).wake calm
  cases turn with
  | goOn | wait => exact woke
  | accepted | refused => exact woke.log _

theorem skirts_passStep (s : Machine) (c : Nat) (stage : Pass.Stage) :
    Skirts s (Pass.step s c stage).1 := by
  cases stage with
  | opening =>
    simp only [Pass.step, Pass.openStep]
    split
    · exact .refl s
    · split
      · exact .of_eq rfl rfl
      · split <;> exact .of_eq rfl rfl
  | visiting p =>
    have completes : Skirts s (p.complete s).1 := by
      unfold Pass.complete
      dsimp only
      split <;> exact .of_eq rfl rfl
    simp only [Pass.step, Pass.visitStep]
    split
    · exact completes
    · split
      · exact completes
      · exact .refl s
  | checking q p check =>
    simp only [Pass.step, Pass.checkStep]
    split
    · exact .refl s
    · split
      · exact .of_eq rfl rfl
      · split <;> exact .of_eq rfl rfl
  | held q p check => exact .refl s
  | answering q p check =>
    simp only [Pass.step, Pass.answerStep]
    split
    · exact .refl s
    · split
      · exact .refl s
      · split <;> exact .of_eq rfl rfl
  | submitting p i entered =>
    have submits := skirts_submit s c i entered
    simp only [Pass.step, Pass.submitStep]
    generalize s.submit c i entered = r at submits
    obtain ⟨s₁, turn⟩ := r
    cases turn <;> exact submits

theorem skirts_stepPass {stage : Pass.Stage} {within : Pass.Stage → Call}
    {ended : Machine → Outcome → Machine} (head : s.ready.head? = some (.caller c))
    (ends : ∀ s' o, s'.ready.head? = some (.caller c) → Skirts s' (ended s' o)) :
    Skirts s (s.stepPass c stage within ended) := by
  have steps := skirts_passStep s c stage
  have kept := (Pass.treads_step s c stage).head _ head
  unfold stepPass
  generalize Pass.step s c stage = r at steps kept
  obtain ⟨s₁, turn⟩ := r
  cases turn with
  | goOn stage' => exact steps.setCall c _
  | wait stage' => exact (steps.setCall c _).wait kept rfl
  | ended o => exact steps.trans (ends s₁ o kept)

theorem skirts_stepSubmitter {items : List WorkItem} {entered : Bool}
    (head : s.ready.head? = some (.caller c)) : Skirts s (s.stepSubmitter c items entered) := by
  unfold stepSubmitter
  split
  · exact ((Skirts.refl s).setCall c _).wait head rfl
  · next i rest =>
    have submits := skirts_submit s c i entered
    have kept : (s.submit c i entered).1.ready.head? = some (.caller c) := by
      unfold submit
      generalize s.pool.submit c i entered = r
      obtain ⟨pool, woken, turn⟩ := r
      cases turn <;> exact head_ready_wake (s := { s with pool := pool }) woken head
    generalize s.submit c i entered = r at submits kept
    obtain ⟨s₁, turn⟩ := r
    cases turn with
    | goOn => exact submits.setCall c _
    | accepted | refused => exact (submits.setCall c _).log _
    | wait => exact (submits.setCall c _).wait kept rfl

theorem skirts_beginRelease (s : Machine) (c : Nat) (stop : Bool) :
    Skirts s (s.beginRelease c stop) :=
  (((Skirts.refl s).pool _).setCall c _).wake s.pool.calm_release

theorem skirts_stepCaller (head : s.ready.head? = some (.caller c)) :
    Skirts s (s.stepCaller c) := by
  have same := Skirts.refl s
  unfold stepCaller
  split
  · exact skirts_stepSubmitter head
  · exact skirts_stepPass head fun s' o kept => (Skirts.refl s').answer kept _
  · split
    · exact same.answer head _
    · exact (same.lifecycle _).setCall c _
  · unfold stepLoop
    split
    · exact ((same.lifecycle s.lifecycle.markLoopExited).cancel (.caller c)).answer head .run
    · split
      · exact ((same.cancel _).log _).setCall c _
      · exact same.sleep head rfl _
  · exact skirts_stepPass head fun s' o _ => (Skirts.refl s').setCall c _
  · split
    · exact same.answer head _
    · next lifecycle _ => exact ((same.lifecycle lifecycle).setCall c .polling).signalShutdown
  · split
    · exact skirts_beginRelease s c true
    · exact same.setCall c _
  · split
    · exact (same.cancel _).setCall c _
    · exact same.sleep head rfl _
  · exact skirts_beginRelease s c false
  · split
    · exact (same.lifecycle s.lifecycle.markStopped).answer head (.stop true)
    · exact same.answer head _
  · split
    · exact same.setCall c _
    · exact same.wait head rfl
  · exact same.wait head rfl

theorem stepWorker_cases (head : s.ready.head? = some (.worker w)) :
    (Skirts s (s.stepWorker w) ∧
        ∀ i, s.pool.worker w = .holding i → Pool.reason? i s.shutdown ≠ none) ∨
      ∃ i, s.pool.worker w = .holding i ∧ Pool.reason? i s.shutdown = none ∧
      (s.stepWorker w).pool = s.pool.setWorker w (.evaluating i .spawned) ∧
      (s.stepWorker w).lineup = (s.wake [.evaluation w]).lineup ∧
      (s.stepWorker w).timers = s.timers := by
  have same := Skirts.refl s
  unfold stepWorker
  cases at_ : s.pool.worker w with
  | resting => exact .inl ⟨same.pool _, nofun⟩
  | idle deadline =>
    have calm := s.pool.calm_receive w s.now deadline
    refine .inl ⟨?_, nofun⟩
    dsimp only
    generalize s.pool.receive w s.now deadline = r at calm
    obtain ⟨p, woken, reception⟩ := r
    have leaves := (same.pool p).cancel (.worker w)
    cases reception with
    | nothing => exact same.sleep head rfl deadline
    | item i => exact (leaves.wake calm).log _
    | leaves =>
      exact (leaves.wake (calm.append (calm_callers s _))).wait (head_ready_wake _ head) rfl
  | holding i =>
    dsimp only
    unfold Pool.dispatch
    cases reason : Pool.reason? i s.shutdown with
    | some r =>
      refine .inl ⟨?_, fun j eq => ?_⟩
      · exact ((same.pool (s.pool.complete w).1).wake (Pool.calm_freeSlot _)).log _
      · cases eq
        simp [reason]
    | none =>
      have lineup := lineup_wait (head_ready_wake (s := s) [.evaluation w] head)
      exact .inr ⟨i, rfl, reason, rfl, lineup.symm, rfl⟩
  | finished i =>
    exact .inl ⟨(same.pool (s.pool.complete w).1).wake (Pool.calm_freeSlot _), nofun⟩
  | evaluating | exited => exact .inl ⟨same.wait head rfl, nofun⟩

structure Evaluates (s : Machine) (w : Nat) (s' : Machine) : Prop where
  started : marked .started s'.history =
    marked .started s.history ++ ((s.pool.worker w).item? .handed).toList
  begun : (s'.pool.worker w).item? .handed = none
  lineup : s'.lineup = s.lineup ∧ (s'.pool.worker w).isEvaluating = true ∨
    s'.lineup = s.lineup.tail
  timers : ∀ t v, (t, .evaluation v) ∈ s'.timers →
    (t, .evaluation v) ∈ s.timers ∧ v ≠ w ∨ (s'.pool.worker v).isEvaluating = true

section
variable {i : WorkItem} {x : Pool.Progress}

theorem lineup_tail (head : s.ready.head? = some (.evaluation w)) : s.wait.lineup = s.lineup.tail := by
  rw [lineup_wait head]
  rfl

theorem evaluates_end (head : s.ready.head? = some (.evaluation w))
    (runs : s.pool.worker w = .evaluating i x) (ready : s'.ready = s.ready)
    (timers : s'.timers = s.timers) (pool : s'.pool = s.pool)
    (started : marked .started s'.history =
      marked .started s.history ++ ((s.pool.worker w).item? .handed).toList) :
    Evaluates s w (s'.endEvaluation w i) := by
  have ended : (s'.endEvaluation w i).pool.worker w = .finished i := by
    change (s'.pool.setWorker w _).worker w = _
    rw [pool, Pool.worker_setWorker runs (by simp), if_pos rfl]
  constructor
  case started => exact started
  case begun =>
    rw [ended]
    rfl
  case lineup =>
    right
    have waited := lineup_tail (s := (s'.wake [.worker w]))
      (head_ready_wake _ (ready ▸ head))
    refine waited.trans ?_
    rw [lineup_wake (calm_singleton rfl), Machine.lineup, ready, Machine.lineup]
  case timers =>
    intro t v mem
    obtain ⟨mem, other⟩ := List.mem_filter.1 mem
    refine .inl ⟨timers ▸ mem, ?_⟩
    rintro rfl
    simp at other

theorem evaluates_finish (head : s.ready.head? = some (.evaluation w))
    (runs : s.pool.worker w = .evaluating i x) (ready : s'.ready = s.ready)
    (timers : s'.timers = s.timers) (pool : s'.pool = s.pool)
    (started : marked .started s'.history =
      marked .started s.history ++ ((s.pool.worker w).item? .handed).toList) :
    Evaluates s w (s'.finishEvaluation w i) := by
  have logged : marked .started (s'.log (.finished i)).history =
      marked .started s.history ++ ((s.pool.worker w).item? .handed).toList := by
    rw [history_log, marked_append, started]
    exact List.append_nil _
  unfold finishEvaluation
  dsimp only
  split <;> exact evaluates_end head runs ready timers pool logged

theorem evaluates_progress {y : Pool.Progress} (stands : s'.pool.worker w = .evaluating i y)
    (later : y ≠ .spawned)
    (lineup : s'.lineup = s.lineup ∨ s'.lineup = s.lineup.tail)
    (timers : ∀ t v, (t, .evaluation v) ∈ s'.timers → (t, .evaluation v) ∈ s.timers ∨ v = w)
    (started : marked .started s'.history =
      marked .started s.history ++ ((s.pool.worker w).item? .handed).toList) :
    Evaluates s w s' := by
  constructor
  case started => exact started
  case begun =>
    rw [stands]
    cases y <;> first | rfl | exact absurd rfl later
  case lineup =>
    rw [stands]
    exact lineup.imp_left fun same => ⟨same, rfl⟩
  case timers =>
    intro t v mem
    by_cases eq : v = w
    · subst eq
      rw [stands]
      exact .inr rfl
    · exact .inl ⟨(timers t v mem).resolve_right eq, eq⟩

theorem evaluates_stepEvaluation (head : s.ready.head? = some (.evaluation w))
    (runs : s.pool.worker w = .evaluating i x) : Evaluates s w (s.stepEvaluation w) := by
  have still (later : x ≠ .spawned) : marked .started s.history =
      marked .started s.history ++ ((s.pool.worker w).item? .handed).toList := by
    rw [runs]
    cases x <;> first | exact (List.append_nil _).symm | exact absurd rfl later
  have progress (y : Pool.Progress) :
      (s.pool.setWorker w (.evaluating i y)).worker w = .evaluating i y := by
    rw [Pool.worker_setWorker runs (by simp), if_pos rfl]
  unfold stepEvaluation
  rw [runs]
  cases x with
  | spawned =>
    have begun : marked .started (s.log (.started i)).history =
        marked .started s.history ++ ((s.pool.worker w).item? .handed).toList := by
      rw [history_log, marked_append, runs]
      rfl
    dsimp only
    split
    · exact evaluates_finish head runs rfl rfl rfl begun
    · exact evaluates_progress (progress _) (by simp) (.inl rfl) (fun _ _ => .inl) begun
    · refine evaluates_end head runs rfl rfl rfl ?_
      rw [history_log, marked_append, begun]
      exact List.append_nil _
    · split
      · exact evaluates_finish head runs rfl rfl rfl begun
      · exact evaluates_progress (progress .held) (by simp) (.inr (lineup_tail head))
          (fun _ _ => .inl) begun
  | sleeping wakeAt =>
    dsimp only
    split
    · exact evaluates_finish head runs rfl rfl rfl (still (by simp))
    · refine evaluates_progress runs (by simp) (.inr (lineup_tail head)) ?_ (still (by simp))
      intro t v mem
      simp only [sleep] at mem
      split at mem
      · exact .inl mem
      · rcases List.mem_append.1 mem with mem | new
        · exact .inl mem
        · cases List.mem_singleton.1 new
          exact .inr rfl
  | freed => exact evaluates_finish head runs rfl rfl rfl (still (by simp))
  | held =>
    exact evaluates_progress runs (by simp) (.inr (lineup_tail head)) (fun _ _ => .inl)
      (still (by simp))

end

structure LinedUp (s : Machine) : Prop where
  nodup : s.lineup.Nodup
  evaluates : ∀ w ∈ s.lineup, (s.pool.worker w).isEvaluating = true
  timed : ∀ t w, (t, .evaluation w) ∈ s.timers → (s.pool.worker w).isEvaluating = true

variable {woken : List Agent} {events : List Event} {turn : Option Agent}

theorem spawned_congr (lineup : s'.lineup = s.lineup)
    (workers : ∀ w ∈ s.lineup, s'.pool.worker w = s.pool.worker w) : s'.spawned = s.spawned := by
  unfold spawned
  rw [lineup]
  exact List.filterMap_congr fun w mem => by rw [workers w mem]

namespace LinedUp

theorem skirts (lined : s.LinedUp) (act : Act s a woken events s')
    (other : a.evaluation? = none) (skirts : Skirts s s') :
    s'.LinedUp ∧ s'.handedOver = s.handedOver := by
  have stays {w : Nat} (runs : (s.pool.worker w).isEvaluating = true) :
      s'.pool.worker w = s.pool.worker w :=
    act.pool.evaluates (fun eq => by rw [eq] at other; cases other) runs
  refine ⟨⟨?_, ?_, ?_⟩, ?_⟩
  · rw [skirts.lineup]
    exact lined.nodup
  · intro w mem
    rw [skirts.lineup] at mem
    rw [stays (lined.evaluates w mem)]
    exact lined.evaluates w mem
  · intro t w mem
    have runs := lined.timed t w (skirts.timers t w mem)
    rwa [stays runs]
  · unfold handedOver
    rw [act.marked_history, act.pool.started_nil other, List.append_nil,
      spawned_congr skirts.lineup fun w mem => stays (lined.evaluates w mem)]

theorem begin {w : Nat} {i : WorkItem} (lined : s.LinedUp)
    (act : Act s (.worker w) woken events s') (holds : s.pool.worker w = .holding i)
    (pool : s'.pool = s.pool.setWorker w (.evaluating i .spawned))
    (lineup : s'.lineup = (s.wake [.evaluation w]).lineup) (timers : s'.timers = s.timers) :
    s'.LinedUp ∧ s'.handedOver = s.handedOver ++ [i] := by
  have new : w ∉ s.lineup := fun mem => by
    have runs := lined.evaluates w mem
    rw [holds] at runs
    cases runs
  have workers (v : Nat) : s'.pool.worker v =
      if v = w then .evaluating i .spawned else s.pool.worker v := by
    rw [pool, Pool.worker_setWorker holds (by simp)]
  have stays {v : Nat} (runs : (s.pool.worker v).isEvaluating = true) :
      s'.pool.worker v = s.pool.worker v := act.pool.evaluates (by simp) runs
  rw [lineup_wake_evaluation new] at lineup
  refine ⟨⟨?_, ?_, ?_⟩, ?_⟩
  · rw [lineup]
    refine List.nodup_append.2 ⟨lined.nodup, List.nodup_singleton w, fun v mem u own => ?_⟩
    rw [List.mem_singleton.1 own]
    rintro rfl
    exact new mem
  · intro v mem
    rw [lineup, List.mem_append, List.mem_singleton] at mem
    rcases mem with mem | rfl
    · rw [stays (lined.evaluates v mem)]
      exact lined.evaluates v mem
    · rw [workers, if_pos rfl]
      rfl
  · intro t v mem
    have runs := lined.timed t v (timers ▸ mem)
    rwa [stays runs]
  · have before : s.lineup.filterMap (fun v => (s'.pool.worker v).item? .handed) = s.spawned :=
      List.filterMap_congr fun v mem => by rw [stays (lined.evaluates v mem)]
    unfold handedOver spawned
    rw [act.marked_history, act.pool.started_nil rfl, List.append_nil, lineup,
      List.filterMap_append, before, List.append_assoc, List.filterMap_cons, workers, if_pos rfl]
    rfl

theorem evaluate {w : Nat} (lined : s.LinedUp) (act : Act s (.evaluation w) woken events s')
    (head : s.ready.head? = some (.evaluation w)) (evaluates : Evaluates s w s') :
    s'.LinedUp ∧ s'.handedOver = s.handedOver := by
  have line : s.lineup = w :: s.lineup.tail := by
    rw [← lineup_tail head]
    exact lineup_wait head
  have nodup := lined.nodup
  rw [line, List.nodup_cons] at nodup
  have stays {v : Nat} (ne : v ≠ w) (runs : (s.pool.worker v).isEvaluating = true) :
      s'.pool.worker v = s.pool.worker v :=
    act.pool.evaluates (fun eq => ne (Agent.evaluation.inj eq).symm) runs
  have behind {v : Nat} (mem : v ∈ s.lineup.tail) : s'.pool.worker v = s.pool.worker v :=
    stays (by rintro rfl; exact nodup.1 mem) (lined.evaluates v (List.mem_of_mem_tail mem))
  have later : s.lineup.tail.filterMap (fun v => (s'.pool.worker v).item? .handed) =
      s.lineup.tail.filterMap fun v => (s.pool.worker v).item? .handed :=
    List.filterMap_congr fun v mem => by rw [behind mem]
  refine ⟨⟨?_, ?_, ?_⟩, ?_⟩
  · rcases evaluates.lineup with ⟨same, _⟩ | left
    · rw [same]
      exact lined.nodup
    · rw [left]
      exact nodup.2
  · intro v mem
    rcases evaluates.lineup with ⟨same, runs⟩ | left
    · rw [same, line, List.mem_cons] at mem
      rcases mem with rfl | mem
      · exact runs
      · rw [behind mem]
        exact lined.evaluates v (List.mem_of_mem_tail mem)
    · rw [left] at mem
      rw [behind mem]
      exact lined.evaluates v (List.mem_of_mem_tail mem)
  · intro t v mem
    rcases evaluates.timers t v mem with ⟨mem, ne⟩ | runs
    · have runs := lined.timed t v mem
      rwa [stays ne runs]
    · exact runs
  · have spawned : s'.spawned =
        s.lineup.tail.filterMap fun v => (s.pool.worker v).item? .handed := by
      unfold Machine.spawned
      rcases evaluates.lineup with ⟨same, _⟩ | left
      · rw [same, ← later]
        conv => lhs; rw [line]
        exact List.filterMap_cons_none evaluates.begun
      · rw [left, later]
    unfold handedOver
    rw [evaluates.started, spawned, List.append_assoc]
    congr 1
    unfold Machine.spawned
    conv => rhs; rw [line, List.filterMap_cons]
    cases (s.pool.worker w).item? .handed <;> rfl

theorem step (lined : s.LinedUp) (act : Act s a woken events s.step)
    (head : s.ready.head? = some a) :
    s.step.LinedUp ∧
      ((s.step.handedOver = s.handedOver ∧ ∀ w i, a = .worker w → s.pool.worker w = .holding i →
          Pool.reason? i s.shutdown ≠ none) ∨
        ∃ w i, a = .worker w ∧ s.pool.worker w = .holding i ∧
          Pool.reason? i s.shutdown = none ∧ s.step.pool.worker w = .evaluating i .spawned ∧
          s.step.handedOver = s.handedOver ++ [i]) := by
  cases a with
  | worker w =>
    have step : s.step = s.stepWorker w := by rw [Machine.step, head]
    rcases stepWorker_cases head with ⟨skirts, none⟩ | ⟨i, holds, fit, pool, lineup, timers⟩
    · refine (lined.skirts act rfl (step ▸ skirts)).imp_right fun handed => .inl ⟨handed, ?_⟩
      rintro v i eq holds
      cases eq
      exact none i holds
    · rw [← step] at pool lineup timers
      have stands : s.step.pool.worker w = .evaluating i .spawned := by
        rw [pool, Pool.worker_setWorker holds (by simp), if_pos rfl]
      have begins := lined.begin act holds pool lineup timers
      exact begins.imp_right fun handed => .inr ⟨w, i, rfl, holds, fit, stands, handed⟩
  | evaluation w =>
    have step : s.step = s.stepEvaluation w := by rw [Machine.step, head]
    have runs := lined.evaluates w (mem_lineup.2 (List.mem_of_mem_head? head))
    cases eq : s.pool.worker w with
    | evaluating i x =>
      have evaluates := evaluates_stepEvaluation head eq
      exact (lined.evaluate act head (step ▸ evaluates)).imp_right fun handed => .inl ⟨handed, nofun⟩
    | _ =>
      rw [eq] at runs
      cases runs
  | caller c =>
    have step : s.step = s.stepCaller c := by rw [Machine.step, head]
    have skirts := skirts_stepCaller head
    exact (lined.skirts act rfl (step ▸ skirts)).imp_right fun handed => .inl ⟨handed, nofun⟩

theorem congr (lined : s.LinedUp) (skirts : Skirts s s')
    (runs : ∀ w, (s'.pool.worker w).isEvaluating = (s.pool.worker w).isEvaluating)
    (item : ∀ w, (s'.pool.worker w).item? .handed = (s.pool.worker w).item? .handed)
    (journal : s'.journal = s.journal) : s'.LinedUp ∧ s'.handedOver = s.handedOver := by
  refine ⟨⟨?_, ?_, ?_⟩, ?_⟩
  · rw [skirts.lineup]
    exact lined.nodup
  · intro w mem
    rw [runs]
    exact lined.evaluates w (skirts.lineup ▸ mem)
  · intro t w mem
    rw [runs]
    exact lined.timed t w (skirts.timers t w mem)
  · simp only [handedOver, spawned, history, journal, skirts.lineup, item]

theorem still (lined : s.LinedUp) (skirts : Skirts s s') (pool : s'.pool = s.pool)
    (journal : s'.journal = s.journal) : s'.LinedUp ∧ s'.handedOver = s.handedOver :=
  lined.congr skirts (fun w => by rw [pool]) (fun w => by rw [pool]) journal

theorem nodup_wake (nodup : s.lineup.Nodup) (l : List Agent) : (s.wake l).lineup.Nodup := by
  simp only [lineup, wake] at nodup ⊢
  generalize s.ready = r at nodup
  induction l generalizing r with
  | nil => exact nodup
  | cons b l ih =>
    refine ih _ ?_
    dsimp only
    split
    · exact nodup
    · next new =>
      rw [List.filterMap_append]
      cases b with
      | evaluation w =>
        refine List.nodup_append.2 ⟨nodup, List.nodup_singleton w, fun v mem u own => ?_⟩
        rw [List.mem_singleton.1 own]
        rintro rfl
        exact new (mem_lineup (s := { s with ready := r }).1 mem)
      | _ => exact (List.append_nil _).symm ▸ nodup

theorem wake (lined : s.LinedUp) {w : Nat} (runs : (s.pool.worker w).isEvaluating = true)
    (begun : (s.pool.worker w).item? .handed = none) :
    (s.wake [.evaluation w]).LinedUp ∧ (s.wake [.evaluation w]).handedOver = s.handedOver := by
  have spawned : (s.wake [.evaluation w]).spawned = s.spawned := by
    unfold Machine.spawned
    by_cases mem : w ∈ s.lineup
    · have same : (s.wake [.evaluation w]).lineup = s.lineup := by
        simp only [Machine.lineup, Machine.wake, List.foldl_cons, List.foldl_nil,
          if_pos (mem_lineup.1 mem)]
      rw [same]
      rfl
    · have none : [w].filterMap (fun v => (s.pool.worker v).item? .handed) = [] := by simp [begun]
      rw [lineup_wake_evaluation mem, List.filterMap_append]
      exact (congrArg (_ ++ ·) none).trans (List.append_nil _)
  refine ⟨⟨nodup_wake lined.nodup _, fun v mem => ?_, lined.timed⟩, ?_⟩
  · rcases (mem_ready_wake _).1 (mem_lineup.1 mem) with ready | own
    · exact lined.evaluates v (mem_lineup.2 ready)
    · cases List.mem_singleton.1 own
      exact runs
  · unfold handedOver
    rw [spawned]
    rfl

theorem unhold (lined : s.LinedUp) (steady : Steady turn s) (job : String) :
    (s.unhold job).LinedUp ∧ (s.unhold job).handedOver = s.handedOver := by
  unfold Machine.unhold
  split
  · next j w found =>
    obtain ⟨i, held⟩ := steady.held j w (List.mem_of_find?_eq_some found)
    rw [freeEvaluation_of_held
      (s := { s with evaluationLine := s.evaluationLine.erase (j, w) }) held]
    have workers (v : Nat) := Pool.worker_setWorker held (by simp) (.evaluating i .freed) v
    have freed : (s.pool.setWorker w (.evaluating i .freed)).worker w = .evaluating i .freed := by
      rw [workers, if_pos rfl]
    have runs (v : Nat) : ((s.pool.setWorker w (.evaluating i .freed)).worker v).isEvaluating =
        (s.pool.worker v).isEvaluating := by
      by_cases own : v = w
      · rw [own, freed, held]
        rfl
      · rw [workers, if_neg own]
    have item (v : Nat) : ((s.pool.setWorker w (.evaluating i .freed)).worker v).item? .handed =
        (s.pool.worker v).item? .handed := by
      by_cases own : v = w
      · rw [own, freed, held]
        rfl
      · rw [workers, if_neg own]
    have skirts : Skirts s (setProgress { s with
      evaluationLine := s.evaluationLine.erase (j, w) } w i .freed) := .of_eq rfl rfl
    obtain ⟨lined, handed⟩ := lined.congr skirts runs item rfl
    have woken := lined.wake (w := w) ((runs w).trans (by rw [held]; rfl))
      ((item w).trans (by rw [held]; rfl))
    exact ⟨woken.1, woken.2.trans handed⟩
  · exact lined.still (.of_eq rfl rfl) rfl rfl

theorem apply (lined : s.LinedUp) (steady : Steady turn s) {k : Command}
    (instant : k.isInstant = true) :
    (s.apply k).LinedUp ∧ (s.apply k).handedOver = s.handedOver := by
  have begins (x : Call) : (s.begin x).LinedUp ∧ (s.begin x).handedOver = s.handedOver :=
    lined.still ⟨lineup_wake (s := { s with calls := s.calls ++ [x] }) (calm_singleton rfl),
      fun _ _ => id⟩ rfl rfl
  cases k with
  | advance => cases instant
  | submit | evaluate | run | stop | release => exact begins _
  | unhold job => exact lined.unhold steady job
  | unholdAnswer q =>
    simp only [Machine.apply, unholdAnswer]
    split
    · next m c _ =>
      have freed := ((Skirts.of_eq rfl rfl : Skirts s { s with
        questionLine := s.questionLine.erase (m, c) }).setCall c (freeCall (s.call c))).wake
          (calm_singleton (a := .caller c) rfl)
      exact lined.still freed rfl rfl
    · exact lined.still (.of_eq rfl rfl) rfl rfl
  | shutdown =>
    refine lined.still (Skirts.refl s).signalShutdown (pool_signalShutdown s) ?_
    exact (journal_apply s (c := .shutdown) rfl).1
  | _ => exact lined.still (.of_eq rfl rfl) rfl rfl

theorem elapse (lined : s.LinedUp) (steady : Steady none s) (settled : s.ready = []) (t : Nat) :
    (s.elapse t).LinedUp ∧ (s.elapse t).handedOver = s.handedOver := by
  have empty : s.lineup = [] := by simp [lineup, settled]
  have due {w : Nat} (mem : w ∈ (s.elapse t).lineup) : ∃ u, (u, .evaluation w) ∈ s.timers := by
    rcases (mem_ready_wake _).1 (mem_lineup.1 mem) with ready | due
    · change _ ∈ s.ready at ready
      rw [settled] at ready
      cases ready
    · obtain ⟨timer, mem, eq⟩ := List.mem_map.1 due
      exact ⟨timer.1, eq ▸ (List.mem_filter.1 mem).1⟩
  refine ⟨⟨?_, ?_, ?_⟩, ?_⟩
  · exact nodup_wake
      (s := { s with now := t, timers := s.timers.filter fun timer => t < timer.1 }) lined.nodup _
  · intro w mem
    obtain ⟨u, mem⟩ := due mem
    exact lined.timed u w mem
  · exact fun u w mem => lined.timed u w (List.mem_filter.1 mem).1
  · have none : (s.elapse t).spawned = [] := List.filterMap_eq_nil_iff.2 fun w mem => by
      obtain ⟨u, mem⟩ := due mem
      have runs := lined.timed u w mem
      change (s.pool.worker w).item? .handed = none
      cases eq : s.pool.worker w with
      | evaluating i x =>
        cases x with
        | spawned =>
          have ready := steady.awake (.evaluation w) (.inl (by simp only [Pool.Summons, eq]))
          rw [settled] at ready
          cases ready
        | _ => rfl
      | _ => rfl
    have before : s.spawned = [] := by rw [spawned, empty, List.filterMap_nil]
    unfold handedOver
    rw [none, before]
    rfl

theorem lineup_prefer (inLine : ∀ w, a = .evaluation w → s.lineup.head? = some w) :
    (s.prefer a).lineup = s.lineup := by
  change (a :: s.ready.erase a).filterMap Agent.evaluation? = s.lineup
  cases a with
  | evaluation w => exact evaluations_first s.ready (inLine w rfl)
  | _ => exact evaluations_erase rfl s.ready

theorem prefer (lined : s.LinedUp) (inLine : ∀ w, a = .evaluation w → s.lineup.head? = some w) :
    (s.prefer a).LinedUp ∧ (s.prefer a).handedOver = s.handedOver :=
  lined.still ⟨lineup_prefer inLine, fun _ _ => id⟩ rfl rfl

end LinedUp

def Rule.KeepsLine (rule : Rule) : Prop :=
  ∀ s w, rule.chooses s (.evaluation w) → s.lineup.head? = some w

theorem Run.linedUp {rule : Rule} {start : Machine} {cs : List Command}
    (run : Run rule start cs turn s) (fresh : start.Fresh) (keeps : rule.KeepsLine) :
    s.LinedUp := by
  induction run with
  | start => constructor <;> simp [lineup, fresh.ready, fresh.timers]
  | command run _ instant ih => exact (ih.apply (run.steady fresh) instant).1
  | elapse run settled _ _ ih => exact (ih.elapse (run.steady fresh) settled _).1
  | choose _ _ may ih => exact (ih.prefer fun w eq => keeps _ w (eq ▸ may)).1
  | move run _ ih | pause run _ ih =>
    obtain ⟨_, _, act⟩ := run.act fresh
    exact (ih.step act run.head_of_turn).1

end Machine

end Autoscaling
