import Autoscaling.Machine.Step
import Autoscaling.Proofs.Pool.Ledger
import Autoscaling.Proofs.Pool.Makes

namespace Autoscaling

def Pass.Stage.item? : Pass.Stage → Option WorkItem
  | .submitting _ i true => some i
  | _ => none

namespace Call

def item? : Call → Option WorkItem
  | .submitting (i :: _) true => some i
  | .evaluating stage | .ticking _ stage => stage.item?
  | _ => none

def begins : Call → Bool
  | .submitting _ false | .submitting [] true => true
  | _ => false

def pending : Call → List WorkItem
  | .submitting items _ => items
  | _ => []

def ofPool : Call → Bool
  | .submitting .. | .releasing | .joining false _ | .returned => true
  | _ => false

end Call

namespace Machine

def history (s : Machine) : List Event := (s.journal.map (·.2)).reverse

def itemEvents (s : Machine) : List Event := s.history.filter (·.mark?.isSome)

theorem marked_itemEvents (m : Mark) (s : Machine) : marked m s.itemEvents = marked m s.history :=
  marked_filter m s.history

def Linked (s : Machine) : Prop :=
  ∀ c i, (c, i) ∈ s.pool.entries ↔ (s.call c).item? = some i

def Awake (s : Machine) (b : Agent) : Prop :=
  s.pool.Summons b ∨
    match b with
    | .worker w => ∃ d, s.pool.worker w = .idle d ∧ (d, b) ∉ s.timers
    | .evaluation _ => False
    | .caller c => (s.call c).begins = true

variable {s s' : Machine} {a b : Agent} {c d : Nat} {woken : List Agent} {events : List Event}

theorem history_log (s : Machine) (e : Event) : (s.log e).history = s.history ++ [e] := by
  simp [history, log]

theorem itemEvents_log (s : Machine) (e : Event) :
    (s.log e).itemEvents = s.itemEvents ++ [e].filter (·.mark?.isSome) := by
  simp only [itemEvents, history, log, List.map_cons, List.reverse_cons, List.filter_append]

theorem call_setCall (h : s.call c ≠ .returned) (x : Call) (d : Nat) :
    (s.setCall c x).call d = if d = c then x else s.call d := by
  have lt : c < s.calls.length := by
    refine Nat.lt_of_not_le fun le => h ?_
    simp [call, List.getD_eq_getElem?_getD, List.getElem?_eq_none le]
  by_cases eq : d = c
  · simp [call, setCall, eq, lt]
  · simp [call, setCall, List.getD_eq_getElem?_getD, List.getElem?_set_ne (Ne.symm eq), eq]

theorem call_setCall_of_ne (x : Call) (h : d ≠ c) : (s.setCall c x).call d = s.call d := by
  simp [call, setCall, List.getD_eq_getElem?_getD, List.getElem?_set_ne (Ne.symm h)]

theorem mem_ready_wake (l : List Agent) : b ∈ (s.wake l).ready ↔ b ∈ s.ready ∨ b ∈ l := by
  simp only [wake]
  generalize s.ready = r
  induction l generalizing r with
  | nil => simp
  | cons a l ih =>
    rw [List.foldl_cons, ih, List.mem_cons]
    split
    · next mem => grind
    · simp [or_assoc]

theorem head_ready_wake (l : List Agent) (h : s.ready.head? = some a) :
    (s.wake l).ready.head? = some a := by
  simp only [wake]
  generalize s.ready = r at h
  induction l generalizing r with
  | nil => exact h
  | cons b l ih =>
    refine ih _ ?_
    dsimp only
    split
    · exact h
    · rw [List.head?_append, h]
      rfl

theorem mem_tail {l : List Agent} (h : l.head? = some a) (ne : b ≠ a) (mem : b ∈ l) :
    b ∈ l.tail := by
  cases l with
  | nil => cases mem
  | cons x l => exact (List.mem_cons.1 mem).resolve_left fun eq => ne (eq.trans (Option.some.inj h))

@[simp] theorem pool_signalShutdown (s : Machine) : s.signalShutdown.pool = s.pool := by
  unfold signalShutdown
  split <;> rfl

@[simp] theorem call_signalShutdown (s : Machine) (c : Nat) :
    s.signalShutdown.call c = s.call c := by
  unfold signalShutdown
  split <;> rfl

@[simp] theorem evaluationLine_signalShutdown (s : Machine) :
    s.signalShutdown.evaluationLine = s.evaluationLine := by
  unfold signalShutdown
  split <;> rfl

structure Beside (s : Machine) (a : Agent) (woken : List Agent) (events : List Event)
    (s' : Machine) : Prop where
  itemEvents : s'.itemEvents = s.itemEvents ++ events
  now : s'.now = s.now
  shutdown : s.shutdown = true → s'.shutdown = true
  ready : ∀ b, b ≠ a → b ∈ s.ready ∨ b ∈ woken → b ∈ s'.ready
  timers : ∀ t b, b ≠ a → (t, b) ∈ s.timers → (t, b) ∈ s'.timers
  calls : ∀ c, a ≠ .caller c → s'.call c = s.call c
  length : s'.calls.length = s.calls.length

namespace Beside

theorem refl (s : Machine) (a : Agent) : Beside s a [] [] s :=
  ⟨(List.append_nil _).symm, rfl, id, fun _ _ h => h.resolve_right (nomatch ·), fun _ _ _ => id,
    fun _ _ => rfl, rfl⟩

theorem filter_told {told : List Event} (h : Beside s a woken events s')
    (history : s'.history = s.history ++ told) : told.filter (·.mark?.isSome) = events := by
  have items := h.itemEvents
  simp only [Machine.itemEvents, history, List.filter_append] at items
  exact List.append_cancel_left items

theorem marked_history (h : Beside s a woken events s') (m : Mark) :
    marked m s'.history = marked m s.history ++ marked m events := by
  rw [← marked_itemEvents, h.itemEvents, marked_append, marked_itemEvents]

theorem pool (h : Beside s a woken events s') (p : Pool) :
    Beside s a woken events { s' with pool := p } :=
  ⟨h.itemEvents, h.now, h.shutdown, h.ready, h.timers, h.calls, h.length⟩

theorem direct (h : Beside s a woken events s') (f : Scenario → Scenario) :
    Beside s a woken events (s'.direct f) :=
  ⟨h.itemEvents, h.now, h.shutdown, h.ready, h.timers, h.calls, h.length⟩

theorem lifecycle (h : Beside s a woken events s') (l : Lifecycle) :
    Beside s a woken events { s' with lifecycle := l } :=
  ⟨h.itemEvents, h.now, h.shutdown, h.ready, h.timers, h.calls, h.length⟩

theorem evaluationLine (h : Beside s a woken events s') (l : List (String × Nat)) :
    Beside s a woken events { s' with evaluationLine := l } :=
  ⟨h.itemEvents, h.now, h.shutdown, h.ready, h.timers, h.calls, h.length⟩

theorem wake (h : Beside s a woken events s') (l : List Agent) :
    Beside s a (woken ++ l) events (s'.wake l) :=
  ⟨h.itemEvents, h.now, h.shutdown, fun b ne mem => (mem_ready_wake l).2 <| by
    rw [List.mem_append, ← or_assoc] at mem
    exact mem.imp_left (h.ready b ne), h.timers, h.calls, h.length⟩

theorem forget {more : List Agent} (h : Beside s a more events s') (sub : ∀ b ∈ woken, b ∈ more) :
    Beside s a woken events s' :=
  ⟨h.itemEvents, h.now, h.shutdown, fun b ne mem => h.ready b ne (mem.imp_right (sub b)), h.timers,
    h.calls, h.length⟩

theorem log (h : Beside s a woken events s') (e : Event) :
    Beside s a woken (events ++ [e].filter (·.mark?.isSome)) (s'.log e) :=
  ⟨by rw [itemEvents_log, h.itemEvents, List.append_assoc], h.now, h.shutdown, h.ready, h.timers,
    h.calls, h.length⟩

theorem cancel (h : Beside s a woken events s') : Beside s a woken events (s'.cancel a) :=
  ⟨h.itemEvents, h.now, h.shutdown, h.ready, fun t b ne mem =>
    List.mem_filter.2 ⟨h.timers t b ne mem, decide_eq_true ne⟩, h.calls,
    h.length⟩

theorem wait (h : Beside s a woken events s') (head : s'.ready.head? = some a) :
    Beside s a woken events s'.wait :=
  ⟨h.itemEvents, h.now, h.shutdown, fun b ne mem => mem_tail head ne (h.ready b ne mem), h.timers,
    h.calls, h.length⟩

theorem sleep (h : Beside s a woken events s') (head : s'.ready.head? = some a) (t : Nat) :
    Beside s a woken events (s'.sleep a t) := by
  refine ⟨h.itemEvents, h.now, h.shutdown, (h.wait head).ready, fun u b ne mem => ?_, h.calls,
    h.length⟩
  have mem := h.timers u b ne mem
  simp only [Machine.sleep]
  split
  · exact mem
  · exact List.mem_append_left _ mem

theorem signalShutdown (h : Beside s a [] events s') :
    Beside s a [] events s'.signalShutdown := by
  unfold Machine.signalShutdown
  split
  · exact h
  · have signalled : Beside s a [] events { s' with shutdown := true } :=
      ⟨h.itemEvents, h.now, fun _ => rfl, h.ready, h.timers, h.calls, h.length⟩
    exact (signalled.wake s'.loops).forget fun _ mem => nomatch mem

theorem setCall (h : Beside s (.caller c) woken events s') (x : Call) :
    Beside s (.caller c) woken events (s'.setCall c x) :=
  ⟨h.itemEvents, h.now, h.shutdown, h.ready, h.timers, fun d ne =>
    (call_setCall_of_ne x fun eq => ne (by rw [eq])).trans (h.calls d ne),
    List.length_set.trans h.length⟩

end Beside

theorem calls_eq_set (beside : Beside s (.caller c) woken events s') :
    s'.calls = s.calls.set c (s'.call c) := by
  refine List.ext_getElem (by rw [beside.length, List.length_set]) fun d lt lt' => ?_
  have eq (t : Machine) (lt : d < t.calls.length) : t.call d = t.calls[d] := by
    simp [call, lt]
  rw [List.getElem_set]
  split
  · next own => rw [own, eq s' lt]
  · next other =>
    rw [← eq s' lt, ← eq s (beside.length ▸ lt)]
    exact beside.calls d fun h => other (Agent.caller.inj h)

theorem calls_eq (beside : Beside s a woken events s') (other : ∀ c, a ≠ .caller c) :
    s'.calls = s.calls := by
  refine List.ext_getElem beside.length fun d lt lt' => ?_
  have eq (t : Machine) (lt : d < t.calls.length) : t.call d = t.calls[d] := by
    simp [call, lt]
  rw [← eq s' lt, ← eq s lt']
  exact beside.calls d (other d)

structure Act (s : Machine) (a : Agent) (woken : List Agent) (events : List Event)
    (s' : Machine) : Prop extends Beside s a woken events s' where
  pool : s.pool.Move s.now s.shutdown a woken events s'.pool
  linked : ∀ c, a = .caller c → ∀ i, (c, i) ∈ s'.pool.entries ↔ (s'.call c).item? = some i
  goesOn : s'.ready.head? = some a ∨ ¬ s'.Awake a
  held : ∀ w i, a = .evaluation w → s.pool.worker w = .evaluating i .held →
    s'.pool.worker w = .evaluating i .held
  line : s'.evaluationLine = s.evaluationLine ∨ ∃ w i, a = .evaluation w ∧
    s.pool.worker w = .evaluating i .spawned ∧ s'.pool.worker w = .evaluating i .held ∧
    s'.evaluationLine = s.evaluationLine ++ [(i.job, w)]
  ofPool : ∀ c, a = .caller c → (s.call c).ofPool = true → (s'.call c).ofPool = true ∧
    (s.call c).pending = marked .accepted events ++ marked .refused events ++ (s'.call c).pending

theorem act_of_worker {w : Nat} (beside : Beside s (.worker w) woken events s')
    (pool : s.pool.Move s.now s.shutdown (.worker w) woken events s'.pool)
    (goesOn : s'.ready.head? = some (.worker w) ∨ ¬ s'.Awake (.worker w))
    (line : s'.evaluationLine = s.evaluationLine) : Act s (.worker w) woken events s' :=
  { beside with
    pool, goesOn
    linked := fun _ eq => nomatch eq
    held := fun _ _ eq => nomatch eq
    line := .inl line
    ofPool := fun _ eq => nomatch eq }

theorem not_awake_worker {w : Nat}
    (h : s.pool.worker w = .exited ∨ ∃ i x, s.pool.worker w = .evaluating i x) :
    ¬ s.Awake (.worker w) := by
  rcases h with eq | ⟨i, x, eq⟩ <;> simp [Awake, Pool.Summons, eq]

theorem act_stepWorker {w : Nat} (head : s.ready.head? = some (.worker w)) (sound : s.pool.Sound) :
    ∃ woken events, Act s (.worker w) woken events (s.stepWorker w) := by
  have beside := Beside.refl s (.worker w)
  unfold stepWorker
  split
  · next rests => exact ⟨[], [], act_of_worker (beside.pool _) (.listen rests) (.inl head) rfl⟩
  · next deadline waits =>
    rcases Pool.receive_cases s.now s.shutdown sound waits with
      ⟨p, woken, i, eq, move⟩ | ⟨p, woken, eq, move, gone⟩ | ⟨eq, early, idle⟩
    · rw [eq]
      exact ⟨_, _, act_of_worker (((beside.pool p).cancel.wake woken).log (.taken i)) move
        (.inl (head_ready_wake _ head)) rfl⟩
    · rw [eq]
      have all := (beside.pool p).cancel.wake (woken ++ s.joiners w)
      have these : Beside s (.worker w) woken [] _ := all.forget fun b mem =>
        List.mem_append_right [] (List.mem_append_left _ mem)
      exact ⟨_, _, act_of_worker (these.wait (head_ready_wake _ head)) move
        (.inr (not_awake_worker (.inl gone))) rfl⟩
    · rw [eq]
      refine ⟨[], [], act_of_worker (beside.sleep head deadline) .stay (.inr fun awake => ?_) rfl⟩
      rcases awake with summons | ⟨d, waits', none⟩
      · simp only [sleep, wait, Pool.Summons, waits] at summons
        exact idle summons
      · cases waits.symm.trans waits'
        refine none ?_
        simp only [sleep]
        split
        · next mem => exact mem
        · exact List.mem_append_right _ (List.mem_singleton_self _)
  · next i holds =>
    rcases Pool.dispatch_cases s.now s.shutdown holds with
      ⟨p, woken, r, eq, move⟩ | ⟨p, woken, eq, move, runs⟩
    · rw [eq]
      exact ⟨_, _, act_of_worker (((beside.pool p).wake woken).log (.dropped i r)) move
        (.inl (head_ready_wake _ head)) rfl⟩
    · rw [eq]
      exact ⟨_, _, act_of_worker (((beside.pool p).wake woken).wait (head_ready_wake _ head)) move
        (.inr (not_awake_worker (.inr ⟨_, _, runs⟩))) rfl⟩
  · next i ended =>
    exact ⟨_, _, act_of_worker ((beside.pool _).wake _) (.complete ended)
      (.inl (head_ready_wake _ head)) rfl⟩
  · next i x runs =>
    exact ⟨[], [], act_of_worker (beside.wait head) .stay
      (.inr (not_awake_worker (.inr ⟨_, _, runs⟩))) rfl⟩
  · next gone =>
    exact ⟨[], [], act_of_worker (beside.wait head) .stay (.inr (not_awake_worker (.inl gone))) rfl⟩

theorem not_awake_evaluation {w : Nat} {x : Pool.Worker} (h : s.pool.worker w = x)
    (rests : ∀ i, x ≠ .evaluating i .spawned ∧ x ≠ .evaluating i .freed) :
    ¬ s.Awake (.evaluation w) := by
  rintro (summons | no)
  · simp only [Pool.Summons, h] at summons
    split at summons
    · exact (rests _).1 rfl
    · exact (rests _).2 rfl
    · exact summons
  · exact no

theorem act_of_evaluation {w : Nat} (beside : Beside s (.evaluation w) woken events s')
    (pool : s.pool.Move s.now s.shutdown (.evaluation w) woken events s'.pool)
    (goesOn : s'.ready.head? = some (.evaluation w) ∨ ¬ s'.Awake (.evaluation w))
    (other : ∀ i, s.pool.worker w ≠ .evaluating i .held)
    (line : s'.evaluationLine = s.evaluationLine) : Act s (.evaluation w) woken events s' :=
  { beside with
    pool, goesOn
    linked := fun _ eq => nomatch eq
    held := fun _ _ eq held => by cases eq; exact absurd held (other _)
    line := .inl line
    ofPool := fun _ eq => nomatch eq }

theorem act_endEvaluation {w : Nat} {i : WorkItem} {x : Pool.Progress}
    (head : s'.ready.head? = some (.evaluation w))
    (beside : Beside s (.evaluation w) [] events s') (same : s'.pool = s.pool)
    (runs : s.pool.worker w = .evaluating i x) (notHeld : x ≠ .held)
    (move : s.pool.Move s.now s.shutdown (.evaluation w) [.worker w] events
      (s.pool.setWorker w (.finished i)))
    (line : s'.evaluationLine = s.evaluationLine) :
    Act s (.evaluation w) [.worker w] events (s'.endEvaluation w i) := by
  have ends := ((beside.pool (s'.pool.setWorker w (.finished i))).cancel.wake [.worker w]).wait
    (head_ready_wake _ head)
  refine act_of_evaluation ends ?_ (.inr ?_) (by rw [runs]; simpa using notHeld) line
  · rw [← same] at move
    exact same ▸ move
  · have ended : (s'.pool.setWorker w (.finished i)).worker w = .finished i := by
      rw [same, Pool.worker_setWorker runs (by simp), if_pos rfl]
    exact not_awake_evaluation (s := s'.endEvaluation w i) ended (by simp)

theorem act_finishEvaluation {w : Nat} {i : WorkItem} {x : Pool.Progress}
    (head : s'.ready.head? = some (.evaluation w))
    (beside : Beside s (.evaluation w) [] (x.beginning i) s') (same : s'.pool = s.pool)
    (runs : s.pool.worker w = .evaluating i x) (notHeld : x ≠ .held)
    (line : s'.evaluationLine = s.evaluationLine) :
    Act s (.evaluation w) [.worker w] (x.beginning i ++ [.finished i])
      (s'.finishEvaluation w i) := by
  unfold finishEvaluation
  dsimp only
  have logged := beside.log (.finished i)
  split
  · exact act_endEvaluation head (logged.direct _) same runs notHeld (.finish runs) line
  · exact act_endEvaluation head logged same runs notHeld (.finish runs) line

theorem finishEvaluation_eq (s : Machine) (w : Nat) (i : WorkItem) : ∃ x : Scenario,
    x.permits = s.scenario.permits ∧ x.behaviour = s.scenario.behaviour ∧
      s.finishEvaluation w i = ((s.log (.finished i)).direct fun _ => x).endEvaluation w i := by
  have kept (groups : List String) (x : Scenario) :
      (x.recordAll i.job groups s.clock).permits = x.permits ∧
        (x.recordAll i.job groups s.clock).behaviour = x.behaviour := by
    induction groups generalizing x with
    | nil => exact ⟨rfl, rfl⟩
    | cons group groups ih => exact ih (x.recordScale (i.job, group) s.clock)
  unfold finishEvaluation
  dsimp only
  split
  · exact ⟨_, (kept i.policies.keys s.scenario).1, (kept i.policies.keys s.scenario).2, rfl⟩
  · exact ⟨s.scenario, rfl, rfl, rfl⟩

theorem finishEvaluation_told (s : Machine) (w : Nat) (i : WorkItem) :
    (s.finishEvaluation w i).pool = s.pool.setWorker w (.finished i) ∧
      (s.finishEvaluation w i).scenario.behaviour = s.scenario.behaviour ∧
      (s.finishEvaluation w i).journal = (s.now, .finished i) :: s.journal := by
  obtain ⟨x, _, does, eq⟩ := finishEvaluation_eq s w i
  rw [eq]
  exact ⟨rfl, does, rfl⟩

theorem act_setProgress {w : Nat} {i : WorkItem} {x y : Pool.Progress}
    (head : s'.ready.head? = some (.evaluation w))
    (beside : Beside s (.evaluation w) [] (x.beginning i) s') (same : s'.pool = s.pool)
    (runs : s.pool.worker w = .evaluating i x) (notHeld : x ≠ .held) (later : y ≠ .spawned)
    (line : s'.evaluationLine = s.evaluationLine) :
    Act s (.evaluation w) [] (x.beginning i) (s'.setProgress w i y) := by
  refine act_of_evaluation (beside.pool _) ?_ (.inl head) (by rw [runs]; simpa using notHeld) line
  change s.pool.Move _ _ _ _ _ (s'.pool.setWorker w _)
  rw [same]
  exact .progress runs later

theorem act_stepEvaluation {w : Nat} (head : s.ready.head? = some (.evaluation w)) :
    ∃ woken events, Act s (.evaluation w) woken events (s.stepEvaluation w) := by
  have beside := Beside.refl s (.evaluation w)
  unfold stepEvaluation
  split
  · next i runs =>
    have begun := beside.log (.started i)
    dsimp only
    split
    · exact ⟨_, _, act_finishEvaluation (x := .spawned) head begun rfl runs (by simp) rfl⟩
    · exact ⟨_, _, act_setProgress (x := .spawned) head begun rfl runs (by simp) (by simp) rfl⟩
    · exact ⟨_, _, act_endEvaluation (x := .spawned) head (begun.log (.panicked i)) rfl runs
        (by simp) (.panic runs) rfl⟩
    · split
      · exact ⟨_, _,
          act_finishEvaluation (x := .spawned) head (begun.direct _) rfl runs (by simp) rfl⟩
      · have waits : (s.pool.setWorker w (.evaluating i .held)).worker w = .evaluating i .held := by
          rw [Pool.worker_setWorker runs (by simp), if_pos rfl]
        refine ⟨[], [.started i],
          { (((begun.evaluationLine _).pool _).wait head) with
            pool := .progress (y := .held) runs (by simp)
            linked := fun _ eq => nomatch eq
            goesOn := .inr (not_awake_evaluation waits (by simp))
            held := ?_
            line := .inr ⟨w, i, rfl, runs, waits, rfl⟩
            ofPool := fun _ eq => nomatch eq }⟩
        intro v j eq held
        cases eq
        cases runs.symm.trans held
  · next i wakeAt runs =>
    split
    · exact ⟨_, _, act_finishEvaluation (x := .sleeping wakeAt) head beside rfl runs (by simp) rfl⟩
    · exact ⟨[], [], act_of_evaluation (beside.sleep head wakeAt) .stay
        (.inr (not_awake_evaluation runs (by simp))) (by simp [runs]) rfl⟩
  · next i runs =>
    exact ⟨_, _, act_finishEvaluation (x := .freed) head beside rfl runs (by simp) rfl⟩
  · next notSpawned _ notFreed =>
    exact ⟨[], [], { beside.wait head with
      pool := .stay
      linked := fun _ eq => nomatch eq
      goesOn := .inr (not_awake_evaluation (s := s.wait) rfl fun i => ⟨notSpawned i, notFreed i⟩)
      held := fun _ _ _ => id
      line := .inl rfl
      ofPool := fun _ eq => nomatch eq }⟩

end Machine

end Autoscaling
