import Autoscaling.Machine.Work

/-!
Every machine settles: a move always leaves less work, so after as many moves as there is work every
agent waits.
-/

namespace Autoscaling.Machine

attribute [local instance (20000)] Zero.ofOfNat0

theorem length_wake_le (r : List Agent) (agents : List Agent) :
    (agents.foldl (fun r a => if a ∈ r then r else r ++ [a]) r).length ≤
      r.length + agents.length := by
  induction agents generalizing r with
  | nil => exact Nat.le_refl _
  | cons a agents ih =>
    refine Nat.le_trans (ih _) ?_
    dsimp only
    split <;> simp only [List.length_append, List.length_cons, List.length_nil] <;> omega

theorem work_wake_le (s : Machine) (agents : List Agent) :
    (s.wake agents).work ≤ s.work + agents.length := by
  have := length_wake_le s.ready agents
  change (s.wake agents).ready.length + s.pool.work + (s.calls.map s.callWork).sum ≤ _
  simp only [work, wake]
  omega

theorem ready_wake_ne_nil {s : Machine} (h : s.ready ≠ []) (agents : List Agent) :
    (s.wake agents).ready ≠ [] := by
  simp only [wake]
  generalize s.ready = r at h
  induction agents generalizing r with
  | nil => exact h
  | cons a agents ih =>
    refine ih _ ?_
    dsimp only
    split <;> simp [h]

theorem work_wait {s : Machine} (h : s.ready ≠ []) : s.wait.work + 1 = s.work := by
  have := List.length_pos_iff.2 h
  change s.ready.tail.length + s.pool.work + (s.calls.map s.callWork).sum + 1 = s.work
  rw [List.length_tail]
  simp only [work]
  omega

@[simp] theorem work_log (s : Machine) (e : Event) : (s.log e).work = s.work := rfl

@[simp] theorem work_cancel (s : Machine) (a : Agent) : (s.cancel a).work = s.work := rfl

@[simp] theorem work_direct (s : Machine) (f : Scenario → Scenario) :
    (s.direct f).work = s.work := rfl

theorem work_sleep {s : Machine} (h : s.ready ≠ []) (a : Agent) (wakeAt : Nat) :
    (s.sleep a wakeAt).work + 1 = s.work :=
  work_wait h

theorem work_setCall_le (s : Machine) (c : Nat) (x : Call) :
    (s.setCall c x).work + s.callWork (s.call c) ≤ s.work + s.callWork x := by
  have := Pool.sum_map_set_le (f := s.callWork) (d := .returned) rfl s.calls c x
  change s.ready.length + s.pool.work + ((s.calls.set c x).map s.callWork).sum + _ ≤ _
  simp only [work, call]
  omega

theorem callWork_pool_le {s : Machine} {p : Pool}
    (h : ∀ w, Pool.handleWork p.workers w ≤ Pool.handleWork s.pool.workers w) (x : Call) :
    { s with pool := p }.callWork x ≤ s.callWork x := by
  cases x with
  | joining stop handles => exact Nat.add_le_add_right (Pool.handlesWork_mono h handles) 2
  | submitting items entered => cases entered <;> exact Nat.le_refl _
  | _ => exact Nat.le_refl _

theorem work_pool_add_le {s : Machine} {p : Pool}
    (h : ∀ w, Pool.handleWork p.workers w ≤ Pool.handleWork s.pool.workers w) :
    { s with pool := p }.work + s.pool.work ≤ s.work + p.work := by
  have := Pool.sum_map_le (callWork_pool_le h) s.calls
  simp only [work]
  omega

theorem work_pool_le {s : Machine} {p : Pool} (h : Pool.Spends s.pool p n) :
    { s with pool := p }.work + n ≤ s.work := by
  have := work_pool_add_le h.handleWork_le
  have := h.work_le
  omega

theorem length_callers (s : Machine) (isAsked : Call → Bool) :
    (s.callers isAsked).length = s.calls.countP isAsked := by
  have : s.calls = (List.range s.calls.length).map s.call :=
    List.ext_getElem (by simp) (by simp +contextual [call, List.getD_eq_getElem?_getD])
  conv => rhs; rw [this]
  rw [List.countP_map, List.countP_eq_length_filter, callers, List.length_map]
  rfl

theorem sum_map_add_countP_le {f g : α → Nat} {q : α → Bool}
    (h : ∀ x, f x + (if q x then 1 else 0) ≤ g x) (l : List α) :
    (l.map f).sum + l.countP q ≤ (l.map g).sum := by
  induction l with
  | nil => exact Nat.le_refl 0
  | cons x l ih =>
    have := h x
    simp only [List.map_cons, List.sum_cons, List.countP_cons]
    omega

theorem work_joiners_le {s : Machine} {p : Pool} {w : Nat} (h : Pool.Spends s.pool p n)
    (cheaper : Pool.handleWork p.workers w + 1 = Pool.handleWork s.pool.workers w) :
    { s with pool := p }.work + n + (s.joiners w).length ≤ s.work := by
  have le : ∀ x, { s with pool := p }.callWork x + (if x.awaits w then 1 else 0) ≤
      s.callWork x := fun x => by
    have := callWork_pool_le h.handleWork_le x
    split
    · next awaits =>
      unfold Call.awaits at awaits
      split at awaits
      · next stop v handles =>
        have := Pool.handlesWork_mono h.handleWork_le handles
        rw [eq_of_beq awaits]
        simp only [callWork, Pool.handlesWork, List.map_cons, List.sum_cons] at this ⊢
        omega
      · contradiction
    · exact this
  have := sum_map_add_countP_le le s.calls
  have := h.work_le
  rw [joiners, length_callers]
  simp only [work]
  omega

theorem work_stepWorker_lt {s : Machine} (ready : s.ready ≠ []) (w : Nat) :
    (s.stepWorker w).work < s.work := by
  unfold stepWorker
  split
  · next h =>
    have := work_pool_le (Pool.spends_listen s.now h)
    omega
  · next deadline h =>
    have spends := Pool.spends_receive s.now h
    split
    · have := work_sleep ready (.worker w) deadline
      omega
    · next pool woken i eq =>
      simp only [eq] at spends
      have := work_pool_le spends
      have := work_wake_le ({ s with pool }.cancel (.worker w)) woken
      simp only [work_log, work_cancel] at this ⊢
      omega
    · next pool woken eq =>
      have leaves := Pool.handleWork_receive_leaves s.now h (by rw [eq])
      simp only [eq] at spends leaves
      have := work_joiners_le spends leaves
      have := work_wake_le ({ s with pool }.cancel (.worker w)) (woken ++ s.joiners w)
      have := work_wait (ready_wake_ne_nil (s := { s with pool }.cancel (.worker w)) ready
        (woken ++ s.joiners w))
      simp only [work_cancel, List.length_append] at *
      omega
  · next i h =>
    have spends := Pool.spends_dispatch s.shutdown h
    split
    · next pool woken r eq =>
      simp only [eq] at spends
      have := work_pool_le spends
      have := work_wake_le { s with pool } woken
      rw [work_log]
      omega
    · next pool woken eq =>
      simp only [eq] at spends
      have := work_pool_le spends
      have := work_wake_le { s with pool } woken
      have := work_wait (ready_wake_ne_nil (s := { s with pool }) ready woken)
      omega
  · next i h =>
    have spends := Pool.spends_complete h (Nat.le_refl 5)
    have := work_pool_le spends
    have := work_wake_le { s with pool := (s.pool.complete w).1 } (s.pool.complete w).2
    dsimp only
    omega
  all_goals
    have := work_wait ready
    omega

theorem work_endEvaluation_lt {s : Machine} (ready : s.ready ≠ []) {w : Nat} {i j : WorkItem}
    {progress : Pool.Progress} (h : s.pool.worker w = .evaluating i progress) :
    (s.endEvaluation w j).work < s.work := by
  have spends : Pool.Spends s.pool (s.pool.setWorker w (.finished j)) 1 :=
    Pool.spends_setWorker h (by simp) (by cases progress <;> simp [Pool.Worker.work])
  have := work_pool_le spends
  have := work_wake_le ({ s with pool := s.pool.setWorker w (.finished j) }.cancel (.evaluation w))
    [.worker w]
  have := work_wait (ready_wake_ne_nil
    (s := { s with pool := s.pool.setWorker w (.finished j) }.cancel (.evaluation w)) ready
    [.worker w])
  simp [endEvaluation] at *
  omega

theorem work_finishEvaluation_lt {s : Machine} (ready : s.ready ≠ []) {w : Nat} {i j : WorkItem}
    {progress : Pool.Progress} (h : s.pool.worker w = .evaluating i progress) :
    (s.finishEvaluation w j).work < s.work := by
  unfold finishEvaluation
  dsimp only
  split
  · exact work_endEvaluation_lt (s := (s.log _).direct _) ready h
  · exact work_endEvaluation_lt (s := s.log _) ready h

theorem work_setProgress_lt {s : Machine} {w : Nat} {i : WorkItem} {x : Pool.Progress}
    (h : s.pool.worker w = .evaluating i .spawned) (ne : x ≠ .spawned) :
    (s.setProgress w i x).work < s.work :=
  work_pool_le (n := 1) <| Pool.spends_setWorker h (by simp) <| by
    cases x with
    | spawned => contradiction
    | _ => exact Nat.le_refl 7

theorem work_stepEvaluation_lt {s : Machine} (ready : s.ready ≠ []) (w : Nat) :
    (s.stepEvaluation w).work < s.work := by
  unfold stepEvaluation
  split
  · next i h =>
    dsimp only
    split
    · exact work_finishEvaluation_lt (s := s.log _) ready h
    · exact work_setProgress_lt (s := s.log _) h (by simp)
    · exact work_endEvaluation_lt (s := (s.log _).log _) ready h
    · split
      · exact work_finishEvaluation_lt (s := (s.log _).direct _) ready h
      · have := work_setProgress_lt (s := s.log (.started i)) (x := .held) h (by simp)
        have := work_wait (s := (s.log (.started i)).setProgress w i .held) ready
        change ((s.log (.started i)).setProgress w i .held).wait.work < (s.log (.started i)).work
        omega
  · next i wakeAt h =>
    split
    · exact work_finishEvaluation_lt ready h
    · have := work_sleep ready (.evaluation w) wakeAt
      omega
  · next i h => exact work_finishEvaluation_lt ready h
  · have := work_wait ready
    omega

structure Keeps (s s' : Machine) : Prop where
  calls : s'.calls = s.calls
  interval : s'.interval = s.interval
  now : s'.now = s.now
  shutdown : s'.shutdown = s.shutdown
  store : s'.store = s.store
  ready : s.ready ≠ [] → s'.ready ≠ []

theorem Keeps.tickWork {s s' : Machine} (h : Keeps s s') (tick : Nat) :
    s'.tickWork tick = s.tickWork tick := by
  have nanos : s'.nanos = s.nanos := by rw [Machine.nanos, h.now, Machine.nanos]
  unfold Machine.tickWork dueTicks
  rw [nanos, h.interval, h.store]

theorem Keeps.call {s s' : Machine} (h : Keeps s s') (c : Nat) : s'.call c = s.call c := by
  simp [Machine.call, h.calls]

theorem Keeps.refl (s : Machine) : Keeps s s := ⟨rfl, rfl, rfl, rfl, rfl, id⟩

theorem Keeps.trans {s s' s'' : Machine} (h : Keeps s s') (h' : Keeps s' s'') : Keeps s s'' :=
  ⟨h'.calls.trans h.calls, h'.interval.trans h.interval, h'.now.trans h.now,
    h'.shutdown.trans h.shutdown, h'.store.trans h.store, h'.ready ∘ h.ready⟩

theorem keeps_submit (s : Machine) (c : Nat) (i : WorkItem) (entered : Bool) :
    Keeps s (s.submit c i entered).1 := by
  have (pool : Pool) (woken : List Agent) : Keeps s ({ s with pool }.wake woken) :=
    ⟨rfl, rfl, rfl, rfl, rfl, fun ready => ready_wake_ne_nil (s := { s with pool }) ready woken⟩
  have := this (s.pool.submit c i entered).1 (s.pool.submit c i entered).2.1
  unfold submit
  dsimp only
  split
  all_goals exact this.trans ⟨rfl, rfl, rfl, rfl, rfl, id⟩

theorem work_submit_le_wake (s : Machine) (c : Nat) (i : WorkItem) (entered : Bool) :
    (s.submit c i entered).1.work ≤
      { s with pool := (s.pool.submit c i entered).1 }.work +
        (s.pool.submit c i entered).2.1.length := by
  refine Nat.le_trans (Nat.le_of_eq ?_) (work_wake_le ..)
  unfold submit
  dsimp only
  split <;> rfl

theorem work_submit_entered_le (s : Machine) (c : Nat) (i : WorkItem) :
    (s.submit c i true).1.work + (if (s.submit c i true).2 = .goOn then 1 else 0) ≤ s.work := by
  have := work_pool_le (Pool.spends_submit_entered s.pool c i)
  have := work_submit_le_wake s c i true
  change _ + (if (s.pool.submit c i true).2.2 = .goOn then 1 else 0) ≤ _
  omega

theorem work_submit_new_le (s : Machine) (c : Nat) (i : WorkItem) :
    (s.submit c i false).1.work ≤ s.work + (s.submit c i false).2.entryWork := by
  have enter := Pool.work_enter_le s.pool c i
  have pool := work_pool_add_le (s := s) (p := (s.pool.enter c i).1)
    (fun w => Nat.le_of_eq (by rw [Pool.workers_enter]))
  have submit : (s.submit c i false).1.work ≤ { s with pool := (s.pool.enter c i).1 }.work :=
    work_submit_le_wake s c i false
  change _ ≤ s.work + (s.pool.enter c i).2.entryWork
  omega

def turnWork (store : Store) : Pass.Turn → Nat
  | .goOn stage => stage.work store + 1
  | .wait stage => stage.work store
  | .ended _ => 0

structure Moves (s : Machine) (stage : Pass.Stage) (r : Machine × Pass.Turn) : Prop where
  keeps : Keeps s r.1
  work_le : r.1.work + turnWork s.store r.2 ≤ s.work + stage.work s.store

theorem visitWork_cons (job : String) (groups : JobPolicies) (rest : List (String × JobPolicies)) :
    Pass.visitWork ((job, groups) :: rest) = Pass.visitWork rest + 4 * groups.size + 27 := by
  simp [Pass.visitWork]
  omega

theorem moves_complete (s : Machine) (stage : Pass.Stage) (p : Pass) :
    Moves s stage (p.complete s) := by
  unfold Pass.complete
  dsimp only
  split <;> exact ⟨⟨rfl, rfl, rfl, rfl, rfl, id⟩, Nat.le_add_right ..⟩

theorem moves_openStep (s : Machine) : Moves s .opening (Pass.openStep s) := by
  unfold Pass.openStep
  split
  · exact ⟨.refl s, Nat.le_add_right ..⟩
  · dsimp only
    split
    · exact ⟨⟨rfl, rfl, rfl, rfl, rfl, id⟩, Nat.le_add_right ..⟩
    · split
      · exact ⟨⟨rfl, rfl, rfl, rfl, rfl, id⟩, Nat.le_add_right ..⟩
      · refine ⟨⟨rfl, rfl, rfl, rfl, rfl, id⟩, ?_⟩
        change s.work + (Pass.visitWork s.store.entries + 1) ≤
          s.work + (2 + Pass.visitWork s.store.entries)
        omega

theorem moves_visitStep (s : Machine) (p : Pass) : Moves s (.visiting p) (Pass.visitStep s p) := by
  unfold Pass.visitStep
  split
  · exact moves_complete ..
  · next job groups rest eq =>
    split
    · exact moves_complete ..
    · refine ⟨.refl s, ?_⟩
      simp [turnWork, Pass.Stage.work, Pass.queryWork, eq, visitWork_cons, Dict.size]

theorem work_decide_le (store : Store) (p : Pass) (c : Check) :
    (p.decide c).work store ≤ Pass.visitWork p.rest + 22 := by
  unfold Pass.decide
  split
  · exact Nat.le_refl _
  · exact Nat.le_add_right ..

theorem moves_checkStep (s : Machine) (caller : Nat) (q : Query) (p : Pass) (c : Check) :
    Moves s (.checking q p c) (Pass.checkStep s caller q p c) := by
  unfold Pass.checkStep
  split
  · have := work_decide_le s.store p c
    refine ⟨.refl s, ?_⟩
    change s.work + ((p.decide c).work s.store + 1) ≤
      s.work + (Pass.visitWork p.rest + 4 * c.left.length + Pass.queryWork q + 24)
    omega
  · dsimp only
    split
    · exact ⟨⟨rfl, rfl, rfl, rfl, rfl, id⟩, Nat.le_refl _⟩
    · split
      · exact ⟨⟨rfl, rfl, rfl, rfl, rfl, id⟩, Nat.le_refl _⟩
      · exact ⟨⟨rfl, rfl, rfl, rfl, rfl, id⟩, Nat.le_succ _⟩

theorem moves_answerStep (s : Machine) (q : Query) (p : Pass) (c : Check) :
    Moves s (.answering q p c) (Pass.answerStep s q p c) := by
  have decided := work_decide_le s.store p c
  have stops : Moves s (.answering q p c) (s, .goOn (p.decide c)) := by
    refine ⟨.refl s, ?_⟩
    change s.work + ((p.decide c).work s.store + 1) ≤
      s.work + (Pass.visitWork p.rest + 4 * c.left.length + Pass.queryWork q + 23)
    omega
  unfold Pass.answerStep
  split
  · exact stops
  · next group policy left eq =>
    split
    · exact stops
    · cases q with
      | deployment => exact ⟨.refl s, Nat.le_refl _⟩
      | cooldown =>
        refine ⟨.refl s, ?_⟩
        simp only [turnWork, Pass.Stage.work, Pass.queryWork, eq, List.length_cons]
        omega

theorem moves_submitStep (s : Machine) (caller : Nat) (p : Pass) (i : WorkItem)
    (entered : Bool) :
    Moves s (.submitting p i entered) (Pass.submitStep s caller p i entered) := by
  have keeps := keeps_submit s caller i entered
  unfold Pass.submitStep
  cases entered with
  | true =>
    have := work_submit_entered_le s caller i
    split
    all_goals
      next s' eq =>
        simp only [eq] at keeps this
        refine ⟨keeps, ?_⟩
        simp [turnWork, Pass.Stage.work, Pass.submitted] at this ⊢
        omega
  | false =>
    have := work_submit_new_le s caller i
    split
    all_goals
      next s' eq =>
        simp only [eq] at keeps this
        refine ⟨keeps, ?_⟩
        simp [turnWork, Pass.Stage.work, Pass.submitted, Pool.Turn.entryWork] at this ⊢
        omega

theorem moves_step (s : Machine) (caller : Nat) (stage : Pass.Stage) :
    Moves s stage (Pass.step s caller stage) := by
  cases stage with
  | opening => exact moves_openStep s
  | visiting p => exact moves_visitStep s p
  | checking q p c => exact moves_checkStep s caller q p c
  | held q p c => exact ⟨.refl s, Nat.le_refl _⟩
  | answering q p c => exact moves_answerStep s q p c
  | submitting p i entered => exact moves_submitStep s caller p i entered

theorem work_answer_lt {s : Machine} (ready : s.ready ≠ []) (c : Nat) (a : Answer) :
    (s.answer c a).work + s.callWork (s.call c) < s.work := by
  have := work_setCall_le s c .returned
  have := work_wait (s := (s.setCall c .returned).log (.answered a)) ready
  simp only [answer, work_log] at *
  have : s.callWork .returned = 0 := rfl
  omega

theorem work_stepSubmitter_lt {s : Machine} (ready : s.ready ≠ []) {c : Nat}
    {items : List WorkItem} {entered : Bool} (h : s.call c = .submitting items entered) :
    (s.stepSubmitter c items entered).work < s.work := by
  unfold stepSubmitter
  split
  · have := work_setCall_le s c .returned
    have := work_wait (s := s.setCall c .returned) ready
    have : s.callWork .returned = 0 := rfl
    omega
  · next i rest =>
    have keeps := keeps_submit s c i entered
    have paid : (s.submit c i entered).1.work + 24 * rest.length + 2 +
        (if (s.submit c i entered).2 = .goOn then 1 else 0) ≤
          s.work + s.callWork (.submitting (i :: rest) entered) := by
      cases entered with
      | true =>
        have := work_submit_entered_le s c i
        simp only [callWork, List.length_cons]
        omega
      | false =>
        have := work_submit_new_le s c i
        have : (s.submit c i false).2.entryWork ≤ 21 := by
          cases (s.submit c i false).2 <;> simp [Pool.Turn.entryWork]
        simp only [callWork, List.length_cons]
        split <;> omega
    have price : (s.submit c i entered).1.callWork ((s.submit c i entered).1.call c) =
        s.callWork (.submitting (i :: rest) entered) := by
      rw [keeps.call, h]
      cases entered <;> rfl
    rw [← price] at paid
    generalize s.submit c i entered = r at *
    obtain ⟨s', turn⟩ := r
    have again := work_setCall_le s' c (.submitting (i :: rest) true)
    have next := work_setCall_le s' c (.submitting rest false)
    have : s'.callWork (.submitting (i :: rest) true) = 24 * rest.length + 2 := rfl
    have : s'.callWork (.submitting rest false) = 24 * rest.length + 1 := rfl
    cases turn with
    | goOn =>
      simp only [if_true] at paid
      dsimp only at paid ⊢
      omega
    | wait =>
      have := work_wait (s := s'.setCall c (.submitting (i :: rest) true)) (keeps.ready ready)
      dsimp only at paid ⊢
      omega
    | accepted | refused =>
      dsimp only at paid ⊢
      rw [work_log]
      omega

theorem work_stepPass_lt {s : Machine} (ready : s.ready ≠ []) {c k : Nat} {stage : Pass.Stage}
    {within : Pass.Stage → Call} {ended : Machine → Outcome → Machine}
    (h : s.call c = within stage)
    (price : ∀ s', Keeps s s' → ∀ stage, s'.callWork (within stage) = stage.work s.store + k)
    (last : ∀ s' o, Keeps s s' → (ended s' o).work + stage.work s.store < s'.work) :
    (s.stepPass c stage within ended).work < s.work := by
  have moves := moves_step s c stage
  unfold stepPass
  split
  · next s' stage' eq =>
    simp only [eq] at moves
    have := work_setCall_le s' c (within stage')
    rw [moves.keeps.call, h, price _ moves.keeps, price _ moves.keeps] at this
    have := moves.work_le
    simp only [turnWork] at this
    omega
  · next s' stage' eq =>
    simp only [eq] at moves
    have := work_setCall_le s' c (within stage')
    rw [moves.keeps.call, h, price _ moves.keeps, price _ moves.keeps] at this
    have := work_wait (s := s'.setCall c (within stage')) (moves.keeps.ready ready)
    have := moves.work_le
    simp only [turnWork] at this
    omega
  · next s' o eq =>
    simp only [eq] at moves
    have := last s' o moves.keeps
    have := moves.work_le
    simp only [turnWork] at this
    omega

theorem dueTicks_nextTick_lt {s : Machine} {tick : Nat} (h : tick ≤ s.nanos) :
    s.dueTicks (nextTick tick s.nanos s.interval.nanos) < s.dueTicks tick := by
  have pos := s.interval_pos
  unfold dueTicks nextTick
  split
  · next late =>
    have := Nat.mod_lt (s.nanos - tick) pos
    rw [if_neg (by omega)]
    exact Nat.succ_pos _
  · split
    · next due =>
      have : s.nanos - (tick + s.interval.nanos) = s.nanos - tick - s.interval.nanos := by omega
      rw [Nat.div_eq_sub_div pos (a := s.nanos - tick) (by omega), this]
      omega
    · exact Nat.succ_pos _

theorem tickWork_nextTick_le {s : Machine} {tick : Nat} (h : tick ≤ s.nanos) :
    s.tickWork (nextTick tick s.nanos s.interval.nanos) + (Pass.openWork s.store + 2) ≤
      s.tickWork tick := by
  have := Nat.mul_le_mul_right (Pass.openWork s.store + 2) (dueTicks_nextTick_lt h)
  rw [Nat.succ_mul] at this
  exact this

theorem tickWork_of_lt {s : Machine} {tick : Nat} (h : s.nanos < tick) : s.tickWork tick = 0 := by
  simp [tickWork, dueTicks, Nat.not_le.2 h]

theorem work_stepLoop_lt {s : Machine} (ready : s.ready ≠ []) {c tick : Nat}
    (h : s.call c = .selecting tick) : (s.stepLoop c tick).work < s.work := by
  unfold stepLoop
  split
  · have := work_answer_lt
      (s := { s with lifecycle := s.lifecycle.markLoopExited }.cancel (.caller c)) ready c .run
    exact Nat.lt_of_le_of_lt (Nat.le_add_right ..) this
  · split
    · next due =>
      have := tickWork_nextTick_le due
      have paid := work_setCall_le ((s.cancel (.caller c)).log .ticked) c
        (.ticking (nextTick tick s.nanos s.interval.nanos) .opening)
      have price : s.callWork (s.call c) = s.tickWork tick + 3 := by
        simp [callWork, *]
      change _ + s.callWork (s.call c) ≤ s.work +
        (s.tickWork (nextTick tick s.nanos s.interval.nanos) + Pass.openWork s.store + 4) at paid
      omega
    · have := work_sleep ready (.caller c) (ceilMillis tick)
      omega

theorem millis_pos {d : Duration} (h : 0 < d.nanos) : 0 < d.millis := by
  unfold Duration.millis ceilMillis
  omega

theorem work_setCall_lt {s : Machine} {c : Nat} {x y : Call} (h : s.call c = x)
    (lt : s.callWork y < s.callWork x) : (s.setCall c y).work < s.work := by
  have := work_setCall_le s c y
  rw [h] at this
  omega

theorem work_signalShutdown_le (s : Machine) : s.signalShutdown.work ≤ s.work := by
  unfold signalShutdown
  split
  · exact Nat.le_refl _
  · next running =>
    have le : ∀ x, { s with shutdown := true }.callWork x + (if x.isSelecting then 1 else 0) ≤
        s.callWork x := fun x => by
      cases x with
      | selecting tick => simp [callWork, Call.isSelecting, running]; exact Nat.le_refl _
      | submitting items entered => cases entered <;> exact Nat.le_refl _
      | _ => exact Nat.le_refl _
    have calls := sum_map_add_countP_le le s.calls
    have loops : s.loops.length = s.calls.countP Call.isSelecting := length_callers ..
    have paid : { s with shutdown := true }.work + s.loops.length ≤ s.work := by
      simp only [work]
      omega
    exact Nat.le_trans (work_wake_le ..) paid

theorem work_beginRelease_lt {s : Machine} {c : Nat} (stop : Bool)
    (h : s.call c = .polling ∨ s.call c = .releasing) :
    (s.beginRelease c stop).work < s.work := by
  have release := Pool.work_release_le s.pool
  have pool := work_pool_add_le (s := s) (p := s.pool.release.1)
    (fun w => Nat.le_of_eq (by rw [Pool.workers_release]))
  have set := work_setCall_le { s with pool := s.pool.release.1 } c (.joining stop s.pool.handles)
  have wake := work_wake_le
    ({ s with pool := s.pool.release.1 }.setCall c (.joining stop s.pool.handles)) s.pool.release.2
  have joining : { s with pool := s.pool.release.1 }.callWork (.joining stop s.pool.handles) =
      Pool.handlesWork s.pool.workers s.pool.handles + 2 := by
    simp only [callWork, Pool.workers_release]
  have before : 5 ≤ { s with pool := s.pool.release.1 }.callWork (s.call c) := by
    rcases h with h | h <;> simp [h, callWork]
  change _ + { s with pool := s.pool.release.1 }.callWork (s.call c) ≤ _ at set
  unfold beginRelease
  dsimp only
  omega

theorem work_stepCaller_lt {s : Machine} (ready : s.ready ≠ []) (c : Nat) :
    (s.stepCaller c).work < s.work := by
  unfold stepCaller
  split
  · next h => exact work_stepSubmitter_lt ready h
  · next stage h =>
    refine work_stepPass_lt (k := 1) ready h (fun s' keeps stage => by simp [callWork, keeps.store])
      fun s' o keeps => ?_
    have := work_answer_lt (keeps.ready ready) c (.evaluate o)
    rw [keeps.call, h] at this
    simp only [callWork, keeps.store] at this
    omega
  · next h =>
    split
    · exact Nat.lt_of_le_of_lt (Nat.le_add_right ..) (work_answer_lt ready c .run)
    · next lifecycle _ =>
      have : s.tickWork (s.nanos + s.interval.nanos) = 0 :=
        tickWork_of_lt (Nat.lt_add_of_pos_right s.interval_pos)
      refine work_setCall_lt (s := { s with lifecycle }) h ?_
      change s.tickWork (s.nanos + s.interval.nanos) + (if s.shutdown then 2 else 3) < 5
      split <;> omega
  · next h => exact work_stepLoop_lt ready h
  · next following stage h =>
    refine work_stepPass_lt (k := s.tickWork following + 4) ready h
      (fun s' keeps stage => ?_) fun s' o keeps => ?_
    · simp only [callWork, keeps.tickWork, keeps.store]
      omega
    · have := work_setCall_le s' c (.selecting following)
      rw [keeps.call, h] at this
      simp only [callWork, keeps.tickWork, keeps.store, keeps.shutdown] at this
      split at this <;> omega
  · next h =>
    split
    · exact Nat.lt_of_le_of_lt (Nat.le_add_right ..) (work_answer_lt ready c (.stop false))
    · next lifecycle _ =>
      exact Nat.lt_of_le_of_lt (work_signalShutdown_le _)
        (work_setCall_lt (s := { s with lifecycle }) (y := .polling) h (by simp [callWork]))
  · next h =>
    split
    · exact work_beginRelease_lt true (.inl h)
    · have := millis_pos s.drainPoll_pos
      refine work_setCall_lt h ?_
      simp only [callWork]
      rw [if_neg (by omega)]
      omega
  · next h =>
    split
    · next due =>
      exact work_setCall_lt (s := s.cancel _) h (by simp [callWork, cancel, due])
    · next wakeAt _ =>
      have := work_sleep ready (.caller c) wakeAt
      omega
  · next h => exact work_beginRelease_lt false (.inr h)
  · next h =>
    split
    · exact Nat.lt_of_le_of_lt (Nat.le_add_right ..)
        (work_answer_lt (s := { s with lifecycle := _ }) ready c (.stop true))
    · exact Nat.lt_of_le_of_lt (Nat.le_add_right ..) (work_answer_lt ready c .release)
  · next w ws h =>
    split
    · refine work_setCall_lt h ?_
      have := Pool.handleWork_pos s.pool.workers w
      simp [callWork, Pool.handlesWork]
      omega
    · have := work_wait ready
      omega
  · have := work_wait ready
    omega

theorem work_step_lt {s : Machine} (ready : s.ready ≠ []) : s.step.work < s.work := by
  unfold step
  split
  · next h => exact absurd (List.head?_eq_none_iff.1 h) ready
  · exact work_stepWorker_lt ready _
  · exact work_stepEvaluation_lt ready _
  · exact work_stepCaller_lt ready _

theorem run_of_ready_eq_nil {s : Machine} (h : s.ready = []) (n : Nat) : run n s = s := by
  cases n with
  | zero => rfl
  | succ n => simp [run, h]

theorem run_succ {s : Machine} (h : s.ready ≠ []) (n : Nat) : run (n + 1) s = run n s.step := by
  simp [run, h]

theorem ready_run {n : Nat} {s : Machine} (h : s.work ≤ n) : (run n s).ready = [] := by
  by_cases ready : s.ready = []
  · rwa [run_of_ready_eq_nil ready]
  · have := work_step_lt ready
    cases n with
    | zero => omega
    | succ n =>
      rw [run_succ ready]
      exact ready_run (by omega)

/-- Every agent waits in the end. -/
@[simp] theorem ready_settle (s : Machine) : s.settle.ready = [] := ready_run (Nat.le_refl _)

end Autoscaling.Machine
