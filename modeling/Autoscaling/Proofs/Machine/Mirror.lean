import Autoscaling.Proofs.Machine.Act
import Autoscaling.Proofs.Machine.Turns

/-!
Two pools that are told the same, where some evaluations panic in one and return at once in the
other. They go through the same states; only what is told of the ends of these evaluations differs.
-/

namespace Autoscaling

def Behaviour.Twin (b b' : Behaviour) : Prop :=
  b = b' ∨ b = .panics ∧ b' = .instant ∨ b = .instant ∧ b' = .panics

theorem Behaviour.Twin.symm {b b' : Behaviour} (twin : b.Twin b') : b'.Twin b :=
  twin.imp Eq.symm fun twin => twin.symm.imp And.symm And.symm

def Event.ofEvaluation : Event → Bool
  | .started _ | .finished _ | .panicked _ => true
  | _ => false

namespace Machine

def recast (s : Machine) (x : Scenario) (l : List (Nat × Event)) : Machine :=
  { s with scenario := x, journal := l }

section Recast

variable (s : Machine) (x : Scenario) (l : List (Nat × Event))

@[simp] theorem pool_recast : (s.recast x l).pool = s.pool := rfl

@[simp] theorem now_recast : (s.recast x l).now = s.now := rfl

@[simp] theorem ready_recast : (s.recast x l).ready = s.ready := rfl

@[simp] theorem timers_recast : (s.recast x l).timers = s.timers := rfl

@[simp] theorem calls_recast : (s.recast x l).calls = s.calls := rfl

@[simp] theorem call_recast (c : Nat) : (s.recast x l).call c = s.call c := rfl

@[simp] theorem shutdown_recast : (s.recast x l).shutdown = s.shutdown := rfl

@[simp] theorem evaluationLine_recast : (s.recast x l).evaluationLine = s.evaluationLine := rfl

@[simp] theorem work_recast : (s.recast x l).work = s.work := rfl

end Recast

variable {b b' : String → Behaviour} {s s' : Machine} {f : Machine → Machine} {c w : Nat}

structure Aloof (s : Machine) (f : Machine → Machine) : Prop where
  tells : ∃ told : List (Nat × Event), (∀ e ∈ told, e.2.ofEvaluation = false) ∧
    ∀ x l, f (s.recast x l) = (f s).recast x (told ++ l)
  ofPool : (∀ x ∈ s.calls, x.ofPool = true) → ∀ x ∈ (f s).calls, x.ofPool = true

theorem aloof_silent (same : ∀ x l, f (s.recast x l) = (f s).recast x l)
    (calls : (f s).calls = s.calls) : Aloof s f :=
  ⟨⟨[], nofun, same⟩, fun ofPool => calls ▸ ofPool⟩

theorem aloof_told {e : Nat × Event} (other : e.2.ofEvaluation = false)
    (same : ∀ x l, f (s.recast x l) = (f s).recast x (e :: l)) (calls : (f s).calls = s.calls) :
    Aloof s f :=
  ⟨⟨[e], fun _ mem => List.mem_singleton.1 mem ▸ other, same⟩, fun ofPool => calls ▸ ofPool⟩

theorem aloof_stepWorker (s : Machine) (w : Nat) : Aloof s (stepWorker · w) := by
  cases at_ : s.pool.worker w with
  | idle deadline =>
    generalize received : s.pool.receive w s.now deadline = r
    obtain ⟨p, woken, reception⟩ := r
    cases reception with
    | nothing | leaves =>
      refine aloof_silent (fun x l => ?_) ?_ <;>
        simp only [stepWorker, pool_recast, now_recast, at_, received] <;> rfl
    | item i =>
      refine aloof_told (e := (s.now, .taken i)) rfl (fun x l => ?_) ?_ <;>
        simp only [stepWorker, pool_recast, now_recast, at_, received] <;> rfl
  | holding i =>
    generalize looked : s.pool.dispatch w i s.shutdown = r
    obtain ⟨p, woken, reason⟩ := r
    cases reason with
    | none =>
      refine aloof_silent (fun x l => ?_) ?_ <;>
        simp only [stepWorker, pool_recast, shutdown_recast, at_, looked] <;> rfl
    | some r =>
      refine aloof_told (e := (s.now, .dropped i r)) rfl (fun x l => ?_) ?_ <;>
        simp only [stepWorker, pool_recast, shutdown_recast, at_, looked] <;> rfl
  | _ =>
    refine aloof_silent (fun x l => ?_) ?_ <;> simp only [stepWorker, pool_recast, at_] <;> rfl

theorem aloof_setCall (c : Nat) (x : Call) (told : List (Nat × Event)) (own : x.ofPool = true)
    (others : ∀ e ∈ told, e.2.ofEvaluation = false)
    (same : ∀ x l, f (s.recast x l) = (f s).recast x (told ++ l))
    (calls : (f s).calls = s.calls.set c x) : Aloof s f :=
  ⟨⟨told, others, same⟩, fun ofPool y mem =>
    (List.mem_or_eq_of_mem_set (calls ▸ mem)).elim (ofPool y) fun eq => eq ▸ own⟩

theorem aloof_stepSubmitter (s : Machine) (c : Nat) (items : List WorkItem) (entered : Bool) :
    Aloof s (stepSubmitter · c items entered) := by
  cases items with
  | nil => exact aloof_setCall c .returned [] rfl nofun (fun _ _ => rfl) rfl
  | cons i rest =>
    generalize submitted : s.pool.submit c i entered = r
    obtain ⟨p, woken, turn⟩ := r
    cases turn with
    | goOn | wait =>
      refine aloof_setCall c (.submitting (i :: rest) true) [] rfl nofun
        (fun x l => ?_) ?_ <;> simp only [stepSubmitter, submit, pool_recast, submitted] <;> rfl
    | accepted =>
      refine aloof_setCall c (.submitting rest false)
        [(s.now, .answered (.submit i.job true)), (s.now, .accepted i)] rfl
        (by simp [Event.ofEvaluation]) (fun x l => ?_) ?_ <;>
          simp only [stepSubmitter, submit, pool_recast, submitted] <;> rfl
    | refused =>
      refine aloof_setCall c (.submitting rest false)
        [(s.now, .answered (.submit i.job false)), (s.now, .refused i)] rfl
        (by simp [Event.ofEvaluation]) (fun x l => ?_) ?_ <;>
          simp only [stepSubmitter, submit, pool_recast, submitted] <;> rfl

theorem aloof_stepCaller (ofPool : (s.call c).ofPool = true) : Aloof s (stepCaller · c) := by
  cases call : s.call c with
  | submitting items entered =>
    obtain ⟨⟨told, others, same⟩, calls⟩ := aloof_stepSubmitter s c items entered
    refine ⟨⟨told, others, fun x l => ?_⟩, ?_⟩
    · simpa only [stepCaller, call_recast, call] using same x l
    · simpa only [stepCaller, call] using calls
  | releasing =>
    refine aloof_setCall c (.joining false s.pool.handles) [] rfl nofun
      (fun x l => ?_) ?_ <;> simp only [stepCaller, call_recast, call] <;> rfl
  | joining stop handles =>
    cases stop with
    | true =>
      rw [call] at ofPool
      cases ofPool
    | false =>
      cases handles with
      | nil =>
        refine aloof_setCall c .returned [(s.now, .answered .release)] rfl
          (by simp [Event.ofEvaluation]) (fun x l => ?_) ?_ <;>
            simp only [stepCaller, call_recast, call] <;> rfl
      | cons w ws =>
        by_cases gone : s.pool.worker w = .exited
        · refine aloof_setCall c (.joining false ws) [] rfl nofun (fun x l => ?_) ?_ <;>
            simp [stepCaller, call, gone] <;> rfl
        · refine aloof_silent (fun x l => ?_) ?_ <;> simp [stepCaller, call, gone] <;> rfl
  | returned =>
    refine aloof_silent (fun x l => ?_) ?_ <;> simp only [stepCaller, call_recast, call] <;> rfl
  | _ =>
    rw [call] at ofPool
    cases ofPool

theorem aloof_unhold {job : String} {entry : String × Nat}
    (found : s.evaluationLine.find? (·.1 = job) = some entry) : Aloof s (unhold · job) := by
  obtain ⟨j, w⟩ := entry
  cases at_ : s.pool.worker w <;> refine aloof_silent (fun x l => ?_) ?_ <;>
    simp only [unhold, evaluationLine_recast, found, freeEvaluation, pool_recast, at_] <;> rfl

theorem aloof_signalShutdown (s : Machine) : Aloof s signalShutdown := by
  cases signalled : s.shutdown <;> refine aloof_silent (fun x l => ?_) ?_ <;>
    simp only [signalShutdown, shutdown_recast, signalled, reduceIte] <;> rfl

inductive Echoes (b b' : String → Behaviour) : Nat × Event → Nat × Event → Prop
  | same : Echoes b b' e e
  | panicked (panics : b i.job = .panics) (returns : b' i.job = .instant) :
      Echoes b b' (t, .panicked i) (t, .finished i)
  | finished (returns : b i.job = .instant) (panics : b' i.job = .panics) :
      Echoes b b' (t, .finished i) (t, .panicked i)

structure Mirrors (b b' : String → Behaviour) (s s' : Machine) : Prop where
  same : s' = s.recast s'.scenario s'.journal
  permits : s'.scenario.permits = s.scenario.permits
  does : s.scenario.behaviour = b
  does' : s'.scenario.behaviour = b'
  journal : List.Forall₂ (Echoes b b') s.journal s'.journal
  ofPool : ∀ x ∈ s.calls, x.ofPool = true

namespace Mirrors

variable {i : WorkItem}

theorem pool_eq (mirrors : Mirrors b b' s s') : s'.pool = s.pool := by
  rw [mirrors.same, pool_recast]

theorem now_eq (mirrors : Mirrors b b' s s') : s'.now = s.now := by rw [mirrors.same, now_recast]

theorem ready_eq (mirrors : Mirrors b b' s s') : s'.ready = s.ready := by
  rw [mirrors.same, ready_recast]

theorem aloof (mirrors : Mirrors b b' s s') (aloof : Aloof s f) : Mirrors b b' (f s) (f s') := by
  obtain ⟨told, -, same⟩ := aloof.tells
  have own : f s = (f s).recast s.scenario (told ++ s.journal) := same s.scenario s.journal
  have other : f s' = (f s).recast s'.scenario (told ++ s'.journal) := by
    rw [mirrors.same]
    exact same _ _
  have scenario : (f s).scenario = s.scenario := by rw [own]; rfl
  have journal : (f s).journal = told ++ s.journal := by rw [own]; rfl
  constructor
  case same => rw [other]; rfl
  case permits => rw [other, scenario]; exact mirrors.permits
  case does => rw [scenario]; exact mirrors.does
  case does' => rw [other]; exact mirrors.does'
  case journal =>
    rw [other, journal]
    exact List.rel_append (List.forall₂_same.2 fun _ _ => .same) mirrors.journal
  case ofPool => exact aloof.ofPool mirrors.ofPool

theorem silent (mirrors : Mirrors b b' s s') (f : Machine → Machine)
    (same : ∀ x l, f (s.recast x l) = (f s).recast x l) (calls : (f s).calls = s.calls) :
    Mirrors b b' (f s) (f s') :=
  mirrors.aloof (aloof_silent same calls)

theorem log (mirrors : Mirrors b b' s s') {e e' : Event}
    (echo : Echoes b b' (s.now, e) (s.now, e')) : Mirrors b b' (s.log e) (s'.log e') where
  same := by rw [mirrors.same]; rfl
  permits := mirrors.permits
  does := mirrors.does
  does' := mirrors.does'
  journal := .cons (mirrors.now_eq ▸ echo) mirrors.journal
  ofPool := mirrors.ofPool

theorem direct (mirrors : Mirrors b b' s s') (x x' : Scenario) (permits : x'.permits = x.permits)
    (does : x.behaviour = s.scenario.behaviour) (does' : x'.behaviour = s'.scenario.behaviour) :
    Mirrors b b' (s.direct fun _ => x) (s'.direct fun _ => x') where
  same := by rw [mirrors.same]; rfl
  permits := permits
  does := does.trans mirrors.does
  does' := does'.trans mirrors.does'
  journal := mirrors.journal
  ofPool := mirrors.ofPool

theorem endEvaluation (mirrors : Mirrors b b' s s') (w : Nat) (i : WorkItem) :
    Mirrors b b' (s.endEvaluation w i) (s'.endEvaluation w i) :=
  mirrors.silent (Machine.endEvaluation · w i) (fun _ _ => rfl) rfl

theorem finishEvaluation (mirrors : Mirrors b b' s s') (w : Nat) (i : WorkItem) :
    Mirrors b b' (s.finishEvaluation w i) (s'.finishEvaluation w i) := by
  obtain ⟨x, permits, does, eq⟩ := finishEvaluation_eq s w i
  obtain ⟨x', permits', does', eq'⟩ := finishEvaluation_eq s' w i
  rw [eq, eq']
  have told := mirrors.log (.same (e := (s.now, .finished i)))
  have same := told.direct x x' ((permits'.trans mirrors.permits).trans permits.symm) does does'
  exact same.endEvaluation w i

theorem panicked (mirrors : Mirrors b b' s s') (w : Nat) (panics : b i.job = .panics)
    (returns : b' i.job = .instant) :
    Mirrors b b' ((s.log (.panicked i)).endEvaluation w i) (s'.finishEvaluation w i) := by
  obtain ⟨x', permits', does', eq'⟩ := finishEvaluation_eq s' w i
  rw [eq']
  have told := mirrors.log (.panicked (t := s.now) panics returns)
  have same := told.direct s.scenario x' (permits'.trans mirrors.permits) rfl does'
  exact same.endEvaluation w i

theorem finished (mirrors : Mirrors b b' s s') (w : Nat) (returns : b i.job = .instant)
    (panics : b' i.job = .panics) :
    Mirrors b b' (s.finishEvaluation w i) ((s'.log (.panicked i)).endEvaluation w i) := by
  obtain ⟨x, permits, does, eq⟩ := finishEvaluation_eq s w i
  rw [eq]
  have told := mirrors.log (.finished (t := s.now) returns panics)
  have same := told.direct x s'.scenario (mirrors.permits.trans permits.symm) does rfl
  exact same.endEvaluation w i

theorem begin (mirrors : Mirrors b b' s s') (twins : ∀ job, (b job).Twin (b' job))
    (runs : s.pool.worker w = .evaluating i .spawned) :
    Mirrors b b' (s.stepEvaluation w) (s'.stepEvaluation w) := by
  have runs' : s'.pool.worker w = .evaluating i .spawned := by rw [mirrors.pool_eq, runs]
  have begun := mirrors.log (.same (e := (s.now, .started i)))
  have does : (s.log (.started i)).scenario.behaviour i.job = b i.job := by rw [begun.does]
  have does' : (s'.log (.started i)).scenario.behaviour i.job = b' i.job := by rw [begun.does']
  simp only [stepEvaluation, runs, runs', does, does']
  rcases twins i.job with eq | ⟨panics, returns⟩ | ⟨returns, panics⟩
  · rw [← eq]
    cases b i.job with
    | instant => exact begun.finishEvaluation w i
    | takes millis =>
      rw [begun.now_eq]
      exact begun.silent (setProgress · w i _) (fun _ _ => rfl) rfl
    | panics => exact (begun.log .same).endEvaluation w i
    | held =>
      dsimp only
      rw [begun.permits]
      split
      · refine Mirrors.finishEvaluation ?_ w i
        refine begun.direct (s.scenario.spend i.job) (s'.scenario.spend i.job) ?_ rfl rfl
        exact congrArg (List.erase · i.job) begun.permits
      · exact begun.silent (fun s => ({ s with
          evaluationLine := s.evaluationLine ++ [(i.job, w)] }.setProgress w i .held).wait)
          (fun _ _ => rfl) rfl
  · rw [panics, returns]
    exact begun.panicked w panics returns
  · rw [panics, returns]
    exact begun.finished w returns panics

theorem stepEvaluation (mirrors : Mirrors b b' s s') (twins : ∀ job, (b job).Twin (b' job))
    (w : Nat) : Mirrors b b' (s.stepEvaluation w) (s'.stepEvaluation w) := by
  have waits : Mirrors b b' s.wait s'.wait :=
    mirrors.silent Machine.wait (fun _ _ => rfl) rfl
  cases at_ : s.pool.worker w with
  | evaluating i x =>
    cases x with
    | spawned => exact mirrors.begin twins at_
    | sleeping wakeAt =>
      simp only [Machine.stepEvaluation, mirrors.pool_eq, at_, mirrors.now_eq]
      split
      · exact mirrors.finishEvaluation w i
      · exact mirrors.silent (sleep · (.evaluation w) wakeAt) (fun _ _ => rfl) rfl
    | held =>
      simp only [Machine.stepEvaluation, mirrors.pool_eq, at_]
      exact waits
    | freed =>
      simp only [Machine.stepEvaluation, mirrors.pool_eq, at_]
      exact mirrors.finishEvaluation w i
  | _ =>
    simp only [Machine.stepEvaluation, mirrors.pool_eq, at_]
    exact waits

theorem step (mirrors : Mirrors b b' s s') (twins : ∀ job, (b job).Twin (b' job)) :
    Mirrors b b' s.step s'.step := by
  unfold Machine.step
  rw [mirrors.ready_eq]
  split
  · exact mirrors
  · next w _ => exact mirrors.aloof (aloof_stepWorker s w)
  · next w _ => exact mirrors.stepEvaluation twins w
  · next c _ =>
    refine mirrors.aloof (aloof_stepCaller ?_)
    simp only [call, List.getD_eq_getElem?_getD]
    cases at_ : s.calls[c]? with
    | none => rfl
    | some x => exact mirrors.ofPool x (List.mem_of_getElem? at_)

theorem symm (mirrors : Mirrors b b' s s') : Mirrors b' b s' s where
  same := by rw [mirrors.same]; rfl
  permits := mirrors.permits.symm
  does := mirrors.does'
  does' := mirrors.does
  journal := mirrors.journal.flip.imp fun _ _ echo => match echo with
    | .same => .same
    | .panicked panics returns => .finished returns panics
    | .finished returns panics => .panicked panics returns
  ofPool := by rw [mirrors.same]; exact mirrors.ofPool

theorem run (mirrors : Mirrors b b' s s') (twins : ∀ job, (b job).Twin (b' job)) (n : Nat) :
    Mirrors b b' (Machine.run n s) (Machine.run n s') := by
  induction n generalizing s s' with
  | zero => exact mirrors
  | succ n ih =>
    unfold Machine.run
    rw [mirrors.ready_eq]
    split
    · exact mirrors
    · exact ih (mirrors.step twins)

theorem settle (mirrors : Mirrors b b' s s') (twins : ∀ job, (b job).Twin (b' job)) :
    Mirrors b b' s.settle s'.settle := by
  have work : s'.work = s.work := by rw [mirrors.same, work_recast]
  unfold Machine.settle
  rw [work]
  exact mirrors.run twins s.work

theorem elapse (mirrors : Mirrors b b' s s') (t : Nat) : Mirrors b b' (s.elapse t) (s'.elapse t) :=
  mirrors.silent (Machine.elapse · t) (fun _ _ => rfl) rfl

theorem visitTimers (mirrors : Mirrors b b' s s') (twins : ∀ job, (b job).Twin (b' job))
    (target fuel : Nat) :
    Mirrors b b' (Machine.visitTimers target fuel s) (Machine.visitTimers target fuel s') := by
  have arrives {s s' : Machine} (mirrors : Mirrors b b' s s') :
      Mirrors b b' { s with now := target } { s' with now := target } :=
    mirrors.silent (fun s => { s with now := target }) (fun _ _ => rfl) rfl
  induction fuel generalizing s s' with
  | zero => exact arrives mirrors
  | succ fuel ih =>
    have timer : s'.nextTimer = s.nextTimer := by rw [mirrors.same]; rfl
    unfold Machine.visitTimers
    rw [timer, mirrors.now_eq]
    split
    · exact arrives mirrors
    · split
      · exact arrives mirrors
      · exact ih ((mirrors.elapse _).settle twins)

theorem apply (mirrors : Mirrors b b' s s') (twins : ∀ job, (b job).Twin (b' job)) {k : Command}
    (ofPool : k.isOfPool = true) : Mirrors b b' (s.apply k) (s'.apply k) := by
  have begins {x : Call} (own : x.ofPool = true) : Mirrors b b' (s.begin x) (s'.begin x) :=
    mirrors.aloof (f := (Machine.begin · x)) ⟨⟨[], nofun, fun _ _ => rfl⟩, fun ofPool y mem =>
      (List.mem_append.1 mem).elim (ofPool y) fun mem => List.mem_singleton.1 mem ▸ own⟩
  cases k with
  | submit items => exact begins rfl
  | release => exact begins rfl
  | advance millis =>
    simp only [Machine.apply, Machine.advance, mirrors.now_eq]
    exact mirrors.visitTimers twins _ _
  | unhold job =>
    cases found : s.evaluationLine.find? (·.1 = job) with
    | some entry => exact mirrors.aloof (aloof_unhold found)
    | none =>
      have line : s'.evaluationLine = s.evaluationLine := by
        rw [mirrors.same, evaluationLine_recast]
      simp only [Machine.apply, Machine.unhold, line, found]
      refine mirrors.direct (s.scenario.permit job) (s'.scenario.permit job) ?_ rfl rfl
      exact congrArg (· ++ [job]) mirrors.permits
  | shutdown => exact mirrors.aloof (aloof_signalShutdown s)
  | _ => cases ofPool

end Mirrors

end Machine
end Autoscaling
