import Autoscaling.Proofs.Machine.Act

namespace Autoscaling.Machine

variable {s s' : Machine} {a : Agent} {c : Nat} {woken : List Agent} {events : List Event}

theorem call_setCall_self (h : s.call c ≠ .returned) (x : Call) : (s.setCall c x).call c = x :=
  (call_setCall h x c).trans (if_pos rfl)

theorem Linked.new (linked : s.Linked) (none : (s.call c).item? = none) :
    ∀ t ∈ s.pool.submissions, t.caller ≠ c := by
  intro t mem eq
  have some := (linked c t.item).1 (Pool.mem_entries.2 ⟨t, mem, eq, rfl⟩)
  rw [none] at some
  cases some

theorem not_awake_caller (entries : ∀ i, (c, i) ∉ s.pool.entries)
    (settled : (s.call c).begins = false) : ¬ s.Awake (.caller c) := by
  rintro (⟨t, mem, eq, _⟩ | begins)
  · exact entries t.item (Pool.mem_entries.2 ⟨t, mem, eq, rfl⟩)
  · exact Bool.false_ne_true (settled.symm.trans begins)

theorem act_of_call (linked : s.Linked) (beside : Beside s (.caller c) woken [] s')
    (pool : s.pool.Move s.now s.shutdown (.caller c) woken [] s'.pool)
    (entries : s'.pool.entries = s.pool.entries) (line : s'.evaluationLine = s.evaluationLine)
    (before : (s.call c).item? = none) (after : (s'.call c).item? = none)
    (settled : (s'.call c).begins = false)
    (ofPool : (s.call c).ofPool = true →
      (s'.call c).ofPool = true ∧ (s.call c).pending = (s'.call c).pending) :
    Act s (.caller c) woken [] s' := by
  have none (i : WorkItem) : (c, i) ∉ s'.pool.entries := by
    rw [entries, linked c i, before]
    exact (nomatch ·)
  refine { beside with
    pool
    linked := ?linked
    goesOn := .inr (not_awake_caller none settled)
    held := fun _ _ eq => nomatch eq
    line := .inl line
    ofPool := ?ofPool }
  case linked =>
    intro d eq i
    cases eq
    rw [after]
    exact iff_of_false (none i) (nomatch ·)
  case ofPool =>
    intro d eq
    cases eq
    exact ofPool

theorem act_of_submits {i : WorkItem} {p : Pool} {turn : Pool.Turn}
    (spec : Pool.Submits s.now s.shutdown s.pool c i p woken turn)
    (beside : Beside s (.caller c) woken (turn.events i) s') (pool : s'.pool = p)
    (line : s'.evaluationLine = s.evaluationLine)
    (item : ∀ j, (s'.call c).item? = some j ↔ (turn = .goOn ∨ turn = .wait) ∧ i = j)
    (goesOn : turn ≠ .wait → s'.ready.head? = some (.caller c))
    (settled : turn = .wait → (s'.call c).begins = false)
    (ofPool : (s.call c).ofPool = true → (s'.call c).ofPool = true ∧
      (s.call c).pending = marked .accepted (turn.events i) ++ marked .refused (turn.events i) ++
        (s'.call c).pending) :
    Act s (.caller c) woken (turn.events i) s' := by
  subst pool
  refine { beside with
    pool := spec.move
    linked := ?linked
    goesOn := ?goesOn
    held := fun _ _ eq => nomatch eq
    line := .inl line
    ofPool := ?ofPool }
  case linked =>
    intro d eq j
    cases eq
    exact (spec.under j).trans (item j).symm
  case goesOn =>
    by_cases waits : turn = .wait
    · refine .inr ?_
      rintro (summons | begins)
      · exact spec.waits waits summons
      · exact Bool.false_ne_true ((settled waits).symm.trans begins)
    · exact .inl (goesOn waits)
  case ofPool =>
    intro d eq
    cases eq
    exact ofPool

theorem submit_spec (linked : s.Linked) (sound : s.pool.Sound) (c : Nat) (i : WorkItem)
    (entered : Bool) (under : ∀ j, (s.call c).item? = some j ↔ entered = true ∧ i = j) :
    ∃ p woken turn, Pool.Submits s.now s.shutdown s.pool c i p woken turn ∧
      Beside s (.caller c) woken (turn.events i) (s.submit c i entered).1 ∧
      (s.submit c i entered).1.pool = p ∧ (s.submit c i entered).2 = turn ∧
      (s.submit c i entered).1.evaluationLine = s.evaluationLine ∧
      (s.submit c i entered).1.calls = s.calls ∧
      ∀ a, s.ready.head? = some a → (s.submit c i entered).1.ready.head? = some a := by
  have spec := Pool.submits_submit s.now s.shutdown sound fun j => (linked c j).trans (under j)
  refine ⟨_, _, _, spec, ?_⟩
  unfold submit
  generalize s.pool.submit c i entered = r
  obtain ⟨p, woken, turn⟩ := r
  have woken' := ((Beside.refl s (.caller c)).pool p).wake woken
  have head := fun (a : Agent) (h : s.ready.head? = some a) =>
    head_ready_wake (s := { s with pool := p }) woken h
  cases turn with
  | accepted => exact ⟨woken'.log (.accepted i), rfl, rfl, rfl, rfl, head⟩
  | refused => exact ⟨woken'.log (.refused i), rfl, rfl, rfl, rfl, head⟩
  | goOn | wait => exact ⟨woken', rfl, rfl, rfl, rfl, head⟩

theorem act_stepSubmitter {items : List WorkItem} {entered : Bool} (linked : s.Linked)
    (sound : s.pool.Sound) (head : s.ready.head? = some (.caller c))
    (call : s.call c = .submitting items entered) :
    ∃ woken events, Act s (.caller c) woken events (s.stepSubmitter c items entered) := by
  have beside := Beside.refl s (.caller c)
  unfold stepSubmitter
  split
  · have after : ((s.setCall c .returned).wait).call c = .returned :=
      call_setCall_self (by simp [call]) _
    exact ⟨[], [], act_of_call linked ((beside.setCall _).wait head) .stay rfl rfl
      (by cases entered <;> simp [call, Call.item?]) (by simp [after, Call.item?])
      (by simp [after, Call.begins]) (by simp [after, call, Call.ofPool, Call.pending])⟩
  · next i rest =>
    obtain ⟨p, woken, turn, spec, beside, pool, eq, line, calls, heads⟩ :=
      submit_spec linked sound c i entered fun j => by
        cases entered <;> simp [call, Call.item?]
    generalize s.submit c i entered = r at *
    obtain ⟨s₁, turn₁⟩ := r
    dsimp only at beside pool eq line calls heads
    subst eq
    have ne : s₁.call c ≠ .returned := by
      have : s₁.call c = s.call c := congrArg (·.getD c Call.returned) calls
      simp [this, call]
    have after (x : Call) : (s₁.setCall c x).call c = x := call_setCall_self ne x
    cases turn₁ with
    | goOn =>
      refine ⟨woken, _, act_of_submits spec (beside.setCall _) pool line ?_ (fun _ => heads _ head)
        (by simp) fun _ => ?_⟩
      · simp [after, Call.item?]
      · simp [after, call, Call.ofPool, Call.pending, Pool.Turn.events]
    | wait =>
      refine ⟨woken, _, act_of_submits spec ((beside.setCall _).wait (heads _ head)) pool line ?_
        (absurd rfl) (fun _ => ?_) fun _ => ?_⟩
      · change ∀ j, ((s₁.setCall c _).call c).item? = some j ↔ _
        simp [after, Call.item?]
      · exact congrArg Call.begins (after _)
      · change ((s₁.setCall c _).call c).ofPool = true ∧ _ = _ ++ ((s₁.setCall c _).call c).pending
        simp [after, call, Call.ofPool, Call.pending, Pool.Turn.events]
    | accepted | refused =>
      refine ⟨woken, _, act_of_submits spec ((beside.setCall _).log (.answered _)) pool line ?_
        (fun _ => heads _ head) (by simp) fun _ => ?_⟩
      · change ∀ j, ((s₁.setCall c _).call c).item? = some j ↔ _
        simp [after, Call.item?]
      · change ((s₁.setCall c _).call c).ofPool = true ∧ _ = _ ++ ((s₁.setCall c _).call c).pending
        simp [after, call, Call.ofPool, Call.pending, Pool.Turn.events, Event.marked?, Event.mark?]

structure Aside (s s' : Machine) : Prop where
  pool : s'.pool = s.pool
  ready : s'.ready = s.ready
  calls : s'.calls = s.calls
  evaluationLine : s'.evaluationLine = s.evaluationLine
  beside : ∀ a, Beside s a [] [] s'

theorem Aside.refl (s : Machine) : Aside s s := ⟨rfl, rfl, rfl, rfl, Beside.refl s⟩

theorem Aside.call (h : Aside s s') (c : Nat) : s'.call c = s.call c :=
  congrArg (·.getD c Call.returned) h.calls

theorem aside_of (pool : s'.pool = s.pool) (ready : s'.ready = s.ready) (calls : s'.calls = s.calls)
    (line : s'.evaluationLine = s.evaluationLine) (itemEvents : s'.itemEvents = s.itemEvents)
    (now : s'.now = s.now) (shutdown : s'.shutdown = s.shutdown) (timers : s'.timers = s.timers) :
    Aside s s' := by
  refine ⟨pool, ready, calls, line, fun a => ⟨?_, now, ?_, ?_, ?_, ?_, ?_⟩⟩
  · rw [itemEvents, List.append_nil]
  · rw [shutdown]
    exact id
  · rw [ready]
    exact fun _ _ h => h.resolve_right (nomatch ·)
  · rw [timers]
    exact fun _ _ _ => id
  · exact fun c _ => congrArg (·.getD c Call.returned) calls
  · rw [calls]

def Quiet (turn : Pass.Turn) : Prop :=
  ∀ next, turn = .goOn next ∨ turn = .wait next → next.item? = none

theorem quiet_decide (p : Pass) (check : Check) : Quiet (.goOn (p.decide check)) := by
  rintro next (eq | eq)
  · cases eq
    unfold Pass.decide
    split <;> rfl
  · cases eq

theorem quiet_goOn {stage : Pass.Stage} (h : stage.item? = none) : Quiet (.goOn stage) := by
  rintro next (eq | eq) <;> cases eq
  exact h

theorem quiet_wait {stage : Pass.Stage} (h : stage.item? = none) : Quiet (.wait stage) := by
  rintro next (eq | eq) <;> cases eq
  exact h

theorem quiet_ended (o : Outcome) : Quiet (.ended o) := by
  rintro next (eq | eq) <;> cases eq

theorem aside_passStep (s : Machine) (c : Nat) {stage : Pass.Stage}
    (other : ∀ p i entered, stage ≠ .submitting p i entered) :
    Aside s (Pass.step s c stage).1 ∧ Quiet (Pass.step s c stage).2 := by
  have told (e : Event) (quiet : e.mark? = none) : (s.log e).itemEvents = s.itemEvents := by
    simp [itemEvents_log, quiet]
  cases stage with
  | opening =>
    simp only [Pass.step, Pass.openStep]
    split
    · exact ⟨.refl s, quiet_ended _⟩
    · split
      · exact ⟨aside_of rfl rfl rfl rfl (told .read rfl) rfl rfl rfl, quiet_ended _⟩
      · split
        · exact ⟨aside_of rfl rfl rfl rfl (told .read rfl) rfl rfl rfl, quiet_ended _⟩
        · exact ⟨aside_of rfl rfl rfl rfl (told .read rfl) rfl rfl rfl, quiet_goOn rfl⟩
  | visiting p =>
    simp only [Pass.step, Pass.visitStep, Pass.complete]
    repeat' split
    all_goals
      first
      | exact ⟨aside_of rfl rfl rfl rfl rfl rfl rfl rfl, quiet_ended _⟩
      | exact ⟨.refl s, quiet_goOn rfl⟩
  | checking q p check =>
    simp only [Pass.step, Pass.checkStep]
    split
    · exact ⟨.refl s, quiet_decide p check⟩
    · next group policy _ _ =>
      have asked := told (q.asked check.job group policy.cooldown) (Query.mark?_asked ..)
      split
      · exact ⟨aside_of rfl rfl rfl rfl asked rfl rfl rfl, quiet_goOn rfl⟩
      · split
        · exact ⟨aside_of rfl rfl rfl rfl asked rfl rfl rfl, quiet_goOn rfl⟩
        · exact ⟨aside_of rfl rfl rfl rfl asked rfl rfl rfl, quiet_wait rfl⟩
  | held q p check => exact ⟨.refl s, quiet_wait rfl⟩
  | answering q p check =>
    simp only [Pass.step, Pass.answerStep]
    split
    · exact ⟨.refl s, quiet_decide p check⟩
    · split
      · exact ⟨.refl s, quiet_decide p check⟩
      · cases q <;> exact ⟨.refl s, quiet_goOn rfl⟩
  | submitting p i entered => exact absurd rfl (other p i entered)

structure Carries (within : Pass.Stage → Call) : Prop where
  item : ∀ stage, (within stage).item? = stage.item?
  begins : ∀ stage, (within stage).begins = false
  ofPool : ∀ stage, (within stage).ofPool = false

theorem carries_evaluating : Carries .evaluating := ⟨fun _ => rfl, fun _ => rfl, fun _ => rfl⟩

theorem carries_ticking (next : Nat) : Carries (.ticking next) :=
  ⟨fun _ => rfl, fun _ => rfl, fun _ => rfl⟩

section

variable {within : Pass.Stage → Call} {ended : Machine → Outcome → Machine} {stage : Pass.Stage}

theorem Carries.ne_returned (carries : Carries within) (stage : Pass.Stage) :
    within stage ≠ .returned := by
  intro eq
  have outside := carries.ofPool stage
  rw [eq] at outside
  cases outside

theorem act_stepPass_submitting {p : Pass} {i : WorkItem} {entered : Bool}
    (carries : Carries within) (linked : s.Linked) (sound : s.pool.Sound)
    (head : s.ready.head? = some (.caller c)) (call : s.call c = within (.submitting p i entered)) :
    ∃ woken events,
      Act s (.caller c) woken events (s.stepPass c (.submitting p i entered) within ended) := by
  have outside (h : (s.call c).ofPool = true) {q : Prop} : q := by
    rw [call, carries.ofPool] at h
    cases h
  obtain ⟨pool', woken, turn, spec, beside, pool, eq, line, calls, heads⟩ :=
    submit_spec linked sound c i entered fun j => by
      rw [call, carries.item]
      cases entered <;> simp [Pass.Stage.item?]
  unfold stepPass
  simp only [Pass.step, Pass.submitStep]
  generalize s.submit c i entered = r at *
  obtain ⟨s₁, turn₁⟩ := r
  dsimp only at beside pool eq line calls heads
  subst eq
  have ne : s₁.call c ≠ .returned := by
    have same : s₁.call c = s.call c := congrArg (·.getD c Call.returned) calls
    rw [same, call]
    exact carries.ne_returned _
  have after (x : Call) : (s₁.setCall c x).call c = x := call_setCall_self ne x
  cases turn₁ with
  | wait =>
    refine ⟨woken, _, act_of_submits spec ((beside.setCall _).wait (heads _ head)) pool line ?_
      (absurd rfl) (fun _ => ?_) fun h => outside h⟩
    · change ∀ j, ((s₁.setCall c _).call c).item? = some j ↔ _
      simp [after, carries.item, Pass.Stage.item?]
    · exact (congrArg Call.begins (after _)).trans (carries.begins _)
  | goOn | accepted | refused =>
    refine ⟨woken, _, act_of_submits spec (beside.setCall _) pool line ?_
      (fun _ => heads _ head) (by simp) fun h => outside h⟩
    simp [after, carries.item, Pass.Stage.item?]

theorem act_stepPass_of_ne (carries : Carries within) (linked : s.Linked)
    (other : ∀ p i entered, stage ≠ .submitting p i entered)
    (head : s.ready.head? = some (.caller c)) (call : s.call c = within stage)
    (last : ∀ s' o, Aside s s' → (s.call c).item? = none →
      Act s (.caller c) [] [] (ended s' o)) :
    ∃ woken events, Act s (.caller c) woken events (s.stepPass c stage within ended) := by
  have outside (h : (s.call c).ofPool = true) {q : Prop} : q := by
    rw [call, carries.ofPool] at h
    cases h
  have aside := aside_passStep s c other
  have before : (s.call c).item? = none := by
    rw [call, carries.item]
    unfold Pass.Stage.item?
    split
    · exact absurd rfl (other _ _ _)
    · rfl
  unfold stepPass
  generalize Pass.step s c stage = r at aside
  obtain ⟨s₁, turn⟩ := r
  obtain ⟨aside, quiet⟩ := aside
  have ne : s₁.call c ≠ .returned := by
    rw [aside.call, call]
    exact carries.ne_returned _
  have after (x : Call) : (s₁.setCall c x).call c = x := call_setCall_self ne x
  have pool : s.pool.Move s.now s.shutdown (.caller c) [] [] s₁.pool := by
    rw [aside.pool]
    exact .stay
  cases turn with
  | goOn next =>
    refine ⟨[], [], act_of_call linked ((aside.beside _).setCall _) pool
      (congrArg Pool.entries aside.pool) aside.evaluationLine before ?_ ?_ fun h => outside h⟩
    · rw [after, carries.item]
      exact quiet next (.inl rfl)
    · rw [after, carries.begins]
  | wait next =>
    have head : s₁.ready.head? = some (.caller c) := by rwa [aside.ready]
    have after : ((s₁.setCall c (within next)).wait).call c = within next := after _
    refine ⟨[], [], act_of_call linked (((aside.beside _).setCall _).wait head) pool
      (congrArg Pool.entries aside.pool) aside.evaluationLine before ?_ ?_ fun h => outside h⟩
    · rw [after, carries.item]
      exact quiet next (.inr rfl)
    · rw [after, carries.begins]
  | ended o => exact ⟨[], [], last s₁ o aside before⟩

theorem act_stepPass (carries : Carries within) (linked : s.Linked) (sound : s.pool.Sound)
    (head : s.ready.head? = some (.caller c)) (call : s.call c = within stage)
    (last : ∀ s' o, Aside s s' → (s.call c).item? = none →
      Act s (.caller c) [] [] (ended s' o)) :
    ∃ woken events, Act s (.caller c) woken events (s.stepPass c stage within ended) := by
  cases stage with
  | submitting p i entered => exact act_stepPass_submitting carries linked sound head call
  | _ => exact act_stepPass_of_ne carries linked (by simp) head call last

end

theorem call_setCall_returned (s : Machine) (c : Nat) :
    (s.setCall c .returned).call c = .returned := by
  by_cases h : s.call c = .returned
  · simp only [call, setCall, List.getD_eq_getElem?_getD, List.getElem?_set_self'] at h ⊢
    cases s.calls[c]? <;> rfl
  · exact call_setCall_self h _

theorem act_answer (linked : s.Linked) (beside : Beside s (.caller c) [] [] s')
    (head : s'.ready.head? = some (.caller c)) (pool : s'.pool = s.pool)
    (line : s'.evaluationLine = s.evaluationLine) (before : (s.call c).item? = none)
    (pending : (s.call c).pending = []) (answer : Answer) :
    Act s (.caller c) [] [] (s'.answer c answer) := by
  have after : (s'.answer c answer).call c = .returned := call_setCall_returned s' c
  refine act_of_call linked (((beside.setCall _).log (.answered answer)).wait head) ?_
    (congrArg Pool.entries pool) line before ?_ ?_ fun _ => ?_
  · change s.pool.Move _ _ _ _ _ s'.pool
    rw [pool]
    exact .stay
  · rw [after]
    rfl
  · rw [after]
    rfl
  · rw [after, pending]
    exact ⟨rfl, rfl⟩

theorem act_setCall (linked : s.Linked) (beside : Beside s (.caller c) [] [] s')
    (pool : s'.pool = s.pool) (line : s'.evaluationLine = s.evaluationLine)
    (ne : s'.call c ≠ .returned) (before : (s.call c).item? = none) {x : Call}
    (after : x.item? = none) (settled : x.begins = false)
    (ofPool : (s.call c).ofPool = true → x.ofPool = true ∧ (s.call c).pending = x.pending) :
    Act s (.caller c) [] [] (s'.setCall c x) := by
  have now := call_setCall_self ne x
  refine act_of_call linked (beside.setCall x) ?_ (congrArg Pool.entries pool) line before ?_ ?_ ?_
  · change s.pool.Move _ _ _ _ _ s'.pool
    rw [pool]
    exact .stay
  all_goals rwa [now]

theorem act_wait (linked : s.Linked) (head : s.ready.head? = some (.caller c))
    (before : (s.call c).item? = none) (settled : (s.call c).begins = false) :
    Act s (.caller c) [] [] s.wait :=
  act_of_call linked ((Beside.refl s _).wait head) .stay rfl rfl before before settled
    fun ofPool => ⟨ofPool, rfl⟩

theorem act_sleep (linked : s.Linked) (head : s.ready.head? = some (.caller c))
    (before : (s.call c).item? = none) (settled : (s.call c).begins = false) (wakeAt : Nat) :
    Act s (.caller c) [] [] (s.sleep (.caller c) wakeAt) :=
  act_of_call linked ((Beside.refl s _).sleep head wakeAt) .stay rfl rfl before before settled
    fun ofPool => ⟨ofPool, rfl⟩

theorem act_beginRelease (linked : s.Linked) {stop : Bool}
    (call : s.call c = .polling ∧ stop = true ∨ s.call c = .releasing ∧ stop = false) :
    ∃ woken events, Act s (.caller c) woken events (s.beginRelease c stop) := by
  have before : (s.call c).item? = none := by rcases call with ⟨eq, _⟩ | ⟨eq, _⟩ <;> rw [eq] <;> rfl
  have ne : s.call c ≠ .returned := by rcases call with ⟨eq, _⟩ | ⟨eq, _⟩ <;> simp [eq]
  have after : (s.beginRelease c stop).call c = .joining stop s.pool.handles :=
    call_setCall_self (s := { s with pool := s.pool.release.1 }) ne _
  have entries : s.pool.release.1.entries = s.pool.entries := by
    rw [Pool.release_fst]
    rfl
  have beside := (((Beside.refl s (.caller c)).pool s.pool.release.1).setCall
    (.joining stop s.pool.handles)).wake s.pool.release.2
  refine ⟨_, [], act_of_call linked beside (.release (linked.new before)) entries rfl before ?_ ?_
    fun ofPool => ?_⟩
  · rw [after]
    rfl
  · rw [after]
    rfl
  · rw [after]
    rcases call with ⟨eq, rfl⟩ | ⟨eq, rfl⟩
    · rw [eq] at ofPool
      cases ofPool
    · rw [eq]
      exact ⟨rfl, rfl⟩

theorem act_stepLoop (linked : s.Linked) (head : s.ready.head? = some (.caller c)) {tick : Nat}
    (call : s.call c = .selecting tick) : Act s (.caller c) [] [] (s.stepLoop c tick) := by
  have beside := Beside.refl s (.caller c)
  have before : (s.call c).item? = none := by rw [call]; rfl
  have ne : s.call c ≠ .returned := by simp [call]
  have outside : (s.call c).ofPool ≠ true := by simp [call, Call.ofPool]
  unfold stepLoop
  split
  · exact act_answer linked (beside.lifecycle s.lifecycle.markLoopExited).cancel head rfl rfl before
      (by rw [call]; rfl) _
  · split
    · exact act_setCall linked (beside.cancel.log .ticked) rfl rfl ne before rfl rfl
        fun h => absurd h outside
    · exact act_sleep linked head before (by rw [call]; rfl) _

theorem act_stop (linked : s.Linked) (head : s.ready.head? = some (.caller c))
    (call : s.call c = .stopping) : Act s (.caller c) [] [] (s.stepCaller c) := by
  have beside := Beside.refl s (.caller c)
  have before : (s.call c).item? = none := by rw [call]; rfl
  have ne : s.call c ≠ .returned := by simp [call]
  simp only [stepCaller, call]
  split
  · exact act_answer linked beside head rfl rfl before (by rw [call]; rfl) _
  · next lifecycle _ =>
    have asked := ((beside.lifecycle lifecycle).setCall .polling).signalShutdown
    have after : (({ s with lifecycle }.setCall c .polling).signalShutdown).call c = .polling := by
      rw [call_signalShutdown]
      exact call_setCall_self (s := { s with lifecycle }) ne .polling
    have pool : ({ s with lifecycle }.setCall c .polling).signalShutdown.pool = s.pool :=
      pool_signalShutdown _
    refine act_of_call linked asked ?_ (congrArg _ pool) (evaluationLine_signalShutdown _)
      before ?_ ?_ ?_
    · rw [pool]
      exact .stay
    · rw [after]
      rfl
    · rw [after]
      rfl
    · simp [call, Call.ofPool]

theorem act_join {stop : Bool} {handles : List Nat} (linked : s.Linked)
    (head : s.ready.head? = some (.caller c)) (call : s.call c = .joining stop handles) :
    Act s (.caller c) [] [] (s.stepCaller c) := by
  have beside := Beside.refl s (.caller c)
  have before : (s.call c).item? = none := by rw [call]; rfl
  have none : (s.call c).pending = [] := by rw [call]; rfl
  simp only [stepCaller, call]
  cases handles with
  | nil =>
    cases stop with
    | true =>
      exact act_answer linked (beside.lifecycle s.lifecycle.markStopped) head rfl rfl before none _
    | false => exact act_answer linked beside head rfl rfl before none _
  | cons w ws =>
    dsimp only
    split
    · refine act_setCall linked beside rfl rfl (by simp [call]) before rfl rfl fun h => ?_
      rw [call] at h ⊢
      cases stop with
      | true => cases h
      | false => exact ⟨rfl, rfl⟩
    · exact act_wait linked head before (by rw [call]; rfl)

theorem act_stepCaller (linked : s.Linked) (sound : s.pool.Sound)
    (head : s.ready.head? = some (.caller c)) :
    ∃ woken events, Act s (.caller c) woken events (s.stepCaller c) := by
  have beside := Beside.refl s (.caller c)
  cases call : s.call c with
  | submitting items entered =>
    simp only [stepCaller, call]
    exact act_stepSubmitter linked sound head call
  | evaluating stage =>
    simp only [stepCaller, call]
    exact act_stepPass carries_evaluating linked sound head call fun s' o aside before =>
      act_answer linked (aside.beside _) (by rwa [aside.ready]) aside.pool aside.evaluationLine
        before (by rw [call]; rfl) _
  | ticking following stage =>
    simp only [stepCaller, call]
    exact act_stepPass (carries_ticking following) linked sound head call fun s' o aside before =>
      act_setCall linked (aside.beside _) aside.pool aside.evaluationLine
        (by simp [aside.call, call]) before rfl rfl (by simp [call, Call.ofPool])
  | entering =>
    have before : (s.call c).item? = none := by rw [call]; rfl
    simp only [stepCaller, call]
    split
    · exact ⟨[], [], act_answer linked beside head rfl rfl before (by rw [call]; rfl) _⟩
    · next lifecycle _ =>
      exact ⟨[], [], act_setCall linked (beside.lifecycle lifecycle) rfl rfl
        (by change s.call c ≠ _; simp [call]) before rfl rfl (by simp [call, Call.ofPool])⟩
  | selecting tick =>
    simp only [stepCaller, call]
    exact ⟨[], [], act_stepLoop linked head call⟩
  | stopping => exact ⟨[], [], act_stop linked head call⟩
  | polling =>
    simp only [stepCaller, call]
    split
    · exact act_beginRelease linked (.inl ⟨call, rfl⟩)
    · exact ⟨[], [], act_setCall linked beside rfl rfl (by simp [call]) (by rw [call]; rfl) rfl rfl
        (by simp [call, Call.ofPool])⟩
  | sleeping wakeAt =>
    have before : (s.call c).item? = none := by rw [call]; rfl
    simp only [stepCaller, call]
    split
    · exact ⟨[], [], act_setCall linked beside.cancel rfl rfl (by change s.call c ≠ _; simp [call])
        before rfl rfl (by simp [call, Call.ofPool])⟩
    · exact ⟨[], [], act_sleep linked head before (by rw [call]; rfl) wakeAt⟩
  | releasing =>
    simp only [stepCaller, call]
    exact act_beginRelease linked (.inr ⟨call, rfl⟩)
  | joining stop handles => exact ⟨[], [], act_join linked head call⟩
  | returned =>
    simp only [stepCaller, call]
    exact ⟨[], [], act_wait linked head (by rw [call]; rfl) (by rw [call]; rfl)⟩

theorem act_step (linked : s.Linked) (sound : s.pool.Sound) (head : s.ready.head? = some a) :
    ∃ woken events, Act s a woken events s.step := by
  unfold step
  rw [head]
  cases a with
  | worker w => exact act_stepWorker head sound
  | evaluation w => exact act_stepEvaluation head
  | caller c => exact act_stepCaller linked sound head

end Autoscaling.Machine
