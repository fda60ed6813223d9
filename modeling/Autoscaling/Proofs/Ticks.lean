import Autoscaling.Proofs.Machine.Gate
import Autoscaling.Proofs.Machine.Governed

namespace Autoscaling.Machine

variable {rule : Rule} {entered start s : Machine} {turn : Option Agent}

def OnGrid (entered : Machine) (tick : Nat) : Prop :=
  ∃ k, 1 ≤ k ∧ tick = entered.nanos + k * entered.interval.nanos

theorem OnGrid.next {due : Nat} (grid : entered.OnGrid due) (now : Nat) :
    entered.OnGrid (nextTick due now entered.interval.nanos) := by
  obtain ⟨k, pos, rfl⟩ := grid
  unfold OnGrid nextTick
  generalize entered.interval.nanos = period
  split
  · next late =>
    generalize eq : now - (entered.nanos + k * period) = lateness
    refine ⟨k + (lateness / period + 1), Nat.le_trans pos (Nat.le_add_right ..), ?_⟩
    have := Nat.div_add_mod lateness period
    have : (k + (lateness / period + 1)) * period =
        k * period + (period * (lateness / period) + period) := by
      rw [Nat.add_mul, Nat.add_mul, Nat.one_mul, Nat.mul_comm (lateness / period)]
    rw [this]
    omega
  · exact ⟨k + 1, Nat.le_add_left .., by rw [Nat.add_mul, Nat.one_mul, Nat.add_assoc]⟩

theorem ceilMillis_le {due now : Nat} (reached : due ≤ now * 10 ^ 6) : ceilMillis due ≤ now := by
  unfold ceilMillis
  omega

theorem le_ceilMillis {due now : Nat} (early : now * 10 ^ 6 ≤ due) : now ≤ ceilMillis due := by
  unfold ceilMillis
  omega

abbrev looper (entered : Machine) : Agent := .caller entered.calls.length

def PassEnds (rule : Rule) (entered : Machine) (due : Nat) (s : Machine) : Prop :=
  ∃ cs stage, Run rule (entered.apply .run) cs (some entered.looper) s ∧
    s.call entered.calls.length = .ticking due stage ∧
    s.step.call entered.calls.length = .selecting due

inductive Paces (rule : Rule) (entered : Machine) (turn : Option Agent) (s : Machine) : Call → Prop
  | enters (now : s.now = entered.now) (ready : entered.looper ∈ s.ready) :
      Paces rule entered turn s .entering
  | waits (grid : entered.OnGrid tick) (early : s.now ≤ ceilMillis tick)
      (awake : turn = some entered.looper ∨ (ceilMillis tick, entered.looper) ∈ s.timers ∨
        entered.looper ∈ s.ready) :
      Paces rule entered turn s (.selecting tick)
  | returns (grid : entered.OnGrid tick) (own : turn = some entered.looper)
      (ends : PassEnds rule entered tick s') (here : s = s'.step) :
      Paces rule entered turn s (.selecting tick)
  | opens {due : Nat} (grid : entered.OnGrid due) (reached : due ≤ s.nanos)
      (own : turn = some entered.looper)
      (served : s.now = ceilMillis due ∨ ∃ s', PassEnds rule entered due s' ∧ s = s'.step.step)
      (next : tick = nextTick due s.nanos entered.interval.nanos) :
      Paces rule entered turn s (.ticking tick .opening)
  | passes (grid : entered.OnGrid tick) (begun : stage.hasBegun = true) :
      Paces rule entered turn s (.ticking tick stage)
  | gone : Paces rule entered turn s .returned

variable {s' : Machine} {a : Agent} {cs cs' : List Command} {woken : List Agent}
  {events : List Event} {tick next : Nat}

namespace Paces

variable {x : Call}

theorem act (paces : Paces rule entered (some a) s x) (act : Act s a woken events s')
    (other : a ≠ entered.looper) : Paces rule entered turn s' x := by
  have notOwn : some a ≠ some entered.looper := fun eq => other (Option.some.inj eq)
  cases paces with
  | enters now ready => exact .enters (act.now.trans now) (act.ready _ other.symm (.inl ready))
  | waits grid early awake =>
    refine .waits grid (act.now ▸ early) (.inr ?_)
    exact (awake.resolve_left notOwn).imp (act.timers _ _ other.symm)
      fun ready => act.ready _ other.symm (.inl ready)
  | returns _ own | opens _ _ own => exact absurd own notOwn
  | passes grid begun => exact .passes grid begun
  | gone => exact .gone

theorem frame (paces : Paces rule entered none s x) (now : s'.now = s.now)
    (ready : ∀ b ∈ s.ready, b ∈ s'.ready) (timers : s'.timers = s.timers) :
    Paces rule entered turn s' x := by
  cases paces with
  | enters now' ready' => exact .enters (now.trans now') (ready _ ready')
  | waits grid early awake =>
    refine .waits grid (now ▸ early) (.inr ?_)
    rw [timers]
    exact (awake.resolve_left nofun).imp_right (ready _)
  | returns _ own | opens _ _ own => cases own
  | passes grid begun => exact .passes grid begun
  | gone => exact .gone

theorem freeCall (paces : Paces rule entered none s x) :
    Paces rule entered none s (Machine.freeCall x) := by
  cases paces with
  | opens _ _ own => cases own
  | @passes _ stage grid begun =>
    refine .passes grid ?_
    cases stage <;> first | rfl | cases begun
  | enters now ready => exact .enters now ready
  | waits grid early awake => exact .waits grid early awake
  | returns grid own ends here => exact .returns grid own ends here
  | gone => exact .gone

theorem elapse {t : Nat} (paces : Paces rule entered none s x) (settled : s.ready = [])
    (timely : ∀ timer ∈ s.timers, t ≤ timer.1) : Paces rule entered none (s.elapse t) x := by
  cases paces with
  | enters _ ready =>
    rw [settled] at ready
    cases ready
  | @waits tick grid early awake =>
    have timer : (ceilMillis tick, entered.looper) ∈ s.timers := by
      rw [settled] at awake
      simpa using awake
    refine .waits grid (timely _ timer) (.inr ?_)
    -- The timer is kept until it is due, and then wakes the loop.
    rcases Nat.lt_or_ge t (ceilMillis tick) with before | due
    · exact .inl (List.mem_filter.2 ⟨timer, decide_eq_true before⟩)
    · refine .inr ((mem_ready_wake _).2 (.inr ?_))
      exact List.mem_map.2 ⟨_, List.mem_filter.2 ⟨timer, decide_eq_true due⟩, rfl⟩
  | returns _ own | opens _ _ own => cases own
  | passes grid begun => exact .passes grid begun
  | gone => exact .gone

end Paces

theorem ticking_cases {c : Nat} {stage : Pass.Stage} (head : s.ready.head? = some (.caller c))
    (call : s.call c = .ticking next stage) :
    (∃ stage', stage'.hasBegun = true ∧ s.step.call c = .ticking next stage') ∨
      (s.step.call c = .selecting next ∧ s.step.ready.head? = some (.caller c)) := by
  have same := (moves_step s c stage).keeps.call c
  have strides := (Pass.walks_step s c stage).strides
  have kept := (Pass.treads_step s c stage).head _ head
  have step : s.step =
      s.stepPass c stage (.ticking next) fun s _ => s.setCall c (.selecting next) := by
    rw [step_of_caller head, stepCaller, call]
  rw [step]
  unfold stepPass
  generalize Pass.step s c stage = r at same strides kept
  obtain ⟨s₁, turn⟩ := r
  dsimp only at same strides kept
  have set (x : Call) : (s₁.setCall c x).call c = x :=
    call_setCall_self (by rw [same, call]; simp) x
  generalize s₁.lifecycle = l at strides
  cases strides with
  | begin => exact .inl ⟨_, rfl, set _⟩
  | go _ begun | wait _ begun => exact .inl ⟨_, begun, set _⟩
  | skip | finish => exact .inr ⟨set _, kept⟩

theorem selecting_cases {c : Nat} (head : s.ready.head? = some (.caller c))
    (call : s.call c = .selecting tick) :
    s.step.call c = .returned ∨
      (tick ≤ s.nanos ∧ s.step.ready.head? = some (.caller c) ∧
        s.step.call c = .ticking (nextTick tick s.nanos s.interval.nanos) .opening) ∨
      (s.nanos < tick ∧ s.step.call c = .selecting tick ∧
        (ceilMillis tick, .caller c) ∈ s.step.timers) := by
  have step : s.step = s.stepLoop c tick := by
    rw [step_of_caller head, stepCaller, call]
  rw [step]
  unfold stepLoop
  split
  · exact .inl (call_setCall_returned _ c)
  · split
    · next reached =>
      refine .inr (.inl ⟨reached, head, ?_⟩)
      exact call_setCall_self (s := (s.cancel (.caller c)).log .ticked)
        (by change s.call c ≠ _; simp [call]) _
    · next early =>
      refine .inr (.inr ⟨Nat.lt_of_not_le early, call, ?_⟩)
      simp only [sleep]
      split
      · next mem => exact mem
      · exact List.mem_append_right _ (List.mem_singleton_self _)

theorem entering_cases {c : Nat} (head : s.ready.head? = some (.caller c))
    (call : s.call c = .entering) :
    s.step.call c = .returned ∨
      (s.step.call c = .selecting (s.nanos + s.interval.nanos) ∧
        s.step.ready.head? = some (.caller c)) := by
  rw [step_of_caller head]
  simp only [stepCaller, call]
  split
  · exact .inl (call_setCall_returned s c)
  · next lifecycle _ =>
    refine .inr ⟨?_, head⟩
    exact call_setCall_self (s := { s with lifecycle }) (by change s.call c ≠ _; simp [call]) _

theorem Paces.selects (head : s.ready.head? = some entered.looper)
    (call : s.call entered.calls.length = .selecting tick) (grid : entered.OnGrid tick)
    (period : s.interval = entered.interval)
    (goesOn : s.step.ready.head? = some entered.looper → turn = some entered.looper)
    (served : tick ≤ s.nanos → s.now = ceilMillis tick ∨
      ∃ s', PassEnds rule entered tick s' ∧ s = s'.step) :
    Paces rule entered turn s.step (s.step.call entered.calls.length) := by
  have now : s.step.now = s.now := (delays_step s).now
  have nanos : s.step.nanos = s.nanos := by rw [Machine.nanos, now, Machine.nanos]
  rcases selecting_cases head call with gone | ⟨reached, kept, call'⟩ | ⟨early, call', timer⟩
  · rw [gone]
    exact .gone
  · rw [call', period]
    refine .opens grid (Nat.le_trans reached (Nat.le_of_eq nanos.symm)) (goesOn kept) ?_
      (by rw [nanos])
    rcases served reached with punctual | ⟨s', ends, here⟩
    · exact .inl (now.trans punctual)
    · exact .inr ⟨s', ends, by rw [here]⟩
  · rw [call']
    exact .waits grid (now ▸ le_ceilMillis (Nat.le_of_lt early)) (.inr (.inl timer))

theorem Paces.ticks {stage : Pass.Stage}
    (run : Run rule (entered.apply .run) cs (some entered.looper) s)
    (call : s.call entered.calls.length = .ticking next stage) (grid : entered.OnGrid next)
    (goesOn : s.step.ready.head? = some entered.looper → turn = some entered.looper) :
    Paces rule entered turn s.step (s.step.call entered.calls.length) := by
  rcases ticking_cases run.head_of_turn call with ⟨stage', begun, call'⟩ | ⟨back, kept⟩
  · rw [call']
    exact .passes grid begun
  · rw [back]
    exact .returns grid (goesOn kept) ⟨cs, stage, run, call, back⟩ rfl

theorem Paces.own (run : Run rule (entered.apply .run) cs (some entered.looper) s)
    (paces : Paces rule entered (some entered.looper) s (s.call entered.calls.length))
    (period : s.interval = entered.interval)
    (goesOn : s.step.ready.head? = some entered.looper → turn = some entered.looper) :
    Paces rule entered turn s.step (s.step.call entered.calls.length) := by
  have head := run.head_of_turn
  have now : s.step.now = s.now := (delays_step s).now
  generalize call : s.call entered.calls.length = x at paces
  cases paces with
  | enters entry =>
    rcases entering_cases head call with gone | ⟨selects, kept⟩
    · rw [gone]
      exact .gone
    · rw [selects]
      refine .waits ⟨1, Nat.le_refl 1, ?_⟩ (now ▸ le_ceilMillis (Nat.le_add_right ..))
        (.inl (goesOn kept))
      rw [period, Machine.nanos, entry, Machine.nanos, Nat.one_mul]
  | waits grid early =>
    exact .selects head call grid period goesOn fun reached =>
      .inl (Nat.le_antisymm early (ceilMillis_le reached))
  | returns grid _ ends here =>
    exact .selects head call grid period goesOn fun _ => .inr ⟨_, ends, here⟩
  | opens grid _ _ _ next => exact .ticks run call (next ▸ grid.next s.nanos) goesOn
  | passes grid => exact .ticks run call grid goesOn
  | gone =>
    have still : s.step.call entered.calls.length = .returned := by
      rw [step_of_caller head]
      simp only [stepCaller, call]
      exact call
    rw [still]
    exact .gone

theorem Run.interval (run : Run rule start cs turn s) : s.interval = start.interval := by
  induction run with
  | start => rfl
  | @command _ s _ _ _ instant ih => exact (spares_apply s instant).interval.trans ih
  | elapse _ _ _ _ ih | choose _ _ _ ih => exact ih
  | move _ _ ih | pause _ _ ih => exact (stays_step _).interval.trans ih

theorem Run.paces (before : Run rule start cs none entered) (fresh : start.Fresh)
    (may : rule.comes entered .run)
    (run : Run rule (entered.apply .run) cs' turn s) :
    entered.calls.length < s.calls.length ∧
      Paces rule entered turn s (s.call entered.calls.length) := by
  have first := before.command may rfl
  induction run with
  | start =>
    have entering : (entered.apply .run).call entered.calls.length = .entering := by
      rw [apply, call_begin, if_pos rfl]
    rw [entering]
    exact ⟨by simp [apply, begin, wake],
      .enters rfl ((mem_ready_wake _).2 (.inr (List.mem_singleton_self _)))⟩
  | @command _ s k _ _ instant ih =>
    obtain ⟨length, paces⟩ := ih
    have spares := spares_apply s instant
    refine ⟨Nat.lt_of_lt_of_le length spares.length, ?_⟩
    rcases call_apply s instant entered.calls.length with same | freed | ⟨eq, _⟩
    · rw [same]
      exact paces.frame spares.now spares.ready spares.timers
    · rw [freed]
      exact paces.freeCall.frame spares.now spares.ready spares.timers
    · exact absurd eq (Nat.ne_of_lt length)
  | elapse _ settled _ timely ih => exact ⟨ih.1, ih.2.elapse settled timely⟩
  | choose _ _ _ ih => exact ⟨ih.1, ih.2.frame rfl (fun _ => mem_ready_prefer) rfl⟩
  | @move _ a _ run goesOn ih =>
    obtain ⟨_, _, act⟩ := (first.trans run).act fresh
    refine ⟨act.length ▸ ih.1, ?_⟩
    by_cases own : a = entered.looper
    · subst own
      exact ih.2.own run run.interval fun _ => rfl
    · rw [act.calls _ own]
      exact ih.2.act act own
  | @pause _ a _ run waits ih =>
    obtain ⟨_, _, act⟩ := (first.trans run).act fresh
    refine ⟨act.length ▸ ih.1, ?_⟩
    by_cases own : a = entered.looper
    · subst own
      exact ih.2.own run run.interval fun head => absurd head waits
    · rw [act.calls _ own]
      exact ih.2.act act own

structure OpensPass (rule : Rule) (entered : Machine) (next : Nat) (turn : Option Agent)
    (s : Machine) : Prop where
  own : turn = some entered.looper
  tick : ∃ due, entered.OnGrid due ∧ due ≤ s.nanos ∧
    next = nextTick due s.nanos entered.interval.nanos ∧
    (s.now = ceilMillis due ∨ ∃ s', PassEnds rule entered due s' ∧ s = s'.step.step)
  gate : ((∃ d, (s.call d).inPass = true) ∧
      s.step = s.setCall entered.calls.length (.selecting next)) ∨
    ((∀ d, (s.call d).inPass = false) ∧ s.step.reads = s.reads + 1)

theorem reads_of_free {c : Nat} (head : s.ready.head? = some (.caller c))
    (call : s.call c = .ticking next .opening) (free : s.lifecycle.inPass = false) :
    s.step.reads = s.reads + 1 := by
  obtain ⟨⟨told, _, reads, leads⟩, _, _⟩ := Pass.treads_step s c .opening
  rw [step_of_caller head, stepCaller, call]
  dsimp only [stepPass]
  generalize Pass.step s c .opening = r at reads leads
  obtain ⟨s₁, turn⟩ := r
  dsimp only at reads leads
  cases leads with
  | skip shut =>
    rw [free] at shut
    cases shut
  | fail | lack | read => exact reads

/-- However the loop runs, its passes open at its ticks, or else when its own pass has ended. -/
theorem Run.opensPass {c : Config} {timed : Bool} {scenario : Scenario} {cs cs' : List Command}
    (made : ofConfig c timed scenario = .made start) (before : Run rule start cs none entered)
    (may : rule.comes entered .run) (run : Run rule (entered.apply .run) cs' turn s)
    (opens : s.call entered.calls.length = .ticking next .opening) :
    OpensPass rule entered next turn s := by
  have fresh := fresh_ofConfig made
  have gated := ((before.command may rfl).trans run).gated fresh
  have paces := (before.paces fresh may run).2
  rw [opens] at paces
  cases paces with
  | passes _ begun => cases begun
  | opens grid reached own served next =>
    subst own
    refine ⟨rfl, ⟨_, grid, reached, next, served⟩, ?_⟩
    cases shut : s.lifecycle.inPass with
    | true =>
      refine .inl ⟨gated.gate.1 shut, ?_⟩
      have busy : s.lifecycle.beginPass? = none := by simp [Lifecycle.beginPass?, shut]
      rw [step_of_caller run.head_of_turn]
      simp only [stepCaller, opens, stepPass, Pass.step, Pass.openStep, busy]
    | false =>
      exact .inr ⟨gated.not_inPass shut, reads_of_free run.head_of_turn opens shut⟩

def quickLoop : Machine :=
  { heldUp with
    pool := { capacity := 1, expiry := 60000, free := 1 }
    interval := .ofNanos 100000000
    interval_pos := by decide }

theorem made_quickLoop :
    ofConfig { scalingInterval := .ofNanos 100000000, scalingThreads := 1 } false
      heldUp.scenario = .made quickLoop := rfl

def lateTick : Machine :=
  Machine.run 9 (((quickLoop.apply .run).settle.play [.write (.putJob "a" heldItem.policies),
    .advance 100, .advance 100, .advance 150]).1.apply (.unhold "a"))

theorem run_settled_lateTick (fresh : quickLoop.Fresh) :
    Run loopRule (quickLoop.apply .run).settle
      [.write (.putJob "a" heldItem.policies), .unhold "a"] (some (.caller 0)) lateTick := by
  have lets : loopRule.LetsFirst := fun _ _ _ => trivial
  have punctual := (delays_settle _).punctual (punctual_apply fresh.punctual .run)
  have may : ∀ cs s c, Run loopRule (quickLoop.apply .run).settle cs none s → s.ready = [] →
      c ∈ [.write (.putJob "a" heldItem.policies), .advance 100, .advance 100, .advance 150] →
      c.isInstant = true → loopRule.comes s c := by
    intro _ s c _ _ mem _
    simp only [List.mem_cons, List.not_mem_nil, or_false] at mem
    rcases mem with rfl | rfl | rfl | rfl <;> rfl
  have played := Run.start.play lets punctual (ready_settle _) may
  exact (played.command (c := .unhold "a") rfl rfl).amid lets 9 (by decide +kernel)

theorem run_lateTick (fresh : quickLoop.Fresh) :
    Run loopRule (quickLoop.apply .run) [.write (.putJob "a" heldItem.policies), .unhold "a"]
      (some (.caller 0)) lateTick :=
  (Run.start.settle fun _ _ _ => trivial).trans (run_settled_lateTick fresh)

theorem opensPass_lateTick :
    lateTick.call 0 = .ticking (400 * 10 ^ 6) .opening ∧
      OpensPass loopRule quickLoop (400 * 10 ^ 6) (some (.caller 0)) lateTick := by
  have opens : lateTick.call 0 = .ticking (400 * 10 ^ 6) .opening := by decide +kernel
  have run := run_lateTick (fresh_ofConfig made_quickLoop)
  exact ⟨opens, Run.opensPass made_quickLoop .start rfl run opens⟩

/-- A pass of the loop reads the store between two ticks. -/
theorem reads_lateTick :
    Run loopRule (quickLoop.apply .run) [.write (.putJob "a" heldItem.policies), .unhold "a"]
      (some (.caller 0)) lateTick ∧
    lateTick.step.journal = (350, .read) :: lateTick.journal ∧
    ¬ ∃ k, 350 * 10 ^ 6 = quickLoop.nanos + k * quickLoop.interval.nanos := by
  refine ⟨run_lateTick (fresh_ofConfig made_quickLoop), by decide +kernel, fun ⟨k, eq⟩ => ?_⟩
  change 350 * 10 ^ 6 = 0 * 10 ^ 6 + k * (100 * 10 ^ 6) at eq
  omega

end Autoscaling.Machine
