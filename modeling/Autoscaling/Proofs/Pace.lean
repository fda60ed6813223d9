import Autoscaling.Proofs.StartStop

namespace Autoscaling

theorem add_le_nextTick (due now period : Nat) : due + period ≤ nextTick due now period := by
  unfold nextTick
  split
  · have := Nat.mod_le (now - due) period
    omega
  · exact Nat.le_refl _

def Call.tick? : Call → Option Nat
  | .selecting tick | .ticking tick _ => some tick
  | _ => none

theorem Call.isLooping_eq (x : Call) : x.isLooping = x.tick?.isSome := by
  cases x <;> rfl

namespace Machine

def ticks (s : Machine) : Nat := s.history.count .ticked

inductive Beat (s : Machine) : Call → Call → Nat → Prop
  | aside (out : x.tick? = none) (out' : y.tick? = none) : Beat s x y 0
  | enter (new : s.lifecycle.phase = .idle) :
      Beat s .entering (.selecting (s.nanos + s.interval.nanos)) 0
  | rest : Beat s (.selecting tick) (.selecting tick) 0
  | serve (reached : tick ≤ s.nanos) :
      Beat s (.selecting tick) (.ticking (nextTick tick s.nanos s.interval.nanos) .opening) 1
  | leave : Beat s (.selecting tick) .returned 0
  | pass (begun : stage'.hasBegun = true) : Beat s (.ticking next stage) (.ticking next stage') 0
  | back : Beat s (.ticking next stage) (.selecting next) 0

def Beats (s : Machine) (c : Nat) (s' : Machine) : Prop :=
  ∃ n, s'.ticks = s.ticks + n ∧ Beat s (s.call c) (s'.call c) n

variable {rule : Rule} {s s' m start : Machine} {before turn : Option Agent} {a : Agent}
  {cs : List Command} {c d n tick next : Nat} {x y : Call} {e : Event} {woken : List Agent}
  {events : List Event}

theorem ticks_log_ticked (s : Machine) : (s.log .ticked).ticks = s.ticks + 1 := by
  simp [ticks, history_log]

theorem ticks_log (other : e ≠ .ticked) : (s.log e).ticks = s.ticks := by
  simp [ticks, history_log, other]

theorem ticks_signalShutdown (s : Machine) : s.signalShutdown.ticks = s.ticks := by
  simp [ticks]

theorem ticks_answer (s : Machine) (c : Nat) (a : Answer) : (s.answer c a).ticks = s.ticks :=
  ticks_log (s := s.setCall c .returned) nofun

theorem ticks_submit (s : Machine) (c : Nat) (i : WorkItem) (entered : Bool) :
    (s.submit c i entered).1.ticks = s.ticks := by
  unfold submit
  dsimp only
  split
  · exact ticks_log nofun
  · exact ticks_log nofun
  all_goals rfl

theorem ticks_passStep (s : Machine) (c : Nat) (stage : Pass.Stage) :
    (Pass.step s c stage).1.ticks = s.ticks := by
  obtain ⟨told, history, _, leads⟩ := (Pass.treads_step s c stage).leads
  generalize (Pass.step s c stage).2 = turn at leads
  have silent : told.count .ticked = 0 := by
    cases leads with
    | @ask _ _ _ q | @hold _ _ _ q => cases q <;> rfl
    | _ => rfl
  rw [ticks, history, List.count_append, silent]
  rfl

theorem ticks_stepWorker (s : Machine) (w : Nat) : (s.stepWorker w).ticks = s.ticks := by
  unfold stepWorker
  repeat' split
  all_goals first | rfl | exact ticks_log nofun

theorem ticks_finishEvaluation (s : Machine) (w : Nat) (i : WorkItem) :
    (s.finishEvaluation w i).ticks = s.ticks := by
  have told : (s.log (.finished i)).ticks = s.ticks := ticks_log nofun
  unfold finishEvaluation
  dsimp only
  split <;> exact told

theorem ticks_stepEvaluation (s : Machine) (w : Nat) : (s.stepEvaluation w).ticks = s.ticks := by
  unfold stepEvaluation
  split
  · next i _ =>
    have begun : (s.log (.started i)).ticks = s.ticks := ticks_log nofun
    dsimp only
    split
    · exact (ticks_finishEvaluation _ w i).trans begun
    · exact begun
    · exact Eq.trans (ticks_log (s := s.log (.started i)) nofun) begun
    · split
      · exact (ticks_finishEvaluation _ w i).trans begun
      · exact begun
  · split
    · exact ticks_finishEvaluation s w _
    · rfl
  · exact ticks_finishEvaluation s w _
  · rfl

theorem beats_setCall {t : Machine} (call : s.call c = x) (ne : x ≠ .returned)
    (same : t.call c = s.call c) (ticks : t.ticks = s.ticks + n) (beat : Beat s x y n) :
    s.Beats c (t.setCall c y) := by
  refine ⟨n, ticks, ?_⟩
  have after : (t.setCall c y).call c = y := call_setCall_self (by rwa [same, call]) y
  rw [call, after]
  exact beat

theorem beats_answer {a : Answer} (call : s.call c = x) (ticks : s'.ticks = s.ticks)
    (beat : Beat s x .returned 0) : s.Beats c (s'.answer c a) := by
  refine ⟨0, (ticks_answer s' c a).trans ticks, ?_⟩
  have gone : (s'.answer c a).call c = .returned := call_setCall_returned s' c
  rw [call, gone]
  exact beat

theorem beats_still (call : s.call c = x) (same : s'.call c = s.call c)
    (ticks : s'.ticks = s.ticks) (beat : Beat s x x 0) : s.Beats c s' :=
  ⟨0, ticks, by rwa [same, call]⟩

theorem beats_stepSubmitter {items : List WorkItem} {entered : Bool}
    (call : s.call c = .submitting items entered) :
    s.Beats c (s.stepSubmitter c items entered) := by
  unfold stepSubmitter
  split
  · exact beats_setCall call (by simp) rfl rfl (.aside rfl rfl)
  · next i rest =>
    have ticks := ticks_submit s c i entered
    have same : (s.submit c i entered).1.call c = s.call c := by
      unfold submit
      dsimp only
      split <;> rfl
    generalize s.submit c i entered = r at ticks same
    obtain ⟨s₁, turn⟩ := r
    cases turn with
    | goOn | wait => exact beats_setCall call (by simp) same ticks (.aside rfl rfl)
    | accepted | refused =>
      obtain ⟨n, told, beat⟩ := beats_setCall (y := .submitting rest false) call (by simp) same
        ticks (.aside rfl rfl)
      exact ⟨n, Eq.trans (ticks_log (e := .answered _) nofun) told, beat⟩

theorem beats_evaluating {stage : Pass.Stage} (call : s.call c = .evaluating stage) :
    s.Beats c (s.stepPass c stage .evaluating fun s o => s.answer c (.evaluate o)) := by
  have ticks := ticks_passStep s c stage
  have same := (moves_step s c stage).keeps.call c
  unfold stepPass
  generalize Pass.step s c stage = r at ticks same
  obtain ⟨s₁, turn⟩ := r
  cases turn with
  | goOn | wait => exact beats_setCall call (by simp) same ticks (.aside rfl rfl)
  | ended => exact beats_answer call ticks (.aside rfl rfl)

theorem beats_ticking {stage : Pass.Stage} (call : s.call c = .ticking next stage) :
    s.Beats c (s.stepPass c stage (.ticking next) fun s _ => s.setCall c (.selecting next)) := by
  have ticks := ticks_passStep s c stage
  have same := (moves_step s c stage).keeps.call c
  have strides := (Pass.walks_step s c stage).strides
  unfold stepPass
  generalize Pass.step s c stage = r at ticks same strides
  obtain ⟨s₁, turn⟩ := r
  dsimp only at strides
  generalize s₁.lifecycle = l at strides
  cases strides with
  | begin => exact beats_setCall call (by simp) same ticks (.pass rfl)
  | go _ begun | wait _ begun => exact beats_setCall call (by simp) same ticks (.pass begun)
  | skip | finish => exact beats_setCall call (by simp) same ticks .back

theorem beats_stepLoop (call : s.call c = .selecting tick) : s.Beats c (s.stepLoop c tick) := by
  unfold stepLoop
  split
  · exact beats_answer call rfl .leave
  · split
    · next reached =>
      exact beats_setCall call (by simp) rfl (ticks_log_ticked _) (.serve reached)
    · exact beats_still call rfl rfl .rest

theorem beats_stepCaller (s : Machine) (c : Nat) : s.Beats c (s.stepCaller c) := by
  cases call : s.call c with
  | submitting items entered =>
    simp only [stepCaller, call]
    exact beats_stepSubmitter call
  | evaluating stage =>
    simp only [stepCaller, call]
    exact beats_evaluating call
  | entering =>
    simp only [stepCaller, call]
    split
    · exact beats_answer call rfl (.aside rfl rfl)
    · next runs =>
      refine beats_setCall call (by simp) rfl rfl (.enter ?_)
      unfold Lifecycle.markRunning? at runs
      split at runs
      · assumption
      · cases runs
  | selecting tick =>
    simp only [stepCaller, call]
    exact beats_stepLoop call
  | ticking next stage =>
    simp only [stepCaller, call]
    exact beats_ticking call
  | stopping =>
    simp only [stepCaller, call]
    split
    · exact beats_answer call rfl (.aside rfl rfl)
    · next lifecycle _ =>
      obtain ⟨n, ticks, beat⟩ := beats_setCall (t := { s with lifecycle }) (y := .polling) call
        (by simp) rfl rfl (.aside rfl rfl)
      refine ⟨n, (ticks_signalShutdown _).trans ticks, ?_⟩
      rwa [call_signalShutdown]
  | polling =>
    simp only [stepCaller, call]
    split
    · exact beats_setCall (t := { s with pool := s.pool.release.1 }) call (by simp) rfl rfl
        (.aside rfl rfl)
    · exact beats_setCall call (by simp) rfl rfl (.aside rfl rfl)
  | sleeping wakeAt =>
    simp only [stepCaller, call]
    split
    · exact beats_setCall call (by simp) rfl rfl (.aside rfl rfl)
    · exact beats_still call rfl rfl (.aside rfl rfl)
  | releasing =>
    simp only [stepCaller, call]
    exact beats_setCall (t := { s with pool := s.pool.release.1 }) call (by simp) rfl rfl
      (.aside rfl rfl)
  | joining stop handles =>
    cases handles with
    | nil =>
      simp only [stepCaller, call]
      split <;> exact beats_answer call rfl (.aside rfl rfl)
    | cons w ws =>
      simp only [stepCaller, call]
      split
      · exact beats_setCall call (by simp) rfl rfl (.aside rfl rfl)
      · exact beats_still call rfl rfl (.aside rfl rfl)
  | returned =>
    simp only [stepCaller, call]
    exact beats_still call rfl rfl (.aside rfl rfl)

namespace Beat

theorem tick_cases (beat : Beat s x y n) (entered : s.lifecycle.phase ≠ .idle) :
    (n = 0 ∧ (y.tick? = none ∨ y.tick? = x.tick?)) ∨
      (n = 1 ∧ ∃ tick, x = .selecting tick ∧ tick ≤ s.nanos ∧
        y = .ticking (nextTick tick s.nanos s.interval.nanos) .opening) := by
  cases beat with
  | aside _ out' => exact .inl ⟨rfl, .inl out'⟩
  | enter new => exact absurd new entered
  | serve reached => exact .inr ⟨rfl, _, rfl, reached, rfl⟩
  | leave => exact .inl ⟨rfl, .inl rfl⟩
  | rest | pass | back => exact .inl ⟨rfl, .inr rfl⟩

theorem opens_cases (beat : Beat s x y n) :
    (n = 0 ∧ ∀ next, y ≠ .ticking next .opening) ∨
      (n = 1 ∧ ∃ tick next, tick ≤ s.nanos ∧ x = .selecting tick ∧
        y = .ticking next .opening) := by
  cases beat with
  | aside _ out' => exact .inl ⟨rfl, fun _ eq => by rw [eq] at out'; cases out'⟩
  | serve reached => exact .inr ⟨rfl, _, _, reached, rfl, rfl⟩
  | pass begun =>
    refine .inl ⟨rfl, fun _ eq => ?_⟩
    cases eq
    cases begun
  | enter | rest | leave | back => exact .inl ⟨rfl, nofun⟩

end Beat

theorem beats_step (head : s.ready.head? = some a) :
    (s.step.ticks = s.ticks ∧ s.step.lifecycle = s.lifecycle ∧ ∀ c, a ≠ .caller c) ∨
      ∃ c, a = .caller c ∧ s.Beats c s.step := by
  rw [step, head]
  cases a with
  | worker w =>
    exact .inl ⟨ticks_stepWorker s w, (apart_stepWorker s w).lifecycle, by simp⟩
  | evaluation w =>
    exact .inl ⟨ticks_stepEvaluation s w, (apart_stepEvaluation s w).lifecycle, by simp⟩
  | caller c => exact .inr ⟨c, rfl, beats_stepCaller s c⟩

theorem nanos_step (s : Machine) : s.step.nanos = s.nanos :=
  congrArg (· * 10 ^ 6) (delays_step s).now

theorem rank_step (s : Machine) : s.lifecycle.phase.rank ≤ s.step.lifecycle.phase.rank := by
  unfold step
  split
  · exact Nat.le_refl _
  · exact Nat.le_of_eq (by rw [(apart_stepWorker s _).lifecycle])
  · exact Nat.le_of_eq (by rw [(apart_stepEvaluation s _).lifecycle])
  · next c _ =>
    cases ofLoop : (s.call c).ofLoop with
    | true =>
      obtain ⟨_, _, deed⟩ := does_stepCaller ofLoop
      exact deed.rank_le
    | false => exact Nat.le_of_eq (by rw [(beside_gate ofLoop).1])

theorem tick?_apply (s : Machine) {k : Command} (instant : k.isInstant = true) (c : Nat) :
    ((s.apply k).call c).tick? = (s.call c).tick? := by
  rcases calls_apply s instant c with same | freed | ⟨returned, new⟩
  · rw [same]
  · rw [freed]
    cases s.call c <;> rfl
  · rw [returned]
    cases call : (s.apply k).call c <;> rw [call] at new <;> first | rfl | cases new

theorem ticks_apply (s : Machine) {k : Command} (instant : k.isInstant = true) :
    (s.apply k).ticks = s.ticks := by
  rw [ticks, history, (journal_apply s instant).1]
  rfl

structure Calm (s : Machine) : Prop where
  ticks : s.ticks = 0
  calls : ∀ c, (s.call c).tick? = none

theorem Calm.of_eq (calm : s.Calm) (ticks : s'.ticks = s.ticks)
    (calls : ∀ c, (s'.call c).tick? = (s.call c).tick?) : s'.Calm :=
  ⟨ticks.trans calm.ticks, fun c => (calls c).trans (calm.calls c)⟩

theorem Calm.step (calm : s.Calm) (act : Act s a woken events s.step)
    (head : s.ready.head? = some a) (idle : s.step.lifecycle.phase = .idle) : s.step.Calm := by
  rcases beats_step head with ⟨ticks, _, other⟩ | ⟨c, rfl, n, ticks, beat⟩
  · exact calm.of_eq ticks fun c => by rw [act.calls c (other c)]
  · have out := calm.calls c
    have others (d : Nat) (ne : d ≠ c) : (s.step.call d).tick? = none := by
      rw [act.calls d fun eq => ne (Agent.caller.inj eq).symm]
      exact calm.calls d
    generalize old : s.call c = x at beat out
    generalize new : s.step.call c = y at beat
    cases beat with
    | aside _ out' =>
      refine ⟨ticks.trans calm.ticks, fun d => ?_⟩
      by_cases eq : d = c
      · rw [eq, new, out']
      · exact others d eq
    | enter phase =>
      -- The loop is entered, so the phase is idle no more.
      rcases entered_or_barred head old with ⟨_, _, running, _⟩ | ⟨late, _⟩
      · cases idle.symm.trans running
      · exact absurd phase late
    | _ => cases out

theorem Run.calm (run : Run rule start cs turn s) (fresh : start.Fresh)
    (idle : s.lifecycle.phase = .idle) : s.Calm := by
  have before {s : Machine} (idle : s.step.lifecycle.phase = .idle) :
      s.lifecycle.phase = .idle := by
    have le := rank_step s
    by_contra entered
    exact Phase.rank_pos.1 (Nat.lt_of_lt_of_le (Phase.rank_pos.2 entered) le) idle
  induction run with
  | start =>
    exact ⟨by simp [ticks, history, fresh.journal], by simp [call, fresh.calls, Call.tick?]⟩
  | @command _ s k _ _ instant ih =>
    rw [(journal_apply s instant).2.2] at idle
    exact (ih idle).of_eq (ticks_apply s instant) (tick?_apply s instant)
  | elapse _ _ _ _ ih | choose _ _ _ ih => exact (ih idle).of_eq rfl fun _ => rfl
  | move run _ ih | pause run _ ih =>
    obtain ⟨_, _, act⟩ := run.act fresh
    exact (ih (before idle)).step act run.head_of_turn idle

structure Paced (m : Machine) (c : Nat) (s : Machine) : Prop where
  entered : s.lifecycle.phase ≠ .idle
  alone : ∀ d, d ≠ c → (s.call d).tick? = none
  past : m.nanos + s.ticks * m.interval.nanos ≤ s.nanos
  next : ∀ tick, (s.call c).tick? = some tick →
    m.nanos + (s.ticks + 1) * m.interval.nanos ≤ tick

namespace Paced

theorem of_eq (paced : Paced m c s) (phase : s'.lifecycle.phase ≠ .idle)
    (ticks : s'.ticks = s.ticks) (later : s.now ≤ s'.now)
    (calls : ∀ d, (s'.call d).tick? = none ∨ (s'.call d).tick? = (s.call d).tick?) :
    Paced m c s' := by
  constructor
  case entered => exact phase
  case alone => exact fun d ne => (calls d).elim id fun same => same.trans (paced.alone d ne)
  case past =>
    rw [ticks]
    exact Nat.le_trans paced.past (Nat.mul_le_mul_right _ later)
  case next =>
    intro tick due
    rw [ticks]
    rcases calls c with gone | same
    · cases gone.symm.trans due
    · exact paced.next tick (same.symm.trans due)

theorem of_enters (calm : m.Calm) (act : Act m (.caller c) woken events m.step)
    (head : m.ready.head? = some (.caller c)) (enters : Enters before m c) :
    Paced m c m.step := by
  obtain ⟨_, call, inside⟩ := id enters
  have running := ((entered_or_barred head call).resolve_right fun ⟨late, _⟩ =>
    late (idle_of_enters head enters)).2.2.1
  obtain ⟨n, ticks, beat⟩ : m.Beats c m.step := step_of_caller head ▸ beats_stepCaller m c
  rw [calm.ticks] at ticks
  rw [call] at beat
  rw [Call.isLooping_eq] at inside
  generalize new : m.step.call c = y at beat inside
  cases beat with
  | aside _ out' =>
    rw [out'] at inside
    cases inside
  | enter =>
    have ticks : m.step.ticks = 0 := ticks
    constructor
    case entered => simp [running]
    case alone =>
      intro d ne
      rw [act.calls d fun eq => ne (Agent.caller.inj eq).symm]
      exact calm.calls d
    case past => exact Nat.le_of_eq (by rw [ticks, Nat.zero_mul, Nat.add_zero, nanos_step])
    case next =>
      intro tick due
      rw [new] at due
      cases due
      exact Nat.le_of_eq (by rw [ticks, Nat.zero_add, Nat.one_mul])

theorem step (paced : Paced m c s) (act : Act s a woken events s.step)
    (head : s.ready.head? = some a) (period : s.interval = m.interval) : Paced m c s.step := by
  have now : s.step.now = s.now := (delays_step s).now
  have entered : s.step.lifecycle.phase ≠ .idle :=
    Phase.rank_pos.1 (Nat.lt_of_lt_of_le (Phase.rank_pos.2 paced.entered) (rank_step s))
  rcases beats_step head with ⟨ticks, _, other⟩ | ⟨d, rfl, n, ticks, beat⟩
  · exact paced.of_eq entered ticks (Nat.le_of_eq now.symm) fun d =>
      .inr (by rw [act.calls d (other d)])
  · have others (e : Nat) (ne : e ≠ d) : s.step.call e = s.call e :=
      act.calls e fun eq => ne (Agent.caller.inj eq).symm
    rcases beat.tick_cases paced.entered with ⟨rfl, own⟩ | ⟨rfl, tick, old, reached, new⟩
    · refine paced.of_eq entered ticks (Nat.le_of_eq now.symm) fun e => ?_
      by_cases eq : e = d
      · rw [eq]
        exact own
      · exact .inr (by rw [others e eq])
    · obtain rfl : d = c := by
        by_contra ne
        have out := paced.alone d ne
        rw [old] at out
        cases out
      have due := paced.next tick (by rw [old]; rfl)
      constructor
      case entered => exact entered
      case alone =>
        intro e ne
        rw [others e ne]
        exact paced.alone e ne
      case past =>
        rw [ticks, nanos_step]
        exact Nat.le_trans due reached
      case next =>
        intro tick' due'
        rw [new] at due'
        cases due'
        have := add_le_nextTick tick s.nanos s.interval.nanos
        rw [period] at this ⊢
        rw [ticks, Nat.add_mul _ 1, Nat.one_mul]
        omega

end Paced

theorem Onward.paced {entry : Machine} (on : Onward rule before m turn s)
    (run : Run rule start cs before m) (fresh : start.Fresh)
    (period : start.interval = entry.interval) (paced : Paced entry c m) : Paced entry c s := by
  have step {a : Agent} {s : Machine} (on : Onward rule before m (some a) s)
      (paced : Paced entry c s) : Paced entry c s.step := by
    obtain ⟨_, run⟩ := run.onward on
    obtain ⟨_, _, act⟩ := run.act fresh
    exact paced.step act run.head_of_turn (run.interval.trans period)
  induction on with
  | here => exact paced
  | @command s k _ _ instant ih =>
    refine ih.of_eq ?_ (ticks_apply s instant) ?_ fun d => .inr (tick?_apply s instant d)
    · rw [(journal_apply s instant).2.2]
      exact ih.entered
    · exact Nat.le_of_eq (journal_apply s instant).2.1.symm
  | elapse _ _ later _ ih => exact ih.of_eq ih.entered rfl later fun _ => .inr rfl
  | choose _ _ _ ih => exact ih.of_eq ih.entered rfl (Nat.le_refl _) fun _ => .inr rfl
  | move on _ ih | pause on _ ih => exact step on ih

structure KeepsPace (m : Machine) (c : Nat) (turn : Option Agent) (s : Machine) : Prop where
  alone : ∀ d, (s.call d).isLooping = true → d = c
  none : m.ticks = 0
  counts : ∀ a, turn = some a →
    (s.step.ticks = s.ticks + 1 ∧ a = .caller c ∧ ∃ tick next, tick ≤ s.nanos ∧
        s.call c = .selecting tick ∧ s.step.call c = .ticking next .opening) ∨
      (s.step.ticks = s.ticks ∧ ∀ d next, s.step.call d = .ticking next .opening →
        s.call d = .ticking next .opening)
  ticks_le : s.ticks ≤ (s.nanos - m.nanos) / m.interval.nanos

theorem counts_of_beats (act : Act s a woken events s.step) (head : s.ready.head? = some a)
    (alone : ∀ d, (s.call d).isLooping = true → d = c) :
    (s.step.ticks = s.ticks + 1 ∧ a = .caller c ∧ ∃ tick next, tick ≤ s.nanos ∧
        s.call c = .selecting tick ∧ s.step.call c = .ticking next .opening) ∨
      (s.step.ticks = s.ticks ∧ ∀ d next, s.step.call d = .ticking next .opening →
        s.call d = .ticking next .opening) := by
  rcases beats_step head with ⟨ticks, _, other⟩ | ⟨d, rfl, n, ticks, beat⟩
  · refine .inr ⟨ticks, fun d next opens => ?_⟩
    rwa [act.calls d (other d)] at opens
  · rcases beat.opens_cases with ⟨rfl, closed⟩ | ⟨rfl, tick, next, reached, old, new⟩
    · refine .inr ⟨ticks, fun e next opens => ?_⟩
      by_cases eq : e = d
      · rw [eq] at opens
        exact absurd opens (closed next)
      · rwa [act.calls e fun same => eq (Agent.caller.inj same).symm] at opens
    · obtain rfl := alone d (by rw [old]; rfl)
      exact .inl ⟨ticks, rfl, tick, next, reached, old, new⟩

/-- However long its passes take, the loop begins no more of them than periods have passed since it
was entered. -/
theorem Run.keepsPace {k : Config} {timed : Bool} {scenario : Scenario}
    (made : ofConfig k timed scenario = .made start) (run : Run rule start cs before m)
    (enters : Enters before m c) (on : Onward rule before m turn s) : KeepsPace m c turn s := by
  have fresh := fresh_ofConfig made
  obtain ⟨_, after⟩ := run.onward on
  obtain ⟨rfl, call, _⟩ := id enters
  have head := run.head_of_turn
  have calm := run.calm fresh (idle_of_enters head enters)
  obtain ⟨_, _, act⟩ := run.act fresh
  have paced : s = m ∨ Paced m c s := by
    rcases on.here_or_step with ⟨_, here⟩ | ⟨_, first, rest⟩
    · exact .inl here
    · obtain ⟨_, run₁⟩ := run.onward first
      exact .inr (rest.paced run₁ fresh run.interval.symm (.of_enters calm act head enters))
  have alone (d : Nat) (inside : (s.call d).isLooping = true) : d = c := by
    have inside : (s.call d).tick? ≠ .none := fun out => by
      rw [Call.isLooping_eq, out] at inside
      cases inside
    rcases paced with rfl | paced
    · exact absurd (calm.calls d) inside
    · by_contra ne
      exact inside (paced.alone d ne)
  constructor
  case alone => exact alone
  case none => exact calm.ticks
  case counts =>
    rintro a rfl
    obtain ⟨_, _, act⟩ := after.act fresh
    exact counts_of_beats act after.head_of_turn alone
  case ticks_le =>
    rcases paced with rfl | paced
    · rw [calm.ticks]
      exact Nat.zero_le _
    · rw [Nat.le_div_iff_mul_le m.interval_pos]
      exact Nat.le_sub_of_add_le (Nat.add_comm .. ▸ paced.past)

theorem onward_lateTick (fresh : quickLoop.Fresh) :
    Onward loopRule (some (.caller 0)) (quickLoop.apply .run) (some (.caller 0)) lateTick := by
  have waits : (quickLoop.apply .run).step.step = (quickLoop.apply .run).settle := by
    decide +kernel
  have first : Onward loopRule (some (.caller 0)) (quickLoop.apply .run) none
      (quickLoop.apply .run).settle := by
    rw [← waits]
    exact (Onward.here.move (by decide +kernel)).pause (by decide +kernel)
  exact first.run (run_settled_lateTick fresh)

theorem keepsPace_lateTick :
    Enters (some (.caller 0)) (quickLoop.apply .run) 0 ∧ lateTick.ticks = 3 ∧
      (lateTick.nanos - quickLoop.nanos) / quickLoop.interval.nanos = 3 ∧
      KeepsPace (quickLoop.apply .run) 0 (some (.caller 0)) lateTick := by
  have fresh := fresh_ofConfig made_quickLoop
  have enters : Enters (some (.caller 0)) (quickLoop.apply .run) 0 :=
    ⟨rfl, by decide +kernel, by decide +kernel⟩
  have run : Run loopRule quickLoop [.run] (some (.caller 0)) (quickLoop.apply .run) := by
    have begun : Run loopRule quickLoop [.run] none (quickLoop.apply .run) :=
      Run.start.command rfl rfl
    exact begun.amid (fun _ _ _ => trivial) 0 rfl
  exact ⟨enters, by decide +kernel, by decide +kernel,
    Run.keepsPace made_quickLoop run enters (onward_lateTick fresh)⟩

end Machine

end Autoscaling
