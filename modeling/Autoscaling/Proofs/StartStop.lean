import Autoscaling.Proofs.Machine.Onward
import Autoscaling.Proofs.SingleFlight
import Autoscaling.Proofs.Ticks

namespace Autoscaling

namespace Phase

def rank : Phase → Nat
  | .idle => 0
  | .running => 1
  | .draining => 2
  | .stopped => 3

theorem rank_pos {p : Phase} : 0 < p.rank ↔ p ≠ .idle := by
  cases p <;> simp [rank]

end Phase

theorem Lifecycle.isEarly_eq_false {l : Lifecycle} : l.isEarly = false ↔ 2 ≤ l.phase.rank := by
  unfold isEarly
  cases l.phase <;> simp [Phase.rank]

namespace Machine

variable {s s' m start : Machine} {before turn : Option Agent} {a : Agent} {cs : List Command}
  {c d tick next : Nat} {k : Control} {x y : Call} {woken : List Agent}
  {events told : List Event}

namespace Deed

theorem rank_le (deed : Deed s x y k told) :
    s.lifecycle.phase.rank ≤ k.lifecycle.phase.rank := by
  rcases deed.phase_cases with ⟨same, _⟩ | ⟨idle, running, _⟩ | ⟨early, _, draining, _⟩ |
    ⟨_, stopped, _⟩
  · exact Nat.le_of_eq (by rw [same])
  · rw [idle]
    exact Nat.zero_le _
  · rw [draining]
    rcases early with early | early <;> rw [early] <;> decide
  · rw [stopped]
    cases s.lifecycle.phase <;> decide

theorem active_cases (deed : Deed s x y k told) (active : k.lifecycle.loopActive = true) :
    (s.lifecycle.loopActive = true ∧ y.isLooping = x.isLooping) ∨
      s.lifecycle.phase = .idle ∧ y.isLooping = true := by
  cases deed with
  | enter new => exact .inr ⟨new, rfl⟩
  | leave | stop => cases active
  | skip hosts | begin hosts | go hosts | finish hosts =>
    cases hosts <;> exact .inl ⟨active, rfl⟩
  | _ => exact .inl ⟨active, rfl⟩

theorem leaves (deed : Deed s x y k told) (inside : x.isLooping = true)
    (outside : y.isLooping = false) :
    s.shutdown = true ∧ y = .returned ∧ k.lifecycle.loopActive = false ∧
      told = [.answered .run] := by
  cases deed with
  | rest =>
    rw [inside] at outside
    cases outside
  | leave signalled => exact ⟨signalled, rfl, rfl, rfl⟩
  | skip hosts | begin hosts | go hosts | finish hosts =>
    cases hosts with
    | evaluating => cases inside
    | ticking => cases outside
  | tick => cases outside
  | _ => cases inside

theorem selecting_cases (deed : Deed s x (.selecting tick) k told) :
    x = .selecting tick ∨ x = .entering ∨ ∃ stage, x = .ticking tick stage := by
  generalize eq : Call.selecting tick = y at deed
  cases deed with
  | rest => exact .inl rfl
  | enter => exact .inr (.inl rfl)
  | skip hosts | finish hosts =>
    cases hosts <;> cases eq
    exact .inr (.inr ⟨_, rfl⟩)
  | begin hosts | go hosts => cases hosts <;> cases eq
  | _ => cases eq

theorem opening_cases (deed : Deed s x (.ticking next .opening) k told) :
    x = .ticking next .opening ∨ (∃ tick, x = .selecting tick) ∧ k.shutdown = s.shutdown := by
  generalize eq : Call.ticking next .opening = y at deed
  cases deed with
  | rest => exact .inl rfl
  | tick => exact .inr ⟨⟨_, rfl⟩, rfl⟩
  | go hosts _ _ begun =>
    cases hosts <;> cases eq
    cases begun
  | skip hosts | begin hosts | finish hosts => cases hosts <;> cases eq
  | _ => cases eq

theorem shutdown_cases (deed : Deed s x y k told) :
    k.shutdown = s.shutdown ∨ x = .stopping ∧ y = .polling := by
  cases deed with
  | ask => exact .inr ⟨rfl, rfl⟩
  | _ => exact .inl rfl

end Deed

theorem leaves_of_signalled (head : s.ready.head? = some (.caller c))
    (call : s.call c = .selecting tick) (signalled : s.shutdown = true) :
    s.step = ({ s with lifecycle := s.lifecycle.markLoopExited }.cancel (.caller c)).answer c
      .run := by
  rw [step_of_caller head]
  simp only [stepCaller, call, stepLoop, signalled, if_true]

theorem roused_of_asked (head : s.ready.head? = some (.caller c)) (call : s.call c = .stopping)
    (asked : s.step.call c = .polling) (between : s.call d = .selecting tick) :
    s.shutdown = true ∨ .caller d ∈ s.step.ready := by
  rw [step_of_caller head] at asked ⊢
  simp only [stepCaller, call] at asked ⊢
  split at asked
  · have gone : (s.answer c (.stop false)).call c = .returned := call_setCall_returned s c
    rw [gone] at asked
    cases asked
  · next lifecycle _ =>
    unfold signalShutdown
    split
    · next signalled => exact .inl signalled
    · refine .inr ((mem_ready_wake _).2 (.inr ?_))
      have ne : d ≠ c := by
        rintro rfl
        rw [call] at between
        cases between
      have still : ({ s with lifecycle }.setCall c .polling).call d = .selecting tick :=
        (call_setCall_of_ne (s := { s with lifecycle }) _ ne).trans between
      have lt : d < ({ s with lifecycle }.setCall c .polling).calls.length := by
        refine Nat.lt_of_not_le fun le => ?_
        simp [Machine.call, List.getD_eq_getElem?_getD, List.getElem?_eq_none le] at still
      refine List.mem_map.2 ⟨d, List.mem_filter.2 ⟨List.mem_range.2 lt, ?_⟩, rfl⟩
      have isSelecting := congrArg Call.isSelecting still
      exact isSelecting

structure Looped (turn : Option Agent) (s : Machine) : Prop where
  active : s.lifecycle.loopActive = true →
    ∃ c, (s.call c).isLooping = true ∧ ∀ d, (s.call d).isLooping = true → d = c
  opening : ∀ c next, s.call c = .ticking next .opening →
    turn = some (.caller c) ∧ s.shutdown = false
  roused : s.shutdown = true → ∀ c tick, s.call c = .selecting tick → .caller c ∈ s.ready

namespace Looped

theorem still (looped : Looped none s) (lifecycle : s'.lifecycle = s.lifecycle)
    (shutdown : s'.shutdown = s.shutdown)
    (calls : ∀ c, s'.call c = s.call c ∨ s'.call c = freeCall (s.call c) ∨
      s.call c = .returned ∧ (s'.call c).isNew = true)
    (ready : ∀ b ∈ s.ready, b ∈ s'.ready) : Looped turn s' := by
  have looping (c : Nat) : (s'.call c).isLooping = (s.call c).isLooping := by
    rcases calls c with same | freed | ⟨returned, new⟩
    · rw [same]
    · rw [freed]
      cases s.call c <;> rfl
    · rw [returned]
      cases call : s'.call c <;> rw [call] at new <;> first | rfl | cases new
  constructor
  case active =>
    intro active
    rw [lifecycle] at active
    simpa only [looping] using looped.active active
  case opening =>
    intro c next opening
    have before : s.call c = .ticking next .opening := by
      rcases calls c with same | freed | ⟨_, new⟩
      · rw [← same, opening]
      · rw [opening] at freed
        cases call : s.call c with
        | ticking tick stage =>
          rw [call] at freed
          cases stage <;> cases freed
          rfl
        | _ =>
          rw [call] at freed
          cases freed
      · rw [opening] at new
        cases new
    cases (looped.opening c next before).1
  case roused =>
    intro signalled c tick between
    refine ready _ (looped.roused (shutdown ▸ signalled) c tick ?_)
    rcases calls c with same | freed | ⟨_, new⟩
    · rw [← same, between]
    · rw [between] at freed
      cases call : s.call c with
      | selecting =>
        rw [call] at freed
        exact freed.symm
      | _ =>
        rw [call] at freed
        cases freed
    · rw [between] at new
      cases new

theorem beside (looped : Looped (some a) s) (act : Act s a woken events s')
    (other : ∀ c, a ≠ .caller c) (apart : Apart s s') : Looped turn s' := by
  have same (c : Nat) : s'.call c = s.call c := act.calls c (other c)
  constructor
  case active =>
    simp only [apart.lifecycle, same]
    exact looped.active
  case opening =>
    intro c next opening
    rw [same] at opening
    exact absurd (Option.some.inj (looped.opening c next opening).1) (other c)
  case roused =>
    intro signalled c tick between
    rw [same] at between
    refine act.ready _ (other c).symm (.inl (looped.roused ?_ c tick between))
    rwa [← apart.shutdown]

theorem own (looped : Looped (some (.caller c)) s) (governed : s.Governed)
    (head : s.ready.head? = some (.caller c)) (act : Act s (.caller c) woken events s.step)
    (deed : Deed s (s.call c) (s.step.call c) s.step.control told)
    (goesOn : s.step.ready.head? = some (.caller c) → turn = some (.caller c)) :
    Looped turn s.step := by
  have others {d : Nat} (ne : d ≠ c) : s.step.call d = s.call d :=
    act.calls d fun eq => ne (Agent.caller.inj eq).symm
  constructor
  case active =>
    intro active
    rcases deed.active_cases active with ⟨before, same⟩ | ⟨idle, inside⟩
    · have looping (d : Nat) : (s.step.call d).isLooping = (s.call d).isLooping := by
        by_cases eq : d = c
        · rw [eq, same]
        · rw [others eq]
      simpa only [looping] using looped.active before
    · refine ⟨c, inside, fun d inside' => ?_⟩
      by_contra ne
      rw [others ne] at inside'
      have := of_countP governed.looping rfl inside'
      rw [governed.idle idle] at this
      cases this
  case opening =>
    intro d next opening
    by_cases eq : d = c
    · subst eq
      rw [opening] at deed
      rcases deed.opening_cases with before | ⟨⟨tick, between⟩, same⟩
      · rcases ticking_cases head before with ⟨stage, begun, stands⟩ | ⟨back, _⟩
        · rw [opening] at stands
          cases stands
          cases begun
        · rw [opening] at back
          cases back
      · have unsignalled : s.shutdown = false := Bool.eq_false_iff.2 fun signalled => by
          rw [leaves_of_signalled head between signalled] at opening
          have gone := call_setCall_returned
            ({ s with lifecycle := s.lifecycle.markLoopExited }.cancel (.caller d)) d
          cases opening.symm.trans gone
        refine ⟨goesOn ?_, Eq.trans same unsignalled⟩
        rcases selecting_cases head between with gone | ⟨_, kept, _⟩ | ⟨_, asleep, _⟩
        · rw [opening] at gone
          cases gone
        · exact kept
        · rw [opening] at asleep
          cases asleep
    · rw [others eq] at opening
      exact absurd (Agent.caller.inj (Option.some.inj (looped.opening d next opening).1)).symm eq
  case roused =>
    intro signalled d tick between
    by_cases eq : d = c
    · subst eq
      rw [between] at deed
      rcases deed.selecting_cases with same | entering | ⟨stage, ticking⟩
      · rcases deed.shutdown_cases with unchanged | ⟨stopping, _⟩
        · have before : s.shutdown = true := unchanged.symm.trans signalled
          rw [leaves_of_signalled head same before] at between
          have gone := call_setCall_returned
            ({ s with lifecycle := s.lifecycle.markLoopExited }.cancel (.caller d)) d
          cases between.symm.trans gone
        · cases same.symm.trans stopping
      · rcases entering_cases head entering with gone | ⟨_, kept⟩
        · cases between.symm.trans gone
        · exact List.mem_of_mem_head? kept
      · rcases ticking_cases head ticking with ⟨_, _, stands⟩ | ⟨_, kept⟩
        · cases between.symm.trans stands
        · exact List.mem_of_mem_head? kept
    · rw [others eq] at between
      have waiting (before : s.shutdown = true) : .caller d ∈ s.step.ready :=
        act.ready _ (by simpa using eq) (.inl (looped.roused before d tick between))
      rcases deed.shutdown_cases with unchanged | ⟨stopping, asked⟩
      · exact waiting (unchanged.symm.trans signalled)
      · exact (roused_of_asked head stopping asked between).elim waiting id

theorem step (looped : Looped (some a) s) (governed : s.Governed)
    (act : Act s a woken events s.step) (head : s.ready.head? = some a)
    (goesOn : s.step.ready.head? = some a → turn = some a) : Looped turn s.step := by
  rcases governed.step_cases head with ⟨other, apart⟩ | ⟨c, rfl, _, _, deed⟩
  · exact looped.beside act other apart
  · exact looped.own governed head act deed goesOn

end Looped

theorem shutdown_apply (s : Machine) {k : Command} (may : k.isOfLoop = true)
    (instant : k.isInstant = true) : (s.apply k).shutdown = s.shutdown := by
  cases k with
  | submit | shutdown | release => cases may
  | advance => cases instant
  | unhold job =>
    obtain ⟨_, _, _, _, eq⟩ := unhold_eq s job
    rw [apply, eq]
  | unholdAnswer q =>
    simp only [apply, unholdAnswer]
    split <;> rfl
  | _ => rfl

theorem calls_apply (s : Machine) {k : Command} (instant : k.isInstant = true) (c : Nat) :
    (s.apply k).call c = s.call c ∨ (s.apply k).call c = freeCall (s.call c) ∨
      s.call c = .returned ∧ ((s.apply k).call c).isNew = true := by
  rcases call_apply s instant c with same | freed | ⟨rfl, new, _⟩
  · exact .inl same
  · exact .inr (.inl freed)
  · exact .inr (.inr ⟨call_length s, new⟩)

theorem Run.looped (run : Run loopRule start cs turn s) (fresh : start.Fresh) :
    Looped turn s := by
  induction run with
  | start =>
    have returned (c : Nat) : start.call c = .returned := by simp [call, fresh.calls]
    constructor <;> simp [returned, fresh.lifecycle]
  | @command _ s k _ may instant ih =>
    exact ih.still (journal_apply s instant).2.2 (shutdown_apply s may instant)
      (calls_apply s instant) (spares_apply s instant).ready
  | elapse _ _ _ _ ih =>
    exact ih.still rfl rfl (fun _ => .inl rfl) fun _ mem => (mem_ready_wake _).2 (.inl mem)
  | choose _ _ _ ih => exact ih.still rfl rfl (fun _ => .inl rfl) fun _ => mem_ready_prefer
  | @move _ a _ run goesOn ih =>
    obtain ⟨_, _, act⟩ := run.act fresh
    exact ih.step (run.governed fresh) act run.head_of_turn fun _ => rfl
  | @pause _ a _ run waits ih =>
    obtain ⟨_, _, act⟩ := run.act fresh
    exact ih.step (run.governed fresh) act run.head_of_turn fun head => absurd head waits

structure Forward (m s : Machine) : Prop where
  rank : m.lifecycle.phase.rank ≤ s.lifecycle.phase.rank
  exited : m.lifecycle.phase ≠ .idle → m.lifecycle.loopActive = false →
    s.lifecycle.loopActive = false
  inside : ∀ c, (m.call c).isLooping = true → s.lifecycle.loopActive = true →
    (s.call c).isLooping = true

theorem Forward.refl (s : Machine) : Forward s s :=
  ⟨Nat.le_refl _, fun _ => id, fun _ inside _ => inside⟩

theorem Governed.entered (governed : s.Governed) (inside : (s.call c).isLooping = true) :
    s.lifecycle.loopActive = true ∧ s.lifecycle.phase ≠ .idle := by
  have active := of_countP governed.looping rfl inside
  refine ⟨active, fun idle => ?_⟩
  rw [governed.idle idle] at active
  cases active

theorem Forward.still (forward : Forward m s) (lifecycle : s'.lifecycle = s.lifecycle)
    (calls : ∀ c, (s.call c).isLooping = true → (s'.call c).isLooping = true) : Forward m s' := by
  constructor <;> rw [lifecycle]
  · exact forward.rank
  · exact forward.exited
  · exact fun c inside active => calls c (forward.inside c inside active)

theorem Forward.deed (forward : Forward m s) (governed : m.Governed)
    (deed : Deed s (s.call c) (s'.call c) s'.control told)
    (others : ∀ d, d ≠ c → s'.call d = s.call d) : Forward m s' := by
  constructor
  case rank => exact Nat.le_trans forward.rank deed.rank_le
  case exited =>
    intro entered left
    refine Bool.eq_false_iff.2 fun active => ?_
    rcases deed.active_cases active with ⟨before, _⟩ | ⟨idle, _⟩
    · rw [forward.exited entered left] at before
      cases before
    · have := Nat.lt_of_lt_of_le (Phase.rank_pos.2 entered) forward.rank
      exact Phase.rank_pos.1 this idle
  case inside =>
    intro d inside active
    rcases deed.active_cases active with ⟨before, same⟩ | ⟨idle, _⟩
    · have stays := forward.inside d inside before
      by_cases eq : d = c
      · rwa [eq, same, ← eq]
      · rwa [others d eq]
    · have := Nat.lt_of_lt_of_le (Phase.rank_pos.2 (governed.entered inside).2) forward.rank
      exact absurd idle (Phase.rank_pos.1 this)

theorem Onward.forward (on : Onward loopRule before m turn s)
    (run : Run loopRule start cs before m) (fresh : start.Fresh) : Forward m s := by
  have governed := run.governed fresh
  have step {cs : List Command} {a : Agent} {s : Machine} (forward : Forward m s)
      (run : Run loopRule start cs (some a) s) : Forward m s.step := by
    obtain ⟨_, _, act⟩ := run.act fresh
    rcases (run.governed fresh).step_cases run.head_of_turn with
      ⟨other, apart⟩ | ⟨c, rfl, _, _, deed⟩
    · refine forward.still apart.lifecycle fun c inside => ?_
      rwa [act.calls c (other c)]
    · exact forward.deed governed deed fun d ne =>
        act.calls d fun eq => ne (Agent.caller.inj eq).symm
  induction on with
  | here => exact .refl m
  | @command s k _ _ instant ih =>
    refine ih.still (journal_apply s instant).2.2 fun c inside => ?_
    rcases calls_apply s instant c with same | freed | ⟨returned, _⟩
    · rwa [same]
    · rw [freed]
      cases call : s.call c <;> rw [call] at inside <;> first | rfl | cases inside
    · rw [returned] at inside
      cases inside
  | elapse _ _ _ _ ih | choose _ _ _ ih => exact ih.still rfl fun _ => id
  | move on _ ih | pause on _ ih =>
    obtain ⟨_, run⟩ := run.onward on
    exact step ih run

def EndsOnWay (before : Option Agent) (m : Machine) (c : Nat) (turn : Option Agent)
    (s : Machine) : Prop :=
  ∃ s' o, Onward loopRule before m (some (.caller c)) s' ∧ s'.EndsPass c o ∧
    Onward loopRule (some (.caller c)) s' turn s

theorem ends_of_ticking {stage : Pass.Stage} (head : s.ready.head? = some (.caller c))
    (call : s.call c = .ticking next stage) :
    (∃ stage', s.step.call c = .ticking next stage') ∨
      (∃ o, s.EndsPass c o) ∧ s.step.call c = .selecting next := by
  have same := (moves_step s c stage).keeps.call c
  rw [step_of_caller head]
  simp only [stepCaller, call, stepPass]
  cases turn : Pass.step s c stage with
  | mk s₁ turn' =>
    rw [turn] at same
    have set (x : Call) : (s₁.setCall c x).call c = x :=
      call_setCall_self (by rw [same, call]; simp) x
    cases turn' with
    | goOn stage' | wait stage' => exact .inl ⟨stage', set _⟩
    | ended o =>
      have ends : s.EndsPass c o := ⟨stage, s₁, by rw [call]; rfl, turn⟩
      exact .inr ⟨⟨o, ends⟩, set _⟩

theorem Onward.ends {stage : Pass.Stage} (on : Onward loopRule before m turn s)
    (run : Run loopRule start cs before m) (fresh : start.Fresh)
    (call : m.call c = .ticking next stage) :
    (∃ stage', s.call c = .ticking next stage') ∨ EndsOnWay before m c turn s := by
  have onOn {turn turn' : Option Agent} {s s' : Machine} (ends : EndsOnWay before m c turn s)
      (on : Onward loopRule turn s turn' s') : EndsOnWay before m c turn' s' := by
    obtain ⟨s₁, o, first, ends, rest⟩ := ends
    exact ⟨s₁, o, first, ends, rest.trans on⟩
  have step {a : Agent} {turn : Option Agent} {s : Machine}
      (on : Onward loopRule before m (some a) s)
      (ih : (∃ stage', s.call c = .ticking next stage') ∨ EndsOnWay before m c (some a) s)
      (last : Onward loopRule (some a) s turn s.step) :
      (∃ stage', s.step.call c = .ticking next stage') ∨ EndsOnWay before m c turn s.step := by
    rcases ih with ⟨stage', stands⟩ | ends
    · obtain ⟨_, run⟩ := run.onward on
      obtain ⟨_, _, act⟩ := run.act fresh
      by_cases own : a = .caller c
      · subst own
        rcases ends_of_ticking run.head_of_turn stands with goes | ⟨⟨o, ends⟩, _⟩
        · exact .inl goes
        · exact .inr ⟨s, o, on, ends, last⟩
      · exact .inl ⟨stage', by rw [act.calls c own, stands]⟩
    · exact .inr (onOn ends last)
  induction on with
  | here => exact .inl ⟨stage, call⟩
  | @command s k _ may instant ih =>
    rcases ih with ⟨stage', stands⟩ | ends
    · refine .inl ?_
      rcases calls_apply s instant c with same | freed | ⟨returned, _⟩
      · exact ⟨stage', by rw [same, stands]⟩
      · exact ⟨freeStage stage', by rw [freed, stands]; rfl⟩
      · cases stands.symm.trans returned
    · exact .inr (onOn ends (Onward.here.command may instant))
  | elapse _ settled later timely ih =>
    exact ih.imp id fun ends => onOn ends (Onward.here.elapse settled later timely)
  | choose _ ready may ih => exact ih.imp id fun ends => onOn ends (Onward.here.choose ready may)
  | move on goesOn ih => exact step on ih (Onward.here.move goesOn)
  | pause on waits ih => exact step on ih (Onward.here.pause waits)

def Enters (turn : Option Agent) (s : Machine) (c : Nat) : Prop :=
  turn = some (.caller c) ∧ s.call c = .entering ∧ (s.step.call c).isLooping = true

/-- The loop at a state `s`, and between an earlier state `m` and `s`. A stop has been asked for
when the phase is not early. -/
structure StartsAndStops (before : Option Agent) (m : Machine) (turn : Option Agent)
    (s : Machine) : Prop where
  phases : m.lifecycle.phase.rank ≤ s.lifecycle.phase.rank
  enters : ∀ c, turn = some (.caller c) → s.call c = .entering →
    (s.lifecycle.phase = .idle ∧ (s.step.call c).isLooping = true ∧
        s.step.lifecycle.phase = .running ∧ s.step.lifecycle.loopActive = true) ∨
      (s.lifecycle.phase ≠ .idle ∧ s.step = s.answer c .run)
  once : ∀ c d, Enters before m c → Enters turn s d → s = m ∧ d = c
  barred : m.lifecycle.isEarly = false → ∀ c, ¬ Enters turn s c
  asks : ∀ c, turn = some (.caller c) → s.call c = .stopping → s.step.lifecycle.isEarly = false
  first : s.history.count (.answered (.stop true)) ≤ 1
  opens : m.lifecycle.isEarly = false → ∀ c next, s.call c ≠ .ticking next .opening
  leaves : m.lifecycle.isEarly = false → ∀ c tick, s.call c = .selecting tick →
    .caller c ∈ s.ready ∧ (turn = some (.caller c) → s.step.call c = .returned ∧
      s.step.lifecycle.loopActive = false ∧ s.step.history = s.history ++ [.answered .run])
  ends : ∀ c next stage, m.call c = .ticking next stage →
    (∃ stage', s.call c = .ticking next stage') ∨ EndsOnWay before m c turn s
  spared : ∀ c, (s.call c).isLooping = true →
    s.pool.released = false ∧ s.lifecycle.phase ≠ .stopped
  running : s.lifecycle.loopActive = true ↔ ∃ c, (s.call c).isLooping = true
  alone : ∀ c d, (s.call c).isLooping = true → (s.call d).isLooping = true → d = c
  inside : ∀ c, (m.call c).isLooping = true →
    (s.lifecycle.loopActive = true ↔ (s.call c).isLooping = true)
  returns : ∀ c, turn = some (.caller c) → (s.call c).isLooping = true →
    (s.step.call c).isLooping = false → s.shutdown = true ∧ s.step.call c = .returned ∧
      s.step.lifecycle.loopActive = false ∧ s.step.history = s.history ++ [.answered .run]
  exited : m.lifecycle.phase ≠ .idle → m.lifecycle.loopActive = false →
    s.lifecycle.loopActive = false

theorem entered_or_barred (head : s.ready.head? = some (.caller c))
    (call : s.call c = .entering) :
    (s.lifecycle.phase = .idle ∧ (s.step.call c).isLooping = true ∧
        s.step.lifecycle.phase = .running ∧ s.step.lifecycle.loopActive = true) ∨
      (s.lifecycle.phase ≠ .idle ∧ s.step = s.answer c .run) := by
  rw [step_of_caller head]
  by_cases idle : s.lifecycle.phase = .idle
  · have runs : s.lifecycle.markRunning? =
        some { s.lifecycle with phase := .running, loopActive := true } := if_pos idle
    simp only [stepCaller, call, runs]
    refine .inl ⟨idle, ?_, rfl, rfl⟩
    have ne : s.call c ≠ .returned := by simp [call]
    have stands := call_setCall_self (s := { s with
      lifecycle := { s.lifecycle with phase := .running, loopActive := true } }) ne
      (.selecting (s.nanos + s.interval.nanos))
    exact congrArg Call.isLooping stands
  · have barred : s.lifecycle.markRunning? = none := if_neg idle
    exact .inr ⟨idle, by simp only [stepCaller, call, barred]⟩

theorem idle_of_enters (head : s.ready.head? = some (.caller c)) (enters : Enters turn s c) :
    s.lifecycle.phase = .idle := by
  obtain ⟨_, call, inside⟩ := enters
  rcases entered_or_barred head call with ⟨idle, _⟩ | ⟨_, eq⟩
  · exact idle
  · have gone : (s.answer c .run).call c = .returned := call_setCall_returned s c
    rw [eq, gone] at inside
    cases inside

theorem isEarly_of_stopping (head : s.ready.head? = some (.caller c))
    (call : s.call c = .stopping) : s.step.lifecycle.isEarly = false := by
  rw [step_of_caller head]
  simp only [stepCaller, call]
  cases phase : s.lifecycle.phase with
  | idle | running =>
    have asked : s.lifecycle.requestStop? = some { s.lifecycle with phase := .draining } := by
      simp only [Lifecycle.requestStop?, phase]
    rw [asked]
    exact congrArg (·.lifecycle.isEarly) (control_signalShutdown _)
  | draining | stopped =>
    have asked : s.lifecycle.requestStop? = none := by
      simp only [Lifecycle.requestStop?, phase]
    rw [asked]
    change s.lifecycle.isEarly = false
    simp [Lifecycle.isEarly, phase]

namespace Governed

theorem shutdown_of_late (governed : s.Governed) (late : s.lifecycle.isEarly = false) :
    s.shutdown = true := by
  refine governed.signalled ?_
  cases phase : s.lifecycle.phase <;> simp [Lifecycle.isEarly, phase] at late ⊢

theorem spared (governed : s.Governed) (inside : (s.call c).isLooping = true) :
    s.pool.released = false ∧ s.lifecycle.phase ≠ .stopped := by
  have active := (governed.entered inside).1
  have unreleased : s.pool.released = false := Bool.eq_false_iff.2 fun released => by
    rw [(governed.released released).2] at active
    cases active
  refine ⟨unreleased, fun stopped => ?_⟩
  rw [(governed.gone stopped).1] at unreleased
  cases unreleased

theorem exits (governed : s.Governed) (head : s.ready.head? = some (.caller c))
    (inside : (s.call c).isLooping = true) (outside : (s.step.call c).isLooping = false) :
    s.shutdown = true ∧ s.step.call c = .returned ∧ s.step.lifecycle.loopActive = false ∧
      s.step.history = s.history ++ [.answered .run] := by
  rcases governed.step_cases head with ⟨other, _⟩ | ⟨d, eq, told, history, deed⟩
  · exact absurd rfl (other c)
  · cases eq
    obtain ⟨up, returned, left, rfl⟩ := deed.leaves inside outside
    exact ⟨up, returned, left, history⟩

end Governed

theorem Onward.eq_of_enters (on : Onward loopRule before m turn s)
    (run : Run loopRule start cs before m) (fresh : start.Fresh) (first : Enters before m c)
    (again : Enters turn s d) : s = m ∧ d = c := by
  obtain ⟨rfl, call, _⟩ := id first
  have entered := (entered_or_barred run.head_of_turn call).resolve_right fun ⟨late, _⟩ =>
    late (idle_of_enters run.head_of_turn first)
  rcases on.here_or_step with ⟨rfl, rfl⟩ | ⟨turn₁, one, rest⟩
  · exact ⟨rfl, (Agent.caller.inj (Option.some.inj again.1)).symm⟩
  · obtain ⟨_, run₁⟩ := run.onward one
    obtain ⟨_, after⟩ := run₁.onward rest
    have rank := (rest.forward run₁ fresh).rank
    obtain ⟨rfl, _⟩ := id again
    rw [entered.2.2.1, idle_of_enters after.head_of_turn again] at rank
    cases rank

/-- However runs, stops, ticks and passes follow one another, one call at most is the loop, and no
stop slips past it. -/
theorem Run.startsAndStops {c : Config} {timed : Bool} {scenario : Scenario}
    (made : ofConfig c timed scenario = .made start) (run : Run loopRule start cs before m)
    (on : Onward loopRule before m turn s) : StartsAndStops before m turn s := by
  have fresh := fresh_ofConfig made
  have forward := on.forward run fresh
  obtain ⟨_, after⟩ := run.onward on
  have governed := after.governed fresh
  have looped := after.looped fresh
  -- What has been asked for stays asked for, and has been signalled.
  have late (asked : m.lifecycle.isEarly = false) : s.lifecycle.isEarly = false :=
    Lifecycle.isEarly_eq_false.2 (Nat.le_trans (Lifecycle.isEarly_eq_false.1 asked) forward.rank)
  have signalled (asked : m.lifecycle.isEarly = false) : s.shutdown = true :=
    governed.shutdown_of_late (late asked)
  constructor
  case phases => exact forward.rank
  case enters =>
    rintro c rfl call
    exact entered_or_barred after.head_of_turn call
  case once => exact fun c d first again => on.eq_of_enters run fresh first again
  case barred =>
    intro asked c enters
    obtain ⟨rfl, _⟩ := id enters
    have := idle_of_enters after.head_of_turn enters
    have := late asked
    simp_all [Lifecycle.isEarly]
  case asks =>
    rintro c rfl call
    exact isEarly_of_stopping after.head_of_turn call
  case first =>
    rw [(after.concluded fresh).once]
    unfold Lifecycle.ends
    split <;> omega
  case opens =>
    intro asked c next opening
    have := (looped.opening c next opening).2
    rw [signalled asked] at this
    cases this
  case leaves =>
    intro asked c tick between
    refine ⟨looped.roused (signalled asked) c tick between, ?_⟩
    rintro rfl
    have step := leaves_of_signalled after.head_of_turn between (signalled asked)
    have gone : s.step.call c = .returned := by
      rw [step]
      exact call_setCall_returned
        ({ s with lifecycle := s.lifecycle.markLoopExited }.cancel (.caller c)) c
    exact (governed.exits after.head_of_turn (by rw [between]; rfl) (by rw [gone]; rfl)).2
  case ends => exact fun c next stage call => on.ends run fresh call
  case spared => exact fun c => governed.spared
  case running =>
    constructor
    · intro active
      obtain ⟨c, inside, _⟩ := looped.active active
      exact ⟨c, inside⟩
    · rintro ⟨c, inside⟩
      exact (governed.entered inside).1
  case alone =>
    intro c d inside inside'
    obtain ⟨e, _, only⟩ := looped.active (governed.entered inside).1
    exact (only d inside').trans (only c inside).symm
  case inside =>
    exact fun c entered => ⟨forward.inside c entered, fun stays => (governed.entered stays).1⟩
  case returns =>
    rintro c rfl inside outside
    exact governed.exits after.head_of_turn inside outside
  case exited => exact forward.exited

def stoppedLoop : Machine :=
  (quickLoop.play [.write (.putJob "a" heldItem.policies), .run, .run, .advance 100, .advance 150,
    .stop, .stop]).1

def overdueLoop : Machine :=
  Machine.run 8 ((stoppedLoop.play [.advance 100]).1.apply (.unhold "a"))

theorem onward_overdueLoop (fresh : quickLoop.Fresh) :
    (∃ cs, Run loopRule quickLoop cs none stoppedLoop) ∧
      Onward loopRule none stoppedLoop (some (.caller 0)) overdueLoop := by
  have lets : loopRule.LetsFirst := fun _ _ _ => trivial
  have run := loop_play [.write (.putJob "a" heldItem.policies), .run, .run, .advance 100,
    .advance 150, .stop, .stop] fresh (by simp [Command.isOfLoop])
  have settled : stoppedLoop.ready = [] := by decide +kernel
  have later : Run loopRule stoppedLoop _ none (stoppedLoop.play [.advance 100]).1 :=
    Run.start.play lets (run.punctual fresh.punctual) settled fun _ _ k _ _ mem _ => by
      rw [List.mem_singleton.1 mem]
      rfl
  have amid := (later.command (c := .unhold "a") rfl rfl).amid lets 8 (a := .caller 0)
    (by decide +kernel)
  exact ⟨⟨_, run⟩, Onward.here.run amid⟩

theorem startsAndStops_overdueLoop :
    stoppedLoop.lifecycle.phase = .draining ∧ (stoppedLoop.call 0).isLooping = true ∧
      overdueLoop.call 0 = .selecting (300 * 10 ^ 6) ∧ 300 * 10 ^ 6 ≤ overdueLoop.nanos ∧
      StartsAndStops none stoppedLoop (some (.caller 0)) overdueLoop := by
  obtain ⟨⟨_, run⟩, on⟩ := onward_overdueLoop (fresh_ofConfig made_quickLoop)
  exact ⟨by decide +kernel, by decide +kernel, by decide +kernel, by decide +kernel,
    Run.startsAndStops made_quickLoop run on⟩

end Machine

end Autoscaling
