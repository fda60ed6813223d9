import Autoscaling.Proofs.Machine.Caller
import Autoscaling.Proofs.Machine.Turns
import Autoscaling.Proofs.Pool.Staffed

namespace Autoscaling.Machine

structure Steady (turn : Option Agent) (s : Machine) : Prop where
  sound : s.pool.Sound
  linked : s.Linked
  busy : ∀ b, s.pool.Busy b → turn = some b
  timely : s.pool.Timely
  manned : s.pool.Manned
  awake : ∀ b, s.Awake b → b ∈ s.ready
  held : ∀ j w, (j, w) ∈ s.evaluationLine → ∃ i, s.pool.worker w = .evaluating i .held
  once : (s.evaluationLine.map (·.2)).Nodup
  ledger : s.pool.Ledger s.shutdown s.itemEvents

variable {s s' : Machine} {turn : Option Agent} {a : Agent} {woken : List Agent}
  {events : List Event}

theorem call_begin (s : Machine) (x : Call) (c : Nat) :
    (s.begin x).call c = if c = s.calls.length then x else s.call c := by
  change (s.calls ++ [x]).getD c .returned = if _ then _ else s.calls.getD c .returned
  simp only [List.getD_eq_getElem?_getD]
  rcases Nat.lt_trichotomy c s.calls.length with lt | eq | gt
  · rw [List.getElem?_append_left lt, if_neg (Nat.ne_of_lt lt)]
  · simp [eq]
  · rw [if_neg (Nat.ne_of_gt gt), List.getElem?_eq_none (by simp; omega),
      List.getElem?_eq_none (Nat.le_of_lt gt)]

theorem call_length (s : Machine) : s.call s.calls.length = .returned := by
  simp [call, List.getD_eq_getElem?_getD]

theorem map_setCall (f : Call → α) {x : Call} {c d : Nat} (h : f x = f (s.call c)) :
    f ((s.setCall c x).call d) = f (s.call d) := by
  by_cases eq : d = c
  · subst eq
    rcases Nat.lt_or_ge d s.calls.length with lt | ge
    · rw [← h]
      simp [call, setCall, lt]
    · simp [call, setCall, List.getD_eq_getElem?_getD, ge]
  · rw [call_setCall_of_ne x eq]

theorem item?_freeCall (x : Call) : (freeCall x).item? = x.item? := by
  have stage (st : Pass.Stage) : (freeStage st).item? = st.item? := by cases st <;> rfl
  cases x with
  | evaluating st | ticking next st => exact stage st
  | _ => rfl

theorem begins_freeCall (x : Call) : (freeCall x).begins = x.begins := by
  cases x <;> rfl

namespace Steady

theorem alone (steady : Steady turn s) (h : turn = some a) : s.pool.Alone a := by
  intro t mem queued
  have own := steady.busy (.caller t.caller) ⟨t, mem, rfl, by rw [queued]; rfl⟩
  exact Option.some.inj (h.symm.trans own)

theorem not_busy (steady : Steady none s) (b : Agent) : ¬s.pool.Busy b := fun busy => by
  cases steady.busy b busy

theorem alone_between (steady : Steady none s) (a : Agent) : s.pool.Alone a := fun t mem queued =>
  absurd ⟨t, mem, rfl, by rw [queued]; rfl⟩ (steady.not_busy (.caller t.caller))

theorem awake_other (steady : Steady turn s)
    (pool : s.pool.Move s.now s.shutdown a woken events s'.pool)
    (beside : Beside s a woken events s') {b : Agent} (other : b ≠ a) (awake : s'.Awake b) :
    b ∈ s'.ready := by
  have before (h : s.Awake b) : b ∈ s'.ready := beside.ready b other (.inl (steady.awake b h))
  rcases awake with summons | due
  · rcases pool.wakes b other summons with summons | mem
    · exact before (.inl summons)
    · exact beside.ready b other (.inr mem)
  · cases b with
    | evaluation w => exact due.elim
    | worker w =>
      obtain ⟨d, waits, none⟩ := due
      rcases pool.worker_cases w with same | ⟨rfl, _⟩ | ⟨_, i, ⟨x, eq⟩ | eq⟩ | ⟨_, eq⟩
      · rw [same] at waits
        exact before (.inr ⟨d, waits, fun mem => none (beside.timers d _ other mem)⟩)
      · exact absurd rfl other
      all_goals
        rw [eq] at waits
        cases waits
    | caller c =>
      have same := beside.calls c fun eq => other eq.symm
      exact before (.inr ((congrArg Call.begins same).symm.trans due))

theorem linked_act (steady : Steady turn s) (act : Act s a woken events s') : s'.Linked := by
  intro c i
  by_cases own : a = .caller c
  · exact act.linked c own i
  · rw [act.pool.mem_entries steady.sound own, act.calls c own]
    exact steady.linked c i

theorem held_act (steady : Steady turn s) (act : Act s a woken events s') {j : String} {w : Nat}
    (mem : (j, w) ∈ s'.evaluationLine) : ∃ i, s'.pool.worker w = .evaluating i .held := by
  have before (mem : (j, w) ∈ s.evaluationLine) : ∃ i, s'.pool.worker w = .evaluating i .held := by
    obtain ⟨i, held⟩ := steady.held j w mem
    refine ⟨i, ?_⟩
    rcases act.pool.worker_cases w with same | ⟨_, none⟩ | ⟨rfl, _⟩ | ⟨gone, _⟩
    · rw [same, held]
    · exact absurd held (none i .held)
    · exact act.held w i rfl held
    · cases gone.symm.trans held
  rcases act.line with same | ⟨v, i, rfl, _, held, line⟩
  · exact before (same ▸ mem)
  · rw [line, List.mem_append, List.mem_singleton] at mem
    rcases mem with mem | eq
    · exact before mem
    · cases eq
      exact ⟨i, held⟩

theorem once_act (steady : Steady turn s) (act : Act s a woken events s') :
    (s'.evaluationLine.map (·.2)).Nodup := by
  rcases act.line with same | ⟨w, i, rfl, spawned, _, line⟩
  · rw [same]
    exact steady.once
  · rw [line, List.map_append, List.nodup_append_comm, List.map_singleton, List.singleton_append]
    refine List.nodup_cons.2 ⟨fun mem => ?_, steady.once⟩
    obtain ⟨⟨j, v⟩, listed, eq⟩ := List.mem_map.1 mem
    obtain ⟨i', held⟩ := steady.held j v listed
    cases eq
    cases spawned.symm.trans held

theorem act (steady : Steady (some a) s) (act : Act s a woken events s')
    (busy : ∀ b, s'.pool.Busy b → turn = some b) (awake : s'.Awake a → a ∈ s'.ready) :
    Steady turn s' := by
  have alone := steady.alone rfl
  have only (b : Agent) (busy : s.pool.Busy b) : b = a :=
    (Option.some.inj (steady.busy b busy)).symm
  constructor
  case sound => exact steady.sound.move act.pool
  case linked => exact steady.linked_act act
  case busy => exact busy
  case timely => exact act.pool.timely only steady.timely
  case manned => exact steady.manned.move steady.sound act.pool alone steady.timely
  case awake =>
    intro b awake'
    by_cases eq : b = a
    · subst eq
      exact awake awake'
    · exact steady.awake_other act.pool act.toBeside eq awake'
  case held => exact fun j w => steady.held_act act
  case once => exact steady.once_act act
  case ledger =>
    rw [act.itemEvents]
    exact (steady.ledger.move steady.sound act.pool alone).mono act.shutdown

theorem move (steady : Steady (some a) s) (act : Act s a woken events s')
    (goesOn : s'.ready.head? = some a) : Steady (some a) s' := by
  refine steady.act act (fun b busy => ?_) fun _ => List.mem_of_head? goesOn
  rcases act.pool.busy busy with rfl | before
  · rfl
  · exact steady.busy b before

theorem pause (steady : Steady (some a) s) (act : Act s a woken events s')
    (waits : s'.ready.head? ≠ some a) : Steady none s' := by
  have idle := act.goesOn.resolve_left waits
  refine steady.act act (fun b busy => ?_) fun awake => absurd awake idle
  have own : b = a := (act.pool.busy busy).elim id fun before =>
    (Option.some.inj (steady.busy b before)).symm
  subst own
  exact absurd (.inl busy.summons) idle

theorem frame (steady : Steady turn s) (pool : s'.pool = s.pool)
    (item : ∀ c, (s'.call c).item? = (s.call c).item?)
    (begins : ∀ c, (s'.call c).begins = true → (s.call c).begins = true ∨ .caller c ∈ s'.ready)
    (ready : ∀ b ∈ s.ready, b ∈ s'.ready)
    (timers : ∀ timer ∈ s.timers, timer ∈ s'.timers ∨ timer.2 ∈ s'.ready)
    (line : s'.evaluationLine = s.evaluationLine) (itemEvents : s'.itemEvents = s.itemEvents)
    (shutdown : s.shutdown = true → s'.shutdown = true) : Steady turn s' := by
  constructor
  case sound => rw [pool]; exact steady.sound
  case linked =>
    intro c i
    rw [pool, item]
    exact steady.linked c i
  case busy => rw [pool]; exact steady.busy
  case timely => rw [pool]; exact steady.timely
  case manned => rw [pool]; exact steady.manned
  case awake =>
    intro b awake
    have before (h : s.Awake b) : b ∈ s'.ready := ready b (steady.awake b h)
    rcases awake with summons | due
    · rw [pool] at summons
      exact before (.inl summons)
    · cases b with
      | evaluation w => exact due.elim
      | worker w =>
        obtain ⟨d, waits, none⟩ := due
        rw [pool] at waits
        by_cases mem : (d, .worker w) ∈ s.timers
        · exact (timers _ mem).resolve_left none
        · exact before (.inr ⟨d, waits, mem⟩)
      | caller c => exact (begins c due).elim (fun h => before (.inr h)) id
  case held => rw [pool, line]; exact steady.held
  case once => rw [line]; exact steady.once
  case ledger =>
    rw [pool, itemEvents]
    exact steady.ledger.mono shutdown

theorem begin (steady : Steady turn s) {x : Call} (none : x.item? = none) :
    Steady turn (s.begin x) := by
  refine steady.frame rfl (fun c => ?_) (fun c begins => ?_)
    (fun b mem => (mem_ready_wake _).2 (.inl mem)) (fun _ => .inl) rfl rfl id
  · rw [call_begin]
    split
    · next eq => rw [eq, call_length, none]; rfl
    · rfl
  · rw [call_begin] at begins
    split at begins
    · next eq =>
      rw [eq]
      exact .inr ((mem_ready_wake _).2 (.inr (List.mem_singleton_self _)))
    · exact .inl begins

theorem elapse (steady : Steady turn s) (t : Nat) : Steady turn (s.elapse t) := by
  refine steady.frame rfl (fun _ => rfl) (fun _ => .inl) (fun b mem => ?_) (fun timer mem => ?_) rfl
    rfl id
  · exact (mem_ready_wake _).2 (.inl mem)
  · by_cases due : timer.1 ≤ t
    · refine .inr ((mem_ready_wake _).2 (.inr ?_))
      exact List.mem_map_of_mem (List.mem_filter.2 ⟨mem, decide_eq_true due⟩)
    · exact .inl (List.mem_filter.2 ⟨mem, decide_eq_true (Nat.lt_of_not_le due)⟩)

theorem prefer (steady : Steady none s) (a : Agent) : Steady (some a) (s.prefer a) := by
  have same : Steady none (s.prefer a) :=
    steady.frame rfl (fun _ => rfl) (fun _ => .inl) (fun _ => mem_ready_prefer) (fun _ => .inl) rfl
      rfl id
  exact { same with busy := fun b busy => absurd busy (same.not_busy b) }

theorem unhold (steady : Steady none s) (job : String) : Steady none (s.unhold job) := by
  unfold Machine.unhold
  split
  · next j w found =>
    have mem := List.mem_of_find?_eq_some found
    obtain ⟨i, held⟩ := steady.held j w mem
    have move : s.pool.Move s.now s.shutdown (.evaluation w) [] []
        (s.pool.setWorker w (.evaluating i .freed)) := .progress held (by simp)
    rw [freeEvaluation_of_held
      (s := { s with evaluationLine := s.evaluationLine.erase (j, w) }) held]
    have beside : Beside s (.evaluation w) [] []
        ((setProgress { s with evaluationLine := s.evaluationLine.erase (j, w) } w i .freed).wake
          [.evaluation w]) :=
      ((((Beside.refl s (.evaluation w)).evaluationLine _).pool _).wake _).forget fun _ mem =>
        absurd mem List.not_mem_nil
    constructor
    case sound => exact steady.sound.move move
    case linked => exact steady.linked
    case busy =>
      intro b busy
      rcases move.busy busy with rfl | before
      · exact busy.elim
      · exact steady.busy b before
    case timely => exact steady.timely
    case manned => exact steady.manned
    case awake =>
      intro b awake
      by_cases eq : b = .evaluation w
      · exact (mem_ready_wake _).2 (.inr (List.mem_singleton.2 eq))
      · exact steady.awake_other move beside eq awake
    case held =>
      intro k v listed
      obtain ⟨i', held'⟩ := steady.held k v (List.mem_of_mem_erase listed)
      have ne : v ≠ w := by
        rintro rfl
        have eq := List.inj_on_of_nodup_map steady.once (List.mem_of_mem_erase listed) mem rfl
        rw [eq] at listed
        exact (steady.once.of_map.mem_erase_iff.1 listed).1 rfl
      exact ⟨i', ((Pool.worker_setWorker held (by simp) _ v).trans (if_neg ne)).trans held'⟩
    case once => exact steady.once.sublist (List.erase_sublist.map _)
    case ledger =>
      have ledger := steady.ledger.move steady.sound move (steady.alone_between _)
      rwa [List.append_nil] at ledger
  · exact steady.frame rfl (fun _ => rfl) (fun _ => .inl) (fun _ => id) (fun _ => .inl) rfl rfl id

theorem move_apply (steady : Steady turn s) {c : Command} (instant : c.isInstant = true) :
    ∃ w, s.pool.Move s.now s.shutdown (.evaluation w) [] [] (s.apply c).pool := by
  have stay {s' : Machine} (same : s'.pool = s.pool) :
      ∃ w, s.pool.Move s.now s.shutdown (.evaluation w) [] [] s'.pool := ⟨0, same ▸ .stay⟩
  cases c with
  | advance millis => cases instant
  | unhold job =>
    simp only [Machine.apply, Machine.unhold]
    split
    · next j w found =>
      obtain ⟨i, held⟩ := steady.held j w (List.mem_of_find?_eq_some found)
      refine ⟨w, ?_⟩
      simp only [freeEvaluation, held]
      exact .progress (y := .freed) held (by simp)
    · exact stay rfl
  | unholdAnswer q =>
    simp only [Machine.apply, unholdAnswer]
    split <;> exact stay rfl
  | shutdown => exact stay (pool_signalShutdown s)
  | _ => exact stay rfl

theorem worker_apply (steady : Steady turn s) {c : Command} (instant : c.isInstant = true)
    (w : Nat) : (s.apply c).pool.worker w = s.pool.worker w ∨
      ∃ i, s.pool.worker w = .evaluating i .held ∧
        (s.apply c).pool.worker w = .evaluating i .freed := by
  cases c with
  | advance => cases instant
  | unhold job =>
    simp only [Machine.apply, Machine.unhold]
    split
    · next j v found =>
      obtain ⟨i, held⟩ := steady.held j v (List.mem_of_find?_eq_some found)
      rw [freeEvaluation_of_held
        (s := { s with evaluationLine := s.evaluationLine.erase (j, v) }) held]
      have workers := Pool.worker_setWorker held (by simp) (.evaluating i .freed) w
      split at workers
      · next own => exact .inr ⟨i, own ▸ held, workers⟩
      · exact .inl workers
    · exact .inl rfl
  | unholdAnswer q =>
    simp only [Machine.apply, unholdAnswer]
    split <;> exact .inl rfl
  | shutdown =>
    rw [Machine.apply, pool_signalShutdown]
    exact .inl rfl
  | _ => exact .inl rfl

theorem apply (steady : Steady none s) {c : Command} (instant : c.isInstant = true) :
    Steady none (s.apply c) := by
  cases c with
  | advance millis => cases instant
  | submit items => exact steady.begin (by cases items <;> rfl)
  | evaluate | run | stop | release => exact steady.begin rfl
  | unhold job => exact steady.unhold job
  | unholdAnswer q =>
    simp only [Machine.apply, unholdAnswer]
    split
    · next m c _ =>
      have kept (d : Nat) := map_setCall Call.item? (s := s) (c := c) (d := d)
        (x := freeCall (s.call c)) (item?_freeCall _)
      have begins (d : Nat) := map_setCall Call.begins (s := s) (c := c) (d := d)
        (x := freeCall (s.call c)) (begins_freeCall _)
      exact steady.frame rfl kept (fun d h => .inl ((begins d).symm.trans h))
        (fun b mem => (mem_ready_wake _).2 (.inl mem)) (fun _ => .inl) rfl rfl id
    · exact steady.frame rfl (fun _ => rfl) (fun _ => .inl) (fun _ => id) (fun _ => .inl) rfl rfl id
  | shutdown =>
    change Steady none s.signalShutdown
    unfold signalShutdown
    split
    · exact steady
    · exact steady.frame rfl (fun _ => rfl) (fun _ => .inl)
        (fun b mem => (mem_ready_wake _).2 (.inl mem)) (fun _ => .inl) rfl rfl fun _ => rfl
  | write w =>
    exact steady.frame rfl (fun _ => rfl) (fun _ => .inl) (fun _ => id) (fun _ => .inl) rfl rfl id
  | storeFails on =>
    exact steady.frame rfl (fun _ => rfl) (fun _ => .inl) (fun _ => id) (fun _ => .inl) rfl rfl id
  | change x =>
    exact steady.frame rfl (fun _ => rfl) (fun _ => .inl) (fun _ => id) (fun _ => .inl) rfl rfl id

end Steady

theorem Fresh.steady (fresh : s.Fresh) : Steady none s := by
  obtain ⟨capacity, expiry, pool⟩ := fresh.pool
  have returned (c : Nat) : s.call c = .returned := by simp [call, fresh.calls]
  have exited (w : Nat) : s.pool.worker w = .exited := by simp [pool, Pool.worker]
  have none : s.pool.submissions = [] := by simp [pool]
  have itemEvents : s.itemEvents = [] := by simp [itemEvents, history, fresh.journal]
  constructor
  case sound => rw [pool]; exact Pool.sound_fresh capacity expiry
  case linked => intro c i; simp [pool, Pool.entries, returned, Call.item?]
  case busy =>
    intro b busy
    cases b <;> simp [Pool.Busy, exited, none] at busy
  case timely => intro t mem; simp [pool] at mem
  case manned => intro queued; simp [pool] at queued
  case awake =>
    intro b awake
    cases b <;>
      simp [Awake, Pool.Summons, exited, returned, Call.begins, none] at awake
  case held => simp [fresh.evaluationLine]
  case once => simp [fresh.evaluationLine]
  case ledger =>
    rw [itemEvents, pool]
    constructor
    case order => exact ⟨[], rfl, rfl⟩
    all_goals simp [Pool.held]

theorem Run.steady {rule : Rule} {start : Machine} (fresh : start.Fresh)
    (run : Run rule start cs turn s) : Steady turn s := by
  induction run with
  | start => exact fresh.steady
  | command _ _ instant ih => exact ih.apply instant
  | elapse _ _ _ _ ih => exact ih.elapse _
  | choose _ _ _ ih => exact ih.prefer _
  | move run goesOn ih =>
    obtain ⟨_, _, act⟩ := act_step ih.linked ih.sound run.head_of_turn
    exact ih.move act goesOn
  | pause run waits ih =>
    obtain ⟨_, _, act⟩ := act_step ih.linked ih.sound run.head_of_turn
    exact ih.pause act waits

theorem Run.act {rule : Rule} {start : Machine} (run : Run rule start cs (some a) s)
    (fresh : start.Fresh) : ∃ woken events, Act s a woken events s.step := by
  have steady := run.steady fresh
  exact act_step steady.linked steady.sound run.head_of_turn

end Autoscaling.Machine
