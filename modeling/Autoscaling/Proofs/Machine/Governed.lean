import Autoscaling.Proofs.Machine.Control
import Autoscaling.Proofs.Machine.Steady

namespace Autoscaling

namespace Pool

variable {p p' : Pool} {a : Agent} {woken : List Agent} {events : List Event} {w : Nat}

theorem Move.exited (h : Move now shutdown p a woken events p') (gone : p.worker w = .exited) :
    p'.worker w = .exited ∨ p'.released = false := by
  have set {v : Nat} {x : Worker} {q : Pool} (eq : q.worker v = x) (ne : x ≠ .exited)
      (gone : q.worker w = .exited) (y : Worker) : (q.setWorker v y).worker w = .exited := by
    rw [worker_setWorker eq ne]
    split
    · next own =>
      subst own
      exact absurd (eq.symm.trans gone) ne
    · exact gone
  cases h with
  | listen rests => exact .inl (set rests (by simp) gone _)
  | take waits => exact .inl (set (q := (p.leaveLine _).1) waits (by simp) gone (.holding _))
  | depart waits => exact .inl (set (q := (p.leaveLine _).1) waits (by simp) gone .exited)
  | drop busy | complete busy =>
    rw [Pool.complete, worker_freeSlot]
    exact .inl (set busy (by simp) gone _)
  | begin busy | progress busy | finish busy | panic busy =>
    exact .inl (set busy (by simp) gone _)
  | hire _ _ running => exact .inr running
  | release =>
    rw [release_fst]
    exact .inl gone
  | _ => exact .inl gone

end Pool

theorem Lifecycle.out_of_isDrained {l : Lifecycle} (drained : l.isDrained = true) :
    l.loopActive = false ∧ l.inPass = false := by
  simpa [isDrained] using drained

namespace Control

def polls (k : Control) : Bool := decide (k.lifecycle.phase = .draining) && !k.released

def joins (k : Control) : Bool := decide (k.lifecycle.phase = .draining) && k.released

theorem polls_iff {k : Control} :
    k.polls = true ↔ k.lifecycle.phase = .draining ∧ k.released = false := by
  simp [polls]

theorem joins_iff {k : Control} :
    k.joins = true ↔ k.lifecycle.phase = .draining ∧ k.released = true := by
  simp [joins]

end Control

namespace Machine

variable {s s' start : Machine} {turn : Option Agent} {a : Agent} {cs : List Command}
  {woken : List Agent} {events told : List Event} {c : Nat}

theorem countP_set (l : List Call) (c : Nat) {y : Call} (own : (l.set c y).getD c .returned = y)
    {q : Call → Bool} :
    (l.set c y).countP q + (q (l.getD c .returned)).toNat = l.countP q + (q y).toNat := by
  rcases Nat.lt_or_ge c l.length with lt | ge
  · have eq : l.getD c .returned = l[c] := by simp [lt]
    have counted : q l[c] = true → 0 < l.countP q := fun holds =>
      List.countP_pos_iff.2 ⟨_, List.getElem_mem lt, holds⟩
    rw [List.countP_set lt, eq]
    cases hx : q l[c] <;> cases hy : q y <;> simp_all
  · rw [List.set_eq_of_length_le ge] at own ⊢
    rw [own]

theorem of_countP {q : Call → Bool} {flag : Bool} (count : s.calls.countP q ≤ flag.toNat)
    (no : q .returned = false) (holds : q (s.call c) = true) : flag = true := by
  have lt : c < s.calls.length := by
    refine Nat.lt_of_not_le fun le => ?_
    simp [call, le, no] at holds
  have mem : s.call c ∈ s.calls := by
    simp only [call, List.getD_eq_getElem?_getD, List.getElem?_eq_getElem lt, Option.getD_some]
    exact List.getElem_mem lt
  have := List.countP_pos_iff.2 ⟨_, mem, holds⟩
  cases flag with
  | false => exact absurd count (Nat.not_le.2 this)
  | true => rfl

namespace Deed

variable {x y : Call} {k : Control}

theorem inPass (deed : Deed s x y k told) : y.inPass.toNat + s.lifecycle.inPass.toNat ≤
    x.inPass.toNat + k.lifecycle.inPass.toNat := by
  have := Bool.toNat_le s.lifecycle.inPass
  rcases deed.swings with ⟨own, gate⟩ | ⟨out, free, amid, shut⟩ | ⟨amid, out, free⟩
  · exact Nat.le_of_eq (by rw [own, gate])
  · simp [out, free, amid, shut]
  · simpa [amid, out, free]

theorem looping (deed : Deed s x y k told)
    (idle : s.lifecycle.phase = .idle → s.lifecycle.loopActive = false)
    (joins : x.isJoining = true → s.lifecycle.loopActive = false) :
    y.isLooping.toNat + s.lifecycle.loopActive.toNat ≤
      x.isLooping.toNat + k.lifecycle.loopActive.toNat := by
  cases deed with
  | skip hosts | begin hosts | go hosts | finish hosts => cases hosts <;> exact Nat.le_refl _
  | enter new => simp [Call.isLooping, idle new]
  | leave =>
    have := Bool.toNat_le s.lifecycle.loopActive
    simpa [Call.isLooping, Lifecycle.markLoopExited]
  | stop => simp [Call.isLooping, Lifecycle.markStopped, joins rfl]
  | _ => exact Nat.le_refl _

theorem polling (deed : Deed s x y k told)
    (early : s.lifecycle.phase = .idle ∨ s.lifecycle.phase = .running → s.pool.released = false)
    (joins : x.isJoining = true → s.pool.released = true) :
    y.isPolling.toNat + s.control.polls.toNat ≤ x.isPolling.toNat + k.polls.toNat := by
  cases deed with
  | skip hosts | begin hosts | go hosts | finish hosts => cases hosts <;> exact Nat.le_refl _
  | enter new => simp [Call.isPolling, Control.polls, control, new]
  | ask first =>
    rcases first with phase | phase <;>
      simp [Call.isPolling, Control.polls, control, phase, early]
  | release =>
    have := Bool.toNat_le s.control.polls
    simp only [Call.isPolling, Bool.toNat_false, Bool.toNat_true]
    omega
  | stop => simp [Call.isPolling, Control.polls, control, joins rfl]
  | _ => exact Nat.le_refl _

theorem joining (deed : Deed s x y k told)
    (polls : x.isPolling = true → s.control.polls = true) :
    y.isJoining.toNat + s.control.joins.toNat ≤ x.isJoining.toNat + k.joins.toNat := by
  cases deed with
  | skip hosts | begin hosts | go hosts | finish hosts => cases hosts <;> exact Nat.le_refl _
  | enter new => simp [Call.isJoining, Control.joins, control, new]
  | ask first =>
    rcases first with phase | phase <;> simp [Call.isJoining, Control.joins, control, phase]
  | release =>
    obtain ⟨phase, running⟩ := Control.polls_iff.1 (polls rfl)
    have phase : s.lifecycle.phase = .draining := phase
    have running : s.pool.released = false := running
    simp [Call.isJoining, Control.joins, control, phase, running]
  | stop =>
    have := Bool.toNat_le s.control.joins
    simp only [Call.isJoining, Bool.toNat_false, Bool.toNat_true]
    omega
  | _ => exact Nat.le_refl _

end Deed

/-- At most one call makes a pass, one is the loop, and one is a stop under way. -/
structure Governed (s : Machine) : Prop where
  ofLoop : ∀ c, (s.call c).ofLoop = true
  inPass : s.calls.countP Call.inPass ≤ s.lifecycle.inPass.toNat
  looping : s.calls.countP Call.isLooping ≤ s.lifecycle.loopActive.toNat
  polling : s.calls.countP Call.isPolling ≤ s.control.polls.toNat
  joining : s.calls.countP Call.isJoining ≤ s.control.joins.toNat
  idle : s.lifecycle.phase = .idle → s.lifecycle.loopActive = false
  signalled : s.lifecycle.phase = .draining ∨ s.lifecycle.phase = .stopped → s.shutdown = true
  released : s.pool.released = true →
    (s.lifecycle.phase = .draining ∨ s.lifecycle.phase = .stopped) ∧ s.lifecycle.loopActive = false
  spent : s.pool.released = true → ∀ c, (s.call c).isSpent = true
  joined : ∀ c ws, s.call c = .joining true ws → ∀ w, s.pool.worker w ≠ .exited → w ∈ ws
  gone : s.lifecycle.phase = .stopped → s.pool.released = true ∧ ∀ w, s.pool.worker w = .exited

namespace Governed

theorem polls (governed : s.Governed) (h : (s.call c).isPolling = true) : s.control.polls = true :=
  of_countP governed.polling rfl h

theorem joins (governed : s.Governed) (h : (s.call c).isJoining = true) :
    s.lifecycle.phase = .draining ∧ s.pool.released = true :=
  Control.joins_iff.1 (of_countP governed.joining rfl h)

theorem running (governed : s.Governed)
    (early : s.lifecycle.phase = .idle ∨ s.lifecycle.phase = .running) :
    s.pool.released = false := by
  by_contra released
  obtain ⟨late, _⟩ := governed.released (by simpa using released)
  rcases early with early | early <;> simp [early] at late

theorem spent_of_inPass (governed : s.Governed) (free : s.lifecycle.inPass = false) (c : Nat) :
    (s.call c).isSpent = true := by
  have out : (s.call c).inPass ≠ true := fun amid => by
    have up := of_countP governed.inPass rfl amid
    rw [free] at up
    cases up
  unfold Call.inPass at out
  unfold Call.isSpent
  cases stage : (s.call c).stage? with
  | none => rfl
  | some stage' =>
    cases stage' with
    | opening => rfl
    | _ => simp [stage] at out

end Governed

namespace Deed

variable {x y : Call} {k : Control}

theorem ofLoop (deed : Deed s x y k told) (before : x.ofLoop = true) : y.ofLoop = true := by
  cases deed with
  | rest => exact before
  | skip hosts | begin hosts | go hosts | finish hosts => cases hosts <;> rfl
  | _ => rfl

theorem isSpent (deed : Deed s x y k told) (signalled : s.shutdown = true)
    (before : x.isSpent = true) : y.isSpent = true := by
  cases deed with
  | rest => exact before
  | @go _ _ _ stage _ hosts _ may =>
    rw [signalled] at may
    cases stage with
    | opening | visiting => cases may
    | _ => cases hosts <;> cases before
  | skip hosts | begin hosts | finish hosts => cases hosts <;> rfl
  | _ => rfl

theorem phase_cases (deed : Deed s x y k told) :
    (k.lifecycle.phase = s.lifecycle.phase ∧ k.shutdown = s.shutdown) ∨
    (s.lifecycle.phase = .idle ∧ k.lifecycle.phase = .running ∧ k.shutdown = s.shutdown) ∨
    ((s.lifecycle.phase = .idle ∨ s.lifecycle.phase = .running) ∧ x = .stopping ∧
      k.lifecycle.phase = .draining ∧ k.shutdown = true) ∨
    (x = .joining true [] ∧ k.lifecycle.phase = .stopped ∧ k.shutdown = s.shutdown) := by
  cases deed with
  | enter new => exact .inr (.inl ⟨new, rfl, rfl⟩)
  | ask first => exact .inr (.inr (.inl ⟨first, rfl, rfl, rfl⟩))
  | stop => exact .inr (.inr (.inr ⟨rfl, rfl, rfl⟩))
  | _ => exact .inl ⟨rfl, rfl⟩

theorem released_cases (deed : Deed s x y k told) :
    k.released = s.pool.released ∨ (x = .polling ∧ s.lifecycle.isDrained = true ∧
      y = .joining true s.pool.handles ∧ k = { s.control with released := true }) := by
  cases deed with
  | release drained => exact .inr ⟨rfl, drained, rfl, rfl⟩
  | _ => exact .inl rfl

theorem loopActive_cases (deed : Deed s x y k told) (active : k.lifecycle.loopActive = true) :
    s.lifecycle.loopActive = true ∨ k.lifecycle.phase = .running := by
  cases deed with
  | enter => exact .inr rfl
  | leave | stop => cases active
  | _ => exact .inl active

theorem joining_cases {ws : List Nat} (deed : Deed s x (.joining true ws) k told) :
    x = .joining true ws ∨ (∃ w, s.pool.worker w = .exited ∧ x = .joining true (w :: ws)) ∨
      (x = .polling ∧ ws = s.pool.handles ∧ k.released = true) := by
  generalize eq : Call.joining true ws = y at deed
  cases deed with
  | rest => exact .inl rfl
  | join gone =>
    cases eq
    exact .inr (.inl ⟨_, gone, rfl⟩)
  | release =>
    cases eq
    exact .inr (.inr ⟨rfl, rfl, rfl⟩)
  | skip hosts | begin hosts | go hosts | finish hosts => cases hosts <;> cases eq
  | _ => cases eq

end Deed

structure Continues (s : Machine) (c : Nat) (told : List Event) (s' : Machine) : Prop where
  calls : s'.calls = s.calls.set c (s'.call c)
  deed : Deed s (s.call c) (s'.call c) s'.control told
  stays : ∀ w, s.pool.worker w = .exited → s'.pool.worker w = .exited ∨ s'.pool.released = false

namespace Continues

theorem call_of_ne (goes : Continues s c told s') {d : Nat} (ne : d ≠ c) :
    s'.call d = s.call d := by
  rw [call, goes.calls]
  exact call_setCall_of_ne _ ne

theorem forall_call (goes : Continues s c told s') {q : Call → Prop} (own : q (s'.call c))
    (others : ∀ d, d ≠ c → q (s.call d)) (d : Nat) : q (s'.call d) := by
  by_cases eq : d = c
  · rw [eq]
    exact own
  · rw [goes.call_of_ne eq]
    exact others d eq

theorem countP (goes : Continues s c told s') (q : Call → Bool) :
    s'.calls.countP q + (q (s.call c)).toNat = s.calls.countP q + (q (s'.call c)).toNat := by
  have own : (s.calls.set c (s'.call c)).getD c .returned = s'.call c := by
    rw [← goes.calls]
    rfl
  have counted := countP_set s.calls c own (q := q)
  rw [← goes.calls] at counted
  exact counted

theorem released (goes : Continues s c told s') (up : s.pool.released = true) :
    s'.pool.released = true := by
  rcases goes.deed.released_cases with same | ⟨_, _, _, eq⟩
  · exact same.trans up
  · exact congrArg Control.released eq

theorem worker_ne_exited (goes : Continues s c told s') (up : s'.pool.released = true)
    (lives : s'.pool.worker w ≠ .exited) : s.pool.worker w ≠ .exited := by
  intro gone
  rcases goes.stays w gone with away | down
  · exact lives away
  · rw [up] at down
    cases down

theorem late (goes : Continues s c told s')
    (late : s.lifecycle.phase = .draining ∨ s.lifecycle.phase = .stopped) :
    s'.lifecycle.phase = .draining ∨ s'.lifecycle.phase = .stopped := by
  rcases goes.deed.phase_cases with ⟨same, _⟩ | ⟨early, _⟩ | ⟨early, _⟩ | ⟨_, stopped, _⟩
  · exact late.imp same.trans same.trans
  · rcases late with late | late <;> cases early.symm.trans late
  · rcases late with late | late <;> rcases early with early | early <;>
      cases early.symm.trans late
  · exact .inr stopped

end Continues

namespace Governed

variable (governed : s.Governed) (goes : Continues s c told s')
include governed goes

theorem idle_next (idle : s'.lifecycle.phase = .idle) : s'.lifecycle.loopActive = false := by
  have before : s.lifecycle.phase = .idle := by
    rcases goes.deed.phase_cases with ⟨same, _⟩ | ⟨_, same, _⟩ | ⟨_, _, same, _⟩ | ⟨_, same, _⟩
    · exact same.symm.trans idle
    all_goals cases idle.symm.trans same
  refine Bool.eq_false_iff.2 fun active => ?_
  rcases goes.deed.loopActive_cases active with active | running
  · rw [governed.idle before] at active
    cases active
  · cases idle.symm.trans running

theorem signalled_next
    (late : s'.lifecycle.phase = .draining ∨ s'.lifecycle.phase = .stopped) :
    s'.shutdown = true := by
  rcases goes.deed.phase_cases with ⟨same, kept⟩ | ⟨_, same, _⟩ | ⟨_, _, _, up⟩ | ⟨eq, _, kept⟩
  · exact kept.trans (governed.signalled (same ▸ late))
  · rcases late with late | late <;> cases late.symm.trans same
  · exact up
  · exact kept.trans (governed.signalled (.inl (governed.joins (by rw [eq]; rfl)).1))

theorem released_next (up : s'.pool.released = true) :
    (s'.lifecycle.phase = .draining ∨ s'.lifecycle.phase = .stopped) ∧
      s'.lifecycle.loopActive = false := by
  rcases goes.deed.released_cases with same | ⟨polling, drained, _, eq⟩
  · obtain ⟨late, inactive⟩ := governed.released (same.symm.trans up)
    have late := goes.late late
    refine ⟨late, Bool.eq_false_iff.2 fun active => ?_⟩
    rcases goes.deed.loopActive_cases active with active | running
    · rw [inactive] at active
      cases active
    · rcases late with late | late <;> cases late.symm.trans running
  · have same : s'.lifecycle = s.lifecycle := congrArg Control.lifecycle eq
    have polls := Control.polls_iff.1 (governed.polls (c := c) (by rw [polling]; rfl))
    rw [same]
    exact ⟨.inl polls.1, (Lifecycle.out_of_isDrained drained).1⟩

theorem spent_next (up : s'.pool.released = true) (d : Nat) : (s'.call d).isSpent = true := by
  rcases goes.deed.released_cases with same | ⟨_, drained, joining, _⟩
  · have before : s.pool.released = true := same.symm.trans up
    have signalled := governed.signalled (governed.released before).1
    exact goes.forall_call (q := (Call.isSpent · = true))
      (goes.deed.isSpent signalled (governed.spent before c)) (fun e _ => governed.spent before e) d
  · have free := (Lifecycle.out_of_isDrained drained).2
    exact goes.forall_call (q := (Call.isSpent · = true)) (by rw [joining]; rfl)
      (fun e _ => governed.spent_of_inPass free e) d

theorem joined_next (sound : s.pool.Sound) {d : Nat} {ws : List Nat}
    (call : s'.call d = .joining true ws) (lives : s'.pool.worker w ≠ .exited) : w ∈ ws := by
  have alive (up : s.pool.released = true) : s.pool.worker w ≠ .exited :=
    goes.worker_ne_exited (goes.released up) lives
  by_cases eq : d = c
  · subst eq
    have deed := goes.deed
    rw [call] at deed
    rcases deed.joining_cases with same | ⟨v, gone, same⟩ | ⟨polling, rfl, up⟩
    · have up := (governed.joins (c := d) (by rw [same]; rfl)).2
      exact governed.joined d ws same w (alive up)
    · have up := (governed.joins (c := d) (by rw [same]; rfl)).2
      refine (List.mem_cons.1 (governed.joined d _ same w (alive up))).resolve_left ?_
      rintro rfl
      exact alive up gone
    · have polls := Control.polls_iff.1 (governed.polls (c := d) (by rw [polling]; rfl))
      exact sound.joined w (goes.worker_ne_exited up lives) polls.2
  · rw [goes.call_of_ne eq] at call
    have up := (governed.joins (c := d) (by rw [call]; rfl)).2
    exact governed.joined d ws call w (alive up)

theorem gone_next (stopped : s'.lifecycle.phase = .stopped) :
    s'.pool.released = true ∧ ∀ w, s'.pool.worker w = .exited := by
  have before : s.pool.released = true ∧ ∀ w, s.pool.worker w = .exited := by
    rcases goes.deed.phase_cases with ⟨same, _⟩ | ⟨_, same, _⟩ | ⟨_, _, same, _⟩ | ⟨eq, _⟩
    · exact governed.gone (same.symm.trans stopped)
    · cases stopped.symm.trans same
    · cases stopped.symm.trans same
    · refine ⟨(governed.joins (c := c) (by rw [eq]; rfl)).2, fun w => ?_⟩
      by_contra lives
      exact List.not_mem_nil (governed.joined c [] eq w lives)
  have up := goes.released before.1
  refine ⟨up, fun w => ?_⟩
  by_contra lives
  exact goes.worker_ne_exited up lives (before.2 w)

theorem next (sound : s.pool.Sound) : s'.Governed := by
  have joins := governed.joins (c := c)
  have same : s'.control.lifecycle = s'.lifecycle := rfl
  constructor
  case ofLoop =>
    exact goes.forall_call (q := (Call.ofLoop · = true)) (goes.deed.ofLoop (governed.ofLoop c))
      fun d _ => governed.ofLoop d
  case inPass =>
    have := goes.countP Call.inPass
    have := goes.deed.inPass
    have := governed.inPass
    rw [same] at *
    omega
  case looping =>
    have := goes.countP Call.isLooping
    have := goes.deed.looping governed.idle fun h => (governed.released (joins h).2).2
    have := governed.looping
    rw [same] at *
    omega
  case polling =>
    have := goes.countP Call.isPolling
    have := goes.deed.polling governed.running fun h => (joins h).2
    have := governed.polling
    omega
  case joining =>
    have := goes.countP Call.isJoining
    have := goes.deed.joining governed.polls
    have := governed.joining
    omega
  case idle => exact governed.idle_next goes
  case signalled => exact governed.signalled_next goes
  case released => exact governed.released_next goes
  case spent => exact governed.spent_next goes
  case joined => exact fun _ _ call _ lives => governed.joined_next goes sound call lives
  case gone => exact governed.gone_next goes

omit governed goes

theorem begin (governed : s.Governed) {x : Call} (ofLoop : x.ofLoop = true)
    (blank : x.stage? = none ∨ x.stage? = some .opening)
    (out : x.isLooping = false ∧ x.isPolling = false ∧ x.isJoining = false) :
    (s.begin x).Governed := by
  have inPass : x.inPass = false := by
    unfold Call.inPass
    rcases blank with eq | eq <;> rw [eq]
  have count {q : Call → Bool} (no : q x = false) :
      (s.begin x).calls.countP q = s.calls.countP q := by
    change (s.calls ++ [x]).countP q = _
    simp [List.countP_append, no]
  have called (d : Nat) : (s.begin x).call d = x ∨ (s.begin x).call d = s.call d := by
    rw [call_begin]
    split
    · exact .inl rfl
    · exact .inr rfl
  constructor
  case ofLoop =>
    intro d
    rcases called d with eq | eq <;> rw [eq]
    · exact ofLoop
    · exact governed.ofLoop d
  case inPass =>
    rw [count inPass]
    exact governed.inPass
  case looping =>
    rw [count out.1]
    exact governed.looping
  case polling =>
    rw [count out.2.1]
    exact governed.polling
  case joining =>
    rw [count out.2.2]
    exact governed.joining
  case idle => exact governed.idle
  case signalled => exact governed.signalled
  case released => exact governed.released
  case spent =>
    intro up d
    rcases called d with eq | eq <;> rw [eq]
    · unfold Call.isSpent
      rcases blank with eq | eq <;> rw [eq]
    · exact governed.spent up d
  case joined =>
    intro d ws call
    rcases called d with eq | eq <;> rw [eq] at call
    · have no := out.2.2
      rw [call] at no
      cases no
    · exact governed.joined d ws call
  case gone => exact governed.gone

theorem keep (governed : s.Governed) (sound : s.pool.Sound) (calls : s'.calls = s.calls)
    (control : s'.control = s.control)
    (stays : ∀ w, s.pool.worker w = .exited →
      s'.pool.worker w = .exited ∨ s'.pool.released = false) :
    s'.Governed := by
  have same : s'.call s.calls.length = s.call s.calls.length := by rw [call, calls, call]
  have goes : Continues s s.calls.length [] s' := by
    refine ⟨?_, ?_, stays⟩
    · rw [calls, List.set_eq_of_length_le (Nat.le_refl _)]
    · rw [same, control]
      exact .rest
  exact governed.next goes sound

theorem step_cases (governed : s.Governed) (head : s.ready.head? = some a) :
    ((∀ c, a ≠ .caller c) ∧ Apart s s.step) ∨ ∃ c, a = .caller c ∧ s.Does c s.step := by
  cases a with
  | worker w =>
    refine .inl ⟨by simp, ?_⟩
    simp only [Machine.step, head]
    exact apart_stepWorker s w
  | evaluation w =>
    refine .inl ⟨by simp, ?_⟩
    simp only [Machine.step, head]
    exact apart_stepEvaluation s w
  | caller c =>
    refine .inr ⟨c, rfl, ?_⟩
    simp only [Machine.step, head]
    exact does_stepCaller (governed.ofLoop c)

theorem step (governed : s.Governed) (steady : Steady (some a) s)
    (head : s.ready.head? = some a) : s.step.Governed := by
  obtain ⟨woken, events, act⟩ := act_step steady.linked steady.sound head
  have stays (w : Nat) := act.pool.exited (w := w)
  rcases governed.step_cases head with ⟨other, apart⟩ | ⟨c, rfl, _, _, deed⟩
  · refine governed.keep steady.sound (calls_eq act.toBeside other) ?_ stays
    have released := act.pool.released_cases.resolve_right fun ⟨_, c, eq, _⟩ => other c eq
    simp only [control, apart.lifecycle, apart.shutdown, released]
  · exact governed.next ⟨calls_eq_set act.toBeside, deed, stays⟩ steady.sound

end Governed

def Command.isOfLoop : Command → Bool
  | .submit _ | .shutdown | .release => false
  | _ => true

/-- Commands to a scaling loop come at any time, and agents move in any order. -/
def loopRule : Rule where
  comes _ c := c.isOfLoop = true

theorem loop_play (cs : List Command) (fresh : start.Fresh)
    (ofLoop : ∀ c ∈ cs, c.isOfLoop = true) :
    Run loopRule start (cs.filter (·.isInstant)) none (start.play cs).1 :=
  Run.start.play (fun _ _ _ => trivial) fresh.punctual fresh.ready fun _ _ c _ _ mem _ => ofLoop c mem

theorem deed_freeCall (s : Machine) (x : Call) : Deed s x (freeCall x) s.control [] := by
  have stage (st : Pass.Stage) {within after} (hosts : Hosts within after) :
      Deed s (within st) (within (freeStage st)) s.control [] := by
    cases st with
    | held q p check => exact .go hosts muted_nil rfl rfl
    | _ => exact .rest
  cases x with
  | evaluating st => exact stage st .evaluating
  | ticking next st => exact stage st .ticking
  | _ => exact .rest

theorem Governed.apply (governed : s.Governed) (steady : Steady turn s) {c : Command}
    (may : c.isOfLoop = true) (instant : c.isInstant = true) : (s.apply c).Governed := by
  obtain ⟨_, move⟩ := steady.move_apply instant
  have stays (w : Nat) := move.exited (w := w)
  cases c with
  | submit | shutdown | release => cases may
  | advance => cases instant
  | evaluate => exact governed.begin rfl (.inr rfl) ⟨rfl, rfl, rfl⟩
  | run | stop => exact governed.begin rfl (.inl rfl) ⟨rfl, rfl, rfl⟩
  | unhold job =>
    obtain ⟨_, _, _, _, eq⟩ := unhold_eq s job
    have control : (s.unhold job).control = s.control := by
      rw [eq]
      rfl
    exact governed.keep steady.sound (calls_unhold s job) control stays
  | unholdAnswer q =>
    simp only [Machine.apply, unholdAnswer]
    split
    · next m c _ =>
      have freed : ({ s with questionLine := s.questionLine.erase (m, c) }.setCall c
          (freeCall (s.call c))).call c = freeCall (s.call c) := by
        by_cases past : s.call c = .returned
        · rw [past]
          exact call_setCall_returned { s with questionLine := _ } c
        · exact call_setCall_self (s := { s with questionLine := _ }) past _
      have deed := deed_freeCall s (s.call c)
      rw [← freed] at deed
      exact governed.next ⟨congrArg (s.calls.set c) freed.symm, deed, fun _ => .inl⟩ steady.sound
    · exact governed.keep steady.sound rfl rfl fun _ => .inl
  | _ => exact governed.keep steady.sound rfl rfl stays

theorem Governed.fresh (fresh : s.Fresh) : s.Governed := by
  obtain ⟨capacity, expiry, pool⟩ := fresh.pool
  have returned (c : Nat) : s.call c = .returned := by simp [call, fresh.calls]
  constructor <;> simp [returned, fresh.calls, fresh.lifecycle, pool, Call.ofLoop]

theorem Run.governed (run : Run loopRule start cs turn s) (fresh : start.Fresh) : s.Governed := by
  induction run with
  | start => exact .fresh fresh
  | command run may instant ih => exact ih.apply (run.steady fresh) may instant
  | elapse run _ _ _ ih | choose run _ _ ih =>
    exact ih.keep (run.steady fresh).sound rfl rfl fun _ => .inl
  | move run _ ih | pause run _ ih => exact ih.step (run.steady fresh) run.head_of_turn

end Machine

end Autoscaling
