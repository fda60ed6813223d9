import Autoscaling.Proofs.Machine.Governed

namespace Autoscaling

namespace Pool

variable {p p' : Pool} {a : Agent} {woken : List Agent} {events : List Event}

theorem Move.silent (h : Move now shutdown p a woken events p')
    (gone : ∀ w, p.worker w = .exited) (none : p.submissions = []) :
    marked .started events = [] ∧ marked .accepted events = [] := by
  cases h with
  | progress runs | finish runs | panic runs => cases (gone _).symm.trans runs
  | accept mem | hire mem =>
    rw [none] at mem
    cases mem
  | _ => exact ⟨rfl, rfl⟩

theorem exited_of_mem (gone : ∀ w, p.worker w = .exited) {x : Worker} (mem : x ∈ p.workers) :
    x = .exited := by
  obtain ⟨w, rfl⟩ := exists_worker mem
  exact gone w

theorem countP_of_exited (gone : ∀ w, p.worker w = .exited) {q : Worker → Bool}
    (no : q .exited = false) : p.workers.countP q = 0 :=
  List.countP_eq_zero.2 fun x mem => by simp [exited_of_mem gone mem, no]

end Pool

def Lifecycle.ends (l : Lifecycle) : Nat :=
  match l.phase with
  | .stopped => 1
  | _ => 0

def Lifecycle.isEarly (l : Lifecycle) : Bool :=
  match l.phase with
  | .idle | .running => true
  | _ => false

namespace Machine

variable {s s' start : Machine} {turn : Option Agent} {a : Agent} {cs : List Command}
  {woken : List Agent} {events told : List Event}

def Silent (events : List Event) : Prop :=
  marked .started events = [] ∧ marked .accepted events = []

def Sealed (events : List Event) : Prop :=
  ∀ before after, events = before ++ .answered (.stop true) :: after → Silent after

theorem Sealed.append (h : Sealed events)
    (after : .answered (.stop true) ∈ events → Silent told)
    (last : .answered (.stop true) ∈ told → told = [.answered (.stop true)]) :
    Sealed (events ++ told) := by
  intro l₁ l₂ eq
  rcases List.append_eq_append_iff.1 eq with ⟨l, rfl, now⟩ | ⟨l, rfl, now⟩
  · have only := last (by simp [now])
    rw [now] at only
    have none : l₂ = [] := by
      cases l with
      | nil => exact (List.cons.inj only).2
      | cons e l => simp at only
    rw [none]
    exact ⟨rfl, rfl⟩
  · cases l with
    | nil =>
      rw [List.nil_append] at now
      subst now
      rw [(List.cons.inj (last (List.mem_cons_self ..))).2]
      exact ⟨rfl, rfl⟩
    | cons e l =>
      rw [List.cons_append] at now
      obtain ⟨rfl, rfl⟩ := List.cons.inj now
      have before := h l₁ l rfl
      have new := after (by simp)
      exact ⟨by rw [marked_append, before.1, new.1, List.append_nil],
        by rw [marked_append, before.2, new.2, List.append_nil]⟩

theorem Deed.stops {x y : Call} {k : Control} (deed : Deed s x y k told)
    (joins : x.isJoining = true → s.lifecycle.phase = .draining) :
    (.answered (.stop true) ∈ told → told = [.answered (.stop true)]) ∧
    told.count (.answered (.stop true)) + s.lifecycle.ends = k.lifecycle.ends ∧
    (k.lifecycle.isEarly = true → s.lifecycle.isEarly = true ∧ Muted told) := by
  have quiet (muted : Muted told) (same : s.lifecycle.ends = k.lifecycle.ends)
      (early : k.lifecycle.isEarly = true → s.lifecycle.isEarly = true) :
      (.answered (.stop true) ∈ told → told = [.answered (.stop true)]) ∧
      told.count (.answered (.stop true)) + s.lifecycle.ends = k.lifecycle.ends ∧
      (k.lifecycle.isEarly = true → s.lifecycle.isEarly = true ∧ Muted told) := by
    refine ⟨fun mem => absurd mem (muted true), ?_, fun up => ⟨early up, muted⟩⟩
    rw [List.count_eq_zero.2 (muted true), Nat.zero_add, same]
  cases deed with
  | skip _ muted | begin _ muted | go _ muted | finish _ muted => exact quiet muted rfl id
  | enter new =>
    exact quiet muted_nil (by simp [Lifecycle.ends, new]) fun _ => by simp [Lifecycle.isEarly, new]
  | ask first =>
    refine quiet muted_nil ?_ (fun early => by cases early)
    rcases first with phase | phase <;> simp [Lifecycle.ends, phase]
  | refuse asked =>
    refine ⟨by simp, ?_, fun early => ?_⟩
    · simp [control]
    · have early : s.lifecycle.isEarly = true := early
      rcases asked with phase | phase <;> simp [Lifecycle.isEarly, phase] at early
  | stop =>
    refine ⟨fun _ => rfl, ?_, fun early => by cases early⟩
    simp [Lifecycle.ends, Lifecycle.markStopped, joins rfl]
  | barred | leave => exact quiet (muted_singleton rfl) rfl id
  | tick => exact quiet (muted_singleton rfl) rfl id
  | _ => exact quiet muted_nil rfl id

theorem Governed.submissions (governed : s.Governed) (linked : s.Linked)
    (released : s.pool.released = true) : s.pool.submissions = [] := by
  refine List.eq_nil_iff_forall_not_mem.2 fun t mem => ?_
  have item := (linked t.caller t.item).1 (Pool.mem_entries.2 ⟨t, mem, rfl, rfl⟩)
  have ofLoop := governed.ofLoop t.caller
  have spent := governed.spent released t.caller
  have none (st : Pass.Stage) (item : st.item? = some t.item) :
      (Call.evaluating st).isSpent = false := by
    cases st with
    | submitting => rfl
    | _ => cases item
  cases call : s.call t.caller <;> rw [call] at item ofLoop spent
  case evaluating st | ticking st =>
    have := none st item
    exact Bool.false_ne_true (this.symm.trans spent)
  case submitting => cases ofLoop
  all_goals cases item

structure Tells (s s' : Machine) (told : List Event) : Prop where
  history : s'.history = s.history ++ told
  last : .answered (.stop true) ∈ told → told = [.answered (.stop true)]
  count : told.count (.answered (.stop true)) + s.lifecycle.ends = s'.lifecycle.ends
  early : s'.lifecycle.isEarly = true → s.lifecycle.isEarly = true ∧ Muted told
  silent : s.lifecycle.phase = .stopped → Silent told

theorem Governed.silent (governed : s.Governed) (linked : s.Linked)
    (act : Act s a woken events s') (history : s'.history = s.history ++ told)
    (stopped : s.lifecycle.phase = .stopped) : Silent told := by
  obtain ⟨released, gone⟩ := governed.gone stopped
  have still := act.pool.silent gone (governed.submissions linked released)
  rwa [← act.filter_told history, marked_filter, marked_filter] at still

theorem Governed.tells (governed : s.Governed) (steady : Steady (some a) s)
    (head : s.ready.head? = some a) : ∃ told, Tells s s.step told := by
  obtain ⟨woken, events, act⟩ := act_step steady.linked steady.sound head
  rcases governed.step_cases head with ⟨_, apart⟩ | ⟨c, rfl, told, history, deed⟩
  · obtain ⟨told, history, muted⟩ := apart.told
    refine ⟨told, history, fun mem => absurd mem (muted true), ?_, ?_,
      governed.silent steady.linked act history⟩
    · rw [List.count_eq_zero.2 (muted true), apart.lifecycle, Nat.zero_add]
    · rw [apart.lifecycle]
      exact fun early => ⟨early, muted⟩
  · obtain ⟨last, count, early⟩ := deed.stops fun h => (governed.joins h).1
    exact ⟨told, history, last, count, early, governed.silent steady.linked act history⟩

structure Concluded (s : Machine) : Prop where
  once : s.history.count (.answered (.stop true)) = s.lifecycle.ends
  early : s.lifecycle.isEarly = true → Muted s.history
  closed : Sealed s.history

theorem Concluded.stopped (concluded : s.Concluded)
    (returned : .answered (.stop true) ∈ s.history) : s.lifecycle.phase = .stopped := by
  have once := concluded.once
  have := List.count_pos_iff.2 returned
  unfold Lifecycle.ends at once
  split at once
  · next phase => exact phase
  · omega

theorem Concluded.tell (concluded : s.Concluded) (tells : Tells s s' told) : s'.Concluded := by
  constructor
  case once =>
    rw [tells.history, List.count_append, concluded.once, Nat.add_comm]
    exact tells.count
  case early =>
    intro early
    obtain ⟨before, muted⟩ := tells.early early
    rw [tells.history]
    exact fun b mem => (List.mem_append.1 mem).elim (concluded.early before b) (muted b)
  case closed =>
    rw [tells.history]
    exact concluded.closed.append (fun mem => tells.silent (concluded.stopped mem)) tells.last

theorem Run.concluded (run : Run loopRule start cs turn s) (fresh : start.Fresh) :
    s.Concluded := by
  induction run with
  | start =>
    have none : start.history = [] := by simp [history, fresh.journal]
    refine ⟨by simp [none, fresh.lifecycle, Lifecycle.ends], fun _ => none ▸ muted_nil, ?_⟩
    rw [none]
    intro before after eq
    simp at eq
  | @command _ s c _ _ instant ih =>
    obtain ⟨journal, _, lifecycle⟩ := journal_apply s instant
    have same : (s.apply c).history = s.history := by rw [history, journal, history]
    constructor <;> rw [same]
    case once => exact lifecycle ▸ ih.once
    case early => exact lifecycle ▸ ih.early
    case closed => exact ih.closed
  | elapse _ _ _ _ ih | choose _ _ _ ih => exact ⟨ih.once, ih.early, ih.closed⟩
  | move run _ ih | pause run _ ih =>
    obtain ⟨told, tells⟩ := (run.governed fresh).tells (run.steady fresh) run.head_of_turn
    exact ih.tell tells

structure Drains (turn : Option Agent) (s : Machine) : Prop where
  stopped : .answered (.stop true) ∈ s.history →
    s.lifecycle.phase = .stopped ∧ s.lifecycle.loopActive = false ∧
      s.pool.live = 0 ∧ s.pool.inFlight = 0
  ended : .answered (.stop true) ∈ s.history →
    (marked .started s.history).Perm (marked .finished s.history ++ marked .panicked s.history)
  closed : ∀ before after, s.history = before ++ .answered (.stop true) :: after →
    marked .started after = [] ∧ marked .accepted after = []
  once : s.history.count (.answered (.stop true)) ≤ 1
  others : ∀ c, turn = some (.caller c) → s.call c = .stopping →
    s.step = s.answer c (.stop false) ∨
      (Muted s.history ∧ ∀ d, (s.call d).isPolling = false ∧ (s.call d).isJoining = false)

theorem Steady.inFlight_of_exited (steady : Steady turn s)
    (gone : ∀ w, s.pool.worker w = .exited) (none : s.pool.submissions = []) :
    s.pool.live = 0 ∧ s.pool.inFlight = 0 := by
  have live : s.pool.live = 0 := by
    rw [steady.sound.live_eq]
    exact Pool.countP_of_exited gone rfl
  have queue : s.pool.queue = [] := by
    by_contra queued
    have := steady.manned queued (by simp [Pool.sent, none])
    omega
  have := steady.sound.inFlight_eq
  rw [queue, Pool.countP_of_exited gone rfl, none] at this
  exact ⟨live, this⟩

theorem Steady.ended_of_exited (steady : Steady turn s)
    (gone : ∀ w, s.pool.worker w = .exited) :
    (marked .started s.history).Perm
      (marked .finished s.history ++ marked .panicked s.history) := by
  have underway : s.pool.held .underway = [] :=
    List.filterMap_eq_nil_iff.2 fun x mem => by rw [Pool.exited_of_mem gone mem]; rfl
  rw [List.perm_iff_count]
  intro i
  have := steady.ledger.ends i
  rw [underway] at this
  simp only [marked_itemEvents, List.count_append, List.count_nil] at *
  omega

/-- However a scaling loop runs, a stop that returns has drained it. -/
theorem Run.drains {c : Config} {timed : Bool} {scenario : Scenario}
    (made : ofConfig c timed scenario = .made start) (run : Run loopRule start cs turn s) :
    Drains turn s := by
  have fresh := fresh_ofConfig made
  have steady := run.steady fresh
  have governed := run.governed fresh
  have concluded := run.concluded fresh
  constructor
  case stopped =>
    intro returned
    have phase := concluded.stopped returned
    obtain ⟨released, gone⟩ := governed.gone phase
    exact ⟨phase, (governed.released released).2,
      steady.inFlight_of_exited gone (governed.submissions steady.linked released)⟩
  case ended =>
    intro returned
    exact steady.ended_of_exited (governed.gone (concluded.stopped returned)).2
  case closed => exact concluded.closed
  case once =>
    rw [concluded.once]
    unfold Lifecycle.ends
    split <;> omega
  case others =>
    rintro c rfl stopping
    have step : s.step = s.stepCaller c := by rw [step, run.head_of_turn]
    rw [step, stepCaller, stopping]
    dsimp only
    cases early : s.lifecycle.isEarly with
    | false =>
      refine .inl ?_
      have asked : s.lifecycle.requestStop? = none := by
        unfold Lifecycle.isEarly at early
        unfold Lifecycle.requestStop?
        cases phase : s.lifecycle.phase <;> simp_all
      rw [asked]
    | true =>
      refine .inr ⟨concluded.early early, fun d => ?_⟩
      have late (phase : s.lifecycle.phase = .draining) : False := by
        simp [Lifecycle.isEarly, phase] at early
      exact ⟨Bool.eq_false_iff.2 fun polls => late (Control.polls_iff.1 (governed.polls polls)).1,
        Bool.eq_false_iff.2 fun joins => late (governed.joins joins).1⟩

def heldLoop : Machine := { heldUp with pool := { capacity := 3, expiry := 60000, free := 3 } }

theorem made_heldLoop : ofConfig {} false heldUp.scenario = .made heldLoop := rfl

theorem drains_heldLoop :
    .answered (.stop true) ∈ (heldLoop.play [.run, .write (.putJob "a" heldItem.policies),
      .evaluate, .stop, .stop, .advance 1000, .unhold "a", .evaluate]).1.history ∧
    Drains none (heldLoop.play [.run, .write (.putJob "a" heldItem.policies), .evaluate, .stop,
      .stop, .advance 1000, .unhold "a", .evaluate]).1 := by
  have made : ofConfig {} false heldUp.scenario = .made heldLoop := rfl
  have run := loop_play [.run, .write (.putJob "a" heldItem.policies), .evaluate, .stop, .stop,
    .advance 1000, .unhold "a", .evaluate] (fresh_ofConfig made) (by simp [Command.isOfLoop])
  exact ⟨by decide +kernel, run.drains made⟩

end Machine

end Autoscaling
