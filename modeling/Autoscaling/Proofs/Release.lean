import Autoscaling.Proofs.Drain
import Autoscaling.Proofs.Machine.Closing
import Autoscaling.Proofs.Saturation

namespace Autoscaling.Machine

variable {rule : Rule} {start m m' s s' : Machine} {before turn turn' : Option Agent} {a : Agent}
  {cs : List Command} {c : Nat} {woken : List Agent} {events : List Event}

structure Vacant (rule : Rule) (s : Machine) : Prop where
  live : s.pool.live = 0
  executing : s.pool.executing = 0
  inFlight : 0 < s.pool.expiry ∨ rule.Patient → s.pool.inFlight = 0

structure Accounted (s : Machine) : Prop where
  taken : marked .accepted s.history = marked .taken s.history
  fates : (marked .taken s.history).Perm (marked .started s.history ++ marked .dropped s.history)
  ended : (marked .started s.history).Perm
    (marked .finished s.history ++ marked .panicked s.history)
  evaluated : s.shutdown = false →
    (marked .started s.history).Perm ((marked .accepted s.history).filter (·.fault? = none))

namespace Steady

theorem sent_of_released (steady : Steady turn s) (released : s.pool.released = true) :
    s.pool.sent = [] := by
  refine Pool.sent_of_unqueued fun t mem queued => ?_
  have running := steady.timely t mem (by rw [queued]; rfl)
  rw [released] at running
  cases running

theorem queue_of_gone (steady : Steady turn s) (released : s.pool.released = true)
    (gone : ∀ w, s.pool.worker w = .exited) : s.pool.queue = [] := by
  by_contra queued
  have := steady.manned queued (steady.sent_of_released released)
  rw [steady.sound.live_eq, Pool.countP_of_exited gone rfl] at this
  omega

/-- What is not free then has been handed to submissions that have not moved since. -/
theorem inFlight_of_gone (steady : Steady turn s) (released : s.pool.released = true)
    (gone : ∀ w, s.pool.worker w = .exited) :
    s.pool.inFlight = s.pool.submissions.countP (·.stage = .granted) := by
  have slots : s.pool.submissions.countP (·.stage.hasSlot) =
      s.pool.submissions.countP (·.stage = .granted) := by
    refine List.countP_congr fun t mem => ?_
    have late := steady.timely t mem
    rw [released] at late
    cases stage : t.stage with
    | holding | queued => simp [stage, Pool.Stage.isAmid] at late
    | _ => simp [Pool.Stage.hasSlot]
  rw [steady.sound.inFlight_eq, steady.queue_of_gone released gone,
    Pool.countP_of_exited gone rfl, slots, List.length_nil, Nat.zero_add]

theorem dropped_cases (steady : Steady turn s) {i : WorkItem} {r : Pool.Reason}
    (mem : .dropped i r ∈ s.history) :
    (r = .shutdown ∧ s.shutdown = true) ∨ ∃ f, r = .malformed f ∧ i.fault? = some f := by
  obtain ⟨b, reason, known⟩ := steady.ledger.reasons i r (List.mem_filter.2 ⟨mem, rfl⟩)
  unfold Pool.reason? at reason
  split at reason
  · next signalled =>
    cases reason
    exact .inl ⟨rfl, known signalled⟩
  · obtain ⟨f, fault, rfl⟩ := Option.map_eq_some_iff.1 reason
    exact .inr ⟨f, rfl, fault⟩

theorem perm_fit (steady : Steady turn s) (running : s.shutdown = false) {items : List WorkItem}
    (fates : items.Perm (marked .started s.history ++ marked .dropped s.history)) :
    (marked .started s.history).Perm (items.filter (·.fault? = none)) := by
  refine perm_filter fates (fun i mem => decide_eq_true ?_) fun i mem => ?_
  · exact steady.ledger.fit i (.inr (by rwa [marked_itemEvents]))
  · obtain ⟨r, told⟩ := mem_dropped_iff.1 mem
    rcases steady.dropped_cases told with ⟨_, signalled⟩ | ⟨f, _, fault⟩
    · rw [running] at signalled
      cases signalled
    · simp [fault]

theorem held_of_gone (gone : ∀ w, s.pool.worker w = .exited) (k : Pool.Hand) :
    s.pool.held k = [] :=
  List.filterMap_eq_nil_iff.2 fun x mem => by
    rw [Pool.exited_of_mem gone mem]
    cases k <;> rfl

theorem accounted_of_gone (steady : Steady turn s) (released : s.pool.released = true)
    (gone : ∀ w, s.pool.worker w = .exited) : Accounted s := by
  have taken := steady.order (steady.sent_of_released released)
  rw [steady.queue_of_gone released gone, List.append_nil] at taken
  have fates := steady.fates (held_of_gone gone .unseen)
  rw [held_of_gone gone, List.append_nil] at fates
  exact ⟨taken, fates, steady.ended_of_exited gone, fun running =>
    steady.perm_fit running (taken ▸ fates)⟩

end Steady

theorem Run.vacant (run : Run rule start cs turn s) (fresh : start.Fresh) (ofPool : rule.OfPool)
    (released : s.pool.released = true) (gone : ∀ w, s.pool.worker w = .exited) :
    Vacant rule s := by
  have steady := run.steady fresh
  refine ⟨?_, Pool.countP_of_exited gone rfl, fun lasting => ?_⟩
  · rw [steady.sound.live_eq]
    exact Pool.countP_of_exited gone rfl
  · rw [steady.inFlight_of_gone released gone, List.countP_eq_zero]
    suffices s.pool.Ungranted from fun t mem granted => this t mem (of_decide_eq_true granted)
    rcases lasting with expiry | patient
    · have tended := run.tended fresh ((run.capacity fresh).2 ▸ expiry)
      exact tended.resolve_right fun ⟨w, lives, _⟩ => lives (gone w)
    · exact (run.poised fresh ofPool patient).released released

theorem goesOn_of_releasing (head : s.ready.head? = some (.caller c))
    (call : s.call c = .releasing) : s.step.ready.head? = some (.caller c) := by
  simp only [step_of_caller head, stepCaller, call]
  exact head_ready_wake (s := { s with pool := s.pool.release.1 }.setCall c _) _ head

theorem joined_of_answer (ofPool : (s.call c).ofPool = true)
    (head : s.ready.head? = some (.caller c))
    (answers : s.step.history = s.history ++ [.answered .release]) :
    s.call c = .joining false [] := by
  obtain ⟨told, history, chore⟩ := chore_stepCaller ofPool
  rw [step_of_caller head, history] at answers
  have told := List.append_cancel_left answers
  generalize s.call c = x at chore
  generalize (s.stepCaller c).call c = y at chore
  cases chore with
  | submit quiet => exact absurd (by simp [told]) quiet
  | answer => rfl
  | _ => cases told

theorem Awaits.gone (awaits : s.Awaits c) (call : s.call c = .joining false []) (w : Nat) :
    s.pool.worker w = .exited := by
  rcases awaits with gone | ⟨ws, waits, all⟩
  · exact gone w
  · by_contra lives
    cases call.symm.trans waits
    exact List.not_mem_nil (all w lives)

theorem Onward.awaits (on : Onward rule before m turn s) (run : Run rule start cs before m)
    (fresh : start.Fresh) (ofPool : rule.OfPool) (released : m.pool.released = true)
    (awaits : m.Awaits c) : s.pool.released = true ∧ s.Awaits c := by
  refine on.preserves (P := fun s => s.pool.released = true ∧ s.Awaits c) run fresh ofPool
    ⟨released, awaits⟩ fun run proceeds ⟨up, awaits⟩ => ?_
  obtain ⟨_, closes, _⟩ := proceeds.closes (run.steady fresh) up
  exact ⟨closes.released, awaits.next proceeds closes.released⟩

theorem Onward.gone_of_answer (on : Onward rule before m (some (.caller c)) s)
    (run : Run rule start cs before m) (fresh : start.Fresh) (ofPool : rule.OfPool)
    (released : m.pool.released = true) (awaits : m.Awaits c)
    (answers : s.step.history = s.history ++ [.answered .release]) :
    s.pool.released = true ∧ ∀ w, s.pool.worker w = .exited := by
  obtain ⟨released, awaits⟩ := on.awaits run fresh ofPool released awaits
  obtain ⟨_, run⟩ := run.onward on
  have joined := joined_of_answer ((run.given fresh ofPool).ofPool c) run.head_of_turn answers
  exact ⟨released, awaits.gone joined⟩

/-- What a release of a pool waits for, if no other is under way. -/
structure WaitsForAll (rule : Rule) (c : Nat) (m : Machine) (turn : Option Agent) (s : Machine) :
    Prop where
  alone : (∀ d, (m.call d).isClosing = false) → turn = some (.caller c) →
    s.step.history = s.history ++ [.answered .release] → Vacant rule s
  beside : (∃ d, (m.call d).isClosing = true) →
    m.step.pool = m.pool ∧ m.step.step.history = m.history ++ [.answered .release]
  returns : s.ready = [] → s.pool.executing = 0 → ∀ d, (s.call d).isClosing = false

theorem Steady.gone_of_settled (steady : Steady turn s) (settled : s.ready = [])
    (released : s.pool.released = true) :
    s.pool.submissions = [] ∧ s.pool.live = s.pool.executing := by
  have none : s.pool.submissions = [] := List.eq_nil_iff_forall_not_mem.2 fun t mem => by
    have running := (steady.waiting_of_settled settled mem).2
    rw [released] at running
    cases running
  have idle : s.pool.idle = [] := by
    by_contra line
    obtain ⟨w, l, line⟩ := List.exists_cons_of_ne_nil line
    obtain ⟨d, waits⟩ := (steady.sound.line w).1 (by simp [line])
    refine steady.not_summons settled (.worker w) ?_
    simp only [Pool.Summons, waits]
    exact ⟨by simp [line], .inr (by simp [Pool.closed, released, none])⟩
  exact ⟨none, steady.live_of_settled settled idle⟩

theorem Steady.queue_of_idle (steady : Steady turn s) (settled : s.ready = [])
    (released : s.pool.released = true) (none : s.pool.executing = 0) : s.pool.queue = [] := by
  by_contra queued
  have := steady.manned queued (steady.sent_of_released released)
  rw [(steady.gone_of_settled settled released).2] at this
  omega

theorem gone_of_live {p : Pool} (sound : p.Sound) (live : p.live = 0) (w : Nat) :
    p.worker w = .exited := by
  by_contra lives
  have := sound.live_pos_of_worker lives
  omega

theorem due_of_closing (waits : (s.call c).isClosing = true)
    (gone : ∀ w, s.pool.worker w = .exited) : s.Due c := by
  cases call : s.call c with
  | joining stop handles =>
    rw [call] at waits
    cases stop with
    | true => cases waits
    | false =>
      cases handles with
      | nil => exact .inr (.inl call)
      | cons w ws => exact .inr (.inr ⟨w, ws, call, gone w⟩)
  | _ =>
    rw [call] at waits
    cases waits

theorem answers_of_handled (head : s.ready.head? = some (.caller c)) (call : s.call c = .releasing)
    (released : s.pool.released = true) (none : s.pool.handles = []) :
    s.step.pool = s.pool ∧ s.step.step.history = s.history ++ [.answered .release] := by
  obtain ⟨pool, waits, history⟩ := step_of_releasing call
  rw [← step_of_caller head] at pool waits history
  refine ⟨?_, ?_⟩
  · rw [pool]
    cases eq : s.pool
    simp_all
  · rw [none] at waits
    have next : s.step.step = s.step.answer c .release := by
      rw [step_of_caller (goesOn_of_releasing head call)]
      simp [stepCaller, waits]
    rw [next, ← history]
    exact history_log (s.step.setCall c .returned) _

/-- However releases overlap, one that begins while no other waits returns when all have left. -/
theorem Run.waitsForAll {capacity expiry : Nat} {scenario : Scenario}
    (made : ofPool capacity expiry scenario = .made start) (ofPool : rule.OfPool)
    (before : Run rule start cs (some (.caller c)) m) (releasing : m.call c = .releasing)
    (on : Onward rule (some (.caller c)) m.step turn s) : WaitsForAll rule c m turn s := by
  have fresh := fresh_ofPool made
  have head := before.head_of_turn
  have begun := before.move (goesOn_of_releasing head releasing)
  obtain ⟨_, run⟩ := begun.onward on
  have closing := before.closing fresh ofPool
  obtain ⟨pool, waits, _⟩ := step_of_releasing releasing
  rw [← step_of_caller head] at pool waits
  have up : m.step.pool.released = true := by rw [pool]
  constructor
  case alone =>
    rintro none rfl answers
    have steady := before.steady fresh
    have proceeds := proceeds_step steady head (before.given fresh ofPool).ofPool
    -- It takes the handles itself, or the release that has taken them has returned.
    have awaits : m.step.Awaits c := by
      cases down : m.pool.released with
      | false => exact proceeds.awaits steady.sound down up waits
      | true =>
        obtain ⟨d, gone | ⟨ws, call, _⟩⟩ := closing.waits down
        · exact .inl fun w => proceeds.stays up (gone w)
        · have away := none d
          rw [call] at away
          cases away
    obtain ⟨released, gone⟩ := on.gone_of_answer begun fresh ofPool up awaits answers
    exact run.vacant fresh ofPool released gone
  case beside =>
    rintro ⟨d, other⟩
    have down := closing.closing d other
    exact answers_of_handled head releasing down (closing.handled down)
  case returns =>
    intro settled none d
    have steady := run.steady fresh
    refine Bool.eq_false_iff.2 fun waits => ?_
    have released := (run.closing fresh ofPool).closing d waits
    have live := (steady.gone_of_settled settled released).2.trans none
    have due := due_of_closing waits (gone_of_live steady.sound live)
    have ready := run.ready_of_due fresh ofPool due
    rw [settled] at ready
    cases ready

def secondRelease : Machine :=
  (((heldUp.play [.submit [heldItem], .release]).1.apply .release).prefer (.caller 2)).step

def heldRelease : Machine :=
  ((heldUp.play [.submit [heldItem, heldItem]]).1.apply .release).prefer (.caller 1)

def freedRelease : Machine :=
  Machine.run 7 (heldRelease.step.step.apply (.unhold "a"))

theorem run_heldRelease (fresh : heldUp.Fresh) :
    Run poolRule heldUp [.submit [heldItem, heldItem], .release] (some (.caller 1)) heldRelease :=
  have submitted := run_play [.submit [heldItem, heldItem]] fresh (by simp [Command.isOfPool])
  (submitted.command (c := .release) rfl rfl).choose (by decide +kernel) trivial

theorem onward_freedRelease :
    Onward poolRule (some (.caller 1)) heldRelease.step (some (.caller 1)) freedRelease := by
  have waits : Onward poolRule (some (.caller 1)) heldRelease.step none heldRelease.step.step :=
    Onward.here.pause (by decide +kernel)
  exact (waits.command (c := .unhold "a") rfl rfl).run
    (Run.start.amid (fun _ _ _ => trivial) 7 (by decide +kernel))

theorem waitsForAll_freedRelease :
    (∀ d, (heldRelease.call d).isClosing = false) ∧ heldRelease.pool.executing = 1 ∧
      freedRelease.step.history = freedRelease.history ++ [.answered .release] ∧
      WaitsForAll poolRule 1 heldRelease (some (.caller 1)) freedRelease := by
  have made : ofPool 1 100 heldUp.scenario = .made heldUp := rfl
  refine ⟨fun d => ?_, by decide +kernel, by decide +kernel, ?_⟩
  · match d with
    | 0 | 1 => rfl
    | d + 2 => rfl
  · exact Run.waitsForAll made (fun _ _ => id) (run_heldRelease (fresh_ofPool made))
      (by decide +kernel) onward_freedRelease

/-- The second release returns while the evaluation executes. -/
theorem returnsEarly_secondRelease :
    Run poolRule heldUp [.submit [heldItem], .release, .release] (some (.caller 2))
        secondRelease ∧
      secondRelease.step.history = secondRelease.history ++ [.answered .release] ∧
      secondRelease.pool.live = 1 ∧ secondRelease.pool.inFlight = 1 ∧
      secondRelease.pool.executing = 1 := by
  have made : ofPool 1 100 heldUp.scenario = .made heldUp := rfl
  have run := run_play [.submit [heldItem], .release] (fresh_ofPool made)
    (by simp [Command.isOfPool])
  have chosen := (run.command (c := .release) rfl rfl).choose (a := .caller 2)
    (by decide +kernel) trivial
  exact ⟨chosen.move (by decide +kernel), by decide +kernel, rfl, rfl, rfl⟩

structure Shut (m s : Machine) : Prop where
  released : s.pool.released = true
  accepted : marked .accepted s.history = marked .accepted m.history
  live : s.pool.live ≤ m.pool.live
  inFlight : s.pool.inFlight ≤ m.pool.inFlight

theorem Onward.shut (on : Onward rule before m turn s) (run : Run rule start cs before m)
    (fresh : start.Fresh) (ofPool : rule.OfPool) (released : m.pool.released = true) :
    Shut m s := by
  refine on.preserves (P := Shut m) run fresh ofPool
    ⟨released, rfl, Nat.le_refl _, Nat.le_refl _⟩ fun run proceeds shut => ?_
  obtain ⟨_, _, events, move, told⟩ := proceeds.pool
  have closes := move.closes (run.steady fresh).timely shut.released
  refine ⟨closes.released, ?_, Nat.le_trans closes.live shut.live,
    Nat.le_trans (closes.inFlight move.capacity.1) shut.inFlight⟩
  rw [← marked_itemEvents, told, marked_append, closes.accepted, List.append_nil,
    marked_itemEvents, shut.accepted]

theorem submitting_of_refused {i : WorkItem} {rest : List WorkItem} {entered : Bool}
    (call : s.call c = .submitting (i :: rest) entered)
    (refused : (s.pool.submit c i entered).2.2 = .refused) :
    (s.stepCaller c).call c = .submitting rest false := by
  have ne : s.call c ≠ .returned := by simp [call]
  simp only [stepCaller, call, stepSubmitter, submit, refused]
  exact call_setCall_self (s := { s with pool := (s.pool.submit c i entered).1 }) ne _

theorem refuses_of_released (steady : Steady (some (.caller c)) s)
    (act : Act s (.caller c) woken events s.step) (head : s.ready.head? = some (.caller c))
    (released : s.pool.released = true) {i : WorkItem} {rest : List WorkItem} {entered : Bool}
    (call : s.call c = .submitting (i :: rest) entered) :
    s.step.history = s.history ++ [.refused i, .answered (.submit i.job false)] ∧
      ∀ t ∈ s.step.pool.submissions, t.caller ≠ c := by
  have refused := Pool.submit_of_released steady.timely released c i entered
  constructor
  · rw [step_of_caller head, (told_stepSubmitter call).1, refused]
    rfl
  · rintro t mem rfl
    have after := (steady.linked_act act t.caller t.item).1 (Pool.mem_entries.2 ⟨t, mem, rfl, rfl⟩)
    rw [step_of_caller head, submitting_of_refused call refused] at after
    cases rest <;> cases after

structure Standing (s : Machine) : Prop where
  refused : s.pool.submissions = [] ∧ ∀ d, (s.call d).pending = []
  live : s.pool.live = s.pool.executing
  queue : s.pool.queue ≠ [] → 0 < s.pool.executing
  inFlight : s.pool.queue.length + s.pool.executing = s.pool.inFlight
  fates : (marked .taken s.history).Perm (marked .started s.history ++ marked .dropped s.history)
  evaluated : s.shutdown = false →
    (marked .started s.history).Perm ((marked .taken s.history).filter (·.fault? = none))

theorem Steady.standing (steady : Steady turn s) (settled : s.ready = [])
    (released : s.pool.released = true) : Standing s := by
  obtain ⟨none, live⟩ := steady.gone_of_settled settled released
  have fates := steady.fates (steady.held_of_settled settled nofun)
  rw [steady.held_of_settled (k := .handed) settled nofun, List.append_nil] at fates
  constructor
  case refused =>
    refine ⟨none, fun d => ?_⟩
    by_contra pending
    exact steady.submission_of_settled settled pending none
  case live => exact live
  case queue =>
    intro queued
    by_contra idle
    exact queued (steady.queue_of_idle settled released (by omega))
  case inFlight => exact steady.inFlight_of_settled settled
  case fates => exact fates
  case evaluated => exact fun running => steady.perm_fit running fates

structure StaysShut (rule : Rule) (c : Nat) (m m' : Machine) (turn : Option Agent) (s : Machine) :
    Prop where
  accepted : marked .accepted s.history = marked .accepted m.history
  refuses : ∀ d i rest entered, turn = some (.caller d) →
    s.call d = .submitting (i :: rest) entered →
    s.step.history = s.history ++ [.refused i, .answered (.submit i.job false)] ∧
    ∀ t ∈ s.step.pool.submissions, t.caller ≠ d
  unstarted : ∀ i, (marked .started s.history).count i ≤ (marked .accepted m.history).count i
  live_le : s.pool.live ≤ m'.pool.live
  inFlight_le : s.pool.inFlight ≤ m'.pool.inFlight
  order : marked .accepted m.history = marked .taken s.history ++ s.pool.queue
  reasons : ∀ i r, .dropped i r ∈ s.history →
    (r = .shutdown ∧ s.shutdown = true) ∨ ∃ f, r = .malformed f ∧ i.fault? = some f
  settled : s.ready = [] → Standing s
  returned : m.pool.released = false → turn = some (.caller c) →
    s.step.history = s.history ++ [.answered .release] → Vacant rule s ∧ Accounted s ∧
    s.pool.inFlight = s.pool.submissions.countP (·.stage = .granted)

/-- A pool that has been released stays closed and loses nothing that it has accepted. -/
theorem Run.staysShut {capacity expiry : Nat} {scenario : Scenario}
    (made : ofPool capacity expiry scenario = .made start) (ofPool : rule.OfPool)
    (first : Run rule start cs (some (.caller c)) m) (releasing : m.call c = .releasing)
    (on : Onward rule (some (.caller c)) m.step before m') (later : Onward rule before m' turn s) :
    StaysShut rule c m m' turn s := by
  have fresh := fresh_ofPool made
  have head := first.head_of_turn
  have begun := first.move (goesOn_of_releasing head releasing)
  obtain ⟨_, run'⟩ := begun.onward on
  obtain ⟨_, run⟩ := run'.onward later
  have steady := run.steady fresh
  obtain ⟨pool, waits, history⟩ := step_of_releasing releasing
  rw [← step_of_caller head] at pool waits history
  have up : m.step.pool.released = true := by rw [pool]
  have shut := (on.trans later).shut begun fresh ofPool up
  have shut' := later.shut run' fresh ofPool (on.shut begun fresh ofPool up).released
  have accepted : marked .accepted s.history = marked .accepted m.history := by
    rw [shut.accepted, history]
  constructor
  case accepted => exact accepted
  case refuses =>
    rintro d i rest entered rfl call
    obtain ⟨_, _, act⟩ := run.act fresh
    exact refuses_of_released steady act run.head_of_turn shut.released call
  case unstarted =>
    intro i
    have := steady.ledger.begun_le i
    simp only [marked_itemEvents, accepted] at this
    omega
  case live_le => exact shut'.live
  case inFlight_le => exact shut'.inFlight
  case order =>
    rw [← accepted]
    exact steady.order (steady.sent_of_released shut.released)
  case reasons => exact fun i r => steady.dropped_cases
  case settled => exact fun settled => steady.standing settled shut.released
  case returned =>
    rintro down rfl answers
    have proceeds := proceeds_step (first.steady fresh) head (first.given fresh ofPool).ofPool
    have awaits := proceeds.awaits (first.steady fresh).sound down up waits
    obtain ⟨released, gone⟩ :=
      (on.trans later).gone_of_answer begun fresh ofPool up awaits answers
    exact ⟨run.vacant fresh ofPool released gone, steady.accounted_of_gone released gone,
      steady.inFlight_of_gone released gone⟩

def crowd : List WorkItem := [heldItem, { heldItem with job := "" }, quickItem]

def crowdedRelease : Machine :=
  ((Machine.run 7 (heldUpPair.apply (.submit crowd))).apply .release).prefer (.caller 1)

def emptiedRelease : Machine :=
  Machine.run 6 (crowdedRelease.step.step.settle.apply (.unhold "a"))

theorem run_crowdedRelease :
    Run poolRule heldUpPair [.submit crowd, .release] (some (.caller 1)) crowdedRelease := by
  have told : Run poolRule heldUpPair [.submit crowd] none (heldUpPair.apply (.submit crowd)) :=
    Run.start.command rfl rfl
  have chosen := told.choose (a := .caller 0) (by decide +kernel) trivial
  have sent := ((((((chosen.move rfl).move rfl).move rfl).move rfl).move rfl).move rfl).pause
    (by decide +kernel)
  exact (sent.command (c := .release) rfl rfl).choose (by decide +kernel) trivial

theorem staysShut_emptiedRelease :
    crowdedRelease.pool.released = false ∧ crowdedRelease.pool.queue.length = 2 ∧
      crowdedRelease.pool.submissions.length = 1 ∧
      crowdedRelease.step.step.settle.pool.executing = 1 ∧
      emptiedRelease.step.history = emptiedRelease.history ++ [.answered .release] ∧
      marked .started emptiedRelease.history = [heldItem] ∧
      marked .refused emptiedRelease.history = [quickItem] ∧
      StaysShut poolRule 1 crowdedRelease crowdedRelease.step.step.settle (some (.caller 1))
        emptiedRelease := by
  have made : ofPool 2 100 heldUp.scenario = .made heldUpPair := rfl
  have waits : Onward poolRule (some (.caller 1)) crowdedRelease.step none
      crowdedRelease.step.step :=
    Onward.here.pause (by decide +kernel)
  have settled := waits.run (Run.start.settle fun _ _ _ => trivial)
  have told : Onward poolRule none crowdedRelease.step.step.settle none
      (crowdedRelease.step.step.settle.apply (.unhold "a")) := Onward.here.command rfl rfl
  have later : Onward poolRule none crowdedRelease.step.step.settle (some (.caller 1))
      emptiedRelease := told.run (Run.start.amid (fun _ _ _ => trivial) 6 (by decide +kernel))
  exact ⟨by decide +kernel, by decide +kernel, by decide +kernel, by decide +kernel,
    by decide +kernel, by decide +kernel, by decide +kernel,
    Run.staysShut made (fun _ _ => id) run_crowdedRelease (by decide +kernel) settled later⟩

def hastyPool : Machine := { heldUp with pool := { capacity := 1, expiry := 0, free := 1 } }

def hastyEnd : Machine :=
  ((hastyPool.play [.submit [heldItem, heldItem]]).1.apply (.unhold "a")).step

def hastyRelease : Machine := Machine.run 3 (hastyEnd.apply .release)

/-- The only worker leaves as the evaluation ends, and the slot goes to the second submission. -/
theorem granted_hastyRelease :
    Run poolRule hastyPool [.submit [heldItem, heldItem], .unhold "a", .release]
        (some (.caller 1)) hastyRelease.step.step ∧
      hastyRelease.pool.released = false ∧ hastyRelease.call 1 = .releasing ∧
      hastyRelease.step.step.step.history =
        hastyRelease.step.step.history ++ [.answered .release] ∧
      hastyRelease.step.step.pool.live = 0 ∧ hastyRelease.step.step.pool.inFlight = 1 := by
  have made : ofPool 1 0 heldUp.scenario = .made hastyPool := rfl
  have submitted := run_play [.submit [heldItem, heldItem]] (fresh_ofPool made)
    (by simp [Command.isOfPool])
  have freed := submitted.command (c := .unhold "a") rfl rfl
  have ended : Run poolRule hastyPool [.submit [heldItem, heldItem], .unhold "a"] none hastyEnd :=
    (freed.choose (a := .evaluation 0) (by decide +kernel) trivial).pause (by decide +kernel)
  have released := (ended.command (c := .release) rfl rfl).amid (a := .caller 1)
    (fun _ _ _ => trivial) 3 (by decide +kernel)
  exact ⟨(released.move (by decide +kernel)).move (by decide +kernel), rfl, by decide +kernel,
    by decide +kernel, by decide +kernel, by decide +kernel⟩

end Autoscaling.Machine
