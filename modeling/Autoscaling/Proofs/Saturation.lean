import Autoscaling.Proofs.Conservation
import Autoscaling.Proofs.Occupancy

namespace Autoscaling.Machine

variable {s s' start : Machine} {turn : Option Agent} {a : Agent} {cs : List Command}
  {woken : List Agent} {events : List Event} {rule : Rule}

structure Prompt (turn : Option Agent) (s : Machine) : Prop where
  soon : ∀ w d, s.pool.worker w = .idle d → d ≤ s.now + s.pool.expiry
  own : s.pool.expiry = 0 → ∀ w d, s.pool.worker w = .idle d → turn = some (.worker w)

theorem Punctual.early (punctual : s.Punctual) (rests : ¬ s.Awake (.worker w))
    (waits : s.pool.worker w = .idle d) : s.now < d := by
  by_cases mem : (d, Agent.worker w) ∈ s.timers
  · exact punctual _ mem
  · exact absurd (.inr ⟨d, waits, mem⟩) rests

theorem Steady.early_of_settled (steady : Steady turn s) (punctual : s.Punctual)
    (settled : s.ready = []) (waits : s.pool.worker w = .idle d) : s.now < d := by
  refine punctual.early (fun awake => ?_) waits
  have mem := steady.awake _ awake
  rw [settled] at mem
  cases mem

namespace Prompt

theorem soon_move {p : Pool} (prompt : Prompt turn s)
    (move : s.pool.Move s.now s.shutdown a woken events p) {w d : Nat}
    (waits : p.worker w = .idle d) : d ≤ s.now + p.expiry := by
  rw [move.capacity.2]
  rcases move.idle_cases waits with ⟨before, _⟩ | ⟨_, _, rfl, _⟩
  · exact prompt.soon w d before
  · exact Nat.le_refl _

theorem own_move {p : Pool} (prompt : Prompt turn s)
    (move : s.pool.Move s.now s.shutdown a woken events p) (eager : p.expiry = 0) {w d : Nat}
    (waits : p.worker w = .idle d) : turn = some (.worker w) ∨ a = .worker w := by
  rcases move.idle_cases waits with ⟨before, _⟩ | ⟨own, _⟩
  · exact .inl (prompt.own (move.capacity.2 ▸ eager) w d before)
  · exact .inr own

theorem alone {p : Pool} {w : Nat} (prompt : Prompt (some (.worker w)) s) (sound : s.pool.Sound)
    (rests : s.pool.worker w = .resting) (line : p.idle = s.pool.idle ++ [w])
    (due : s.now + s.pool.expiry ≤ s.now) : p.idle.head? = some w := by
  have none : s.pool.idle = [] := List.eq_nil_iff_forall_not_mem.2 fun v mem => by
    obtain ⟨d, waits⟩ := (sound.line v).1 mem
    have own := prompt.own (by omega) v d waits
    cases own
    cases rests.symm.trans waits
  rw [line, none]
  rfl

theorem move (prompt : Prompt (some a) s) (act : Act s a woken events s') :
    Prompt (some a) s' := by
  constructor
  case soon =>
    intro w d waits
    rw [act.now]
    exact prompt.soon_move act.pool waits
  case own =>
    intro eager w d waits
    exact (prompt.own_move act.pool eager waits).elim id fun own => congrArg some own

theorem pause (prompt : Prompt (some a) s) (act : Act s a woken events s')
    (punctual : s'.Punctual) (waits : s'.ready.head? ≠ some a) : Prompt none s' := by
  have moved := prompt.move act
  refine ⟨moved.soon, fun eager w d idle => ?_⟩
  cases moved.own eager w d idle
  have early := punctual.early (act.goesOn.resolve_left waits) idle
  have := moved.soon w d idle
  omega

end Prompt

theorem Run.prompt (run : Run rule start cs turn s) (fresh : start.Fresh) : Prompt turn s := by
  induction run with
  | start =>
    obtain ⟨_, _, pool⟩ := fresh.pool
    constructor <;> simp [pool, Pool.worker]
  | command run _ instant ih =>
    obtain ⟨w, move⟩ := (run.steady fresh).move_apply instant
    constructor
    case soon =>
      intro v d waits
      rw [(journal_apply _ instant).2.1]
      exact ih.soon_move move waits
    case own =>
      intro eager v d waits
      exact (ih.own_move move eager waits).resolve_right (by simp)
  | elapse _ _ later _ ih =>
    exact ⟨fun w d waits => Nat.le_trans (ih.soon w d waits) (Nat.add_le_add_right later _), ih.own⟩
  | choose _ _ _ ih =>
    refine ⟨ih.soon, fun eager w d waits => ?_⟩
    cases ih.own eager w d waits
  | move run _ ih =>
    obtain ⟨_, _, act⟩ := run.act fresh
    exact ih.move act
  | pause run waits ih =>
    obtain ⟨_, _, act⟩ := run.act fresh
    exact ih.pause act ((run.pause waits).punctual fresh.punctual) waits

def Ripe (s : Machine) (w : Nat) : Prop :=
  ∀ d, s.pool.worker w = .idle d → d ≤ s.now → s.pool.queue = [] ∨ s.pool.idle.head? = some w

theorem Ripe.move {w : Nat} (ripe : s.Ripe w) (prompt : Prompt (some (.worker w)) s)
    (sound : s.pool.Sound) (act : Act s (.worker w) woken events s') : s'.Ripe w := by
  intro d waits due
  rw [act.now] at due
  rcases act.pool.idle_cases waits with ⟨before, same, _⟩ | ⟨_, rests, rfl, line⟩
  · rw [same rfl]
    exact ripe d before due
  · exact .inr (prompt.alone sound rests line due)

structure Still (s : Machine) : Prop where
  queue : s.pool.queue = []
  pending : ∀ c, (s.call c).pending = []

theorem pending_of_item? {x : Call} (ofPool : x.ofPool = true) (item : x.item? = some i) :
    x.pending ≠ [] := by
  cases x with
  | submitting items entered =>
    cases items with
    | nil => cases entered <;> cases item
    | cons i rest => simp [Call.pending]
  | evaluating | ticking => cases ofPool
  | _ => cases item

theorem Still.submissions (still : s.Still) (linked : s.Linked)
    (ofPool : ∀ c, (s.call c).ofPool = true) : s.pool.submissions = [] := by
  refine List.eq_nil_iff_forall_not_mem.2 fun t mem => ?_
  have entry : (t.caller, t.item) ∈ s.pool.entries := Pool.mem_entries.2 ⟨t, mem, rfl, rfl⟩
  exact pending_of_item? (ofPool _) ((linked _ _).1 entry) (still.pending _)

theorem Still.act (still : s.Still) (linked : s.Linked) (ofPool : ∀ c, (s.call c).ofPool = true)
    (act : Act s a woken events s') : s'.Still := by
  constructor
  case queue => exact act.pool.queue_eq_nil still.queue (still.submissions linked ofPool)
  case pending =>
    intro c
    by_cases own : a = .caller c
    · obtain ⟨_, pending⟩ := act.ofPool c own (ofPool c)
      rw [still.pending] at pending
      exact (List.append_eq_nil_iff.1 pending.symm).2
    · rw [act.calls c own]
      exact still.pending c

theorem Still.apply {c : Command} (still : s.Still) (steady : Steady turn s)
    (given : Given cs s) (instant : c.isInstant = true) (ofPool : c.isOfPool = true)
    (other : ∀ items, c ≠ .submit items) : (s.apply c).Still := by
  obtain ⟨w, move⟩ := steady.move_apply instant
  refine ⟨move.queue_eq_nil still.queue (still.submissions steady.linked given.ofPool), fun d => ?_⟩
  cases c with
  | submit items => exact absurd rfl (other items)
  | advance => cases instant
  | unhold job =>
    simp only [Machine.apply, call, calls_unhold]
    exact still.pending d
  | shutdown =>
    simp only [Machine.apply, call_signalShutdown]
    exact still.pending d
  | release =>
    simp only [Machine.apply, call_begin]
    split
    · rfl
    · exact still.pending d
  | _ => cases ofPool

namespace Steady

theorem queue_of_settled (steady : Steady turn s) (settled : s.ready = [])
    (mem : w ∈ s.pool.idle) : s.pool.queue = [] := by
  by_contra queued
  obtain ⟨v, l, line⟩ := List.exists_cons_of_ne_nil (List.ne_nil_of_mem mem)
  obtain ⟨d, waits⟩ := (steady.sound.line v).1 (by simp [line])
  refine steady.not_summons settled (.worker v) ?_
  simp only [Pool.Summons, waits]
  exact ⟨by simp [line], .inl queued⟩

theorem submission_of_settled (steady : Steady turn s) (settled : s.ready = []) {c : Nat}
    (pending : (s.call c).pending ≠ []) : s.pool.submissions ≠ [] := by
  have rests : (s.call c).begins ≠ true := fun begins => by
    have mem := steady.awake (.caller c) (.inr begins)
    rw [settled] at mem
    cases mem
  cases call : s.call c with
  | submitting items entered =>
    rw [call] at rests pending
    cases items with
    | nil => exact absurd rfl pending
    | cons i rest =>
      cases entered with
      | false => exact absurd rfl rests
      | true =>
        obtain ⟨t, mem, _⟩ := Pool.mem_entries.1 ((steady.linked c i).2 (by rw [call]; rfl))
        exact List.ne_nil_of_mem mem
  | _ =>
    rw [call] at pending
    exact absurd rfl pending

theorem inFlight_of_submission (steady : Steady turn s) (settled : s.ready = [])
    (waits : s.pool.submissions ≠ []) : s.pool.inFlight = s.pool.capacity := by
  obtain ⟨t, mem⟩ := List.exists_mem_of_ne_nil _ waits
  obtain ⟨waiting, running⟩ := steady.waiting_of_settled settled mem
  rw [Pool.inFlight, steady.sound.full t mem waiting running, Nat.sub_zero]

theorem executing_of_submission (steady : Steady turn s) (settled : s.ready = [])
    (queue : s.pool.queue = []) (waits : s.pool.submissions ≠ []) :
    s.pool.executing = s.pool.capacity := by
  have := steady.inFlight_of_settled settled
  have := steady.inFlight_of_submission settled waits
  rw [queue, List.length_nil] at *
  omega

theorem sent_of_settled (steady : Steady turn s) (settled : s.ready = []) : s.pool.sent = [] := by
  refine Pool.sent_of_unqueued fun t mem => ?_
  simp [(steady.waiting_of_settled settled mem).1]

theorem idle_of_spare (steady : Steady turn s) (settled : s.ready = [])
    (spare : 0 < s.pool.workers.countP (·.isSpare)) : ∃ w, w ∈ s.pool.idle := by
  obtain ⟨x, mem, spare⟩ := List.countP_pos_iff.1 spare
  obtain ⟨w, rfl⟩ := Pool.exists_worker mem
  have rests := steady.not_summons settled (.worker w)
  cases worker : s.pool.worker w with
  | resting => exact absurd (by simp only [Pool.Summons, worker]) rests
  | idle d => exact ⟨w, (steady.sound.line w).2 ⟨d, worker⟩⟩
  | _ =>
    rw [worker] at spare
    cases spare

theorem live_of_settled (steady : Steady turn s) (settled : s.ready = [])
    (none : s.pool.idle = []) : s.pool.live = s.pool.executing := by
  have spare : s.pool.workers.countP (·.isSpare) = 0 := by
    by_contra some
    obtain ⟨w, mem⟩ := steady.idle_of_spare settled (Nat.pos_of_ne_zero some)
    rw [none] at mem
    cases mem
  rw [steady.sound.live_eq, Pool.countP_isLive, spare, Nat.zero_add]
  exact (steady.executing_of_settled settled).symm

theorem still_of_settled (steady : Steady turn s) (settled : s.ready = [])
    (waits : s.pool.worker w = .idle d) : s.Still := by
  have queue := steady.queue_of_settled settled ((steady.sound.line w).2 ⟨d, waits⟩)
  refine ⟨queue, fun c => ?_⟩
  by_contra pending
  have full := steady.executing_of_submission settled queue
    (steady.submission_of_settled settled pending)
  have spare : 0 < s.pool.workers.countP (·.isSpare) :=
    have mem := List.mem_of_getElem? (Pool.worker_eq_of_ne_exited waits (by simp))
    List.countP_pos_iff.2 ⟨_, mem, rfl⟩
  have := Pool.executing_le_countP_hasItem s.pool
  have := Pool.countP_isLive s.pool.workers
  have := steady.sound.live_eq
  have := steady.sound.live_le
  omega

theorem queue_of_staffed (steady : Steady turn s) (settled : s.ready = [])
    (staffed : s.pool.Staffed) : s.pool.queue = [] := by
  by_contra queued
  have length := List.length_pos_iff.2 queued
  unfold Pool.Staffed at staffed
  rw [steady.sent_of_settled settled] at staffed
  obtain ⟨w, mem⟩ := steady.idle_of_spare settled (Nat.lt_of_lt_of_le length staffed)
  exact queued (steady.queue_of_settled settled mem)

theorem live_of_queue (steady : Steady turn s) (settled : s.ready = [])
    (queued : s.pool.queue ≠ []) : 0 < s.pool.live ∧ s.pool.live = s.pool.executing := by
  refine ⟨steady.manned queued (steady.sent_of_settled settled), ?_⟩
  exact steady.live_of_settled settled <| List.eq_nil_iff_forall_not_mem.2 fun w mem =>
    queued (steady.queue_of_settled settled mem)

end Steady

/-- New items come when all wait, or when nobody's time is up but that of the first in line; agents
move in any order. -/
def orderly : Rule where
  comes s c := c.isOfPool = true ∧ ∀ items, c = .submit items → s.ready = [] ∨
    ∀ w d, s.pool.worker w = .idle d → d ≤ s.now → s.pool.idle.head? = some w

/-- New items come at any time; those whose time is up move as they stand in line, unless there is
nothing to take. -/
def inLine : Rule where
  comes _ c := c.isOfPool = true
  chooses s a := ∀ w, a = .worker w → s.Ripe w

def Attended (s : Machine) : Prop :=
  ∀ w d, s.pool.worker w = .idle d → d ≤ s.now → s.Still ∨ s.pool.idle.head? = some w

theorem Attended.act (attended : s.Attended) (prompt : Prompt (some a) s) (steady : Steady turn s)
    (given : Given cs s) (act : Act s a woken events s') : s'.Attended := by
  intro w d waits due
  rw [act.now] at due
  rcases act.pool.idle_cases waits with ⟨before, _, first⟩ | ⟨rfl, rests, rfl, line⟩
  · refine (attended w d before due).imp (fun still => ?_) first
    exact still.act steady.linked given.ofPool act
  · exact .inr (prompt.alone steady.sound rests line due)

theorem Run.attended (run : Run orderly start cs turn s) (fresh : start.Fresh) : s.Attended := by
  have ofPool : ∀ s c, orderly.comes s c → c.isOfPool = true := fun _ _ => And.left
  induction run with
  | start =>
    obtain ⟨_, _, pool⟩ := fresh.pool
    intro w d waits
    simp [pool, Pool.worker] at waits
  | @command cs s c run may instant ih =>
    intro w d waits due
    have steady := run.steady fresh
    obtain ⟨v, move⟩ := steady.move_apply instant
    rw [(journal_apply _ instant).2.1] at due
    obtain ⟨before, _, first⟩ := (move.idle_cases waits).resolve_right (by simp)
    by_cases submit : ∃ items, c = .submit items
    · obtain ⟨items, eq⟩ := submit
      rcases may.2 items eq with settled | alone
      · have early := steady.early_of_settled (run.punctual fresh.punctual) settled before
        omega
      · exact .inr (first (alone w d before due))
    · refine (ih w d before due).imp (fun still => ?_) first
      exact still.apply steady (run.given fresh ofPool) instant may.1 fun items eq =>
        submit ⟨items, eq⟩
  | elapse run settled _ _ _ =>
    intro w d waits _
    have still := (run.steady fresh).still_of_settled settled waits
    exact .inl ⟨still.queue, still.pending⟩
  | choose _ _ _ ih =>
    exact fun w d waits due => (ih w d waits due).imp_left fun still => ⟨still.queue, still.pending⟩
  | move run _ ih | pause run _ ih =>
    have steady := run.steady fresh
    obtain ⟨_, _, act⟩ := run.act fresh
    exact ih.act (run.prompt fresh) steady (run.given fresh ofPool) act

theorem Run.inLine_of_orderly (run : Run orderly start cs turn s) (fresh : start.Fresh) :
    Run inLine start cs turn s := by
  refine run.mono (fun _ _ _ _ => And.left) fun cs s a run _ w _ d waits due => ?_
  exact (run.attended fresh w d waits due).imp_left Still.queue

theorem Run.staffed (run : Run inLine start cs turn s) (fresh : start.Fresh) :
    s.pool.Staffed ∧ ∀ w, turn = some (.worker w) → s.Ripe w := by
  induction run with
  | start =>
    obtain ⟨_, _, pool⟩ := fresh.pool
    exact ⟨by simp [pool, Pool.Staffed], by simp⟩
  | command run _ instant ih =>
    have steady := run.steady fresh
    obtain ⟨w, move⟩ := steady.move_apply instant
    exact ⟨ih.1.move steady.sound move (steady.alone_between _) steady.timely (by simp), by simp⟩
  | elapse _ _ _ _ ih => exact ⟨ih.1, by simp⟩
  | choose _ _ may ih => exact ⟨ih.1, fun w eq => may w (Option.some.inj eq)⟩
  | move run _ ih =>
    have steady := run.steady fresh
    obtain ⟨_, _, act⟩ := run.act fresh
    refine ⟨ih.1.move steady.sound act.pool (steady.alone rfl) steady.timely
      fun w d own => ih.2 w (congrArg some own) d, fun w eq => ?_⟩
    cases eq
    exact (ih.2 w rfl).move (run.prompt fresh) steady.sound act
  | pause run _ ih =>
    have steady := run.steady fresh
    obtain ⟨_, _, act⟩ := run.act fresh
    exact ⟨ih.1.move steady.sound act.pool (steady.alone rfl) steady.timely
      fun w d own => ih.2 w (congrArg some own) d, by simp⟩

theorem orderly_play (cs : List Command) (fresh : start.Fresh)
    (ofPool : ∀ c ∈ cs, c.isOfPool = true) :
    Run orderly start (cs.filter (·.isInstant)) none (start.play cs).1 :=
  Run.start.play (fun _ _ _ => trivial) fresh.punctual fresh.ready fun _ _ c _ settled mem _ =>
    ⟨ofPool c mem, fun _ _ => .inl settled⟩

theorem Run.queue_of_settled (run : Run orderly start cs turn s ∨ Run inLine start cs turn s)
    (fresh : start.Fresh) (settled : s.ready = []) : s.pool.queue = [] := by
  have inLine : Run inLine start cs turn s := run.elim (·.inLine_of_orderly fresh) id
  exact (inLine.steady fresh).queue_of_staffed settled (inLine.staffed fresh).1

/-- How a pool of so many slots serves its items, whatever the order of turns. -/
structure Serves (capacity : Nat) (start : Machine) (cs : List Command) (turn : Option Agent)
    (s : Machine) : Prop where
  order : marked .accepted s.history = marked .taken s.history ++ s.pool.queue
  inFlight_eq : s.pool.inFlight = s.pool.queue.length + s.pool.executing
  busy : s.pool.queue ≠ [] → 0 < s.pool.live ∧ s.pool.live = s.pool.executing
  full : ∀ c, (s.call c).pending ≠ [] → s.pool.inFlight = capacity
  queue : Run orderly start cs turn s ∨ Run inLine start cs turn s → s.pool.queue = []

/-- Whenever all wait, an item in the queue waits for workers that all execute. There is none if
those whose time is up when items come move as they stand in line. -/
theorem Run.serves {capacity expiry : Nat} {scenario : Scenario}
    (made : ofPool capacity expiry scenario = .made start) (run : Run rule start cs turn s)
    (settled : s.ready = []) : Serves capacity start cs turn s := by
  have fresh := fresh_ofPool made
  have steady := run.steady fresh
  constructor
  case order => exact steady.order (steady.sent_of_settled settled)
  case inFlight_eq => exact (steady.inFlight_of_settled settled).symm
  case busy => exact steady.live_of_queue settled
  case full =>
    intro c pending
    have waits := steady.submission_of_settled settled pending
    rw [steady.inFlight_of_submission settled waits, (run.capacity fresh).1, pool_ofPool made]
  case queue => exact fun timely => Run.queue_of_settled timely fresh settled

theorem serves_heldUp :
    ((heldUp.play [.submit [heldItem, heldItem]]).1.call 0).pending = [heldItem] ∧
      (heldUp.play [.submit [heldItem, heldItem]]).1.ready = [] ∧
      Run orderly heldUp [.submit [heldItem, heldItem]] none
        (heldUp.play [.submit [heldItem, heldItem]]).1 ∧
      Serves 1 heldUp [.submit [heldItem, heldItem]] none
        (heldUp.play [.submit [heldItem, heldItem]]).1 := by
  have made : ofPool 1 100 heldUp.scenario = .made heldUp := rfl
  have run := orderly_play [.submit [heldItem, heldItem]] (fresh_ofPool made)
    (by simp [Command.isOfPool])
  exact ⟨rfl, rfl, run, Run.serves made run rfl⟩

def heldUpPair : Machine :=
  { heldUp with pool := { capacity := 2, expiry := 100, free := 2 } }

def quickItem : WorkItem := { heldItem with job := "b" }

/-- Both workers are due when the items come, and the second in line moves first. -/
theorem exists_unserved : ∃ cs s, Run poolRule heldUpPair cs none s ∧ s.ready = [] ∧
    s.pool.queue = [heldItem] ∧ (s.call 1).pending = [heldItem] ∧
    s.pool.executing = 1 ∧ s.pool.capacity = 2 := by
  have made : ofPool 2 100 heldUp.scenario = .made heldUpPair := rfl
  have lets : poolRule.LetsFirst := fun _ _ _ => trivial
  have rested := run_play [.submit [quickItem, quickItem]] (fresh_ofPool made)
    (by simp [Command.isOfPool])
  have due := rested.elapse (t := 100) rfl (by decide +kernel) (by decide +kernel)
  have told := due.command (c := .submit [heldItem, heldItem, heldItem]) rfl rfl
  have chosen := told.choose (a := .caller 1) (by decide +kernel) trivial
  have sent := ((((((chosen.move rfl).move rfl).move rfl).move rfl).move rfl).move rfl).pause
    (by decide +kernel)
  have left := (sent.choose (a := .worker 1) (by decide +kernel) trivial).pause (by decide +kernel)
  exact ⟨_, _, left.settle lets, ready_settle _, by decide +kernel, by decide +kernel,
    by decide +kernel, by decide +kernel⟩

end Autoscaling.Machine
