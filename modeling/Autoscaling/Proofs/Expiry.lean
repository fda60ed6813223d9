import Autoscaling.Proofs.Pool.Closing
import Autoscaling.Proofs.Saturation

namespace Autoscaling

namespace Pool

namespace Worker

def isBusy : Worker → Bool
  | .holding _ | .evaluating .. => true
  | _ => false

def isFree : Worker → Bool
  | .resting | .idle _ | .finished _ => true
  | _ => false

end Worker

inductive Fares (p : Pool) (now : Nat) : Worker → Worker → Prop
  | stay : Fares p now x x
  | hire : Fares p now .exited .resting
  | listen : Fares p now .resting (.idle (now + p.expiry))
  | take : Fares p now (.idle d) (.holding i)
  | depart (reason : d ≤ now ∨ p.released = true) : Fares p now (.idle d) .exited
  | work (before : x.isBusy = true) (after : y.isBusy = true) : Fares p now x y
  | finish (before : x.isBusy = true) (after : y = .resting ∨ ∃ i, y = .finished i) :
      Fares p now x y
  | complete : Fares p now (.finished i) .resting

variable {p p' : Pool} {a : Agent} {woken : List Agent} {events : List Event}

theorem Move.fares (h : Move now shutdown p a woken events p') (v : Nat) :
    Fares p now (p.worker v) (p'.worker v) := by
  have set {w : Nat} {x y : Worker} {q : Pool} (eq : q.worker w = x) (ne : x ≠ .exited)
      (same : q.worker v = p.worker v) (own : Fares p now x y) :
      Fares p now (p.worker v) ((q.setWorker w y).worker v) := by
    rw [worker_setWorker eq ne]
    split
    · next here =>
      rw [← same, here, eq]
      exact own
    · rw [same]
      exact .stay
  cases h with
  | listen rests => exact set (y := .idle _) rests (by simp) rfl .listen
  | @take w _ _ _ waits =>
    exact set (q := (p.leaveLine w).1) (y := .holding _) waits (by simp) rfl .take
  | @depart w _ waits reason =>
    refine set (q := (p.leaveLine w).1) (y := .exited) waits (by simp) rfl (.depart ?_)
    exact reason.imp_right fun ⟨closed, _⟩ => (Bool.and_eq_true_iff.1 closed).1
  | drop holds =>
    rw [Pool.complete, worker_freeSlot]
    exact set holds (by simp) rfl (.finish rfl (.inl rfl))
  | complete ended =>
    rw [Pool.complete, worker_freeSlot]
    exact set ended (by simp) rfl .complete
  | begin busy | progress busy => exact set busy (by simp) rfl (.work rfl rfl)
  | finish busy | panic busy => exact set busy (by simp) rfl (.finish rfl (.inr ⟨_, rfl⟩))
  | hire =>
    have new := worker_append_resting p v
    split at new
    · next eq =>
      have gone : p.worker v = .exited := by simp [worker, eq, List.getD_eq_getElem?_getD]
      rw [gone]
      exact (congrArg (Fares p now .exited) new).mpr .hire
    · exact (congrArg (Fares p now (p.worker v)) new).mpr .stay
  | release =>
    rw [release_fst]
    exact .stay
  | _ => exact .stay

end Pool

namespace Machine

def restsSince (s : Machine) (since : Nat → Option Nat) (w : Nat) : Option Nat :=
  if !(s.pool.worker w).isFree && (s.step.pool.worker w).isFree then some s.now else since w

/-- The runs from `start`, with the time at which each worker last came to be without an item. -/
inductive Clocked (rule : Rule) (start : Machine) :
    List Command → (Nat → Option Nat) → Option Agent → Machine → Prop
  | start : Clocked rule start [] (fun _ => none) none start
  | command (on : Clocked rule start cs since none s) (may : rule.comes s c)
      (instant : c.isInstant = true) :
      Clocked rule start (cs ++ [c]) since none (s.apply c)
  | elapse (on : Clocked rule start cs since none s) (settled : s.ready = []) (later : s.now ≤ t)
      (timely : ∀ timer ∈ s.timers, t ≤ timer.1) :
      Clocked rule start cs since none (s.elapse t)
  | choose (on : Clocked rule start cs since none s) (ready : a ∈ s.ready)
      (may : rule.chooses s a) :
      Clocked rule start cs since (some a) (s.prefer a)
  | move (on : Clocked rule start cs since (some a) s) (goesOn : s.step.ready.head? = some a) :
      Clocked rule start cs (s.restsSince since) (some a) s.step
  | pause (on : Clocked rule start cs since (some a) s) (waits : s.step.ready.head? ≠ some a) :
      Clocked rule start cs (s.restsSince since) none s.step

inductive Ages (expiry : Nat) (released : Bool) (now : Nat) : Pool.Worker → Option Nat → Prop
  | fresh (free : x = .resting ∨ ∃ i, x = .finished i) : Ages expiry released now x (some now)
  | idle (past : u ≤ now) (ahead : now ≤ u + expiry) :
      Ages expiry released now (.idle (u + expiry)) (some u)
  | busy (works : x.isBusy = true) : Ages expiry released now x o
  | gone (elapsed : ∀ u, o = some u → u + expiry ≤ now ∨ released = true) :
      Ages expiry released now .exited o

variable {rule : Rule} {start s : Machine} {turn : Option Agent} {cs : List Command}
  {since : Nat → Option Nat} {x y : Pool.Worker} {o : Option Nat} {w u : Nat}

theorem Clocked.run (on : Clocked rule start cs since turn s) : Run rule start cs turn s := by
  induction on with
  | start => exact .start
  | command _ may instant ih => exact ih.command may instant
  | elapse _ settled later timely ih => exact ih.elapse settled later timely
  | choose _ ready may ih => exact ih.choose ready may
  | move _ goesOn ih => exact ih.move goesOn
  | pause _ waits ih => exact ih.pause waits

theorem Run.clocked (run : Run rule start cs turn s) :
    ∃ since, Clocked rule start cs since turn s := by
  induction run with
  | start => exact ⟨_, .start⟩
  | command _ may instant ih => exact ih.imp fun _ on => on.command may instant
  | elapse _ settled later timely ih => exact ih.imp fun _ on => on.elapse settled later timely
  | choose _ ready may ih => exact ih.imp fun _ on => on.choose ready may
  | move _ goesOn ih =>
    obtain ⟨_, on⟩ := ih
    exact ⟨_, on.move goesOn⟩
  | pause _ waits ih =>
    obtain ⟨_, on⟩ := ih
    exact ⟨_, on.pause waits⟩

namespace Ages

variable {expiry now : Nat} {released released' : Bool}

theorem mono (ages : Ages expiry released now x o) (closes : released = true → released' = true) :
    Ages expiry released' now x o := by
  cases ages with
  | fresh free => exact .fresh free
  | idle past ahead => exact .idle past ahead
  | busy works => exact .busy works
  | gone elapsed => exact .gone fun u eq => (elapsed u eq).imp_right closes

theorem fare {p : Pool} (ages : Ages p.expiry p.released now x o) (fares : p.Fares now x y) :
    Ages p.expiry p.released now y (if !x.isFree && y.isFree then some now else o) := by
  cases fares with
  | stay =>
    rw [Bool.not_and_self]
    exact ages
  | hire => exact .fresh (.inl rfl)
  | listen =>
    cases ages with
    | fresh => exact .idle (Nat.le_refl _) (Nat.le_add_right ..)
    | busy works => cases works
  | take => exact .busy rfl
  | depart reason =>
    cases ages with
    | fresh free => simp at free
    | idle => exact .gone fun v eq => Option.some.inj eq ▸ reason
    | busy works => cases works
  | work _ after => exact .busy after
  | finish before after =>
    have free : (!x.isFree && y.isFree) = true := by
      rw [Bool.and_eq_true]
      constructor
      · cases x <;> first | rfl | cases before
      · rcases after with rfl | ⟨i, rfl⟩ <;> rfl
    rw [if_pos free]
    exact .fresh after
  | complete =>
    cases ages with
    | fresh => exact .fresh (.inl rfl)
    | busy works => cases works

theorem elapse {t : Nat} (ages : Ages expiry released now x o) (later : now ≤ t)
    (rests : ¬ (x = .resting ∨ ∃ i, x = .finished i)) (timely : ∀ d, x = .idle d → t ≤ d) :
    Ages expiry released t x o := by
  cases ages with
  | fresh free => exact absurd free rests
  | idle past => exact .idle (Nat.le_trans past later) (timely _ rfl)
  | busy works => exact .busy works
  | gone elapsed => exact .gone fun u eq => (elapsed u eq).imp_left fun le => Nat.le_trans le later

end Ages

theorem Steady.not_resting (steady : Steady turn s) (settled : s.ready = []) (w : Nat) :
    ¬ (s.pool.worker w = .resting ∨ ∃ i, s.pool.worker w = .finished i) := by
  have rests := steady.not_summons settled (.worker w)
  rintro (eq | ⟨i, eq⟩) <;> simp [Pool.Summons, eq] at rests

theorem Steady.timer_of_idle (steady : Steady turn s) (settled : s.ready = []) {d : Nat}
    (waits : s.pool.worker w = .idle d) : (d, .worker w) ∈ s.timers := by
  by_contra none
  have mem := steady.awake (.worker w) (.inr ⟨d, waits, none⟩)
  rw [settled] at mem
  cases mem

theorem Clocked.ages (on : Clocked rule start cs since turn s) (fresh : start.Fresh) (w : Nat) :
    Ages s.pool.expiry s.pool.released s.now (s.pool.worker w) (since w) := by
  have step {cs : List Command} {since : Nat → Option Nat} {a : Agent} {s : Machine}
      (on : Clocked rule start cs since (some a) s)
      (ih : Ages s.pool.expiry s.pool.released s.now (s.pool.worker w) (since w)) :
      Ages s.step.pool.expiry s.step.pool.released s.step.now (s.step.pool.worker w)
        (s.restsSince since w) := by
    obtain ⟨_, _, act⟩ := on.run.act fresh
    rw [act.now, act.pool.capacity.2]
    exact (ih.fare (act.pool.fares w)).mono fun released =>
      (act.pool.closes (on.run.steady fresh).timely released).released
  induction on with
  | start =>
    obtain ⟨_, _, pool⟩ := fresh.pool
    have exited : start.pool.worker w = .exited := by simp [pool, Pool.worker]
    rw [exited]
    exact .gone fun _ eq => by cases eq
  | @command cs since s c on _ instant ih =>
    have steady := on.run.steady fresh
    obtain ⟨_, move⟩ := steady.move_apply instant
    have same : (s.apply c).pool.released = s.pool.released := by
      rcases move.released_cases with same | ⟨_, _, eq, _⟩
      · exact same
      · cases eq
    rw [(journal_apply s instant).2.1, move.capacity.2, same]
    rcases steady.worker_apply instant w with kept | ⟨_, _, freed⟩
    · rwa [kept]
    · exact freed ▸ .busy rfl
  | elapse on settled later timely ih =>
    have steady := on.run.steady fresh
    exact ih.elapse later (steady.not_resting settled w) fun d waits =>
      timely _ (steady.timer_of_idle settled waits)
  | choose _ _ _ ih => exact ih
  | move on _ ih | pause on _ ih => exact step on ih

def recent (expiry : Nat) (since : Nat → Option Nat) (s : Machine) : Nat :=
  (List.range s.pool.workers.length).countP fun w =>
    !(s.pool.worker w).isBusy && (since w).any fun u => u ≤ s.now && s.now < u + expiry

structure Expires (expiry : Nat) (since : Nat → Option Nat) (turn : Option Agent) (s : Machine) :
    Prop where
  settled : s.ready = [] → ∀ w, s.pool.worker w ≠ .exited →
    (s.pool.worker w).isEvaluating = true ∨
      ∃ u, since w = some u ∧ u ≤ s.now ∧ s.now < u + expiry ∧
        s.pool.worker w = .idle (u + expiry)
  leaves : s.pool.released = false → ∀ a w, turn = some a → s.pool.worker w ≠ .exited →
    s.step.pool.worker w = .exited → ∃ u, since w = some u ∧ s.now = u + expiry ∧
      s.pool.worker w = .idle (u + expiry)
  gone : s.pool.released = false → ∀ w u, s.pool.worker w = .exited → since w = some u →
    u + expiry ≤ s.now
  running : s.pool.released = false → s.ready = [] →
    s.pool.live = s.pool.executing + s.recent expiry since

theorem Clocked.settled (on : Clocked rule start cs since turn s) (fresh : start.Fresh)
    (settled : s.ready = []) (here : s.pool.worker w ≠ .exited) :
    (s.pool.worker w).isEvaluating = true ∨
      ∃ u, since w = some u ∧ u ≤ s.now ∧ s.now < u + s.pool.expiry ∧
        s.pool.worker w = .idle (u + s.pool.expiry) := by
  have steady := on.run.steady fresh
  have ages := on.ages fresh w
  generalize eq : s.pool.worker w = x at ages here
  generalize times : since w = o at ages
  cases ages with
  | fresh free => exact absurd (eq ▸ free) (steady.not_resting settled w)
  | idle past =>
    exact .inr ⟨_, rfl, past, steady.early_of_settled (on.run.punctual fresh.punctual) settled eq,
      rfl⟩
  | busy works =>
    have item : (s.pool.worker w).hasItem = true := by
      rw [eq]
      cases x <;> first | rfl | cases works
    exact .inl (eq ▸ steady.isEvaluating_of_settled settled w item)
  | gone => exact absurd rfl here

theorem Clocked.leaves {a : Agent} (on : Clocked rule start cs since (some a) s)
    (fresh : start.Fresh) (opened : s.pool.released = false) (here : s.pool.worker w ≠ .exited)
    (left : s.step.pool.worker w = .exited) :
    ∃ u, since w = some u ∧ s.now = u + s.pool.expiry ∧
      s.pool.worker w = .idle (u + s.pool.expiry) := by
  obtain ⟨_, _, act⟩ := on.run.act fresh
  have fares := act.pool.fares w
  have ages := on.ages fresh w
  rw [left] at fares
  generalize s.pool.worker w = x at ages fares here
  generalize since w = o at ages
  cases fares with
  | stay => exact absurd rfl here
  | work _ after => cases after
  | finish _ after => simp at after
  | depart reason =>
    have due := reason.resolve_right (by simp [opened])
    cases ages with
    | fresh free => simp at free
    | idle _ ahead => exact ⟨_, rfl, Nat.le_antisymm ahead due, rfl⟩
    | busy works => cases works

theorem Clocked.gone (on : Clocked rule start cs since turn s) (fresh : start.Fresh)
    (opened : s.pool.released = false) (left : s.pool.worker w = .exited)
    (rests : since w = some u) : u + s.pool.expiry ≤ s.now := by
  have ages := on.ages fresh w
  rw [left, rests] at ages
  generalize eq : Pool.Worker.exited = x at ages
  cases ages with
  | fresh free => simp [← eq] at free
  | idle => cases eq
  | busy works =>
    rw [← eq] at works
    cases works
  | gone elapsed => exact (elapsed u rfl).resolve_right (by simp [opened])

theorem Clocked.isSpare_eq (on : Clocked rule start cs since turn s) (fresh : start.Fresh)
    (opened : s.pool.released = false) (settled : s.ready = []) (w : Nat) :
    (s.pool.worker w).isSpare = (!(s.pool.worker w).isBusy &&
      (since w).any fun u => u ≤ s.now && s.now < u + s.pool.expiry) := by
  have rests := (on.run.steady fresh).not_resting settled w
  have early := on.settled fresh settled (w := w)
  have ages := on.ages fresh w
  generalize s.pool.worker w = x at ages rests early
  generalize since w = o at ages early
  cases ages with
  | fresh free => exact absurd free rests
  | idle past =>
    obtain ⟨u, eq, _, ahead, _⟩ :=
      (early (by simp)).resolve_left (by simp [Pool.Worker.isEvaluating])
    cases eq
    simp [Pool.Worker.isSpare, Pool.Worker.isBusy, past, ahead]
  | busy works => cases x <;> first | rfl | cases works
  | gone elapsed =>
    cases o with
    | none => rfl
    | some u =>
      have := (elapsed u rfl).resolve_right (by simp [opened])
      simp [Pool.Worker.isSpare]
      omega

theorem Clocked.live_eq (on : Clocked rule start cs since turn s) (fresh : start.Fresh)
    (opened : s.pool.released = false) (settled : s.ready = []) :
    s.pool.live = s.pool.executing + s.recent s.pool.expiry since := by
  have steady := on.run.steady fresh
  have spare : s.pool.workers.countP (·.isSpare) = s.recent s.pool.expiry since := by
    rw [Pool.countP_workers, recent]
    congr 1
    funext w
    exact on.isSpare_eq fresh opened settled w
  rw [steady.sound.live_eq, Pool.countP_isLive, spare, steady.executing_of_settled settled,
    Nat.add_comm]

/-- However many workers a pool has, each expires by its own time. -/
theorem Run.expires {capacity expiry : Nat} {scenario : Scenario}
    (made : ofPool capacity expiry scenario = .made start)
    (run : Run poolRule start cs turn s) :
    (∃ since, Clocked poolRule start cs since turn s) ∧
      ∀ since, Clocked poolRule start cs since turn s → Expires expiry since turn s := by
  have fresh := fresh_ofPool made
  have expiry_eq : s.pool.expiry = expiry := by
    rw [(run.capacity fresh).2, pool_ofPool made]
  refine ⟨run.clocked, fun since on => ?_⟩
  constructor
  case settled => exact expiry_eq ▸ fun settled w => on.settled fresh settled
  case leaves =>
    rintro opened a w rfl
    exact expiry_eq ▸ on.leaves fresh opened
  case gone => exact fun opened w u => expiry_eq ▸ on.gone fresh opened
  case running => exact expiry_eq ▸ on.live_eq fresh

def pairTale : List Command :=
  [.submit [quickItem, quickItem], .advance 40, .submit [heldItem], .advance 20, .unhold "a",
    .advance 99]

theorem expires_heldUpPair :
    (heldUpPair.play pairTale).1.pool.workers = [.idle 160, .exited] ∧
      (heldUpPair.play pairTale).1.now = 159 ∧
      (∃ since, Clocked poolRule heldUpPair (pairTale.filter (·.isInstant)) since none
        (heldUpPair.play pairTale).1) ∧
      ∀ since, Clocked poolRule heldUpPair (pairTale.filter (·.isInstant)) since none
        (heldUpPair.play pairTale).1 → Expires 100 since none (heldUpPair.play pairTale).1 := by
  have made : ofPool 2 100 heldUp.scenario = .made heldUpPair := rfl
  have run := run_play pairTale (fresh_ofPool made) (by simp [pairTale, Command.isOfPool])
  exact ⟨by decide +kernel, by decide +kernel, run.expires made⟩

end Machine

end Autoscaling
