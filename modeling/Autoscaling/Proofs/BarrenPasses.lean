import Autoscaling.Proofs.Machine.Renumbered
import Autoscaling.Proofs.Machine.Reports
import Autoscaling.Proofs.SingleFlight
import Mathlib.Order.Monotone.Basic

namespace Autoscaling

def Outcome.isBarren : Outcome → Bool
  | .fetchFailed | .noPolicies => true
  | .skipped | .completed _ => false

def Pass.Turn.barren? : Pass.Turn → Option Outcome
  | .ended o => if o.isBarren then some o else none
  | _ => none

namespace Machine

def barren? (s : Machine) (c : Nat) : Option Outcome :=
  (s.call c).stage?.bind fun stage => (Pass.step s c stage).2.barren?

def giveBack (s : Machine) (c : Nat) (o : Outcome) : Machine :=
  match s.call c with
  | .evaluating _ => s.answer c (.evaluate o)
  | .ticking next _ => s.setCall c (.selecting next)
  | _ => s

@[simp]
theorem lifecycle_giveBack (s : Machine) (c : Nat) (o : Outcome) :
    (s.giveBack c o).lifecycle = s.lifecycle := by
  unfold giveBack
  split <;> rfl

@[simp]
theorem reads_giveBack (s : Machine) (c : Nat) (o : Outcome) :
    (s.giveBack c o).reads = s.reads := by
  unfold giveBack
  split <;> rfl

def nextBarren? (s : Machine) : Option (Nat × Outcome) :=
  match s.ready.head? with
  | some (.caller c) => (s.barren? c).map fun o => (c, o)
  | _ => none

def stepSparing (s : Machine) : Machine :=
  match s.nextBarren? with
  | some (c, o) => s.giveBack c o
  | none => s.step

def spared (s : Machine) : Nat := if s.nextBarren?.isSome then 1 else 0

/-- From `m` and `u`, where it is the turn of `before`, two machines go by the same schedule. The
second spares itself the passes that have no policies to go by, which were `n`. -/
inductive Abreast (before : Option Agent) (m u : Machine) :
    Nat → Option Agent → Machine → Machine → Prop
  | here : Abreast before m u 0 before m u
  | command (on : Abreast before m u n none s t) (may : x.submits = false)
      (instant : x.isInstant = true) : Abreast before m u n none (s.apply x) (t.apply x)
  | elapse (on : Abreast before m u n none s t) (settled : s.ready = []) (settled' : t.ready = [])
      (later : s.now ≤ d) (later' : t.now ≤ d) (timely : ∀ timer ∈ s.timers, d ≤ timer.1)
      (timely' : ∀ timer ∈ t.timers, d ≤ timer.1) :
      Abreast before m u n none (s.elapse d) (t.elapse d)
  | choose (on : Abreast before m u n none s t) (ready : a ∈ s.ready) (ready' : a ∈ t.ready) :
      Abreast before m u n (some a) (s.prefer a) (t.prefer a)
  | move (on : Abreast before m u n (some a) s t) (goesOn : s.step.ready.head? = some a)
      (goesOn' : t.stepSparing.ready.head? = some a) :
      Abreast before m u (n + s.spared) (some a) s.step t.stepSparing
  | pause (on : Abreast before m u n (some a) s t) (waits : s.step.ready.head? ≠ some a)
      (waits' : t.stepSparing.ready.head? ≠ some a) :
      Abreast before m u (n + s.spared) none s.step t.stepSparing

variable {g : Nat → Nat} {n n' c : Nat} {k k' : List (Nat × Event)} {m s t u start : Machine}
  {o : Outcome} {before turn : Option Agent} {a : Agent} {cs : List Command}

theorem barren?_of_leads {stage : Pass.Stage} {turn : Pass.Turn} {told : List Event}
    (leads : Pass.Leads s stage turn told) (begun : stage ≠ .opening) : turn.barren? = none := by
  cases leads <;> first | rfl | exact absurd rfl begun

theorem barren?_openStep : (Pass.openStep s).2.barren? = some o ↔
    s.lifecycle.inPass = false ∧ (s.storeFails = true ∧ o = .fetchFailed ∨
      s.storeFails = false ∧ s.store.isEmpty = true ∧ o = .noPolicies) := by
  cases inPass : s.lifecycle.inPass with
  | true =>
    have shut : s.lifecycle.beginPass? = none := by simp [Lifecycle.beginPass?, inPass]
    simp [Pass.openStep, shut, Pass.Turn.barren?, Outcome.isBarren]
  | false =>
    have begins : s.lifecycle.beginPass? = some { s.lifecycle with inPass := true } := by
      simp [Lifecycle.beginPass?, inPass]
    rw [openStep_of_free begins]
    cases s.storeFails <;> cases s.store.isEmpty <;>
      simp [Pass.Turn.barren?, Outcome.isBarren, eq_comm]

theorem barren?_eq_some : s.barren? c = some o ↔
    (s.call c).stage? = some .opening ∧ s.lifecycle.inPass = false ∧
      (s.storeFails = true ∧ o = .fetchFailed ∨
        s.storeFails = false ∧ s.store.isEmpty = true ∧ o = .noPolicies) := by
  unfold barren?
  cases (s.call c).stage? with
  | none => simp
  | some stage =>
    by_cases opening : stage = .opening
    · subst opening
      simpa [Pass.step] using barren?_openStep
    · obtain ⟨_, _, _, leads⟩ := (Pass.treads_step s c stage).leads
      simp [barren?_of_leads leads opening, opening]

theorem barren?_of_endsPass (ends : s.EndsPass c o) (barren : o.isBarren = true) :
    s.barren? c = some o := by
  obtain ⟨stage, s', call, step⟩ := ends
  simp [barren?, Pass.Turn.barren?, call, step, barren]

theorem openStep_of_barren (barren : s.barren? c = some o) :
    ∃ x : Recorder, (∀ name, name ≠ Store.reading → x.get? name = s.timings.get? name) ∧
      (o = .fetchFailed → x = s.timings) ∧
      Pass.openStep s =
        ({ s with reads := s.reads + 1, timings := x }.log .read, .ended o) := by
  obtain ⟨_, free, found⟩ := barren?_eq_some.1 barren
  have begins : s.lifecycle.beginPass? = some { s.lifecycle with inPass := true } := by
    simp [Lifecycle.beginPass?, free]
  -- The gate was open before, so closing and opening it comes to nothing.
  have reopens : { s.lifecycle with inPass := false } = s.lifecycle := by rw [← free]
  rw [openStep_of_free begins]
  rcases found with ⟨fails, rfl⟩ | ⟨succeeds, empty, rfl⟩
  · refine ⟨s.timings, fun _ _ => rfl, fun _ => rfl, ?_⟩
    rw [if_pos fails]
    simp only [readStore, endPass, Lifecycle.endPass, log, reopens]
  · refine ⟨s.timings.record Store.Query.all.key ((Duration.ofNanos? (0 * 10 ^ 6)).getD .zero),
      fun name other => ?_, by simp, ?_⟩
    · rw [Recorder.record, Table.get?_insert]
      exact if_neg other
    · rw [if_neg (by simp [succeeds]), if_pos empty]
      simp only [readStore, endPass, Lifecycle.endPass, log, time, reopens]

theorem step_of_barren (head : s.ready.head? = some (.caller c)) (barren : s.barren? c = some o) :
    ∃ x : Recorder, (∀ name, name ≠ Store.reading → x.get? name = s.timings.get? name) ∧
      (o = .fetchFailed → x = s.timings) ∧
      s.step = ({ s with reads := s.reads + 1, timings := x }.log .read).giveBack c o := by
  obtain ⟨x, others, failed, opens⟩ := openStep_of_barren barren
  have opening := (barren?_eq_some.1 barren).1
  refine ⟨x, others, failed, ?_⟩
  have same : ({ s with reads := s.reads + 1, timings := x }.log .read).call c = s.call c := rfl
  rw [step_of_caller head, giveBack, same]
  cases call : s.call c with
  | evaluating stage | ticking _ stage =>
    rw [call] at opening
    cases opening
    simp only [stepCaller, call, stepPass, Pass.step, opens]
  | _ =>
    rw [call] at opening
    cases opening

theorem nextBarren?_eq_some :
    s.nextBarren? = some (c, o) ↔ s.ready.head? = some (.caller c) ∧ s.barren? c = some o := by
  unfold nextBarren?
  split
  · next d head =>
    rw [head, Option.map_eq_some_iff]
    constructor
    · rintro ⟨_, barren, same⟩
      cases same
      exact ⟨rfl, barren⟩
    · rintro ⟨same, barren⟩
      cases same
      exact ⟨o, barren, rfl⟩
  · next other => exact ⟨nofun, fun ⟨head, _⟩ => absurd head (other c)⟩

namespace Akin

theorem stage?_renumber (g : Nat → Nat) (x : Call) :
    (x.renumber g).stage? = x.stage?.map (·.renumber g) := by
  cases x <;> rfl

theorem barren? (akin : Akin g n k k' t s) (c : Nat) : s.barren? c = t.barren? c := by
  have opening : (s.call c).stage? = some .opening ↔ (t.call c).stage? = some .opening := by
    rw [akin.call, stage?_renumber]
    cases (t.call c).stage? with
    | none => simp
    | some stage => cases stage <;> simp [Pass.Stage.renumber]
  refine Option.ext fun o => ?_
  rw [barren?_eq_some, barren?_eq_some, opening, akin.lifecycle, akin.storeFails, akin.store]

theorem nextBarren? (akin : Akin g n k k' t s) : s.nextBarren? = t.nextBarren? := by
  refine Option.ext fun ⟨c, o⟩ => ?_
  rw [nextBarren?_eq_some, nextBarren?_eq_some, akin.ready, akin.barren?]

theorem giveBack (akin : Akin g n k k' t s) (c : Nat) (o : Outcome) :
    Akin g n k k' (t.giveBack c o) (s.giveBack c o) := by
  unfold Machine.giveBack
  rw [akin.call]
  cases t.call c with
  | evaluating stage => exact akin.answer c (.evaluate o)
  | ticking next stage => exact akin.setCall c (.selecting next)
  | _ => exact akin

theorem read (akin : Akin g n k k' t s) {x : Recorder}
    (others : ∀ name, name ≠ Store.reading → x.get? name = s.timings.get? name) :
    Akin g (n + 1) k k' t ({ s with reads := s.reads + 1, timings := x }.log .read) := by
  constructor
  case state =>
    have told : ({ s with reads := s.reads + 1, timings := x }.log .read).journal =
        (t.now, .read) :: s.journal := by
      rw [← akin.now]
      rfl
    rw [told]
    exact congrArg (fun m : Machine => { m with reads := m.reads + 1, timings := x }.log .read)
      akin.state
  case timings => exact fun name other => (others name other).trans (akin.timings name other)
  case events => exact .read akin.events

theorem spare (akin : Akin g n k k' t s) (barren : t.nextBarren? = some (c, o)) :
    Akin g (n + 1) k k' t.stepSparing s.step := by
  have barren' := akin.nextBarren?.trans barren
  obtain ⟨head, found⟩ := nextBarren?_eq_some.1 barren'
  obtain ⟨x, others, _, step⟩ := step_of_barren head found
  rw [step, stepSparing, barren]
  exact (akin.read others).giveBack c o

end Akin

structure Tracks (g : Nat → Nat) (n : Nat) (k k' : List (Nat × Event)) (t s : Machine) :
    Prop where
  ascends : StrictMono g
  ahead : ∀ j, t.reads < j → g j = j + n
  akin : ∀ h : Nat → Nat, Function.Injective h → (∀ j ≤ t.reads, h j = g j) →
    Akin h n k k' t s

namespace Tracks

theorem same (tracks : Tracks g n k k' t s) : Akin g n k k' t s :=
  tracks.akin g tracks.ascends.injective fun _ _ => rfl

theorem congr {s' t' : Machine} (tracks : Tracks g n k k' t s) (reads : t'.reads = t.reads)
    (akin : ∀ h, Akin h n k k' t s → Akin h n k k' t' s') : Tracks g n k k' t' s' := by
  refine ⟨tracks.ascends, ?_, fun h inj agree => akin h (tracks.akin h inj ?_)⟩
  · rw [reads]
    exact tracks.ahead
  · rwa [reads] at agree

theorem spare (tracks : Tracks g n k k' t s) (barren : t.nextBarren? = some (c, o)) :
    Tracks (fun j => if j ≤ t.reads then g j else g j + 1) (n + 1) k k' t.stepSparing s.step := by
  have reads : t.stepSparing.reads = t.reads := by
    rw [stepSparing, barren, reads_giveBack]
  constructor
  case ascends =>
    intro i j lt
    have := tracks.ascends lt
    dsimp only
    split <;> split <;> omega
  case ahead =>
    intro j later
    rw [reads] at later
    simp only [if_neg (Nat.not_le_of_lt later), tracks.ahead j later]
    rfl
  case akin =>
    intro h inj agree
    rw [reads] at agree
    refine (tracks.akin h inj fun j le => ?_).spare barren
    rw [agree j le, if_pos le]

theorem move (tracks : Tracks g n k k' t s) (other : t.nextBarren? = none) :
    Tracks g n k k' t.stepSparing s.step := by
  have reads : t.step.reads = t.reads ∨ t.step.reads = t.reads + 1 := by
    cases head : t.ready.head? with
    | none => exact .inl (by rw [step, head])
    | some a => exact reads_step head
  have moves : t.stepSparing = t.step := by rw [stepSparing, other]
  rw [moves]
  constructor
  case ascends => exact tracks.ascends
  case ahead => exact fun j later => tracks.ahead j (by omega)
  case akin =>
    intro h inj agree
    -- A pass that opens here has the first number that was yet to come.
    refine (tracks.akin h inj fun j le => agree j (by omega)).step inj fun new => ?_
    rw [agree _ (by omega), tracks.ahead _ (Nat.lt_succ_self _)]

theorem step (tracks : Tracks g n k k' t s) :
    ∃ g, Tracks g (n + s.spared) k k' t.stepSparing s.step := by
  rw [spared, tracks.same.nextBarren?]
  cases barren : t.nextBarren? with
  | none => exact ⟨g, tracks.move barren⟩
  | some found => exact ⟨_, tracks.spare barren⟩

theorem abreast (tracks : Tracks g n k k' u m) (on : Abreast before m u n' turn s t) :
    ∃ g, Tracks g (n + n') k k' t s := by
  induction on with
  | here => exact ⟨g, tracks⟩
  | command _ may instant ih =>
    obtain ⟨g, tracks⟩ := ih
    refine ⟨g, tracks.congr (spares_apply _ instant).reads fun _ akin => akin.apply ?_ instant⟩
    rintro items rfl
    cases may
  | elapse _ _ _ _ _ _ _ ih =>
    obtain ⟨g, tracks⟩ := ih
    exact ⟨g, tracks.congr rfl fun _ akin => akin.elapse _⟩
  | choose _ _ _ ih =>
    obtain ⟨g, tracks⟩ := ih
    exact ⟨g, tracks.congr rfl fun _ akin => akin.prefer _⟩
  | move _ _ _ ih | pause _ _ _ ih =>
    obtain ⟨_, tracks⟩ := ih
    exact Nat.add_assoc .. ▸ tracks.step

theorem anew (tracks : Tracks g n k k' t s) : Tracks g n t.journal s.journal t s :=
  ⟨tracks.ascends, tracks.ahead, fun h inj agree =>
    have akin := tracks.akin h inj agree
    ⟨akin.state, akin.timings, .here⟩⟩

end Tracks

theorem tracks_fresh (fresh : start.Fresh) : Tracks id 0 [] [] start start := by
  refine ⟨strictMono_id, fun _ _ => rfl, fun h _ _ => ⟨?_, fun _ _ => rfl, ?_⟩⟩
  · have pool : start.pool.renumber h = start.pool := by
      obtain ⟨_, _, eq⟩ := fresh.pool
      rw [eq]
      rfl
    have calls : start.calls.map (·.renumber h) = start.calls := by
      rw [fresh.calls]
      rfl
    simp only [retold, pool, calls, Nat.add_zero]
  · rw [fresh.journal]
    exact .here

theorem Onward.abreast (on : Onward passRule before m turn s) (tracks : Tracks g n k k' u m) :
    ∃ n t, Abreast before m u n turn s t := by
  induction on with
  | here => exact ⟨0, u, .here⟩
  | command _ may instant ih =>
    obtain ⟨n, t, on⟩ := ih
    exact ⟨n, _, on.command may instant⟩
  | elapse _ settled later timely ih =>
    obtain ⟨n, t, on⟩ := ih
    obtain ⟨_, tracks⟩ := tracks.abreast on
    have akin := tracks.same
    exact ⟨n, _, on.elapse settled (akin.ready ▸ settled) later (akin.now ▸ later) timely
      (akin.timers ▸ timely)⟩
  | choose _ ready _ ih =>
    obtain ⟨n, t, on⟩ := ih
    obtain ⟨_, tracks⟩ := tracks.abreast on
    exact ⟨n, _, on.choose ready (tracks.same.ready ▸ ready)⟩
  | move _ goesOn ih =>
    obtain ⟨n, t, on⟩ := ih
    obtain ⟨_, tracks⟩ := tracks.abreast on
    obtain ⟨_, tracks⟩ := tracks.step
    exact ⟨_, _, on.move goesOn (tracks.same.ready ▸ goesOn)⟩
  | pause _ waits ih =>
    obtain ⟨n, t, on⟩ := ih
    obtain ⟨_, tracks⟩ := tracks.abreast on
    obtain ⟨_, tracks⟩ := tracks.step
    exact ⟨_, _, on.pause waits (tracks.same.ready ▸ waits)⟩

end Machine

namespace Observation

def renumber (g : Nat → Nat) (o : Observation) : Observation :=
  { o with started := o.started.map fun (moment, i) => (moment, i.renumber g) }

def unread (o : Observation) : Observation :=
  { o with questions := o.questions.filter (·.2 ≠ .read) }

end Observation

namespace Machine

open Observation

variable {g : Nat → Nat} {n n' c : Nat} {k k' l l' : List (Nat × Event)} {m s t u start : Machine}

theorem Retells.exists_new (retells : Retells g k k' l l') : ∃ new new', l = new ++ k ∧
    l' = new' ++ k' ∧
    new'.filterMap started? =
      (new.filterMap started?).map (fun (moment, i) => (moment, i.renumber g)) ∧
    new'.filterMap finished? = new.filterMap finished? ∧
    new'.filterMap answer? = new.filterMap answer? ∧
    (new'.filter isQuestion).filter (·.2 ≠ .read) =
      (new.filter isQuestion).filter (·.2 ≠ .read) := by
  induction retells with
  | here => exact ⟨[], [], rfl, rfl, rfl, rfl, rfl, rfl⟩
  | @told l l' moment e _ ih =>
    obtain ⟨new, new', rfl, rfl, started, finished, answers, questions⟩ := ih
    refine ⟨(moment, e) :: new, (moment, e.renumber g) :: new', rfl, rfl, ?_⟩
    cases e <;> simp only [Event.renumber, List.filterMap_cons, List.filter_cons, started?,
      finished?, answer?, isQuestion, started, finished, answers, questions, List.map_cons,
      WorkItem.renumber, if_true, if_false, and_self, Bool.false_eq_true]
  | @read l l' moment _ ih =>
    obtain ⟨new, new', rfl, rfl, started, finished, answers, questions⟩ := ih
    refine ⟨new, (moment, .read) :: new', rfl, rfl, ?_⟩
    simp only [List.filterMap_cons, List.filter_cons, started?, finished?, answer?, isQuestion,
      started, finished, answers, questions, if_true, ne_eq, not_true, decide_false, if_false,
      Bool.false_eq_true, and_self]

theorem Akin.observation (akin : Akin g n u.journal m.journal t s) :
    (Observation.of s m.journal.length).unread =
      ((Observation.of t u.journal.length).renumber g).unread := by
  obtain ⟨new, new', journal, journal', started, finished, answers, questions⟩ :=
    akin.events.exists_new
  have seen : t.journal.take (t.journal.length - u.journal.length) = new := by
    rw [journal, List.length_append, Nat.add_sub_cancel, List.take_left]
  have seen' : s.journal.take (s.journal.length - m.journal.length) = new' := by
    rw [journal', List.length_append, Nat.add_sub_cancel, List.take_left]
  have live : s.pool.live = t.pool.live := by
    rw [akin.pool]
    rfl
  have inFlight : s.pool.inFlight = t.pool.inFlight := by
    rw [akin.pool]
    rfl
  simp only [Observation.of, unread, Observation.renumber, seen, seen', akin.now, live, inFlight,
    akin.lifecycle, List.filterMap_reverse, List.filter_reverse, List.map_reverse, started,
    finished, answers, questions]

structure NoTrace (start : Machine) : Prop where
  keepsUp : ∀ k before m u, Abreast none start start k before m u →
    ∀ turn s, Onward passRule before m turn s → ∃ n t, Abreast before m u n turn s t
  unseen : ∀ k before m u n turn s t, Abreast none start start k before m u →
    Abreast before m u n turn s t → ∃ g, StrictMono g ∧
      Akin g (k + n) u.journal m.journal t s ∧
      (Observation.of s m.journal.length).unread =
        ((Observation.of t u.journal.length).renumber g).unread ∧
      s.timings.get? (Recorder.operation Pass.timingKey) =
        t.timings.get? (Recorder.operation Pass.timingKey)
  itself : ∀ s c o, Onward passRule none start (some (.caller c)) s → s.EndsPass c o →
    o.isBarren = true → s.step.lifecycle.inPass = false ∧
      ∃ x : Recorder, (∀ name, name ≠ Store.reading → x.get? name = s.timings.get? name) ∧
        (o = .fetchFailed → x = s.timings) ∧
        s.step = ({ s with reads := s.reads + 1, timings := x }.log .read).giveBack c o

/-- Nothing but the number of reads tells whether passes took place that found no policies. -/
theorem noTrace_of_barren {c : Config} {timed : Bool} {scenario : Scenario}
    (made : ofConfig c timed scenario = .made start) : NoTrace start := by
  have fresh := fresh_ofConfig made
  constructor
  case keepsUp =>
    intro k before m u first turn s on
    obtain ⟨_, tracks⟩ := (tracks_fresh fresh).abreast first
    exact on.abreast tracks
  case unseen =>
    intro k before m u n turn s t first later
    obtain ⟨_, tracks⟩ := (tracks_fresh fresh).abreast first
    obtain ⟨g, tracks⟩ := tracks.anew.abreast later
    rw [Nat.zero_add] at tracks
    have akin := tracks.same
    exact ⟨g, tracks.ascends, akin, akin.observation, akin.timings _ (by decide +kernel)⟩
  case itself =>
    intro s c o on ends barren
    obtain ⟨_, run⟩ := Run.start.onward on
    have found := barren?_of_endsPass ends barren
    obtain ⟨x, others, failed, step⟩ := step_of_barren run.head_of_turn found
    refine ⟨?_, x, others, failed, step⟩
    rw [step, lifecycle_giveBack]
    exact (barren?_eq_some.1 found).2.1

def emptyHanded : Machine := (heldLoop.apply .evaluate).prefer (.caller 0)

theorem noTrace_heldLoop :
    NoTrace heldLoop ∧ Onward passRule none heldLoop (some (.caller 0)) emptyHanded ∧
      emptyHanded.EndsPass 0 .noPolicies ∧
      Abreast none heldLoop heldLoop 1 none emptyHanded.step emptyHanded.stepSparing ∧
      emptyHanded.step.reads = 1 ∧ emptyHanded.stepSparing.reads = 0 := by
  have comes : Onward passRule none heldLoop none (heldLoop.apply .evaluate) :=
    .command .here rfl rfl
  have abreast : Abreast none heldLoop heldLoop 0 none (heldLoop.apply .evaluate)
      (heldLoop.apply .evaluate) := .command .here rfl rfl
  have ready : .caller 0 ∈ (heldLoop.apply .evaluate).ready := by decide +kernel
  refine ⟨noTrace_of_barren made_heldLoop, comes.choose ready trivial, ⟨.opening, _, rfl, rfl⟩, ?_,
    by decide +kernel, by decide +kernel⟩
  exact (abreast.choose ready ready).pause (by decide +kernel) (by decide +kernel)

end Machine

end Autoscaling
