import Autoscaling.Proofs.Machine.Handover
import Autoscaling.Proofs.Machine.Replies
import Autoscaling.Proofs.Machine.Reports
import Autoscaling.Proofs.Pool.Closing

namespace Autoscaling

theorem Incurious.filter_eq_nil {told : List Event} (quiet : Incurious told) :
    told.filter (·.inquires) = [] :=
  List.filter_eq_nil_iff.2 fun e mem => by simp [quiet e mem]

theorem Pass.Stage.hasBegun_iff {stage : Stage} : stage.hasBegun = true ↔ stage ≠ .opening := by
  cases stage <;> simp [hasBegun]

namespace Pool

theorem Move.released_of_refused {p p' : Pool} {i : WorkItem}
    (h : Move now shutdown p a woken events p') (mem : .refused i ∈ events) :
    p.released = true ∧ ∃ c, a = .caller c := by
  cases h with
  | refuse released | giveUp _ _ released | giveBack _ _ released => exact ⟨released, _, rfl⟩
  | @progress _ _ x | @finish _ _ x => cases x <;> simp [Progress.beginning] at mem
  | _ => simp at mem

end Pool

namespace Machine

def inquiries (s : Machine) : List Event := s.history.filter (·.inquires)

variable {rule : Rule} {start m s s' : Machine} {before turn turn' : Option Agent} {a : Agent}
  {cs : List Command} {c d : Nat} {woken : List Agent} {events told : List Event}
  {stage next : Pass.Stage}

theorem inquiries_of_history (history : s'.history = s.history ++ told) :
    s'.inquiries = s.inquiries ++ told.filter (·.inquires) := by
  rw [inquiries, history, List.filter_append, inquiries]

theorem inquiries_of_incurious (history : s'.history = s.history ++ told)
    (quiet : Incurious told) : s'.inquiries = s.inquiries := by
  rw [inquiries_of_history history, quiet.filter_eq_nil, List.append_nil]

theorem inPass_of_hasBegun (call : (s.call c).stage? = some stage)
    (begun : stage.hasBegun = true) : (s.call c).inPass = true := by
  unfold Call.inPass
  rw [call]
  cases stage with
  | opening => cases begun
  | _ => rfl

theorem Course.incurious {x y : Call} (course : Course s x y told) (out : x.inPass = false)
    (shut : s.lifecycle.inPass = true) : Incurious told := by
  have opening {stage : Pass.Stage} {turn : Pass.Turn} {told : List Event}
      (begun : stage.hasBegun = false) (leads : Pass.Leads s stage turn told) : told = [] := by
    cases leads with
    | skip => rfl
    | fail free | lack free | read free =>
      rw [shut] at free
      cases free
    | _ => cases begun
  cases course with
  | go hosts leads =>
    rw [opening (hosts.inPass ▸ out) leads]
    exact incurious_nil
  | finish hosts leads closing =>
    rw [opening (hosts.inPass ▸ out) leads]
    intro e mem
    obtain ⟨a, rfl⟩ := closing e mem
    rfl
  | apart _ _ quiet => exact quiet

theorem Course.opening_of_read {x y : Call} (course : Course s x y told) (mem : .read ∈ told) :
    x.stage? = some .opening := by
  cases course with
  | go hosts leads =>
    cases leads with
    | fail | lack | read => exact (hosts.stage? _).1
    | _ => simp at mem
  | finish hosts leads closing =>
    rcases List.mem_append.1 mem with mem | mem
    · cases leads with
      | fail | lack => exact (hosts.stage? _).1
      | _ => simp at mem
    · exact absurd mem (unmarked_of_answers closing).1
  | apart _ _ quiet => exact absurd mem quiet.unread

theorem Course.submitting_of_refused {x y : Call} {i : WorkItem} (course : Course s x y told)
    (owner : x.ofOwner = true) (mem : .refused i ∈ told) :
    ∃ p j entered, x.stage? = some (.submitting p j entered) := by
  cases course with
  | go hosts leads =>
    cases leads with
    | refuse => exact ⟨_, _, _, (hosts.stage? _).1⟩
    | @ask _ _ _ q | @hold _ _ _ q => cases q <;> simp [Query.asked] at mem
    | _ => simp at mem
  | finish hosts leads closing =>
    rcases List.mem_append.1 mem with mem | mem
    · cases leads <;> simp at mem
    · obtain ⟨_, eq⟩ := closing _ mem
      cases eq
  | apart _ _ _ owns =>
    have none := List.filterMap_eq_nil_iff.1 ((owns owner).2 .refused) _ mem
    cases none

theorem Gated.under_way (gated : s.Gated) (act : Act s a woken events s.step)
    (head : s.ready.head? = some a) (call : (s.step.call d).stage? = some next)
    (begun : next.hasBegun = true) :
    ∃ told, Tale s s.step told ∧
      ((a = .caller d ∧ ∃ stage turn, (s.call d).stage? = some stage ∧
          Pass.Leads s stage turn told ∧ turn.next? = some next) ∨
        (a ≠ .caller d ∧ (s.call d).stage? = some next ∧ Incurious told)) := by
  rcases course_step head with ⟨c, rfl, told, tale, course⟩ | ⟨other, told, tale, quiet, _⟩
  · refine ⟨told, tale, ?_⟩
    by_cases own : d = c
    · subst own
      rcases course.stage_cases call with rfl | led
      · cases begun
      · exact .inl ⟨rfl, led⟩
    · rw [act.calls d fun eq => own (Agent.caller.inj eq).symm] at call
      have amid := inPass_of_hasBegun call begun
      have quiet := course.incurious (gated.others amid (Ne.symm own)) (gated.gate.2 ⟨d, amid⟩)
      exact .inr ⟨fun eq => own (Agent.caller.inj eq).symm, call, quiet⟩
  · rw [act.calls d (other d)] at call
    exact ⟨told, tale, .inr ⟨other d, call, quiet⟩⟩

theorem hasBegun_freeStage (stage : Pass.Stage) : (freeStage stage).hasBegun = stage.hasBegun := by
  cases stage <;> rfl

theorem Lingers.cases (lingers : Lingers s s') (call : (s'.call c).stage? = some next)
    (begun : next.hasBegun = true) : ∃ stage, (s.call c).stage? = some stage ∧
      stage.hasBegun = true ∧ (next = stage ∨ next = freeStage stage) := by
  rcases lingers c next call with rfl | ⟨stage, before, either⟩
  · cases begun
  · refine ⟨stage, before, ?_, either⟩
    rcases either with rfl | rfl
    · exact begun
    · rwa [hasBegun_freeStage] at begun

theorem Onward.reads_le (first : Run rule start cs before m)
    (on : Onward rule before m turn s) : m.reads ≤ s.reads := by
  induction on with
  | here => exact Nat.le_refl _
  | @command s k _ _ instant ih =>
    rw [(spares_apply s instant).reads]
    exact ih
  | elapse _ _ _ _ ih | choose _ _ _ ih => exact ih
  | move on _ ih | pause on _ ih =>
    obtain ⟨_, run⟩ := first.onward on
    rcases reads_step run.head_of_turn with eq | eq <;> omega

theorem Onward.latches (first : Run rule start cs before m) (fresh : start.Fresh)
    (on : Onward rule before m turn s) :
    (m.shutdown = true → s.shutdown = true) ∧
      (m.pool.released = true → s.pool.released = true) := by
  induction on with
  | here => exact ⟨id, id⟩
  | @command s k on _ instant ih =>
    obtain ⟨_, run⟩ := first.onward on
    have steady := run.steady fresh
    obtain ⟨_, move⟩ := steady.move_apply instant
    exact ⟨fun up => shutdown_apply_mono s k instant (ih.1 up),
      fun up => (move.closes steady.timely (ih.2 up)).released⟩
  | elapse _ _ _ _ ih | choose _ _ _ ih => exact ih
  | move on _ ih | pause on _ ih =>
    obtain ⟨_, run⟩ := first.onward on
    obtain ⟨_, _, act⟩ := run.act fresh
    exact ⟨fun up => act.shutdown (ih.1 up),
      fun up => (act.pool.closes (run.steady fresh).timely (ih.2 up)).released⟩

structure Persists (rule : Rule) (start : Machine)
    (P : Nat → Option Agent → Machine → Pass.Stage → Prop) : Prop where
  lead : ∀ {s cs c stage turn told next turn'}, Run rule start cs (some (.caller c)) s →
    (s.call c).stage? = some stage → P c (some (.caller c)) s stage →
    Pass.Leads s stage turn told → turn.next? = some next → Tale s s.step told →
    Onward rule (some (.caller c)) s turn' s.step → P c turn' s.step next
  stay : ∀ {c turn s turn' s' told stage}, P c turn s stage → Onward rule turn s turn' s' →
    s'.history = s.history ++ told → Incurious told → P c turn' s' stage
  free : ∀ {c turn s stage}, P c turn s stage → P c turn s (freeStage stage)

theorem Persists.step {P : Nat → Option Agent → Machine → Pass.Stage → Prop}
    (persists : Persists rule start P) (fresh : start.Fresh) (run : Run rule start cs (some a) s)
    (after : Onward rule (some a) s turn s.step) (same : s.step.reads = s.reads)
    (here : ∀ c stage, (s.call c).stage? = some stage → stage.hasBegun = true →
      P c (some a) s stage) :
    ∀ c stage, (s.step.call c).stage? = some stage → stage.hasBegun = true →
      P c turn s.step stage := by
  intro c next call begun
  obtain ⟨_, _, act⟩ := run.act fresh
  obtain ⟨told, tale, led⟩ := (run.gated fresh).under_way act run.head_of_turn call begun
  rcases led with ⟨rfl, stage, turn, before, leads, goesTo⟩ | ⟨_, before, quiet⟩
  · rcases leads.next_cases goesTo with ⟨_, _, rfl, _⟩ | ⟨opened, _⟩
    · -- A pass that opens and goes on has read the store.
      have := tale.reads
      simp [same] at this
    · have stands := here c stage before (Pass.Stage.hasBegun_iff.2 opened)
      exact persists.lead run before stands leads goesTo tale after
  · exact persists.stay (here c next before begun) after tale.history quiet

theorem Run.unread_of_le {n : Nat} (run : Run rule start cs (some a) s) (le : n ≤ s.reads)
    (same : s.step.reads = n) : s.reads = n ∧ s.step.reads = s.reads := by
  rcases reads_step run.head_of_turn with eq | eq <;> omega

theorem Onward.keeps {P : Nat → Option Agent → Machine → Pass.Stage → Prop}
    (first : Run rule start cs before m) (fresh : start.Fresh)
    (persists : Persists rule start P)
    (here : ∀ c stage, (m.call c).stage? = some stage → stage.hasBegun = true → P c before m stage)
    (on : Onward rule before m turn s) (same : s.reads = m.reads) :
    ∀ c stage, (s.call c).stage? = some stage → stage.hasBegun = true → P c turn s stage := by
  induction on with
  | here => exact here
  | @command s k on may instant ih =>
    intro c next call begun
    have lingers := lingers_apply s instant
    obtain ⟨stage, before, begun, either⟩ := lingers.cases call begun
    have history : (s.apply k).history = s.history ++ [] := by
      rw [history, (journal_apply s instant).1, List.append_nil, history]
    have kept := persists.stay (ih ((spares_apply s instant).reads ▸ same) c stage before begun)
      (Onward.here.command may instant) history incurious_nil
    rcases either with rfl | rfl
    · exact kept
    · exact persists.free kept
  | elapse on settled later timely ih =>
    intro c stage call begun
    exact persists.stay (ih same c stage call begun) (Onward.here.elapse settled later timely)
      (List.append_nil _).symm incurious_nil
  | choose on ready may ih =>
    intro c stage call begun
    exact persists.stay (ih same c stage call begun) (Onward.here.choose ready may)
      (List.append_nil _).symm incurious_nil
  | move on goesOn ih =>
    obtain ⟨_, run⟩ := first.onward on
    obtain ⟨before, now⟩ := run.unread_of_le (on.reads_le first) same
    exact persists.step fresh run (Onward.here.move goesOn) now (ih before)
  | pause on waits ih =>
    obtain ⟨_, run⟩ := first.onward on
    obtain ⟨before, now⟩ := run.unread_of_le (on.reads_le first) same
    exact persists.step fresh run (Onward.here.pause waits) now (ih before)

/-- The last read of the store before `s` is the next move of `m`. -/
structure LastRead (rule : Rule) (start : Machine) (a : Agent) (m : Machine)
    (turn : Option Agent) (s : Machine) : Prop where
  run : ∃ cs, Run rule start cs (some a) m
  on : Onward rule (some a) m turn s
  read : m.step.reads = m.reads + 1
  last : s.reads = m.reads + 1

theorem Run.opens (run : Run rule start cs (some a) m) (fresh : start.Fresh)
    (read : m.step.reads = m.reads + 1) (call : (m.step.call c).stage? = some next)
    (begun : next.hasBegun = true) :
    a = .caller c ∧ m.store.entries ≠ [] ∧ m.step.inquiries = m.inquiries ++ [.read] ∧
      next = .visiting { number := m.reads + 1, began := m.now, rest := m.store.entries } := by
  obtain ⟨_, _, act⟩ := run.act fresh
  obtain ⟨told, tale, led⟩ := (run.gated fresh).under_way act run.head_of_turn call begun
  have reads : .read ∈ told := by
    have count := tale.reads
    rw [read, Nat.add_left_cancel_iff] at count
    exact List.count_pos_iff.1 (count ▸ Nat.one_pos)
  rcases led with ⟨own, stage, turn, _, leads, goesTo⟩ | ⟨_, _, quiet⟩
  · rcases leads.next_cases goesTo with ⟨rfl, _, rfl, rfl⟩ | ⟨_, _, _, unread⟩
    · refine ⟨own, ?_, inquiries_of_history tale.history, rfl⟩
      cases leads with
      | fail | lack => cases goesTo
      | read _ stocked => exact stocked
    · exact absurd reads unread
  · exact absurd reads quiet.unread

theorem LastRead.exists_step (lastRead : LastRead rule start a m turn s) :
    ∃ turn₁, Onward rule (some a) m turn₁ m.step ∧ Onward rule turn₁ m.step turn s := by
  rcases lastRead.on.here_or_step with ⟨_, rfl⟩ | after
  · exact absurd lastRead.last (Nat.ne_of_lt (Nat.lt_succ_self _))
  · exact after

theorem LastRead.keeps {P : Nat → Option Agent → Machine → Pass.Stage → Prop}
    (lastRead : LastRead rule start a m turn s) (fresh : start.Fresh)
    (persists : Persists rule start P)
    (here : ∀ c turn, a = .caller c → Onward rule (some a) m turn m.step → m.store.entries ≠ [] →
      m.step.inquiries = m.inquiries ++ [.read] →
      P c turn m.step
        (.visiting { number := m.reads + 1, began := m.now, rest := m.store.entries })) :
    ∀ c stage, (s.call c).stage? = some stage → stage.hasBegun = true → P c turn s stage := by
  obtain ⟨cs, run⟩ := lastRead.run
  obtain ⟨turn₁, first, rest⟩ := lastRead.exists_step
  obtain ⟨_, run₁⟩ := run.onward first
  refine rest.keeps run₁ fresh persists (fun c next call begun => ?_)
    (lastRead.last.trans lastRead.read.symm)
  obtain ⟨own, stocked, inquiries, rfl⟩ := run.opens fresh lastRead.read call begun
  exact here c turn₁ own first stocked inquiries

theorem LastRead.own (lastRead : LastRead rule start a m turn s) (fresh : start.Fresh)
    (call : (s.call c).stage? = some stage) (begun : stage.hasBegun = true) : a = .caller c :=
  lastRead.keeps (P := fun c _ _ _ => a = .caller c) fresh
    ⟨fun _ _ own _ _ _ _ => own, fun own _ _ _ => own, id⟩ (fun _ _ own _ _ _ => own) c stage call
    begun

theorem Run.exists_lastRead (run : Run rule start cs turn s) (fresh : start.Fresh)
    (call : (s.call c).stage? = some stage) (begun : stage.hasBegun = true) :
    ∃ m, LastRead rule start (.caller c) m turn s := by
  have on : Onward rule none start turn s := Onward.here.run run
  have later : start.reads < s.reads := by
    refine Nat.lt_of_le_of_ne (on.reads_le .start) fun same => ?_
    refine on.keeps (P := fun _ _ _ _ => False) .start fresh
      ⟨fun _ _ no _ _ _ _ => no, fun no _ _ _ => no, id⟩ (fun c stage call _ => ?_) same.symm c
      stage call begun
    have returned : start.call c = .returned := by simp [Machine.call, fresh.calls]
    rw [returned] at call
    cases call
  obtain ⟨a, m, cs, run, on, number, read⟩ := run.exists_read later (Nat.le_refl _)
  have lastRead : LastRead rule start a m turn s :=
    ⟨⟨cs, run⟩, on, read.trans number.symm, number.symm⟩
  exact ⟨m, lastRead.own fresh call begun ▸ lastRead⟩

theorem endsPass_completed_iff {o : Report} :
    s.EndsPass c (.completed o) ↔ ∃ p, (s.call c).stage? = some (.visiting p) ∧ o = p.report ∧
      (p.rest = [] ∨ s.shutdown = true) := by
  constructor
  · rintro ⟨stage, s', call, ends⟩
    obtain ⟨⟨told, _, _, leads⟩, _, _⟩ := Pass.treads_step s c stage
    rw [ends] at leads
    cases leads with | finish ceases => exact ⟨_, call, rfl, ceases⟩
  · rintro ⟨p, call, rfl, ceases⟩
    have completes : p.visitStep s = p.complete s := by
      unfold Pass.visitStep
      split
      · rfl
      · next left => rw [if_pos (ceases.resolve_left fun none => by simp [left] at none)]
    exact ⟨_, _, call, completes⟩

structure Between (rule : Rule) (c : Nat) (m : Machine) (turn : Option Agent) (s x : Machine)
    (stage : Pass.Stage) : Prop where
  before : Onward rule (some (.caller c)) m (some (.caller c)) x
  after : Onward rule (some (.caller c)) x turn s
  call : (x.call c).stage? = some stage

def Answered (rule : Rule) (c : Nat) (m : Machine) (turn : Option Agent) (s : Machine) (q : Query)
    (k : Member) (v : Option Verdict) : Prop :=
  ∃ x stage, Between rule c m turn s x stage ∧ Pass.Answers x stage q k v

structure Said (rule : Rule) (c : Nat) (m : Machine) (turn : Option Agent) (s : Machine)
    (k : Member) (v : Verdict) : Prop where
  settled : Answered rule c m turn s v.query k (some v)
  passed : v.query = .cooldown → Answered rule c m turn s .deployment k none

def TurnedAway (rule : Rule) (c : Nat) (m : Machine) (turn : Option Agent) (s : Machine)
    (job : String) : Prop :=
  ∃ x p i entered, Between rule c m turn s x (.submitting p i entered) ∧ i.job = job ∧
    x.pool.released = true

theorem Between.trans {x : Machine} (between : Between rule c m turn s x stage)
    (on : Onward rule turn s turn' s') : Between rule c m turn' s' x stage :=
  { between with after := between.after.trans on }

theorem Answered.trans {q : Query} {k : Member} {v : Option Verdict}
    (answered : Answered rule c m turn s q k v) (on : Onward rule turn s turn' s') :
    Answered rule c m turn' s' q k v := by
  obtain ⟨x, stage, between, answers⟩ := answered
  exact ⟨x, stage, between.trans on, answers⟩

theorem Said.trans {k : Member} {v : Verdict} (said : Said rule c m turn s k v)
    (on : Onward rule turn s turn' s') : Said rule c m turn' s' k v :=
  ⟨said.settled.trans on, fun later => (said.passed later).trans on⟩

theorem TurnedAway.trans {job : String} (away : TurnedAway rule c m turn s job)
    (on : Onward rule turn s turn' s') : TurnedAway rule c m turn' s' job := by
  obtain ⟨x, p, i, entered, between, own, released⟩ := away
  exact ⟨x, p, i, entered, between.trans on, own, released⟩

/-- The pass of `c`, which has read the store at `m`, stands at the stage in `s`, has heard these
replies and has asked the scaler so much. -/
structure Conducts (rule : Rule) (c : Nat) (m : Machine) (turn : Option Agent) (s : Machine)
    (stage : Pass.Stage) (r : Replies) (asked : List Event) : Prop where
  on : Onward rule (some (.caller c)) m turn s
  stocked : m.store.entries ≠ []
  inquiries : s.inquiries = m.inquiries ++ .read :: asked
  stands : Pass.Stands r (m.reads + 1) m.store.entries stage asked
  said : ∀ job group, .askedDeploying job group ∈ asked →
    (∃ policy, stage.asks? = some ((job, group), policy)) ∨
      Said rule c m turn s (job, group) (r.verdict (job, group))
  passed : ∀ k policy, stage.query? = some .cooldown → stage.asks? = some (k, policy) →
    Answered rule c m turn s .deployment k none
  turnedAway : ∀ job, r.takes job = false → TurnedAway rule c m turn s job
  items : ∀ p, stage.pass? = some p → ∀ job ∈ p.report.submitted, ∃ groups,
    (job, groups) ∈ m.store.entries ∧ .accepted ⟨job, groups, m.reads + 1⟩ ∈ s.history

theorem Act.released_of_refused {i : WorkItem} (act : Act s a woken events s')
    (history : s'.history = s.history ++ told) (mem : .refused i ∈ told) :
    s.pool.released = true ∧ ∃ c, a = .caller c := by
  have events := act.filter_told history
  exact act.pool.released_of_refused (events ▸ List.mem_filter.2 ⟨mem, rfl⟩)

namespace Conducts

variable {r : Replies} {asked : List Event} {pt : Pass.Turn}

theorem lead (conducts : Conducts rule c m (some (.caller c)) s stage r asked)
    (call : (s.call c).stage? = some stage) (act : Act s (.caller c) woken events s.step)
    (leads : Pass.Leads s stage pt told) (goesOn : pt.next? = some next)
    (tale : Tale s s.step told) (on : Onward rule (some (.caller c)) s turn s.step) :
    ∃ r asked, Conducts rule c m turn s.step next r asked := by
  have here : Between rule c m turn s.step s stage := ⟨conducts.on, on, call⟩
  obtain ⟨r', hears, stands⟩ := leads.stands goesOn m.store.nodup_keys conducts.stands
  refine ⟨r', asked ++ told.filter (·.inquires), conducts.on.trans on, conducts.stocked, ?_, stands,
    ?_, ?_, ?_, ?_⟩
  · rw [inquiries_of_history tale.history, conducts.inquiries, List.append_assoc]
    rfl
  · intro job group mem
    rcases List.mem_append.1 mem with old | new
    · rcases hears.verdict (job, group) with asks | ⟨q, query, own, answers⟩ | ⟨same, closed⟩
      · exact .inl asks
      · refine .inr ⟨own ▸ ⟨s, stage, here, answers⟩, fun later => ?_⟩
        obtain ⟨p, check, policy, rfl, asks, _⟩ := answers
        exact (conducts.passed _ policy (query.trans (own ▸ later ▸ rfl)) asks).trans on
      · rw [same]
        refine .inr (((conducts.said job group old).resolve_left ?_).trans on)
        rintro ⟨policy, eq⟩
        exact closed policy eq
    · exact .inl (leads.asks goesOn (List.mem_filter.1 new).1)
  · intro k policy query asks
    rcases leads.passed goesOn query asks with ⟨query, asks⟩ | answers
    · exact (conducts.passed k policy query asks).trans on
    · exact ⟨s, stage, here, answers⟩
  · intro job no
    rcases hears.takes job no with before | ⟨i, submits, own, rfl⟩
    · exact (conducts.turnedAway job before).trans on
    · have released := (act.released_of_refused tale.history (List.mem_singleton_self _)).1
      cases stage with
      | submitting p j entered =>
        cases submits
        exact ⟨s, p, i, entered, here, own, released⟩
      | _ => cases submits
  · intro q pass job mem
    rw [tale.history]
    rcases leads.submitted_cases goesOn pass mem with ⟨p, before, old⟩ | ⟨p, i, _, rfl, rfl, rfl⟩
    · obtain ⟨groups, entry, accepted⟩ := conducts.items p before job old
      exact ⟨groups, entry, List.mem_append_left _ accepted⟩
    · obtain ⟨number, entry⟩ := conducts.stands.item
      refine ⟨i.policies, entry, List.mem_append_right _ ?_⟩
      rw [← number]
      exact List.mem_singleton_self _

theorem stay (conducts : Conducts rule c m turn s stage r asked)
    (on : Onward rule turn s turn' s') (history : s'.history = s.history ++ told)
    (quiet : Incurious told) : Conducts rule c m turn' s' stage r asked where
  on := conducts.on.trans on
  stocked := conducts.stocked
  inquiries := (inquiries_of_incurious history quiet).trans conducts.inquiries
  stands := conducts.stands
  said job group mem := (conducts.said job group mem).imp_right (·.trans on)
  passed k policy query asks := (conducts.passed k policy query asks).trans on
  turnedAway job no := (conducts.turnedAway job no).trans on
  items p pass job mem := by
    obtain ⟨groups, entry, accepted⟩ := conducts.items p pass job mem
    exact ⟨groups, entry, history ▸ List.mem_append_left _ accepted⟩

theorem free (conducts : Conducts rule c m turn s stage r asked) :
    Conducts rule c m turn s (freeStage stage) r asked where
  on := conducts.on
  stocked := conducts.stocked
  inquiries := conducts.inquiries
  stands := conducts.stands.freeStage
  said := by
    rw [Pass.asks?_freeStage]
    exact conducts.said
  passed := by
    rw [Pass.query?_freeStage, Pass.asks?_freeStage]
    exact conducts.passed
  turnedAway := conducts.turnedAway
  items := by
    rw [Pass.pass?_freeStage]
    exact conducts.items

end Conducts

theorem persists_conducts (fresh : start.Fresh) : Persists rule start
    fun c turn s stage => ∃ r asked, Conducts rule c m turn s stage r asked where
  lead := by
    rintro s _ c stage pt told next turn' run call ⟨r, asked, conducts⟩ leads goesOn tale on
    obtain ⟨_, _, act⟩ := run.act fresh
    exact conducts.lead call act leads goesOn tale on
  stay := by
    rintro _ _ s _ s' told stage ⟨r, asked, conducts⟩ on history quiet
    exact ⟨r, asked, conducts.stay on history quiet⟩
  free := by
    rintro _ _ s stage ⟨r, asked, conducts⟩
    exact ⟨r, asked, conducts.free⟩

theorem LastRead.conducts (lastRead : LastRead rule start (.caller c) m turn s)
    (fresh : start.Fresh) (call : (s.call c).stage? = some stage)
    (begun : stage.hasBegun = true) : ∃ r asked, Conducts rule c m turn s stage r asked := by
  refine lastRead.keeps fresh (persists_conducts fresh) ?_ c stage call begun
  rintro d turn ⟨⟩ first stocked inquiries
  refine ⟨⟨fun _ => .clear, fun _ => true⟩, [], first, stocked, inquiries, ?_, nofun, nofun, nofun,
    ?_⟩
  · exact @Pass.Stands.visiting _ _ _ [] _ rfl rfl rfl
  · rintro p ⟨⟩ job ⟨⟩

end Machine

end Autoscaling
