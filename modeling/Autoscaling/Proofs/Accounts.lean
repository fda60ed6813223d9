import Autoscaling.Proofs.Machine.Underway

namespace Autoscaling

theorem ascending_filter {jobs : List (String × JobPolicies)}
    (ascending : jobs.Pairwise (·.1 < ·.1)) (chosen : String × JobPolicies → Bool) :
    ((jobs.filter chosen).map (·.1)).Pairwise (· < ·) :=
  List.pairwise_map.2 (ascending.filter _)

theorem Replies.perm_report {r : Replies} (takes : ∀ job, r.takes job = true)
    (jobs : List (String × JobPolicies)) :
    ((r.report jobs).submitted ++ (r.report jobs).gated).Perm (jobs.map (·.1)) := by
  have all : (jobs.filter fun j => r.clears j.1 j.2 && r.takes j.1) =
      jobs.filter fun j => r.clears j.1 j.2 :=
    List.filter_congr fun j _ => by rw [takes, Bool.and_true]
  simp only [report, all]
  rw [← List.map_append]
  exact (List.filter_append_perm (fun j => r.clears j.1 j.2) jobs).map _

namespace Machine

variable {start m s x : Machine} {turn : Option Agent} {a : Agent} {cs : List Command} {c d : Nat}
  {stage : Pass.Stage} {r : Replies} {asked : List Event} {o : Report}

theorem ofOwner_of_ofLoop {y : Call} (ofLoop : y.ofLoop = true) : y.ofOwner = true := by
  cases y <;> first | rfl | cases ofLoop

theorem Governed.running_of_submitting (governed : s.Governed) {p : Pass} {i : WorkItem}
    {entered : Bool} (call : (s.call c).stage? = some (.submitting p i entered)) :
    s.pool.released = false := by
  refine Bool.eq_false_iff.2 fun released => ?_
  have spent := governed.spent released c
  unfold Call.isSpent at spent
  rw [call] at spent
  cases spent

theorem Governed.unrefused (governed : s.Governed) {woken : List Agent} {events : List Event}
    (act : Act s a woken events s.step) (head : s.ready.head? = some a) (i : WorkItem) :
    ∃ told, s.step.history = s.history ++ told ∧ .refused i ∉ told := by
  rcases course_step head with ⟨c, _, told, tale, course⟩ | ⟨other, told, tale, _⟩
  · refine ⟨told, tale.history, fun mem => ?_⟩
    obtain ⟨released, _⟩ := act.released_of_refused tale.history mem
    have owner := ofOwner_of_ofLoop (governed.ofLoop c)
    obtain ⟨_, _, _, call⟩ := course.submitting_of_refused owner mem
    rw [governed.running_of_submitting call] at released
    cases released
  · refine ⟨told, tale.history, fun mem => ?_⟩
    obtain ⟨_, c, caller⟩ := act.released_of_refused tale.history mem
    exact other c caller

theorem Run.unrefused (run : Run loopRule start cs turn s) (fresh : start.Fresh) (i : WorkItem) :
    .refused i ∉ s.history := by
  induction run with
  | start => simp [history, fresh.journal]
  | @command _ s _ _ _ instant ih => rwa [history, (journal_apply s instant).1, ← history]
  | elapse _ _ _ _ ih | choose _ _ _ ih => exact ih
  | move run _ ih | pause run _ ih =>
    obtain ⟨_, _, act⟩ := run.act fresh
    obtain ⟨told, history, none⟩ := (run.governed fresh).unrefused act run.head_of_turn i
    rw [history, List.mem_append]
    exact fun mem => mem.elim ih none

theorem Conducts.takes (conducts : Conducts loopRule c m turn s stage r asked)
    (run : Run loopRule start cs (some (.caller c)) m) (fresh : start.Fresh) (job : String) :
    r.takes job = true := by
  by_contra no
  obtain ⟨x, p, i, entered, between, _, released⟩ :=
    conducts.turnedAway job (Bool.eq_false_iff.2 no)
  obtain ⟨_, run⟩ := run.onward between.before
  rw [(run.governed fresh).running_of_submitting between.call] at released
  cases released

section

variable {rule : Rule} {p : Pass} {j : String × JobPolicies}

theorem LastRead.between (lastRead : LastRead rule start (.caller c) m turn s)
    (between : Between rule c m turn s x (.visiting p)) :
    LastRead rule start (.caller c) m (some (.caller c)) x := by
  obtain ⟨cs, run⟩ := lastRead.run
  have read := lastRead.read
  have last := lastRead.last
  refine ⟨lastRead.run, between.before, read, ?_⟩
  obtain ⟨_, runx⟩ := run.onward between.before
  have le := between.after.reads_le runx
  rcases between.before.here_or_step with ⟨_, rfl⟩ | ⟨_, first, rest⟩
  · -- The next move of `m` is that of a pass that opens.
    rcases course_step run.head_of_turn with ⟨d, own, told, tale, course⟩ | ⟨other, _⟩
    · cases own
      have count := tale.reads
      have reads : .read ∈ told := List.count_pos_iff.1 (by omega)
      cases (course.opening_of_read reads).symm.trans between.call
    · exact absurd rfl (other c)
  · obtain ⟨_, run₁⟩ := run.onward first
    have := rest.reads_le run₁
    omega

theorem Run.evaluated_step {next : Pass.Stage} (run : Run rule start cs (some (.caller c)) x)
    (fresh : start.Fresh) (call : (x.call c).stage? = some (.visiting p))
    (after : (x.step.call d).stage? = some next) (begun : next.hasBegun = true) :
    p.report.jobsEvaluated + 1 ≤ next.evaluated := by
  obtain ⟨_, _, act⟩ := run.act fresh
  have gated := run.gated fresh
  obtain ⟨told, _, led⟩ := gated.under_way act run.head_of_turn after begun
  rcases led with ⟨own, stage, turn, call', leads, goesOn⟩ | ⟨other, call', _⟩
  · cases own
    cases call'.symm.trans call
    cases leads with
    | finish => cases goesOn
    | visit =>
      cases goesOn
      exact Nat.le_refl _
  · exact absurd (congrArg Agent.caller (gated.alone c d
      (inPass_of_hasBegun call rfl) (inPass_of_hasBegun call' begun))) other

theorem Onward.evaluated_le {before : Option Agent} {n : Nat} (first : Run rule start cs before x)
    (fresh : start.Fresh)
    (here : ∀ c stage, (x.call c).stage? = some stage → stage.hasBegun = true →
      n ≤ stage.evaluated)
    (on : Onward rule before x turn s) (same : s.reads = x.reads) :
    ∀ c stage, (s.call c).stage? = some stage → stage.hasBegun = true → n ≤ stage.evaluated := by
  refine on.keeps (P := fun _ _ _ stage => n ≤ stage.evaluated) first fresh
    ⟨fun _ _ le leads goesOn _ _ => ?_, fun le _ _ _ => le, fun le => ?_⟩ here same
  · exact Nat.le_trans le (leads.evaluated_le goesOn)
  · rwa [Pass.Stage.evaluated, Pass.pass?_freeStage]

theorem LastRead.whole (lastRead : LastRead rule start (.caller c) m turn s) (fresh : start.Fresh)
    (between : Between rule c m turn s x (.visiting p)) (last : p.rest = [j])
    (running : x.shutdown = false) (own : turn = some (.caller c))
    (ends : s.EndsPass c (.completed o)) : m.store.size ≤ o.jobsEvaluated := by
  obtain ⟨cs, run⟩ := lastRead.run
  obtain ⟨_, runx⟩ := run.onward between.before
  have here := lastRead.between between
  obtain ⟨r, asked, conducts⟩ := here.conducts fresh between.call rfl
  have size : m.store.size = p.report.jobsEvaluated + 1 := by
    cases conducts.stands with | visiting _ split report =>
    rw [Dict.size, split, last, report]
    simp [Replies.report]
  obtain ⟨q, call, rfl, ceases⟩ := endsPass_completed_iff.1 ends
  rcases between.after.here_or_step with ⟨own', rfl⟩ | ⟨turn₁, first, rest⟩
  · -- It does not complete yet, with a job left and no shutdown.
    cases own.symm.trans own'
    cases Option.some.inj (call.symm.trans between.call)
    simp [last, running] at ceases
  · obtain ⟨_, run₁⟩ := runx.onward first
    have same : s.reads = x.step.reads := by
      have := first.reads_le runx
      have := rest.reads_le run₁
      have := here.last
      have := lastRead.last
      omega
    exact size ▸ rest.evaluated_le run₁ fresh
      (fun _ _ => runx.evaluated_step fresh between.call) same c _ call rfl

theorem LastRead.late (lastRead : LastRead rule start a m turn s) (fresh : start.Fresh)
    (signalled : m.shutdown = true) (call : (s.call c).stage? = some stage)
    (begun : stage.hasBegun = true) : ∃ p, stage = .visiting p ∧ p.report = {} := by
  obtain ⟨cs, run⟩ := lastRead.run
  refine (lastRead.keeps (P := fun _ turn s stage => Onward rule (some a) m turn s ∧
    ∃ p, stage = .visiting p ∧ p.report = {}) fresh ⟨?_, ?_, ?_⟩ ?_ c stage call begun).2
  · rintro s _ _ _ _ _ _ _ _ _ ⟨on, p, rfl, _⟩ leads goesOn _ _
    have shut := (on.latches run fresh).1 signalled
    cases leads with
    | finish => cases goesOn
    | visit _ running =>
      rw [shut] at running
      cases running
  · exact fun ⟨on, visits⟩ on' _ _ => ⟨on.trans on', visits⟩
  · rintro _ _ _ _ ⟨on, p, rfl, none⟩
    exact ⟨on, p, rfl, none⟩
  · exact fun _ _ _ first _ _ => ⟨first, _, rfl, rfl⟩

end

structure Accounts (c : Nat) (m s : Machine) (o : Report) : Prop where
  submitted : o.submitted.Pairwise (· < ·)
  gated : o.gated.Pairwise (· < ·)
  apart : ∀ job ∈ o.submitted, job ∉ o.gated
  together : (o.submitted ++ o.gated).Perm (m.store.keys.take o.jobsEvaluated)
  evaluated : o.jobsEvaluated = o.submitted.length + o.gated.length
  within : o.jobsEvaluated ≤ m.store.size
  cut : o.jobsEvaluated < m.store.size → s.shutdown = true ∧
    ∃ p, (s.call c).stage? = some (.visiting p) ∧ p.rest = m.store.entries.drop o.jobsEvaluated
  whole : ∀ x p job, Between loopRule c m (some (.caller c)) s x (.visiting p) →
    p.rest = [job] → x.shutdown = false → o.jobsEvaluated = m.store.size
  late : m.lifecycle.isEarly = false → o = {}

structure Accountable (start : Machine) (turn : Option Agent) (s : Machine) : Prop where
  unrefused : ∀ i, .refused i ∉ s.history
  read : ∀ c stage, (s.call c).stage? = some stage → stage.hasBegun = true →
    ∃ m, LastRead loopRule start (.caller c) m turn s
  completed : ∀ c o, turn = some (.caller c) → s.EndsPass c (.completed o) →
    ∀ m, LastRead loopRule start (.caller c) m turn s → Accounts c m s o
  late : ∀ c stage, (s.call c).stage? = some stage → stage.hasBegun = true →
    ∀ m, LastRead loopRule start (.caller c) m turn s → m.lifecycle.isEarly = false →
      s.inquiries = m.inquiries ++ [.read] ∧ ∃ p, stage = .visiting p ∧ p.report = {}

theorem Governed.signalled_of_late (governed : s.Governed) (late : s.lifecycle.isEarly = false) :
    s.shutdown = true := by
  refine governed.signalled ?_
  unfold Lifecycle.isEarly at late
  cases phase : s.lifecycle.phase <;> simp [phase] at late ⊢

theorem LastRead.accounts (lastRead : LastRead loopRule start (.caller c) m turn s)
    (fresh : start.Fresh) (own : turn = some (.caller c)) (ends : s.EndsPass c (.completed o)) :
    Accounts c m s o := by
  obtain ⟨p, call, rfl, ceases⟩ := endsPass_completed_iff.1 ends
  obtain ⟨r, asked, conducts⟩ := lastRead.conducts fresh call rfl
  obtain ⟨_, run⟩ := lastRead.run
  have takes := conducts.takes run fresh
  cases conducts.stands with | @visiting done _ _ split report =>
  have ascending : done.Pairwise (·.1 < ·.1) :=
    (List.pairwise_append.1 (split ▸ m.store.ascending)).1
  have perm := Replies.perm_report takes done
  have evaluated : p.report.jobsEvaluated = done.length := by rw [report]; rfl
  have visited : done.map (·.1) = m.store.keys.take p.report.jobsEvaluated := by
    rw [evaluated, Dict.keys, split, List.map_append, List.take_left' (List.length_map ..)]
  have size : m.store.size = p.report.jobsEvaluated + p.rest.length := by
    rw [Dict.size, split, List.length_append, evaluated]
  rw [← report] at perm
  constructor
  case submitted =>
    rw [report]
    exact ascending_filter ascending _
  case gated =>
    rw [report]
    exact ascending_filter ascending _
  case apart =>
    have nodup := (List.pairwise_map.2 ascending).imp String.ne_of_lt
    have nodup := perm.nodup_iff.2 nodup
    exact fun job mem mem' => (List.nodup_append.1 nodup).2.2 job mem job mem' rfl
  case together => rwa [visited] at perm
  case evaluated =>
    have := perm.length_eq
    rwa [List.length_append, List.length_map, ← evaluated, eq_comm] at this
  case within => exact size ▸ Nat.le_add_right ..
  case cut =>
    intro less
    have left : p.rest ≠ [] := fun none => by simp [none] at size; omega
    refine ⟨ceases.resolve_left left, p, call, ?_⟩
    rw [split, evaluated, List.drop_left]
  case whole =>
    intro x q job between last running
    have := (own ▸ lastRead).whole fresh between last running rfl ends
    omega
  case late =>
    intro late
    have signalled := (run.governed fresh).signalled_of_late late
    obtain ⟨q, eq, none⟩ := lastRead.late fresh signalled call rfl
    cases eq
    exact none

/-- However a scaling loop runs, its passes account for the jobs that they visit. -/
theorem Run.accountable {k : Config} {timed : Bool} {scenario : Scenario}
    (made : ofConfig k timed scenario = .made start) (run : Run loopRule start cs turn s) :
    Accountable start turn s := by
  have fresh := fresh_ofConfig made
  constructor
  case unrefused => exact run.unrefused fresh
  case read => exact fun c stage call begun => run.exists_lastRead fresh call begun
  case completed => exact fun c o own ends m lastRead => lastRead.accounts fresh own ends
  case late =>
    intro c stage call begun m lastRead late
    obtain ⟨_, runm⟩ := lastRead.run
    have signalled := (runm.governed fresh).signalled_of_late late
    obtain ⟨p, rfl, none⟩ := lastRead.late fresh signalled call begun
    obtain ⟨r, asked, conducts⟩ := lastRead.conducts fresh call begun
    refine ⟨?_, p, rfl, none⟩
    have inquiries := conducts.inquiries
    cases conducts.stands with | @visiting done _ _ _ report =>
    have nothing : done = [] := by
      have := congrArg Report.jobsEvaluated (report.symm.trans none)
      exact List.eq_nil_of_length_eq_zero this
    rwa [nothing] at inquiries

def oneSlotLoop : Machine := { heldUp with pool := { capacity := 1, expiry := 60000, free := 1 } }

def blockedPass : List Command :=
  [.write (.putJob "a" heldItem.policies), .write (.putJob "b" heldItem.policies),
    .write (.putJob "c" heldItem.policies), .evaluate, .stop]

def cutPass : Machine := Machine.run 7 ((oneSlotLoop.play blockedPass).1.apply (.unhold "a"))

theorem accountable_cutPass :
    cutPass.EndsPass 0 (.completed { jobsEvaluated := 2, submitted := ["a", "b"] }) ∧
      Accountable oneSlotLoop (some (.caller 0)) cutPass := by
  have made : ofConfig { scalingThreads := 1 } false heldUp.scenario = .made oneSlotLoop := rfl
  have played := loop_play blockedPass (fresh_ofConfig made)
    (by simp [blockedPass, Command.isOfLoop])
  have run := (played.command (c := .unhold "a") rfl rfl).amid (a := .caller 0)
    (fun _ _ _ => trivial) 7 (by decide +kernel)
  have call : (cutPass.call 0).stage? = some (.visiting
      { number := 1, began := 0, rest := [("c", heldItem.policies)]
        report := { jobsEvaluated := 2, submitted := ["a", "b"] } }) := by
    decide +kernel
  have signalled : cutPass.shutdown = true := by decide +kernel
  exact ⟨endsPass_completed_iff.2 ⟨_, call, rfl, .inr signalled⟩, run.accountable made⟩

end Machine

end Autoscaling
