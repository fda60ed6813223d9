import Autoscaling.Proofs.Machine.Underway
import Autoscaling.Proofs.Text.Order

namespace Autoscaling.Machine

variable {rule : Rule} {start m s : Machine} {turn : Option Agent} {a : Agent} {cs : List Command}
  {c : Nat} {stage : Pass.Stage} {r : Replies} {asked : List Event} {o : Report}

def SeesShutdown (s : Machine) (c : Nat) : Prop :=
  s.shutdown = true ∧ ∃ p, (s.call c).stage? = some (.visiting p) ∧ p.rest ≠ []

structure Completes (turn : Option Agent) (s : Machine) (c : Nat) (o : Report) : Prop where
  turn : turn = some (.caller c)
  ends : s.EndsPass c (.completed o)
  unseen : ¬ s.SeesShutdown c

/-- What the pass of `c`, which has read the store at `m`, has asked by `s`, and what it decides by
the replies. -/
structure Decides (rule : Rule) (c : Nat) (m : Machine) (turn : Option Agent) (s : Machine)
    (r : Replies) (asked : List Event) : Prop where
  jobs : m.store.entries ≠ [] ∧
    m.store.entries.Pairwise fun j k => Text.bytes j.1 < Text.bytes k.1
  groups : ∀ job groups, (job, groups) ∈ m.store.entries →
    groups.entries.Pairwise fun g h => Text.bytes g.1 < Text.bytes h.1
  inquiries : s.inquiries = m.inquiries ++ .read :: asked
  led : ∃ later, asked ++ later = r.inquiries m.store.entries
  said : ∀ job group, .askedDeploying job group ∈ asked →
    (∃ stage policy, (s.call c).stage? = some stage ∧
      stage.asks? = some ((job, group), policy)) ∨
      Said rule c m turn s (job, group) (r.verdict (job, group))
  completed : ∀ o, Completes turn s c o →
    asked = r.inquiries m.store.entries ∧ o = r.report m.store.entries
  decided : ∀ o, Completes turn s c o → (∀ job, ¬ TurnedAway rule c m turn s job) →
    ∀ job groups, (job, groups) ∈ m.store.entries →
      (job ∈ o.submitted ↔ ∃ group policy others, groups.entries = (group, policy) :: others ∧
        r.verdict (job, group) = .clear) ∧
      (job ∈ o.gated ↔ job ∉ o.submitted) ∧
      (job ∈ o.submitted → .accepted ⟨job, groups, m.reads + 1⟩ ∈ s.history)
  alone : ∀ o, Completes turn s c o → ∀ job groups, (job, groups) ∈ m.store.entries →
    ∀ r' : Replies, r'.takes job = r.takes job →
      (∀ group policy others, groups.entries = (group, policy) :: others →
        r'.verdict (job, group) = r.verdict (job, group)) →
      (job ∈ (r'.report m.store.entries).submitted ↔ job ∈ o.submitted)
  opened : s.pool.released = false → ∀ job, ¬ TurnedAway rule c m turn s job

theorem TurnedAway.released {job : String} (away : TurnedAway rule c m turn s job)
    (run : Run rule start cs (some (.caller c)) m) (fresh : start.Fresh) :
    s.pool.released = true := by
  obtain ⟨x, p, i, entered, between, _, released⟩ := away
  obtain ⟨_, run⟩ := run.onward between.before
  exact (between.after.latches run fresh).2 released

theorem Completes.visiting (completes : Completes turn s c o) :
    ∃ p, (s.call c).stage? = some (.visiting p) ∧ o = p.report ∧ p.rest = [] := by
  obtain ⟨p, call, report, ceases⟩ := endsPass_completed_iff.1 completes.ends
  refine ⟨p, call, report, Classical.byContradiction fun left => ?_⟩
  exact completes.unseen ⟨ceases.resolve_left left, p, call, left⟩

theorem Conducts.completed (conducts : Conducts rule c m turn s stage r asked)
    (call : (s.call c).stage? = some stage) (completes : Completes turn s c o) :
    asked = r.inquiries m.store.entries ∧ o = r.report m.store.entries := by
  obtain ⟨p, call', rfl, none⟩ := completes.visiting
  cases Option.some.inj (call.symm.trans call')
  cases conducts.stands with | visiting _ split report =>
  rw [none, List.append_nil] at split
  rw [split]
  exact ⟨rfl, report⟩

theorem Conducts.accepted (conducts : Conducts rule c m turn s stage r asked) {p : Pass}
    {job : String} {groups : JobPolicies} (pass : stage.pass? = some p)
    (mem : (job, groups) ∈ m.store.entries) (submitted : job ∈ p.report.submitted) :
    .accepted ⟨job, groups, m.reads + 1⟩ ∈ s.history := by
  obtain ⟨groups', mem', accepted⟩ := conducts.items p pass job submitted
  cases (Dict.get?_eq_some_iff.2 mem').symm.trans (Dict.get?_eq_some_iff.2 mem)
  exact accepted

/-- However a pass is interrupted, it asks and decides as the replies tell it to. -/
theorem Run.decides {k : Config} {timed : Bool} {scenario : Scenario}
    (made : ofConfig k timed scenario = .made start) (run : Run rule start cs turn s)
    (call : (s.call c).stage? = some stage) (begun : stage.hasBegun = true) :
    (∃ m, LastRead rule start (.caller c) m turn s) ∧
      ∀ m, LastRead rule start (.caller c) m turn s →
        ∃ r asked, Decides rule c m turn s r asked := by
  have fresh := fresh_ofConfig made
  refine ⟨run.exists_lastRead fresh call begun, fun m lastRead => ?_⟩
  obtain ⟨r, asked, conducts⟩ := lastRead.conducts fresh call begun
  refine ⟨r, asked, ?_⟩
  obtain ⟨_, run⟩ := lastRead.run
  constructor
  case jobs => exact ⟨conducts.stocked, m.store.ascending_bytes⟩
  case groups => exact fun _ groups _ => groups.ascending_bytes
  case inquiries => exact conducts.inquiries
  case led => exact conducts.stands.exists_later
  case said =>
    intro job group mem
    refine (conducts.said job group mem).imp_left ?_
    rintro ⟨policy, asks⟩
    exact ⟨stage, policy, call, asks⟩
  case completed => exact fun o completes => conducts.completed call completes
  case decided =>
    intro o completes open_ job groups mem
    have accepted : job ∈ o.submitted → .accepted ⟨job, groups, m.reads + 1⟩ ∈ s.history := by
      obtain ⟨p, call', rfl, _⟩ := completes.visiting
      cases Option.some.inj (call.symm.trans call')
      exact conducts.accepted rfl mem
    obtain ⟨-, rfl⟩ := conducts.completed call completes
    have takes : r.takes job = true := by
      by_contra no
      exact open_ job (conducts.turnedAway job (Bool.eq_false_iff.2 no))
    have submitted : job ∈ (r.report m.store.entries).submitted ↔ r.clears job groups = true := by
      rw [Replies.mem_submitted_iff mem, takes, and_iff_left rfl]
    refine ⟨submitted.trans Replies.clears_iff, ?_, accepted⟩
    rw [submitted, Replies.mem_gated_iff mem, Bool.not_eq_true]
  case alone =>
    intro o completes job groups mem r' takes same
    obtain ⟨-, rfl⟩ := conducts.completed call completes
    have clears := Replies.clears_congr same
    rw [Replies.mem_submitted_iff mem, Replies.mem_submitted_iff mem, takes, clears]
  case opened =>
    intro running job away
    rw [away.released run fresh] at running
    cases running

def threeJobs : List Command :=
  [.change (.deploying ("a", "h") true), .change (.undetermined ("b", "g") true),
    .write (.putJob "a" (heldItem.policies.insert "h" .default)),
    .write (.putJob "b" heldItem.policies), .write (.putJob "c" ∅)]

def threeVisited : Machine := Machine.run 18 ((heldLoop.play threeJobs).1.apply .evaluate)

theorem decides_threeVisited :
    Completes (some (.caller 0)) threeVisited 0
      { jobsEvaluated := 3, submitted := ["a"], gated := ["b", "c"] } ∧
    (∃ m, LastRead loopRule heldLoop (.caller 0) m (some (.caller 0)) threeVisited) ∧
    ∀ m, LastRead loopRule heldLoop (.caller 0) m (some (.caller 0)) threeVisited →
      ∃ r asked, Decides loopRule 0 m (some (.caller 0)) threeVisited r asked := by
  have played := loop_play threeJobs (fresh_ofConfig made_heldLoop)
    (by simp [threeJobs, Command.isOfLoop])
  have run := (played.command (c := .evaluate) rfl rfl).amid (a := .caller 0)
    (fun _ _ _ => trivial) 18 (by decide +kernel)
  have call : (threeVisited.call 0).stage? = some (.visiting
      { number := 1, began := 0, rest := []
        report := { jobsEvaluated := 3, submitted := ["a"], gated := ["b", "c"] } }) := by
    decide +kernel
  have ends := endsPass_completed_iff.2 ⟨_, call, rfl, .inl rfl⟩
  refine ⟨⟨rfl, ends, fun seen => ?_⟩, run.decides made_heldLoop call rfl⟩
  have running : threeVisited.shutdown = false := by decide +kernel
  rw [seen.1] at running
  cases running

end Autoscaling.Machine
