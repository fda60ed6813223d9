import Autoscaling.Proofs.Conservation
import Autoscaling.Proofs.Machine.Handover
import Autoscaling.Proofs.Machine.Reports
import Autoscaling.Proofs.Occupancy

namespace Autoscaling.Machine

variable {rule : Rule} {start m s : Machine} {before turn : Option Agent} {a : Agent}
  {cs : List Command}

/-- Only passes give items to the pool, and evaluations that are ready have their turns in line. All
else may be told at any time, in any order of turns. -/
def lineRule : Rule where
  comes _ c := c.submits = false
  chooses s a := ∀ w, a = .evaluation w → s.lineup.head? = some w

theorem keepsLine_lineRule : lineRule.KeepsLine := fun _ w may => may w rfl

theorem letsFirst_lineRule : lineRule.LetsFirst := by
  rintro s _ head w rfl
  obtain ⟨l, ready⟩ := List.head?_eq_some_iff.1 head
  rw [lineup, ready, List.filterMap_cons]
  rfl

theorem Run.outOfLine (run : Run lineRule start cs turn s) : Run passRule start cs turn s :=
  run.mono (fun _ _ _ _ => id) fun _ _ _ _ _ => trivial

theorem line_play (cs : List Command) (fresh : start.Fresh)
    (ofPasses : ∀ c ∈ cs, c.submits = false) :
    Run lineRule start (cs.filter (·.isInstant)) none (start.play cs).1 :=
  Run.start.play letsFirst_lineRule fresh.punctual fresh.ready fun _ _ c _ _ mem _ => ofPasses c mem

def Via (start : Machine) (before : Option Agent) (m s : Machine) : Prop :=
  (∃ cs, Run passRule start cs before m) ∧ Onward passRule before m none s

theorem Run.apiece (fresh : start.Fresh) (run : Run passRule start cs turn s) : Apiece s := by
  have numbered := run.numbered fresh
  have reported := run.reported fresh
  obtain ⟨kept, _, order⟩ := (run.steady fresh).ledger.order
  rw [marked_itemEvents, marked_itemEvents] at order
  have sub : s.taken.Sublist (marked .accepted s.history) := order ▸ List.sublist_append_left ..
  exact ⟨numbered.once.of_map.sublist sub, fun i mem => reported.groups i (sub.subset mem)⟩

theorem Apiece.begins (apiece : Apiece s) (steady : Steady none s) :
    (marked .started s.history ++ s.pool.held .handed).Perm (s.taken.filter s.isDue) := by
  have fates := steady.fates steady.resting.2
  have dropped {i : WorkItem} (late : s.late i = true) : i ∈ marked .dropped s.history :=
    mem_dropped_iff.2 ⟨_, of_decide_eq_true late⟩
  have apart := (List.nodup_append.1 (fates.nodup_iff.1 apiece.once)).2.2
  refine perm_filter fates (fun i mem => ?_) fun i mem => ?_
  · have fit := steady.ledger.fit i
      ((List.mem_append.1 mem).symm.imp_right fun started => by rwa [marked_itemEvents])
    have groups := apiece.groups i (fates.mem_iff.2 (List.mem_append_left _ mem))
    have early : s.late i = false :=
      Bool.eq_false_iff.2 fun late => apart i mem i (dropped late) rfl
    simp [isDue, early, (WorkItem.fault?_eq_none_iff groups).1 fit]
  · have groups := apiece.groups i (fates.mem_iff.2 (List.mem_append_right _ mem))
    obtain ⟨r, told⟩ := mem_dropped_iff.1 mem
    cases r with
    | shutdown => simp [isDue, late, told]
    | malformed f =>
      obtain ⟨_, reason, _⟩ := steady.ledger.reasons _ _ (List.mem_filter.2 ⟨told, rfl⟩)
      simp [isDue, Pool.job_of_malformed groups reason]

structure Follows (start s : Machine) : Prop where
  passes : (marked .accepted s.history).Pairwise (·.pass ≤ ·.pass)
  reporting : ∀ c stage p, (s.call c).stage? = some stage → stage.pass? = some p →
    p.report.submitted = jobsOf p.number (marked .accepted s.history)
  reports : ∀ c m r, Via start (some (.caller c)) m s → m.EndsPass c (.completed r) →
    r.submitted = jobsOf m.reads (marked .accepted s.history)
  once : ((marked .accepted s.history).map WorkItem.key).Nodup
  order : marked .accepted s.history = s.taken ++ s.pool.queue
  begins : (marked .started s.history ++ s.pool.held .handed).Perm (s.taken.filter s.isDue)
  inLine : (∃ cs, Run lineRule start cs none s) →
    marked .started s.history ++ s.spawned = s.taken.filter s.isDue
  late : ∀ turn m, Via start turn m s → m.shutdown = true →
    ∀ i ∈ s.taken, i ∈ m.taken ∨ s.late i = true
  early : ∀ turn m, Via start turn m s → m.shutdown = false → ∀ i ∈ m.taken, s.late i = false
  settled : s.ready = [] → s.pool.held .handed = [] ∧ s.spawned = []
  read : ∀ i ∈ marked .accepted s.history, ∃ a m, Via start (some a) m s ∧
    m.reads + 1 = i.pass ∧ m.step.reads = i.pass
  stored : ∀ a m, Via start (some a) m s → m.step.reads = m.reads + 1 →
    ∀ i ∈ marked .accepted s.history, i.pass = m.reads + 1 →
      m.store.get? i.job = some i.policies

theorem spawned_of_settled (settled : s.ready = []) : s.spawned = [] := by
  rw [spawned, lineup, settled]
  rfl

/-- What is evaluated, and with which groups, follows from what the passes have submitted; so does
the order if evaluations have their first turns in line. -/
theorem Run.follows {c : Config} {timed : Bool} {scenario : Scenario}
    (made : ofConfig c timed scenario = .made start) (run : Run passRule start cs none s) :
    Follows start s := by
  have fresh := fresh_ofConfig made
  have steady := run.steady fresh
  have numbered := run.numbered fresh
  have reported := run.reported fresh
  have apiece := run.apiece fresh
  have free := steady.not_holding (by simp)
  constructor
  case passes => exact reported.ordered
  case reporting => exact fun c stage p stands pass =>
    ((reported.stages c stage stands).report p pass).submitted
  case reports =>
    rintro c m r ⟨⟨_, before⟩, on⟩ ends
    exact submitted_eq before fresh ends on
  case once => exact numbered.once
  case order => exact steady.order steady.resting.1
  case begins => exact apiece.begins steady
  case inLine =>
    rintro ⟨_, run⟩
    cases run.dealt fresh keepsLine_lineRule (fun run => run.outOfLine.apiece fresh) with
    | clear _ handed => exact handed
    | @amid w i _ only => exact absurd ((only w i).2 ⟨rfl, rfl⟩) (free w i)
  case late =>
    rintro turn m ⟨⟨_, before⟩, on⟩ signalled i mem
    rcases (on.late fresh before signalled).2 i mem with old | late | ⟨w, holds⟩
    · exact .inl old
    · exact .inr late
    · exact absurd holds (free w i)
  case early =>
    rintro turn m ⟨⟨_, before⟩, on⟩ running i mem
    exact (on.early fresh (fun run => run.apiece fresh) before running i mem).2.1
  case settled =>
    exact fun settled => ⟨steady.held_of_settled settled nofun, spawned_of_settled settled⟩
  case read =>
    intro i mem
    have first : start.reads < i.pass := by
      rw [(fresh_store_ofConfig made).1]
      exact reported.numbered i mem
    obtain ⟨a, m, cs, before, on, read⟩ := run.exists_read first (numbered.early i mem)
    exact ⟨a, m, ⟨⟨cs, before⟩, on⟩, read⟩
  case stored =>
    rintro a m ⟨⟨_, before⟩, on⟩ read i mem pass
    have stood := mem_entries_of_read before fresh read on mem pass
    exact Dict.get?_eq_some_iff.2 stood

def narrowLoop : Machine :=
  around { capacity := 1, expiry := 60000, free := 1 }
    { behaviours := ((∅ : Dict Behaviour).insert "a" .held).insert "b" .held }

def narrowTale : List Command :=
  [.write (.putJob "" heldItem.policies), .write (.putJob "a" heldItem.policies),
    .write (.putJob "b" heldItem.policies), .write (.putJob "c" heldItem.policies), .evaluate,
    .write (.putGroup "b" "h" {}), .write (.deleteJob "c"), .unhold "a", .stop, .unhold "b"]

theorem follows_narrowLoop :
    marked .started (narrowLoop.play narrowTale).1.history =
        [{ heldItem with pass := 1 }, { heldItem with job := "b", pass := 1 }] ∧
      (marked .dropped (narrowLoop.play narrowTale).1.history).map (·.job) = ["", "c"] ∧
      (∃ cs, Run lineRule narrowLoop cs none (narrowLoop.play narrowTale).1) ∧
      Follows narrowLoop (narrowLoop.play narrowTale).1 := by
  have made : ofConfig { scalingThreads := 1 } false narrowLoop.scenario = .made narrowLoop := rfl
  have run := line_play narrowTale (fresh_ofConfig made)
    (by simp [narrowTale, Command.submits])
  exact ⟨by decide +kernel, by decide +kernel, ⟨_, run⟩, Run.follows made run.outOfLine⟩

def pairedLoop : Machine :=
  Machine.run 25 ((heldLoop.play [.write (.putJob "a" heldItem.policies),
    .write (.putJob "b" heldItem.policies)]).1.apply .evaluate)

/-- Two workers take an item each, and the evaluation of the second has its first turn first. -/
theorem started_ne_taken :
    ∃ s, Run passRule heldLoop [.write (.putJob "a" heldItem.policies),
        .write (.putJob "b" heldItem.policies), .evaluate] none s ∧ s.ready = [] ∧
      marked .accepted s.history = s.taken ∧
      s.taken.filter s.isDue = [{ heldItem with pass := 1 },
        { heldItem with job := "b", pass := 1 }] ∧
      marked .started s.history = [{ heldItem with job := "b", pass := 1 },
        { heldItem with pass := 1 }] := by
  have lets : passRule.LetsFirst := fun _ _ _ => trivial
  have fresh := fresh_ofConfig made_heldLoop
  have written := pass_play [.write (.putJob "a" heldItem.policies),
    .write (.putJob "b" heldItem.policies)] fresh (by simp [Command.submits])
  have taken : Run passRule heldLoop _ (some (.worker 1)) pairedLoop :=
    (written.command (c := .evaluate) rfl rfl).amid lets 25 (by decide +kernel)
  have crossed := ((taken.pause (by decide +kernel)).choose (a := .evaluation 1)
    (by decide +kernel) trivial).pause (by decide +kernel)
  exact ⟨_, crossed.settle lets, ready_settle _, by decide +kernel, by decide +kernel,
    by decide +kernel⟩

end Autoscaling.Machine
