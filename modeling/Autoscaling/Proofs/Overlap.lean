import Autoscaling.Proofs.Drain
import Autoscaling.Proofs.Machine.Gate
import Autoscaling.Proofs.Occupancy
import Mathlib.Data.List.Perm.Subperm

namespace Autoscaling

def WorkItem.key (i : WorkItem) : String × Nat := (i.job, i.pass)

namespace Pass

variable {s : Machine} {stage next : Stage} {turn : Turn} {told : List Event}
  {reads : Nat} {accepted : List WorkItem}

structure Stage.Listed (reads : Nat) (accepted : List WorkItem) (stage : Stage) : Prop where
  number : ∀ p, stage.pass? = some p → p.number = reads
  nodup : (stage.entries.map (·.1)).Nodup
  fresh : ∀ i ∈ accepted, i.pass = reads → i.job ∉ stage.entries.map (·.1)
  item : ∀ i, stage.submits? = some i → i.pass = reads

theorem Stage.listed_opening : Stage.Listed reads accepted .opening :=
  ⟨nofun, .nil, fun _ _ _ => List.not_mem_nil, nofun⟩

theorem Stage.Listed.freeStage (listed : stage.Listed reads accepted) :
    (Machine.freeStage stage).Listed reads accepted := by
  cases stage with
  | held => exact ⟨listed.number, listed.nodup, listed.fresh, nofun⟩
  | _ => exact listed

theorem Leads.listed (leads : Leads s stage turn told) (goesOn : turn.next? = some next)
    (early : ∀ i ∈ accepted, i.pass ≤ s.reads) (listed : stage.Listed s.reads accepted) :
    next.Listed (s.reads + told.count .read) (accepted ++ marked .accepted told) := by
  rcases leads.next_cases goesOn with ⟨rfl, _, rfl, rfl⟩ | ⟨_, suffix, number, unread⟩
  · -- The pass has just read, and nothing accepted bears its number yet.
    refine ⟨fun p eq => by cases eq; rfl, s.store.nodup_keys, fun i mem same => ?_, nofun⟩
    have := early i (by simpa [Event.marked?, Event.mark?] using mem)
    simp at same
    omega
  · rw [List.count_eq_zero.2 unread, Nat.add_zero]
    have jobs := suffix.map (·.1)
    constructor
    case number =>
      intro p eq
      rw [eq] at number
      obtain ⟨q, eq, same⟩ := Option.map_eq_some_iff.1 number.symm
      exact same.symm.trans (listed.number q eq)
    case nodup => exact listed.nodup.sublist jobs.sublist
    case fresh =>
      intro i mem same
      rcases List.mem_append.1 mem with old | new
      · exact fun job => listed.fresh i old same (jobs.subset job)
      · rcases leads.accepted_cases with none | ⟨p, j, entered, rfl, rfl, rfl⟩
        · rw [none] at new
          cases new
        · cases goesOn
          rw [List.mem_singleton.1 new]
          exact (List.nodup_cons.1 listed.nodup).1
    case item =>
      intro i submits
      rcases leads.item_cases goesOn submits with before | ⟨p, c, pass, _, _, rfl⟩
      · exact listed.item i before
      · exact listed.number p pass

end Pass

theorem Pool.length_held_le (p : Pool) : (p.held .underway).length ≤ p.executing := by
  unfold held executing
  rw [List.length_filterMap_eq_countP]
  refine List.countP_mono_left fun x _ holds => ?_
  cases x with
  | evaluating => rfl
  | _ => cases holds

namespace Machine

variable {s s' start : Machine} {turn : Option Agent} {cs : List Command} {told : List Event}

structure Numbered (s : Machine) : Prop where
  owner : ∀ c, (s.call c).ofOwner = true
  listed : ∀ c stage, (s.call c).stage? = some stage →
    stage.Listed s.reads (marked .accepted s.history)
  early : ∀ i ∈ marked .accepted s.history, i.pass ≤ s.reads
  once : ((marked .accepted s.history).map WorkItem.key).Nodup

namespace Numbered

theorem march (numbered : s.Numbered) (marches : Marches s told s') : s'.Numbered := by
  have item {c : Nat} {p : Pass} {i : WorkItem} {entered : Bool}
      (stage : (s.call c).stage? = some (.submitting p i entered)) :
      i.pass = s.reads ∧ ∀ j ∈ marked .accepted s.history, j.key ≠ i.key := by
    have listed := numbered.listed c _ stage
    have now := listed.item i rfl
    refine ⟨now, fun j mem same => ?_⟩
    obtain ⟨job, pass⟩ := Prod.mk.inj same
    exact listed.fresh j mem (pass.trans now) (by simp [Pass.Stage.entries, job])
  constructor
  case owner => exact marches.owner
  case listed =>
    intro c next stands
    rw [marches.accepted_history, marches.tale.reads]
    rcases marches.stages c next stands with rfl | ⟨stage, turn, before, leads, goesOn⟩ |
      ⟨before, unread, none⟩
    · exact Pass.Stage.listed_opening
    · exact leads.listed goesOn numbered.early (numbered.listed c stage before)
    · rw [List.count_eq_zero.2 unread, none, List.append_nil, Nat.add_zero]
      exact numbered.listed c next before
  case early =>
    intro i mem
    rw [marches.accepted_history, List.mem_append] at mem
    have grows : s.reads ≤ s'.reads := by
      rw [marches.tale.reads]
      exact Nat.le_add_right ..
    refine Nat.le_trans ?_ grows
    rcases mem with old | new
    · exact numbered.early i old
    · obtain ⟨c, p, entered, stage⟩ := marches.submitting new
      exact Nat.le_of_eq (item stage).1
  case once =>
    rw [marches.accepted_history, List.map_append]
    rcases marches.accepted with none | ⟨c, p, j, entered, stage, rfl⟩
    · rw [none, List.map_nil, List.append_nil]
      exact numbered.once
    · refine List.nodup_append.2 ⟨numbered.once, List.nodup_singleton _, fun k mem l new => ?_⟩
      obtain ⟨i, accepted, rfl⟩ := List.mem_map.1 mem
      rw [List.mem_singleton.1 new]
      exact (item stage).2 i accepted

theorem of_eq (numbered : s.Numbered) (owner : ∀ c, (s'.call c).ofOwner = true)
    (lingers : Lingers s s') (reads : s'.reads = s.reads) (history : s'.history = s.history) :
    s'.Numbered := by
  constructor
  case owner => exact owner
  case listed =>
    intro c next stands
    rw [reads, history]
    rcases lingers c next stands with rfl | ⟨stage, before, rfl | rfl⟩
    · exact Pass.Stage.listed_opening
    · exact numbered.listed c _ before
    · exact (numbered.listed c _ before).freeStage
  case early =>
    rw [reads, history]
    exact numbered.early
  case once =>
    rw [history]
    exact numbered.once

end Numbered

def Command.submits : Command → Bool
  | .submit _ => true
  | _ => false

/-- Only passes give items to the pool; all else may be told at any time, in any order of turns. -/
def passRule : Rule where
  comes _ c := c.submits = false

theorem pass_play (cs : List Command) (fresh : start.Fresh)
    (ofPasses : ∀ c ∈ cs, c.submits = false) :
    Run passRule start (cs.filter (·.isInstant)) none (start.play cs).1 :=
  Run.start.play (fun _ _ _ => trivial) fresh.punctual fresh.ready
    fun _ _ c _ _ mem _ => ofPasses c mem

theorem ofOwner_apply (owner : ∀ c, (s.call c).ofOwner = true) {k : Command}
    (instant : k.isInstant = true) (may : k.submits = false) (c : Nat) :
    ((s.apply k).call c).ofOwner = true := by
  rcases call_apply s instant c with same | freed | ⟨_, _, own | ⟨items, rfl⟩⟩
  · rw [same]
    exact owner c
  · have := owner c
    rw [freed]
    cases call : s.call c <;> rw [call] at this <;> first | rfl | cases this
  · exact own
  · cases may

theorem Run.numbered (run : Run passRule start cs turn s) (fresh : start.Fresh) :
    s.Numbered := by
  induction run with
  | start =>
    have returned (c : Nat) : start.call c = .returned := by simp [call, fresh.calls]
    have none : start.history = [] := by simp [history, fresh.journal]
    refine ⟨fun c => by rw [returned]; rfl, fun c stage stands => ?_, ?_, ?_⟩
    · rw [returned] at stands
      cases stands
    · simp [none]
    · simp [none]
  | @command _ s k run may instant ih =>
    have journal := (journal_apply s instant).1
    exact ih.of_eq (ofOwner_apply ih.owner instant may) (lingers_apply s instant)
      (spares_apply s instant).reads (by rw [history, journal, history])
  | elapse _ _ _ _ ih | choose _ _ _ ih => exact ⟨ih.owner, ih.listed, ih.early, ih.once⟩
  | move run _ ih | pause run _ ih =>
    obtain ⟨_, _, act⟩ := run.act fresh
    obtain ⟨_, marches⟩ := (run.gated fresh).marches ih.owner act run.head_of_turn
    exact ih.march marches

structure OncePerPass (threads : Nat) (s : Machine) : Prop where
  once : ((marked .started s.history).map WorkItem.key).Nodup
  underway : (marked .started s.history).Perm
    (marked .finished s.history ++ marked .panicked s.history ++ s.pool.held .underway)
  apart : ((s.pool.held .underway).map WorkItem.key).Nodup
  few : (s.pool.held .underway).length ≤ threads

theorem capacity_ofConfig {c : Config} {timed : Bool} {scenario : Scenario}
    (made : ofConfig c timed scenario = .made start) :
    start.pool.capacity = c.scalingThreads.toNat := by
  unfold ofConfig at made
  split at made
  · cases made
  · split at made
    · next pool create =>
      cases made
      rw [pool_of_create create]
    · cases made
    · cases made

/-- Evaluations of one job overlap only if different passes have asked for them. -/
theorem Run.oncePerPass {c : Config} {timed : Bool} {scenario : Scenario}
    (made : ofConfig c timed scenario = .made start) (run : Run passRule start cs turn s) :
    OncePerPass c.scalingThreads.toNat s := by
  have fresh := fresh_ofConfig made
  have steady := run.steady fresh
  have once : ((marked .started s.history).map WorkItem.key).Nodup := by
    have begun : (marked .started s.history).Subperm (marked .accepted s.history) :=
      List.subperm_iff_count.2 fun i => by
        have := steady.ledger.begun_le i
        simp only [marked_itemEvents] at this
        omega
    obtain ⟨l, perm, sub⟩ := begun
    exact (perm.map _).nodup_iff.1 ((run.numbered fresh).once.sublist (sub.map _))
  have underway : (marked .started s.history).Perm
      (marked .finished s.history ++ marked .panicked s.history ++ s.pool.held .underway) := by
    rw [List.perm_iff_count]
    intro i
    have := steady.ledger.ends i
    simp only [marked_itemEvents, List.count_append] at *
    omega
  refine ⟨once, underway, ?_, ?_⟩
  · have all := (underway.map WorkItem.key).nodup_iff.1 once
    rw [List.map_append] at all
    exact all.of_append_right
  · refine Nat.le_trans (Pool.length_held_le s.pool) ?_
    refine Nat.le_trans (Pool.executing_le_live steady.sound) ?_
    rw [← capacity_ofConfig made, ← (run.capacity fresh).1]
    exact steady.sound.live_le

theorem oncePerPass_heldLoop :
    marked .started (heldLoop.play [.write (.putJob "a" heldItem.policies), .evaluate,
      .evaluate]).1.history = [{ heldItem with pass := 1 }, { heldItem with pass := 2 }] ∧
    OncePerPass 3 (heldLoop.play [.write (.putJob "a" heldItem.policies), .evaluate,
      .evaluate]).1 := by
  have run := pass_play [.write (.putJob "a" heldItem.policies), .evaluate, .evaluate]
    (fresh_ofConfig made_heldLoop) (by simp [Command.submits])
  exact ⟨by decide +kernel, run.oncePerPass made_heldLoop⟩

/-- Nothing keeps the evaluations of one job apart when they outlast their passes. -/
theorem overlaps_heldLoop :
    Run passRule heldLoop [.write (.putJob "a" heldItem.policies), .evaluate, .evaluate] none
      (heldLoop.play [.write (.putJob "a" heldItem.policies), .evaluate, .evaluate]).1 ∧
    1 < ((heldLoop.play [.write (.putJob "a" heldItem.policies), .evaluate,
      .evaluate]).1.pool.held .underway).countP (·.job = "a") :=
  ⟨pass_play [.write (.putJob "a" heldItem.policies), .evaluate, .evaluate]
    (fresh_ofConfig made_heldLoop) (by simp [Command.submits]), by decide +kernel⟩

end Machine

end Autoscaling
