import Autoscaling.Proofs.Machine.Steady

namespace Autoscaling

namespace Pool

theorem countP_workers (p : Pool) (q : Worker → Bool) :
    p.workers.countP q = (List.range p.workers.length).countP fun w => q (p.worker w) := by
  have workers : p.workers = (List.range p.workers.length).map p.worker :=
    List.ext_getElem (by simp) fun w lt _ => by simp [worker, lt]
  conv => lhs; rw [workers, List.countP_map]
  rfl

def executing (p : Pool) : Nat := p.workers.countP (·.isEvaluating)

variable {p : Pool}

theorem executing_le_countP_hasItem (p : Pool) : p.executing ≤ p.workers.countP (·.hasItem) :=
  List.countP_mono_left fun x _ h => by cases x <;> first | rfl | cases h

theorem executing_le_live (sound : p.Sound) : p.executing ≤ p.live := by
  rw [sound.live_eq, countP_isLive]
  exact Nat.le_trans (executing_le_countP_hasItem p) (Nat.le_add_left ..)

theorem queue_add_executing_le (sound : p.Sound) : p.queue.length + p.executing ≤ p.inFlight := by
  have := sound.inFlight_eq
  have := executing_le_countP_hasItem p
  omega

theorem queue_lt_capacity (sound : p.Sound) {s : Submission} (mem : s ∈ p.submissions)
    (holds : s.stage = .holding) : p.queue.length < p.capacity := by
  have := sound.slots
  have : 0 < p.submissions.countP (·.stage.hasSlot) :=
    List.countP_pos_iff.2 ⟨s, mem, by rw [holds]; rfl⟩
  omega

theorem Move.capacity {p' : Pool} (h : Move now shutdown p a woken events p') :
    p'.capacity = p.capacity ∧ p'.expiry = p.expiry := by
  cases h with
  | @drop w | @complete w =>
    obtain ⟨_, _, eq⟩ := freeSlot_fst (p.setWorker w .resting)
    rw [Pool.complete, eq]
    exact ⟨rfl, rfl⟩
  | release =>
    rw [release_fst]
    exact ⟨rfl, rfl⟩
  | _ => exact ⟨rfl, rfl⟩

end Pool

namespace Machine

variable {s start : Machine} {turn : Option Agent} {cs : List Command}
  {rule : Rule}

namespace Steady

theorem not_summons (steady : Steady turn s) (settled : s.ready = []) (b : Agent) :
    ¬ s.pool.Summons b := by
  intro summons
  have mem := steady.awake b (.inl summons)
  rw [settled] at mem
  cases mem

theorem held_of_settled (steady : Steady turn s) (settled : s.ready = []) {k : Pool.Hand}
    (other : k ≠ .underway) : s.pool.held k = [] := by
  refine List.filterMap_eq_nil_iff.2 fun x mem => ?_
  obtain ⟨w, rfl⟩ := Pool.exists_worker mem
  have rests := steady.not_summons settled (.worker w)
  have still := steady.not_summons settled (.evaluation w)
  simp only [Pool.Summons] at rests still
  cases worker : s.pool.worker w with
  | holding i => simp [worker] at rests
  | evaluating i x =>
    cases x with
    | spawned => simp [worker] at still
    | _ => cases k <;> first | rfl | exact absurd rfl other
  | _ => cases k <;> rfl

theorem waiting_of_settled (steady : Steady turn s) (settled : s.ready = [])
    {t : Pool.Submission} (mem : t ∈ s.pool.submissions) :
    t.stage = .waiting ∧ s.pool.released = false := by
  have rests := steady.not_summons settled (.caller t.caller)
  refine ⟨Decidable.not_not.1 fun moves => rests ⟨t, mem, rfl, .inl moves⟩, ?_⟩
  exact Bool.not_eq_true _ ▸ fun released => rests ⟨t, mem, rfl, .inr released⟩

theorem isEvaluating_of_settled (steady : Steady turn s) (settled : s.ready = []) (w : Nat)
    (h : (s.pool.worker w).hasItem = true) : (s.pool.worker w).isEvaluating = true := by
  have rests := steady.not_summons settled (.worker w)
  simp only [Pool.Summons] at rests
  cases eq : s.pool.worker w <;> simp_all [Pool.Worker.hasItem, Pool.Worker.isEvaluating]

theorem executing_of_settled (steady : Steady turn s) (settled : s.ready = []) :
    s.pool.executing = s.pool.workers.countP (·.hasItem) := by
  refine Nat.le_antisymm (Pool.executing_le_countP_hasItem _) (List.countP_mono_left ?_)
  intro x mem item
  obtain ⟨w, rfl⟩ := Pool.exists_worker mem
  exact steady.isEvaluating_of_settled settled w item

theorem inFlight_of_settled (steady : Steady turn s) (settled : s.ready = []) :
    s.pool.queue.length + s.pool.executing = s.pool.inFlight := by
  have none : s.pool.submissions.countP (·.stage.hasSlot) = 0 :=
    List.countP_eq_zero.2 fun t mem => by
      simp [(steady.waiting_of_settled settled mem).1, Pool.Stage.hasSlot]
  have := steady.sound.inFlight_eq
  have := steady.executing_of_settled settled
  omega

end Steady

theorem Run.capacity (run : Run rule start cs turn s) (fresh : start.Fresh) :
    s.pool.capacity = start.pool.capacity ∧ s.pool.expiry = start.pool.expiry := by
  induction run with
  | start => exact ⟨rfl, rfl⟩
  | command run _ instant ih =>
    obtain ⟨_, move⟩ := (run.steady fresh).move_apply instant
    have same := move.capacity
    exact ⟨same.1.trans ih.1, same.2.trans ih.2⟩
  | elapse _ _ _ _ ih => exact ih
  | choose _ _ _ ih => exact ih
  | move run _ ih | pause run _ ih =>
    obtain ⟨_, _, act⟩ := run.act fresh
    have same := act.pool.capacity
    exact ⟨same.1.trans ih.1, same.2.trans ih.2⟩

structure WithinBounds (capacity : Nat) (s : Machine) : Prop where
  executing_le : s.pool.executing ≤ s.pool.live
  live_le : s.pool.live ≤ capacity
  slots_le : s.pool.queue.length + s.pool.executing ≤ s.pool.inFlight
  inFlight_le : s.pool.inFlight ≤ capacity
  settled : s.ready = [] → s.pool.queue.length + s.pool.executing = s.pool.inFlight
  live_eq : s.pool.live = s.pool.workers.countP (· ≠ .exited)
  live_pos : ∀ w, s.pool.worker w ≠ .exited → 0 < s.pool.live
  room : ∀ t ∈ s.pool.submissions, t.stage = .holding → s.pool.queue.length < capacity

/-- No run of a pool uses more than the pool has. -/
theorem Run.withinBounds {capacity expiry : Nat} {scenario : Scenario}
    (made : ofPool capacity expiry scenario = .made start)
    (run : Run poolRule start cs turn s) : WithinBounds capacity s := by
  have fresh := fresh_ofPool made
  have steady := run.steady fresh
  have sound := steady.sound
  have capacity_eq : s.pool.capacity = capacity := by
    rw [(run.capacity fresh).1, pool_ofPool made]
  constructor
  case executing_le => exact Pool.executing_le_live sound
  case live_le => exact capacity_eq ▸ sound.live_le
  case slots_le => exact Pool.queue_add_executing_le sound
  case inFlight_le =>
    rw [← capacity_eq]
    exact Nat.sub_le ..
  case settled => exact steady.inFlight_of_settled
  case live_eq =>
    rw [sound.live_eq]
    congr 1
    funext x
    cases x <;> rfl
  case live_pos => exact fun w => sound.live_pos_of_worker
  case room =>
    intro t mem holds
    rw [← capacity_eq]
    exact Pool.queue_lt_capacity sound mem holds

theorem withinBounds_heldUp :
    (heldUp.play [.submit [heldItem, heldItem]]).1.pool.executing = 1 ∧
      (heldUp.play [.submit [heldItem, heldItem]]).1.pool.submissions.length = 1 ∧
      WithinBounds 1 (heldUp.play [.submit [heldItem, heldItem]]).1 := by
  have made : ofPool 1 100 heldUp.scenario = .made heldUp := rfl
  have run := run_play [.submit [heldItem, heldItem]] (fresh_ofPool made)
    (by simp [Command.isOfPool])
  exact ⟨rfl, rfl, run.withinBounds made⟩

end Machine

end Autoscaling
