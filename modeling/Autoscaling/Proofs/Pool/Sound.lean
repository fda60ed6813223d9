import Autoscaling.Proofs.Pool.Move

namespace Autoscaling.Pool

def Stage.hasSlot : Stage → Bool
  | .granted | .holding => true
  | _ => false

structure Sound (p : Pool) : Prop where
  line : ∀ w, w ∈ p.idle ↔ ∃ d, p.worker w = .idle d
  once : p.idle.Nodup
  live_eq : p.live = p.workers.countP (·.isLive)
  live_le : p.live ≤ p.capacity
  slots : p.free + p.queue.length + p.workers.countP (·.hasItem) +
    p.submissions.countP (·.stage.hasSlot) = p.capacity
  full : ∀ s ∈ p.submissions, s.stage = .waiting → p.released = false → p.free = 0
  callers : (p.submissions.map (·.caller)).Nodup
  joined : ∀ w, p.worker w ≠ .exited → p.released = false → w ∈ p.handles

theorem sound_fresh (capacity expiry : Nat) : Sound { capacity, expiry, free := capacity } := by
  constructor <;> simp [worker]

namespace Sound

variable {p : Pool} {w : Nat} {x y : Worker} {s : Submission}

theorem ne_exited_of_hasItem (h : x.hasItem = true) : x ≠ .exited := by
  rintro rfl
  cases h

theorem isLive_of_ne_exited (ne : x ≠ .exited) : x.isLive = true := by
  cases x <;> first | rfl | contradiction

theorem eq_of_caller (sound : p.Sound) (mem : s ∈ p.submissions) (mem' : t ∈ p.submissions)
    (eq : s.caller = t.caller) : s = t :=
  List.inj_on_of_nodup_map sound.callers mem mem' eq

theorem joined_set (sound : p.Sound) (h : p.worker w = x) (ne : x ≠ .exited) (y : Worker)
    (v : Nat) (lives : (p.setWorker w y).worker v ≠ .exited) (running : p.released = false) :
    v ∈ p.handles := by
  rw [worker_setWorker h ne] at lives
  split at lives
  · next eq => exact sound.joined v (by rw [eq, h]; exact ne) running
  · exact sound.joined v lives running

theorem setWorker (sound : p.Sound) (h : p.worker w = x) (item : x.hasItem = true)
    (item' : y.hasItem = true) : (p.setWorker w y).Sound := by
  have ne := ne_exited_of_hasItem item
  have live := countP_setWorker h ne y (·.isLive)
  have items := countP_setWorker h ne y (·.hasItem)
  rw [isLive_of_ne_exited ne, isLive_of_ne_exited (ne_exited_of_hasItem item')] at live
  rw [item, item'] at items
  constructor
  case line =>
    intro v
    rw [worker_setWorker h ne]
    refine (sound.line v).trans ?_
    split
    · next eq =>
      subst eq
      rw [h]
      cases x <;> cases y <;> simp_all [Worker.hasItem]
    · rfl
  case once => exact sound.once
  case live_eq =>
    have := sound.live_eq
    simp only [Pool.setWorker]
    omega
  case live_le => exact sound.live_le
  case slots =>
    have := sound.slots
    simp only [Pool.setWorker]
    omega
  case full => exact sound.full
  case callers => exact sound.callers
  case joined => exact sound.joined_set h ne y

theorem listen (sound : p.Sound) (rests : p.worker w = .resting) (now : Nat) :
    (p.listen w now).Sound := by
  have ne : Worker.resting ≠ .exited := by simp
  have new : w ∉ p.idle := by
    rw [sound.line, rests]
    simp
  refine { sound with
    line := ?line, once := ?once, live_eq := ?live_eq, slots := ?slots
    joined := sound.joined_set rests ne _ }
  case line =>
    intro v
    change v ∈ p.idle ++ [w] ↔ ∃ d, (p.setWorker w _).worker v = .idle d
    rw [worker_setWorker rests ne, List.mem_append, List.mem_singleton]
    split
    · next eq => simp [eq]
    · next other => simp [other, sound.line]
  case once =>
    change (p.idle ++ [w]).Nodup
    rw [List.nodup_append_comm]
    exact List.nodup_cons.2 ⟨new, sound.once⟩
  case live_eq =>
    have live : _ + 1 = _ + 1 := countP_setWorker rests ne (.idle (now + p.expiry)) (·.isLive)
    exact sound.live_eq.trans (Nat.succ_inj.1 live).symm
  case slots =>
    have items : _ + 0 = _ + 0 := countP_setWorker rests ne (.idle (now + p.expiry)) (·.hasItem)
    have := sound.slots
    simp only [Pool.listen, Pool.setWorker]
    omega

theorem line_erase (sound : p.Sound) (h : p.worker w = x) (ne : x ≠ .exited)
    (other : ∀ d, y ≠ .idle d) (v : Nat) :
    v ∈ p.idle.erase w ↔ ∃ d, (p.setWorker w y).worker v = .idle d := by
  rw [worker_setWorker h ne, sound.once.mem_erase_iff]
  split
  · next eq => simp [eq, other]
  · next ne => simp [ne, sound.line]

theorem take (sound : p.Sound) (waits : p.worker w = .idle d) (queue : p.queue = i :: rest) :
    Sound { (p.leaveLine w).1.setWorker w (.holding i) with queue := rest } := by
  have ne : Worker.idle d ≠ .exited := by simp
  constructor
  case line => exact sound.line_erase waits ne (by simp)
  case once => exact sound.once.erase w
  case live_eq =>
    have live : _ + 1 = _ + 1 := countP_setWorker waits ne (.holding i) (·.isLive)
    exact sound.live_eq.trans (Nat.succ_inj.1 live).symm
  case live_le => exact sound.live_le
  case slots =>
    have items : _ + 0 = _ + 1 := countP_setWorker waits ne (.holding i) (·.hasItem)
    have := sound.slots
    rw [queue] at this
    simp only [leaveLine, Pool.setWorker, List.length_cons] at this ⊢
    omega
  case full => exact sound.full
  case callers => exact sound.callers
  case joined => exact sound.joined_set waits ne _

theorem depart (sound : p.Sound) (waits : p.worker w = .idle d) :
    Sound ((p.leaveLine w).1.exit w) := by
  have ne : Worker.idle d ≠ .exited := by simp
  have live : _ + 1 = _ + 0 := countP_setWorker waits ne .exited (·.isLive)
  constructor
  case line => exact sound.line_erase waits ne (by simp)
  case once => exact sound.once.erase w
  case live_eq =>
    have := sound.live_eq
    simp only [leaveLine, exit, Pool.setWorker]
    omega
  case live_le => exact Nat.le_trans (Nat.sub_le ..) sound.live_le
  case slots =>
    have items : _ + 0 = _ + 0 := countP_setWorker waits ne .exited (·.hasItem)
    have := sound.slots
    simp only [leaveLine, exit, Pool.setWorker]
    omega
  case full => exact sound.full
  case callers => exact sound.callers
  case joined => exact sound.joined_set waits ne _

theorem rest (sound : p.Sound) (h : p.worker w = x) (item : x.hasItem = true) {free : Nat}
    {submissions : List Submission}
    (slots : free + submissions.countP (·.stage.hasSlot) =
      p.free + p.submissions.countP (·.stage.hasSlot) + 1)
    (full : ∀ s ∈ submissions, s.stage = .waiting → p.released = false → free = 0)
    (callers : (submissions.map (·.caller)).Nodup) :
    Sound { p.setWorker w .resting with free, submissions } := by
  have ne := ne_exited_of_hasItem item
  refine { sound with
    line := ?line, live_eq := ?live_eq, slots := ?slots, full, callers
    joined := sound.joined_set h ne _ }
  case line =>
    intro v
    change v ∈ p.idle ↔ ∃ d, (p.setWorker w .resting).worker v = .idle d
    rw [worker_setWorker h ne]
    refine (sound.line v).trans ?_
    split
    · next eq =>
      subst eq
      rw [h]
      cases x <;> simp_all [Worker.hasItem]
    · rfl
  case live_eq =>
    have live := countP_setWorker h ne .resting (·.isLive)
    rw [isLive_of_ne_exited ne] at live
    exact sound.live_eq.trans (Nat.succ_inj.1 live).symm
  case slots =>
    have := sound.slots
    have items := countP_setWorker h ne .resting (·.hasItem)
    rw [item] at items
    change _ + 1 = _ + 0 at items
    simp only [Pool.setWorker]
    omega

theorem complete (sound : p.Sound) (h : p.worker w = x) (item : x.hasItem = true) :
    Sound (p.complete w).1 := by
  unfold Pool.complete
  rcases freeSlot_cases (p.setWorker w .resting) with
    ⟨l₁, s, l₂, running, waiting, eq, free⟩ | ⟨none, free⟩
  · change p.submissions = _ at eq
    have callers := sound.callers
    rw [free]
    refine sound.rest h item ?_ (fun _ _ _ running => ?_) ?_
    · simp only [eq, List.countP_append, List.countP_cons, waiting]
      change p.free + (_ + (_ + 1)) = p.free + (_ + (_ + 0)) + 1
      omega
    · exact sound.full s (by simp [eq]) waiting running
    · rw [eq] at callers
      simpa using callers
  · rw [free]
    refine sound.rest h item (Nat.add_right_comm ..) (fun t mem waits running => ?_) sound.callers
    rcases none with released | none
    · exact absurd (running.symm.trans released) (by simp)
    · exact absurd waits (none t mem)

theorem enter (sound : p.Sound) (free : 0 < p.free) (new : ∀ s ∈ p.submissions, s.caller ≠ c) :
    Sound { p with free := p.free - 1, submissions := p.submissions ++ [⟨c, i, .holding⟩] } := by
  refine { sound with slots := ?slots, full := ?full, callers := ?callers }
  case slots =>
    have := sound.slots
    simp only [List.countP_append, List.countP_singleton]
    change _ + (_ + 1) = _
    omega
  case full =>
    intro s mem waits running
    rcases List.mem_append.1 mem with mem | mem
    · rw [sound.full s mem waits running]
    · rw [List.mem_singleton.1 mem] at waits
      cases waits
  case callers =>
    rw [List.map_append, List.nodup_append_comm]
    exact List.nodup_cons.2 ⟨by simpa using new, sound.callers⟩

theorem queue (sound : p.Sound) (full : p.free = 0) (new : ∀ s ∈ p.submissions, s.caller ≠ c) :
    Sound { p with submissions := p.submissions ++ [⟨c, i, .waiting⟩] } := by
  refine { sound with slots := ?slots, full := ?full, callers := ?callers }
  case slots =>
    have := sound.slots
    simp only [List.countP_append, List.countP_singleton]
    exact this
  case full => exact fun _ _ _ _ => full
  case callers =>
    rw [List.map_append, List.nodup_append_comm]
    exact List.nodup_cons.2 ⟨by simpa using new, sound.callers⟩

theorem leave (sound : p.Sound) (mem : s ∈ p.submissions) (none : s.stage.hasSlot = false) :
    Sound (p.leave s).1 := by
  obtain ⟨l₁, l₂, _, eq, erased⟩ := List.exists_erase_eq mem
  refine { sound with slots := ?slots, full := ?full, callers := ?callers }
  case slots =>
    have := sound.slots
    rw [eq] at this
    simp only [Pool.leave, erased, List.countP_append, List.countP_cons, none] at this ⊢
    exact this
  case full => exact fun t mem => sound.full t (List.mem_of_mem_erase mem)
  case callers => exact sound.callers.sublist (List.erase_sublist.map _)

theorem giveBack (sound : p.Sound) (mem : s ∈ p.submissions) (granted : s.stage.hasSlot = true)
    (released : p.released = true) : Sound (Pool.leave { p with free := p.free + 1 } s).1 := by
  obtain ⟨l₁, l₂, _, eq, erased⟩ := List.exists_erase_eq mem
  refine { sound with slots := ?slots, full := ?full, callers := ?callers }
  case slots =>
    have := sound.slots
    rw [eq] at this
    simp only [Pool.leave, erased, List.countP_append, List.countP_cons, granted] at this ⊢
    change _ + (_ + (_ + 1)) = _ at this
    omega
  case full => exact fun _ _ _ running => absurd (running.symm.trans released) (by simp)
  case callers => exact sound.callers.sublist (List.erase_sublist.map _)

theorem setStage (sound : p.Sound) (mem : s ∈ p.submissions) {stage : Stage}
    {queue : List WorkItem} (ne : stage ≠ .waiting)
    (moved : queue.length + stage.hasSlot.toNat = p.queue.length + s.stage.hasSlot.toNat) :
    Sound { p.setStage s stage with queue } := by
  obtain ⟨l₁, l₂, eq, replaced⟩ := exists_replace_eq (t := { s with stage }) mem
  refine { sound with slots := ?slots, full := ?full, callers := ?callers }
  case slots =>
    have := sound.slots
    rw [eq] at this
    simp only [Pool.setStage, replaced, List.countP_append, List.countP_cons] at this ⊢
    generalize stage.hasSlot = has, s.stage.hasSlot = had at *
    cases has <;> cases had <;> simp at this moved ⊢ <;> omega
  case full =>
    intro t mem waits running
    simp only [Pool.setStage, replaced, List.mem_append, List.mem_cons] at mem
    rcases mem with mem | rfl | mem
    · exact sound.full t (by simp [eq, mem]) waits running
    · exact absurd waits ne
    · exact sound.full t (by simp [eq, mem]) waits running
  case callers =>
    have := sound.callers
    simp only [Pool.setStage, replaced]
    rw [eq] at this
    simpa using this

theorem hire (sound : p.Sound) (room : p.live < p.capacity) : p.hire.Sound := by
  have worker (v : Nat) : p.hire.worker v = if v = p.workers.length then .resting else p.worker v :=
    worker_append_resting p v
  have gone : p.worker p.workers.length = .exited := by
    simp [Pool.worker, List.getD_eq_getElem?_getD]
  refine { sound with
    line := ?line, live_eq := ?live_eq, live_le := room, slots := ?slots, joined := ?joined }
  case line =>
    intro v
    rw [worker]
    refine (sound.line v).trans ?_
    split
    · next eq => simp [eq, gone]
    · rfl
  case live_eq =>
    simp only [Pool.hire, List.countP_append, List.countP_singleton]
    exact congrArg (· + 1) sound.live_eq
  case slots =>
    simp only [Pool.hire, List.countP_append, List.countP_singleton]
    exact sound.slots
  case joined =>
    intro v lives running
    rw [worker] at lives
    simp only [Pool.hire, List.mem_append, List.mem_singleton, List.mem_filter]
    split at lives
    · next eq => exact .inr eq
    · exact .inl ⟨sound.joined v lives running, decide_eq_true lives⟩

theorem release (sound : p.Sound) : p.release.1.Sound := by
  rw [release_fst]
  refine { sound with full := ?full, joined := ?joined }
  case full =>
    intro _ _ _ running
    cases running
  case joined =>
    intro _ _ running
    cases running

theorem move (sound : p.Sound) (h : Move now shutdown p a woken events p') : p'.Sound := by
  cases h with
  | stay => exact sound
  | listen rests => exact sound.listen rests now
  | take waits first queue => exact sound.take waits queue
  | depart waits => exact sound.depart waits
  | drop holds => exact sound.complete holds rfl
  | begin holds => exact sound.setWorker holds rfl rfl
  | complete ended => exact sound.complete ended rfl
  | progress runs => exact sound.setWorker runs rfl rfl
  | finish runs => exact sound.setWorker runs rfl rfl
  | panic runs => exact sound.setWorker runs rfl rfl
  | enter running free new => exact sound.enter free new
  | queue running full new => exact sound.queue full new
  | refuse => exact sound
  | giveUp mem waits => exact sound.leave mem (by rw [waits]; rfl)
  | giveBack mem granted released => exact sound.giveBack mem (by rw [granted]; rfl) released
  | obtain mem granted => exact sound.setStage mem (by simp) (by rw [granted]; rfl)
  | send mem holds => exact sound.setStage mem (by simp) (by rw [holds]; simp [Stage.hasSlot])
  | accept mem queued => exact sound.leave mem (by rw [queued]; rfl)
  | hire mem queued _ _ room => exact (sound.hire room).leave mem (by rw [queued]; rfl)
  | release => exact sound.release

theorem inFlight_eq (sound : p.Sound) :
    p.inFlight = p.queue.length + p.workers.countP (·.hasItem) +
      p.submissions.countP (·.stage.hasSlot) := by
  have := sound.slots
  unfold inFlight
  omega

theorem live_pos_of_worker (sound : p.Sound) (h : p.worker w ≠ .exited) : 0 < p.live := by
  rw [sound.live_eq]
  refine List.countP_pos_iff.2 ⟨p.worker w, ?_, isLive_of_ne_exited h⟩
  exact List.mem_of_getElem? (worker_eq_of_ne_exited rfl h)

end Sound

end Autoscaling.Pool
