import Autoscaling.Proofs.Pool.Sound

namespace Autoscaling.Pool

def Serves (p : Pool) (w : Nat) : Prop :=
  p.idle.head? = some w ∧ (p.queue ≠ [] ∨ p.closed = true)

def Summons (p : Pool) : Agent → Prop
  | .worker w =>
    match p.worker w with
    | .resting | .holding _ | .finished _ => True
    | .idle _ => p.Serves w
    | .evaluating .. | .exited => False
  | .evaluation w =>
    match p.worker w with
    | .evaluating _ .spawned | .evaluating _ .freed => True
    | _ => False
  | .caller c => ∃ s ∈ p.submissions, s.caller = c ∧ (s.stage ≠ .waiting ∨ p.released = true)

variable {p p' : Pool} {a : Agent} {woken : List Agent}

def Wakes (p : Pool) (a : Agent) (woken : List Agent) (p' : Pool) : Prop :=
  ∀ b, b ≠ a → p'.Summons b → p.Summons b ∨ b ∈ woken

theorem mem_firstIdle {w : Nat} : Agent.worker w ∈ p.firstIdle ↔ p.idle.head? = some w := by
  simp [firstIdle]

theorem wakes_of
    (worker : ∀ v, p'.worker v = p.worker v ∨
      ∀ b, b = .worker v ∨ b = .evaluation v → b ≠ a → p'.Summons b → b ∈ woken)
    (serves : ∀ v, .worker v ≠ a → p'.Serves v → p.Serves v ∨ .worker v ∈ woken)
    (caller : ∀ c, .caller c ≠ a → p'.Summons (.caller c) →
      p.Summons (.caller c) ∨ .caller c ∈ woken) :
    Wakes p a woken p' := by
  intro b other summons
  cases b with
  | worker v =>
    rcases worker v with eq | self
    · simp only [Summons, eq] at summons ⊢
      split at summons
      all_goals simp_all
    · exact .inr (self _ (.inl rfl) other summons)
  | evaluation v =>
    rcases worker v with eq | self
    · simp only [Summons, eq] at summons ⊢
      exact .inl summons
    · exact .inr (self _ (.inr rfl) other summons)
  | caller c => exact caller c other summons

theorem Wakes.trans {q r : Pool} {woken' : List Agent} (h : Wakes p a woken q)
    (h' : Wakes q a woken' r) : Wakes p a (woken ++ woken') r := by
  intro b other summons
  rcases h' b other summons with summons | mem
  · exact (h b other summons).imp_right (List.mem_append_left _)
  · exact .inr (List.mem_append_right _ mem)

theorem wakes_setWorker {w : Nat} {x y : Worker} (h : p.worker w = x) (ne : x ≠ .exited)
    (self : .worker w ≠ a → (p.setWorker w y).Summons (.worker w) → .worker w ∈ woken)
    (evaluation : .evaluation w ≠ a → (p.setWorker w y).Summons (.evaluation w) →
      .evaluation w ∈ woken) :
    Wakes p a woken (p.setWorker w y) := by
  refine wakes_of (fun v => ?_) (fun _ _ => .inl) fun _ _ => .inl
  by_cases eq : v = w
  · subst eq
    right
    rintro b (rfl | rfl)
    · exact self
    · exact evaluation
  · exact .inl (by rw [worker_setWorker h ne, if_neg eq])

theorem wakes_leaveLine {w : Nat} : Wakes p a (p.leaveLine w).2 (p.leaveLine w).1 := by
  refine wakes_of (fun _ => .inl rfl) (fun v _ serves => ?_) fun _ _ => .inl
  obtain ⟨first, something⟩ := serves
  change (p.idle.erase w).head? = some v at first
  by_cases head : p.idle.head? = some w
  · right
    simp [leaveLine, head, mem_firstIdle, first]
  · left
    refine ⟨?_, something⟩
    cases line : p.idle with
    | nil => simp [line] at first
    | cons u l =>
      have ne : u ≠ w := by simpa [line] using head
      simpa [line, List.erase_cons, ne] using first

theorem wakes_freeSlot : Wakes p a p.freeSlot.2 p.freeSlot.1 := by
  rcases freeSlot_cases p with ⟨l₁, s, l₂, running, waiting, eq, free⟩ | ⟨_, free⟩
  · rw [free]
    refine wakes_of (fun _ => .inl rfl) (fun v _ serves => .inl ?_) fun c _ summons => ?_
    · refine ⟨serves.1, serves.2.imp_right fun shut => ?_⟩
      simp [Pool.closed, running] at shut
    · obtain ⟨t, mem, rfl, reason⟩ := summons
      simp only [List.mem_append, List.mem_cons] at mem
      rcases mem with mem | rfl | mem
      · exact .inl ⟨t, by simp [eq, mem], rfl, reason⟩
      · exact .inr (by simp)
      · exact .inl ⟨t, by simp [eq, mem], rfl, reason⟩
  · rw [free]
    exact wakes_of (fun _ => .inl rfl) (fun _ _ => .inl) fun _ _ => .inl

theorem wakes_leave {s : Submission} : Wakes p a (p.leave s).2 (p.leave s).1 := by
  refine wakes_of (fun _ => .inl rfl) (fun v _ serves => ?_) fun c _ summons => .inl ?_
  · obtain ⟨first, something⟩ := serves
    rcases something with queued | closed
    · exact .inl ⟨first, .inl queued⟩
    · right
      simp only [leave] at closed ⊢
      rw [if_pos closed]
      exact mem_firstIdle.2 first
  · obtain ⟨t, mem, rest⟩ := summons
    exact ⟨t, List.mem_of_mem_erase mem, rest⟩

theorem wakes_setStage {s : Submission} {stage : Stage} (mem : s ∈ p.submissions) :
    Wakes p (.caller s.caller) [] (p.setStage s stage) := by
  obtain ⟨l₁, l₂, eq, replaced⟩ := exists_replace_eq (t := { s with stage }) mem
  refine wakes_of (fun _ => .inl rfl) (fun v _ serves => .inl ?_) fun c other summons => .inl ?_
  · refine ⟨serves.1, serves.2.imp_right fun shut => ?_⟩
    simp [Pool.closed, setStage, replaced] at shut
  · obtain ⟨t, mem, rfl, reason⟩ := summons
    simp only [setStage, replaced, List.mem_append, List.mem_cons] at mem
    rcases mem with mem | rfl | mem
    · exact ⟨t, by simp [eq, mem], rfl, reason⟩
    · contradiction
    · exact ⟨t, by simp [eq, mem], rfl, reason⟩

theorem wakes_enqueue (i : WorkItem) :
    Wakes p a p.firstIdle { p with queue := p.queue ++ [i] } :=
  wakes_of (fun _ => .inl rfl) (fun _ _ serves => .inr (mem_firstIdle.2 serves.1))
    fun _ _ => .inl

theorem wakes_hire : Wakes p a [.worker p.workers.length] p.hire := by
  refine wakes_of (fun v => ?_) (fun _ _ => .inl) fun _ _ => .inl
  have worker : p.hire.worker v = if v = p.workers.length then .resting else p.worker v :=
    worker_append_resting p v
  rw [worker]
  split
  · next eq =>
    right
    rintro b (rfl | rfl) _ summons
    · simp [eq]
    · simp only [Summons, worker, if_pos eq] at summons
  · exact .inl rfl

theorem wakes_enter {c : Nat} {i : WorkItem} {stage : Stage} {free : Nat} :
    Wakes p (.caller c) [] { p with free, submissions := p.submissions ++ [⟨c, i, stage⟩] } := by
  refine wakes_of (fun _ => .inl rfl) (fun v _ serves => .inl ?_) fun d other summons => .inl ?_
  · refine ⟨serves.1, serves.2.imp_right fun shut => ?_⟩
    simp [Pool.closed] at shut
  · obtain ⟨t, mem, rfl, reason⟩ := summons
    rcases List.mem_append.1 mem with mem | mem
    · exact ⟨t, mem, rfl, reason⟩
    · rw [List.mem_singleton.1 mem] at other
      contradiction

theorem wakes_release : Wakes p a p.release.2 p.release.1 := by
  unfold release
  dsimp only
  split
  · next released =>
    refine wakes_of (fun _ => .inl rfl) (fun v _ serves => .inl ?_) fun c _ summons => .inl ?_
    · simpa [Serves, Pool.closed, released] using serves
    · simpa [Summons, released] using summons
  · refine wakes_of (fun _ => .inl rfl) (fun v _ serves => ?_) fun c _ summons => ?_
    · obtain ⟨first, something⟩ := serves
      rcases something with queued | closed
      · exact .inl ⟨first, .inl queued⟩
      · right
        rw [if_pos closed]
        exact List.mem_append_right _ (mem_firstIdle.2 first)
    · obtain ⟨t, mem, rfl, _⟩ := summons
      by_cases waits : t.stage = .waiting
      · right
        exact List.mem_append_left _ (List.mem_map.2 ⟨t, List.mem_filter.2 ⟨mem, by simpa⟩, rfl⟩)
      · exact .inl ⟨t, mem, rfl, .inl waits⟩

theorem wakes_listen {w now : Nat} (rests : p.worker w = .resting) :
    Wakes p (.worker w) [] (p.listen w now) := by
  have ne : Worker.resting ≠ .exited := by simp
  have worker (v : Nat) : (p.listen w now).worker v =
      if v = w then .idle (now + p.expiry) else p.worker v := worker_setWorker rests ne _ v
  refine wakes_of (fun v => ?_) (fun v other serves => .inl ⟨?_, serves.2⟩) fun _ _ => .inl
  · by_cases eq : v = w
    · right
      rintro b (rfl | rfl) other summons
      · exact absurd (by rw [eq]) other
      · simp only [Summons, worker, if_pos eq] at summons
    · exact .inl (by rw [worker, if_neg eq])
  · have first : (p.idle ++ [w]).head? = some v := serves.1
    cases line : p.idle with
    | nil =>
      rw [line] at first
      exact absurd (congrArg Agent.worker (Option.some.inj first).symm) other
    | cons u l => simpa [line] using first

theorem wakes_take {w d : Nat} {i : WorkItem} {rest : List WorkItem}
    (waits : p.worker w = .idle d) (queue : p.queue = i :: rest) :
    Wakes p (.worker w) (p.leaveLine w).2
      { (p.leaveLine w).1.setWorker w (.holding i) with queue := rest } := by
  have ne : Worker.idle d ≠ .exited := by simp
  have set : Wakes (p.leaveLine w).1 (.worker w) []
      ((p.leaveLine w).1.setWorker w (.holding i)) := by
    refine wakes_setWorker waits ne (absurd rfl) fun _ summons => ?_
    simp only [Summons, worker_setWorker (p := (p.leaveLine w).1) waits ne, if_true] at summons
  have less (q : Pool) (longer : q.queue ≠ []) : Wakes q (.worker w) [] { q with queue := rest } :=
    wakes_of (fun _ => .inl rfl) (fun _ _ serves => .inl ⟨serves.1, .inl longer⟩) fun _ _ => .inl
  have longer : p.queue ≠ [] := by simp [queue]
  simpa using (wakes_leaveLine.trans set).trans (less _ longer)

theorem wakes_depart {w d : Nat} (waits : p.worker w = .idle d) :
    Wakes p (.worker w) (p.leaveLine w).2 ((p.leaveLine w).1.exit w) := by
  have ne : Worker.idle d ≠ .exited := by simp
  have set : Wakes (p.leaveLine w).1 (.worker w) [] ((p.leaveLine w).1.setWorker w .exited) := by
    refine wakes_setWorker waits ne (absurd rfl) fun _ summons => ?_
    simp only [Summons, worker_setWorker (p := (p.leaveLine w).1) waits ne, if_true] at summons
  have exits : Wakes p (.worker w) ((p.leaveLine w).2 ++ [])
      ((p.leaveLine w).1.setWorker w .exited) := wakes_leaveLine.trans set
  rw [List.append_nil] at exits
  exact exits

theorem wakes_complete {w : Nat} {x : Worker} (h : p.worker w = x) (ne : x ≠ .exited) :
    Wakes p (.worker w) (p.complete w).2 (p.complete w).1 := by
  have set : Wakes p (.worker w) [] (p.setWorker w .resting) := by
    refine wakes_setWorker h ne (absurd rfl) fun _ summons => ?_
    simp only [Summons, worker_setWorker h ne, if_true] at summons
  exact set.trans wakes_freeSlot

theorem Move.wakes (h : Move now shutdown p a woken events p') : Wakes p a woken p' := by
  cases h with
  | stay => exact fun _ _ => .inl
  | listen rests => exact wakes_listen rests
  | take waits first queue => exact wakes_take waits queue
  | depart waits => exact wakes_depart waits
  | drop holds => exact wakes_complete holds (by simp)
  | begin holds =>
    exact wakes_setWorker holds (by simp) (absurd rfl) fun _ _ => List.mem_singleton_self _
  | complete ended => exact wakes_complete ended (by simp)
  | progress runs =>
    refine wakes_setWorker runs (by simp) (fun _ summons => ?_) (absurd rfl)
    simp only [Summons, worker_setWorker runs (by simp), if_true] at summons
  | finish runs | panic runs =>
    exact wakes_setWorker runs (by simp) (fun _ _ => List.mem_singleton_self _) (absurd rfl)
  | enter => exact wakes_enter
  | queue => exact wakes_enter
  | refuse => exact fun _ _ => .inl
  | giveUp => exact wakes_leave
  | giveBack => exact wakes_leave (p := { p with free := p.free + 1 })
  | obtain mem => exact wakes_setStage mem
  | send mem => exact (wakes_setStage mem).trans (wakes_enqueue _)
  | accept => exact wakes_leave
  | hire => exact wakes_hire.trans wakes_leave
  | release => exact wakes_release

end Autoscaling.Pool
