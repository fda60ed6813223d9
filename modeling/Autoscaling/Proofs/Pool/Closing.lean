import Autoscaling.Proofs.Occupancy

namespace Autoscaling.Pool

variable {p p' : Pool} {a : Agent} {woken : List Agent} {events : List Event} {t : Submission}

def Handled (p : Pool) : Prop := p.released = true → p.handles = []

theorem Move.handled (h : Move now shutdown p a woken events p') (handled : p.Handled) :
    p'.Handled := by
  intro released
  cases h with
  | drop | complete =>
    obtain ⟨_, _, eq⟩ := freeSlot_fst (p.setWorker _ .resting)
    rw [Pool.complete, eq] at released ⊢
    exact handled released
  | hire _ _ running => exact absurd (running.symm.trans released) (by simp)
  | release =>
    rw [release_fst]
  | _ => exact handled released

structure Closes (p : Pool) (events : List Event) (p' : Pool) : Prop where
  released : p'.released = true
  live : p'.live ≤ p.live
  free : p.free ≤ p'.free
  accepted : marked .accepted events = []

theorem Move.closes (h : Move now shutdown p a woken events p') (timely : p.Timely)
    (released : p.released = true) : Closes p events p' := by
  have down {q : Prop} (running : p.released = false) : q :=
    absurd (running.symm.trans released) (by simp)
  cases h with
  | drop | complete =>
    rcases freeSlot_cases (p.setWorker _ .resting) with ⟨_, _, _, running, _⟩ | ⟨_, free⟩
    · exact down running
    · rw [Pool.complete, free]
      exact ⟨released, Nat.le_refl _, Nat.le_succ _, rfl⟩
  | depart => exact ⟨released, Nat.sub_le .., Nat.le_refl _, rfl⟩
  | enter running | queue running | obtain _ _ running | hire _ _ running => exact down running
  | accept mem queued => exact down (timely _ mem (by rw [queued]; rfl))
  | giveBack => exact ⟨released, Nat.le_refl _, Nat.le_succ _, rfl⟩
  | @progress _ _ x | @finish _ _ x =>
    exact ⟨released, Nat.le_refl _, Nat.le_refl _, by cases x <;> rfl⟩
  | release =>
    rw [release_fst]
    exact ⟨rfl, Nat.le_refl _, Nat.le_refl _, rfl⟩
  | _ => exact ⟨released, Nat.le_refl _, Nat.le_refl _, rfl⟩

theorem Closes.inFlight (closes : Closes p events p') (capacity : p'.capacity = p.capacity) :
    p'.inFlight ≤ p.inFlight := by
  unfold Pool.inFlight
  rw [capacity]
  exact Nat.sub_le_sub_left closes.free _

theorem Move.exits {w : Nat} (h : Move now shutdown p a woken events p')
    (lives : p.worker w ≠ .exited) (gone : p'.worker w = .exited) :
    a = .worker w ∧ events = [] ∧ ∃ d, p.worker w = .idle d := by
  have stays {x : Worker} (set : p'.worker w = x) (ne : x ≠ .exited) : False :=
    ne (set.symm.trans gone)
  rcases h.worker_cases w with same | ⟨rfl, _⟩ | ⟨_, i, ⟨x, eq⟩ | eq⟩ | ⟨before, _⟩
  · exact absurd (same.symm.trans gone) lives
  · cases h with
    | stay => exact absurd gone lives
    | depart waits => exact ⟨rfl, rfl, _, waits⟩
    | listen rests =>
      exact (stays (worker_setWorker rests (by simp) _ w) (by simp)).elim
    | @take _ _ i _ waits =>
      have set := worker_setWorker (p := (p.leaveLine w).1) waits (by simp) (.holding i) w
      exact (stays set (by simp)).elim
    | drop busy | complete busy =>
      rw [Pool.complete, worker_freeSlot, worker_setWorker busy (by simp), if_pos rfl] at gone
      cases gone
    | begin busy =>
      rw [worker_setWorker busy (by simp), if_pos rfl] at gone
      cases gone
  · exact (stays eq (by simp)).elim
  · exact (stays eq (by simp)).elim
  · exact absurd before lives

def Ungranted (p : Pool) : Prop := ∀ t ∈ p.submissions, t.stage ≠ .granted

theorem Move.granted_cases (h : Move now shutdown p a woken events p') (mem : t ∈ p'.submissions)
    (granted : t.stage = .granted) :
    t ∈ p.submissions ∨ p.released = false ∧ ∃ w, a = .worker w ∧ p'.worker w = .resting := by
  have replaced {s : Submission} {stage : Stage} (own : s ∈ p.submissions)
      (other : stage ≠ .granted) (mem : t ∈ (p.setStage s stage).submissions) :
      t ∈ p.submissions := by
    obtain ⟨l₁, l₂, eq, replaced⟩ := exists_replace_eq (t := { s with stage }) own
    simp only [setStage, replaced, List.mem_append, List.mem_cons] at mem
    rw [eq, List.mem_append, List.mem_cons]
    rcases mem with mem | rfl | mem
    · exact .inl mem
    · exact absurd granted other
    · exact .inr (.inr mem)
  have added {s : Submission} (other : s.stage ≠ .granted)
      (mem : t ∈ p.submissions ++ [s]) : t ∈ p.submissions := by
    refine (List.mem_append.1 mem).resolve_right fun mem => other ?_
    rwa [← List.mem_singleton.1 mem]
  have done {w : Nat} {x : Worker} (busy : p.worker w = x) (ne : x ≠ .exited)
      (mem : t ∈ (p.complete w).1.submissions) : t ∈ p.submissions ∨
        p.released = false ∧ ∃ v, Agent.worker w = .worker v ∧
          (p.complete w).1.worker v = .resting := by
    have rests : (p.complete w).1.worker w = .resting := by
      rw [Pool.complete, worker_freeSlot, worker_setWorker busy ne, if_pos rfl]
    rcases freeSlot_cases (p.setWorker w .resting) with ⟨_, _, _, running, _⟩ | ⟨_, free⟩
    · exact .inr ⟨running, w, rfl, rests⟩
    · rw [Pool.complete, free] at mem
      exact .inl mem
  cases h with
  | drop holds => exact done holds (by simp) mem
  | complete ended => exact done ended (by simp) mem
  | enter | queue => exact .inl (added (by simp) mem)
  | giveUp | giveBack | accept | hire => exact .inl (List.mem_of_mem_erase mem)
  | obtain own => exact .inl (replaced own (by simp) mem)
  | send own => exact .inl (replaced own (by simp) mem)
  | release =>
    rw [release_fst] at mem
    exact .inl mem
  | _ => exact .inl mem

theorem Move.ungranted (h : Move now shutdown p a woken events p') (none : p.Ungranted)
    (released : p.released = true) : p'.Ungranted := by
  intro t mem granted
  rcases h.granted_cases mem granted with mem | ⟨running, _⟩
  · exact none t mem granted
  · exact absurd (running.symm.trans released) (by simp)

def Attending (now : Nat) (p : Pool) : Prop :=
  ∃ w, p.worker w ≠ .exited ∧ ∀ d, p.worker w = .idle d → now < d

theorem Move.attending (h : Move now shutdown p a woken events p') (expiry : 0 < p.expiry)
    (mem : t ∈ p.submissions) (attending : p.Attending now) : p'.Attending now := by
  obtain ⟨w, lives, early⟩ := attending
  have opened : p.closed = false := by
    simp [closed, List.ne_nil_of_mem mem]
  have goesOn (v : Nat) (x : Worker) (set : p'.worker v = x) (ne : x ≠ .exited)
      (soon : ∀ d, x = .idle d → now < d) : p'.Attending now :=
    ⟨v, by rwa [set], fun d waits => soon d (set.symm.trans waits)⟩
  rcases h.worker_cases w with same | ⟨rfl, other⟩ | ⟨_, i, ⟨x, eq⟩ | eq⟩ | ⟨gone, _⟩
  · exact ⟨w, by rwa [same], fun d waits => early d (same ▸ waits)⟩
  · cases h with
    | stay => exact ⟨w, lives, early⟩
    | listen rests =>
      refine goesOn w (.idle (now + p.expiry)) ?_ (by simp) fun d eq => ?_
      · exact (worker_setWorker rests (by simp) _ w).trans (if_pos rfl)
      · cases eq
        omega
    | @take _ _ i _ waits =>
      refine goesOn w (.holding i) ?_ (by simp) (by simp)
      exact (worker_setWorker (p := (p.leaveLine w).1) waits (by simp) _ w).trans (if_pos rfl)
    | @depart _ d waits reason =>
      have soon := early d waits
      simp [opened] at reason
      omega
    | drop busy | complete busy =>
      refine goesOn w .resting ?_ (by simp) (by simp)
      rw [Pool.complete, worker_freeSlot, worker_setWorker busy (by simp), if_pos rfl]
    | @begin _ i busy =>
      refine goesOn w (.evaluating i .spawned) ?_ (by simp) (by simp)
      rw [worker_setWorker busy (by simp), if_pos rfl]
  · exact goesOn w _ eq (by simp) (by simp)
  · exact goesOn w _ eq (by simp) (by simp)
  · exact absurd gone lives

/-- Slots are handed out while somebody attends to them. -/
def Tended (now : Nat) (p : Pool) : Prop := p.Ungranted ∨ p.Attending now

theorem Move.tended (h : Move now shutdown p a woken events p') (expiry : 0 < p.expiry)
    (tended : p.Tended now) : p'.Tended now := by
  by_cases none : p'.Ungranted
  · exact .inl none
  · right
    simp only [Ungranted, not_forall, Decidable.not_not] at none
    obtain ⟨t, mem, granted⟩ := none
    rcases h.granted_cases mem granted with mem | ⟨_, w, _, rests⟩
    · exact h.attending expiry mem (tended.resolve_left fun none => none t mem granted)
    · exact ⟨w, by simp [rests], by simp [rests]⟩

end Autoscaling.Pool
