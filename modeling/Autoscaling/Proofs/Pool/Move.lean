import Mathlib.Data.List.Nodup
import Autoscaling.Machine.Step
import Autoscaling.Pool.Work

namespace Autoscaling.Pool

namespace Worker

def isLive : Worker → Bool
  | .exited => false
  | _ => true

def isSpare : Worker → Bool
  | .resting | .idle _ => true
  | _ => false

def isEvaluating : Worker → Bool
  | .evaluating .. => true
  | _ => false

def hasItem : Worker → Bool
  | .holding _ | .evaluating .. | .finished _ => true
  | _ => false

end Worker

theorem worker_setWorker {p : Pool} {w : Nat} {x : Worker} (h : p.worker w = x)
    (ne : x ≠ .exited) (y : Worker) (v : Nat) :
    (p.setWorker w y).worker v = if v = w then y else p.worker v := by
  obtain ⟨lt, _⟩ := List.getElem?_eq_some_iff.1 (worker_eq_of_ne_exited h ne)
  simp only [worker, setWorker, List.getD_eq_getElem?_getD, List.getElem?_set]
  split
  · next eq => simp [eq]
  · next other => rw [if_neg (Ne.symm other)]

theorem exists_worker {p : Pool} {x : Worker} (mem : x ∈ p.workers) : ∃ w, p.worker w = x := by
  obtain ⟨w, lt, rfl⟩ := List.getElem_of_mem mem
  exact ⟨w, by simp [worker, lt]⟩

theorem countP_setWorker {p : Pool} {w : Nat} {x : Worker} (h : p.worker w = x)
    (ne : x ≠ .exited) (y : Worker) (q : Worker → Bool) :
    (p.workers.set w y).countP q + (q x).toNat = p.workers.countP q + (q y).toNat := by
  obtain ⟨lt, eq⟩ := List.getElem?_eq_some_iff.1 (worker_eq_of_ne_exited h ne)
  have counted : q x = true → 0 < p.workers.countP q := fun holds =>
    List.countP_pos_iff.2 ⟨x, eq ▸ List.getElem_mem lt, holds⟩
  rw [List.countP_set lt, eq]
  cases hx : q x <;> cases hy : q y <;> simp_all

theorem worker_append_resting (p : Pool) (v : Nat) :
    (p.workers ++ [Worker.resting]).getD v .exited =
      if v = p.workers.length then .resting else p.worker v := by
  simp only [worker, List.getD_eq_getElem?_getD]
  rcases Nat.lt_trichotomy v p.workers.length with lt | eq | gt
  · rw [List.getElem?_append_left lt, if_neg (Nat.ne_of_lt lt)]
  · simp [eq]
  · rw [if_neg (Nat.ne_of_gt gt), List.getElem?_eq_none (by simp; omega),
      List.getElem?_eq_none (Nat.le_of_lt gt)]

theorem grantFirst_eq_some {l l' : List Submission} {c : Nat} (h : grantFirst l = some (c, l')) :
    ∃ l₁ s l₂, s.caller = c ∧ s.stage = .waiting ∧ l = l₁ ++ s :: l₂ ∧
      l' = l₁ ++ { s with stage := .granted } :: l₂ := by
  induction l generalizing l' with
  | nil => cases h
  | cons t l ih =>
    simp only [grantFirst] at h
    split at h
    · next waiting =>
      cases h
      exact ⟨[], t, l, rfl, waiting, rfl, rfl⟩
    · obtain ⟨⟨c', l''⟩, eq, h⟩ := Option.map_eq_some_iff.1 h
      cases h
      obtain ⟨l₁, s, l₂, caller, waiting, rfl, rfl⟩ := ih eq
      exact ⟨t :: l₁, s, l₂, caller, waiting, rfl, rfl⟩

theorem grantFirst_eq_none {l : List Submission} (h : grantFirst l = none) :
    ∀ s ∈ l, s.stage ≠ .waiting := by
  induction l with
  | nil => intro s mem; cases mem
  | cons t l ih =>
    simp only [grantFirst] at h
    split at h
    · cases h
    · next other =>
      intro s mem
      rcases List.mem_cons.1 mem with rfl | mem
      · exact other
      · exact ih (Option.map_eq_none_iff.1 h) s mem

theorem freeSlot_cases (p : Pool) :
    (∃ l₁ s l₂, p.released = false ∧ s.stage = .waiting ∧ p.submissions = l₁ ++ s :: l₂ ∧
      p.freeSlot = ({ p with submissions := l₁ ++ { s with stage := .granted } :: l₂ },
        [.caller s.caller])) ∨
    ((p.released = true ∨ ∀ s ∈ p.submissions, s.stage ≠ .waiting) ∧
      p.freeSlot = ({ p with free := p.free + 1 }, [])) := by
  unfold freeSlot
  split
  · next c l h =>
    split at h
    · cases h
    · next running =>
      obtain ⟨l₁, s, l₂, rfl, waiting, eq, rfl⟩ := grantFirst_eq_some h
      exact .inl ⟨l₁, s, l₂, by simpa using running, waiting, eq, rfl⟩
  · next h =>
    split at h
    · next released => exact .inr ⟨.inl released, rfl⟩
    · exact .inr ⟨.inr (grantFirst_eq_none h), rfl⟩

theorem freeSlot_fst (p : Pool) :
    ∃ free submissions, p.freeSlot.1 = { p with free, submissions } := by
  rcases freeSlot_cases p with ⟨_, _, _, _, _, _, free⟩ | ⟨_, free⟩ <;> rw [free] <;>
    exact ⟨_, _, rfl⟩

theorem worker_freeSlot (p : Pool) (v : Nat) : p.freeSlot.1.worker v = p.worker v := by
  obtain ⟨_, _, eq⟩ := freeSlot_fst p
  rw [eq]
  rfl

def hire (p : Pool) : Pool :=
  { p with
    live := p.live + 1
    workers := p.workers ++ [.resting]
    handles := p.handles.filter (p.worker · ≠ .exited) ++ [p.workers.length] }

theorem spawnIfNeeded_cases (p : Pool) :
    (p.spawnIfNeeded = (p, []) ∧
      (p.released = true ∨ p.inFlight ≤ p.live ∨ p.capacity ≤ p.live)) ∨
    (p.spawnIfNeeded = (p.hire, [.worker p.workers.length]) ∧
      p.released = false ∧ p.live < p.inFlight ∧ p.live < p.capacity) := by
  unfold spawnIfNeeded
  split
  · next enough =>
    exact .inl ⟨rfl, by simpa [or_assoc] using enough⟩
  · next missing =>
    refine .inr ⟨rfl, ?_⟩
    simpa [not_or, and_assoc] using missing

theorem release_fst (p : Pool) : p.release.1 = { p with released := true, handles := [] } := by
  unfold release
  dsimp only
  split <;> rfl

theorem exists_replace_eq {s t : Submission} {l : List Submission} (h : s ∈ l) :
    ∃ l₁ l₂, l = l₁ ++ s :: l₂ ∧ l.replace s t = l₁ ++ t :: l₂ := by
  induction l with
  | nil => cases h
  | cons u l ih =>
    by_cases eq : s = u
    · subst eq
      exact ⟨[], l, rfl, by simp⟩
    · obtain ⟨l₁, l₂, rfl, eq'⟩ := ih ((List.mem_cons.1 h).resolve_left eq)
      refine ⟨u :: l₁, l₂, rfl, ?_⟩
      rw [List.replace_cons, beq_eq_false_iff_ne.2 eq, eq']
      rfl

def Progress.beginning (i : WorkItem) : Progress → List Event
  | .spawned => [.started i]
  | _ => []

inductive Move (now : Nat) (shutdown : Bool) (p : Pool) :
    Agent → List Agent → List Event → Pool → Prop
  | stay : Move now shutdown p a [] [] p
  | listen (rests : p.worker w = .resting) :
      Move now shutdown p (.worker w) [] [] (p.listen w now)
  | take (waits : p.worker w = .idle d) (first : p.idle.head? = some w)
      (queue : p.queue = i :: rest) :
      Move now shutdown p (.worker w) (p.leaveLine w).2 [.taken i]
        { (p.leaveLine w).1.setWorker w (.holding i) with queue := rest }
  | depart (waits : p.worker w = .idle d)
      (reason : d ≤ now ∨ p.closed = true ∧ p.idle.head? = some w)
      (left : p.queue = [] ∨ p.idle.head? ≠ some w) :
      Move now shutdown p (.worker w) (p.leaveLine w).2 [] ((p.leaveLine w).1.exit w)
  | drop (holds : p.worker w = .holding i) (reason : reason? i shutdown = some r) :
      Move now shutdown p (.worker w) (p.complete w).2 [.dropped i r] (p.complete w).1
  | begin (holds : p.worker w = .holding i) (fit : reason? i shutdown = none) :
      Move now shutdown p (.worker w) [.evaluation w] [] (p.setWorker w (.evaluating i .spawned))
  | complete (ended : p.worker w = .finished i) :
      Move now shutdown p (.worker w) (p.complete w).2 [] (p.complete w).1
  | progress (runs : p.worker w = .evaluating i x) (later : y ≠ .spawned) :
      Move now shutdown p (.evaluation w) [] (x.beginning i) (p.setWorker w (.evaluating i y))
  | finish (runs : p.worker w = .evaluating i x) :
      Move now shutdown p (.evaluation w) [.worker w] (x.beginning i ++ [.finished i])
        (p.setWorker w (.finished i))
  | panic (runs : p.worker w = .evaluating i .spawned) :
      Move now shutdown p (.evaluation w) [.worker w] [.started i, .panicked i]
        (p.setWorker w (.finished i))
  | enter (running : p.released = false) (free : 0 < p.free)
      (new : ∀ s ∈ p.submissions, s.caller ≠ c) :
      Move now shutdown p (.caller c) [] []
        { p with free := p.free - 1, submissions := p.submissions ++ [⟨c, i, .holding⟩] }
  | queue (running : p.released = false) (full : p.free = 0)
      (new : ∀ s ∈ p.submissions, s.caller ≠ c) :
      Move now shutdown p (.caller c) [] []
        { p with submissions := p.submissions ++ [⟨c, i, .waiting⟩] }
  | refuse (released : p.released = true) :
      Move now shutdown p (.caller c) [] [.refused i] p
  | giveUp (mem : s ∈ p.submissions) (waits : s.stage = .waiting) (released : p.released = true) :
      Move now shutdown p (.caller s.caller) (p.leave s).2 [.refused s.item] (p.leave s).1
  | giveBack (mem : s ∈ p.submissions) (granted : s.stage = .granted)
      (released : p.released = true) :
      Move now shutdown p (.caller s.caller) (leave { p with free := p.free + 1 } s).2
        [.refused s.item] (leave { p with free := p.free + 1 } s).1
  | obtain (mem : s ∈ p.submissions) (granted : s.stage = .granted)
      (running : p.released = false) :
      Move now shutdown p (.caller s.caller) [] [] (p.setStage s .holding)
  | send (mem : s ∈ p.submissions) (holds : s.stage = .holding) :
      Move now shutdown p (.caller s.caller) p.firstIdle []
        { p.setStage s .queued with queue := p.queue ++ [s.item] }
  | accept (mem : s ∈ p.submissions) (queued : s.stage = .queued)
      (enough : p.released = true ∨ p.inFlight ≤ p.live ∨ p.capacity ≤ p.live) :
      Move now shutdown p (.caller s.caller) (p.leave s).2 [.accepted s.item] (p.leave s).1
  | hire (mem : s ∈ p.submissions) (queued : s.stage = .queued) (running : p.released = false)
      (few : p.live < p.inFlight) (room : p.live < p.capacity) :
      Move now shutdown p (.caller s.caller) (.worker p.workers.length :: (p.hire.leave s).2)
        [.accepted s.item] (p.hire.leave s).1
  | release (new : ∀ s ∈ p.submissions, s.caller ≠ c) :
      Move now shutdown p (.caller c) p.release.2 [] p.release.1

theorem Move.worker_cases {p' : Pool} (h : Move now shutdown p a woken events p') (v : Nat) :
    p'.worker v = p.worker v ∨
    (a = .worker v ∧ ∀ i x, p.worker v ≠ .evaluating i x) ∨
    (a = .evaluation v ∧
      ∃ i, (∃ x, p'.worker v = .evaluating i x) ∨ p'.worker v = .finished i) ∨
    (p.worker v = .exited ∧ p'.worker v = .resting) := by
  have set {w : Nat} {x : Worker} (eq : p.worker w = x) (ne : x ≠ .exited) (y : Worker) :
      (p.setWorker w y).worker v = p.worker v ∨ v = w ∧ (p.setWorker w y).worker v = y := by
    rw [worker_setWorker eq ne]
    split
    · next eq => exact .inr ⟨eq, rfl⟩
    · exact .inl rfl
  have own {w : Nat} {x : Worker} (eq : p.worker w = x) (ne : x ≠ .exited)
      (other : ∀ i z, x ≠ .evaluating i z) (y : Worker) :
      (p.setWorker w y).worker v = p.worker v ∨
        (Agent.worker w = .worker v ∧ ∀ i x, p.worker v ≠ .evaluating i x) := by
    rcases set eq ne y with same | ⟨rfl, _⟩
    · exact .inl same
    · exact .inr ⟨rfl, by rwa [eq]⟩
  cases h with
  | listen rests => exact (own rests (by simp) (by simp) _).imp_right .inl
  | take waits => exact (own waits (by simp) (by simp) (.holding _)).imp_right .inl
  | depart waits => exact (own waits (by simp) (by simp) .exited).imp_right .inl
  | drop holds =>
    rw [Pool.complete, worker_freeSlot]
    exact (own holds (by simp) (by simp) _).imp_right .inl
  | begin holds => exact (own holds (by simp) (by simp) _).imp_right .inl
  | complete ended =>
    rw [Pool.complete, worker_freeSlot]
    exact (own ended (by simp) (by simp) _).imp_right .inl
  | progress runs =>
    rcases set runs (by simp) _ with same | ⟨rfl, eq⟩
    · exact .inl same
    · exact .inr (.inr (.inl ⟨rfl, _, .inl ⟨_, eq⟩⟩))
  | finish runs | panic runs =>
    rcases set runs (by simp) _ with same | ⟨rfl, eq⟩
    · exact .inl same
    · exact .inr (.inr (.inl ⟨rfl, _, .inr eq⟩))
  | hire =>
    have new := worker_append_resting p v
    split at new
    · next eq =>
      have gone : p.worker v = .exited := by simp [worker, eq, List.getD_eq_getElem?_getD]
      exact .inr (.inr (.inr ⟨gone, new⟩))
    · exact .inl new
  | release =>
    rw [release_fst]
    exact .inl rfl
  | _ => exact .inl rfl

theorem evaluating_setWorker {p : Pool} {v w : Nat} {x y : Worker} {i : WorkItem} {z : Progress}
    (eq : p.worker w = x) (ne : x ≠ .exited)
    (runs : (p.setWorker w y).worker v = .evaluating i z) :
    p.worker v = .evaluating i z ∨ v = w ∧ y = .evaluating i z := by
  rw [worker_setWorker eq ne] at runs
  split at runs
  · next own => exact .inr ⟨own, runs⟩
  · exact .inl runs

theorem Move.evaluating_cases {p' : Pool} (h : Move now shutdown p a woken events p') {v : Nat}
    {i : WorkItem} {x : Progress} (runs : p'.worker v = .evaluating i x) :
    p.worker v = .evaluating i x ∨
    (a = .worker v ∧ x = .spawned ∧ reason? i shutdown = none) ∨
    (a = .evaluation v ∧ x ≠ .spawned ∧ ∃ y, p.worker v = .evaluating i y) := by
  have same {w : Nat} {z : Worker} (y : Worker) (eq : p.worker w = z) (ne : z ≠ .exited)
      (other : y ≠ .evaluating i x) (runs : (p.setWorker w y).worker v = .evaluating i x) :
      p.worker v = .evaluating i x :=
    (evaluating_setWorker eq ne runs).resolve_right fun own => other own.2
  cases h with
  | listen rests => exact .inl (same (.idle _) rests (by simp) (by simp) runs)
  | take waits => exact .inl (same (.holding _) waits (by simp) (by simp) runs)
  | depart waits => exact .inl (same .exited waits (by simp) (by simp) runs)
  | drop holds =>
    rw [Pool.complete, worker_freeSlot] at runs
    exact .inl (same .resting holds (by simp) (by simp) runs)
  | begin holds fit =>
    refine (evaluating_setWorker holds (by simp) runs).imp_right fun own => .inl ?_
    obtain ⟨rfl, eq⟩ := own
    cases eq
    exact ⟨rfl, rfl, fit⟩
  | complete ended =>
    rw [Pool.complete, worker_freeSlot] at runs
    exact .inl (same .resting ended (by simp) (by simp) runs)
  | progress before later =>
    refine (evaluating_setWorker before (by simp) runs).imp_right fun own => .inr ?_
    obtain ⟨rfl, eq⟩ := own
    cases eq
    exact ⟨rfl, later, _, before⟩
  | finish before | panic before => exact .inl (same (.finished _) before (by simp) (by simp) runs)
  | hire =>
    have new := worker_append_resting p v
    split at new
    · cases new.symm.trans runs
    · exact .inl (new.symm.trans runs)
  | release =>
    rw [release_fst] at runs
    exact .inl runs
  | _ => exact .inl runs

end Autoscaling.Pool
