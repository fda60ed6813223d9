import Autoscaling.Pool.Line

namespace Autoscaling

-- The zero that sums start from is the core library's.
attribute [local instance (20000)] Zero.ofOfNat0

namespace Pool

def Worker.work : Worker → Nat
  | .exited => 0
  | .idle _ => 3
  | .resting => 4
  | .finished _ => 5
  | .evaluating _ .spawned => 7
  | .evaluating _ _ => 6
  | .holding _ => 9

def Stage.work (released : Bool) : Stage → Nat
  | .waiting => if released then 2 else 21
  | .granted => 19
  | .holding => 18
  | .queued => 8

def handleWork (workers : List Worker) (w : Nat) : Nat :=
  if workers[w]? = some .exited then 1 else 2

def handlesWork (workers : List Worker) (handles : List Nat) : Nat :=
  (handles.map (handleWork workers)).sum

def submissionsWork (released : Bool) (l : List Submission) : Nat :=
  (l.map (·.stage.work released)).sum

def work (p : Pool) : Nat :=
  (p.workers.map Worker.work).sum + 8 * p.queue.length +
    submissionsWork p.released p.submissions + handlesWork p.workers p.handles

theorem sum_map_le {f g : α → Nat} (h : ∀ x, f x ≤ g x) (l : List α) :
    (l.map f).sum ≤ (l.map g).sum := by
  induction l with
  | nil => exact Nat.le_refl 0
  | cons x l ih => simpa using Nat.add_le_add (h x) ih

theorem sum_map_set_le {f : α → Nat} {d : α} (hd : f d = 0) (l : List α) (i : Nat) (x : α) :
    ((l.set i x).map f).sum + f (l.getD i d) ≤ (l.map f).sum + f x := by
  induction l generalizing i with
  | nil => simp [hd]
  | cons y l ih =>
    cases i with
    | zero => simp; omega
    | succ i => have := ih i; simp at this ⊢; omega

theorem sum_map_filter_le (f : α → Nat) (keep : α → Bool) (l : List α) :
    ((l.filter keep).map f).sum ≤ (l.map f).sum := by
  induction l with
  | nil => exact Nat.le_refl 0
  | cons x l ih => by_cases h : keep x <;> simp [h] <;> omega

/-- The move from `p` to `p'` spends so much work, and joining is no dearer after it. -/
structure Spends (p p' : Pool) (n : Nat) : Prop where
  work_le : p'.work + n ≤ p.work
  handleWork_le : ∀ w, handleWork p'.workers w ≤ handleWork p.workers w

theorem Spends.trans {p q r : Pool} (h : Spends p q m) (h' : Spends q r n) :
    Spends p r (m + n) :=
  ⟨by have := h.work_le; have := h'.work_le; omega,
    fun w => Nat.le_trans (h'.handleWork_le w) (h.handleWork_le w)⟩

theorem Spends.mono {p q : Pool} (h : Spends p q m) (le : n ≤ m) : Spends p q n :=
  ⟨by have := h.work_le; omega, h.handleWork_le⟩

theorem handlesWork_mono {workers workers' : List Worker}
    (h : ∀ w, handleWork workers' w ≤ handleWork workers w) (handles : List Nat) :
    handlesWork workers' handles ≤ handlesWork workers handles :=
  sum_map_le h handles

theorem handleWork_le_two (workers : List Worker) (w : Nat) : handleWork workers w ≤ 2 := by
  unfold handleWork
  split <;> omega

theorem handleWork_pos (workers : List Worker) (w : Nat) : 0 < handleWork workers w := by
  unfold handleWork
  split <;> omega

theorem worker_eq_of_ne_exited {p : Pool} {w : Nat} {x : Worker} (h : p.worker w = x)
    (ne : x ≠ .exited) : p.workers[w]? = some x := by
  unfold worker at h
  rw [List.getD_eq_getElem?_getD] at h
  cases hw : p.workers[w]? with
  | none => simp [hw] at h; exact absurd h.symm ne
  | some y => simp [hw] at h; rw [h]

theorem handleWork_eq_two {p : Pool} {w : Nat} {x : Worker} (h : p.worker w = x)
    (ne : x ≠ .exited) : handleWork p.workers w = 2 := by
  simp [handleWork, worker_eq_of_ne_exited h ne, ne]

theorem handleWork_set_le {p : Pool} {w : Nat} {x y : Worker} (h : p.worker w = x)
    (ne : x ≠ .exited) (v : Nat) :
    handleWork (p.workers.set w y) v ≤ handleWork p.workers v := by
  by_cases hv : v = w
  · subst hv
    rw [handleWork_eq_two h ne]
    exact handleWork_le_two ..
  · simp [handleWork, List.getElem?_set_ne (Ne.symm hv)]

theorem spends_setWorker {p : Pool} {w : Nat} {x y : Worker} (h : p.worker w = x)
    (ne : x ≠ .exited) (le : y.work + n ≤ x.work) : Spends p (p.setWorker w y) n := by
  refine ⟨?_, handleWork_set_le h ne⟩
  have workers := sum_map_set_le (f := Worker.work) (d := .exited) rfl p.workers w y
  have handles := handlesWork_mono (handleWork_set_le (y := y) h ne) p.handles
  have : p.workers.getD w .exited = x := h
  rw [this] at workers
  simp only [work, setWorker]
  omega

theorem spends_of_workers {p p' : Pool} (h : p'.workers = p.workers) (le : p'.work + n ≤ p.work) :
    Spends p p' n :=
  ⟨le, fun w => Nat.le_of_eq (by rw [h])⟩

theorem length_firstIdle_le (p : Pool) : p.firstIdle.length ≤ 1 := by
  unfold firstIdle
  cases p.idle.head? <;> simp

@[simp] theorem submissionsWork_cons (released : Bool) (s : Submission) (l : List Submission) :
    submissionsWork released (s :: l) = s.stage.work released + submissionsWork released l := by
  simp [submissionsWork]

theorem submissionsWork_erase {s : Submission} {l : List Submission} (released : Bool)
    (h : s ∈ l) :
    submissionsWork released (l.erase s) + s.stage.work released = submissionsWork released l := by
  have := ((List.perm_cons_erase h).map (·.stage.work released)).sum_nat
  simp only [submissionsWork, this, List.map_cons, List.sum_cons]
  omega

theorem submissionsWork_replace {s t : Submission} {l : List Submission} (released : Bool)
    (h : s ∈ l) :
    submissionsWork released (l.replace s t) + s.stage.work released =
      submissionsWork released l + t.stage.work released := by
  induction l with
  | nil => cases h
  | cons u l ih =>
    by_cases eq : s = u
    · subst eq
      simp [submissionsWork, List.replace_cons_self]
      omega
    · have := ih ((List.mem_cons.1 h).resolve_left eq)
      rw [List.replace_cons, beq_eq_false_iff_ne.2 eq]
      simp [submissionsWork] at this ⊢
      omega

theorem submissionsWork_grantFirst {l l' : List Submission} {c : Nat}
    (h : grantFirst l = some (c, l')) :
    submissionsWork false l' + 2 = submissionsWork false l := by
  induction l generalizing l' with
  | nil => cases h
  | cons s l ih =>
    simp only [grantFirst] at h
    split at h
    · next waiting =>
      cases h
      simp [submissionsWork, waiting, Stage.work]
      omega
    · obtain ⟨⟨c', l''⟩, eq, h⟩ := Option.map_eq_some_iff.1 h
      cases h
      have := ih eq
      simp [submissionsWork] at this ⊢
      omega

theorem spends_submissions {p : Pool} {l : List Submission}
    (le : submissionsWork p.released l + n ≤ submissionsWork p.released p.submissions) :
    Spends p { p with submissions := l } n := by
  refine spends_of_workers rfl ?_
  simp only [work]
  omega

theorem spends_freeSlot (p : Pool) : Spends p p.freeSlot.1 p.freeSlot.2.length := by
  unfold freeSlot
  split
  · next c l h =>
    split at h
    · contradiction
    · next released =>
      rw [Bool.not_eq_true] at released
      refine (spends_submissions (n := 2) (Nat.le_of_eq ?_)).mono (by simp)
      rw [released, submissionsWork_grantFirst h]
  · exact spends_of_workers rfl (Nat.le_refl _)

theorem spends_leave {p : Pool} {s : Submission} (h : s ∈ p.submissions) :
    Spends p (p.leave s).1 (s.stage.work p.released) :=
  spends_submissions (Nat.le_of_eq (submissionsWork_erase p.released h))

theorem length_leave_le (p : Pool) (s : Submission) : (p.leave s).2.length ≤ 1 := by
  simp only [leave]
  split
  · exact length_firstIdle_le _
  · exact Nat.zero_le _

theorem leave_eq_nil {p : Pool} (s : Submission) (h : p.released = false) :
    (p.leave s).2 = [] := by
  simp [leave, closed, h]

theorem spends_setStage {p : Pool} {s : Submission} {stage : Stage} (h : s ∈ p.submissions)
    (le : stage.work p.released + n ≤ s.stage.work p.released) :
    Spends p (p.setStage s stage) n := by
  have := submissionsWork_replace (t := { s with stage }) p.released h
  exact spends_submissions (by simp only at this; omega)

def Turn.entryWork : Turn → Nat
  | .goOn => 18
  | .wait => 21
  | .accepted | .refused => 0

theorem work_enter_le (p : Pool) (c : Nat) (item : WorkItem) :
    (p.enter c item).1.work ≤ p.work + (p.enter c item).2.entryWork := by
  unfold enter
  split
  · exact Nat.le_refl _
  · next released =>
    split
    all_goals
      simp [work, submissionsWork, Stage.work, Turn.entryWork, released]
      omega

theorem workers_enter (p : Pool) (c : Nat) (item : WorkItem) :
    (p.enter c item).1.workers = p.workers := by
  unfold enter
  split
  · rfl
  · split <;> rfl

theorem handleWork_append_resting (workers : List Worker) :
    handleWork (workers ++ [.resting]) = handleWork workers := by
  funext w
  rcases Nat.lt_trichotomy w workers.length with h | h | h
  · simp [handleWork, List.getElem?_append_left h]
  · simp [handleWork, h]
  · have : (workers ++ [Worker.resting]).length ≤ w := by simp; omega
    simp [handleWork, List.getElem?_eq_none this, List.getElem?_eq_none (Nat.le_of_lt h)]

theorem handleWork_spawnIfNeeded (p : Pool) :
    handleWork p.spawnIfNeeded.1.workers = handleWork p.workers := by
  unfold spawnIfNeeded
  split
  · rfl
  · exact handleWork_append_resting ..

theorem submissions_spawnIfNeeded (p : Pool) :
    p.spawnIfNeeded.1.submissions = p.submissions := by
  unfold spawnIfNeeded
  split <;> rfl

theorem released_spawnIfNeeded (p : Pool) : p.spawnIfNeeded.1.released = p.released := by
  unfold spawnIfNeeded
  split <;> rfl

theorem work_spawnIfNeeded_le (p : Pool) :
    p.spawnIfNeeded.1.work + p.spawnIfNeeded.2.length ≤ p.work + 7 := by
  unfold spawnIfNeeded
  split
  · exact Nat.le_add_right ..
  · have kept := sum_map_filter_le (handleWork p.workers) (p.worker · ≠ .exited) p.handles
    have new := handleWork_le_two p.workers p.workers.length
    simp [work, handlesWork, handleWork_append_resting, Worker.work] at kept ⊢
    omega

theorem spends_proceed {p : Pool} {s : Submission} (h : s ∈ p.submissions) :
    Spends p (p.proceed s).1
      ((p.proceed s).2.1.length + if (p.proceed s).2.2 = .goOn then 1 else 0) := by
  have leaves := length_leave_le p s
  unfold proceed
  split
  · next waiting =>
    split
    · next released =>
      refine (spends_leave h).mono ?_
      simp [waiting, Stage.work, released]
      omega
    · exact ⟨Nat.le_refl _, fun _ => Nat.le_refl _⟩
  · next granted =>
    split
    · next released =>
      have freed : p.freeSlot = ({ p with free := p.free + 1 }, []) := by simp [freeSlot, released]
      rw [freed]
      have := length_leave_le { p with free := p.free + 1 } s
      have free : Spends p { p with free := p.free + 1 } 0 :=
        spends_of_workers rfl (Nat.le_refl p.work)
      refine (free.trans (spends_leave h)).mono ?_
      simp [granted, Stage.work] at this ⊢
      omega
    · exact spends_setStage h (by simp [granted, Stage.work])
  · next holding =>
    have := length_firstIdle_le p
    have := submissionsWork_replace (t := { s with stage := .queued }) p.released h
    refine spends_of_workers rfl ?_
    simp [work, setStage, holding, Stage.work] at this ⊢
    omega
  · next queued =>
    have h' : s ∈ p.spawnIfNeeded.1.submissions := by rwa [submissions_spawnIfNeeded]
    have spawns := work_spawnIfNeeded_le p
    have leaves := spends_leave h'
    refine ⟨?_, fun w => ?_⟩
    · have := leaves.work_le
      have : (p.spawnIfNeeded.1.leave s).2.length = 0 ∨ p.spawnIfNeeded.2.length = 0 := by
        cases released : p.released with
        | false => exact .inl (by rw [leave_eq_nil s (by rwa [released_spawnIfNeeded])]; rfl)
        | true => exact .inr (by simp [spawnIfNeeded, released])
      have := length_leave_le p.spawnIfNeeded.1 s
      simp [queued, Stage.work] at *
      omega
    · exact Nat.le_trans (leaves.handleWork_le w)
        (Nat.le_of_eq (by rw [handleWork_spawnIfNeeded]))

theorem spends_submit_entered (p : Pool) (c : Nat) (item : WorkItem) :
    Spends p (p.submit c item true).1
      ((p.submit c item true).2.1.length +
        if (p.submit c item true).2.2 = .goOn then 1 else 0) := by
  unfold submit
  rw [if_pos rfl]
  split
  · next s h => exact spends_proceed (List.mem_of_find?_eq_some h)
  · exact ⟨Nat.le_refl _, fun _ => Nat.le_refl _⟩

theorem submissionsWork_release_le (l : List Submission) :
    submissionsWork true l + (l.filter (·.stage = .waiting)).length ≤ submissionsWork false l := by
  induction l with
  | nil => exact Nat.le_refl 0
  | cons s l ih =>
    cases h : s.stage <;> simp [Stage.work, h] <;> omega

theorem work_release_le (p : Pool) :
    p.release.1.work + p.release.2.length + handlesWork p.workers p.handles ≤ p.work + 1 := by
  unfold release
  split
  · next released =>
    simp [work, handlesWork, released]
  · next released =>
    rw [Bool.not_eq_true] at released
    have waiting := submissionsWork_release_le p.submissions
    have first := length_firstIdle_le { p with released := true, handles := [] }
    dsimp only
    split
    all_goals
      simp [work, handlesWork, released] at *
      omega

theorem workers_release (p : Pool) : p.release.1.workers = p.workers := by
  unfold release
  split <;> rfl

theorem spends_listen {p : Pool} {w : Nat} (now : Nat) (h : p.worker w = .resting) :
    Spends p (p.listen w now) 1 :=
  Spends.trans (n := 0) (spends_setWorker h (by simp) (Nat.le_refl _))
    (spends_of_workers rfl (Nat.le_refl _))

theorem length_leaveLine_le (p : Pool) (w : Nat) : (p.leaveLine w).2.length ≤ 1 := by
  simp only [leaveLine]
  split
  · exact length_firstIdle_le _
  · exact Nat.zero_le _

theorem queue_of_reception {p : Pool} {w now deadline : Nat} {i : WorkItem}
    (h : p.reception w now deadline = .item i) : ∃ rest, p.queue = i :: rest := by
  unfold reception at h
  grind

theorem spends_receive {p : Pool} {w deadline : Nat} (now : Nat) (h : p.worker w = .idle deadline) :
    Spends p (p.receive w now deadline).1
      ((p.receive w now deadline).2.1.length + match (p.receive w now deadline).2.2 with
        | .item _ => 1
        | .leaves => 2
        | .nothing => 0) := by
  have line := length_leaveLine_le p w
  cases r : p.reception w now deadline with
  | item i =>
    obtain ⟨rest, queue⟩ := queue_of_reception r
    have set := handleWork_set_le (y := .holding i) h (by simp)
    have workers := sum_map_set_le (f := Worker.work) (d := .exited) rfl p.workers w (.holding i)
    have handles := handlesWork_mono set p.handles
    have : p.workers.getD w .exited = .idle deadline := h
    rw [this] at workers
    simp only [receive, r]
    refine ⟨?_, set⟩
    simp [work, setWorker, leaveLine, queue, Worker.work] at *
    omega
  | leaves =>
    have set := spends_setWorker (y := .exited) (n := 3) h (by simp) (Nat.le_refl 3)
    simp only [receive, r]
    exact Spends.mono ⟨set.work_le, set.handleWork_le⟩ (by simpa using line)
  | nothing =>
    simp only [receive, r]
    exact ⟨Nat.le_refl _, fun _ => Nat.le_refl _⟩

theorem handleWork_receive_leaves {p : Pool} {w deadline : Nat} (now : Nat)
    (h : p.worker w = .idle deadline) (r : (p.receive w now deadline).2.2 = .leaves) :
    handleWork (p.receive w now deadline).1.workers w + 1 = handleWork p.workers w := by
  have old := worker_eq_of_ne_exited h (by simp)
  have lt : w < p.workers.length := (List.getElem?_eq_some_iff.1 old).1
  rw [handleWork_eq_two h (by simp)]
  cases r' : p.reception w now deadline with
  | leaves => simp [receive, r', exit, setWorker, leaveLine, handleWork, lt]
  | item i => simp [receive, r'] at r
  | nothing => simp [receive, r'] at r

theorem spends_complete {p : Pool} {w : Nat} {x : Worker} (h : p.worker w = x)
    (le : 5 ≤ x.work) : Spends p (p.complete w).1 ((p.complete w).2.length + 1) := by
  have ne : x ≠ .exited := by rintro rfl; contradiction
  rw [Nat.add_comm]
  exact (spends_setWorker h ne (y := .resting) (n := 1) le).trans (spends_freeSlot _)

theorem spends_dispatch {p : Pool} {w : Nat} {i : WorkItem} (shutdown : Bool)
    (h : p.worker w = .holding i) :
    Spends p (p.dispatch w i shutdown).1 ((p.dispatch w i shutdown).2.1.length + 1) := by
  unfold dispatch
  split
  · exact spends_complete h (Nat.le_add_right 5 4)
  · exact spends_setWorker h (by simp) (Nat.le_refl 9)

end Pool

end Autoscaling
