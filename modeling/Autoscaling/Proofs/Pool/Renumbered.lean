import Autoscaling.Pool.Line
import Mathlib.Data.List.Basic

namespace Autoscaling

variable {g : Nat → Nat}

def WorkItem.renumber (g : Nat → Nat) (i : WorkItem) : WorkItem := { i with pass := g i.pass }

theorem WorkItem.renumber_injective (inj : Function.Injective g) :
    Function.Injective (renumber g) := by
  rintro ⟨job, policies, n⟩ ⟨job', policies', n'⟩ same
  simp only [renumber, mk.injEq] at same
  rw [same.1, same.2.1, inj same.2.2]

namespace Pool

def Submission.renumber (g : Nat → Nat) (s : Submission) : Submission :=
  { s with item := s.item.renumber g }

theorem Submission.renumber_injective (inj : Function.Injective g) :
    Function.Injective (renumber g) := by
  rintro ⟨c, i, stage⟩ ⟨c', i', stage'⟩ same
  simp only [renumber, mk.injEq] at same
  rw [same.1, WorkItem.renumber_injective inj same.2.1, same.2.2]

def Worker.renumber (g : Nat → Nat) : Worker → Worker
  | .holding i => .holding (i.renumber g)
  | .evaluating i progress => .evaluating (i.renumber g) progress
  | .finished i => .finished (i.renumber g)
  | .resting => .resting
  | .idle deadline => .idle deadline
  | .exited => .exited

theorem Worker.renumber_eq_exited {x : Worker} : x.renumber g = .exited ↔ x = .exited := by
  cases x <;> simp [renumber]

def Reception.renumber (g : Nat → Nat) : Reception → Reception
  | .item i => .item (i.renumber g)
  | .leaves => .leaves
  | .nothing => .nothing

end Pool

def Pool.renumber (g : Nat → Nat) (p : Pool) : Pool :=
  { p with
    submissions := p.submissions.map (·.renumber g)
    queue := p.queue.map (·.renumber g)
    workers := p.workers.map (·.renumber g) }

namespace Pool

variable {p : Pool} {s : Submission} {i : WorkItem} {c w now deadline : Nat}

@[simp]
theorem released_renumber (g : Nat → Nat) (p : Pool) : (p.renumber g).released = p.released := rfl

@[simp]
theorem free_renumber (g : Nat → Nat) (p : Pool) : (p.renumber g).free = p.free := rfl

@[simp]
theorem expiry_renumber (g : Nat → Nat) (p : Pool) : (p.renumber g).expiry = p.expiry := rfl

@[simp]
theorem idle_renumber (g : Nat → Nat) (p : Pool) : (p.renumber g).idle = p.idle := rfl

@[simp]
theorem queue_renumber (g : Nat → Nat) (p : Pool) :
    (p.renumber g).queue = p.queue.map (·.renumber g) := rfl

@[simp]
theorem Submission.stage_renumber (g : Nat → Nat) (s : Submission) :
    (s.renumber g).stage = s.stage := rfl

theorem worker_renumber (g : Nat → Nat) (p : Pool) (w : Nat) :
    (p.renumber g).worker w = (p.worker w).renumber g := by
  simp only [worker, renumber, List.getD_eq_getElem?_getD, List.getElem?_map]
  cases p.workers[w]? <;> rfl

theorem exited_renumber (g : Nat → Nat) (p : Pool) (w : Nat) :
    (p.renumber g).worker w = .exited ↔ p.worker w = .exited := by
  rw [worker_renumber, Worker.renumber_eq_exited]

theorem closed_renumber (g : Nat → Nat) (p : Pool) : (p.renumber g).closed = p.closed := by
  simp [closed, renumber]

theorem submission?_renumber (g : Nat → Nat) (p : Pool) (c : Nat) :
    (p.renumber g).submission? c = (p.submission? c).map (·.renumber g) :=
  List.find?_map ..

theorem setWorker_renumber (g : Nat → Nat) (p : Pool) (w : Nat) (x : Worker) :
    (p.renumber g).setWorker w (x.renumber g) = (p.setWorker w x).renumber g := by
  simp only [setWorker, renumber, List.map_set]

theorem grantFirst_renumber (g : Nat → Nat) (l : List Submission) :
    grantFirst (l.map (·.renumber g)) =
      (grantFirst l).map fun (c, l) => (c, l.map (·.renumber g)) := by
  induction l with
  | nil => rfl
  | cons s l ih =>
    simp only [List.map_cons, grantFirst, ih, Submission.stage_renumber]
    split
    · rfl
    · cases grantFirst l <;> rfl

theorem freeSlot_renumber (g : Nat → Nat) (p : Pool) :
    (p.renumber g).freeSlot = (p.freeSlot.1.renumber g, p.freeSlot.2) := by
  have first : (if (p.renumber g).released then none else grantFirst (p.renumber g).submissions) =
      (if p.released then none else grantFirst p.submissions).map
        fun (c, l) => (c, l.map (·.renumber g)) := by
    simp only [renumber, grantFirst_renumber]
    split <;> rfl
  unfold freeSlot
  rw [first]
  cases (if p.released then none else grantFirst p.submissions) <;> rfl

theorem complete_renumber (g : Nat → Nat) (p : Pool) (w : Nat) :
    (p.renumber g).complete w = ((p.complete w).1.renumber g, (p.complete w).2) := by
  have rests := setWorker_renumber g p w .resting
  rw [Worker.renumber] at rests
  rw [complete, rests, freeSlot_renumber]
  rfl

theorem map_replace {α : Type} [DecidableEq α] {f : α → α} (inj : Function.Injective f)
    (l : List α) (x y : α) : (l.replace x y).map f = (l.map f).replace (f x) (f y) := by
  induction l with
  | nil => rfl
  | cons z l ih =>
    by_cases eq : x = z
    · simp [eq]
    · rw [List.replace_cons, List.map_cons, List.replace_cons, beq_false_of_ne eq,
        beq_false_of_ne (inj.ne eq), List.map_cons, ih]

theorem setStage_renumber (inj : Function.Injective g) (p : Pool) (s : Submission)
    (stage : Stage) :
    (p.renumber g).setStage (s.renumber g) stage = (p.setStage s stage).renumber g := by
  simp only [setStage, renumber, map_replace (Submission.renumber_injective inj)]
  rfl

theorem leave_renumber (inj : Function.Injective g) (p : Pool) (s : Submission) :
    (p.renumber g).leave (s.renumber g) = ((p.leave s).1.renumber g, (p.leave s).2) := by
  have erases : ({ p.renumber g with
      submissions := (p.renumber g).submissions.erase (s.renumber g) } : Pool) =
        { p with submissions := p.submissions.erase s }.renumber g := by
    simp only [renumber, List.map_erase (Submission.renumber_injective inj)]
  simp only [leave, erases, closed_renumber]
  rfl

theorem enter_renumber (g : Nat → Nat) (p : Pool) (c : Nat) (i : WorkItem) :
    (p.renumber g).enter c (i.renumber g) = ((p.enter c i).1.renumber g, (p.enter c i).2) := by
  unfold enter
  rw [released_renumber, free_renumber]
  repeat' split
  all_goals simp [renumber, Submission.renumber]

theorem spawnIfNeeded_renumber (g : Nat → Nat) (p : Pool) :
    (p.renumber g).spawnIfNeeded = (p.spawnIfNeeded.1.renumber g, p.spawnIfNeeded.2) := by
  have needed : ((p.renumber g).released || (p.renumber g).inFlight ≤ (p.renumber g).live ||
      (p.renumber g).capacity ≤ (p.renumber g).live) =
        (p.released || p.inFlight ≤ p.live || p.capacity ≤ p.live) := rfl
  have length : (p.renumber g).workers.length = p.workers.length := by simp [renumber]
  simp only [spawnIfNeeded, needed, length, ne_eq, exited_renumber]
  split
  · rfl
  · simp [renumber, Worker.renumber]

theorem proceed_renumber (inj : Function.Injective g) (p : Pool) (s : Submission) :
    (p.renumber g).proceed (s.renumber g) = ((p.proceed s).1.renumber g, (p.proceed s).2) := by
  unfold proceed
  rw [Submission.stage_renumber, released_renumber]
  cases s.stage with
  | waiting =>
    dsimp only
    rw [leave_renumber inj]
    split <;> rfl
  | granted =>
    dsimp only
    rw [freeSlot_renumber, leave_renumber inj, setStage_renumber inj]
    split <;> rfl
  | holding =>
    dsimp only
    rw [setStage_renumber inj]
    simp [renumber, Submission.renumber, firstIdle]
  | queued =>
    dsimp only
    rw [spawnIfNeeded_renumber, leave_renumber inj]

theorem submit_renumber (inj : Function.Injective g) (p : Pool) (c : Nat) (i : WorkItem)
    (entered : Bool) :
    (p.renumber g).submit c (i.renumber g) entered =
      ((p.submit c i entered).1.renumber g, (p.submit c i entered).2) := by
  unfold submit
  split
  · rw [submission?_renumber]
    cases p.submission? c with
    | none => rfl
    | some s => exact proceed_renumber inj p s
  · rw [enter_renumber]

theorem release_renumber (g : Nat → Nat) (p : Pool) :
    (p.renumber g).release = (p.release.1.renumber g, p.release.2) := by
  have inLine : ((p.renumber g).submissions.filter (·.stage = .waiting)).map
      (Agent.caller ·.caller) =
        (p.submissions.filter (·.stage = .waiting)).map (Agent.caller ·.caller) := by
    simp [renumber, List.filter_map, Function.comp_def, Submission.renumber]
  have shut : ({ p.renumber g with released := true, handles := [] } : Pool) =
      ({ p with released := true, handles := [] } : Pool).renumber g := rfl
  simp only [release, released_renumber, inLine, shut, closed_renumber]
  split <;> rfl

theorem listen_renumber (g : Nat → Nat) (p : Pool) (w now : Nat) :
    (p.renumber g).listen w now = (p.listen w now).renumber g := by
  have waits := setWorker_renumber g p w (.idle (now + p.expiry))
  rw [Worker.renumber] at waits
  simp only [listen, expiry_renumber, waits]
  rfl

theorem leaveLine_renumber (g : Nat → Nat) (p : Pool) (w : Nat) :
    (p.renumber g).leaveLine w = ((p.leaveLine w).1.renumber g, (p.leaveLine w).2) := rfl

theorem exit_renumber (g : Nat → Nat) (p : Pool) (w : Nat) :
    (p.renumber g).exit w = (p.exit w).renumber g := by
  have exits := setWorker_renumber g p w .exited
  rw [Worker.renumber] at exits
  simp only [exit, exits]
  rfl

theorem reception_renumber (g : Nat → Nat) (p : Pool) (w now deadline : Nat) :
    (p.renumber g).reception w now deadline = (p.reception w now deadline).renumber g := by
  unfold reception
  rw [idle_renumber, queue_renumber, closed_renumber]
  generalize (p.idle.head? == some w) = first
  generalize (p.idle.erase w).isEmpty = last
  generalize p.closed = shut
  by_cases due : deadline ≤ now <;> cases first <;> cases last <;> cases shut <;>
    cases p.queue <;> simp [Reception.renumber, due]

theorem receive_renumber (g : Nat → Nat) (p : Pool) (w now deadline : Nat) :
    (p.renumber g).receive w now deadline =
      ((p.receive w now deadline).1.renumber g, (p.receive w now deadline).2.1,
        (p.receive w now deadline).2.2.renumber g) := by
  unfold receive
  rw [reception_renumber]
  cases p.reception w now deadline with
  | item i =>
    have holds := setWorker_renumber g (p.leaveLine w).1 w (.holding i)
    rw [Worker.renumber] at holds
    simp only [Reception.renumber, leaveLine_renumber, holds]
    simp [renumber]
  | leaves => simp only [Reception.renumber, leaveLine_renumber, exit_renumber]
  | nothing => rfl

theorem dispatch_renumber (g : Nat → Nat) (p : Pool) (w : Nat) (i : WorkItem)
    (shutdown : Bool) :
    (p.renumber g).dispatch w (i.renumber g) shutdown =
      ((p.dispatch w i shutdown).1.renumber g, (p.dispatch w i shutdown).2) := by
  have reason : reason? (i.renumber g) shutdown = reason? i shutdown := rfl
  have begins := setWorker_renumber g p w (.evaluating i .spawned)
  rw [Worker.renumber] at begins
  unfold dispatch
  rw [reason]
  cases reason? i shutdown with
  | some r => simp only [complete_renumber]
  | none => simp only [begins]

end Pool

end Autoscaling
