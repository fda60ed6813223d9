import Autoscaling.Proofs.Pool.Ledger
import Autoscaling.Proofs.Pool.Summons

namespace Autoscaling.Pool

def Stage.isAmid : Stage → Bool
  | .holding | .queued => true
  | _ => false

def Busy (p : Pool) : Agent → Prop
  | .worker w => ∃ i, p.worker w = .holding i
  | .evaluation _ => False
  | .caller c => ∃ t ∈ p.submissions, t.caller = c ∧ t.stage.isAmid = true

variable {p p' : Pool} {a b : Agent} {s t : Submission}

theorem Busy.summons (h : p.Busy b) : p.Summons b := by
  cases b with
  | worker w =>
    obtain ⟨i, eq⟩ := h
    simp only [Summons, eq]
  | evaluation w => exact h.elim
  | caller c =>
    obtain ⟨t, mem, caller, stage⟩ := h
    refine ⟨t, mem, caller, .inl fun waits => ?_⟩
    rw [waits] at stage
    cases stage

theorem Move.under (h : Move now shutdown p a woken events p') (mem : t ∈ p'.submissions)
    (amid : t.stage.isAmid = true) :
    t ∈ p.submissions ∨ a = .caller t.caller ∧
      (p.released = false ∨ ∃ s ∈ p.submissions, s.stage.isAmid = true) := by
  have replaced {s : Submission} {stage : Stage} (own : s ∈ p.submissions)
      (mem : t ∈ (p.setStage s stage).submissions) :
      t ∈ p.submissions ∨ Agent.caller s.caller = .caller t.caller := by
    obtain ⟨l₁, l₂, eq, replaced⟩ := exists_replace_eq (t := { s with stage }) own
    simp only [setStage, replaced, List.mem_append, List.mem_cons] at mem
    rw [eq, List.mem_append, List.mem_cons]
    rcases mem with mem | rfl | mem
    · exact .inl (.inl mem)
    · exact .inr rfl
    · exact .inl (.inr (.inr mem))
  cases h with
  | drop | complete =>
    rcases freeSlot_cases (p.setWorker _ .resting) with ⟨l₁, s, l₂, _, _, eq, free⟩ | ⟨_, free⟩
    · rw [Pool.complete, free] at mem
      change p.submissions = _ at eq
      rw [eq]
      simp only [List.mem_append, List.mem_cons] at mem ⊢
      rcases mem with mem | rfl | mem
      · exact .inl (.inl mem)
      · cases amid
      · exact .inl (.inr (.inr mem))
    · rw [Pool.complete, free] at mem
      exact .inl mem
  | enter running =>
    rcases List.mem_append.1 mem with mem | mem
    · exact .inl mem
    · rw [List.mem_singleton.1 mem]
      exact .inr ⟨rfl, .inl running⟩
  | queue =>
    rcases List.mem_append.1 mem with mem | mem
    · exact .inl mem
    · rw [List.mem_singleton.1 mem] at amid
      cases amid
  | giveUp | giveBack | accept | hire => exact .inl (List.mem_of_mem_erase mem)
  | obtain own granted running => exact (replaced own mem).imp_right fun eq => ⟨eq, .inl running⟩
  | send own holds =>
    exact (replaced own mem).imp_right fun eq =>
      ⟨eq, .inr ⟨_, own, by rw [holds]; rfl⟩⟩
  | release =>
    rw [release_fst] at mem
    exact .inl mem
  | _ => exact .inl mem

theorem Move.busy (h : Move now shutdown p a woken events p') (busy : p'.Busy b) :
    b = a ∨ p.Busy b := by
  cases b with
  | evaluation w => exact busy.elim
  | worker w =>
    obtain ⟨i, eq⟩ := busy
    rcases h.worker_cases w with same | ⟨rfl, _⟩ | ⟨rfl, j, ⟨x, eq'⟩ | eq'⟩ | ⟨_, eq'⟩
    · exact .inr ⟨i, by rw [← same, eq]⟩
    · exact .inl rfl
    all_goals
      rw [eq'] at eq
      cases eq
  | caller c =>
    obtain ⟨t, mem, rfl, amid⟩ := busy
    rcases h.under mem amid with mem | ⟨rfl, _⟩
    · exact .inr ⟨t, mem, rfl, amid⟩
    · exact .inl rfl

def Timely (p : Pool) : Prop := ∀ t ∈ p.submissions, t.stage.isAmid = true → p.released = false

theorem Move.released_cases (h : Move now shutdown p a woken events p') :
    p'.released = p.released ∨
      p'.submissions = p.submissions ∧ ∃ c, a = .caller c ∧ ∀ t ∈ p.submissions, t.caller ≠ c := by
  cases h with
  | @drop w | @complete w =>
    obtain ⟨_, _, eq⟩ := freeSlot_fst (p.setWorker w .resting)
    rw [Pool.complete, eq]
    exact .inl rfl
  | release new =>
    rw [release_fst]
    exact .inr ⟨rfl, _, rfl, new⟩
  | _ => exact .inl rfl

theorem Move.timely (h : Move now shutdown p a woken events p') (busy : ∀ b, p.Busy b → b = a)
    (timely : p.Timely) : p'.Timely := by
  intro t mem amid
  rcases h.released_cases with same | ⟨same, c, rfl, new⟩
  · rw [same]
    rcases h.under mem amid with mem | ⟨_, running | ⟨s, mem, amid⟩⟩
    · exact timely t mem amid
    · exact running
    · exact timely s mem amid
  · rw [same] at mem
    exact absurd (Agent.caller.inj (busy _ ⟨t, mem, rfl, amid⟩)) (new t mem)

theorem head?_append_of_head? {l : List Nat} (h : l.head? = some v) (l' : List Nat) :
    (l ++ l').head? = some v := by
  rw [List.head?_append, h]
  rfl

theorem head?_erase_of_ne {l : List Nat} (h : l.head? = some v) (ne : v ≠ w) :
    (l.erase w).head? = some v := by
  cases l with
  | nil => cases h
  | cons u l =>
    cases Option.some.inj h
    simp [ne]

theorem Move.idle_cases (h : Move now shutdown p a woken events p')
    (waits : p'.worker v = .idle d) :
    (p.worker v = .idle d ∧ (a = .worker v → p' = p) ∧
      (p.idle.head? = some v → p'.idle.head? = some v)) ∨
    (a = .worker v ∧ p.worker v = .resting ∧ d = now + p.expiry ∧ p'.idle = p.idle ++ [v]) := by
  have kept {w : Nat} {x y : Worker} {q : Pool} (eq : q.worker w = x) (ne : x ≠ .exited)
      (away : ∀ d, y ≠ .idle d) (waits : (q.setWorker w y).worker v = .idle d) :
      v ≠ w ∧ q.worker v = .idle d := by
    rw [worker_setWorker eq ne] at waits
    split at waits
    · exact absurd waits (away d)
    · next other => exact ⟨other, waits⟩
  have own {w : Nat} (ne : v ≠ w) (eq : Agent.worker w = .worker v) : p' = p :=
    absurd (Agent.worker.inj eq).symm ne
  cases h with
  | stay => exact .inl ⟨waits, fun _ => rfl, id⟩
  | @listen w rests =>
    have set : (p.setWorker w _).worker v = .idle d := waits
    rw [worker_setWorker rests (by simp)] at set
    split at set
    · next eq =>
      subst eq
      exact .inr ⟨rfl, rests, (Worker.idle.inj set).symm, rfl⟩
    · next other => exact .inl ⟨set, own other, fun first => head?_append_of_head? first _⟩
  | @take w d' i _ waits' =>
    obtain ⟨ne, waits⟩ := kept (q := (p.leaveLine w).1) (y := .holding i) waits' (by simp) (by simp)
      waits
    exact .inl ⟨waits, own ne, fun first => head?_erase_of_ne first ne⟩
  | @depart w d' waits' =>
    obtain ⟨ne, waits⟩ := kept (q := (p.leaveLine w).1) (y := .exited) waits' (by simp) (by simp)
      waits
    exact .inl ⟨waits, own ne, fun first => head?_erase_of_ne first ne⟩
  | @drop w _ _ busy | @complete w _ busy =>
    rw [Pool.complete, worker_freeSlot] at waits
    obtain ⟨ne, waits⟩ := kept busy (by simp) (by simp) waits
    obtain ⟨_, _, eq⟩ := freeSlot_fst (p.setWorker w .resting)
    exact .inl ⟨waits, own ne, fun first => by rw [Pool.complete, eq]; exact first⟩
  | begin busy | progress busy | finish busy | panic busy =>
    obtain ⟨ne, waits⟩ := kept busy (by simp) (by simp) waits
    exact .inl ⟨waits, by first | exact own ne | simp, id⟩
  | hire =>
    have set : (p.workers ++ [Worker.resting]).getD v .exited = .idle d := waits
    rw [worker_append_resting] at set
    split at set
    · cases set
    · exact .inl ⟨set, by simp, id⟩
  | release =>
    rw [release_fst] at waits ⊢
    exact .inl ⟨waits, by simp, id⟩
  | _ => exact .inl ⟨waits, by simp, id⟩

theorem Move.queue_eq_nil (h : Move now shutdown p a woken events p') (queue : p.queue = [])
    (none : p.submissions = []) : p'.queue = [] := by
  cases h with
  | take _ _ queued =>
    rw [queue] at queued
    cases queued
  | drop | complete => exact (queue_freeSlot _).trans queue
  | send mem =>
    rw [none] at mem
    cases mem
  | release =>
    rw [release_fst]
    exact queue
  | _ => exact queue

/-- For every item in the queue there is a worker between items, or its submission will look. -/
def Staffed (p : Pool) : Prop :=
  p.queue.length ≤ p.workers.countP (·.isSpare) + p.sent.length

theorem countP_isLive (l : List Worker) :
    l.countP (·.isLive) = l.countP (·.isSpare) + l.countP (·.hasItem) := by
  induction l with
  | nil => rfl
  | cons x l ih =>
    simp only [List.countP_cons, ih]
    cases x <;> simp [Worker.isLive, Worker.isSpare, Worker.hasItem] <;> omega

namespace Staffed

theorem setWorker {w : Nat} {x y : Worker} (staffed : p.Staffed) (h : p.worker w = x)
    (ne : x ≠ .exited) (workers : p'.workers = p.workers.set w y) (sent : p'.sent = p.sent)
    (taken : p'.queue.length + x.isSpare.toNat ≤ p.queue.length + y.isSpare.toNat) :
    p'.Staffed := by
  have spare := countP_setWorker h ne y (·.isSpare)
  unfold Staffed at staffed ⊢
  rw [workers, sent]
  omega

theorem of_eq (staffed : p.Staffed) (queue : p'.queue = p.queue) (workers : p'.workers = p.workers)
    (sent : p'.sent = p.sent) : p'.Staffed := by
  unfold Staffed at staffed ⊢
  rwa [queue, workers, sent]

theorem complete {w : Nat} {x : Worker} (staffed : p.Staffed) (h : p.worker w = x)
    (ne : x ≠ .exited) (busy : x.isSpare = false) : (p.complete w).1.Staffed := by
  have set : (p.setWorker w .resting).Staffed :=
    staffed.setWorker h ne rfl rfl (by simp [busy, Pool.setWorker])
  obtain ⟨_, _, eq⟩ := freeSlot_fst (p.setWorker w .resting)
  refine set.of_eq (queue_freeSlot _) ?_ sent_freeSlot
  rw [Pool.complete, eq]

theorem accept (sound : p.Sound) (enough : p.inFlight ≤ p.live ∨ p.capacity ≤ p.live) :
    p.queue.length ≤ p.workers.countP (·.isSpare) := by
  have := sound.inFlight_eq
  have := sound.live_eq
  have := sound.slots
  have := countP_isLive p.workers
  omega

theorem move (staffed : p.Staffed) (sound : p.Sound)
    (h : Move now shutdown p a woken events p') (alone : p.Alone a) (timely : p.Timely)
    (ripe : ∀ w d, a = .worker w → p.worker w = .idle d → d ≤ now →
      p.queue = [] ∨ p.idle.head? = some w) :
    p'.Staffed := by
  cases h with
  | listen rests => exact staffed.setWorker rests (by simp) rfl rfl (Nat.le_refl _)
  | take waits first queue =>
    refine staffed.setWorker waits (by simp) rfl rfl ?_
    simp [queue, Worker.isSpare]
  | @depart w d waits reason left =>
    have empty : p.queue = [] := left.elim id fun notFirst =>
      (ripe w d rfl waits (reason.resolve_right fun h => notFirst h.2)).resolve_right notFirst
    simp [Staffed, leaveLine, exit, Pool.setWorker, empty]
  | drop holds => exact staffed.complete holds (by simp) rfl
  | complete ended => exact staffed.complete ended (by simp) rfl
  | begin holds => exact staffed.setWorker holds (by simp) rfl rfl (Nat.le_refl _)
  | progress runs => exact staffed.setWorker runs (by simp) rfl rfl (Nat.le_refl _)
  | finish runs => exact staffed.setWorker runs (by simp) rfl rfl (Nat.le_refl _)
  | panic runs => exact staffed.setWorker runs (by simp) rfl rfl (Nat.le_refl _)
  | enter => exact staffed.of_eq rfl rfl (sent_append (by simp))
  | queue => exact staffed.of_eq rfl rfl (sent_append (by simp))
  | giveUp mem waits => exact staffed.of_eq rfl rfl (sent_leave mem (by simp [waits]))
  | giveBack mem granted =>
    exact staffed.of_eq rfl rfl
      (sent_leave (p := { p with free := p.free + 1 }) mem (by simp [granted]))
  | obtain mem granted =>
    exact staffed.of_eq rfl rfl (sent_setStage mem (by simp [granted]) (by simp))
  | @send s mem holds =>
    obtain ⟨none, sent⟩ := sent_enqueue sound mem holds alone
    have sent : Pool.sent { p.setStage s .queued with queue := p.queue ++ [s.item] } = [s.item] :=
      sent
    unfold Staffed at staffed ⊢
    rw [none] at staffed
    rw [sent, List.length_append]
    exact Nat.add_le_add_right staffed 1
  | accept mem queued enough =>
    have running := timely _ mem (by rw [queued]; rfl)
    have spare := accept sound (enough.resolve_left (by simp [running]))
    exact Nat.le_trans spare (Nat.le_add_right ..)
  | hire mem queued =>
    obtain ⟨sent, _⟩ := sent_accept sound mem queued alone
    unfold Staffed at staffed ⊢
    rw [sent] at staffed
    simp only [leave, hire, List.countP_append]
    exact Nat.le_trans staffed (Nat.le_add_right ..)
  | release =>
    rw [release_fst]
    exact staffed
  | _ => exact staffed

end Staffed

def Manned (p : Pool) : Prop := p.queue ≠ [] → p.sent = [] → 0 < p.live

theorem Manned.of_eq (manned : p.Manned) (queue : p'.queue = p.queue) (sent : p'.sent = p.sent)
    (live : p'.live = p.live) : p'.Manned := by
  unfold Manned at manned ⊢
  rwa [queue, sent, live]

theorem Manned.move (manned : p.Manned) (sound : p.Sound)
    (h : Move now shutdown p a woken events p') (alone : p.Alone a) (timely : p.Timely) :
    p'.Manned := by
  have sound' := sound.move h
  cases h with
  | take waits => exact fun _ _ => sound.live_pos_of_worker (by rw [waits]; simp)
  | @depart w d waits reason left =>
    intro queued _
    -- The first in line stays.
    have notFirst := left.resolve_left queued
    obtain ⟨u, l, line⟩ := List.exists_cons_of_ne_nil
      (List.ne_nil_of_mem ((sound.line w).2 ⟨d, waits⟩))
    obtain ⟨d', waits'⟩ := (sound.line u).1 (by simp [line])
    have ne : u ≠ w := fun eq => notFirst (by simp [line, eq])
    have stays : ((p.leaveLine w).1.exit w).worker u = .idle d' :=
      ((worker_setWorker (p := (p.leaveLine w).1) waits (by simp) .exited u).trans
        (if_neg ne)).trans waits'
    exact sound'.live_pos_of_worker (by rw [stays]; simp)
  | drop holds | complete ended =>
    obtain ⟨_, _, eq⟩ := freeSlot_fst (p.setWorker _ .resting)
    exact manned.of_eq (queue_freeSlot _) sent_freeSlot (by rw [Pool.complete, eq]; rfl)
  | enter | queue => exact manned.of_eq rfl (sent_append (by simp)) rfl
  | giveUp mem waits => exact manned.of_eq rfl (sent_leave mem (by simp [waits])) rfl
  | giveBack mem granted =>
    exact manned.of_eq rfl
      (sent_leave (p := { p with free := p.free + 1 }) mem (by simp [granted])) rfl
  | obtain mem granted =>
    exact manned.of_eq rfl (sent_setStage mem (by simp [granted]) (by simp)) rfl
  | @send s mem holds =>
    intro _ none
    have sent : Pool.sent { p.setStage s .queued with queue := p.queue ++ [s.item] } = [s.item] :=
      (sent_enqueue sound mem holds alone).2
    rw [sent] at none
    cases none
  | accept mem queued' enough =>
    intro queued _
    have running := timely _ mem (by rw [queued']; rfl)
    have enough := enough.resolve_left (by simp [running])
    have : 0 < p.queue.length := List.length_pos_iff.2 queued
    have := sound.inFlight_eq
    have := sound.slots
    change 0 < p.live
    omega
  | hire => exact fun _ _ => Nat.succ_pos _
  | release =>
    rw [release_fst]
    exact manned.of_eq rfl rfl rfl
  | _ => exact manned.of_eq rfl rfl rfl

end Autoscaling.Pool
