import Mathlib.Data.List.Count
import Autoscaling.Proofs.Machine.Brief
import Autoscaling.Proofs.Machine.Closing
import Autoscaling.Proofs.Machine.Lineup
import Autoscaling.Proofs.Occupancy

namespace Autoscaling

def Behaviour.delay : Behaviour → Nat
  | .takes millis => millis
  | _ => 0

def Behaviour.ending (i : WorkItem) : Behaviour → Event
  | .panics => .panicked i
  | _ => .finished i

theorem Behaviour.ending_of_lasting {b : Behaviour} (lasting : b.isBrief = false) (i : WorkItem) :
    b.ending i = .finished i := by
  cases b <;> first | rfl | cases lasting

namespace Machine

inductive Term
  | time (t : Nat)
  | permit (job : String) (before : Nat)
deriving DecidableEq

namespace Term

def heed (t : Nat) (k : Command) : Term → Term
  | .time u => .time u
  | .permit job before =>
    if k = .unhold job then
      if before = 0 then .time t else .permit job (before - 1)
    else .permit job before

def after (diary : List (Nat × Command)) (x : Term) : Term :=
  diary.foldl (fun x (t, k) => x.heed t k) x

theorem after_concat (diary : List (Nat × Command)) (t : Nat) (k : Command) (x : Term) :
    x.after (diary ++ [(t, k)]) = (x.after diary).heed t k := by
  simp [after]

theorem heed_of_ne {k : Command} (other : ∀ job, k ≠ .unhold job) (t : Nat) (x : Term) :
    x.heed t k = x := by
  cases x with
  | time u => rfl
  | permit job before => exact if_neg (other job)

end Term

variable {s s' m start : Machine} {turn : Option Agent} {a : Agent} {cs : List Command} {w : Nat}
  {i : WorkItem} {x : Term} {rule : Rule} {woken : List Agent} {events : List Event}

inductive Faces (s : Machine) (w : Nat) (i : WorkItem) : Term → Prop
  | spawned (runs : s.pool.worker w = .evaluating i .spawned)
      (free : s.scenario.behaviour i.job ≠ .held) :
      Faces s w i (.time (s.now + (s.scenario.behaviour i.job).delay))
  | sleeping (runs : s.pool.worker w = .evaluating i (.sleeping t)) (ahead : s.now ≤ t)
      (rises : (t, .evaluation w) ∈ s.timers ∨ .evaluation w ∈ s.ready) : Faces s w i (.time t)
  | freed (runs : s.pool.worker w = .evaluating i .freed) : Faces s w i (.time s.now)
  | held (runs : s.pool.worker w = .evaluating i .held)
      (line : s.evaluationLine = front ++ (i.job, w) :: back) :
      Faces s w i (.permit i.job (front.countP (·.1 = i.job)))

theorem erase_of_find? {α : Type} [BEq α] [LawfulBEq α] {p : α → Bool} {front back : List α}
    {x y : α} (found : (front ++ x :: back).find? p = some y) :
    (y ∈ front ∧ (front ++ x :: back).erase y = front.erase y ++ x :: back) ∨
    (y = x ∧ front.countP p = 0) ∨
    (p x = false ∧ (front ++ x :: back).erase y = front ++ x :: back.erase y) := by
  rw [List.find?_append] at found
  cases first : front.find? p with
  | some z =>
    rw [first] at found
    cases found
    have mem := List.mem_of_find?_eq_some first
    exact .inl ⟨mem, List.erase_append_left _ mem⟩
  | none =>
    have none := List.find?_eq_none.1 first
    rw [first, Option.none_or, List.find?_cons] at found
    split at found
    · cases found
      exact .inr (.inl ⟨rfl, List.countP_eq_zero.2 none⟩)
    · next other =>
      have holds := List.find?_some found
      refine .inr (.inr ⟨other, ?_⟩)
      have ne : x ≠ y := fun eq => by
        rw [eq, holds] at other
        cases other
      rw [List.erase_append_right _ fun mem => none y mem holds,
        List.erase_cons_tail (by simpa using ne)]

/-- The evaluation of `j` that stands in line as `e` gets its permit and goes on. -/
structure Frees (s : Machine) (e : String × Nat) (j : WorkItem) (s' : Machine) : Prop where
  held : s.pool.worker e.2 = .evaluating j .held
  workers : ∀ u, s'.pool.worker u = if u = e.2 then .evaluating j .freed else s.pool.worker u
  line : s'.evaluationLine = s.evaluationLine.erase e
  now : s'.now = s.now
  timers : s'.timers = s.timers
  ready : ∀ a ∈ s.ready, a ∈ s'.ready
  does : s'.scenario.behaviour = s.scenario.behaviour

theorem frees_unhold (steady : Steady none s) {job : String} {e : String × Nat}
    (found : s.evaluationLine.find? (·.1 = job) = some e) : ∃ j, Frees s e j (s.unhold job) := by
  obtain ⟨job', v⟩ := e
  obtain ⟨j, waits⟩ := steady.held job' v (List.mem_of_find?_eq_some found)
  have same : s.unhold job = ({ s with
      evaluationLine := s.evaluationLine.erase (job', v) }.setProgress v j .freed).wake
        [.evaluation v] := by
    simp only [Machine.unhold, found]
    exact freeEvaluation_of_held (s := { s with evaluationLine := _ }) waits
  refine ⟨j, waits, fun u => ?_, ?_, ?_, ?_, fun a mem => ?_, ?_⟩ <;> rw [same]
  · exact Pool.worker_setWorker waits (by simp) _ u
  · rfl
  · rfl
  · rfl
  · exact (mem_ready_wake _).2 (.inl mem)
  · rfl

theorem Frees.beside {p : Pool.Progress} {e : String × Nat} {j : WorkItem} (frees : Frees s e j s')
    (runs : s.pool.worker w = .evaluating i p) (ne : p ≠ .held) :
    s'.pool.worker w = .evaluating i p := by
  rw [frees.workers, if_neg ?_, runs]
  rintro rfl
  cases runs.symm.trans frees.held
  exact ne rfl

namespace Faces

theorem runs (faces : Faces s w i x) : ∃ p, s.pool.worker w = .evaluating i p := by
  cases faces with
  | spawned runs | sleeping runs | freed runs | held runs => exact ⟨_, runs⟩

theorem frame (faces : Faces s w i x) (same : s'.pool.worker w = s.pool.worker w)
    (does : s'.scenario.behaviour = s.scenario.behaviour) (now : s'.now = s.now)
    (timers : ∀ t, (t, .evaluation w) ∈ s.timers → (t, .evaluation w) ∈ s'.timers)
    (ready : .evaluation w ∈ s.ready → .evaluation w ∈ s'.ready)
    (line : ∃ more, s'.evaluationLine = s.evaluationLine ++ more) : Faces s' w i x := by
  cases faces with
  | spawned runs free =>
    rw [← now, ← does]
    exact .spawned (same.trans runs) (does ▸ free)
  | sleeping runs ahead rises =>
    exact .sleeping (same.trans runs) (now ▸ ahead) (rises.imp (timers _) ready)
  | freed runs =>
    rw [← now]
    exact .freed (same.trans runs)
  | held runs before =>
    obtain ⟨more, line⟩ := line
    rw [before, List.append_assoc, List.cons_append] at line
    exact .held (same.trans runs) line

theorem own (faces : Faces s w i x) (lasting : s.Lasting)
    (head : s.ready.head? = some (.evaluation w)) :
    Faces (s.stepEvaluation w) w i x ∨ (x = .time s.now ∧
      (s.stepEvaluation w).pool.worker w = .finished i ∧ (s.stepEvaluation w).journal.head? =
        some (s.now, (s.scenario.behaviour i.job).ending i)) := by
  have set {p : Pool.Progress} (runs : s.pool.worker w = .evaluating i p) (y : Pool.Worker) :
      (s.pool.setWorker w y).worker w = y := by
    rw [Pool.worker_setWorker runs (by simp), if_pos rfl]
  have ends {m : Machine} {p : Pool.Progress} (runs : s.pool.worker w = .evaluating i p)
      (same : m.pool = s.pool) : (m.finishEvaluation w i).pool.worker w = .finished i ∧
        (m.finishEvaluation w i).journal.head? = some (m.now, .finished i) := by
    obtain ⟨pool, _, journal⟩ := finishEvaluation_told m w i
    rw [pool, journal, same, set runs]
    exact ⟨rfl, rfl⟩
  have late {p : Pool.Progress} (runs : s.pool.worker w = .evaluating i p) (begun : p ≠ .spawned) :
      (s.scenario.behaviour i.job).ending i = .finished i :=
    Behaviour.ending_of_lasting (lasting w i p runs begun) i
  cases faces with
  | spawned runs free =>
    have does_log : (s.log (.started i)).scenario.behaviour i.job = s.scenario.behaviour i.job :=
      rfl
    simp only [stepEvaluation, runs, does_log]
    cases does : s.scenario.behaviour i.job with
    | instant => exact .inr ⟨rfl, ends runs rfl⟩
    | takes millis =>
      exact .inl (.sleeping (set runs _) (Nat.le_add_right ..) (.inr (List.mem_of_head? head)))
    | panics => exact .inr ⟨rfl, set runs (.finished i), rfl⟩
    | held => exact absurd does free
  | @sleeping t runs ahead rises =>
    simp only [stepEvaluation, runs]
    split
    · next due =>
      rw [late runs (by simp)]
      exact .inr ⟨congrArg _ (Nat.le_antisymm due ahead), ends runs rfl⟩
    · refine .inl (.sleeping runs ahead (.inl ?_))
      simp only [sleep]
      split
      · next mem => exact mem
      · exact List.mem_append_right _ (List.mem_singleton_self _)
  | freed runs =>
    have step : s.stepEvaluation w = s.finishEvaluation w i := by simp only [stepEvaluation, runs]
    rw [step, late runs (by simp)]
    exact .inr ⟨rfl, ends runs rfl⟩
  | held runs line =>
    simp only [stepEvaluation, runs]
    exact .inl (.held runs line)

theorem step (faces : Faces s w i x) (lasting : s.Lasting) (head : s.ready.head? = some a)
    (act : Act s a woken events s.step)
    (does : s.step.scenario.behaviour = s.scenario.behaviour) :
    Faces s.step w i x ∨ (x = .time s.now ∧ s.step.pool.worker w = .finished i ∧
      s.step.journal.head? = some (s.now, (s.scenario.behaviour i.job).ending i)) := by
  by_cases own : a = .evaluation w
  · subst own
    have step : s.step = s.stepEvaluation w := by rw [Machine.step, head]
    rw [step]
    exact faces.own lasting head
  · obtain ⟨p, runs⟩ := faces.runs
    refine .inl (faces.frame (act.pool.evaluates own (by rw [runs]; rfl)) does act.now
      (fun t mem => act.timers t _ (Ne.symm own) mem)
      (fun mem => act.ready _ (Ne.symm own) (.inl mem)) ?_)
    rcases act.line with same | ⟨v, j, _, _, _, line⟩
    · exact ⟨[], by rw [same, List.append_nil]⟩
    · exact ⟨_, line⟩

theorem prefer (faces : Faces s w i x) (a : Agent) : Faces (s.prefer a) w i x :=
  faces.frame rfl rfl rfl (fun _ => id) mem_ready_prefer ⟨[], (List.append_nil _).symm⟩

theorem elapse (faces : Faces s w i x) (steady : Steady turn s) (settled : s.ready = [])
    (timely : ∀ timer ∈ s.timers, t ≤ timer.1) : Faces (s.elapse t) w i x := by
  have rests := steady.not_summons settled (.evaluation w)
  cases faces with
  | spawned runs => exact absurd (by simp only [Pool.Summons, runs]) rests
  | @sleeping u runs ahead rises =>
    have mem := rises.resolve_right (by simp [settled])
    refine .sleeping runs (timely _ mem) ?_
    by_cases due : u ≤ t
    · refine .inr ((mem_ready_wake _).2 (.inr ?_))
      exact List.mem_map_of_mem (List.mem_filter.2 ⟨mem, decide_eq_true due⟩)
    · exact .inl (List.mem_filter.2 ⟨mem, decide_eq_true (Nat.lt_of_not_le due)⟩)
  | freed runs => exact absurd (by simp only [Pool.Summons, runs]) rests
  | held runs line => exact .held runs line

theorem late (faces : Faces s w i (.time t)) (steady : Steady turn s) (punctual : s.Punctual)
    (settled : s.ready = []) : s.now < t := by
  have rests := steady.not_summons settled (.evaluation w)
  cases faces with
  | sleeping runs ahead rises => exact punctual _ (rises.resolve_right (by simp [settled]))
  | spawned runs | freed runs => exact absurd (by simp only [Pool.Summons, runs]) rests

theorem free {j : WorkItem} {v : Nat} {job : String} (faces : Faces s w i x)
    (steady : Steady none s) (found : s.evaluationLine.find? (·.1 = job) = some (job, v))
    (frees : Frees s (job, v) j s') :
    Faces s' w i (x.heed s.now (.unhold job)) := by
  cases faces with
  | spawned runs free =>
    rw [Term.heed, ← frees.now, ← frees.does]
    exact .spawned (frees.beside runs (by simp)) (frees.does ▸ free)
  | sleeping runs ahead rises =>
    refine .sleeping (frees.beside runs (by simp)) (frees.now ▸ ahead) ?_
    exact frees.timers ▸ rises.imp_right (frees.ready _)
  | freed runs =>
    rw [Term.heed, ← frees.now]
    exact .freed (frees.beside runs (by simp))
  | @held front back runs line =>
    have once : (i.job, w) ∉ front ++ back :=
      (List.nodup_cons.1 (List.nodup_middle.1 (line ▸ steady.once.of_map))).1
    have mem := List.mem_of_find?_eq_some found
    have apart (ne : (job, v) ≠ (i.job, w)) : s'.pool.worker w = .evaluating i .held := by
      rw [frees.workers, if_neg ?_, runs]
      rintro rfl
      exact ne (List.inj_on_of_nodup_map steady.once mem (by simp [line]) rfl)
    have rest := frees.line
    rw [line] at found rest
    -- The permit goes to one before it in line, to itself, or to one behind it.
    rcases erase_of_find? found with ⟨front', erased⟩ | ⟨eq, none⟩ | ⟨other, erased⟩
    · have next := held (apart fun eq => once (List.mem_append_left _ (eq ▸ front')))
        (rest.trans erased)
      rw [List.countP_erase] at next
      by_cases same : job = i.job
      · have some : 0 < front.countP (·.1 = i.job) :=
          List.countP_pos_iff.2 ⟨_, front', decide_eq_true same⟩
        rw [if_pos ⟨front', decide_eq_true same⟩] at next
        rwa [Term.heed, if_pos (by rw [same]), if_neg (Nat.ne_of_gt some)]
      · rw [if_neg fun both => same (of_decide_eq_true both.2), Nat.sub_zero] at next
        rwa [Term.heed, if_neg (by simpa using same)]
    · cases eq
      cases runs.symm.trans frees.held
      rw [Term.heed, if_pos rfl, if_pos none, ← frees.now]
      exact .freed ((frees.workers w).trans (if_pos rfl))
    · have ne : job ≠ i.job := fun eq => of_decide_eq_false other eq.symm
      have next := held (apart fun eq => ne (congrArg Prod.fst eq)) (rest.trans erased)
      rwa [Term.heed, if_neg (by simpa using ne)]

theorem unhold (faces : Faces s w i x) (steady : Steady none s) (job : String) :
    Faces (s.unhold job) w i (x.heed s.now (.unhold job)) := by
  cases found : s.evaluationLine.find? (·.1 = job) with
  | none =>
    have same : s.unhold job = s.direct (.permit job) := by simp only [Machine.unhold, found]
    have kept : x.heed s.now (.unhold job) = x := by
      cases faces with
      | spawned | sleeping | freed => rfl
      | held runs line =>
        have other := List.find?_eq_none.1 found (i.job, w) (by simp [line])
        exact if_neg fun eq => other (decide_eq_true (Command.unhold.inj eq).symm)
    rw [same, kept]
    exact faces.frame rfl rfl rfl (fun _ => id) id ⟨[], (List.append_nil _).symm⟩
  | some e =>
    obtain ⟨j, v⟩ := e
    obtain rfl : j = job := by simpa using List.find?_some found
    obtain ⟨i', frees⟩ := frees_unhold steady found
    exact faces.free steady found frees

theorem apply (faces : Faces s w i x) (steady : Steady none s) {k : Command}
    (ofPool : k.isOfPool = true) (instant : k.isInstant = true) :
    Faces (s.apply k) w i (x.heed s.now k) := by
  have spares := spares_apply s instant
  have does := (recounts_apply s ofPool instant).does
  have still {s' : Machine} (same : s.apply k = s') (pool : s'.pool = s.pool)
      (line : s'.evaluationLine = s.evaluationLine) : Faces s' w i x := by
    subst same
    exact faces.frame (by rw [pool]) does spares.now (fun t mem => spares.timers ▸ mem)
      (spares.ready _) ⟨[], by rw [line, List.append_nil]⟩
  cases k with
  | submit | release =>
    rw [Term.heed_of_ne (by simp)]
    exact still rfl rfl rfl
  | advance => cases instant
  | unhold job => exact faces.unhold steady job
  | shutdown =>
    rw [Term.heed_of_ne (by simp)]
    exact still rfl (pool_signalShutdown s) (evaluationLine_signalShutdown s)
  | _ => cases ofPool

theorem begin {p : Pool.Progress} (fresh : s.pool.worker w = .evaluating i .spawned)
    (does : s.scenario.behaviour i.job = .held)
    (runs : (s.stepEvaluation w).pool.worker w = .evaluating i p) :
    ∃ x, Faces (s.stepEvaluation w) w i x := by
  have set (y : Pool.Worker) : (s.pool.setWorker w y).worker w = y := by
    rw [Pool.worker_setWorker fresh (by simp), if_pos rfl]
  have does_log : (s.log (.started i)).scenario.behaviour i.job = .held := does
  simp only [stepEvaluation, fresh, does_log] at runs ⊢
  split at runs
  · rw [(finishEvaluation_told _ w i).1] at runs
    cases (set (.finished i)).symm.trans runs
  · next none =>
    rw [if_neg none]
    exact ⟨_, .held (set _) rfl⟩

end Faces

section Runs

variable (fresh : start.Fresh) (ofPool : rule.OfPool)
include fresh ofPool

theorem Run.does (run : Run rule start cs (some a) s) :
    s.Lasting ∧ s.step.scenario.behaviour = s.scenario.behaviour := by
  have lasting := run.lasting fresh ofPool
  exact ⟨lasting, (recounts_step lasting (run.given fresh ofPool).ofPool).does⟩

theorem Run.faces_of_begun (run : Run rule start cs turn s) {p : Pool.Progress}
    (runs : s.pool.worker w = .evaluating i p) (begun : p ≠ .spawned) : ∃ x, Faces s w i x := by
  have moves {s : Machine} {a : Agent} {cs : List Command} {p : Pool.Progress}
      (run : Run rule start cs (some a) s)
      (ih : ∀ {p}, s.pool.worker w = .evaluating i p → p ≠ .spawned → ∃ x, Faces s w i x)
      (runs : s.step.pool.worker w = .evaluating i p) (begun : p ≠ .spawned) :
      ∃ x, Faces s.step w i x := by
    obtain ⟨_, _, act⟩ := run.act fresh
    have head := run.head_of_turn
    obtain ⟨lasting, does⟩ := run.does fresh ofPool
    have goesOn (before : ∃ x, Faces s w i x) : ∃ x, Faces s.step w i x := by
      obtain ⟨x, faces⟩ := before
      rcases faces.step lasting head act does with next | ⟨_, stops, _⟩
      · exact ⟨x, next⟩
      · cases runs.symm.trans stops
    rcases act.pool.evaluating_cases runs with before | ⟨_, rfl, _⟩ | ⟨rfl, _, q, before⟩
    · exact goesOn (ih before begun)
    · exact absurd rfl begun
    · by_cases new : q = .spawned
      · subst new
        by_cases held : s.scenario.behaviour i.job = .held
        · have step : s.step = s.stepEvaluation w := by rw [Machine.step, head]
          rw [step] at runs ⊢
          exact Faces.begin before held runs
        · exact goesOn ⟨_, .spawned before held⟩
      · exact goesOn (ih before new)
  induction run generalizing p with
  | start =>
    obtain ⟨_, _, pool⟩ := fresh.pool
    simp [pool, Pool.worker] at runs
  | command run may instant ih =>
    have steady := run.steady fresh
    rcases steady.worker_apply instant w with same | ⟨j, held, freed⟩
    · obtain ⟨x, faces⟩ := ih (same ▸ runs) begun
      exact ⟨_, faces.apply steady (ofPool _ _ may) instant⟩
    · cases runs.symm.trans freed
      obtain ⟨x, faces⟩ := ih held (by simp)
      exact ⟨_, faces.apply steady (ofPool _ _ may) instant⟩
  | elapse run settled _ timely ih =>
    obtain ⟨x, faces⟩ := ih runs begun
    exact ⟨x, faces.elapse (run.steady fresh) settled timely⟩
  | choose _ _ _ ih =>
    obtain ⟨x, faces⟩ := ih runs begun
    exact ⟨x, faces.prefer _⟩
  | move run _ ih | pause run _ ih => exact moves run ih runs begun

theorem Run.faces (run : Run rule start cs turn s) {p : Pool.Progress}
    (runs : s.pool.worker w = .evaluating i p)
    (known : p = .spawned → s.scenario.behaviour i.job ≠ .held) : ∃ x, Faces s w i x := by
  by_cases new : p = .spawned
  · subst new
    exact ⟨_, .spawned runs (known rfl)⟩
  · exact run.faces_of_begun fresh ofPool runs new

end Runs

end Machine
end Autoscaling
