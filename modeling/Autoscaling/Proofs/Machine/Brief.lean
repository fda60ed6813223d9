import Autoscaling.Proofs.Conservation
import Autoscaling.Proofs.Machine.Mirror

namespace Autoscaling

def Behaviour.isBrief : Behaviour → Bool
  | .instant | .panics => true
  | _ => false

namespace Observation

def starts (started : List (Nat × WorkItem)) : List (Nat × String) :=
  started.map fun (t, i) => (t, i.job)

end Observation

namespace Machine

open Observation

variable {b : String → Behaviour} {s s' start m : Machine} {turn : Option Agent} {a : Agent}
  {cs cs' : List Command} {told told' : List (Nat × Event)} {w : Nat} {i : WorkItem} {rule : Rule}

def Brisk (b : String → Behaviour) (told : List (Nat × Event)) : Prop :=
  (told.filterMap finished?).filter (fun e => (b e.2).isBrief) =
    (starts (told.filterMap started?)).filter fun e => b e.2 = .instant

theorem Brisk.append (brisk : Brisk b told) (brisk' : Brisk b told') : Brisk b (told ++ told') := by
  unfold Brisk starts at *
  simp only [List.filterMap_append, List.map_append, List.filter_append, brisk, brisk']

theorem Brisk.reverse (brisk : Brisk b told) : Brisk b told.reverse := by
  unfold Brisk starts at *
  simp only [List.filterMap_reverse, List.map_reverse, List.filter_reverse, brisk]

theorem brisk_of_other (other : ∀ e ∈ told, e.2.ofEvaluation = false) : Brisk b told := by
  have finished : told.filterMap finished? = [] := List.filterMap_eq_nil_iff.2 fun (t, e) mem => by
    have := other _ mem
    cases e <;> first | rfl | cases this
  have started : told.filterMap started? = [] := List.filterMap_eq_nil_iff.2 fun (t, e) mem => by
    have := other _ mem
    cases e <;> first | rfl | cases this
  rw [Brisk, finished, started]
  rfl

section

variable (t : Nat)

theorem brisk_started (slow : b i.job ≠ .instant) : Brisk b [(t, .started i)] := by
  simp [Brisk, starts, List.filterMap_cons, started?, finished?, slow]

theorem brisk_finished (slow : (b i.job).isBrief = false) : Brisk b [(t, .finished i)] := by
  simp [Brisk, starts, List.filterMap_cons, started?, finished?, slow]

theorem brisk_panicked (panics : b i.job = .panics) :
    Brisk b [(t, .panicked i), (t, .started i)] := by
  simp [Brisk, starts, List.filterMap_cons, started?, finished?, panics]

theorem brisk_through (calm : b i.job ≠ .panics) : Brisk b [(t, .finished i), (t, .started i)] := by
  cases does : b i.job <;>
    simp_all [Brisk, starts, List.filterMap_cons, started?, finished?, Behaviour.isBrief]

end

def Lasting (s : Machine) : Prop := ∀ w i x, s.pool.worker w = .evaluating i x → x ≠ .spawned →
  (s.scenario.behaviour i.job).isBrief = false

structure Recounts (s s' : Machine) : Prop where
  does : s'.scenario.behaviour = s.scenario.behaviour
  told : ∃ told, s'.journal = told ++ s.journal ∧ Brisk s.scenario.behaviour told

theorem Recounts.refl (s : Machine) : Recounts s s := ⟨rfl, [], rfl, rfl⟩

theorem Recounts.trans {s'' : Machine} (recounts : Recounts s s') (recounts' : Recounts s' s'') :
    Recounts s s'' := by
  obtain ⟨does, told, journal, brisk⟩ := recounts
  obtain ⟨does', told', journal', brisk'⟩ := recounts'
  refine ⟨does'.trans does, told' ++ told, ?_, .append (does ▸ brisk') brisk⟩
  rw [journal', journal, List.append_assoc]

theorem recounts_of_aloof {f : Machine → Machine} (aloof : Aloof s f) : Recounts s (f s) := by
  obtain ⟨told, other, same⟩ := aloof.tells
  have own : f s = (f s).recast s.scenario (told ++ s.journal) := same s.scenario s.journal
  refine ⟨by rw [own]; rfl, told, by rw [own]; rfl, brisk_of_other other⟩

theorem recounts_finish {x : Pool.Progress} (runs : s.pool.worker w = .evaluating i x)
    (pool : m.pool = s.pool) (does : m.scenario.behaviour = s.scenario.behaviour)
    (journal : m.journal = told ++ s.journal)
    (brisk : Brisk s.scenario.behaviour ((m.now, .finished i) :: told)) :
    Recounts s (m.finishEvaluation w i) ∧ ∀ j y,
      (m.finishEvaluation w i).pool.worker w ≠ .evaluating j y := by
  obtain ⟨pool', does', journal'⟩ := finishEvaluation_told m w i
  refine ⟨⟨does'.trans does, _, ?_, brisk⟩, fun j y => ?_⟩
  · rw [journal', journal, List.cons_append]
  · rw [pool', pool, Pool.worker_setWorker runs (by simp), if_pos rfl]
    nofun

theorem recounts_begin (runs : s.pool.worker w = .evaluating i .spawned) :
    Recounts s (s.stepEvaluation w) ∧ ∀ j y, (s.stepEvaluation w).pool.worker w = .evaluating j y →
      (s.scenario.behaviour j.job).isBrief = false := by
  have set (x : Pool.Worker) : (s.pool.setWorker w x).worker w = x := by
    rw [Pool.worker_setWorker runs (by simp), if_pos rfl]
  have through {m : Machine} (pool : m.pool = s.pool)
      (does : m.scenario.behaviour = s.scenario.behaviour)
      (journal : m.journal = [(m.now, .started i)] ++ s.journal)
      (calm : s.scenario.behaviour i.job ≠ .panics) :
      Recounts s (m.finishEvaluation w i) ∧ ∀ j y, (m.finishEvaluation w i).pool.worker w =
        .evaluating j y → (s.scenario.behaviour j.job).isBrief = false := by
    obtain ⟨recounts, none⟩ := recounts_finish runs pool does journal (brisk_through _ calm)
    exact ⟨recounts, fun j y eq => absurd eq (none j y)⟩
  have does_log : (s.log (.started i)).scenario.behaviour i.job = s.scenario.behaviour i.job := rfl
  simp only [stepEvaluation, runs, does_log]
  cases does : s.scenario.behaviour i.job with
  | instant => exact through rfl rfl rfl (by simp [does])
  | takes millis =>
    refine ⟨⟨rfl, [(s.now, .started i)], rfl, brisk_started _ (by simp [does])⟩, fun j y eq => ?_⟩
    cases (set _).symm.trans eq
    rw [does]
    rfl
  | panics =>
    refine ⟨⟨rfl, [(s.now, .panicked i), (s.now, .started i)], rfl, brisk_panicked _ does⟩,
      fun j y eq => ?_⟩
    cases (set (.finished i)).symm.trans eq
  | held =>
    dsimp only
    split
    · exact through rfl rfl rfl (by simp [does])
    · refine ⟨⟨rfl, [(s.now, .started i)], rfl, brisk_started _ (by simp [does])⟩,
        fun j y eq => ?_⟩
      cases (set _).symm.trans eq
      rw [does]
      rfl

theorem recounts_stepEvaluation (lasting : s.Lasting) (w : Nat) :
    Recounts s (s.stepEvaluation w) ∧ ∀ j y, (s.stepEvaluation w).pool.worker w = .evaluating j y →
      y ≠ .spawned → (s.scenario.behaviour j.job).isBrief = false := by
  have waits {s' : Machine} (pool : s'.pool = s.pool)
      (does : s'.scenario.behaviour = s.scenario.behaviour) (journal : s'.journal = s.journal) :
      Recounts s s' ∧ ∀ j y, s'.pool.worker w = .evaluating j y → y ≠ .spawned →
        (s.scenario.behaviour j.job).isBrief = false :=
    ⟨⟨does, [], journal, rfl⟩, fun j y eq => lasting w j y (pool ▸ eq)⟩
  have ends {i : WorkItem} {x : Pool.Progress} (runs : s.pool.worker w = .evaluating i x)
      (later : x ≠ .spawned) : Recounts s (s.finishEvaluation w i) ∧ ∀ j y,
        (s.finishEvaluation w i).pool.worker w = .evaluating j y → y ≠ .spawned →
          (s.scenario.behaviour j.job).isBrief = false := by
    obtain ⟨recounts, none⟩ := recounts_finish runs rfl rfl (List.nil_append _).symm
      (brisk_finished _ (lasting w i x runs later))
    exact ⟨recounts, fun j y eq => absurd eq (none j y)⟩
  cases at_ : s.pool.worker w with
  | evaluating i x =>
    cases x with
    | spawned => exact (recounts_begin at_).imp_right fun slow j y eq _ => slow j y eq
    | sleeping wakeAt =>
      simp only [stepEvaluation, at_]
      split
      · exact ends at_ (by simp)
      · exact waits rfl rfl rfl
    | held =>
      simp only [stepEvaluation, at_]
      exact waits rfl rfl rfl
    | freed =>
      simp only [stepEvaluation, at_]
      exact ends at_ (by simp)
  | _ =>
    simp only [stepEvaluation, at_]
    exact waits rfl rfl rfl

theorem recounts_step (lasting : s.Lasting) (ofPool : ∀ c, (s.call c).ofPool = true) :
    Recounts s s.step := by
  unfold step
  split
  · exact .refl s
  · exact recounts_of_aloof (aloof_stepWorker s _)
  · exact (recounts_stepEvaluation lasting _).1
  · exact recounts_of_aloof (aloof_stepCaller (ofPool _))

theorem recounts_apply (s : Machine) {k : Command} (ofPool : k.isOfPool = true)
    (instant : k.isInstant = true) : Recounts s (s.apply k) := by
  refine ⟨?_, [], (journal_apply s instant).1, rfl⟩
  cases k with
  | submit | release => rfl
  | advance => cases instant
  | unhold job =>
    simp only [Machine.apply, Machine.unhold, freeEvaluation]
    repeat' split
    all_goals rfl
  | shutdown =>
    simp only [Machine.apply, signalShutdown]
    split <;> rfl
  | _ => cases ofPool

namespace Lasting

theorem step {woken : List Agent} {events : List Event} (lasting : s.Lasting)
    (head : s.ready.head? = some a) (act : Act s a woken events s.step)
    (ofPool : ∀ c, (s.call c).ofPool = true) : s.step.Lasting := by
  intro w i x runs later
  rw [(recounts_step lasting ofPool).does]
  rcases act.pool.evaluating_cases runs with before | ⟨_, rfl, _⟩ | ⟨rfl, _⟩
  · exact lasting w i x before later
  · exact absurd rfl later
  · have own : s.step = s.stepEvaluation w := by rw [Machine.step, head]
    rw [own] at runs
    exact (recounts_stepEvaluation lasting w).2 i x runs later

theorem apply (lasting : s.Lasting) (steady : Steady none s) {k : Command}
    (ofPool : k.isOfPool = true) (instant : k.isInstant = true) : (s.apply k).Lasting := by
  intro w i x runs later
  rw [(recounts_apply s ofPool instant).does]
  rcases steady.worker_apply instant w with same | ⟨j, held, freed⟩
  · exact lasting w i x (same ▸ runs) later
  · cases runs.symm.trans freed
    exact lasting w i .held held (by simp)

end Lasting

theorem Run.lasting (run : Run rule start cs turn s) (fresh : start.Fresh)
    (ofPool : ∀ s c, rule.comes s c → c.isOfPool = true) : s.Lasting := by
  induction run with
  | start =>
    obtain ⟨_, _, pool⟩ := fresh.pool
    intro w i x runs
    simp [pool, Pool.worker] at runs
  | command run may instant ih => exact ih.apply (run.steady fresh) (ofPool _ _ may) instant
  | elapse _ _ _ _ ih | choose _ _ _ ih => exact ih
  | move run _ ih | pause run _ ih =>
    obtain ⟨_, _, act⟩ := run.act fresh
    exact ih.step run.head_of_turn act (run.given fresh ofPool).ofPool

theorem Run.recounts (first : Run rule start cs none m) (run : Run rule m cs' turn s)
    (fresh : start.Fresh) (ofPool : ∀ s c, rule.comes s c → c.isOfPool = true) :
    Recounts m s := by
  induction run with
  | start => exact .refl m
  | command _ may instant ih => exact ih.trans (recounts_apply _ (ofPool _ _ may) instant)
  | elapse _ _ _ _ ih => exact ih.trans ⟨rfl, [], rfl, rfl⟩
  | choose _ _ _ ih => exact ih.trans ⟨rfl, [], rfl, rfl⟩
  | move run _ ih | pause run _ ih =>
    have whole := first.trans run
    exact ih.trans (recounts_step (whole.lasting fresh ofPool) (whole.given fresh ofPool).ofPool)

end Machine
end Autoscaling
