import Autoscaling.Machine.Observation
import Autoscaling.Machine.Punctual

/-!
Runs whose schedule is open: whoever is ready may be next, and keeps the turn until it waits.
Commands come between turns; time passes when all wait, and stops at every timer.
-/

namespace Autoscaling.Machine

def Command.isInstant : Command → Bool
  | .advance _ => false
  | _ => true

theorem unhold_eq (s : Machine) (job : String) : ∃ workers line ready scenario,
    s.unhold job =
      { s with pool := { s.pool with workers }, evaluationLine := line, ready, scenario } := by
  unfold unhold freeEvaluation
  repeat' split
  all_goals exact ⟨_, _, _, _, rfl⟩

@[simp] theorem calls_unhold (s : Machine) (job : String) : (s.unhold job).calls = s.calls := by
  obtain ⟨_, _, _, _, eq⟩ := unhold_eq s job
  rw [eq]

theorem freeEvaluation_of_held {s : Machine} (held : s.pool.worker w = .evaluating i .held) :
    s.freeEvaluation w = (s.setProgress w i .freed).wake [.evaluation w] := by
  simp only [freeEvaluation, held]

theorem journal_apply (s : Machine) {c : Command} (instant : c.isInstant = true) :
    (s.apply c).journal = s.journal ∧ (s.apply c).now = s.now ∧
      (s.apply c).lifecycle = s.lifecycle := by
  cases c with
  | advance => cases instant
  | unhold job =>
    obtain ⟨_, _, _, _, eq⟩ := unhold_eq s job
    rw [apply, eq]
    exact ⟨rfl, rfl, rfl⟩
  | unholdAnswer q =>
    simp only [apply, unholdAnswer]
    split <;> exact ⟨rfl, rfl, rfl⟩
  | shutdown =>
    simp only [apply, signalShutdown]
    split <;> exact ⟨rfl, rfl, rfl⟩
  | _ => exact ⟨rfl, rfl, rfl⟩

def prefer (s : Machine) (a : Agent) : Machine := { s with ready := a :: s.ready.erase a }

theorem mem_ready_prefer {s : Machine} {a b : Agent} (mem : b ∈ s.ready) :
    b ∈ (s.prefer a).ready := by
  by_cases eq : b = a
  · exact List.mem_cons.2 (.inl eq)
  · exact List.mem_cons_of_mem _ ((List.mem_erase_of_ne eq).2 mem)

def elapse (s : Machine) (t : Nat) : Machine := { s with now := t }.fire

/-- Which commands may come when, and which agents that are ready may have the next turn. -/
structure Rule where
  comes : Machine → Command → Prop
  chooses : Machine → Agent → Prop := fun _ _ => True

def Rule.LetsFirst (rule : Rule) : Prop := ∀ s a, s.ready.head? = some a → rule.chooses s a

/-- The runs from `start` with the commands that came, the agent whose turn it is and the state
that is reached. -/
inductive Run (rule : Rule) (start : Machine) : List Command → Option Agent → Machine → Prop
  | start : Run rule start [] none start
  | command (run : Run rule start cs none s) (may : rule.comes s c)
      (instant : c.isInstant = true) :
      Run rule start (cs ++ [c]) none (s.apply c)
  | elapse (run : Run rule start cs none s) (settled : s.ready = []) (later : s.now ≤ t)
      (timely : ∀ timer ∈ s.timers, t ≤ timer.1) :
      Run rule start cs none (s.elapse t)
  | choose (run : Run rule start cs none s) (ready : a ∈ s.ready) (may : rule.chooses s a) :
      Run rule start cs (some a) (s.prefer a)
  | move (run : Run rule start cs (some a) s) (goesOn : s.step.ready.head? = some a) :
      Run rule start cs (some a) s.step
  | pause (run : Run rule start cs (some a) s) (waits : s.step.ready.head? ≠ some a) :
      Run rule start cs none s.step

def Command.isOfPool : Command → Bool
  | .submit _ | .advance _ | .unhold _ | .shutdown | .release => true
  | _ => false

/-- Commands to a pool by itself come at any time, and agents move in any order. -/
def poolRule : Rule where
  comes _ c := c.isOfPool = true

structure Fresh (s : Machine) : Prop where
  pool : ∃ capacity expiry, s.pool = { capacity, expiry, free := capacity }
  ready : s.ready = []
  timers : s.timers = []
  calls : s.calls = []
  shutdown : s.shutdown = false
  lifecycle : s.lifecycle = {}
  evaluationLine : s.evaluationLine = []
  journal : s.journal = []

theorem Fresh.punctual {s : Machine} (fresh : s.Fresh) : s.Punctual := by
  intro timer mem
  simp [fresh.timers] at mem

theorem pool_of_create {p : Pool} (h : Pool.create capacity expiry = .made p) :
    p = { capacity, expiry, free := capacity } := by
  unfold Pool.create at h
  split at h
  · cases h
  · split at h
    · cases h
    · cases h
      rfl

theorem fresh_ofPool {x : Scenario} (h : ofPool capacity expiry x = .made s) : s.Fresh := by
  unfold ofPool at h
  split at h
  · next pool create =>
    cases h
    exact ⟨⟨_, _, pool_of_create create⟩, rfl, rfl, rfl, rfl, rfl, rfl, rfl⟩
  · cases h
  · cases h

theorem pool_ofPool {x : Scenario} (h : ofPool capacity expiry x = .made s) :
    s.pool = { capacity, expiry, free := capacity } := by
  unfold ofPool at h
  split at h
  · next pool create =>
    cases h
    exact pool_of_create create
  · cases h
  · cases h

def heldUp : Machine :=
  around { capacity := 1, expiry := 100, free := 1 }
    { behaviours := (∅ : Dict Behaviour).insert "a" .held }

def heldItem : WorkItem := ⟨"a", (∅ : JobPolicies).insert "g" {}, 0⟩

theorem fresh_ofConfig {c : Config} {timed : Bool} {x : Scenario}
    (h : ofConfig c timed x = .made s) : s.Fresh := by
  unfold ofConfig at h
  split at h
  · cases h
  · split at h
    · next pool create =>
      cases h
      exact ⟨⟨_, _, pool_of_create create⟩, rfl, rfl, rfl, rfl, rfl, rfl, rfl⟩
    · cases h
    · cases h

theorem fresh_store_ofConfig {c : Config} {timed : Bool} {x : Scenario}
    (h : ofConfig c timed x = .made s) : s.reads = 0 ∧ s.store = ∅ := by
  unfold ofConfig at h
  split at h
  · cases h
  · split at h <;> cases h
    exact ⟨rfl, rfl⟩

namespace Run

variable {rule : Rule} {start s : Machine} {turn : Option Agent} {a : Agent} {cs : List Command}

theorem head_of_turn (run : Run rule start cs (some a) s) : s.ready.head? = some a := by
  cases run with
  | choose => rfl
  | move _ goesOn => exact goesOn

theorem mono {rule' : Rule} (run : Run rule start cs turn s)
    (comes : ∀ cs s c, Run rule start cs none s → rule.comes s c → rule'.comes s c)
    (chooses : ∀ cs s a, Run rule start cs none s → rule.chooses s a → rule'.chooses s a) :
    Run rule' start cs turn s := by
  induction run with
  | start => exact .start
  | command run may instant ih => exact ih.command (comes _ _ _ run may) instant
  | elapse _ settled later timely ih => exact ih.elapse settled later timely
  | choose run ready may ih => exact ih.choose ready (chooses _ _ _ run may)
  | move _ goesOn ih => exact ih.move goesOn
  | pause _ waits ih => exact ih.pause waits

theorem punctual (run : Run rule start cs turn s) (punctual : start.Punctual) : s.Punctual := by
  induction run with
  | start => exact punctual
  | command _ _ _ ih => exact punctual_apply ih _
  | elapse => exact fun timer mem => of_decide_eq_true (List.mem_filter.1 mem).2
  | choose _ _ _ ih => exact ih
  | move _ _ ih => exact (delays_step _).punctual ih
  | pause _ _ ih => exact (delays_step _).punctual ih

theorem trans (first : Run rule start cs none s) {cs' : List Command} {s' : Machine}
    (second : Run rule s cs' turn s') : Run rule start (cs ++ cs') turn s' := by
  induction second with
  | start => rwa [List.append_nil]
  | command _ may instant ih =>
    rw [← List.append_assoc]
    exact ih.command may instant
  | elapse _ settled later timely ih => exact ih.elapse settled later timely
  | choose _ ready may ih => exact ih.choose ready may
  | move _ goesOn ih => exact ih.move goesOn
  | pause _ waits ih => exact ih.pause waits

theorem prefer_head {l : List Agent} (h : s.ready = a :: l) : s.prefer a = s := by
  have : a :: s.ready.erase a = s.ready := by simp [h]
  rw [prefer, this]

theorem moves (run : Run rule start cs turn s) (lets : rule.LetsFirst) (n : Nat) :
    ∃ turn, Run rule start cs turn (Machine.run n s) := by
  induction n generalizing turn s with
  | zero => exact ⟨turn, run⟩
  | succ n ih =>
    unfold Machine.run
    split
    · exact ⟨turn, run⟩
    · next busy =>
      obtain ⟨a, l, ready⟩ := List.exists_cons_of_ne_nil (by simpa using busy)
      have chosen : Run rule start cs (some a) s := by
        cases turn with
        | none =>
          have may := lets s a (by simp [ready])
          simpa [prefer_head ready] using run.choose (a := a) (by simp [ready]) may
        | some b =>
          have head := run.head_of_turn
          rw [ready] at head
          rwa [Option.some.inj head]
      by_cases goesOn : s.step.ready.head? = some a
      · exact ih (chosen.move goesOn)
      · exact ih (chosen.pause goesOn)

theorem amid (run : Run rule start cs turn s) (lets : rule.LetsFirst) (n : Nat)
    (head : (Machine.run n s).ready.head? = some a) :
    Run rule start cs (some a) (Machine.run n s) := by
  obtain ⟨turn, run⟩ := run.moves lets n
  cases turn with
  | none =>
    obtain ⟨l, ready⟩ := List.head?_eq_some_iff.1 head
    simpa [prefer_head ready] using run.choose (a := a) (by simp [ready]) (lets _ a head)
  | some b => rwa [Option.some.inj (head.symm.trans run.head_of_turn)]

theorem settle (run : Run rule start cs none s) (lets : rule.LetsFirst) :
    Run rule start cs none s.settle := by
  obtain ⟨turn, run⟩ := run.moves lets s.work
  change Run rule start cs turn s.settle at run
  cases turn with
  | none => exact run
  | some a =>
    have head := run.head_of_turn
    simp at head

theorem fire_of_punctual (h : s.Punctual) : s.fire = s := by
  have due : s.due = [] := by
    simp only [due, List.map_eq_nil_iff, List.filter_eq_nil_iff]
    intro timer mem
    simpa using h timer mem
  have kept : (s.timers.filter fun timer => s.now < timer.1) = s.timers :=
    List.filter_eq_self.2 fun timer mem => decide_eq_true (h timer mem)
  simp only [fire, due, kept]
  rfl

theorem arrive (run : Run rule start cs none s) (settled : s.ready = []) (later : s.now ≤ t)
    (timely : ∀ timer ∈ s.timers, t < timer.1) : Run rule start cs none { s with now := t } := by
  rw [← fire_of_punctual (s := { s with now := t }) timely]
  exact run.elapse settled later fun timer mem => Nat.le_of_lt (timely timer mem)

theorem visitTimers {fuel target : Nat} (run : Run rule start cs none s)
    (lets : rule.LetsFirst) (punctual : start.Punctual) (settled : s.ready = [])
    (later : s.now ≤ target) (enough : target < s.now + fuel) :
    Run rule start cs none (Machine.visitTimers target fuel s) := by
  induction fuel generalizing s with
  | zero => omega
  | succ fuel ih =>
    unfold Machine.visitTimers
    split
    · next none =>
      refine run.arrive settled later fun timer mem => ?_
      have : s.timers = [] := by simpa [nextTimer] using none
      simp [this] at mem
    · next t eq =>
      have first : ∀ timer ∈ s.timers, t ≤ timer.1 := fun timer mem =>
        (List.min?_eq_some_iff.1 eq).2 _ (List.mem_map_of_mem mem)
      have ahead := lt_of_nextTimer (run.punctual punctual) eq
      split
      · next beyond =>
        exact run.arrive settled later fun timer mem => Nat.lt_of_lt_of_le beyond (first timer mem)
      · next within =>
        rw [Nat.max_eq_right (Nat.le_of_lt ahead)]
        change Run rule start cs none (Machine.visitTimers target fuel (s.elapse t).settle)
        have now : (s.elapse t).settle.now = t := (delays_settle (s.elapse t)).now
        have next := (run.elapse settled (Nat.le_of_lt ahead) first).settle lets
        exact ih next (ready_settle _) (by omega) (by omega)

theorem advance (run : Run rule start cs none s) (lets : rule.LetsFirst)
    (punctual : start.Punctual) (settled : s.ready = []) (millis : Nat) :
    Run rule start cs none (s.advance millis) :=
  run.visitTimers lets punctual settled (Nat.le_add_right ..) (by omega)

theorem perform {c : Command} (run : Run rule start cs none s) (lets : rule.LetsFirst)
    (punctual : start.Punctual) (settled : s.ready = [])
    (may : c.isInstant = true → rule.comes s c) :
    Run rule start (cs ++ [c].filter (·.isInstant)) none (s.perform c) := by
  by_cases instant : c.isInstant = true
  · rw [List.filter_cons_of_pos instant]
    exact (run.command (may instant) instant).settle lets
  · rw [List.filter_cons_of_neg instant, List.filter_nil, List.append_nil]
    cases c with
    | advance millis => exact (run.advance lets punctual settled millis).settle lets
    | _ => exact absurd rfl instant

theorem play {rest : List Command} (run : Run rule start cs none s)
    (lets : rule.LetsFirst) (punctual : start.Punctual) (settled : s.ready = [])
    (may : ∀ cs s c, Run rule start cs none s → s.ready = [] → c ∈ rest → c.isInstant = true →
      rule.comes s c) :
    Run rule start (cs ++ rest.filter (·.isInstant)) none (s.play rest).1 := by
  induction rest generalizing cs s with
  | nil =>
    rw [List.filter_nil, List.append_nil]
    exact run
  | cons c rest ih =>
    have first := run.perform lets punctual settled (may cs s c run settled (List.mem_cons_self ..))
    have then_ := ih first (ready_settle _) fun cs s c run settled mem =>
      may cs s c run settled (List.mem_cons_of_mem _ mem)
    rwa [List.append_assoc, ← List.filter_append, List.singleton_append] at then_

end Run

theorem run_play {start : Machine} (cs : List Command) (fresh : start.Fresh)
    (ofPool : ∀ c ∈ cs, c.isOfPool = true) :
    Run poolRule start (cs.filter (·.isInstant)) none (start.play cs).1 :=
  Run.start.play (fun _ _ _ => trivial) fresh.punctual fresh.ready fun _ _ c _ _ mem _ =>
    ofPool c mem

end Autoscaling.Machine
