import Autoscaling.Proofs.Machine.Control
import Autoscaling.Proofs.Machine.Steady

/-!
The course of a pass: from which stage a move leads to which, and what it tells on the way. What is
told adds to the history, and the history alone counts the reads of the store and knows of every
scaling that an evaluation records.
-/

namespace Autoscaling

namespace Pass

namespace Stage

def pass? : Stage → Option Pass
  | .opening => none
  | .visiting p | .checking _ p _ | .held _ p _ | .answering _ p _ | .submitting p .. => some p

def check? : Stage → Option Check
  | .checking _ _ c | .held _ _ c | .answering _ _ c => some c
  | _ => none

def submits? : Stage → Option WorkItem
  | .submitting _ i _ => some i
  | _ => none

def entries : Stage → List (String × JobPolicies)
  | .opening => []
  | .visiting p => p.rest
  | .checking _ p c | .held _ p c | .answering _ p c => (c.job, c.groups) :: p.rest
  | .submitting p i _ => (i.job, i.policies) :: p.rest

end Stage

def Turn.next? : Turn → Option Stage
  | .goOn stage | .wait stage => some stage
  | .ended _ => none

inductive Leads (s : Machine) : Stage → Turn → List Event → Prop
  | skip (busy : s.lifecycle.inPass = true) : Leads s .opening (.ended .skipped) []
  | fail (free : s.lifecycle.inPass = false) : Leads s .opening (.ended .fetchFailed) [.read]
  | lack (free : s.lifecycle.inPass = false) : Leads s .opening (.ended .noPolicies) [.read]
  | read (free : s.lifecycle.inPass = false) (stocked : s.store.entries ≠ []) :
      Leads s .opening
        (.goOn (.visiting { number := s.reads + 1, began := s.now, rest := s.store.entries }))
        [.read]
  | finish (ceases : p.rest = [] ∨ s.shutdown = true) :
      Leads s (.visiting p) (.ended (.completed p.report)) []
  | visit (next : p.rest = (job, groups) :: others) (running : s.shutdown = false) :
      Leads s (.visiting p)
        (.goOn (.checking .deployment
          { p with
            rest := others
            report := { p.report with jobsEvaluated := p.report.jobsEvaluated + 1 } }
          { job, groups, left := groups.entries }))
        []
  | pass (none : c.left = []) : Leads s (.checking q p c) (.goOn (p.decide c)) []
  | ask (next : c.left = (group, policy) :: left) :
      Leads s (.checking q p c) (.goOn (.answering q p c)) [q.asked c.job group policy.cooldown]
  | hold (next : c.left = (group, policy) :: left) :
      Leads s (.checking q p c) (.wait (.held q p c)) [q.asked c.job group policy.cooldown]
  | keep : Leads s (.held q p c) (.wait (.held q p c)) []
  | through (none : c.left = []) : Leads s (.answering q p c) (.goOn (p.decide c)) []
  | objects (next : c.left = (group, policy) :: left)
      (objects : s.scenario.objects q (c.job, group) policy.cooldown s.clock = true) :
      Leads s (.answering q p c) (.goOn (p.decide c)) []
  | steady (next : c.left = (group, policy) :: left)
      (steady : (c.job, group) ∉ s.scenario.deploying) :
      Leads s (.answering .deployment p c) (.goOn (.checking .cooldown p c)) []
  | clear (next : c.left = (group, policy) :: left)
      (cool : s.scenario.coolsDown (c.job, group) policy.cooldown s.clock = false) :
      Leads s (.answering .cooldown p c)
        (.goOn (.checking .deployment p { c with left, safe := true })) []
  | submit : Leads s (.submitting p i entered) (.goOn (.submitting p i true)) []
  | wait : Leads s (.submitting p i entered) (.wait (.submitting p i true)) []
  | accept : Leads s (.submitting p i entered) (.goOn (.visiting (p.submitted i.job))) [.accepted i]
  | refuse : Leads s (.submitting p i entered) (.goOn (.visiting p)) [.refused i]

structure Treads (s : Machine) (stage : Stage) (r : Machine × Turn) : Prop where
  leads : ∃ told, r.1.history = s.history ++ told ∧ r.1.reads = s.reads + told.count .read ∧
    Leads s stage r.2 told
  scalings : r.1.scenario.history = s.scenario.history
  head : ∀ a, s.ready.head? = some a → r.1.ready.head? = some a

variable {s : Machine} {stage next : Stage} {turn : Turn} {told : List Event}

@[simp] theorem read_ne_asked (q : Query) (job group : String) (cooldown : Duration) :
    .read ≠ q.asked job group cooldown := by
  cases q <;> nofun

theorem treads_silent {s' : Machine} (history : s'.history = s.history) (reads : s'.reads = s.reads)
    (scalings : s'.scenario.history = s.scenario.history) (ready : s'.ready = s.ready)
    (leads : Leads s stage turn []) : Treads s stage (s', turn) :=
  ⟨⟨[], by rw [history, List.append_nil], reads, leads⟩, scalings, fun a head => by rwa [ready]⟩

theorem treads_told {s' : Machine} {e : Event} (history : s'.history = s.history ++ [e])
    (reads : s'.reads = s.reads + [e].count .read)
    (scalings : s'.scenario.history = s.scenario.history) (ready : s'.ready = s.ready)
    (leads : Leads s stage turn [e]) : Treads s stage (s', turn) :=
  ⟨⟨[e], history, reads, leads⟩, scalings, fun a head => by rwa [ready]⟩

theorem treads_openStep (s : Machine) : Treads s .opening (openStep s) := by
  unfold openStep
  cases begins : s.lifecycle.beginPass? with
  | none =>
    refine treads_silent rfl rfl rfl rfl (.skip ?_)
    simpa [Lifecycle.beginPass?] using begins
  | some lifecycle =>
    have free : s.lifecycle.inPass = false := by
      unfold Lifecycle.beginPass? at begins
      split at begins
      · cases begins
      · next free => simpa using free
    dsimp only
    split
    · exact treads_told (Machine.history_log _ _) rfl rfl rfl (.fail free)
    · split
      · exact treads_told (Machine.history_log _ _) rfl rfl rfl (.lack free)
      · next stocked =>
        exact treads_told (Machine.history_log _ _) rfl rfl rfl
          (.read free fun none => stocked (List.isEmpty_iff.2 none))

theorem treads_visitStep (s : Machine) (p : Pass) : Treads s (.visiting p) (visitStep s p) := by
  have completes (ceases : p.rest = [] ∨ s.shutdown = true) :
      Treads s (.visiting p) (p.complete s) := by
    unfold complete
    dsimp only
    split <;> exact treads_silent rfl rfl rfl rfl (.finish ceases)
  unfold visitStep
  split
  · next none => exact completes (.inl none)
  · next job groups rest next =>
    split
    · next signalled => exact completes (.inr signalled)
    · next running =>
      exact treads_silent rfl rfl rfl rfl (.visit next (Bool.eq_false_iff.2 running))

theorem treads_checkStep (s : Machine) (c : Nat) (q : Query) (p : Pass) (check : Check) :
    Treads s (.checking q p check) (checkStep s c q p check) := by
  unfold checkStep
  split
  · next none => exact treads_silent rfl rfl rfl rfl (.pass none)
  · next group policy left next =>
    have reads : s.reads = s.reads + [q.asked check.job group policy.cooldown].count .read := by
      rw [List.count_eq_zero.2 (by simp), Nat.add_zero]
    dsimp only
    split
    · exact treads_told (Machine.history_log _ _) reads rfl rfl (.ask next)
    · split
      · exact treads_told (Machine.history_log _ _) reads rfl rfl (.ask next)
      · exact treads_told (Machine.history_log _ _) reads rfl rfl (.hold next)

theorem treads_answerStep (s : Machine) (q : Query) (p : Pass) (check : Check) :
    Treads s (.answering q p check) (answerStep s q p check) := by
  unfold answerStep
  split
  · next none => exact treads_silent rfl rfl rfl rfl (.through none)
  · next group policy left next =>
    split
    · next objects => exact treads_silent rfl rfl rfl rfl (.objects next objects)
    · next consents =>
      cases q with
      | deployment =>
        exact treads_silent rfl rfl rfl rfl (.steady next (by simpa [Scenario.objects] using consents))
      | cooldown =>
        exact treads_silent rfl rfl rfl rfl (.clear next (Bool.eq_false_iff.2 consents))

theorem treads_submitStep (s : Machine) (c : Nat) (p : Pass) (i : WorkItem) (entered : Bool) :
    Treads s (.submitting p i entered) (submitStep s c p i entered) := by
  unfold submitStep Machine.submit
  generalize s.pool.submit c i entered = r
  obtain ⟨pool, woken, turn⟩ := r
  have head (a : Agent) (h : s.ready.head? = some a) :=
    Machine.head_ready_wake (s := { s with pool := pool }) woken h
  cases turn with
  | goOn => exact ⟨⟨[], (List.append_nil _).symm, rfl, .submit⟩, rfl, head⟩
  | wait => exact ⟨⟨[], (List.append_nil _).symm, rfl, .wait⟩, rfl, head⟩
  | accepted => exact ⟨⟨[.accepted i], Machine.history_log _ _, rfl, .accept⟩, rfl, head⟩
  | refused => exact ⟨⟨[.refused i], Machine.history_log _ _, rfl, .refuse⟩, rfl, head⟩

theorem treads_step (s : Machine) (c : Nat) (stage : Stage) : Treads s stage (step s c stage) := by
  cases stage with
  | opening => exact treads_openStep s
  | visiting p => exact treads_visitStep s p
  | checking q p check => exact treads_checkStep s c q p check
  | held q p check => exact treads_silent rfl rfl rfl rfl .keep
  | answering q p check => exact treads_answerStep s q p check
  | submitting p i entered => exact treads_submitStep s c p i entered

theorem Leads.next_cases (leads : Leads s stage turn told) (goesOn : turn.next? = some next) :
    (stage = .opening ∧ s.lifecycle.inPass = false ∧ told = [.read] ∧
      next = .visiting { number := s.reads + 1, began := s.now, rest := s.store.entries }) ∨
    (stage ≠ .opening ∧ next.entries <:+ stage.entries ∧
      next.pass?.map (·.number) = stage.pass?.map (·.number) ∧ .read ∉ told) := by
  have decides (p : Pass) (c : Check) : (p.decide c).entries <:+ (c.job, c.groups) :: p.rest ∧
      (p.decide c).pass?.map (·.number) = some p.number := by
    unfold decide
    split
    · exact ⟨List.suffix_refl _, rfl⟩
    · exact ⟨List.suffix_cons .., rfl⟩
  cases leads with
  | skip | fail | lack | finish => cases goesOn
  | read free =>
    cases goesOn
    exact .inl ⟨rfl, free, rfl, rfl⟩
  | visit next =>
    cases goesOn
    exact .inr ⟨by simp, by simp [Stage.entries, next], rfl, by simp⟩
  | pass | through | objects =>
    cases goesOn
    exact .inr ⟨by simp, (decides _ _).1, (decides _ _).2, by simp⟩
  | accept | refuse =>
    cases goesOn
    exact .inr ⟨by simp, List.suffix_cons .., rfl, by simp⟩
  | _ =>
    cases goesOn
    exact .inr ⟨by simp, List.suffix_refl _, rfl, by simp⟩

theorem Leads.item_cases {i : WorkItem} (leads : Leads s stage turn told)
    (goesOn : turn.next? = some next) (item : next.submits? = some i) :
    stage.submits? = some i ∨ ∃ p c, stage.pass? = some p ∧ stage.check? = some c ∧
      c.safe = true ∧ i = ⟨c.job, c.groups, p.number⟩ := by
  have decides (p : Pass) (c : Check) (item : (p.decide c).submits? = some i) :
      c.safe = true ∧ i = ⟨c.job, c.groups, p.number⟩ := by
    unfold decide at item
    split at item
    · next safe => exact ⟨safe, (Option.some.inj item).symm⟩
    · cases item
  cases leads with
  | skip | fail | lack | finish => cases goesOn
  | pass | through | objects =>
    cases goesOn
    exact .inr ⟨_, _, rfl, rfl, decides _ _ item⟩
  | submit | wait =>
    cases goesOn
    exact .inl item
  | _ =>
    cases goesOn
    cases item

theorem Leads.accepted_cases (leads : Leads s stage turn told) :
    marked .accepted told = [] ∨ ∃ p i entered, stage = .submitting p i entered ∧
      turn = .goOn (.visiting (p.submitted i.job)) ∧ told = [.accepted i] := by
  cases leads with
  | accept => exact .inr ⟨_, _, _, rfl, rfl, rfl⟩
  | ask | hold => exact .inl (by simp)
  | _ => exact .inl rfl

end Pass

def Call.ofOwner : Call → Bool
  | .submitting .. => false
  | _ => true

def History.recordAll (h : History) (job : String) (groups : List String) (t : Time) : History :=
  groups.foldl (fun h group => h.record job group t) h

theorem Scenario.history_recordAll (x : Scenario) (job : String) (groups : List String) (t : Time) :
    (recordAll job groups t x).history = x.history.recordAll job groups t := by
  unfold recordAll History.recordAll
  induction groups generalizing x with
  | nil => rfl
  | cons group groups ih => exact ih _

def Call.isNew : Call → Bool
  | .submitting _ false | .evaluating .opening | .entering | .stopping | .releasing => true
  | _ => false

def Event.inquires : Event → Bool
  | .read | .askedDeploying .. | .askedCooldown .. => true
  | _ => false

def Incurious (events : List Event) : Prop := ∀ e ∈ events, e.inquires = false

theorem incurious_nil : Incurious [] := fun _ => (nomatch ·)

theorem incurious_singleton {e : Event} (other : e.inquires = false) : Incurious [e] :=
  fun _ mem => List.mem_singleton.1 mem ▸ other

theorem Incurious.unread {events : List Event} (quiet : Incurious events) : .read ∉ events :=
  fun mem => nomatch quiet _ mem

namespace Machine

structure Tale (s s' : Machine) (told : List Event) : Prop where
  history : s'.history = s.history ++ told
  reads : s'.reads = s.reads + told.count .read
  scalings : s'.scenario.history = s.scenario.history ∨ ∃ i t, .finished i ∈ told ∧
    s'.scenario.history = s.scenario.history.recordAll i.job i.policies.keys t

inductive Course (s : Machine) : Call → Call → List Event → Prop
  | go (hosts : Hosts within after) (leads : Pass.Leads s stage turn told)
      (goesOn : turn.next? = some next) :
      Course s (within stage) (within next) told
  | finish (hosts : Hosts within after) (leads : Pass.Leads s stage (.ended o) told)
      (closing : ∀ e ∈ last, ∃ a, e = .answered a) :
      Course s (within stage) after (told ++ last)
  | apart (before : x.stage? = none) (after : y.stage? = none ∨ y.stage? = some .opening)
      (quiet : Incurious told)
      (owner : x.ofOwner = true → y.ofOwner = true ∧ ∀ k, marked k told = []) :
      Course s x y told

variable {s s' : Machine} {c : Nat} {told : List Event} {x y : Call}

theorem tale_silent (history : s'.history = s.history) (reads : s'.reads = s.reads)
    (scalings : s'.scenario.history = s.scenario.history) : Tale s s' [] :=
  ⟨by rw [history, List.append_nil], reads, .inl scalings⟩

theorem tale_told {e : Event} (history : s'.history = s.history ++ [e]) (reads : s'.reads = s.reads)
    (unread : e ≠ .read) (scalings : s'.scenario.history = s.scenario.history) :
    Tale s s' [e] :=
  ⟨history, by rw [reads, List.count_singleton, if_neg (by simpa using unread)]; rfl,
    .inl scalings⟩

def Courses (s : Machine) (c : Nat) (s' : Machine) : Prop :=
  ∃ told, Tale s s' told ∧ Course s (s.call c) (s'.call c) told

theorem courses_silent (history : s'.history = s.history) (reads : s'.reads = s.reads)
    (scalings : s'.scenario.history = s.scenario.history) (call : s.call c = x)
    (call' : s'.call c = y) (before : x.stage? = none)
    (after : y.stage? = none ∨ y.stage? = some .opening)
    (owner : x.ofOwner = true → y.ofOwner = true) : s.Courses c s' := by
  refine ⟨[], tale_silent history reads scalings, ?_⟩
  rw [call, call']
  exact .apart before after incurious_nil fun own => ⟨owner own, fun _ => rfl⟩

theorem courses_told {e : Event} (history : s'.history = s.history ++ [e])
    (reads : s'.reads = s.reads) (scalings : s'.scenario.history = s.scenario.history)
    (other : e.inquires = false ∧ e.mark? = none) (call : s.call c = x) (call' : s'.call c = y)
    (before : x.stage? = none) (after : y.stage? = none ∨ y.stage? = some .opening)
    (owner : x.ofOwner = true → y.ofOwner = true) : s.Courses c s' := by
  have quiet := incurious_singleton other.1
  refine ⟨[e], tale_told history reads (by simpa [eq_comm] using quiet.unread) scalings, ?_⟩
  rw [call, call']
  refine .apart before after quiet fun own => ⟨owner own, fun k => ?_⟩
  simp [Event.marked?, other.2]

structure Ends (c : Nat) (after : Call) (s s' : Machine) : Prop where
  told : ∃ last, s'.history = s.history ++ last ∧ ∀ e ∈ last, ∃ a, e = .answered a
  reads : s'.reads = s.reads
  scalings : s'.scenario.history = s.scenario.history
  call : s'.call c = after

theorem courses_stepPass {stage : Pass.Stage} {within : Pass.Stage → Call} {after : Call}
    {ended : Machine → Outcome → Machine} (hosts : Hosts within after)
    (call : s.call c = within stage)
    (ends : ∀ s' o, s'.call c = s.call c → Ends c after s' (ended s' o)) :
    s.Courses c (s.stepPass c stage within ended) := by
  have same := (moves_step s c stage).keeps.call c
  obtain ⟨⟨told, history, reads, leads⟩, scalings, _⟩ := Pass.treads_step s c stage
  have ne : s.call c ≠ .returned := by
    rw [call]
    cases hosts <;> simp
  unfold stepPass
  generalize Pass.step s c stage = r at same history reads leads scalings
  obtain ⟨s₁, turn⟩ := r
  dsimp only at same history reads leads scalings
  have set (x : Call) : (s₁.setCall c x).call c = x := call_setCall_self (by rwa [same]) x
  cases turn with
  | goOn next | wait next =>
    refine ⟨told, ⟨history, reads, .inl scalings⟩, ?_⟩
    have eq : (s₁.setCall c (within next)).call c = within next := set _
    rw [call]
    exact eq ▸ .go hosts leads rfl
  | ended o =>
    obtain ⟨⟨last, history', closing⟩, reads', scalings', after⟩ := ends s₁ o same
    have unread : last.count .read = 0 := List.count_eq_zero.2 fun mem => by
      obtain ⟨a, eq⟩ := closing _ mem
      cases eq
    refine ⟨told ++ last, ⟨?_, ?_, .inl (scalings'.trans scalings)⟩, ?_⟩
    · rw [history', history, List.append_assoc]
    · rw [reads', reads, List.count_append, unread, Nat.add_zero]
    · rw [call, after]
      exact .finish hosts leads closing

@[simp] theorem reads_signalShutdown (s : Machine) : s.signalShutdown.reads = s.reads := by
  unfold signalShutdown
  split <;> rfl

@[simp] theorem scenario_signalShutdown (s : Machine) :
    s.signalShutdown.scenario = s.scenario := by
  unfold signalShutdown
  split <;> rfl

theorem courses_answer {a : Answer} (call : s.call c = x) (before : x.stage? = none)
    (history : s'.history = s.history) (reads : s'.reads = s.reads)
    (scalings : s'.scenario.history = s.scenario.history) : s.Courses c (s'.answer c a) := by
  refine courses_told (e := .answered a) ?_ reads scalings ⟨rfl, rfl⟩ call
    (call_setCall_returned s' c) before (.inl rfl) fun _ => rfl
  rw [← history]
  exact history_log (s'.setCall c .returned) _

theorem courses_setCall (call : s.call c = x) (same : s'.call c = x) (ne : x ≠ .returned)
    (before : x.stage? = none) (after : y.stage? = none ∨ y.stage? = some .opening)
    (owner : x.ofOwner = true → y.ofOwner = true) (history : s'.history = s.history)
    (reads : s'.reads = s.reads) (scalings : s'.scenario.history = s.scenario.history) :
    s.Courses c (s'.setCall c y) :=
  courses_silent history reads scalings call (call_setCall_self (by rwa [same]) y) before after
    owner

theorem courses_stepSubmitter {items : List WorkItem} {entered : Bool}
    (call : s.call c = .submitting items entered) :
    s.Courses c (s.stepSubmitter c items entered) := by
  have ne : s.call c ≠ .returned := by simp [call]
  unfold stepSubmitter
  split
  · exact courses_silent rfl rfl rfl call (call_setCall_self ne .returned) rfl (.inl rfl) nofun
  · next i rest =>
    unfold submit
    generalize s.pool.submit c i entered = r
    obtain ⟨pool, woken, turn⟩ := r
    have set (x : Call) : ({ s with pool }.setCall c x).call c = x :=
      call_setCall_self (s := { s with pool }) ne x
    cases turn with
    | goOn | wait => exact courses_silent rfl rfl rfl call (set _) rfl (.inl rfl) nofun
    | accepted =>
      refine ⟨[.accepted i, .answered (.submit i.job true)], ⟨?_, rfl, .inl rfl⟩, ?_⟩
      · exact (history_log _ _).trans (congrArg (· ++ _) (history_log _ _) |>.trans
          (List.append_assoc ..))
      · rw [call]
        exact (set _) ▸ .apart rfl (.inl rfl) (by simp [Incurious, Event.inquires]) nofun
    | refused =>
      refine ⟨[.refused i, .answered (.submit i.job false)], ⟨?_, rfl, .inl rfl⟩, ?_⟩
      · exact (history_log _ _).trans (congrArg (· ++ _) (history_log _ _) |>.trans
          (List.append_assoc ..))
      · rw [call]
        exact (set _) ▸ .apart rfl (.inl rfl) (by simp [Incurious, Event.inquires]) nofun

theorem courses_stepLoop {tick : Nat} (call : s.call c = .selecting tick) :
    s.Courses c (s.stepLoop c tick) := by
  unfold stepLoop
  split
  · exact courses_answer call rfl rfl rfl rfl
  · split
    · exact courses_told (history_log _ _) rfl rfl ⟨rfl, rfl⟩ call
        (call_setCall_self (s := s.cancel (.caller c)) (by change s.call c ≠ _; simp [call]) _) rfl
        (.inr rfl) fun _ => rfl
    · exact courses_silent rfl rfl rfl call call rfl (.inl rfl) id

theorem courses_stop (call : s.call c = .stopping) : s.Courses c (s.stepCaller c) := by
  unfold stepCaller
  rw [call]
  dsimp only
  split
  · exact courses_answer call rfl rfl rfl rfl
  · next lifecycle _ =>
    refine courses_silent ?_ ?_ ?_ call (y := .polling) ?_ rfl (.inl rfl) fun _ => rfl
    · rw [history_signalShutdown]
      rfl
    · rw [reads_signalShutdown]
      rfl
    · rw [scenario_signalShutdown]
      rfl
    · rw [call_signalShutdown]
      exact call_setCall_self (s := { s with lifecycle }) (by change s.call c ≠ _; simp [call]) _

theorem courses_beginRelease {stop : Bool} (call : s.call c = x) (ne : x ≠ .returned)
    (before : x.stage? = none) : s.Courses c (s.beginRelease c stop) :=
  courses_silent rfl rfl rfl call
    (call_setCall_self (s := { s with pool := s.pool.release.1 }) (by
      change s.call c ≠ _
      rwa [call]) (.joining stop s.pool.handles))
    before (.inl rfl) fun _ => rfl

theorem courses_stepCaller (s : Machine) (c : Nat) : s.Courses c (s.stepCaller c) := by
  cases call : s.call c with
  | submitting items entered =>
    simp only [stepCaller, call]
    exact courses_stepSubmitter call
  | stopping => exact courses_stop call
  | evaluating stage =>
    simp only [stepCaller, call]
    refine courses_stepPass .evaluating call fun s' o _ => ⟨⟨[.answered (.evaluate o)], ?_, ?_⟩,
      rfl, rfl, call_setCall_returned s' c⟩
    · exact history_log (s'.setCall c .returned) _
    · simp
  | ticking following stage =>
    simp only [stepCaller, call]
    refine courses_stepPass .ticking call fun s' o same => ⟨⟨[], (List.append_nil _).symm, by simp⟩,
      rfl, rfl, call_setCall_self (by simp [same, call]) _⟩
  | entering =>
    simp only [stepCaller, call]
    split
    · exact courses_answer call rfl rfl rfl rfl
    · exact courses_setCall call call (by simp) rfl (.inl rfl) (fun _ => rfl) rfl rfl rfl
  | selecting tick =>
    simp only [stepCaller, call]
    exact courses_stepLoop call
  | polling =>
    simp only [stepCaller, call]
    split
    · exact courses_beginRelease call (by simp) rfl
    · exact courses_setCall call call (by simp) rfl (.inl rfl) (fun _ => rfl) rfl rfl rfl
  | sleeping wakeAt =>
    simp only [stepCaller, call]
    split
    · exact courses_setCall call call (by simp) rfl (.inl rfl) (fun _ => rfl) rfl rfl rfl
    · exact courses_silent rfl rfl rfl call call rfl (.inl rfl) id
  | releasing =>
    simp only [stepCaller, call]
    exact courses_beginRelease call (by simp) rfl
  | joining stop handles =>
    cases handles with
    | nil =>
      simp only [stepCaller, call]
      split <;> exact courses_answer call rfl rfl rfl rfl
    | cons w ws =>
      simp only [stepCaller, call]
      split
      · exact courses_setCall call call (by simp) rfl (.inl rfl) (fun _ => rfl) rfl rfl rfl
      · exact courses_silent rfl rfl rfl call call rfl (.inl rfl) id
  | returned =>
    simp only [stepCaller, call]
    exact courses_silent rfl rfl rfl call call rfl (.inl rfl) id

def Toils (s s' : Machine) : Prop :=
  ∃ told, Tale s s' told ∧ Incurious told ∧ marked .accepted told = []

theorem toils_silent (history : s'.history = s.history) (reads : s'.reads = s.reads)
    (scalings : s'.scenario.history = s.scenario.history) : s.Toils s' :=
  ⟨[], tale_silent history reads scalings, incurious_nil, rfl⟩

theorem toils_told {e : Event} (history : s'.history = s.history ++ [e])
    (reads : s'.reads = s.reads) (scalings : s'.scenario.history = s.scenario.history)
    (other : e.inquires = false ∧ e.marked? .accepted = none) : s.Toils s' :=
  have quiet := incurious_singleton other.1
  ⟨[e], tale_told history reads (by simpa [eq_comm] using quiet.unread) scalings, quiet,
    by simp [other.2]⟩

theorem toils_stepWorker (s : Machine) (w : Nat) : s.Toils (s.stepWorker w) := by
  unfold stepWorker
  split
  · exact toils_silent rfl rfl rfl
  · split
    · exact toils_silent rfl rfl rfl
    · exact toils_told (history_log _ _) rfl rfl ⟨rfl, rfl⟩
    · exact toils_silent rfl rfl rfl
  · split
    · exact toils_told (history_log _ _) rfl rfl ⟨rfl, rfl⟩
    · exact toils_silent rfl rfl rfl
  all_goals exact toils_silent rfl rfl rfl

theorem toils_finishEvaluation {w : Nat} {i : WorkItem} (history : s'.history = s.history ++ told)
    (reads : s'.reads = s.reads) (scalings : s'.scenario.history = s.scenario.history)
    (begun : ∀ e ∈ told, ∃ j, e = .started j) : s.Toils (s'.finishEvaluation w i) := by
  have quiet : Incurious (told ++ [.finished i]) := fun e mem => by
    rcases List.mem_append.1 mem with mem | mem
    · obtain ⟨j, rfl⟩ := begun _ mem
      rfl
    · rw [List.mem_singleton.1 mem]
      rfl
  have none : marked .accepted (told ++ [.finished i]) = [] :=
    List.filterMap_eq_nil_iff.2 fun e mem => by
      rcases List.mem_append.1 mem with mem | mem
      · obtain ⟨j, rfl⟩ := begun _ mem
        rfl
      · rw [List.mem_singleton.1 mem]
        rfl
  have history : (s'.log (.finished i)).history = s.history ++ (told ++ [.finished i]) := by
    rw [history_log, history, List.append_assoc]
  have reads : s'.reads = s.reads + (told ++ [Event.finished i]).count .read := by
    rw [reads, List.count_eq_zero.2 quiet.unread, Nat.add_zero]
  refine ⟨told ++ [.finished i], ?_, quiet, none⟩
  unfold finishEvaluation
  dsimp only
  split
  · refine ⟨history, reads, .inr ⟨i, s'.clock, by simp, ?_⟩⟩
    rw [← scalings]
    exact Scenario.history_recordAll s'.scenario ..
  · exact ⟨history, reads, .inl scalings⟩

theorem toils_stepEvaluation (s : Machine) (w : Nat) : s.Toils (s.stepEvaluation w) := by
  have ends (i : WorkItem) : s.Toils (s.finishEvaluation w i) :=
    toils_finishEvaluation (List.append_nil _).symm rfl rfl (by simp)
  unfold stepEvaluation
  split
  · next i _ =>
    have begun : (s.log (.started i)).history = s.history ++ [.started i] := history_log _ _
    dsimp only
    split
    · exact toils_finishEvaluation begun rfl rfl (by simp)
    · exact toils_told begun rfl rfl ⟨rfl, rfl⟩
    · refine ⟨[.started i, .panicked i], ⟨?_, rfl, .inl rfl⟩,
        by simp [Incurious, Event.inquires], rfl⟩
      exact (history_log _ _).trans ((congrArg (· ++ _) begun).trans (List.append_assoc ..))
    · split
      · have permitted : ((s.log (.started i)).direct (.spend i.job)).history =
            s.history ++ [.started i] := begun
        exact toils_finishEvaluation permitted rfl rfl (by simp)
      · exact toils_told begun rfl rfl ⟨rfl, rfl⟩
  · split
    · exact ends _
    · exact toils_silent rfl rfl rfl
  · exact ends _
  · exact toils_silent rfl rfl rfl

theorem course_step {a : Agent} (head : s.ready.head? = some a) :
    (∃ c, a = .caller c ∧ s.Courses c s.step) ∨ ((∀ c, a ≠ .caller c) ∧ s.Toils s.step) := by
  unfold step
  rw [head]
  cases a with
  | worker w => exact .inr ⟨by simp, toils_stepWorker s w⟩
  | evaluation w => exact .inr ⟨by simp, toils_stepEvaluation s w⟩
  | caller c => exact .inl ⟨c, rfl, courses_stepCaller s c⟩

structure Stays (s s' : Machine) : Prop where
  store : s'.store = s.store
  interval : s'.interval = s.interval

theorem stays_stepWorker (s : Machine) (w : Nat) : Stays s (s.stepWorker w) := by
  unfold stepWorker
  repeat' split
  all_goals exact ⟨rfl, rfl⟩

theorem stays_stepEvaluation (s : Machine) (w : Nat) : Stays s (s.stepEvaluation w) := by
  have ends (s : Machine) (i : WorkItem) : Stays s (s.finishEvaluation w i) := by
    unfold finishEvaluation
    dsimp only
    split <;> exact ⟨rfl, rfl⟩
  unfold stepEvaluation
  split
  · dsimp only
    split
    · exact ⟨(ends _ _).store, (ends _ _).interval⟩
    · exact ⟨rfl, rfl⟩
    · exact ⟨rfl, rfl⟩
    · split
      · exact ⟨(ends _ _).store, (ends _ _).interval⟩
      · exact ⟨rfl, rfl⟩
  · split
    · exact ends s _
    · exact ⟨rfl, rfl⟩
  · exact ends s _
  · exact ⟨rfl, rfl⟩

theorem stays_stepSubmitter (s : Machine) (c : Nat) (items : List WorkItem) (entered : Bool) :
    Stays s (s.stepSubmitter c items entered) := by
  unfold stepSubmitter
  split
  · exact ⟨rfl, rfl⟩
  · next i _ =>
    have keeps := keeps_submit s c i entered
    generalize s.submit c i entered = r at keeps
    obtain ⟨s₁, turn⟩ := r
    cases turn <;> exact ⟨keeps.store, keeps.interval⟩

theorem stays_stepPass {stage : Pass.Stage} {within : Pass.Stage → Call}
    {ended : Machine → Outcome → Machine} (ends : ∀ s o, Stays s (ended s o)) :
    Stays s (s.stepPass c stage within ended) := by
  have keeps := (moves_step s c stage).keeps
  unfold stepPass
  generalize Pass.step s c stage = r at keeps
  obtain ⟨s₁, turn⟩ := r
  cases turn with
  | goOn | wait => exact ⟨keeps.store, keeps.interval⟩
  | ended o =>
    have after := ends s₁ o
    exact ⟨after.store.trans keeps.store, after.interval.trans keeps.interval⟩

theorem stays_stepCaller (s : Machine) (c : Nat) : Stays s (s.stepCaller c) := by
  unfold stepCaller
  split
  · exact stays_stepSubmitter ..
  · exact stays_stepPass fun _ _ => ⟨rfl, rfl⟩
  · split <;> exact ⟨rfl, rfl⟩
  · unfold stepLoop
    repeat' split
    all_goals exact ⟨rfl, rfl⟩
  · exact stays_stepPass fun _ _ => ⟨rfl, rfl⟩
  · split
    · exact ⟨rfl, rfl⟩
    · unfold signalShutdown
      split <;> exact ⟨rfl, rfl⟩
  · split <;> exact ⟨rfl, rfl⟩
  · split <;> exact ⟨rfl, rfl⟩
  · exact ⟨rfl, rfl⟩
  · split <;> exact ⟨rfl, rfl⟩
  · split <;> exact ⟨rfl, rfl⟩
  · exact ⟨rfl, rfl⟩

theorem stays_step (s : Machine) : Stays s s.step := by
  unfold step
  split
  · exact ⟨rfl, rfl⟩
  · exact stays_stepWorker ..
  · exact stays_stepEvaluation ..
  · exact stays_stepCaller ..

theorem call_apply (s : Machine) {k : Command} (instant : k.isInstant = true) (d : Nat) :
    (s.apply k).call d = s.call d ∨ (s.apply k).call d = freeCall (s.call d) ∨
      (d = s.calls.length ∧ ((s.apply k).call d).isNew = true ∧
        (((s.apply k).call d).ofOwner = true ∨ ∃ items, k = .submit items)) := by
  have begins {x : Call} (new : x.isNew = true)
      (owner : x.ofOwner = true ∨ ∃ items, k = .submit items) :
      (s.begin x).call d = s.call d ∨ (s.begin x).call d = freeCall (s.call d) ∨
        (d = s.calls.length ∧ ((s.begin x).call d).isNew = true ∧
          (((s.begin x).call d).ofOwner = true ∨ ∃ items, k = .submit items)) := by
    rw [call_begin]
    split
    · next eq => exact .inr (.inr ⟨eq, new, owner⟩)
    · exact .inl rfl
  cases k with
  | advance => cases instant
  | submit items => exact begins rfl (.inr ⟨items, rfl⟩)
  | evaluate | run | stop | release => exact begins rfl (.inl rfl)
  | unhold job =>
    refine .inl ?_
    rw [apply, call, calls_unhold, call]
  | unholdAnswer q =>
    simp only [apply, unholdAnswer]
    split
    · next m c _ =>
      by_cases own : d = c
      · subst own
        by_cases past : s.call d = .returned
        · refine .inl ?_
          rw [past]
          exact call_setCall_returned { s with questionLine := _ } d
        · exact .inr (.inl (call_setCall_self (s := { s with questionLine := _ }) past _))
      · exact .inl (call_setCall_of_ne _ own)
    · exact .inl rfl
  | shutdown => exact .inl (call_signalShutdown s d)
  | _ => exact .inl rfl

structure Spares (s s' : Machine) : Prop where
  reads : s'.reads = s.reads
  now : s'.now = s.now
  interval : s'.interval = s.interval
  timers : s'.timers = s.timers
  ready : ∀ b ∈ s.ready, b ∈ s'.ready
  length : s.calls.length ≤ s'.calls.length

theorem spares_apply (s : Machine) {k : Command} (instant : k.isInstant = true) :
    Spares s (s.apply k) := by
  have wakes {s' : Machine} (l : List Agent) (same : s'.ready = s.ready) :
      ∀ b ∈ s.ready, b ∈ (s'.wake l).ready := fun b mem =>
    (mem_ready_wake l).2 (.inl (same ▸ mem))
  have begins (x : Call) : Spares s (s.begin x) :=
    ⟨rfl, rfl, rfl, rfl, wakes _ rfl, Nat.le_of_lt (by simp [begin, wake])⟩
  cases k with
  | advance => cases instant
  | submit | evaluate | run | stop | release => exact begins _
  | unhold job =>
    simp only [apply, unhold, freeEvaluation]
    repeat' split
    · exact ⟨rfl, rfl, rfl, rfl, wakes _ rfl, Nat.le_refl _⟩
    · exact ⟨rfl, rfl, rfl, rfl, fun _ => id, Nat.le_refl _⟩
    · exact ⟨rfl, rfl, rfl, rfl, fun _ => id, Nat.le_refl _⟩
  | unholdAnswer q =>
    simp only [apply, unholdAnswer]
    split
    · exact ⟨rfl, rfl, rfl, rfl, wakes _ rfl, Nat.le_of_eq (List.length_set).symm⟩
    · exact ⟨rfl, rfl, rfl, rfl, fun _ => id, Nat.le_refl _⟩
  | shutdown =>
    simp only [apply, signalShutdown]
    split
    · exact ⟨rfl, rfl, rfl, rfl, fun _ => id, Nat.le_refl _⟩
    · exact ⟨rfl, rfl, rfl, rfl, wakes _ rfl, Nat.le_refl _⟩
  | _ => exact ⟨rfl, rfl, rfl, rfl, fun _ => id, Nat.le_refl _⟩

end Machine

end Autoscaling
