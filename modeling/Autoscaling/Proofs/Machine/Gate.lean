import Autoscaling.Proofs.Machine.Course

namespace Autoscaling.Machine

variable {s s' start : Machine} {turn : Option Agent} {a : Agent} {cs : List Command} {c d : Nat}
  {woken : List Agent} {events told : List Event}

structure Gated (s : Machine) : Prop where
  alone : ∀ c d, (s.call c).inPass = true → (s.call d).inPass = true → c = d
  gate : s.lifecycle.inPass = true ↔ ∃ c, (s.call c).inPass = true

namespace Gated

theorem of_eq (gated : s.Gated) (calls : ∀ c, (s'.call c).inPass = (s.call c).inPass)
    (gate : s'.lifecycle.inPass = s.lifecycle.inPass) : s'.Gated := by
  constructor
  · intro c d
    rw [calls, calls]
    exact gated.alone c d
  · simp only [gate, calls]
    exact gated.gate

theorem not_inPass (gated : s.Gated) (free : s.lifecycle.inPass = false) (c : Nat) :
    (s.call c).inPass = false :=
  Bool.eq_false_iff.2 fun amid => by
    have shut := gated.gate.2 ⟨c, amid⟩
    rw [free] at shut
    cases shut

theorem others (gated : s.Gated) (amid : (s.call c).inPass = true) (ne : d ≠ c) :
    (s.call d).inPass = false :=
  Bool.eq_false_iff.2 fun amid' => ne (gated.alone d c amid' amid)

theorem next (gated : s.Gated) (others : ∀ d, d ≠ c → s'.call d = s.call d)
    (swings : Swings (s.call c).inPass (s'.call c).inPass s.lifecycle.inPass s'.lifecycle.inPass) :
    s'.Gated := by
  rcases swings with ⟨own, gate⟩ | ⟨_, free, amid, shut⟩ | ⟨amid, out, free⟩
  · refine gated.of_eq (fun d => ?_) gate
    by_cases eq : d = c
    · rw [eq, own]
    · rw [others d eq]
  · have only {d : Nat} (h : (s'.call d).inPass = true) : d = c := by
      by_contra ne
      rw [others d ne, gated.not_inPass free] at h
      cases h
    exact ⟨fun d e hd he => (only hd).trans (only he).symm, fun _ => ⟨c, amid⟩, fun _ => shut⟩
  · have none (d : Nat) : (s'.call d).inPass = false := by
      by_cases eq : d = c
      · rw [eq, out]
      · rw [others d eq, gated.others amid eq]
    exact ⟨by simp [none], by simp [none, free]⟩

end Gated

theorem inPass_freeCall (x : Call) : (freeCall x).inPass = x.inPass := by
  have stage (st : Pass.Stage) {within after} (hosts : Hosts within after) :
      (within (freeStage st)).inPass = (within st).inPass := by
    rw [hosts.inPass, hosts.inPass]
    cases st <;> rfl
  cases x with
  | evaluating st => exact stage st .evaluating
  | ticking next st => exact stage st .ticking
  | _ => rfl

theorem inPass_of_isNew {x : Call} (new : x.isNew = true) : x.inPass = false := by
  cases x with
  | evaluating st => cases st <;> first | rfl | cases new
  | ticking => cases new
  | _ => rfl

theorem inPass_apply (s : Machine) {k : Command} (instant : k.isInstant = true) (c : Nat) :
    ((s.apply k).call c).inPass = (s.call c).inPass := by
  rcases call_apply s instant c with same | freed | ⟨rfl, new, _⟩
  · rw [same]
  · rw [freed, inPass_freeCall]
  · rw [inPass_of_isNew new, call_length]
    rfl

theorem beside_gate (beside : (s.call c).ofLoop = false) :
    (s.stepCaller c).lifecycle = s.lifecycle ∧ (s.call c).inPass = false ∧
      ((s.stepCaller c).call c).inPass = false := by
  have out {x : Call} (stage : x.stage? = none ∨ x.stage? = some .opening) : x.inPass = false := by
    unfold Call.inPass
    rcases stage with eq | eq <;> rw [eq]
  refine ⟨?_, ?_⟩
  · cases call : s.call c with
    | submitting items entered =>
      simp only [stepCaller, call, stepSubmitter]
      split
      · rfl
      · unfold submit
        generalize s.pool.submit c _ entered = r
        obtain ⟨pool, woken, turn⟩ := r
        cases turn <;> rfl
    | releasing =>
      simp only [stepCaller, call]
      rfl
    | joining stop handles =>
      rw [call] at beside
      cases stop with
      | true => cases beside
      | false =>
        cases handles with
        | nil =>
          simp only [stepCaller, call]
          rfl
        | cons w ws =>
          simp only [stepCaller, call]
          split <;> rfl
    | _ =>
      rw [call] at beside
      cases beside
  · obtain ⟨told, _, course⟩ := courses_stepCaller s c
    generalize s.call c = x at beside course
    generalize (s.stepCaller c).call c = y at course
    cases course with
    | go hosts | finish hosts => cases hosts <;> cases beside
    | apart before after => exact ⟨out (.inl before), out after⟩

theorem step_of_caller (head : s.ready.head? = some (.caller c)) : s.step = s.stepCaller c := by
  rw [step, head]

theorem swings_stepCaller (s : Machine) (c : Nat) :
    Swings (s.call c).inPass ((s.stepCaller c).call c).inPass s.lifecycle.inPass
      (s.stepCaller c).lifecycle.inPass := by
  cases ofLoop : (s.call c).ofLoop with
  | true =>
    obtain ⟨_, _, deed⟩ := does_stepCaller ofLoop
    exact deed.swings
  | false =>
    obtain ⟨same, before, after⟩ := beside_gate ofLoop
    exact .inl ⟨after.trans before.symm, by rw [same]⟩

theorem Gated.step (gated : s.Gated) (act : Act s a woken events s.step)
    (head : s.ready.head? = some a) : s.step.Gated := by
  have still (other : ∀ c, a ≠ .caller c) (apart : Apart s s.step) : s.step.Gated :=
    gated.of_eq (fun c => by rw [act.calls c (other c)]) (by rw [apart.lifecycle])
  cases a with
  | worker w =>
    refine still (by simp) ?_
    simp only [Machine.step, head]
    exact apart_stepWorker s w
  | evaluation w =>
    refine still (by simp) ?_
    simp only [Machine.step, head]
    exact apart_stepEvaluation s w
  | caller c =>
    refine gated.next (c := c) (fun d ne => act.calls d fun eq => ne (Agent.caller.inj eq).symm) ?_
    rw [step_of_caller head]
    exact swings_stepCaller s c

theorem Run.gated {rule : Rule} (run : Run rule start cs turn s) (fresh : start.Fresh) :
    s.Gated := by
  induction run with
  | start =>
    have out (c : Nat) : (start.call c).inPass = false := by
      simp [call, fresh.calls, Call.inPass, Call.stage?]
    exact ⟨by simp [out], by simp [out, fresh.lifecycle]⟩
  | @command _ s c _ _ instant ih =>
    exact ih.of_eq (inPass_apply s instant) (by rw [(journal_apply s instant).2.2])
  | elapse _ _ _ _ ih | choose _ _ _ ih => exact ih.of_eq (fun _ => rfl) rfl
  | move run _ ih | pause run _ ih =>
    obtain ⟨_, _, act⟩ := run.act fresh
    exact ih.step act run.head_of_turn

theorem opening_of_out {x : Call} {stage : Pass.Stage} (out : x.inPass = false)
    (call : x.stage? = some stage) : stage = .opening := by
  unfold Call.inPass at out
  rw [call] at out
  cases stage <;> first | rfl | cases out

theorem Hosts.stage? {within : Pass.Stage → Call} {after : Call} (hosts : Hosts within after)
    (stage : Pass.Stage) : (within stage).stage? = some stage ∧ after.stage? = none := by
  cases hosts <;> exact ⟨rfl, rfl⟩

theorem unmarked_of_answers {last : List Event} (closing : ∀ e ∈ last, ∃ a, e = .answered a) :
    .read ∉ last ∧ marked .accepted last = [] := by
  refine ⟨fun mem => ?_, List.filterMap_eq_nil_iff.2 fun e mem => ?_⟩
  · obtain ⟨a, eq⟩ := closing _ mem
    cases eq
  · obtain ⟨a, rfl⟩ := closing _ mem
    rfl

theorem Course.stage_cases {x y : Call} (course : Course s x y told) {next : Pass.Stage}
    (stands : y.stage? = some next) :
    next = .opening ∨ ∃ stage turn, x.stage? = some stage ∧ Pass.Leads s stage turn told ∧
      turn.next? = some next := by
  cases course with
  | @go _ _ stage turn _ _ hosts leads goesOn =>
    rw [(hosts.stage? _).1] at stands
    cases stands
    exact .inr ⟨stage, turn, (hosts.stage? _).1, leads, goesOn⟩
  | finish hosts =>
    rw [(hosts.stage? .opening).2] at stands
    cases stands
  | apart _ after =>
    rcases after with none | opening
    · rw [none] at stands
      cases stands
    · exact .inl (Option.some.inj (stands.symm.trans opening))

theorem Course.ofOwner {x y : Call} (course : Course s x y told) (owner : x.ofOwner = true) :
    y.ofOwner = true := by
  cases course with
  | go hosts | finish hosts => cases hosts <;> rfl
  | apart _ _ _ owns => exact (owns owner).1

theorem Course.accepted_cases {x y : Call} (course : Course s x y told)
    (owner : x.ofOwner = true) :
    marked .accepted told = [] ∨ ∃ p i entered, x.stage? = some (.submitting p i entered) ∧
      told = [.accepted i] := by
  cases course with
  | go hosts leads =>
    rcases leads.accepted_cases with none | ⟨p, i, entered, rfl, _, rfl⟩
    · exact .inl none
    · exact .inr ⟨p, i, entered, (hosts.stage? _).1, rfl⟩
  | finish hosts leads closing =>
    refine .inl ?_
    rcases leads.accepted_cases with none | ⟨_, _, _, _, eq, _⟩
    · rw [marked_append, none, (unmarked_of_answers closing).2]
      rfl
    · cases eq
  | apart _ _ _ owns => exact .inl ((owns owner).2 .accepted)

theorem Course.quiet_or_passes {x y : Call} (course : Course s x y told)
    (owner : x.ofOwner = true) :
    (.read ∉ told ∧ marked .accepted told = []) ∨ s.lifecycle.inPass = false ∨
      x.inPass = true := by
  rcases course.accepted_cases owner with none | ⟨p, i, entered, stage, _⟩
  · cases course with
    | go hosts leads =>
      cases leads with
      | fail free | lack free | read free => exact .inr (.inl free)
      | _ => exact .inl ⟨by simp, none⟩
    | finish hosts leads closing =>
      have unread := (unmarked_of_answers closing).1
      cases leads with
      | fail free | lack free => exact .inr (.inl free)
      | skip | finish => exact .inl ⟨unread, none⟩
    | apart _ _ quiet => exact .inl ⟨quiet.unread, none⟩
  · refine .inr (.inr ?_)
    unfold Call.inPass
    rw [stage]

structure Marches (s : Machine) (told : List Event) (s' : Machine) : Prop where
  tale : Tale s s' told
  owner : ∀ c, (s'.call c).ofOwner = true
  stages : ∀ c next, (s'.call c).stage? = some next → next = .opening ∨
    (∃ stage turn, (s.call c).stage? = some stage ∧ Pass.Leads s stage turn told ∧
      turn.next? = some next) ∨
    ((s.call c).stage? = some next ∧ .read ∉ told ∧ marked .accepted told = [])
  accepted : marked .accepted told = [] ∨ ∃ c p i entered,
    (s.call c).stage? = some (.submitting p i entered) ∧ told = [.accepted i]

theorem Gated.marches (gated : s.Gated) (owner : ∀ c, (s.call c).ofOwner = true)
    (act : Act s a woken events s.step) (head : s.ready.head? = some a) :
    ∃ told, Marches s told s.step := by
  rcases course_step head with ⟨c, rfl, told, tale, course⟩ | ⟨other, told, tale, quiet, none⟩
  · have others {d : Nat} (ne : d ≠ c) : s.step.call d = s.call d :=
      act.calls d fun eq => ne (Agent.caller.inj eq).symm
    refine ⟨told, tale, fun d => ?_, fun d next stands => ?_, ?_⟩
    · by_cases eq : d = c
      · rw [eq]
        exact course.ofOwner (owner c)
      · rw [others eq]
        exact owner d
    · by_cases eq : d = c
      · subst eq
        exact (course.stage_cases stands).imp_right .inl
      · rw [others eq] at stands
        -- Whoever reads or has an item accepted leaves the other calls before the gate.
        rcases course.quiet_or_passes (owner c) with quiet | free | amid
        · exact .inr (.inr ⟨stands, quiet⟩)
        · exact .inl (opening_of_out (gated.not_inPass free d) stands)
        · exact .inl (opening_of_out (gated.others amid eq) stands)
    · rcases course.accepted_cases (owner c) with none | ⟨p, i, entered, stage, eq⟩
      · exact .inl none
      · exact .inr ⟨c, p, i, entered, stage, eq⟩
  · have same (d : Nat) : s.step.call d = s.call d := act.calls d (other d)
    refine ⟨told, tale, fun d => ?_, fun d next stands => ?_, .inl none⟩
    · rw [same]
      exact owner d
    · rw [same] at stands
      exact .inr (.inr ⟨stands, quiet.unread, none⟩)

theorem Marches.accepted_history (marches : Marches s told s') :
    marked .accepted s'.history = marked .accepted s.history ++ marked .accepted told := by
  rw [marches.tale.history, marked_append]

theorem Marches.submitting (marches : Marches s told s') {i : WorkItem}
    (new : i ∈ marked .accepted told) :
    ∃ c p entered, (s.call c).stage? = some (.submitting p i entered) := by
  rcases marches.accepted with none | ⟨c, p, j, entered, stage, rfl⟩
  · rw [none] at new
    cases new
  · rw [List.mem_singleton.1 new]
    exact ⟨c, p, entered, stage⟩

def Lingers (s s' : Machine) : Prop :=
  ∀ c next, (s'.call c).stage? = some next → next = .opening ∨
    ∃ stage, (s.call c).stage? = some stage ∧ (next = stage ∨ next = freeStage stage)

theorem lingers_of_eq (calls : s'.calls = s.calls) : Lingers s s' := fun c next stands => by
  rw [call, calls] at stands
  exact .inr ⟨next, stands, .inl rfl⟩

theorem lingers_apply (s : Machine) {k : Command} (instant : k.isInstant = true) :
    Lingers s (s.apply k) := by
  intro c next stands
  rcases call_apply s instant c with same | freed | ⟨_, new, _⟩
  · rw [same] at stands
    exact .inr ⟨next, stands, .inl rfl⟩
  · rw [freed] at stands
    refine .inr ?_
    cases call : s.call c <;> rw [call] at stands <;> cases stands
    all_goals exact ⟨_, rfl, .inr rfl⟩
  · exact .inl (opening_of_out (inPass_of_isNew new) stands)

end Autoscaling.Machine
