import Autoscaling.Proofs.Machine.Onward
import Autoscaling.Proofs.Overlap
import Autoscaling.Proofs.SingleFlight

namespace Autoscaling

def jobsOf (number : Nat) (accepted : List WorkItem) : List String :=
  (accepted.filter (·.pass = number)).map (·.job)

@[simp] theorem jobsOf_append (number : Nat) (l l' : List WorkItem) :
    jobsOf number (l ++ l') = jobsOf number l ++ jobsOf number l' := by
  simp [jobsOf]

theorem jobsOf_eq_nil {number : Nat} {l : List WorkItem} (others : ∀ i ∈ l, i.pass ≠ number) :
    jobsOf number l = [] := by
  rw [jobsOf, List.filter_eq_nil_iff.2 (by simpa using others), List.map_nil]

namespace Pass

variable {s : Machine} {stage next : Stage} {turn : Turn} {told : List Event}
  {accepted : List WorkItem} {n : Nat} {entries : List (String × JobPolicies)}

structure Tells (p : Pass) (accepted : List WorkItem) : Prop where
  number : 0 < p.number
  submitted : p.report.submitted = jobsOf p.number accepted

structure Stage.Reports (accepted : List WorkItem) (stage : Stage) : Prop where
  report : ∀ p, stage.pass? = some p → p.Tells accepted
  check : ∀ c, stage.check? = some c → c.safe = true ∨ c.left ≠ [] → c.groups.entries ≠ []
  item : ∀ i, stage.submits? = some i → i.policies.entries ≠ []

theorem Stage.reports_opening : Stage.Reports accepted .opening := ⟨nofun, nofun, nofun⟩

theorem Stage.reports_visiting {p : Pass} (tells : p.Tells accepted) :
    Stage.Reports accepted (.visiting p) :=
  ⟨fun _ eq => Option.some.inj eq ▸ tells, nofun, nofun⟩

theorem Stage.reports_submitting {p : Pass} {i : WorkItem} {entered : Bool}
    (tells : p.Tells accepted) (groups : i.policies.entries ≠ []) :
    Stage.Reports accepted (.submitting p i entered) :=
  ⟨fun _ eq => Option.some.inj eq ▸ tells, nofun, fun _ eq => Option.some.inj eq ▸ groups⟩

theorem Stage.reports_checking {q : Query} {p : Pass} {c : Check} (tells : p.Tells accepted)
    (groups : c.safe = true ∨ c.left ≠ [] → c.groups.entries ≠ []) :
    Stage.Reports accepted (.checking q p c) :=
  ⟨fun _ eq => Option.some.inj eq ▸ tells, fun _ eq => Option.some.inj eq ▸ groups, nofun⟩

namespace Stage.Reports

theorem freeStage (reports : stage.Reports accepted) :
    (Machine.freeStage stage).Reports accepted := by
  cases stage with
  | held => exact ⟨reports.report, reports.check, nofun⟩
  | _ => exact reports

theorem decide (reports : stage.Reports accepted) {p : Pass} {c : Check}
    (pass : stage.pass? = some p) (check : stage.check? = some c) :
    (p.decide c).Reports accepted := by
  have tells := reports.report p pass
  unfold Pass.decide
  split
  · next safe => exact reports_submitting tells (reports.check c check (.inl safe))
  · exact reports_visiting ⟨tells.number, tells.submitted⟩

end Stage.Reports

theorem Tells.submitted_accept {p : Pass} (tells : p.Tells accepted) {i : WorkItem}
    (own : i.pass = p.number) : (p.submitted i.job).Tells (accepted ++ [i]) := by
  refine ⟨tells.number, ?_⟩
  rw [jobsOf_append]
  change p.report.submitted ++ [i.job] = jobsOf p.number accepted ++ jobsOf p.number [i]
  simp [jobsOf, own, tells.submitted]

theorem Leads.reports (leads : Leads s stage turn told) (goesOn : turn.next? = some next)
    (early : ∀ i ∈ accepted, i.pass ≤ s.reads) (listed : stage.Listed s.reads accepted)
    (reports : stage.Reports accepted) : next.Reports (accepted ++ marked .accepted told) := by
  cases leads with
  | accept =>
    cases goesOn
    have own := (listed.item _ rfl).trans (listed.number _ rfl).symm
    exact Stage.reports_visiting ((reports.report _ rfl).submitted_accept own)
  | skip | fail | lack | finish => cases goesOn
  | read =>
    cases goesOn
    refine (List.append_nil accepted).symm ▸ Stage.reports_visiting ⟨Nat.succ_pos _, ?_⟩
    refine (jobsOf_eq_nil fun i mem => ?_).symm
    exact Nat.ne_of_lt (Nat.lt_succ_of_le (early i mem))
  | visit =>
    cases goesOn
    have tells := reports.report _ rfl
    refine (List.append_nil accepted).symm ▸ Stage.reports_checking ?_ ?_
    · exact ⟨tells.number, tells.submitted⟩
    · exact fun either => either.resolve_left nofun
  | clear next =>
    cases goesOn
    have groups := reports.check _ rfl (.inr (next ▸ List.cons_ne_nil _ _))
    exact (List.append_nil accepted).symm ▸
      Stage.reports_checking (reports.report _ rfl) fun _ => groups
  | pass | through | objects =>
    cases goesOn
    exact (List.append_nil accepted).symm ▸ reports.decide rfl rfl
  | refuse =>
    cases goesOn
    exact (List.append_nil accepted).symm ▸ Stage.reports_visiting (reports.report _ rfl)
  | @ask _ _ _ q | @hold _ _ _ q =>
    cases goesOn
    cases q <;> exact (List.append_nil accepted).symm ▸ ⟨reports.report, reports.check, nofun⟩
  | keep | steady =>
    cases goesOn
    exact (List.append_nil accepted).symm ▸ ⟨reports.report, reports.check, nofun⟩
  | submit | wait =>
    cases goesOn
    exact (List.append_nil accepted).symm ▸ ⟨reports.report, nofun, reports.item⟩

def Stage.Draws (n : Nat) (entries : List (String × JobPolicies)) (stage : Stage) : Prop :=
  ∀ p, stage.pass? = some p → p.number = n → stage.entries ⊆ entries

theorem Leads.draws (leads : Leads s stage turn told) (goesOn : turn.next? = some next)
    (read : n ≤ s.reads) (draws : stage.Draws n entries) : next.Draws n entries := by
  intro p pass number
  rcases leads.next_cases goesOn with ⟨_, _, _, rfl⟩ | ⟨_, suffix, same, _⟩
  · cases pass
    exact absurd number (Nat.ne_of_gt (Nat.lt_succ_of_le read))
  · rw [pass] at same
    obtain ⟨q, before, same⟩ := Option.map_eq_some_iff.1 same.symm
    exact List.Subset.trans suffix.subset (draws q before (same.trans number))

theorem pass?_freeStage (stage : Stage) : (Machine.freeStage stage).pass? = stage.pass? := by
  cases stage <;> rfl

theorem entries_freeStage (stage : Stage) : (Machine.freeStage stage).entries = stage.entries := by
  cases stage <;> rfl

end Pass

namespace Machine

variable {s s' m start : Machine} {turn before : Option Agent} {a : Agent} {cs : List Command}
  {told : List Event} {c n : Nat} {entries : List (String × JobPolicies)}

structure Reported (s : Machine) : Prop where
  stages : ∀ c stage, (s.call c).stage? = some stage →
    stage.Reports (marked .accepted s.history)
  ordered : (marked .accepted s.history).Pairwise (·.pass ≤ ·.pass)
  numbered : ∀ i ∈ marked .accepted s.history, 0 < i.pass
  groups : ∀ i ∈ marked .accepted s.history, i.policies.entries ≠ []

namespace Reported

theorem march (reported : s.Reported) (numbered : s.Numbered) (marches : Marches s told s') :
    s'.Reported := by
  have item {i : WorkItem} (new : i ∈ marked .accepted told) :
      i.pass = s.reads ∧ 0 < i.pass ∧ i.policies.entries ≠ [] := by
    obtain ⟨c, p, entered, stage⟩ := marches.submitting new
    have listed := numbered.listed c _ stage
    have reports := reported.stages c _ stage
    have own := listed.item i rfl
    have number := listed.number p rfl
    exact ⟨own, own.trans number.symm ▸ (reports.report p rfl).number, reports.item i rfl⟩
  constructor
  case stages =>
    intro c next stands
    rw [marches.accepted_history]
    rcases marches.stages c next stands with rfl | ⟨stage, turn, before, leads, goesOn⟩ |
      ⟨before, _, none⟩
    · exact Pass.Stage.reports_opening
    · exact leads.reports goesOn numbered.early (numbered.listed c stage before)
        (reported.stages c stage before)
    · rw [none, List.append_nil]
      exact reported.stages c next before
  case ordered =>
    rw [marches.accepted_history]
    have single : (marked .accepted told).Pairwise (·.pass ≤ ·.pass) := by
      rcases marches.accepted with none | ⟨_, _, _, _, _, rfl⟩
      · rw [none]
        exact .nil
      · exact List.pairwise_singleton ..
    refine List.pairwise_append.2 ⟨reported.ordered, single, fun i old j new => ?_⟩
    rw [(item new).1]
    exact numbered.early i old
  case numbered =>
    intro i mem
    rw [marches.accepted_history, List.mem_append] at mem
    exact mem.elim (reported.numbered i) fun new => (item new).2.1
  case groups =>
    intro i mem
    rw [marches.accepted_history, List.mem_append] at mem
    exact mem.elim (reported.groups i) fun new => (item new).2.2

theorem of_eq (reported : s.Reported) (lingers : Lingers s s') (history : s'.history = s.history) :
    s'.Reported := by
  constructor
  case stages =>
    intro c next stands
    rw [history]
    rcases lingers c next stands with rfl | ⟨stage, before, rfl | rfl⟩
    · exact Pass.Stage.reports_opening
    · exact reported.stages c _ before
    · exact (reported.stages c _ before).freeStage
  all_goals rw [history]
  case ordered => exact reported.ordered
  case numbered => exact reported.numbered
  case groups => exact reported.groups

end Reported

theorem Onward.marches {motive : Machine → Prop} (first : Run passRule start cs before m)
    (fresh : start.Fresh) (here : motive m)
    (march : ∀ {s s' told}, s.Numbered → Marches s told s' → motive s → motive s')
    (linger : ∀ {s s'}, Lingers s s' → s'.reads = s.reads → s'.history = s.history →
      motive s → motive s')
    (on : Onward passRule before m turn s) : motive s := by
  induction on with
  | here => exact here
  | @command s k _ _ instant ih =>
    have history : (s.apply k).history = s.history := by
      rw [history, (journal_apply s instant).1, history]
    exact linger (lingers_apply s instant) (spares_apply s instant).reads history ih
  | @elapse s t _ _ _ _ ih =>
    have lingers : Lingers s (s.elapse t) := lingers_of_eq rfl
    exact linger lingers rfl rfl ih
  | @choose s a _ _ _ ih =>
    have lingers : Lingers s (s.prefer a) := lingers_of_eq rfl
    exact linger lingers rfl rfl ih
  | move on _ ih | pause on _ ih =>
    obtain ⟨_, run⟩ := first.onward on
    obtain ⟨_, _, act⟩ := run.act fresh
    have numbered := run.numbered fresh
    obtain ⟨_, marches⟩ := (run.gated fresh).marches numbered.owner act run.head_of_turn
    exact march numbered marches ih

theorem Run.reported (run : Run passRule start cs turn s) (fresh : start.Fresh) :
    s.Reported := by
  refine Onward.marches (motive := Reported) .start fresh ?_
    (fun numbered marches reported => reported.march numbered marches)
    (fun lingers _ history reported => reported.of_eq lingers history) (Onward.here.run run)
  have none : start.history = [] := by simp [history, fresh.journal]
  refine ⟨fun c stage stands => ?_, ?_, ?_, ?_⟩
  · have returned : start.call c = .returned := by simp [call, fresh.calls]
    rw [returned] at stands
    cases stands
  all_goals simp [none]

/-- No pass of the number is under way, and nothing more than the items is accepted from any. -/
structure Over (n : Nat) (items : List WorkItem) (s : Machine) : Prop where
  reached : n ≤ s.reads
  later : ∀ c stage, (s.call c).stage? = some stage → stage = .opening ∨ n < s.reads
  jobs : jobsOf n (marked .accepted s.history) = jobsOf n items

namespace Over

variable {items : List WorkItem}

theorem march (past : Over n items s) (numbered : s.Numbered) (marches : Marches s told s') :
    Over n items s' := by
  have grows : s.reads ≤ s'.reads := by
    rw [marches.tale.reads]
    exact Nat.le_add_right ..
  refine ⟨Nat.le_trans past.reached grows, fun c next stands => ?_, ?_⟩
  · rcases marches.stages c next stands with rfl | ⟨stage, turn, before, leads, goesOn⟩ |
      ⟨before, _, _⟩
    · exact .inl rfl
    · refine .inr ?_
      rcases leads.next_cases goesOn with ⟨_, _, rfl, _⟩ | ⟨begun, _⟩
      · rw [marches.tale.reads]
        exact Nat.lt_succ_of_le past.reached
      · exact Nat.lt_of_lt_of_le ((past.later c stage before).resolve_left begun) grows
    · exact (past.later c next before).imp_right fun lt => Nat.lt_of_lt_of_le lt grows
  · have none : jobsOf n (marked .accepted told) = [] := jobsOf_eq_nil fun i new => by
      obtain ⟨c, p, entered, stage⟩ := marches.submitting new
      rw [(numbered.listed c _ stage).item i rfl]
      exact Nat.ne_of_gt ((past.later c _ stage).resolve_left (by simp))
    rw [marches.accepted_history, jobsOf_append, none, List.append_nil, past.jobs]

theorem of_eq (past : Over n items s) (lingers : Lingers s s') (reads : s'.reads = s.reads)
    (history : s'.history = s.history) : Over n items s' := by
  refine ⟨reads ▸ past.reached, fun c next stands => ?_, history ▸ past.jobs⟩
  rw [reads]
  rcases lingers c next stands with rfl | ⟨stage, before, either⟩
  · exact .inl rfl
  · refine (past.later c stage before).imp_left ?_
    rintro rfl
    rcases either with rfl | rfl <;> rfl

end Over

theorem over_of_endsPass {r : Report} (run : Run passRule start cs (some (.caller c)) m)
    (fresh : start.Fresh) (ends : m.EndsPass c (.completed r)) :
    r.submitted = jobsOf m.reads (marked .accepted m.history) ∧
      Over m.reads (marked .accepted m.history) m.step := by
  obtain ⟨stage, s', call, ends⟩ := ends
  have numbered := run.numbered fresh
  have gated := run.gated fresh
  obtain ⟨_, _, act⟩ := run.act fresh
  obtain ⟨_, marches⟩ := gated.marches numbered.owner act run.head_of_turn
  have after := gated.step act run.head_of_turn
  obtain ⟨⟨told, _, _, leads⟩, _, _⟩ := Pass.treads_step m c stage
  have free := ((reopens run.head_of_turn call ends).resolve_left nofun).2
  rw [ends] at leads
  cases leads with
  | @finish p =>
    have tells := ((run.reported fresh).stages c _ call).report p rfl
    have number := (numbered.listed c _ call).number p rfl
    refine ⟨number ▸ tells.submitted, ?_, fun d next stands => .inl ?_, ?_⟩
    · rw [marches.tale.reads]
      exact Nat.le_add_right ..
    · exact opening_of_out (after.not_inPass free d) stands
    · -- The only pass under way is the one that completes, and it submits nothing.
      rw [marches.accepted_history, jobsOf_append]
      rcases marches.accepted with none | ⟨d, _, _, _, submitting, _⟩
      · rw [none]
        exact List.append_nil _
      · have amid : (m.call c).inPass = true := by simp [Call.inPass, call]
        have amid' : (m.call d).inPass = true := by simp [Call.inPass, submitting]
        rw [gated.alone c d amid amid', submitting] at call
        cases call

theorem submitted_eq {r : Report} (run : Run passRule start cs (some (.caller c)) m)
    (fresh : start.Fresh) (ends : m.EndsPass c (.completed r))
    (on : Onward passRule (some (.caller c)) m turn s) :
    r.submitted = jobsOf m.reads (marked .accepted s.history) := by
  obtain ⟨submitted, past⟩ := over_of_endsPass run fresh ends
  rcases on.here_or_step with ⟨_, rfl⟩ | ⟨_, first, rest⟩
  · exact submitted
  · obtain ⟨_, run'⟩ := run.onward first
    have past := rest.marches (motive := Over m.reads (marked .accepted m.history)) run' fresh past
      (fun numbered marches past => past.march numbered marches)
      fun lingers reads history past => past.of_eq lingers reads history
    rw [past.jobs, submitted]

/-- The pass of the number has only jobs that stood in the store when it read it. -/
structure Drawn (n : Nat) (entries : List (String × JobPolicies)) (s : Machine) : Prop where
  reached : n ≤ s.reads
  stages : ∀ c stage, (s.call c).stage? = some stage → stage.Draws n entries
  items : ∀ i ∈ marked .accepted s.history, i.pass = n → (i.job, i.policies) ∈ entries

namespace Drawn

theorem march (drawn : Drawn n entries s) (numbered : s.Numbered) (marches : Marches s told s') :
    Drawn n entries s' := by
  constructor
  case reached =>
    rw [marches.tale.reads]
    exact Nat.le_trans drawn.reached (Nat.le_add_right ..)
  case stages =>
    intro c next stands
    rcases marches.stages c next stands with rfl | ⟨stage, turn, before, leads, goesOn⟩ |
      ⟨before, _, _⟩
    · exact nofun
    · exact leads.draws goesOn drawn.reached (drawn.stages c stage before)
    · exact drawn.stages c next before
  case items =>
    intro i mem pass
    rw [marches.accepted_history, List.mem_append] at mem
    rcases mem with old | new
    · exact drawn.items i old pass
    · obtain ⟨c, p, entered, stage⟩ := marches.submitting new
      have listed := numbered.listed c _ stage
      have number := (listed.number p rfl).trans (listed.item i rfl).symm
      exact drawn.stages c _ stage p rfl (number.trans pass) (List.mem_cons_self ..)

theorem of_eq (drawn : Drawn n entries s) (lingers : Lingers s s') (reads : s'.reads = s.reads)
    (history : s'.history = s.history) : Drawn n entries s' := by
  refine ⟨reads ▸ drawn.reached, fun c next stands => ?_, history ▸ drawn.items⟩
  rcases lingers c next stands with rfl | ⟨stage, before, rfl | rfl⟩
  · exact nofun
  · exact drawn.stages c _ before
  · intro p pass number
    rw [Pass.pass?_freeStage] at pass
    rw [Pass.entries_freeStage]
    exact drawn.stages c stage before p pass number

end Drawn

theorem drawn_of_read (run : Run passRule start cs (some a) m) (fresh : start.Fresh)
    (read : m.step.reads = m.reads + 1) : Drawn (m.reads + 1) m.store.entries m.step := by
  have numbered := run.numbered fresh
  obtain ⟨_, _, act⟩ := run.act fresh
  obtain ⟨told, marches⟩ := (run.gated fresh).marches numbered.owner act run.head_of_turn
  have reads : .read ∈ told := by
    have count := marches.tale.reads
    rw [read, Nat.add_left_cancel_iff] at count
    exact List.count_pos_iff.1 (count ▸ Nat.one_pos)
  constructor
  case reached => exact Nat.le_of_eq read.symm
  case stages =>
    intro c next stands p pass _
    rcases marches.stages c next stands with rfl | ⟨stage, turn, before, leads, goesOn⟩ |
      ⟨_, unread, _⟩
    · cases pass
    · rcases leads.next_cases goesOn with ⟨_, _, _, rfl⟩ | ⟨_, _, _, unread⟩
      · exact List.Subset.refl _
      · exact absurd reads unread
    · exact absurd reads unread
  case items =>
    intro i mem pass
    rw [marches.accepted_history, List.mem_append] at mem
    rcases mem with old | new
    · exact absurd pass (Nat.ne_of_lt (Nat.lt_succ_of_le (numbered.early i old)))
    · rcases marches.accepted with none | ⟨_, _, _, _, _, rfl⟩
      · rw [none] at new
        cases new
      · simp at reads

theorem mem_entries_of_read (run : Run passRule start cs (some a) m) (fresh : start.Fresh)
    (read : m.step.reads = m.reads + 1) (on : Onward passRule (some a) m turn s) {i : WorkItem}
    (mem : i ∈ marked .accepted s.history) (pass : i.pass = m.reads + 1) :
    (i.job, i.policies) ∈ m.store.entries := by
  rcases on.here_or_step with ⟨_, rfl⟩ | ⟨_, first, rest⟩
  · have early := (run.numbered fresh).early i mem
    omega
  · obtain ⟨_, run'⟩ := run.onward first
    have drawn := rest.marches (motive := Drawn (m.reads + 1) m.store.entries) run' fresh
      (drawn_of_read run fresh read) (fun numbered marches drawn => drawn.march numbered marches)
      fun lingers reads history drawn => drawn.of_eq lingers reads history
    exact drawn.items i mem pass

theorem Course.count_read_le {x y : Call} (course : Course s x y told) : told.count .read ≤ 1 := by
  cases course with
  | go _ leads =>
    cases leads with
    | @ask _ _ _ q | @hold _ _ _ q => cases q <;> simp [Query.asked]
    | _ => simp
  | finish _ leads closing =>
    rw [List.count_append, List.count_eq_zero.2 (unmarked_of_answers closing).1]
    cases leads <;> simp
  | apart _ _ quiet =>
    rw [List.count_eq_zero.2 quiet.unread]
    exact Nat.zero_le _

theorem reads_step (head : s.ready.head? = some a) :
    s.step.reads = s.reads ∨ s.step.reads = s.reads + 1 := by
  rcases course_step head with ⟨_, _, told, tale, course⟩ | ⟨_, told, tale, quiet, _⟩
  · have := course.count_read_le
    have := tale.reads
    omega
  · rw [tale.reads, List.count_eq_zero.2 quiet.unread]
    exact .inl rfl

theorem Run.exists_read {rule : Rule} (run : Run rule start cs turn s) (later : start.reads < n)
    (past : n ≤ s.reads) :
    ∃ a m cs', Run rule start cs' (some a) m ∧ Onward rule (some a) m turn s ∧
      m.reads + 1 = n ∧ m.step.reads = n := by
  induction run with
  | start => exact absurd past (Nat.not_le_of_lt later)
  | @command _ s _ _ may instant ih =>
    obtain ⟨a, m, cs, run, on, read⟩ := ih ((spares_apply s instant).reads ▸ past)
    exact ⟨a, m, cs, run, on.command may instant, read⟩
  | elapse _ settled later timely ih =>
    obtain ⟨a, m, cs, run, on, read⟩ := ih past
    exact ⟨a, m, cs, run, on.elapse settled later timely, read⟩
  | choose _ ready may ih =>
    obtain ⟨a, m, cs, run, on, read⟩ := ih past
    exact ⟨a, m, cs, run, on.choose ready may, read⟩
  | @move cs a s run goesOn ih =>
    by_cases before : n ≤ s.reads
    · obtain ⟨b, m, cs, run, on, read⟩ := ih before
      exact ⟨b, m, cs, run, on.move goesOn, read⟩
    · have now := (reads_step run.head_of_turn).resolve_left fun same => before (same ▸ past)
      have := Nat.lt_of_not_le before
      exact ⟨a, s, cs, run, Onward.here.move goesOn, by omega, by omega⟩
  | @pause cs a s run waits ih =>
    by_cases before : n ≤ s.reads
    · obtain ⟨b, m, cs, run, on, read⟩ := ih before
      exact ⟨b, m, cs, run, on.pause waits, read⟩
    · have now := (reads_step run.head_of_turn).resolve_left fun same => before (same ▸ past)
      have := Nat.lt_of_not_le before
      exact ⟨a, s, cs, run, Onward.here.pause waits, by omega, by omega⟩

end Machine

end Autoscaling
