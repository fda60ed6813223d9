import Autoscaling.Proofs.Overlap

namespace Autoscaling

namespace History

variable {h h' : History} {job other group : String} {cooldown : Duration} {now later : Time}

theorem inCooldown_of_le (same : h'.last? job group = h.last? job group)
    (le : now.nanos ≤ later.nanos) (cools : h'.inCooldown job group cooldown later = true) :
    h.inCooldown job group cooldown now = true := by
  unfold inCooldown at *
  rw [same] at cools
  split at cools
  · cases cools
  · split at cools
    · rfl
    · exact decide_eq_true (Int.lt_of_le_of_lt le (of_decide_eq_true cools))

theorem last?_record_of_ne (ne : job ≠ other) (h : History) (t : Time) (g : String) :
    (h.record other g t).last? job group = h.last? job group := by
  simp [record, last?, ne]

theorem last?_recordAll_of_ne (ne : job ≠ other) (h : History) (groups : List String) (t : Time) :
    (h.recordAll other groups t).last? job group = h.last? job group := by
  unfold recordAll
  induction groups generalizing h with
  | nil => rfl
  | cons g groups ih =>
    rw [List.foldl_cons, ih]
    exact last?_record_of_ne ne h t g

end History

theorem Time.nanos_ofMillis_le {m n : Nat} (le : m ≤ n) :
    (Time.ofMillis m).nanos ≤ (Time.ofMillis n).nanos := by
  simp only [ofMillis, clamp]
  omega

namespace Pool

theorem Move.started {p p' : Pool} {a : Agent} {woken : List Agent} {events : List Event}
    {i : WorkItem} (h : Move now shutdown p a woken events p') (starts : .started i ∈ events) :
    ∃ w, a = .evaluation w ∧ p.worker w = .evaluating i .spawned := by
  cases h with
  | @progress w j x y runs | @finish w j x runs =>
    cases x with
    | spawned =>
      simp [Pool.Progress.beginning] at starts
      exact ⟨w, rfl, starts ▸ runs⟩
    | _ => simp [Pool.Progress.beginning] at starts
  | @panic w j runs =>
    simp at starts
    exact ⟨w, rfl, starts ▸ runs⟩
  | _ => simp at starts

end Pool

structure Single where
  job : String
  group : String
  policy : Policy

def Pass.Stage.hasAskedCooldown? : Pass.Stage → Option (Pass × Check)
  | .held .cooldown p c | .answering .cooldown p c => some (p, c)
  | _ => none

namespace Single

variable {one : Single} {n : Nat}

def policies (one : Single) : JobPolicies := (∅ : JobPolicies).insert one.group one.policy

def Within (one : Single) (jobs : List (String × JobPolicies)) : Prop :=
  ∀ groups, (one.job, groups) ∈ jobs → groups = one.policies

def coolsDown (one : Single) (s : Machine) : Bool :=
  s.scenario.history.inCooldown one.job one.group one.policy.cooldown s.clock

def rule (one : Single) : Machine.Rule where
  comes s
    | .submit _ | .change (.recordScale ..) | .change (.forgetJob _) => False
    | .write w => one.Within (s.store.write w).entries
    | _ => True

def Asked (one : Single) (n : Nat) (s : Machine) : Prop :=
  ∃ before after,
    s.history = before ++ .askedCooldown one.job one.group one.policy.cooldown :: after ∧
    before.count .read = n

def Vouched (one : Single) (n : Nat) (s : Machine) : Prop :=
  ∃ before after,
    s.history = before ++ .askedCooldown one.job one.group one.policy.cooldown :: after ∧
    before.count .read = n ∧
    (one.coolsDown s = true → ∃ j, .finished j ∈ after ∧ j.job = one.job)

structure Checks (one : Single) (s : Machine) (stage : Pass.Stage) : Prop where
  within : one.Within stage.entries
  check : ∀ p c, stage.pass? = some p → stage.check? = some c → c.job = one.job →
    (c.safe = false → c.left = one.policies.entries) ∧ (c.safe = true → one.Vouched p.number s)
  asked : ∀ p c, stage.hasAskedCooldown? = some (p, c) → c.job = one.job →
    c.left = one.policies.entries → one.Asked p.number s
  item : ∀ i, stage.submits? = some i → i.job = one.job → one.Vouched i.pass s

section
variable {s s' : Machine} {stage next : Pass.Stage} {turn : Pass.Turn} {told : List Event}

theorem coolsDown_of_le
    (same : s'.scenario.history.last? one.job one.group =
      s.scenario.history.last? one.job one.group)
    (later : s.now ≤ s'.now) (cools : one.coolsDown s' = true) : one.coolsDown s = true :=
  History.inCooldown_of_le same (Time.nanos_ofMillis_le later) cools

theorem Asked.tell (asked : one.Asked n s) (tale : s.Tale s' told) : one.Asked n s' := by
  obtain ⟨before, after, history, count⟩ := asked
  exact ⟨before, after ++ told, by simp [tale.history, history], count⟩

theorem Vouched.tell (vouched : one.Vouched n s) (tale : s.Tale s' told) (later : s.now ≤ s'.now) :
    one.Vouched n s' := by
  obtain ⟨before, after, history, count, ended⟩ := vouched
  refine ⟨before, after ++ told, ?_, count, fun cools => ?_⟩
  · rw [tale.history, history, List.append_assoc, List.cons_append]
  · have earlier (same : s'.scenario.history.last? one.job one.group =
        s.scenario.history.last? one.job one.group) :
        ∃ j, .finished j ∈ after ++ told ∧ j.job = one.job := by
      obtain ⟨j, mem, eq⟩ := ended (coolsDown_of_le same later cools)
      exact ⟨j, List.mem_append_left _ mem, eq⟩
    -- The record of the group changes only when an evaluation of its own job ends.
    rcases tale.scalings with same | ⟨i, t, mem, recorded⟩
    · exact earlier (by rw [same])
    · by_cases eq : i.job = one.job
      · exact ⟨i, List.mem_append_right _ mem, eq⟩
      · refine earlier ?_
        rw [recorded]
        exact History.last?_recordAll_of_ne (Ne.symm eq) _ _ _

theorem checks_opening : one.Checks s .opening :=
  ⟨fun _ => nofun, nofun, nofun, nofun⟩

theorem Checks.tell (checks : one.Checks s stage) (tale : s.Tale s' told)
    (later : s.now ≤ s'.now) : one.Checks s' stage := by
  refine ⟨checks.within, fun p c pass check job => ?_,
    fun p c amid job left => (checks.asked p c amid job left).tell tale,
    fun i item job => (checks.item i item job).tell tale later⟩
  obtain ⟨fresh, safe⟩ := checks.check p c pass check job
  exact ⟨fresh, fun h => (safe h).tell tale later⟩

theorem Checks.freeStage (checks : one.Checks s stage) :
    one.Checks s (Machine.freeStage stage) := by
  cases stage with
  | held q => cases q <;> exact ⟨checks.within, checks.check, checks.asked, nofun⟩
  | _ => exact checks

theorem asked_of_tale {c : Check} {group : String} {policy : Policy}
    {left : List (String × Policy)} (next : c.left = (group, policy) :: left)
    (described : c.left = one.policies.entries) (job : c.job = one.job)
    (tale : s.Tale s' [.askedCooldown c.job group policy.cooldown])
    (number : s.history.count .read = n) : one.Asked n s' := by
  rw [next] at described
  obtain ⟨rfl, rfl⟩ := Prod.mk.inj (List.cons.inj described).1
  rw [job] at tale
  exact ⟨s.history, [], tale.history, number⟩

theorem Asked.vouched {c : Check} {group : String} {policy : Policy}
    {left : List (String × Policy)} (asked : one.Asked n s) (next : c.left = (group, policy) :: left)
    (described : c.left = one.policies.entries) (job : c.job = one.job)
    (cool : s.scenario.coolsDown (c.job, group) policy.cooldown s.clock = false) :
    one.Vouched n s := by
  obtain ⟨before, after, history, count⟩ := asked
  rw [next] at described
  obtain ⟨rfl, rfl⟩ := Prod.mk.inj (List.cons.inj described).1
  rw [job, Scenario.coolsDown, Bool.or_eq_false_iff] at cool
  exact ⟨before, after, history, count, fun cools => Bool.noConfusion (cools.symm.trans cool.2)⟩

theorem Checks.lead (checks : one.Checks s stage) (leads : Pass.Leads s stage turn told)
    (goesOn : turn.next? = some next) (tale : s.Tale s' told) (later : s.now ≤ s'.now)
    (number : ∀ p, stage.pass? = some p → p.number = s.history.count .read)
    (store : one.Within s.store.entries) : one.Checks s' next := by
  constructor
  case within =>
    rcases leads.next_cases goesOn with ⟨rfl, _, rfl, rfl⟩ | ⟨_, suffix, _, _⟩
    · exact store
    · exact fun groups mem => checks.within groups (suffix.subset mem)
  case item =>
    intro i item job
    rcases leads.item_cases goesOn item with before | ⟨p, c, pass, check, safe, rfl⟩
    · exact (checks.item i before job).tell tale later
    · exact ((checks.check p c pass check job).2 safe).tell tale later
  case asked =>
    intro p c amid job described
    cases leads with
    | @ask _ _ _ q _ _ others | @hold _ _ _ q _ _ others =>
      cases goesOn
      cases q <;> cases amid
      exact asked_of_tale others described job tale (number p rfl).symm
    | keep =>
      cases goesOn
      exact (checks.asked p c amid job described).tell tale
    | skip | fail | lack | finish => cases goesOn
    | pass | through | objects =>
      cases goesOn
      unfold Pass.decide at amid
      split at amid <;> cases amid
    | _ =>
      cases goesOn
      cases amid
  case check =>
    intro p c pass check job
    have still (pass : stage.pass? = some p) (check : stage.check? = some c) :
        (c.safe = false → c.left = one.policies.entries) ∧
          (c.safe = true → one.Vouched p.number s') := by
      obtain ⟨fresh, safe⟩ := checks.check p c pass check job
      exact ⟨fresh, fun h => (safe h).tell tale later⟩
    cases leads with
    | skip | fail | lack | finish => cases goesOn
    | visit others =>
      cases goesOn
      cases pass
      cases check
      refine ⟨fun _ => ?_, (by cases ·)⟩
      have groups := checks.within _ (by
        rw [Pass.Stage.entries, others, ← job]
        exact List.mem_cons_self ..)
      dsimp only
      rw [groups]
    | ask | hold | keep | steady =>
      cases goesOn
      exact still pass check
    | @clear group policy left p c others cool =>
      cases goesOn
      cases pass
      cases check
      refine ⟨(by cases ·), fun _ => ?_⟩
      obtain ⟨fresh, safe⟩ := checks.check p c rfl rfl job
      -- A group found safe before was this one, the only one of the job.
      cases already : c.safe with
      | true => exact (safe already).tell tale later
      | false =>
        have asked := checks.asked p c rfl job (fresh already)
        exact (asked.vouched others (fresh already) job cool).tell tale later
    | pass | through | objects =>
      cases goesOn
      unfold Pass.decide at check
      split at check <;> cases check
    | _ =>
      cases goesOn
      cases check

end

structure Heeds (one : Single) (s : Machine) : Prop where
  reads : s.history.count .read = s.reads
  store : one.Within s.store.entries
  checks : ∀ c stage, (s.call c).stage? = some stage → one.Checks s stage
  accepted : ∀ i ∈ marked .accepted s.history, i.job = one.job → one.Vouched i.pass s

namespace Heeds

variable {s s' : Machine} {told : List Event}

theorem march (heeds : one.Heeds s) (numbered : s.Numbered) (marches : s.Marches told s')
    (stays : s.Stays s') (later : s.now ≤ s'.now) : one.Heeds s' := by
  constructor
  case reads =>
    rw [marches.tale.history, marches.tale.reads, List.count_append, heeds.reads]
  case store =>
    rw [stays.store]
    exact heeds.store
  case checks =>
    intro c next stands
    rcases marches.stages c next stands with rfl | ⟨stage, turn, before, leads, goesOn⟩ |
      ⟨before, _, _⟩
    · exact checks_opening
    · refine (heeds.checks c stage before).lead leads goesOn marches.tale later (fun p pass => ?_)
        heeds.store
      rw [heeds.reads]
      exact (numbered.listed c stage before).number p pass
    · exact (heeds.checks c next before).tell marches.tale later
  case accepted =>
    intro i mem job
    rw [marches.accepted_history, List.mem_append] at mem
    rcases mem with old | new
    · exact (heeds.accepted i old job).tell marches.tale later
    · obtain ⟨c, p, entered, stage⟩ := marches.submitting new
      exact ((heeds.checks c _ stage).item i rfl job).tell marches.tale later

theorem still (heeds : one.Heeds s) (tale : s.Tale s' []) (later : s.now ≤ s'.now)
    (store : one.Within s'.store.entries) (lingers : s.Lingers s') : one.Heeds s' := by
  have same : s'.history = s.history := by rw [tale.history, List.append_nil]
  constructor
  case reads =>
    rw [same, heeds.reads, tale.reads]
    rfl
  case store => exact store
  case checks =>
    intro c next stands
    rcases lingers c next stands with rfl | ⟨stage, before, rfl | rfl⟩
    · exact checks_opening
    · exact (heeds.checks c _ before).tell tale later
    · exact ((heeds.checks c _ before).tell tale later).freeStage
  case accepted =>
    rw [same]
    exact fun i mem job => (heeds.accepted i mem job).tell tale later

end Heeds

end Single

namespace Machine

variable {s s' start : Machine} {turn : Option Agent} {a : Agent} {cs : List Command}
  {told : List Event} {one : Single} {i : WorkItem}

theorem scalings_apply {k : Command} (may : one.rule.comes s k) (instant : k.isInstant = true) :
    (s.apply k).scenario.history = s.scenario.history := by
  cases k with
  | advance => cases instant
  | unhold job =>
    simp only [apply, unhold, freeEvaluation]
    repeat' split
    all_goals rfl
  | unholdAnswer q =>
    simp only [apply, unholdAnswer]
    split <;> rfl
  | shutdown => exact congrArg Scenario.history (scenario_signalShutdown s)
  | change x =>
    cases x with
    | recordScale | forgetJob => exact may.elim
    | _ => rfl
  | _ => rfl

theorem within_apply {k : Command} (may : one.rule.comes s k) (instant : k.isInstant = true)
    (within : one.Within s.store.entries) : one.Within (s.apply k).store.entries := by
  cases k with
  | advance => cases instant
  | unhold job =>
    obtain ⟨_, _, _, _, eq⟩ := unhold_eq s job
    rw [apply, eq]
    exact within
  | unholdAnswer q =>
    simp only [apply, unholdAnswer]
    split <;> exact within
  | shutdown =>
    simp only [apply, signalShutdown]
    split <;> exact within
  | write => exact may
  | _ => exact within

theorem submits_of_comes {k : Command} (may : one.rule.comes s k) : k.submits = false := by
  cases k with
  | submit => exact may.elim
  | _ => rfl

theorem Run.ofPasses (run : Run one.rule start cs turn s) : Run passRule start cs turn s :=
  run.mono (fun _ _ _ _ => submits_of_comes) fun _ _ _ _ => id

theorem Run.heeds {c : Config} {timed : Bool} {scenario : Scenario}
    (made : ofConfig c timed scenario = .made start) (run : Run one.rule start cs turn s) :
    one.Heeds s := by
  have fresh := fresh_ofConfig made
  induction run with
  | start =>
    obtain ⟨reads, store⟩ := fresh_store_ofConfig made
    have none : start.history = [] := by simp [history, fresh.journal]
    refine ⟨by simp [none, reads], ?_, fun c stage stands => ?_, by simp [none]⟩
    · rw [store]
      exact fun groups mem => by cases mem
    · simp [call, fresh.calls, Call.stage?] at stands
  | @command _ s k run may instant ih =>
    obtain ⟨journal, now, _⟩ := journal_apply s instant
    exact ih.still (tale_silent (by rw [history, journal, history]) (spares_apply s instant).reads
      (scalings_apply may instant)) (Nat.le_of_eq now.symm) (within_apply may instant ih.store)
      (lingers_apply s instant)
  | elapse _ _ later _ ih =>
    exact ih.still (tale_silent rfl rfl rfl) later ih.store (lingers_of_eq rfl)
  | choose _ _ _ ih =>
    exact ih.still (tale_silent rfl rfl rfl) (Nat.le_refl _) ih.store (lingers_of_eq rfl)
  | move run _ ih | pause run _ ih =>
    obtain ⟨_, _, act⟩ := run.act fresh
    have numbered := run.ofPasses.numbered fresh
    obtain ⟨_, marches⟩ := (run.gated fresh).marches numbered.owner act run.head_of_turn
    exact ih.march numbered marches (stays_step _) (Nat.le_of_eq act.now.symm)

theorem Numbered.handed (numbered : s.Numbered) (steady : Steady turn s)
    (handed : i ∈ s.pool.held .handed) :
    i ∈ marked .accepted s.history ∧ ∀ j ∈ marked .started s.history, j.key ≠ i.key := by
  have begun (j : WorkItem) : (marked .started s.history).count j +
      (s.pool.held .handed).count j ≤ (marked .accepted s.history).count j := by
    have := steady.ledger.begun_le j
    rwa [marked_itemEvents, marked_itemEvents] at this
  have one : 0 < (s.pool.held .handed).count i := List.count_pos_iff.2 handed
  have accepted (j : WorkItem) (positive : 0 < (marked .started s.history).count j +
      (s.pool.held .handed).count j) : j ∈ marked .accepted s.history :=
    List.count_pos_iff.1 (Nat.lt_of_lt_of_le positive (begun j))
  have own := accepted i (Nat.add_pos_right _ one)
  refine ⟨own, fun j mem same => ?_⟩
  have before : 0 < (marked .started s.history).count j := List.count_pos_iff.2 mem
  have eq : j = i := List.inj_on_of_nodup_map numbered.once
    (accepted j (Nat.add_pos_left before _)) own same
  have once := List.nodup_iff_count_le_one.1 numbered.once.of_map i
  have := begun i
  rw [eq] at before
  omega

theorem Run.begins (run : Run passRule start cs (some a) s) (fresh : start.Fresh)
    (step : s.step.history = s.history ++ told) (starts : .started i ∈ told) :
    i ∈ marked .accepted s.history ∧ ∀ j ∈ marked .started s.history, j.key ≠ i.key := by
  obtain ⟨woken, events, act⟩ := run.act fresh
  have new : events = told.filter (·.mark?.isSome) := by
    have items := act.itemEvents
    simp only [itemEvents, step, List.filter_append] at items
    exact (List.append_cancel_left items).symm
  have begins : .started i ∈ events := by
    rw [new]
    exact List.mem_filter.2 ⟨starts, rfl⟩
  obtain ⟨w, rfl, spawned⟩ := act.pool.started begins
  have mem : s.pool.worker w ∈ s.pool.workers :=
    List.mem_of_getElem? (Pool.worker_eq_of_ne_exited rfl (by simp [spawned]))
  refine (run.numbered fresh).handed (run.steady fresh) ?_
  exact List.mem_filterMap.2 ⟨_, mem, by rw [spawned]; rfl⟩

theorem Steady.started_of_finished (steady : Steady turn s)
    (finished : i ∈ marked .finished s.history) : i ∈ marked .started s.history := by
  have ends := steady.ledger.ends i
  simp only [marked_itemEvents] at ends
  have := List.count_pos_iff.2 finished
  exact List.count_pos_iff.1 (by omega)

/-- An evaluation of the job starts amid a cooldown only if, since its own pass asked whether the
group cools down, an evaluation that another pass had asked for has ended. -/
theorem Run.waitsOut {c : Config} {timed : Bool} {scenario : Scenario}
    (made : ofConfig c timed scenario = .made start) (run : Run one.rule start cs (some a) s)
    (step : s.step.history = s.history ++ told) (starts : .started i ∈ told)
    (job : i.job = one.job) (cooling : one.coolsDown s = true) :
    ∃ before after j,
      s.history = before ++ .askedCooldown one.job one.group one.policy.cooldown :: after ∧
      before.count .read = i.pass ∧ .finished j ∈ after ∧ j.job = one.job ∧ j.pass ≠ i.pass := by
  have fresh := fresh_ofConfig made
  obtain ⟨accepted, apart⟩ := run.ofPasses.begins fresh step starts
  obtain ⟨before, after, history, count, ended⟩ := (run.heeds made).accepted i accepted job
  obtain ⟨j, finished, same⟩ := ended cooling
  refine ⟨before, after, j, history, count, finished, same, fun pass => ?_⟩
  have told : j ∈ marked .finished s.history := by
    rw [history]
    exact List.mem_filterMap.2
      ⟨.finished j, List.mem_append_right _ (List.mem_cons_of_mem _ finished), rfl⟩
  have begun := (run.steady fresh).started_of_finished told
  -- The evaluation that starts is the first of its job for its pass, so the one that ended is not.
  exact apart j begun (Prod.ext (same.trans job.symm) pass)

def recordingLoop : Machine :=
  { heldUp with
    pool := { capacity := 1, expiry := 60000, free := 1 }
    scenario := { heldUp.scenario with records := true } }

theorem made_recordingLoop :
    ofConfig { scalingThreads := 1 } false recordingLoop.scenario = .made recordingLoop := rfl

def heldJob : Single := ⟨"a", "g", Policy.default⟩

def secondEvaluation : Machine :=
  Machine.run 10 ((recordingLoop.play [.write (.putJob "a" heldJob.policies), .evaluate,
    .evaluate]).1.apply (.unhold "a"))

theorem run_secondEvaluation (fresh : recordingLoop.Fresh) :
    Run heldJob.rule recordingLoop
      [.write (.putJob "a" heldJob.policies), .evaluate, .evaluate, .unhold "a"]
      (some (.evaluation 0)) secondEvaluation := by
  have put (store : Store) :
      heldJob.Within (store.write (.putJob "a" heldJob.policies)).entries := fun groups mem => by
    have found := Dict.get?_eq_some_iff.2 mem
    simp only [Store.write, Dict.get?_insert, heldJob, if_true] at found
    exact (Option.some.inj found).symm
  have may : ∀ cs s c, Run heldJob.rule recordingLoop cs none s → s.ready = [] →
      c ∈ [.write (.putJob "a" heldJob.policies), .evaluate, .evaluate] → c.isInstant = true →
      heldJob.rule.comes s c := by
    intro _ s c _ _ mem _
    simp only [List.mem_cons, List.not_mem_nil, or_false] at mem
    rcases mem with rfl | rfl | rfl
    · exact put s.store
    all_goals trivial
  have played := Run.start.play (fun _ _ _ => trivial) fresh.punctual fresh.ready may
  exact (played.command (c := .unhold "a") trivial rfl).amid (fun _ _ _ => trivial) 10
    (by decide +kernel)

theorem waitsOut_secondEvaluation :
    heldJob.coolsDown secondEvaluation = true ∧ ∃ before after j,
      secondEvaluation.history =
        before ++ .askedCooldown "a" "g" heldJob.policy.cooldown :: after ∧
      before.count .read = 2 ∧ .finished j ∈ after ∧ j.job = "a" ∧ j.pass ≠ 2 := by
  have cooling : heldJob.coolsDown secondEvaluation = true := by decide +kernel
  have step : secondEvaluation.step.history =
      secondEvaluation.history ++ [.started ⟨"a", heldJob.policies, 2⟩] := by decide +kernel
  have run := run_secondEvaluation (fresh_ofConfig made_recordingLoop)
  exact ⟨cooling, run.waitsOut made_recordingLoop step (List.mem_singleton_self _) rfl cooling⟩

/-- Nobody asks again whether the group cools down when the evaluation starts. -/
theorem starts_secondEvaluation :
    Run heldJob.rule recordingLoop
      [.write (.putJob "a" heldJob.policies), .evaluate, .evaluate, .unhold "a"]
      (some (.evaluation 0)) secondEvaluation ∧
    secondEvaluation.step.history =
      secondEvaluation.history ++ [.started ⟨"a", heldJob.policies, 2⟩] ∧
    heldJob.coolsDown secondEvaluation = true :=
  ⟨run_secondEvaluation (fresh_ofConfig made_recordingLoop), by decide +kernel, by decide +kernel⟩

end Machine

end Autoscaling
