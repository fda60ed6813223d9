import Autoscaling.Proofs.Machine.Vigil

namespace Autoscaling.Machine

def see (s : Machine) (fate : Nat → Option (Nat × Event)) (w : Nat) : Option (Nat × Event) :=
  fate w <|>
    if (s.pool.worker w).isEvaluating && !(s.step.pool.worker w).isEvaluating then
      s.step.journal.head?
    else none

/-- What comes after `m` by the rule, with the commands and their times, and with what was told when
the evaluation of each worker first ended. -/
inductive Watch (rule : Rule) (m : Machine) :
    List (Nat × Command) → (Nat → Option (Nat × Event)) → Option Agent → Machine → Prop
  | here : Watch rule m [] (fun _ => none) none m
  | command (on : Watch rule m diary fate none s) (may : rule.comes s k)
      (instant : k.isInstant = true) :
      Watch rule m (diary ++ [(s.now, k)]) fate none (s.apply k)
  | elapse (on : Watch rule m diary fate none s) (settled : s.ready = []) (later : s.now ≤ t)
      (timely : ∀ timer ∈ s.timers, t ≤ timer.1) :
      Watch rule m diary fate none (s.elapse t)
  | choose (on : Watch rule m diary fate none s) (ready : a ∈ s.ready) (may : rule.chooses s a) :
      Watch rule m diary fate (some a) (s.prefer a)
  | move (on : Watch rule m diary fate (some a) s) (goesOn : s.step.ready.head? = some a) :
      Watch rule m diary (s.see fate) (some a) s.step
  | pause (on : Watch rule m diary fate (some a) s) (waits : s.step.ready.head? ≠ some a) :
      Watch rule m diary (s.see fate) none s.step

variable {rule : Rule} {s s' m m' start : Machine} {turn turn' : Option Agent}
  {cs cs' : List Command} {diary diary' : List (Nat × Command)}
  {fate fate' : Nat → Option (Nat × Event)} {w : Nat} {i : WorkItem} {x : Term}

theorem see_eq_some {e : Nat × Event} : s.see fate w = some e ↔ fate w = some e ∨
    fate w = none ∧ (s.pool.worker w).isEvaluating = true ∧
      (s.step.pool.worker w).isEvaluating = false ∧ s.step.journal.head? = some e := by
  simp [see, Option.or_eq_some_iff, and_assoc]

theorem see_eq_none : s.see fate w = none ↔ fate w = none ∧
    ((s.pool.worker w).isEvaluating = true → (s.step.pool.worker w).isEvaluating = false →
      s.step.journal.head? = none) := by
  simp [see]

namespace Watch

theorem run (on : Watch rule m diary fate turn s) : Run rule m (diary.map (·.2)) turn s := by
  induction on with
  | here => exact .start
  | command _ may instant ih =>
    rw [List.map_append]
    exact ih.command may instant
  | elapse _ settled later timely ih => exact ih.elapse settled later timely
  | choose _ ready may ih => exact ih.choose ready may
  | move _ goesOn ih => exact ih.move goesOn
  | pause _ waits ih => exact ih.pause waits

theorem faces (on : Watch rule m diary fate turn s) (first : Run rule start cs none m)
    (fresh : start.Fresh) (ofPool : rule.OfPool) (faces : Faces m w i x) :
    fate w = none ∧ Faces s w i (x.after diary) ∨
      ∃ t, fate w = some (t, (m.scenario.behaviour i.job).ending i) ∧ x.after diary = .time t ∧
        t ≤ s.now := by
  have moves {s : Machine} {a : Agent} {cs : List Command} {fate : Nat → Option (Nat × Event)}
      {x : Term} (run : Run rule start cs (some a) s)
      (does : s.scenario.behaviour = m.scenario.behaviour)
      (ih : fate w = none ∧ Faces s w i x ∨
        ∃ t, fate w = some (t, (m.scenario.behaviour i.job).ending i) ∧ x = .time t ∧ t ≤ s.now) :
      s.see fate w = none ∧ Faces s.step w i x ∨
        ∃ t, s.see fate w = some (t, (m.scenario.behaviour i.job).ending i) ∧ x = .time t ∧
          t ≤ s.step.now := by
    obtain ⟨_, _, act⟩ := run.act fresh
    obtain ⟨lasting, kept⟩ := run.does fresh ofPool
    rcases ih with ⟨none, faces⟩ | ⟨t, some, term, le⟩
    · obtain ⟨p, runs⟩ := faces.runs
      rcases faces.step lasting run.head_of_turn act kept with next | ⟨rfl, ended, told⟩
      · obtain ⟨q, goesOn⟩ := next.runs
        refine .inl ⟨see_eq_none.2 ⟨none, fun _ stops => ?_⟩, next⟩
        rw [goesOn] at stops
        cases stops
      · rw [does] at told
        refine .inr ⟨s.now, see_eq_some.2 (.inr ⟨none, ?_, ?_, told⟩), rfl,
          Nat.le_of_eq act.now.symm⟩
        · rw [runs]
          rfl
        · rw [ended]
          rfl
    · exact .inr ⟨t, see_eq_some.2 (.inl some), term, act.now ▸ le⟩
  induction on with
  | here => exact .inl ⟨rfl, faces⟩
  | command on may instant ih =>
    rw [Term.after_concat]
    rcases ih with ⟨none, faces⟩ | ⟨t, some, term, le⟩
    · exact .inl ⟨none, faces.apply ((first.trans on.run).steady fresh) (ofPool _ _ may) instant⟩
    · refine .inr ⟨t, some, by rw [term]; rfl, ?_⟩
      rwa [(journal_apply _ instant).2.1]
  | elapse on settled later timely ih =>
    rcases ih with ⟨none, faces⟩ | ⟨t, some, term, le⟩
    · exact .inl ⟨none, faces.elapse ((first.trans on.run).steady fresh) settled timely⟩
    · exact .inr ⟨t, some, term, Nat.le_trans le later⟩
  | choose on _ _ ih => exact ih.imp_left fun ⟨going, faces⟩ => ⟨going, faces.prefer _⟩
  | move on _ ih | pause on _ ih =>
    exact moves (first.trans on.run) (first.recounts on.run fresh ofPool).does ih

theorem fate_eq (on : Watch rule m diary fate turn s) (on' : Watch rule m' diary fate' turn' s')
    (first : Run rule start cs none m) (first' : Run rule start cs' none m')
    (fresh : start.Fresh) (ofPool : rule.OfPool) (faces : Faces m w i x) (faces' : Faces m' w i x)
    (does : m'.scenario.behaviour = m.scenario.behaviour) (settled : s.ready = [])
    (settled' : s'.ready = []) (now : s'.now = s.now) : fate' w = fate w := by
  have run := first.trans on.run
  have run' := first'.trans on'.run
  rcases on.faces first fresh ofPool faces with ⟨none, going⟩ | ⟨t, ended, term, le⟩ <;>
    rcases on'.faces first' fresh ofPool faces' with ⟨none', going'⟩ | ⟨t', ended', term', le'⟩
  · rw [none, none']
  · rw [term'] at going
    have := going.late (run.steady fresh) (run.punctual fresh.punctual) settled
    omega
  · rw [term] at going'
    have := going'.late (run'.steady fresh) (run'.punctual fresh.punctual) settled'
    omega
  · rw [term] at term'
    cases term'
    rw [ended, ended', does]

theorem see_or (s : Machine) (fate fate' : Nat → Option (Nat × Event)) :
    s.see (fun w => fate w <|> fate' w) = fun w => fate w <|> s.see fate' w :=
  funext fun w => by simp [see, Option.or_assoc]

theorem trans (first : Watch rule m diary fate none s)
    (second : Watch rule s diary' fate' turn s') :
    Watch rule m (diary ++ diary') (fun w => fate w <|> fate' w) turn s' := by
  induction second with
  | here => simpa using first
  | command _ may instant ih =>
    rw [← List.append_assoc]
    exact ih.command may instant
  | elapse _ settled later timely ih => exact ih.elapse settled later timely
  | choose _ ready may ih => exact ih.choose ready may
  | move _ goesOn ih =>
    rw [← see_or]
    exact ih.move goesOn
  | pause _ waits ih =>
    rw [← see_or]
    exact ih.pause waits

end Watch

theorem Run.watched (run : Run rule m cs turn s) : m.now ≤ s.now ∧
    ∃ diary fate, Watch rule m diary fate turn s ∧ diary.map (·.2) = cs ∧
      ∀ e ∈ diary, m.now ≤ e.1 ∧ e.1 ≤ s.now := by
  induction run with
  | start => exact ⟨Nat.le_refl _, [], _, .here, rfl, fun e mem => nomatch mem⟩
  | @command cs s k _ may instant ih =>
    obtain ⟨le, diary, fate, on, same, times⟩ := ih
    rw [(journal_apply s instant).2.1]
    refine ⟨le, _, fate, on.command may instant, ?_, fun e mem => ?_⟩
    · rw [List.map_append, same]
      rfl
    · rcases List.mem_append.1 mem with mem | mem
      · exact times e mem
      · rw [List.mem_singleton.1 mem]
        exact ⟨le, Nat.le_refl _⟩
  | elapse _ settled later timely ih =>
    obtain ⟨le, diary, fate, on, same, times⟩ := ih
    exact ⟨Nat.le_trans le later, diary, fate, on.elapse settled later timely, same, fun e mem =>
      ⟨(times e mem).1, Nat.le_trans (times e mem).2 later⟩⟩
  | choose _ ready may ih =>
    obtain ⟨le, diary, fate, on, told⟩ := ih
    exact ⟨le, diary, fate, on.choose ready may, told⟩
  | move _ goesOn ih =>
    obtain ⟨le, diary, fate, on, told⟩ := ih
    rw [(delays_step _).now]
    exact ⟨le, diary, _, on.move goesOn, told⟩
  | pause _ waits ih =>
    obtain ⟨le, diary, fate, on, told⟩ := ih
    rw [(delays_step _).now]
    exact ⟨le, diary, _, on.pause waits, told⟩

def Command.millis : Command → Nat
  | .advance millis => millis
  | _ => 0

def dated (now : Nat) : List Command → List (Nat × Command)
  | [] => []
  | k :: rest => [(now, k)].filter (·.2.isInstant) ++ dated (now + k.millis) rest

theorem now_perform (s : Machine) (k : Command) : (s.perform k).now = s.now + k.millis := by
  rw [perform, (delays_settle _).now]
  by_cases instant : k.isInstant = true
  · rw [(journal_apply s instant).2.1]
    cases k <;> first | rfl | cases instant
  · cases k with
    | advance millis => exact now_advance s millis
    | _ => exact absurd rfl instant

theorem now_play (s : Machine) (ks : List Command) :
    (s.play ks).1.now = ks.foldl (fun now k => now + k.millis) s.now := by
  induction ks generalizing s with
  | nil => rfl
  | cons k ks ih =>
    rw [List.foldl_cons, ← now_perform]
    exact ih _

theorem ready_play (settled : s.ready = []) (ks : List Command) : (s.play ks).1.ready = [] := by
  induction ks generalizing s with
  | nil => exact settled
  | cons k ks ih => exact ih (ready_settle _)

theorem watch_play {ks : List Command} (lets : rule.LetsFirst) (punctual : m.Punctual)
    (settled : m.ready = [])
    (may : ∀ s, s.ready = [] → ∀ k ∈ ks, k.isInstant = true → rule.comes s k) :
    ∃ fate, Watch rule m (dated m.now ks) fate none (m.play ks).1 := by
  induction ks generalizing m with
  | nil => exact ⟨_, .here⟩
  | cons k ks ih =>
    have run : Run rule m _ none (m.perform k) := Run.start.perform lets punctual settled
      (may m settled k (List.mem_cons_self ..))
    obtain ⟨_, diary, fate, on, commands, times⟩ := run.watched
    have own : diary = [(m.now, k)].filter (·.2.isInstant) := by
      cases instant : k.isInstant with
      | true =>
        have now : (m.perform k).now = m.now := by
          rw [perform, (delays_settle _).now, (journal_apply m instant).2.1]
        rw [List.nil_append, List.filter_cons_of_pos instant] at commands
        obtain ⟨⟨t, k'⟩, rfl, rfl⟩ := List.map_eq_singleton_iff.1 commands
        have own : t = m.now :=
          have ⟨le, ge⟩ := times _ (List.mem_singleton_self _)
          Nat.le_antisymm (now ▸ ge) le
        rw [own]
        simp [instant]
      | false => simpa [instant] using commands
    obtain ⟨fate', on'⟩ := ih (punctual_perform punctual k) (ready_settle _) fun s settled k mem =>
      may s settled k (List.mem_cons_of_mem _ mem)
    rw [now_perform] at on'
    exact ⟨_, own ▸ on.trans on'⟩

end Autoscaling.Machine
