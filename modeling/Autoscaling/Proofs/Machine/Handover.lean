import Autoscaling.Proofs.Machine.Lineup
import Autoscaling.Proofs.Machine.Onward

namespace Autoscaling

namespace Pool

inductive Deal (shutdown : Bool) (p : Pool) : Agent → List Event → Pool → Prop
  | rest (taken : marked .taken events = []) (dropped : ∀ i r, .dropped i r ∉ events)
      (holding : ∀ w i, p'.worker w = .holding i ↔ p.worker w = .holding i) :
      Deal shutdown p a events p'
  | take {w d : Nat} {i : WorkItem} {p' : Pool} (waits : p.worker w = .idle d)
      (workers : ∀ v, p'.worker v = if v = w then .holding i else p.worker v) :
      Deal shutdown p (.worker w) [.taken i] p'
  | drop {w : Nat} {i : WorkItem} {r : Reason} {p' : Pool} (holds : p.worker w = .holding i)
      (reason : reason? i shutdown = some r)
      (workers : ∀ v, p'.worker v = if v = w then .resting else p.worker v) :
      Deal shutdown p (.worker w) [.dropped i r] p'
  | hand {w : Nat} {i : WorkItem} {p' : Pool} (holds : p.worker w = .holding i)
      (fit : reason? i shutdown = none)
      (workers : ∀ v, p'.worker v = if v = w then .evaluating i .spawned else p.worker v) :
      Deal shutdown p (.worker w) [] p'

variable {p p' : Pool} {a : Agent} {woken : List Agent} {events : List Event}

theorem Move.deal (h : Move now shutdown p a woken events p') : Deal shutdown p a events p' := by
  have set {w : Nat} {x y : Worker} {q : Pool} (at_ : p.worker w = x) (ne : x ≠ .exited)
      (before : ∀ i, x ≠ .holding i) (after : ∀ i, y ≠ .holding i)
      (workers : ∀ v, q.worker v = if v = w then y else p.worker v) (v : Nat) (i : WorkItem) :
      q.worker v = .holding i ↔ p.worker v = .holding i := by
    rw [workers]
    split
    · next own =>
      rw [own, at_]
      exact iff_of_false (after i) (before i)
    · rfl
  cases h with
  | listen rests =>
    exact .rest rfl (by simp) (set rests (by simp) (by simp) (by simp)
      (worker_setWorker rests (by simp) _))
  | take waits =>
    exact .take waits (worker_setWorker (p := (p.leaveLine _).1) waits (by simp) (.holding _))
  | depart waits =>
    exact .rest rfl (by simp) (set waits (by simp) (by simp) (by simp)
      (worker_setWorker (p := (p.leaveLine _).1) waits (by simp) .exited))
  | drop holds reason =>
    refine .drop holds reason fun v => ?_
    rw [Pool.complete, worker_freeSlot]
    exact worker_setWorker holds (by simp) _ v
  | begin holds fit => exact .hand holds fit (worker_setWorker holds (by simp) _)
  | complete ended =>
    refine .rest rfl (by simp) (set (y := .resting) ended (by simp) (by simp) (by simp) fun v => ?_)
    rw [Pool.complete, worker_freeSlot]
    exact worker_setWorker ended (by simp) _ v
  | @progress w i x y runs =>
    refine .rest (by cases x <;> rfl) (by cases x <;> simp [Progress.beginning]) ?_
    exact set runs (by simp) (by simp) (by simp) (worker_setWorker runs (by simp) _)
  | @finish w i x runs =>
    refine .rest (by cases x <;> rfl) (by cases x <;> simp [Progress.beginning]) ?_
    exact set runs (by simp) (by simp) (by simp) (worker_setWorker runs (by simp) _)
  | panic runs =>
    exact .rest rfl (by simp) (set runs (by simp) (by simp) (by simp)
      (worker_setWorker runs (by simp) _))
  | hire =>
    refine .rest rfl (by simp) fun w i => ?_
    have new := worker_append_resting p w
    change p.hire.worker w = _ ↔ _
    change p.hire.worker w = _ at new
    rw [new]
    split
    · next eq =>
      have gone : p.worker w = .exited := by simp [worker, eq, List.getD_eq_getElem?_getD]
      simp [gone]
    · rfl
  | release =>
    rw [release_fst]
    exact .rest rfl (by simp) fun _ _ => Iff.rfl
  | _ => exact .rest rfl (by simp) fun _ _ => Iff.rfl

theorem reason?_eq_shutdown {i : WorkItem} {shutdown : Bool} :
    reason? i shutdown = some .shutdown ↔ shutdown = true := by
  cases shutdown with
  | true => exact iff_of_true rfl rfl
  | false =>
    refine iff_of_false (fun eq => ?_) Bool.false_ne_true
    obtain ⟨_, _, eq⟩ := Option.map_eq_some_iff.1 eq
    cases eq

end Pool

theorem WorkItem.fault?_eq_none_iff {i : WorkItem} (groups : i.policies.entries ≠ []) :
    i.fault? = none ↔ i.job ≠ "" := by
  unfold fault?
  split
  · next empty => exact iff_of_false nofun fun named => named empty
  · next named =>
    rw [if_neg (by simpa [Dict.isEmpty] using groups)]
    exact iff_of_true rfl named

theorem Pool.reason?_eq_malformed {i : WorkItem} {shutdown : Bool} {m : WorkItem.Malformed}
    (h : reason? i shutdown = some (.malformed m)) : i.fault? = some m := by
  unfold reason? at h
  split at h
  · cases h
  · obtain ⟨m', eq, same⟩ := Option.map_eq_some_iff.1 h
    cases same
    exact eq

/-- What a pass makes carries groups, so that only a missing name is at fault. -/
theorem Pool.job_of_malformed {i : WorkItem} {shutdown : Bool} {m : WorkItem.Malformed}
    (groups : i.policies.entries ≠ []) (reason : reason? i shutdown = some (.malformed m)) :
    i.job = "" := by
  have fault := reason?_eq_malformed reason
  by_contra named
  rw [(WorkItem.fault?_eq_none_iff groups).2 named] at fault
  cases fault

namespace Machine

variable {s s' m start : Machine} {turn before : Option Agent} {a : Agent} {cs : List Command}
  {rule : Rule} {woken : List Agent} {events : List Event}

def late (s : Machine) (i : WorkItem) : Bool := decide (.dropped i .shutdown ∈ s.history)

def isDue (s : Machine) (i : WorkItem) : Bool := decide (i.job ≠ "") && !s.late i

theorem late_iff {i : WorkItem} : s.late i = true ↔ .dropped i .shutdown ∈ s.itemEvents := by
  rw [late, decide_eq_true_iff, itemEvents, List.mem_filter]
  exact (and_iff_left rfl).symm

inductive Deals (inLine : Prop) (s s' : Machine) : Prop
  | rest (taken : marked .taken s'.history = marked .taken s.history)
      (late : ∀ i, s'.late i = s.late i)
      (holding : ∀ w i, s'.pool.worker w = .holding i ↔ s.pool.worker w = .holding i)
      (handed : inLine → s'.handedOver = s.handedOver)
      (shutdown : s'.shutdown = s.shutdown ∨
        s'.shutdown = true ∧ ∀ w i, s.pool.worker w ≠ .holding i)
  | take (none : ∀ v j, s.pool.worker v ≠ .holding j)
      (only : ∀ v j, s'.pool.worker v = .holding j ↔ v = w ∧ j = i)
      (taken : marked .taken s'.history = marked .taken s.history ++ [i])
      (late : ∀ i, s'.late i = s.late i) (handed : inLine → s'.handedOver = s.handedOver)
      (shutdown : s'.shutdown = s.shutdown)
  | drop (reason : Pool.reason? i s.shutdown = some r)
      (only : ∀ v j, s.pool.worker v = .holding j ↔ v = w ∧ j = i)
      (none : ∀ v j, s'.pool.worker v ≠ .holding j)
      (taken : marked .taken s'.history = marked .taken s.history)
      (late : ∀ j, s'.late j = (s.late j || decide (j = i ∧ r = .shutdown)))
      (handed : inLine → s'.handedOver = s.handedOver) (shutdown : s'.shutdown = s.shutdown)
  | hand (fit : Pool.reason? i s.shutdown = Option.none)
      (only : ∀ v j, s.pool.worker v = .holding j ↔ v = w ∧ j = i)
      (none : ∀ v j, s'.pool.worker v ≠ .holding j)
      (taken : marked .taken s'.history = marked .taken s.history)
      (late : ∀ i, s'.late i = s.late i)
      (handed : inLine → s'.handedOver = s.handedOver ++ [i]) (shutdown : s'.shutdown = s.shutdown)

theorem Steady.worker_of_holding {w : Nat} {i : WorkItem} (steady : Steady turn s)
    (holds : s.pool.worker w = .holding i) : turn = some (.worker w) :=
  steady.busy (.worker w) ⟨i, holds⟩

theorem Steady.not_holding (steady : Steady turn s) (other : ∀ w, turn ≠ some (.worker w))
    (w : Nat) (i : WorkItem) : s.pool.worker w ≠ .holding i :=
  fun holds => other w (steady.worker_of_holding holds)

theorem Steady.only_holding {w : Nat} {i : WorkItem} (steady : Steady (some (.worker w)) s)
    (holds : s.pool.worker w = .holding i) (v : Nat) (j : WorkItem) :
    s.pool.worker v = .holding j ↔ v = w ∧ j = i := by
  constructor
  · intro holds'
    have eq : v = w := (Agent.worker.inj (Option.some.inj (steady.worker_of_holding holds'))).symm
    subst eq
    exact ⟨rfl, Pool.Worker.holding.inj (holds'.symm.trans holds)⟩
  · rintro ⟨rfl, rfl⟩
    exact holds

theorem Steady.none_holding {w : Nat} {x : Pool.Worker} (steady : Steady (some (.worker w)) s)
    (other : ∀ i, x ≠ .holding i)
    (workers : ∀ v, s'.pool.worker v = if v = w then x else s.pool.worker v) (v : Nat)
    (j : WorkItem) : s'.pool.worker v ≠ .holding j := by
  rw [workers]
  split
  · exact other j
  · next ne =>
    intro holds
    exact ne (Agent.worker.inj (Option.some.inj (steady.worker_of_holding holds))).symm

theorem signals_of_mono (mono : s.shutdown = true → s'.shutdown = true)
    (none : ∀ w i, s.pool.worker w ≠ .holding i) :
    s'.shutdown = s.shutdown ∨ s'.shutdown = true ∧ ∀ w i, s.pool.worker w ≠ .holding i := by
  cases up : s'.shutdown with
  | true => exact .inr ⟨rfl, none⟩
  | false =>
    refine .inl (Bool.eq_false_iff.2 fun before => ?_).symm
    rw [mono before] at up
    cases up

theorem deals_of_eq {inLine : Prop} (history : s'.history = s.history) (pool : s'.pool = s.pool)
    (handed : inLine → s'.handedOver = s.handedOver) (shutdown : s'.shutdown = s.shutdown) :
    Deals inLine s s' := by
  refine .rest (by rw [history]) (fun i => ?_) (fun w i => by rw [pool]) handed (.inl shutdown)
  rw [late, history, late]

theorem late_act (act : Act s a woken events s') (i : WorkItem) :
    s'.late i = (s.late i || decide (.dropped i .shutdown ∈ events)) := by
  rw [Bool.eq_iff_iff, Bool.or_eq_true, late_iff, late_iff, act.itemEvents, List.mem_append,
    decide_eq_true_iff]

theorem deals_step {inLine : Prop} (steady : Steady (some a) s) (lined : inLine → s.LinedUp)
    (act : Act s a woken events s.step) (head : s.ready.head? = some a) :
    Deals inLine s s.step := by
  have late := late_act act
  have taken := act.marked_history .taken
  have own {w : Nat} (eq : a = .worker w) : s.step.shutdown = s.shutdown := by
    rw [Machine.step, head, eq]
    exact (apart_stepWorker s w).shutdown
  have handed (keeps : inLine) := ((lined keeps).step act head).2
  -- Whoever has an item in hand has the turn, so the mover's item is the only one.
  cases act.pool.deal with
  | rest none undropped holding =>
    refine .rest (by rw [taken, none, List.append_nil]) (fun i => ?_) holding ?_ ?_
    · rw [late, decide_eq_false (undropped i _), Bool.or_false]
    · intro keeps
      rcases handed keeps with ⟨same, _⟩ | ⟨w, i, _, holds, _, stands, _⟩
      · exact same
      · rw [(holding w i).2 holds] at stands
        cases stands
    · by_cases worker : ∃ w, a = .worker w
      · obtain ⟨w, eq⟩ := worker
        exact .inl (own eq)
      · have other (w : Nat) : some a ≠ some (.worker w) := fun eq =>
          worker ⟨w, Option.some.inj eq⟩
        exact signals_of_mono act.shutdown (steady.not_holding other)
  | @take w d i _ waits workers =>
    have none (v : Nat) (j : WorkItem) : s.pool.worker v ≠ .holding j := fun holds => by
      have eq := Agent.worker.inj (Option.some.inj (steady.worker_of_holding holds))
      rw [eq, holds] at waits
      cases waits
    refine .take (w := w) none (fun v j => ?_) taken (fun i => ?_) ?_ (own rfl)
    · rw [workers]
      split
      · next eq => simp [eq, eq_comm]
      · next ne => exact iff_of_false (none v j) fun h => ne h.1
    · rw [late, decide_eq_false (by simp), Bool.or_false]
    · intro keeps
      rcases handed keeps with ⟨same, _⟩ | ⟨v, j, _, holds, _⟩
      · exact same
      · exact absurd holds (none v j)
  | @drop w i r _ holds reason workers =>
    refine .drop reason (steady.only_holding holds) (steady.none_holding (by simp) workers)
      (taken.trans (List.append_nil _)) (fun j => ?_) ?_ (own rfl)
    · rw [late]
      simp [eq_comm]
    · intro keeps
      rcases handed keeps with ⟨same, _⟩ | ⟨v, j, eq, holds', fit, _⟩
      · exact same
      · cases eq
        cases holds.symm.trans holds'
        rw [reason] at fit
        cases fit
  | @hand w i _ holds fit workers =>
    refine .hand fit (steady.only_holding holds) (steady.none_holding (by simp) workers)
      (taken.trans (List.append_nil _)) (fun j => ?_) ?_ (own rfl)
    · rw [late, decide_eq_false (by simp), Bool.or_false]
    · intro keeps
      rcases handed keeps with ⟨_, none⟩ | ⟨v, j, eq, holds', _, _, handed⟩
      · exact absurd fit (none w i rfl holds)
      · cases eq
        cases holds.symm.trans holds'
        exact handed

theorem shutdown_apply_mono (s : Machine) (k : Command) (instant : k.isInstant = true)
    (signalled : s.shutdown = true) : (s.apply k).shutdown = true := by
  cases k with
  | advance => cases instant
  | unhold job =>
    obtain ⟨_, _, _, _, eq⟩ := unhold_eq s job
    rw [apply, eq]
    exact signalled
  | unholdAnswer q =>
    simp only [apply, unholdAnswer]
    split <;> exact signalled
  | shutdown =>
    simp only [apply, signalShutdown]
    split <;> exact signalled
  | _ => exact signalled

theorem deals_apply {inLine : Prop} (steady : Steady none s) (lined : inLine → s.LinedUp)
    {k : Command} (instant : k.isInstant = true) : Deals inLine s (s.apply k) := by
  have history : (s.apply k).history = s.history := by
    rw [history, (journal_apply s instant).1, Machine.history]
  have none := steady.not_holding (by simp)
  have none' := (steady.apply instant).not_holding (by simp)
  exact .rest (by rw [history]) (fun i => by rw [late, history, late])
    (fun w i => iff_of_false (none' w i) (none w i))
    (fun keeps => ((lined keeps).apply steady instant).2)
    (signals_of_mono (shutdown_apply_mono s k instant) none)

abbrev taken (s : Machine) : List WorkItem := marked .taken s.history

inductive Dealt (s : Machine) : Prop
  | clear (none : ∀ w i, s.pool.worker w ≠ .holding i)
      (handed : s.handedOver = s.taken.filter s.isDue)
  | amid (only : ∀ v j, s.pool.worker v = .holding j ↔ v = w ∧ j = i)
      (last : s.taken = l ++ [i]) (handed : s.handedOver = l.filter s.isDue)

structure Apiece (s : Machine) : Prop where
  once : s.taken.Nodup
  groups : ∀ i ∈ s.taken, i.policies.entries ≠ []

theorem isDue_congr {l : List WorkItem} (late : ∀ i ∈ l, s'.late i = s.late i) :
    l.filter s'.isDue = l.filter s.isDue :=
  List.filter_congr fun i mem => by rw [isDue, late i mem, isDue]

theorem Steady.not_late (steady : Steady turn s) (once : s.taken.Nodup) {w : Nat} {i : WorkItem}
    (holds : s.pool.worker w = .holding i) : s.late i = false := by
  refine Bool.eq_false_iff.2 fun late => ?_
  have dropped : i ∈ marked .dropped s.itemEvents := mem_dropped_iff.2 ⟨_, late_iff.1 late⟩
  have held : i ∈ s.pool.held .unseen :=
    List.mem_filterMap.2 ⟨_, List.mem_of_getElem? (Pool.worker_eq_of_ne_exited holds (by simp)), rfl⟩
  have fates := steady.ledger.fates i
  have := List.nodup_iff_count_le_one.1 once i
  have := List.count_pos_iff.2 dropped
  have := List.count_pos_iff.2 held
  rw [marked_itemEvents] at fates
  simp only [taken] at *
  omega

namespace Dealt

theorem deal {inLine : Prop} (dealt : Dealt s) (deals : Deals inLine s s') (keeps : inLine)
    (apiece : Apiece s') (steady : Steady turn s)
    (before : s.taken.Nodup) : Dealt s' := by
  cases deals with
  | rest taken late holding handed =>
    have due {l : List WorkItem} : l.filter s'.isDue = l.filter s.isDue :=
      isDue_congr fun i _ => late i
    cases dealt with
    | clear none handed' =>
      refine .clear (fun w i holds => none w i ((holding w i).1 holds)) ?_
      rw [handed keeps, handed', Machine.taken, Machine.taken, taken, due]
    | amid only last handed' =>
      refine .amid (fun v j => (holding v j).trans (only v j)) (taken.trans last) ?_
      rw [handed keeps, handed', due]
  | take none only taken late handed =>
    cases dealt with
    | clear _ handed' =>
      refine .amid only taken ?_
      rw [handed keeps, handed', isDue_congr fun i _ => late i]
    | @amid w i _ only' => exact absurd ((only' w i).2 ⟨rfl, rfl⟩) (none w i)
  | @drop i r w reason only none taken late handed =>
    cases dealt with
    | clear none' => exact absurd ((only w i).2 ⟨rfl, rfl⟩) (none' w i)
    | @amid v j l only' last handed' =>
      obtain ⟨rfl, rfl⟩ := (only' w i).1 ((only w i).2 ⟨rfl, rfl⟩)
      have all : s'.taken = l ++ [i] := taken.trans last
      refine .clear none ?_
      have once := apiece.once
      rw [all] at once
      -- The item in hand is the last that was taken, and no other becomes late with it.
      have others : l.filter s'.isDue = l.filter s.isDue := isDue_congr fun j mem => by
        have ne : j ≠ i := fun eq =>
          (List.nodup_append.1 once).2.2 j mem i (List.mem_singleton_self i) eq
        rw [late, decide_eq_false fun h => ne h.1, Bool.or_false]
      have out : s'.isDue i = false := by
        cases r with
        | shutdown => simp [isDue, late]
        | malformed =>
          simp [isDue, Pool.job_of_malformed (apiece.groups i (by simp [all])) reason]
      rw [handed keeps, handed', all, List.filter_append, others,
        List.filter_cons_of_neg (by simp [out])]
      exact (List.append_nil _).symm
  | @hand i w fit only none taken late handed =>
    cases dealt with
    | clear none' => exact absurd ((only w i).2 ⟨rfl, rfl⟩) (none' w i)
    | @amid v j l only' last handed' =>
      have holds := (only w i).2 ⟨rfl, rfl⟩
      obtain ⟨rfl, rfl⟩ := (only' w i).1 holds
      have all : s'.taken = l ++ [i] := taken.trans last
      refine .clear none ?_
      have due : s'.isDue i = true := by
        have groups := apiece.groups i (by simp [all])
        have named := (WorkItem.fault?_eq_none_iff groups).1 (Pool.fault?_of_reason? fit)
        simp [isDue, late, steady.not_late before holds, named]
      rw [handed keeps, handed', all, List.filter_append, isDue_congr fun j _ => late j,
        List.filter_cons_of_pos due, List.filter_nil]

end Dealt

theorem Onward.deals {motive : Machine → Prop} (first : Run rule start cs before m)
    (fresh : start.Fresh) (here : motive m)
    (next : ∀ {turn turn' s s'}, Onward rule before m turn s → Onward rule before m turn' s' →
      Deals rule.KeepsLine s s' → motive s → motive s')
    (on : Onward rule before m turn s) : motive s := by
  induction on with
  | here => exact here
  | command on may instant ih =>
    obtain ⟨_, run⟩ := first.onward on
    have deals := deals_apply (run.steady fresh) (run.linedUp fresh) instant
    exact next on (on.command may instant) deals ih
  | @elapse _ t on settled later timely ih =>
    obtain ⟨_, run⟩ := first.onward on
    have handed (keeps) := ((run.linedUp fresh keeps).elapse (run.steady fresh) settled t).2
    exact next on (on.elapse settled later timely) (deals_of_eq rfl rfl handed rfl) ih
  | choose on ready may ih =>
    obtain ⟨_, run⟩ := first.onward on
    have handed (keeps : rule.KeepsLine) :=
      ((run.linedUp fresh keeps).prefer fun w eq => keeps _ w (eq ▸ may)).2
    exact next on (on.choose ready may) (deals_of_eq rfl rfl handed rfl) ih
  | move on goesOn ih =>
    obtain ⟨_, run⟩ := first.onward on
    obtain ⟨_, _, act⟩ := run.act fresh
    have deals := deals_step (run.steady fresh) (run.linedUp fresh) act run.head_of_turn
    exact next on (on.move goesOn) deals ih
  | pause on waits ih =>
    obtain ⟨_, run⟩ := first.onward on
    obtain ⟨_, _, act⟩ := run.act fresh
    have deals := deals_step (run.steady fresh) (run.linedUp fresh) act run.head_of_turn
    exact next on (on.pause waits) deals ih

section
variable (fresh : start.Fresh)
include fresh

theorem Run.dealt (keeps : rule.KeepsLine)
    (apiece : ∀ {cs turn s}, Run rule start cs turn s → Apiece s)
    (run : Run rule start cs turn s) : Dealt s := by
  refine Onward.deals (motive := Dealt) .start fresh ?_ (fun on on' deals dealt => ?_)
    (Onward.here.run run)
  · obtain ⟨_, _, pool⟩ := fresh.pool
    refine .clear (fun w i => by simp [pool, Pool.worker]) ?_
    simp [handedOver, spawned, lineup, taken, history, fresh.journal, fresh.ready]
  · obtain ⟨_, run⟩ := Run.start.onward on
    obtain ⟨_, run'⟩ := Run.start.onward on'
    exact dealt.deal deals keeps (apiece run') (run.steady fresh) (apiece run).once

theorem Onward.late (first : Run rule start cs before m) (on : Onward rule before m turn s)
    (signalled : m.shutdown = true) :
    s.shutdown = true ∧ ∀ i ∈ s.taken, i ∈ m.taken ∨ s.late i = true ∨
      ∃ w, s.pool.worker w = .holding i := by
  refine on.deals (motive := fun s => s.shutdown = true ∧ ∀ i ∈ s.taken, i ∈ m.taken ∨
    s.late i = true ∨ ∃ w, s.pool.worker w = .holding i) first fresh
    ⟨signalled, fun i mem => .inl mem⟩ fun _ _ deals before => ?_
  obtain ⟨up, fates⟩ := before
  cases deals with
  | rest taken late holding _ shutdown =>
    refine ⟨shutdown.elim (·.trans up) (·.1), fun i mem => ?_⟩
    simp only [Machine.taken, taken, late, holding] at mem ⊢
    exact fates i mem
  | @take w i none only taken late _ shutdown =>
    refine ⟨shutdown.trans up, fun j mem => ?_⟩
    rw [Machine.taken, taken, List.mem_append, List.mem_singleton] at mem
    rcases mem with mem | rfl
    · rcases fates j mem with old | dropped | ⟨v, holds⟩
      · exact .inl old
      · exact .inr (.inl ((late j).trans dropped))
      · exact absurd holds (none v j)
    · exact .inr (.inr ⟨w, (only w _).2 ⟨rfl, rfl⟩⟩)
  | drop reason only none taken late _ shutdown =>
    refine ⟨shutdown.trans up, fun j mem => ?_⟩
    rw [Machine.taken, taken] at mem
    rw [up] at reason
    cases Option.some.inj reason
    rcases fates j mem with old | dropped | ⟨v, holds⟩
    · exact .inl old
    · exact .inr (.inl (by simp [late, dropped]))
    · exact .inr (.inl (by simp [late, ((only v j).1 holds).2]))
  | hand fit =>
    rw [up] at fit
    cases fit

theorem Onward.early (apiece : ∀ {cs turn s}, Run rule start cs turn s → Apiece s)
    (first : Run rule start cs before m) (on : Onward rule before m turn s)
    (running : m.shutdown = false) :
    ∀ i ∈ m.taken, i ∈ s.taken ∧ s.late i = false ∧
      ∀ w, s.pool.worker w = .holding i → s.shutdown = false := by
  refine on.deals (motive := fun s => ∀ i ∈ m.taken, i ∈ s.taken ∧ s.late i = false ∧
    ∀ w, s.pool.worker w = .holding i → s.shutdown = false) first fresh
    (fun i mem => ⟨mem, ?_, fun _ _ => running⟩) fun _ on' deals before i mem => ?_
  · refine Bool.eq_false_iff.2 fun dropped => ?_
    obtain ⟨b, reason, known⟩ := (first.steady fresh).ledger.reasons i _ (late_iff.1 dropped)
    rw [known (Pool.reason?_eq_shutdown.1 reason)] at running
    cases running
  · obtain ⟨_, run'⟩ := first.onward on'
    obtain ⟨old, kept, down⟩ := before i mem
    cases deals with
    | rest taken late holding _ shutdown =>
      refine ⟨by rwa [Machine.taken, taken], (late i).trans kept, fun w holds => ?_⟩
      have holds := (holding w i).1 holds
      exact shutdown.elim (·.trans (down w holds)) fun up => absurd holds (up.2 w i)
    | @take w j _ only taken late _ _ =>
      have once := (apiece run').once
      rw [Machine.taken, taken] at once
      refine ⟨by simp [Machine.taken, taken, old], (late i).trans kept, fun v holds => ?_⟩
      have own := ((only v i).1 holds).2
      exact absurd own ((List.nodup_append.1 once).2.2 i old j (List.mem_singleton_self j))
    | @drop j _ w reason only none taken late _ _ =>
      refine ⟨by rwa [Machine.taken, taken], ?_, fun v holds => absurd holds (none v i)⟩
      rw [late, kept, Bool.false_or, decide_eq_false]
      rintro ⟨rfl, rfl⟩
      have up := Pool.reason?_eq_shutdown.1 reason
      rw [down w ((only w i).2 ⟨rfl, rfl⟩)] at up
      cases up
    | hand _ _ none taken late =>
      exact ⟨by rwa [Machine.taken, taken], (late i).trans kept, fun v holds => absurd holds (none v i)⟩

end

end Machine

end Autoscaling
