import Autoscaling.Proofs.Machine.Steady

namespace Autoscaling.Machine

def Command.given : Command → List WorkItem
  | .submit items => items
  | _ => []

def pending (s : Machine) : List WorkItem := s.calls.flatMap Call.pending

variable {s s' start : Machine} {turn : Option Agent} {a : Agent} {cs : List Command}
  {woken : List Agent} {events : List Event} {c w : Nat} {i : WorkItem}

theorem count_flatMap_set {α β : Type} [BEq β] {f : α → List β} {l : List α} {c : Nat} {d : α}
    (lt : c < l.length) (x : α) (b : β) :
    ((l.set c x).flatMap f).count b + (f (l.getD c d)).count b =
      (l.flatMap f).count b + (f x).count b := by
  induction l generalizing c with
  | nil => cases lt
  | cons y l ih =>
    cases c with
    | zero => simp [Nat.add_comm, Nat.add_left_comm]
    | succ c =>
      have := ih (Nat.lt_of_succ_lt_succ lt)
      simp only [List.set_cons_succ, List.flatMap_cons, List.count_append, List.getD_cons_succ] at *
      omega

theorem count_pending (calls : s'.calls = s.calls.set c (s'.call c)) (i : WorkItem) :
    s'.pending.count i + (s.call c).pending.count i =
      s.pending.count i + (s'.call c).pending.count i := by
  rcases Nat.lt_or_ge c s.calls.length with lt | ge
  · rw [pending, calls]
    exact count_flatMap_set lt (s'.call c) i
  · rw [List.set_eq_of_length_le ge] at calls
    rw [pending, call, call, calls, pending]

structure Given (cs : List Command) (s : Machine) : Prop where
  ofPool : ∀ c, (s.call c).ofPool = true
  count : ∀ i, (cs.flatMap Command.given).count i = (marked .accepted s.itemEvents).count i +
    (marked .refused s.itemEvents).count i + s.pending.count i

namespace Given

theorem act (given : Given cs s) (act : Act s a woken events s') : Given cs s' := by
  have split (m : Mark) (i : WorkItem) : (marked m s'.itemEvents).count i =
      (marked m s.itemEvents).count i + (marked m events).count i := by
    rw [act.itemEvents, marked_append, List.count_append]
  by_cases caller : ∃ c, a = .caller c
  · obtain ⟨c, rfl⟩ := caller
    obtain ⟨ofPool, pending⟩ := act.ofPool c rfl (given.ofPool c)
    refine ⟨fun d => ?_, fun i => ?_⟩
    · by_cases own : d = c
      · rwa [own]
      · rw [act.calls d fun h => own (Agent.caller.inj h).symm]
        exact given.ofPool d
    · have := given.count i
      have := count_pending (calls_eq_set act.toBeside) i
      have := congrArg (List.count i) pending
      rw [List.count_append, List.count_append] at this
      have := split .accepted i
      have := split .refused i
      omega
  · have other : ∀ c, a ≠ .caller c := fun c eq => caller ⟨c, eq⟩
    have calls := calls_eq act.toBeside other
    obtain ⟨accepted, refused⟩ := act.pool.submitted other
    refine ⟨fun d => ?_, fun i => ?_⟩
    · rw [call, calls]
      exact given.ofPool d
    · rw [split, split, accepted, refused, pending, calls]
      exact given.count i

theorem of_eq (given : Given cs s) (calls : s'.calls = s.calls)
    (itemEvents : s'.itemEvents = s.itemEvents) : Given cs s' := by
  refine ⟨fun c => ?_, fun i => ?_⟩
  · rw [call, calls]
    exact given.ofPool c
  · rw [itemEvents, pending, calls]
    exact given.count i

theorem begin (given : Given cs s) {x : Call} (ofPool : x.ofPool = true) {c : Command}
    (pending : x.pending = c.given) : Given (cs ++ [c]) (s.begin x) := by
  refine ⟨fun d => ?_, fun i => ?_⟩
  · rw [call_begin]
    split
    · exact ofPool
    · exact given.ofPool d
  · have := given.count i
    have calls : (s.begin x).pending = s.pending ++ c.given := by
      rw [← pending]
      exact (List.flatMap_append ..).trans (congrArg _ (List.append_nil _))
    have same : (s.begin x).itemEvents = s.itemEvents := rfl
    rw [calls, same]
    simp only [List.flatMap_append, List.flatMap_cons, List.flatMap_nil, List.append_nil,
      List.count_append]
    omega

theorem tell (given : Given cs s) {c : Command} (none : c.given = []) : Given (cs ++ [c]) s := by
  refine ⟨given.ofPool, fun i => ?_⟩
  have := given.count i
  simpa [none] using this

theorem apply (given : Given cs s) {c : Command} (may : c.isOfPool = true)
    (instant : c.isInstant = true) : Given (cs ++ [c]) (s.apply c) := by
  have events : (s.apply c).itemEvents = s.itemEvents := by
    simp only [itemEvents, history, journal_apply s instant]
  cases c with
  | submit items => exact given.begin rfl rfl
  | release => exact given.begin rfl rfl
  | unhold job =>
    exact (given.of_eq (calls_unhold s job) events).tell rfl
  | shutdown =>
    have calls : s.signalShutdown.calls = s.calls := by
      unfold signalShutdown
      split <;> rfl
    exact (given.of_eq calls events).tell rfl
  | advance millis => cases instant
  | _ => cases may

theorem perm (given : Given cs s) : (cs.flatMap Command.given).Perm
    (marked .accepted s.history ++ marked .refused s.history ++ s.pending) := by
  rw [List.perm_iff_count]
  intro i
  rw [List.count_append, List.count_append, ← marked_itemEvents, ← marked_itemEvents]
  exact given.count i

theorem apart (given : Given cs s) (ledger : s.pool.Ledger s.shutdown s.itemEvents) (i : WorkItem) :
    (marked .started s.history).count i + (s.pool.held .handed).count i +
      (marked .refused s.history).count i + s.pending.count i ≤
        (cs.flatMap Command.given).count i := by
  obtain ⟨kept, _, order⟩ := ledger.order
  have := ledger.fates i
  have := congrArg (List.count i) order
  rw [List.count_append] at this
  have := given.count i
  simp only [marked_itemEvents] at *
  omega

theorem unhanded (given : Given cs s) (ledger : s.pool.Ledger s.shutdown s.itemEvents)
    (once : (cs.flatMap Command.given).Nodup)
    (mem : i ∈ marked .refused s.history ∨ i ∈ s.pending) :
    i ∉ marked .started s.history ∧ i ∉ s.pool.held .handed := by
  have := List.nodup_iff_count_le_one.1 once i
  have := given.apart ledger i
  have : 0 < (marked .refused s.history).count i + s.pending.count i := by
    rcases mem with mem | mem
    · exact Nat.add_pos_left (List.count_pos_iff.2 mem) _
    · exact Nat.add_pos_right _ (List.count_pos_iff.2 mem)
  exact ⟨List.count_eq_zero.1 (by omega), List.count_eq_zero.1 (by omega)⟩

end Given

theorem Run.given {rule : Rule} (run : Run rule start cs turn s) (fresh : start.Fresh)
    (ofPool : ∀ s c, rule.comes s c → c.isOfPool = true) : Given cs s := by
  induction run with
  | start =>
    refine ⟨fun c => by simp [call, fresh.calls, Call.ofPool], fun i => ?_⟩
    simp [itemEvents, history, pending, fresh.calls, fresh.journal]
  | command _ may instant ih => exact ih.apply (ofPool _ _ may) instant
  | elapse _ _ _ _ ih => exact ih.of_eq rfl rfl
  | choose _ _ _ ih => exact ih.of_eq rfl rfl
  | move run _ ih | pause run _ ih =>
    obtain ⟨_, _, act⟩ := run.act fresh
    exact ih.act act

theorem shutdown_stepWorker (s : Machine) (w : Nat) : (s.stepWorker w).shutdown = s.shutdown := by
  unfold stepWorker
  repeat' split
  all_goals rfl

theorem dequeued (steady : Steady (some (.worker w)) s)
    (head : s.ready.head? = some (.worker w))
    (taken : s.step.history = s.history ++ [.taken i]) :
    s.step.pool.worker w = .holding i ∧ s.step.shutdown = s.shutdown := by
  obtain ⟨woken, events, act⟩ := act_step steady.linked steady.sound head
  have new : events = [.taken i] := by
    have told : s.step.itemEvents = s.itemEvents ++ [.taken i] := by
      simp [itemEvents, taken, Event.mark?]
    exact List.append_cancel_left (act.itemEvents.symm.trans told)
  refine ⟨?_, ?_⟩
  · have move := act.pool
    generalize s.step.pool = p at move
    rw [new] at move
    cases move with
    | take waits =>
      have set := Pool.worker_setWorker (p := (s.pool.leaveLine w).1) waits (by simp)
      exact (set (.holding i) w).trans (if_pos rfl)
  · have same := shutdown_stepWorker s w
    rwa [step, head]

theorem looked (steady : Steady turn s) (head : ∀ a, turn = some a → s.ready.head? = some a)
    (holds : s.pool.worker w = .holding i) :
    turn = some (.worker w) ∧
    s.step.history = s.history ++ (Pool.reason? i s.shutdown).toList.map (.dropped i) ∧
    (Pool.reason? i s.shutdown = none → s.step.pool.worker w = .evaluating i .spawned) := by
  have own := steady.busy (.worker w) ⟨i, holds⟩
  have step : s.step = s.stepWorker w := by rw [Machine.step, head _ own]
  refine ⟨own, ?_⟩
  rw [step]
  cases reason : Pool.reason? i s.shutdown with
  | none =>
    simp only [stepWorker, holds, Pool.dispatch, reason]
    refine ⟨(List.append_nil _).symm, fun _ => ?_⟩
    exact (Pool.worker_setWorker holds (by simp) _ w).trans (if_pos rfl)
  | some r =>
    simp only [stepWorker, holds, Pool.dispatch, reason]
    exact ⟨history_log _ _, fun none => by cases none⟩

theorem Steady.resting (steady : Steady none s) :
    s.pool.sent = [] ∧ s.pool.held .unseen = [] := by
  constructor
  · refine Pool.sent_of_unqueued fun t mem queued => ?_
    exact steady.not_busy (.caller t.caller) ⟨t, mem, rfl, by rw [queued]; rfl⟩
  · refine List.filterMap_eq_nil_iff.2 fun x mem => ?_
    obtain ⟨w, rfl⟩ := Pool.exists_worker mem
    cases holds : s.pool.worker w with
    | holding i => exact absurd ⟨i, holds⟩ (steady.not_busy (.worker w))
    | evaluating i x => cases x <;> rfl
    | _ => rfl

theorem Steady.order (steady : Steady turn s) (sent : s.pool.sent = []) :
    marked .accepted s.history = marked .taken s.history ++ s.pool.queue := by
  obtain ⟨kept, queue, order⟩ := steady.ledger.order
  rw [sent, List.append_nil] at queue
  rw [queue, ← marked_itemEvents, ← marked_itemEvents, order]

theorem Steady.fates (steady : Steady turn s) (unseen : s.pool.held .unseen = []) :
    (marked .taken s.history).Perm
      (marked .started s.history ++ s.pool.held .handed ++ marked .dropped s.history) := by
  rw [List.perm_iff_count]
  intro i
  have := steady.ledger.fates i
  rw [unseen] at this
  simp only [marked_itemEvents, List.count_append, List.count_nil] at *
  omega

theorem perm_filter {l kept left : List α} {p : α → Bool} (perm : l.Perm (kept ++ left))
    (keeps : ∀ x ∈ kept, p x = true) (leaves : ∀ x ∈ left, p x = false) :
    kept.Perm (l.filter p) := by
  have filtered := perm.filter p
  have none : left.filter p = [] := List.filter_eq_nil_iff.2 fun x mem => by simp [leaves x mem]
  rw [List.filter_append, List.filter_eq_self.2 keeps, none, List.append_nil] at filtered
  exact filtered.symm

structure Conserved (cs : List Command) (turn : Option Agent) (s : Machine) : Prop where
  given : (cs.flatMap Command.given).Perm
    (marked .accepted s.history ++ marked .refused s.history ++ s.pending)
  order : turn = none → marked .accepted s.history = marked .taken s.history ++ s.pool.queue
  amid : ∃ kept, s.pool.queue = kept ++ s.pool.sent ∧
    marked .accepted s.history = marked .taken s.history ++ kept
  fates : turn = none → (marked .taken s.history).Perm
    (marked .started s.history ++ s.pool.held .handed ++ marked .dropped s.history)
  dequeued : ∀ w i, turn = some (.worker w) → s.step.history = s.history ++ [.taken i] →
    s.step.pool.worker w = .holding i ∧ s.step.shutdown = s.shutdown
  looked : ∀ w i, s.pool.worker w = .holding i → turn = some (.worker w) ∧
    s.step.history = s.history ++ (Pool.reason? i s.shutdown).toList.map (.dropped i) ∧
    (Pool.reason? i s.shutdown = none → s.step.pool.worker w = .evaluating i .spawned)
  reasons : ∀ i r, .dropped i r ∈ s.history → ∃ b, Pool.reason? i b = some r ∧
    (b = true → s.shutdown = true)
  fit : ∀ i, i ∈ s.pool.held .handed ∨ i ∈ marked .started s.history → i.fault? = none
  apart : ∀ i, (marked .started s.history).count i + (s.pool.held .handed).count i +
    (marked .refused s.history).count i + s.pending.count i ≤ (cs.flatMap Command.given).count i
  unhanded : (cs.flatMap Command.given).Nodup → ∀ i, i ∈ marked .refused s.history ∨ i ∈ s.pending →
    i ∉ marked .started s.history ∧ i ∉ s.pool.held .handed
  manned : s.pool.queue ≠ [] → (∀ t ∈ s.pool.submissions, t.stage ≠ .queued) →
    0 < s.pool.live ∧ ∃ w, s.pool.worker w ≠ .exited

theorem exists_worker_of_live {p : Pool} (sound : p.Sound) (live : 0 < p.live) :
    ∃ w, p.worker w ≠ .exited := by
  rw [sound.live_eq] at live
  obtain ⟨x, mem, lives⟩ := List.countP_pos_iff.1 live
  obtain ⟨w, rfl⟩ := Pool.exists_worker mem
  refine ⟨w, fun gone => ?_⟩
  rw [gone] at lives
  cases lives

/-- In turns of one thread no item is lost, made twice or handed over without being accepted. -/
theorem Run.conserved {capacity expiry : Nat} {scenario : Scenario}
    (made : ofPool capacity expiry scenario = .made start)
    (run : Run poolRule start cs turn s) : Conserved cs turn s := by
  have fresh := fresh_ofPool made
  have steady := run.steady fresh
  have given := run.given fresh fun _ _ => id
  have ledger := steady.ledger
  have resting (rest : turn = none) := Steady.resting (rest ▸ steady)
  constructor
  case given => exact given.perm
  case order => exact fun rest => steady.order (resting rest).1
  case amid =>
    rw [← marked_itemEvents, ← marked_itemEvents]
    exact ledger.order
  case fates => exact fun rest => steady.fates (resting rest).2
  case dequeued =>
    rintro w i rfl taken
    exact Machine.dequeued steady run.head_of_turn taken
  case looked =>
    intro w i holds
    exact Machine.looked steady (fun a eq => by subst eq; exact run.head_of_turn) holds
  case reasons =>
    intro i r mem
    exact ledger.reasons i r (List.mem_filter.2 ⟨mem, rfl⟩)
  case fit =>
    intro i
    rw [← marked_itemEvents]
    exact ledger.fit i
  case apart => exact given.apart ledger
  case unhanded => exact fun once i => given.unhanded ledger once
  case manned =>
    intro queued none
    have live := steady.manned queued (Pool.sent_of_unqueued none)
    exact ⟨live, exists_worker_of_live steady.sound live⟩

theorem conserved_heldUp :
    marked .refused (heldUp.play [.submit [heldItem, heldItem], .release]).1.history = [heldItem] ∧
      Conserved [.submit [heldItem, heldItem], .release] none
        (heldUp.play [.submit [heldItem, heldItem], .release]).1 := by
  have made : ofPool 1 100 heldUp.scenario = .made heldUp := rfl
  have run := run_play [.submit [heldItem, heldItem], .release] (fresh_ofPool made)
    (by simp [Command.isOfPool])
  exact ⟨rfl, run.conserved made⟩

end Autoscaling.Machine
