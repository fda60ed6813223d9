import Autoscaling.Proofs.Machine.Closing
import Autoscaling.Proofs.Machine.Handover
import Autoscaling.Proofs.Machine.Watch
import Autoscaling.Proofs.Saturation

namespace Autoscaling

namespace Pool

variable {p p' : Pool} {a : Agent} {woken : List Agent} {events : List Event} {w : Nat}

theorem Move.handed (h : Move now true p a woken events p') (i : WorkItem) :
    (marked .started events).count i + (p'.held .handed).count i = (p.held .handed).count i := by
  have set {w : Nat} {x : Worker} (eq : p.worker w = x) (ne : x ≠ .exited) (y : Worker)
      (same : (marked .started events).count i + (y.item? .handed).toList.count i =
        (x.item? .handed).toList.count i) :
      (marked .started events).count i + ((p.setWorker w y).held .handed).count i =
        (p.held .handed).count i := by
    have := count_held_setWorker eq ne y .handed i
    omega
  cases h with
  | listen rests => exact set rests (by simp) (.idle _) rfl
  | take waits => exact set waits (by simp) (.holding _) rfl
  | depart waits => exact set waits (by simp) .exited rfl
  | drop holds =>
    rw [Pool.complete, held_freeSlot]
    exact set holds (by simp) .resting rfl
  | begin holds fit => cases fit
  | complete ended =>
    rw [Pool.complete, held_freeSlot]
    exact set ended (by simp) .resting rfl
  | @progress w j x y runs later =>
    refine set runs (by simp) (.evaluating j y) ?_
    cases x <;> cases y <;> first | rfl | exact absurd rfl later
  | @finish w j x runs =>
    refine set runs (by simp) (.finished j) ?_
    cases x <;> rfl
  | panic runs => exact set runs (by simp) (.finished _) rfl
  | hire =>
    exact (Nat.zero_add _).trans (congrArg (List.count i) (held_hire p .handed))
  | release =>
    rw [release_fst]
    exact Nat.zero_add _
  | _ => exact Nat.zero_add _

theorem Move.executes (h : Move now true p a woken events p')
    (runs : (p'.worker w).isEvaluating = true) : (p.worker w).isEvaluating = true := by
  cases eq : p'.worker w with
  | evaluating i x =>
    rcases h.evaluating_cases eq with before | ⟨_, _, fit⟩ | ⟨_, _, y, before⟩
    · rw [before]
      rfl
    · cases fit
    · rw [before]
      rfl
  | _ =>
    rw [eq] at runs
    cases runs

theorem Move.ends (h : Move now shutdown p a woken events p')
    (runs : (p.worker w).isEvaluating = true) (stops : (p'.worker w).isEvaluating = false) :
    events ≠ [] := by
  have own : a = .evaluation w := by
    by_contra other
    rw [h.evaluates other runs, runs] at stops
    cases stops
  subst own
  cases h with
  | stay =>
    rw [runs] at stops
    cases stops
  | progress before =>
    rw [worker_setWorker before (by simp), if_pos rfl] at stops
    cases stops
  | finish | panic => simp

theorem Move.accepts (h : Move now shutdown p a woken events p') (running : p'.released = false) :
    p.released = false ∧ marked .refused events = [] := by
  cases h with
  | drop | complete =>
    rw [Pool.complete, released_freeSlot] at running
    exact ⟨running, rfl⟩
  | @progress _ _ x | @finish _ _ x => exact ⟨running, by cases x <;> rfl⟩
  | refuse released | giveUp _ _ released | giveBack _ _ released =>
    cases running.symm.trans released
  | release =>
    rw [release_fst] at running
    cases running
  | _ => exact ⟨running, rfl⟩

end Pool

def Event.reply? : Event → Option (String × Bool)
  | .answered (.submit job yes) => some (job, yes)
  | _ => none

def Event.verdict? : Event → Option (String × Bool)
  | .accepted i => some (i.job, true)
  | .refused i => some (i.job, false)
  | _ => none

theorem filterMap_verdict? (events : List Event) (none : marked .refused events = []) :
    events.filterMap Event.verdict? = (marked .accepted events).map fun i => (i.job, true) := by
  induction events with
  | nil => rfl
  | cons e events ih =>
    cases e with
    | refused i => cases none
    | accepted i => exact congrArg _ (ih none)
    | _ => exact ih none

namespace Machine

variable {s s' m start : Machine} {turn turn' : Option Agent} {a : Agent} {cs : List Command}
  {rule : Rule} {woken : List Agent} {events : List Event} {w c : Nat} {i : WorkItem}
  {diary : List (Nat × Command)} {fate fate' : Nat → Option (Nat × Event)}

def Honest (s : Machine) : Prop :=
  s.history.filterMap Event.reply? = s.history.filterMap Event.verdict?

namespace Honest

theorem tell {told : List Event} (honest : s.Honest) (history : s'.history = s.history ++ told)
    (own : told.filterMap Event.reply? = told.filterMap Event.verdict?) : s'.Honest := by
  unfold Honest at *
  rw [history, List.filterMap_append, List.filterMap_append, honest, own]

theorem log (honest : s.Honest) {e : Event} (other : e.reply? = none ∧ e.verdict? = none) :
    (s.log e).Honest :=
  honest.tell (history_log s e) (by simp [other])

theorem stepWorker (honest : s.Honest) (w : Nat) : (s.stepWorker w).Honest := by
  unfold Machine.stepWorker
  split
  · exact honest
  · split
    · exact honest
    · exact honest.log ⟨rfl, rfl⟩
    · exact honest
  · split
    · exact honest.log ⟨rfl, rfl⟩
    · exact honest
  all_goals exact honest

theorem stepEvaluation (honest : s.Honest) (w : Nat) : (s.stepEvaluation w).Honest := by
  have ends {s : Machine} (honest : s.Honest) (i : WorkItem) : (s.finishEvaluation w i).Honest := by
    have told : (s.finishEvaluation w i).history = s.history ++ [.finished i] := by
      simp [history, (finishEvaluation_told s w i).2.2]
    exact honest.tell told rfl
  unfold Machine.stepEvaluation
  split
  · next i _ =>
    have begun : (s.log (.started i)).Honest := honest.log ⟨rfl, rfl⟩
    dsimp only
    split
    · exact ends begun i
    · exact begun
    · exact begun.log (e := .panicked i) ⟨rfl, rfl⟩
    · split
      · exact ends (s := (s.log (.started i)).direct (.spend i.job)) begun i
      · exact begun
  · split
    · exact ends honest _
    · exact honest
  · exact ends honest _
  · exact honest

theorem stepCaller (honest : s.Honest) (ofPool : (s.call c).ofPool = true) :
    (s.stepCaller c).Honest := by
  cases call : s.call c with
  | submitting items entered =>
    cases items with
    | nil =>
      have step : s.stepCaller c = (s.setCall c .returned).wait := by
        simp only [Machine.stepCaller, call, stepSubmitter]
      rw [step]
      exact honest
    | cons i rest =>
      refine honest.tell (told_stepSubmitter call).1 ?_
      cases (s.pool.submit c i entered).2.2 <;> rfl
  | _ =>
    obtain ⟨told, history, chore⟩ := chore_stepCaller ofPool
    refine honest.tell history ?_
    rw [call] at chore
    generalize (s.stepCaller c).call c = y at chore
    cases chore <;> rfl

theorem step (honest : s.Honest) (ofPool : ∀ c, (s.call c).ofPool = true) : s.step.Honest := by
  unfold Machine.step
  split
  · exact honest
  · exact honest.stepWorker _
  · exact honest.stepEvaluation _
  · exact honest.stepCaller (ofPool _)

end Honest

theorem Run.honest (run : Run rule start cs turn s) (fresh : start.Fresh) (ofPool : rule.OfPool) :
    s.Honest ∧ (s.pool.released = false → marked .refused s.history = []) := by
  have keeps {s s' : Machine} (journal : s'.journal = s.journal)
      (released : s'.pool.released = false → s.pool.released = false)
      (ih : s.Honest ∧ (s.pool.released = false → marked .refused s.history = [])) :
      s'.Honest ∧ (s'.pool.released = false → marked .refused s'.history = []) := by
    have same : s'.history = s.history := by rw [history, journal, history]
    unfold Honest at *
    rw [same]
    exact ⟨ih.1, fun running => ih.2 (released running)⟩
  have moves {s : Machine} {a : Agent} {cs : List Command} (run : Run rule start cs (some a) s)
      (ih : s.Honest ∧ (s.pool.released = false → marked .refused s.history = [])) :
      s.step.Honest ∧ (s.step.pool.released = false → marked .refused s.step.history = []) := by
    obtain ⟨_, _, act⟩ := run.act fresh
    refine ⟨ih.1.step (run.given fresh ofPool).ofPool, fun running => ?_⟩
    obtain ⟨running, none⟩ := act.pool.accepts running
    rw [act.marked_history, none, ih.2 running]
    rfl
  induction run with
  | start => simp [Honest, history, fresh.journal]
  | command run may instant ih =>
    obtain ⟨_, move⟩ := (run.steady fresh).move_apply instant
    exact keeps (journal_apply _ instant).1 (fun running => (move.accepts running).1) ih
  | elapse _ _ _ _ ih => exact keeps rfl id ih
  | choose _ _ _ ih => exact keeps rfl id ih
  | move run _ ih | pause run _ ih => exact moves run ih

theorem Watch.told (on : Watch rule m diary fate turn s) (first : Run rule start cs none m)
    (fresh : start.Fresh) (ofPool : rule.OfPool) {e : Nat × Event} (ended : fate w = some e) :
    e ∈ s.journal := by
  have moves {s : Machine} {a : Agent} {cs : List Command} {fate : Nat → Option (Nat × Event)}
      (run : Run rule start cs (some a) s) (ih : fate w = some e → e ∈ s.journal)
      (ended : s.see fate w = some e) : e ∈ s.step.journal := by
    have lasting := run.lasting fresh ofPool
    obtain ⟨_, told, journal, _⟩ := recounts_step lasting (run.given fresh ofPool).ofPool
    rcases see_eq_some.1 ended with before | ⟨_, _, _, now⟩
    · rw [journal]
      exact List.mem_append_right _ (ih before)
    · exact List.mem_of_head? now
  induction on with
  | here => cases ended
  | command _ _ instant ih =>
    rw [(journal_apply _ instant).1]
    exact ih ended
  | elapse _ _ _ _ ih | choose _ _ _ ih => exact ih ended
  | move on _ ih | pause on _ ih => exact moves (first.trans on.run) ih ended

structure Barred (m : Machine) (fate : Nat → Option (Nat × Event)) (s : Machine) : Prop where
  signalled : s.shutdown = true
  begun : ∀ i, (marked .started s.history).count i + (s.pool.held .handed).count i =
    (marked .started m.history).count i + (m.pool.held .handed).count i
  executes : ∀ w, (s.pool.worker w).isEvaluating = true ↔
    (m.pool.worker w).isEvaluating = true ∧ fate w = none

namespace Barred

theorem of_eq (barred : Barred m fate s) (pool : s'.pool = s.pool)
    (journal : s'.journal = s.journal) (shutdown : s'.shutdown = s.shutdown) :
    Barred m fate s' := by
  have history : s'.history = s.history := by rw [history, journal, history]
  exact ⟨shutdown.trans barred.signalled, by rw [history, pool]; exact barred.begun,
    by rw [pool]; exact barred.executes⟩

theorem apply (barred : Barred m fate s) (steady : Steady none s) {k : Command}
    (instant : k.isInstant = true) : Barred m fate (s.apply k) := by
  obtain ⟨_, move⟩ := steady.move_apply instant
  rw [barred.signalled] at move
  refine ⟨shutdown_apply_mono s k instant barred.signalled, fun i => ?_, fun w => ?_⟩
  · have same : (s.apply k).history = s.history := by
      rw [history, (journal_apply s instant).1, history]
    have := move.handed i
    have := barred.begun i
    rw [same]
    simp only [marked, List.filterMap_nil, List.count_nil] at *
    omega
  · rw [← barred.executes]
    rcases steady.worker_apply instant w with same | ⟨j, held, freed⟩
    · rw [same]
    · rw [held, freed]
      exact Iff.rfl

theorem step (barred : Barred m fate s) (act : Act s a woken events s.step) :
    Barred m (s.see fate) s.step := by
  have move := act.pool
  rw [barred.signalled] at move
  refine ⟨act.shutdown barred.signalled, fun i => ?_, fun w => ?_⟩
  · have := move.handed i
    have := barred.begun i
    rw [act.marked_history, List.count_append]
    omega
  · rw [see_eq_none]
    constructor
    · intro goesOn
      obtain ⟨ran, none⟩ := (barred.executes w).1 (move.executes goesOn)
      refine ⟨ran, none, fun _ stops => ?_⟩
      rw [goesOn] at stops
      cases stops
    · rintro ⟨ran, none, silent⟩
      have runs := (barred.executes w).2 ⟨ran, none⟩
      by_contra stops
      have stops := Bool.eq_false_iff.2 stops
      refine move.ends runs stops ?_
      have journal := List.head?_eq_none_iff.1 (silent runs stops)
      have itemEvents : s.step.itemEvents = [] := by simp [itemEvents, history, journal]
      exact (List.append_eq_nil_iff.1 (act.itemEvents.symm.trans itemEvents)).2

end Barred

theorem Watch.barred (on : Watch rule m diary fate turn s) (first : Run rule start cs none m)
    (fresh : start.Fresh) (signalled : m.shutdown = true) : Barred m fate s := by
  induction on with
  | here => exact ⟨signalled, fun _ => rfl, fun _ => (and_iff_left rfl).symm⟩
  | command on _ instant ih => exact ih.apply ((first.trans on.run).steady fresh) instant
  | elapse _ _ _ _ ih => exact ih.of_eq rfl rfl rfl
  | choose _ _ _ ih => exact ih.of_eq rfl rfl rfl
  | move on _ ih | pause on _ ih =>
    obtain ⟨_, _, act⟩ := (first.trans on.run).act fresh
    exact ih.step act

def unended (m : Machine) (fate : Nat → Option (Nat × Event)) : Nat :=
  (List.range m.pool.workers.length).countP fun w =>
    (m.pool.worker w).isEvaluating && (fate w).isNone

theorem countP_range_of_le {f : Nat → Bool} {n k : Nat} (le : n ≤ k)
    (beyond : ∀ w, n ≤ w → f w = false) : (List.range k).countP f = (List.range n).countP f := by
  induction le with
  | refl => rfl
  | @step k le ih =>
    rw [List.range_succ, List.countP_append, ih, List.countP_singleton, beyond k le]
    rfl

theorem Barred.executing (barred : Barred m fate s) : s.pool.executing = m.unended fate := by
  have beyond {p : Pool} {w : Nat} (le : p.workers.length ≤ w) :
      (p.worker w).isEvaluating = false := by
    simp [Pool.worker, List.getD_eq_getElem?_getD, List.getElem?_eq_none le,
      Pool.Worker.isEvaluating]
  have same (w : Nat) : (s.pool.worker w).isEvaluating =
      ((m.pool.worker w).isEvaluating && (fate w).isNone) := by
    rw [Bool.eq_iff_iff, Bool.and_eq_true, Option.isNone_iff_eq_none]
    exact barred.executes w
  let n := max s.pool.workers.length m.pool.workers.length
  calc
    s.pool.executing = (List.range n).countP fun w => (s.pool.worker w).isEvaluating := by
      rw [Pool.executing, Pool.countP_workers,
        countP_range_of_le (Nat.le_max_left ..) fun w => beyond]
    _ = (List.range n).countP fun w => (m.pool.worker w).isEvaluating && (fate w).isNone := by
      simp only [same]
    _ = m.unended fate := countP_range_of_le (Nat.le_max_right ..) fun w le => by
      rw [beyond le, Bool.false_and]

/-- After a shutdown at `m`, with the commands `diary` that have come since and the ends `fate` of
evaluations. -/
structure ShutDown (capacity : Nat) (rule : Rule) (cs : List Command) (m : Machine)
    (diary : List (Nat × Command)) (fate : Nat → Option (Nat × Event)) (s : Machine) : Prop where
  begun : (marked .started s.history ++ s.pool.held .handed).Perm
    (marked .started m.history ++ m.pool.held .handed)
  started : m.ready = [] → marked .started s.history = marked .started m.history
  executes : ∀ w, (s.pool.worker w).isEvaluating = true ↔
    (m.pool.worker w).isEvaluating = true ∧ fate w = none
  executing : s.pool.executing = m.unended fate
  ended : ∀ w i p, m.pool.worker w = .evaluating i p →
    (p = .spawned → m.scenario.behaviour i.job ≠ .held) → ∀ e, fate w = some e →
    e.2 = (m.scenario.behaviour i.job).ending i ∧ e ∈ s.journal
  undisturbed : ∀ {fate' turn' s'}, Watch rule m diary fate' turn' s' → s.ready = [] →
    s'.ready = [] → s'.now = s.now → ∀ w i p, m.pool.worker w = .evaluating i p →
    (p = .spawned → m.scenario.behaviour i.job ≠ .held) → fate' w = fate w
  accepted : s.pool.released = false →
    ((cs ++ diary.map (·.2)).flatMap Command.given).Perm (marked .accepted s.history ++ s.pending) ∧
    s.history.filterMap Event.reply? = (marked .accepted s.history).map fun i => (i.job, true)
  settled : s.ready = [] → s.pool.inFlight = s.pool.queue.length + m.unended fate ∧
    ∀ c, (s.call c).pending ≠ [] → s.pool.inFlight = capacity
  timely : rule = orderly ∨ rule = inLine → s.ready = [] →
    s.pool.queue = [] ∧ s.pool.inFlight = m.unended fate ∧
    ∀ c, (s.call c).pending ≠ [] → s.pool.executing = capacity

theorem Faces.signal (faces : Faces m w i x) (steady : Steady none m) :
    Faces m.signalShutdown w i x := by
  have next := faces.apply steady (k := .shutdown) rfl rfl
  rwa [Term.heed_of_ne (by simp)] at next

/-- A shutdown keeps new evaluations from starting, and does no more than that. -/
theorem Run.shutDown {capacity expiry : Nat} {scenario : Scenario}
    (made : ofPool capacity expiry scenario = .made start) (ofPool : rule.OfPool)
    (run : Run rule start cs none m) (may : rule.comes m .shutdown)
    (on : Watch rule m.signalShutdown diary fate turn s) :
    ShutDown capacity rule cs m diary fate s := by
  have fresh := fresh_ofPool made
  have first : Run rule start (cs ++ [.shutdown]) none m.signalShutdown := run.command may rfl
  have whole := first.trans on.run
  have signalled : m.signalShutdown.shutdown = true := by
    unfold signalShutdown
    split
    · assumption
    · rfl
  have barred := on.barred first fresh signalled
  have begun := barred.begun
  have executes := barred.executes
  have executing : s.pool.executing = m.unended fate := by
    rw [barred.executing, unended, unended, pool_signalShutdown]
  have atRest (settled : s.ready = []) :
      s.pool.inFlight = s.pool.queue.length + m.unended fate ∧
        ∀ c, (s.call c).pending ≠ [] → s.pool.inFlight = capacity := by
    have steady := whole.steady fresh
    refine ⟨?_, fun c pending => ?_⟩
    · rw [← executing, steady.inFlight_of_settled settled]
    · rw [steady.inFlight_of_submission settled (steady.submission_of_settled settled pending),
        (whole.capacity fresh).1, pool_ofPool made]
  rw [history_signalShutdown, pool_signalShutdown] at begun
  rw [pool_signalShutdown] at executes
  constructor
  case begun =>
    rw [List.perm_iff_count]
    intro i
    rw [List.count_append, List.count_append]
    exact begun i
  case started =>
    intro settled
    obtain ⟨_, told, journal, _⟩ := first.recounts on.run fresh ofPool
    have history : s.history = m.history ++ (told.map (·.2)).reverse := by
      rw [← history_signalShutdown m, history, journal, List.map_append, List.reverse_append,
        history]
    have none : m.pool.held .handed = [] :=
      (run.steady fresh).held_of_settled settled (by simp)
    have new : marked .started (told.map (·.2)).reverse = [] := by
      refine List.eq_nil_iff_forall_not_mem.2 fun i => List.count_eq_zero.1 ?_
      have := begun i
      rw [history, marked_append, List.count_append, none, List.count_nil] at this
      omega
    rw [history, marked_append, new, List.append_nil]
  case executes => exact executes
  case executing => exact executing
  case ended =>
    intro w i p runs known e ended
    obtain ⟨x, faces⟩ := run.faces fresh ofPool runs known
    refine ⟨?_, on.told first fresh ofPool ended⟩
    rcases on.faces first fresh ofPool (faces.signal (run.steady fresh)) with
      ⟨none, _⟩ | ⟨t, some, _⟩
    · cases none.symm.trans ended
    · cases some.symm.trans ended
      rw [scenario_signalShutdown]
  case undisturbed =>
    intro fate' turn' s' on' settled settled' now w i p runs known
    obtain ⟨x, faces⟩ := run.faces fresh ofPool runs known
    exact on.fate_eq on' first run fresh ofPool (faces.signal (run.steady fresh)) faces
      (by rw [scenario_signalShutdown]) settled settled' now
  case accepted =>
    intro running
    obtain ⟨honest, none⟩ := whole.honest fresh ofPool
    have given := (whole.given fresh ofPool).perm
    rw [none running, List.append_nil] at given
    refine ⟨by simpa [Command.given] using given, ?_⟩
    rw [← filterMap_verdict? _ (none running)]
    exact honest
  case settled => exact atRest
  case timely =>
    intro timely settled
    have queue : s.pool.queue = [] := by
      rcases timely with rfl | rfl
      · exact Run.queue_of_settled (.inl whole) fresh settled
      · exact Run.queue_of_settled (.inr whole) fresh settled
    obtain ⟨inFlight, full⟩ := atRest settled
    rw [queue, List.length_nil, Nat.zero_add] at inFlight
    exact ⟨queue, inFlight, fun c pending => by rw [executing, ← inFlight, full c pending]⟩

theorem Run.undisturbed {ks : List Command} (run : Run rule start cs none m) (fresh : start.Fresh)
    (ofPool : rule.OfPool) (lets : rule.LetsFirst) (settled : m.ready = [])
    (may : ∀ s, s.ready = [] → ∀ k ∈ .shutdown :: ks, k.isInstant = true → rule.comes s k) :
    ∃ fate fate', Watch rule m.signalShutdown (dated m.now ks) fate none
        ((m.perform .shutdown).play ks).1 ∧
      Watch rule m (dated m.now ks) fate' none (m.play ks).1 ∧
      ∀ w i p, m.pool.worker w = .evaluating i p → fate' w = fate w := by
  have later (s : Machine) (settled : s.ready = []) (k : Command) (mem : k ∈ ks) :=
    may s settled k (List.mem_cons_of_mem _ mem)
  have first : Run rule start (cs ++ [.shutdown]) none m.signalShutdown :=
    run.command (may m settled .shutdown (List.mem_cons_self ..) rfl) rfl
  have settles : Run rule m.signalShutdown [] none (m.perform .shutdown) := Run.start.settle lets
  have now : (m.perform .shutdown).now = m.now := now_perform m .shutdown
  obtain ⟨fate', on'⟩ := watch_play lets (run.punctual fresh.punctual) settled later
  obtain ⟨fate, on⟩ := watch_play lets ((first.trans settles).punctual fresh.punctual)
    (ready_settle _) later
  obtain ⟨_, diary, fate₀, on₀, none, _⟩ := settles.watched
  rw [List.map_eq_nil_iff.1 none] at on₀
  rw [now] at on
  refine ⟨_, fate', on₀.trans on, on', fun w i p runs => ?_⟩
  have begun : p = .spawned → m.scenario.behaviour i.job ≠ .held := by
    rintro rfl
    exact absurd (by simp only [Pool.Summons, runs])
      ((run.steady fresh).not_summons settled (.evaluation w))
  obtain ⟨x, faces⟩ := run.faces fresh ofPool runs begun
  exact (on₀.trans on).fate_eq on' first run fresh ofPool (faces.signal (run.steady fresh)) faces
    (by rw [scenario_signalShutdown]) (ready_play (ready_settle _) ks) (ready_play settled ks)
    (by rw [now_play, now_play, now])

def heldUpFull : Machine := (heldUp.play [.submit [heldItem, heldItem]]).1

theorem shutDown_heldUp :
    marked .started (heldUpFull.play [.unhold "a"]).1.history = [heldItem, heldItem] ∧
    ∃ fate, Watch orderly heldUpFull.signalShutdown [(0, .unhold "a")] fate none
        (heldUpFull.signalShutdown.play [.unhold "a"]).1 ∧
      marked .started (heldUpFull.signalShutdown.play [.unhold "a"]).1.history = [heldItem] ∧
      (heldUpFull.signalShutdown.play [.unhold "a"]).1.pool.inFlight = 0 ∧
      ShutDown 1 orderly [.submit [heldItem, heldItem]] heldUpFull [(0, .unhold "a")] fate
        (heldUpFull.signalShutdown.play [.unhold "a"]).1 := by
  have made : ofPool 1 100 heldUp.scenario = .made heldUp := rfl
  have fresh := fresh_ofPool made
  have run := orderly_play [.submit [heldItem, heldItem]] fresh (by simp [Command.isOfPool])
  have may (s : Machine) (k : Command) (ofPool : k.isOfPool = true) (settled : s.ready = []) :
      orderly.comes s k := ⟨ofPool, fun _ _ => .inl settled⟩
  have first := run.command (may _ .shutdown rfl rfl) rfl
  have watched : ∃ fate, Watch orderly heldUpFull.signalShutdown (dated 0 [.unhold "a"]) fate none
      (heldUpFull.signalShutdown.play [.unhold "a"]).1 := by
    refine watch_play (fun _ _ _ => trivial) (first.punctual fresh.punctual) rfl ?_
    intro s settled k mem _
    cases List.mem_singleton.1 mem
    exact may s _ rfl settled
  obtain ⟨fate, on⟩ := watched
  exact ⟨by decide +kernel, fate, on, by decide +kernel, by decide +kernel,
    run.shutDown made (fun _ _ => And.left) (may _ .shutdown rfl rfl) on⟩

def handedHeld : Machine := (Machine.run 6 (heldUp.apply (.submit [heldItem]))).step

/-- The signal comes between the hand-over and the first turn of the evaluation. -/
theorem starts_afterSignal :
    Run orderly heldUp [.submit [heldItem], .shutdown] none handedHeld.signalShutdown.settle ∧
      handedHeld.signalShutdown.shutdown = true ∧
      marked .started handedHeld.signalShutdown.history = [] ∧
      marked .started handedHeld.signalShutdown.settle.history = [heldItem] := by
  have made : ofPool 1 100 heldUp.scenario = .made heldUp := rfl
  have lets : orderly.LetsFirst := fun _ _ _ => trivial
  have told : Run orderly heldUp [.submit [heldItem]] none (heldUp.apply (.submit [heldItem])) :=
    Run.start.command ⟨rfl, fun _ _ => .inl rfl⟩ rfl
  have handed : Run orderly heldUp [.submit [heldItem]] none handedHeld :=
    (told.amid lets 6 (a := .worker 0) (by decide +kernel)).pause (by decide +kernel)
  have signalled := handed.command (c := .shutdown) ⟨rfl, nofun⟩ rfl
  exact ⟨signalled.settle lets, by decide +kernel, by decide +kernel, by decide +kernel⟩

end Machine
end Autoscaling
