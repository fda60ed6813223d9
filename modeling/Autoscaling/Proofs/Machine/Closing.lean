import Autoscaling.Proofs.Conservation
import Autoscaling.Proofs.Machine.Gate
import Autoscaling.Proofs.Machine.Governed
import Autoscaling.Proofs.Machine.Onward
import Autoscaling.Proofs.Pool.Closing

namespace Autoscaling

def Call.isClosing : Call → Bool
  | .joining false _ => true
  | _ => false

theorem Pool.submit_of_released {p : Pool} (timely : p.Timely) (released : p.released = true)
    (c : Nat) (i : WorkItem) (entered : Bool) : (p.submit c i entered).2.2 = .refused := by
  have late {t : Submission} (mem : t ∈ p.submissions) : t.stage.isAmid = false :=
    Bool.eq_false_iff.2 fun amid => by
      have running := timely t mem amid
      rw [released] at running
      cases running
  unfold submit
  split
  · split
    · next t found =>
      have late := late (List.mem_of_find?_eq_some found)
      unfold proceed
      cases stage : t.stage with
      | waiting | granted => simp [released]
      | holding | queued =>
        rw [stage] at late
        cases late
    · rfl
  · simp [enter, released]

def Pool.Turn.told (i : WorkItem) : Turn → List Event
  | .goOn | .wait => []
  | .accepted => [.accepted i, .answered (.submit i.job true)]
  | .refused => [.refused i, .answered (.submit i.job false)]

namespace Machine

inductive Chore (s s' : Machine) : Call → Call → List Event → Prop
  | rest : Chore s s' x x []
  | submit (quiet : .answered .release ∉ told) :
      Chore s s' (.submitting items entered) (.submitting items' entered') told
  | done : Chore s s' (.submitting items entered) .returned []
  | release (up : s'.pool.released = true) :
      Chore s s' .releasing (.joining false s.pool.handles) []
  | join (gone : s.pool.worker w = .exited) :
      Chore s s' (.joining false (w :: ws)) (.joining false ws) []
  | answer : Chore s s' (.joining false []) .returned [.answered .release]

variable {s s' m start : Machine} {turn before : Option Agent} {a : Agent} {cs : List Command}
  {c d : Nat} {woken : List Agent} {events told : List Event} {rule : Rule}

theorem told_stepSubmitter {i : WorkItem} {rest : List WorkItem} {entered : Bool}
    (call : s.call c = .submitting (i :: rest) entered) :
    (s.stepCaller c).history = s.history ++ (s.pool.submit c i entered).2.2.told i ∧
      ∃ items' entered', (s.stepCaller c).call c = .submitting items' entered' := by
  have ne : s.call c ≠ .returned := by simp [call]
  simp only [stepCaller, call, stepSubmitter, submit]
  generalize s.pool.submit c i entered = r
  obtain ⟨pool, woken, turn⟩ := r
  have set (x : Call) : ({ s with pool }.setCall c x).call c = x :=
    call_setCall_self (s := { s with pool }) ne x
  cases turn with
  | goOn | wait => exact ⟨(List.append_nil _).symm, _, _, set _⟩
  | accepted | refused =>
    refine ⟨?_, _, _, set _⟩
    exact (history_log _ _).trans (congrArg (· ++ _) (history_log _ _) |>.trans
      (List.append_assoc ..))

theorem chore_of_eq {x y : Call} (call : s.call c = x) (history : s'.history = s.history ++ told)
    (after : s'.call c = y) (chore : Chore s s' x y told) :
    ∃ told, s'.history = s.history ++ told ∧ Chore s s' (s.call c) (s'.call c) told :=
  ⟨told, history, by rwa [call, after]⟩

theorem step_of_releasing (call : s.call c = .releasing) :
    (s.stepCaller c).pool = { s.pool with released := true, handles := [] } ∧
      (s.stepCaller c).call c = .joining false s.pool.handles ∧
      (s.stepCaller c).history = s.history := by
  have step : s.stepCaller c = s.beginRelease c false := by simp only [stepCaller, call]
  rw [step]
  refine ⟨Pool.release_fst s.pool, ?_, rfl⟩
  exact call_setCall_self (s := { s with pool := s.pool.release.1 })
    (by change s.call c ≠ _; simp [call]) _

theorem chore_stepCaller (ofPool : (s.call c).ofPool = true) :
    ∃ told, (s.stepCaller c).history = s.history ++ told ∧
      Chore s (s.stepCaller c) (s.call c) ((s.stepCaller c).call c) told := by
  have silent {s' : Machine} (same : s'.history = s.history) : s'.history = s.history ++ [] := by
    rw [same, List.append_nil]
  cases call : s.call c with
  | submitting items entered =>
    rw [← call]
    cases items with
    | nil =>
      have step : s.stepCaller c = (s.setCall c .returned).wait := by
        simp only [stepCaller, call, stepSubmitter]
      rw [step]
      exact chore_of_eq call (silent rfl) (call_setCall_returned s c) .done
    | cons i rest =>
      obtain ⟨history, _, _, after⟩ := told_stepSubmitter call
      refine chore_of_eq call history after (.submit ?_)
      cases (s.pool.submit c i entered).2.2 <;> simp [Pool.Turn.told]
  | releasing =>
    obtain ⟨pool, after, history⟩ := step_of_releasing call
    rw [← call]
    exact chore_of_eq call (silent history) after (.release (by rw [pool]))
  | joining stop handles =>
    cases stop with
    | true =>
      rw [call] at ofPool
      cases ofPool
    | false =>
      rw [← call]
      cases handles with
      | nil =>
        have step : s.stepCaller c = s.answer c .release := by
          simp [stepCaller, call]
        rw [step]
        exact chore_of_eq call (history_log (s.setCall c .returned) _) (call_setCall_returned s c)
          .answer
      | cons w ws =>
        by_cases gone : s.pool.worker w = .exited
        · have step : s.stepCaller c = s.setCall c (.joining false ws) := by
            simp only [stepCaller, call, if_pos gone]
          rw [step]
          exact chore_of_eq call (silent rfl) (call_setCall_self (by simp [call]) _) (.join gone)
        · have step : s.stepCaller c = s.wait := by
            simp only [stepCaller, call, if_neg gone]
          rw [step]
          exact chore_of_eq rfl (silent rfl) rfl .rest
  | returned =>
    have step : s.stepCaller c = s.wait := by simp only [stepCaller, call]
    rw [← call, step]
    exact chore_of_eq rfl (silent rfl) rfl .rest
  | _ =>
    rw [call] at ofPool
    cases ofPool

theorem released_stepCaller (ofPool : (s.call c).ofPool = true) (other : s.call c ≠ .releasing) :
    (s.stepCaller c).pool.released = s.pool.released := by
  cases call : s.call c with
  | submitting items entered =>
    cases items with
    | nil =>
      simp only [stepCaller, call, stepSubmitter]
      rfl
    | cons i rest =>
      have released := Pool.released_submit s.pool c i entered
      simp only [stepCaller, call, stepSubmitter, submit]
      generalize s.pool.submit c i entered = r at released
      obtain ⟨pool, woken, turn⟩ := r
      cases turn <;> exact released
  | releasing => exact absurd call other
  | joining stop handles =>
    cases stop with
    | true =>
      rw [call] at ofPool
      cases ofPool
    | false =>
      cases handles with
      | nil =>
        simp only [stepCaller, call]
        rfl
      | cons w ws =>
        simp only [stepCaller, call]
        split <;> rfl
  | returned =>
    simp only [stepCaller, call]
    rfl
  | _ =>
    rw [call] at ofPool
    cases ofPool

structure Proceeds (s s' : Machine) : Prop where
  pool : ∃ a woken events, s.pool.Move s.now s.shutdown a woken events s'.pool ∧
    s'.itemEvents = s.itemEvents ++ events
  chores : ∀ c, (∃ told, Chore s s' (s.call c) (s'.call c) told) ∨
    s.call c = .returned ∧ (s'.call c).isClosing = false
  released : s.pool.released = false → s'.pool.released = true →
    ∃ c, s.call c = .releasing ∧ s'.call c = .joining false s.pool.handles

theorem Proceeds.of_eq (pool : s'.pool = s.pool) (calls : s'.calls = s.calls)
    (itemEvents : s'.itemEvents = s.itemEvents) : Proceeds s s' := by
  refine ⟨⟨.evaluation 0, [], [], ?_, ?_⟩, fun c => .inl ⟨[], ?_⟩, fun down up => ?_⟩
  · rw [pool]
    exact .stay
  · rw [itemEvents, List.append_nil]
  · rw [call, call, calls]
    exact .rest
  · rw [pool, down] at up
    cases up

theorem proceeds_step (steady : Steady (some a) s) (head : s.ready.head? = some a)
    (ofPool : ∀ c, (s.call c).ofPool = true) : Proceeds s s.step := by
  obtain ⟨woken, events, act⟩ := act_step steady.linked steady.sound head
  refine ⟨⟨_, _, _, act.pool, act.itemEvents⟩, fun c => .inl ?_, fun down up => ?_⟩
  · by_cases own : a = .caller c
    · rw [own] at head
      obtain ⟨told, _, chore⟩ := chore_stepCaller (ofPool c)
      rw [step_of_caller head]
      exact ⟨told, chore⟩
    · rw [act.calls c own]
      exact ⟨[], .rest⟩
  rcases act.pool.released_cases with same | ⟨_, c, rfl, _⟩
  · rw [same, down] at up
    cases up
  · have releasing : s.call c = .releasing := by
      by_contra other
      have same := released_stepCaller (ofPool c) other
      rw [← step_of_caller head, up, down] at same
      cases same
    rw [step_of_caller head]
    exact ⟨c, releasing, (step_of_releasing releasing).2.1⟩

theorem freeCall_of_ofPool {x : Call} (ofPool : x.ofPool = true) : freeCall x = x := by
  cases x <;> first | rfl | cases ofPool

theorem proceeds_apply (steady : Steady none s) {k : Command} (instant : k.isInstant = true)
    (ofPool : ∀ c, (s.call c).ofPool = true) : Proceeds s (s.apply k) := by
  obtain ⟨w, move⟩ := steady.move_apply instant
  refine ⟨⟨_, _, _, move, ?_⟩, fun c => ?_, fun down up => ?_⟩
  · simp only [itemEvents, history, journal_apply s instant, List.append_nil]
  · rcases call_apply s instant c with same | freed | ⟨rfl, new, _⟩
    · rw [same]
      exact .inl ⟨[], .rest⟩
    · rw [freed, freeCall_of_ofPool (ofPool c)]
      exact .inl ⟨[], .rest⟩
    · refine .inr ⟨call_length s, ?_⟩
      generalize (s.apply k).call _ = y at new
      cases y <;> first | rfl | cases new
  · rcases move.released_cases with same | ⟨_, _, eq, _⟩
    · rw [same, down] at up
      cases up
    · cases eq

namespace Proceeds

theorem closes (proceeds : Proceeds s s') (steady : Steady turn s)
    (released : s.pool.released = true) :
    ∃ events, Pool.Closes s.pool events s'.pool ∧ s'.itemEvents = s.itemEvents ++ events := by
  obtain ⟨_, _, events, move, told⟩ := proceeds.pool
  exact ⟨events, move.closes steady.timely released, told⟩

theorem stays (proceeds : Proceeds s s') (released : s'.pool.released = true) {w : Nat}
    (gone : s.pool.worker w = .exited) : s'.pool.worker w = .exited := by
  obtain ⟨_, _, _, move, _⟩ := proceeds.pool
  refine (move.exited gone).resolve_right fun running => ?_
  rw [released] at running
  cases running

end Proceeds

def Awaits (s : Machine) (c : Nat) : Prop :=
  (∀ w, s.pool.worker w = .exited) ∨
    ∃ ws, s.call c = .joining false ws ∧ ∀ w, s.pool.worker w ≠ .exited → w ∈ ws

theorem Awaits.next (awaits : s.Awaits c) (proceeds : Proceeds s s')
    (released : s'.pool.released = true) : s'.Awaits c := by
  have lives {w : Nat} (lives : s'.pool.worker w ≠ .exited) : s.pool.worker w ≠ .exited :=
    fun gone => lives (proceeds.stays released gone)
  rcases awaits with gone | ⟨ws, call, all⟩
  · exact .inl fun w => proceeds.stays released (gone w)
  · obtain ⟨told, chore⟩ := (proceeds.chores c).resolve_right fun ⟨past, _⟩ => by
      cases call.symm.trans past
    rw [call] at chore
    generalize after : s'.call c = y at chore
    cases chore with
    | rest => exact .inr ⟨ws, after, fun w alive => all w (lives alive)⟩
    | @join v ws gone =>
      refine .inr ⟨ws, after, fun w alive => ?_⟩
      refine (List.mem_cons.1 (all w (lives alive))).resolve_left ?_
      rintro rfl
      exact lives alive gone
    | answer =>
      refine .inl fun w => ?_
      by_contra alive
      exact List.not_mem_nil (all w (lives alive))

theorem Proceeds.awaits (proceeds : Proceeds s s') (sound : s.pool.Sound)
    (down : s.pool.released = false) (up : s'.pool.released = true)
    (after : s'.call c = .joining false s.pool.handles) : s'.Awaits c :=
  .inr ⟨_, after, fun w alive => sound.joined w
    (fun gone => alive (proceeds.stays up gone)) down⟩

structure Closing (s : Machine) : Prop where
  handled : s.pool.Handled
  closing : ∀ c, (s.call c).isClosing = true → s.pool.released = true
  waits : s.pool.released = true → ∃ c, s.Awaits c

theorem Closing.next (closing : s.Closing) (steady : Steady turn s) (proceeds : Proceeds s s') :
    s'.Closing := by
  have stays (up : s.pool.released = true) : s'.pool.released = true := by
    obtain ⟨_, closes, _⟩ := proceeds.closes steady up
    exact closes.released
  constructor
  case handled =>
    obtain ⟨_, _, _, move, _⟩ := proceeds.pool
    exact move.handled closing.handled
  case closing =>
    intro c waits
    obtain ⟨told, chore⟩ := (proceeds.chores c).resolve_right fun ⟨_, new⟩ => by
      rw [new] at waits
      cases waits
    have before := closing.closing c
    generalize s.call c = x at chore before
    generalize s'.call c = y at chore waits
    cases chore with
    | rest => exact stays (before waits)
    | release up => exact up
    | join => exact stays (before rfl)
    | submit | done | answer => cases waits
  case waits =>
    intro up
    cases down : s.pool.released with
    | true =>
      obtain ⟨c, awaits⟩ := closing.waits down
      exact ⟨c, awaits.next proceeds up⟩
    | false =>
      obtain ⟨c, _, after⟩ := proceeds.released down up
      exact ⟨c, proceeds.awaits steady.sound down up after⟩

def Rule.OfPool (rule : Rule) : Prop := ∀ s c, rule.comes s c → c.isOfPool = true

def Rule.Patient (rule : Rule) : Prop := ∀ s c, rule.comes s c → s.ready = []

theorem Onward.preserves {P : Machine → Prop} (on : Onward rule before m turn s)
    (run : Run rule start cs before m) (fresh : start.Fresh) (ofPool : rule.OfPool) (base : P m)
    (next : ∀ {cs turn s s'}, Run rule start cs turn s → Proceeds s s' → P s → P s') : P s := by
  induction on with
  | here => exact base
  | command on _ instant ih =>
    obtain ⟨_, run⟩ := run.onward on
    exact next run
      (proceeds_apply (run.steady fresh) instant (run.given fresh ofPool).ofPool) ih
  | elapse on _ _ _ ih | choose on _ _ ih =>
    obtain ⟨_, run⟩ := run.onward on
    exact next run (.of_eq rfl rfl rfl) ih
  | move on _ ih | pause on _ ih =>
    obtain ⟨_, run⟩ := run.onward on
    exact next run
      (proceeds_step (run.steady fresh) run.head_of_turn (run.given fresh ofPool).ofPool) ih

theorem Run.closing (run : Run rule start cs turn s) (fresh : start.Fresh)
    (ofPool : rule.OfPool) : s.Closing := by
  have on : Onward rule none start turn s := Onward.here.run run
  obtain ⟨_, _, pool⟩ := fresh.pool
  refine on.preserves .start fresh ofPool ⟨?_, ?_, ?_⟩ fun run proceeds closing =>
    closing.next (run.steady fresh) proceeds
  · simp [Pool.Handled, pool]
  · simp [call, fresh.calls, Call.isClosing]
  · simp [pool]

def Due (s : Machine) (c : Nat) : Prop :=
  s.call c = .releasing ∨ s.call c = .joining false [] ∨
    ∃ w ws, s.call c = .joining false (w :: ws) ∧ s.pool.worker w = .exited

theorem Due.of_eq (due : s'.Due c) (call : s'.call c = s.call c)
    (worker : ∀ w, s'.pool.worker w = .exited → s.pool.worker w = .exited) : s.Due c := by
  rcases due with releasing | done | ⟨w, ws, waits, gone⟩
  · exact .inl (call.symm.trans releasing)
  · exact .inr (.inl (call.symm.trans done))
  · exact .inr (.inr ⟨w, ws, call.symm.trans waits, worker w gone⟩)

theorem ready_of_exit {w : Nat} {stop : Bool} {ws : List Nat} (sound : s.pool.Sound)
    (head : s.ready.head? = some (.worker w)) (lives : s.pool.worker w ≠ .exited)
    (gone : (s.stepWorker w).pool.worker w = .exited)
    (waits : s.call c = .joining stop (w :: ws)) : .caller c ∈ (s.stepWorker w).ready := by
  have joiner : Agent.caller c ∈ s.joiners w := by
    have lt : c < s.calls.length := by
      refine Nat.lt_of_not_le fun le => ?_
      simp [call, List.getD_eq_getElem?_getD, List.getElem?_eq_none le] at waits
    simp [joiners, callers, lt, waits, Call.awaits]
  obtain ⟨_, _, act⟩ := act_stepWorker head sound
  obtain ⟨_, _, d, idle⟩ := act.pool.exits lives gone
  unfold stepWorker at gone ⊢
  rw [idle] at gone ⊢
  dsimp only at gone ⊢
  rcases Pool.receive_cases s.now s.shutdown sound idle with
    ⟨p, woken, i, eq, move⟩ | ⟨p, woken, eq, _⟩ | ⟨eq, _⟩
  · rw [eq] at gone
    cases (move.exits lives gone).2.1
  · rw [eq]
    have heads := head_ready_wake (s := { s with pool := p }.cancel (.worker w))
      (woken ++ s.joiners w) head
    refine mem_tail heads (by simp) ((mem_ready_wake _).2 (.inr ?_))
    exact List.mem_append_right _ joiner
  · rw [eq] at gone
    exact absurd gone lives

theorem Due.own (ofPool : (s.call c).ofPool = true) (head : s.ready.head? = some (.caller c))
    (due : (s.stepCaller c).Due c) : .caller c ∈ (s.stepCaller c).ready := by
  have mem := List.mem_of_head? head
  cases call : s.call c with
  | releasing =>
    simp only [stepCaller, call]
    exact (mem_ready_wake _).2 (.inl mem)
  | submitting items entered =>
    have after : ∀ x, (s.stepCaller c).call c = x → x = .returned ∨ ∃ l e, x = .submitting l e := by
      rintro _ rfl
      cases items with
      | nil =>
        simp only [stepCaller, call, stepSubmitter]
        exact .inl (call_setCall_returned s c)
      | cons i rest =>
        obtain ⟨_, l, e, after⟩ := told_stepSubmitter call
        exact .inr ⟨l, e, after⟩
    rcases due with eq | eq | ⟨_, _, eq, _⟩ <;> rcases after _ eq with no | ⟨_, _, no⟩ <;> cases no
  | joining stop handles =>
    cases handles with
    | nil =>
      have after : (s.stepCaller c).call c = .returned := by
        simp only [stepCaller, call]
        split <;> exact call_setCall_returned _ c
      rcases due with eq | eq | ⟨_, _, eq, _⟩ <;> cases after.symm.trans eq
    | cons w ws =>
      by_cases gone : s.pool.worker w = .exited
      · simp only [stepCaller, call, if_pos gone]
        exact mem
      · have step : s.stepCaller c = s.wait := by simp only [stepCaller, call, if_neg gone]
        rw [step] at due
        rcases due with eq | eq | ⟨_, _, eq, away⟩
        · cases call.symm.trans eq
        · cases call.symm.trans eq
        · cases call.symm.trans eq
          exact absurd away gone
  | returned =>
    have step : s.stepCaller c = s.wait := by simp only [stepCaller, call]
    rw [step] at due
    rcases due with eq | eq | ⟨_, _, eq, _⟩ <;> cases call.symm.trans eq
  | _ =>
    rw [call] at ofPool
    cases ofPool

theorem release_of_call {k : Command} (instant : k.isInstant = true) (ofPool : k.isOfPool = true)
    (call : (s.apply k).call s.calls.length = .releasing) : k = .release := by
  cases k with
  | release => rfl
  | advance => cases instant
  | submit =>
    simp only [apply, call_begin, if_pos] at call
    cases call
  | unhold job =>
    simp only [apply, Machine.call, calls_unhold] at call
    cases (call_length s).symm.trans call
  | shutdown =>
    simp only [apply, call_signalShutdown] at call
    cases (call_length s).symm.trans call
  | _ => cases ofPool

theorem Due.apply (steady : Steady turn s) (calls : ∀ c, (s.call c).ofPool = true) {k : Command}
    (instant : k.isInstant = true) (ofPool : k.isOfPool = true) (due : (s.apply k).Due c) :
    s.Due c ∨ .caller c ∈ (s.apply k).ready := by
  obtain ⟨_, move⟩ := steady.move_apply instant
  have worker (w : Nat) (gone : (s.apply k).pool.worker w = .exited) : s.pool.worker w = .exited := by
    by_contra lives
    cases (move.exits lives gone).1
  rcases call_apply s instant c with same | freed | ⟨rfl, new, _⟩
  · exact .inl (due.of_eq same worker)
  · exact .inl (due.of_eq (freed.trans (freeCall_of_ofPool (calls c))) worker)
  · right
    rcases due with eq | eq | ⟨_, _, eq, _⟩
    · obtain rfl := release_of_call instant ofPool eq
      exact (mem_ready_wake _).2 (.inr (List.mem_singleton_self _))
    all_goals
      rw [eq] at new
      cases new

theorem Run.ready_of_due (run : Run rule start cs turn s) (fresh : start.Fresh)
    (ofPool : rule.OfPool) (due : s.Due c) : .caller c ∈ s.ready := by
  induction run with
  | start =>
    have past : start.call c = .returned := by simp [call, fresh.calls]
    rcases due with eq | eq | ⟨_, _, eq, _⟩ <;> cases past.symm.trans eq
  | @command _ s k run may instant ih =>
    have calls := (run.given fresh ofPool).ofPool
    refine (due.apply (run.steady fresh) calls instant (ofPool _ _ may)).elim (fun due => ?_) id
    exact (spares_apply s instant).ready _ (ih due)
  | elapse _ _ _ _ ih => exact (mem_ready_wake _).2 (.inl (ih due))
  | choose _ _ _ ih => exact mem_ready_prefer (ih due)
  | @move _ a s run _ ih | @pause _ a s run _ ih =>
    obtain ⟨woken, events, act⟩ := run.act fresh
    have head := run.head_of_turn
    have steady := run.steady fresh
    have calls := (run.given fresh ofPool).ofPool
    by_cases own : a = .caller c
    · subst own
      rw [step_of_caller head] at due ⊢
      exact due.own (calls c) head
    · have same := act.calls c own
      rcases due with eq | eq | ⟨w, ws, waits, gone⟩
      · exact act.ready _ (Ne.symm own) (.inl (ih (.inl (same.symm.trans eq))))
      · exact act.ready _ (Ne.symm own) (.inl (ih (.inr (.inl (same.symm.trans eq)))))
      · rw [same] at waits
        by_cases lives : s.pool.worker w = .exited
        · exact act.ready _ (Ne.symm own) (.inl (ih (.inr (.inr ⟨w, ws, waits, lives⟩))))
        · obtain ⟨rfl, _⟩ := act.pool.exits lives gone
          have step : s.step = s.stepWorker w := by rw [Machine.step, head]
          rw [step] at gone ⊢
          exact ready_of_exit steady.sound head lives gone waits

theorem Steady.ungranted_of_settled (steady : Steady turn s) (settled : s.ready = []) :
    s.pool.Ungranted := by
  intro t mem granted
  have waits := (steady.waiting_of_settled settled mem).1
  rw [granted] at waits
  cases waits

theorem Run.tended (run : Run rule start cs turn s) (fresh : start.Fresh)
    (expiry : 0 < start.pool.expiry) : s.pool.Tended s.now := by
  induction run with
  | start =>
    obtain ⟨_, _, pool⟩ := fresh.pool
    exact .inl (by simp [Pool.Ungranted, pool])
  | @command _ s k run _ instant ih =>
    obtain ⟨_, move⟩ := (run.steady fresh).move_apply instant
    rw [(journal_apply s instant).2.1]
    exact move.tended ((run.capacity fresh).2 ▸ expiry) ih
  | elapse run settled _ _ _ => exact .inl ((run.steady fresh).ungranted_of_settled settled)
  | choose _ _ _ ih => exact ih
  | move run _ ih | pause run _ ih =>
    obtain ⟨_, _, act⟩ := run.act fresh
    rw [act.now]
    exact act.pool.tended ((run.capacity fresh).2 ▸ expiry) ih

structure Poised (s : Machine) : Prop where
  calls : ∀ c, s.call c = .releasing → s.ready = [.caller c] ∧ s.pool.Ungranted
  released : s.pool.released = true → s.pool.Ungranted

theorem Poised.apply (poised : s.Poised) (steady : Steady none s) (settled : s.ready = [])
    {k : Command} (instant : k.isInstant = true) (ofPool : k.isOfPool = true) :
    (s.apply k).Poised := by
  obtain ⟨_, move⟩ := steady.move_apply instant
  have none : (s.apply k).pool.Ungranted := fun t mem granted => by
    rcases move.granted_cases mem granted with mem | ⟨_, _, eq, _⟩
    · exact steady.ungranted_of_settled settled t mem granted
    · cases eq
  refine ⟨fun c releasing => ⟨?_, none⟩, fun _ => none⟩
  have before (call : s.call c = .releasing) : (s.apply k).ready = [.caller c] := by
    have ready := (poised.calls c call).1
    rw [settled] at ready
    cases ready
  rcases call_apply s instant c with same | freed | ⟨rfl, _⟩
  · exact before (same.symm.trans releasing)
  · rw [freed] at releasing
    cases call : s.call c <;> rw [call] at releasing <;> first | exact before call | cases releasing
  · obtain rfl := release_of_call instant ofPool releasing
    simp [Machine.apply, begin, wake, settled]

theorem Poised.step (poised : s.Poised) (act : Act s a woken events s.step)
    (head : s.ready.head? = some a) (ofPool : ∀ c, (s.call c).ofPool = true)
    (proceeds : Proceeds s s.step) : s.step.Poised := by
  have own (c : Nat) (call : s.call c = .releasing) : a = .caller c := by
    rw [(poised.calls c call).1] at head
    exact (Option.some.inj head).symm
  refine ⟨fun c releasing => ?_, fun up => ?_⟩
  · have before : s.call c = .releasing := by
      by_cases mover : a = .caller c
      · subst mover
        obtain ⟨_, _, chore⟩ := chore_stepCaller (ofPool c)
        rw [← step_of_caller head, releasing] at chore
        generalize s.call c = x at chore
        cases chore
        rfl
      · rwa [← act.calls c mover]
    obtain rfl := own c before
    rw [step_of_caller head, (step_of_releasing before).2.1] at releasing
    cases releasing
  · cases down : s.pool.released with
    | true => exact act.pool.ungranted (poised.released down) down
    | false =>
      obtain ⟨c, releasing, _⟩ := proceeds.released down up
      obtain rfl := own c releasing
      intro t mem granted
      rcases act.pool.granted_cases mem granted with mem | ⟨_, _, eq, _⟩
      · exact (poised.calls c releasing).2 t mem granted
      · cases eq

theorem Run.poised (run : Run rule start cs turn s) (fresh : start.Fresh) (ofPool : rule.OfPool)
    (patient : rule.Patient) : s.Poised := by
  induction run with
  | start =>
    obtain ⟨_, _, pool⟩ := fresh.pool
    exact ⟨by simp [call, fresh.calls], by simp [pool]⟩
  | command run may instant ih =>
    exact ih.apply (run.steady fresh) (patient _ _ may) instant (ofPool _ _ may)
  | elapse run settled _ _ ih =>
    have none := (run.steady fresh).ungranted_of_settled settled
    refine ⟨fun c releasing => ?_, fun _ => none⟩
    have ready := (ih.calls c releasing).1
    rw [settled] at ready
    cases ready
  | @choose _ s a run ready _ ih =>
    refine ⟨fun c releasing => ?_, ih.released⟩
    obtain ⟨alone, none⟩ := ih.calls c releasing
    refine ⟨?_, none⟩
    rw [alone, List.mem_singleton] at ready
    simp [Machine.prefer, alone, ready]
  | move run _ ih | pause run _ ih =>
    obtain ⟨_, _, act⟩ := run.act fresh
    have calls := (run.given fresh ofPool).ofPool
    exact ih.step act run.head_of_turn calls (proceeds_step (run.steady fresh) run.head_of_turn calls)

end Machine

end Autoscaling
