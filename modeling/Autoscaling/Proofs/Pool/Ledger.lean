import Autoscaling.Proofs.Pool.Sound

/-!
The ledger of a pool: its events tell what became of every item. Items may be equal, so they are
counted.
-/

namespace Autoscaling

inductive Mark
  | accepted
  | refused
  | taken
  | dropped
  | started
  | finished
  | panicked
deriving DecidableEq

def Event.mark? : Event → Option (Mark × WorkItem)
  | .accepted i => some (.accepted, i)
  | .refused i => some (.refused, i)
  | .taken i => some (.taken, i)
  | .dropped i _ => some (.dropped, i)
  | .started i => some (.started, i)
  | .finished i => some (.finished, i)
  | .panicked i => some (.panicked, i)
  | _ => none

def Event.marked? (m : Mark) (e : Event) : Option WorkItem :=
  e.mark?.bind fun (n, i) => if n = m then some i else none

@[simp] theorem Query.mark?_asked (q : Query) (job group : String) (cooldown : Duration) :
    (q.asked job group cooldown).mark? = none := by
  cases q <;> rfl

@[simp] theorem Query.marked?_asked (q : Query) (job group : String) (cooldown : Duration)
    (m : Mark) : (q.asked job group cooldown).marked? m = none := by
  simp [Event.marked?]

def marked (m : Mark) (events : List Event) : List WorkItem := events.filterMap (·.marked? m)

@[simp] theorem marked_nil (m : Mark) : marked m [] = [] := rfl

@[simp] theorem marked_cons (m : Mark) (e : Event) (l : List Event) :
    marked m (e :: l) = (e.marked? m).toList ++ marked m l := by
  simp only [marked, List.filterMap_cons]
  cases e.marked? m <;> rfl

@[simp] theorem marked_append (m : Mark) (l l' : List Event) :
    marked m (l ++ l') = marked m l ++ marked m l' :=
  List.filterMap_append

theorem marked_filter (m : Mark) (l : List Event) :
    marked m (l.filter (·.mark?.isSome)) = marked m l := by
  simp only [marked, List.filterMap_filter]
  congr 1
  funext e
  cases eq : e.mark? <;> simp [Event.marked?, eq]

theorem mem_dropped_iff {events : List Event} {i : WorkItem} :
    i ∈ marked .dropped events ↔ ∃ r, .dropped i r ∈ events := by
  rw [marked, List.mem_filterMap]
  constructor
  · rintro ⟨e, told, eq⟩
    cases e with
    | dropped j r =>
      cases eq
      exact ⟨r, told⟩
    | _ => simp [Event.marked?, Event.mark?] at eq
  · rintro ⟨r, told⟩
    exact ⟨_, told, rfl⟩

namespace Pool

inductive Hand
  | unseen
  | handed
  | underway
deriving DecidableEq

def Worker.item? : Hand → Worker → Option WorkItem
  | .unseen, .holding i => some i
  | .handed, .evaluating i .spawned => some i
  | .underway, .evaluating _ .spawned => none
  | .underway, .evaluating i _ => some i
  | _, _ => none

def held (p : Pool) (k : Hand) : List WorkItem := p.workers.filterMap (·.item? k)

def sent (p : Pool) : List WorkItem :=
  (p.submissions.filter (·.stage = .queued)).map (·.item)

/-- Items are taken in the order in which they are accepted; one that is sent comes after all that
are accepted. -/
def InOrder (p : Pool) (events : List Event) : Prop :=
  ∃ kept, p.queue = kept ++ p.sent ∧ marked .accepted events = marked .taken events ++ kept

structure Ledger (shutdown : Bool) (events : List Event) (p : Pool) : Prop where
  order : p.InOrder events
  fates : ∀ i, (marked .taken events).count i =
    (p.held .unseen).count i + (marked .dropped events).count i + (p.held .handed).count i +
      (marked .started events).count i
  ends : ∀ i, (marked .started events).count i = (p.held .underway).count i +
    (marked .finished events).count i + (marked .panicked events).count i
  reasons : ∀ i r, .dropped i r ∈ events →
    ∃ b, reason? i b = some r ∧ (b = true → shutdown = true)
  fit : ∀ i, i ∈ p.held .handed ∨ i ∈ marked .started events → i.fault? = none

variable {p : Pool} {w : Nat} {x y : Worker} {s : Submission} {i : WorkItem}

theorem count_held (p : Pool) (k : Hand) (i : WorkItem) :
    (p.held k).count i = p.workers.countP (·.item? k == some i) :=
  List.count_filterMap

theorem count_held_setWorker (h : p.worker w = x) (ne : x ≠ .exited) (y : Worker) (k : Hand)
    (i : WorkItem) :
    ((p.setWorker w y).held k).count i + (x.item? k).toList.count i =
      (p.held k).count i + (y.item? k).toList.count i := by
  have count (z : Worker) : (z.item? k).toList.count i = (z.item? k == some i).toNat := by
    cases z.item? k with
    | none => rfl
    | some j => cases eq : j == i <;> simp [List.count_singleton, eq]
  rw [count_held, count_held, count, count]
  exact countP_setWorker h ne y _

theorem held_hire (p : Pool) (k : Hand) : p.hire.held k = p.held k := by
  simp only [held, hire, List.filterMap_append]
  cases k <;> exact List.append_nil _

theorem held_freeSlot (p : Pool) (k : Hand) : p.freeSlot.1.held k = p.held k := by
  obtain ⟨_, _, eq⟩ := freeSlot_fst p
  rw [eq]
  rfl

theorem fault?_of_reason? (h : reason? i shutdown = none) : i.fault? = none := by
  unfold reason? at h
  split at h
  · cases h
  · exact Option.map_eq_none_iff.1 h

theorem sent_of_submissions {p' : Pool} {l₁ l₂ : List Submission} {t u : Submission}
    (eq : p.submissions = l₁ ++ t :: l₂) (eq' : p'.submissions = l₁ ++ u :: l₂)
    (stage : t.stage ≠ .queued) (stage' : u.stage ≠ .queued) : p'.sent = p.sent := by
  simp [sent, eq, eq', stage, stage']

theorem sent_freeSlot : p.freeSlot.1.sent = p.sent := by
  rcases freeSlot_cases p with ⟨l₁, t, l₂, _, waiting, eq, free⟩ | ⟨_, free⟩
  · rw [free]
    exact sent_of_submissions eq rfl (by simp [waiting]) (by simp)
  · rw [free]
    rfl

theorem queue_freeSlot (p : Pool) : p.freeSlot.1.queue = p.queue := by
  obtain ⟨_, _, eq⟩ := freeSlot_fst p
  rw [eq]

theorem sent_append (h : s.stage ≠ .queued) {free : Nat} :
    sent { p with free, submissions := p.submissions ++ [s] } = p.sent := by
  simp [sent, h]

theorem sent_leave (mem : s ∈ p.submissions) (other : s.stage ≠ .queued) :
    (p.leave s).1.sent = p.sent := by
  obtain ⟨l₁, l₂, _, eq, erased⟩ := List.exists_erase_eq mem
  simp only [sent, leave, erased]
  simp [eq, other]

theorem sent_setStage (mem : s ∈ p.submissions) (other : s.stage ≠ .queued) {stage : Stage}
    (other' : stage ≠ .queued) : (p.setStage s stage).sent = p.sent := by
  obtain ⟨l₁, l₂, eq, replaced⟩ := exists_replace_eq (t := { s with stage }) mem
  exact sent_of_submissions eq replaced other other'

def Alone (p : Pool) (a : Agent) : Prop :=
  ∀ t ∈ p.submissions, t.stage = .queued → a = .caller t.caller

theorem sent_of_unqueued (none : ∀ t ∈ p.submissions, t.stage ≠ .queued) : p.sent = [] := by
  rw [sent, List.map_eq_nil_iff, List.filter_eq_nil_iff]
  exact fun t mem queued => none t mem (of_decide_eq_true queued)

theorem sent_eq_nil (alone : p.Alone (.worker w)) : p.sent = [] :=
  sent_of_unqueued fun t mem queued => by cases alone t mem queued

theorem Sound.filter_queued (sound : p.Sound) (mem : s ∈ p.submissions)
    (alone : p.Alone (.caller s.caller)) :
    p.submissions.filter (·.stage = .queued) = if s.stage = .queued then [s] else [] := by
  have only (t : Submission) (mem' : t ∈ p.submissions) (queued : t.stage = .queued) : t = s :=
    sound.eq_of_caller mem' mem (Agent.caller.inj (alone t mem' queued)).symm
  split
  · next queued =>
    have nodup := sound.callers.of_map.filter (·.stage = .queued)
    refine ((List.perm_ext_iff_of_nodup nodup (List.nodup_singleton s)).2 fun t => ?_).eq_singleton
    rw [List.mem_filter, List.mem_singleton, decide_eq_true_eq]
    exact ⟨fun h => only t h.1 h.2, fun h => h ▸ ⟨mem, queued⟩⟩
  · next other =>
    refine List.filter_eq_nil_iff.2 fun t mem' queued => ?_
    have queued := of_decide_eq_true queued
    exact other (only t mem' queued ▸ queued)

theorem sent_enqueue (sound : p.Sound) (mem : s ∈ p.submissions) (holds : s.stage = .holding)
    (alone : p.Alone (.caller s.caller)) :
    p.sent = [] ∧ (p.setStage s .queued).sent = [s.item] := by
  have filter := sound.filter_queued mem alone
  obtain ⟨l₁, l₂, eq, replaced⟩ := exists_replace_eq (t := { s with stage := .queued }) mem
  rw [if_neg (by simp [holds]), eq, List.filter_append, List.filter_cons_of_neg (by simp [holds]),
    List.append_eq_nil_iff] at filter
  refine ⟨?_, ?_⟩
  · simp [sent, eq, filter, holds]
  · simp [sent, setStage, replaced, filter]

theorem sent_accept (sound : p.Sound) (mem : s ∈ p.submissions) (queued : s.stage = .queued)
    (alone : p.Alone (.caller s.caller)) : p.sent = [s.item] ∧ (p.leave s).1.sent = [] := by
  have filter := sound.filter_queued mem alone
  refine ⟨by simp [sent, filter, queued], ?_⟩
  obtain ⟨l₁, l₂, notMem, eq, erased⟩ := List.exists_erase_eq mem
  rw [if_pos queued, eq, List.filter_append, List.filter_cons_of_pos (by simp [queued])] at filter
  have length := congrArg List.length filter
  simp only [List.length_append, List.length_cons, List.length_nil] at length
  have l₁_nil : l₁.filter (·.stage = .queued) = [] := List.length_eq_zero_iff.1 (by omega)
  have l₂_nil : l₂.filter (·.stage = .queued) = [] := List.length_eq_zero_iff.1 (by omega)
  simp [sent, leave, erased, l₁_nil, l₂_nil]

variable {p' : Pool} {events new : List Event}

theorem InOrder.of_eq (order : p.InOrder events) (sent : p'.sent = p.sent)
    (queue : p'.queue = p.queue) (accepted : marked .accepted new = [])
    (taken : marked .taken new = []) : p'.InOrder (events ++ new) := by
  obtain ⟨kept, eq, order⟩ := order
  exact ⟨kept, by rw [queue, sent, eq], by simpa [accepted, taken] using order⟩

theorem InOrder.accept {i : WorkItem} (order : p.InOrder events) (sent : p.sent = [i])
    (none : p'.sent = []) (queue : p'.queue = p.queue) : p'.InOrder (events ++ [.accepted i]) := by
  obtain ⟨kept, eq, order⟩ := order
  refine ⟨kept ++ [i], by rw [queue, eq, sent, none, List.append_nil], ?_⟩
  simp [order, Event.marked?, Event.mark?]

theorem InOrder.move (order : p.InOrder events) (sound : p.Sound)
    (h : Move now shutdown p a woken new p') (alone : p.Alone a) : p'.InOrder (events ++ new) := by
  cases h with
  | @take _ _ i rest waits first queue =>
    obtain ⟨kept, eq, order⟩ := order
    have none : p.sent = [] := sent_eq_nil alone
    rw [none, List.append_nil, queue] at eq
    refine ⟨rest, (List.append_nil rest).symm.trans (congrArg (rest ++ ·) none.symm), ?_⟩
    simp [order, ← eq, Event.marked?, Event.mark?]
  | send mem holds =>
    obtain ⟨kept, eq, order⟩ := order
    obtain ⟨none, sent⟩ := sent_enqueue sound mem holds alone
    rw [none, List.append_nil] at eq
    refine ⟨kept, ?_, by simpa using order⟩
    exact (congrArg (· ++ _) eq).trans (congrArg _ sent).symm
  | accept mem queued =>
    obtain ⟨sent, none⟩ := sent_accept sound mem queued alone
    exact order.accept sent none rfl
  | hire mem queued _ _ room =>
    obtain ⟨sent, none⟩ := sent_accept (p := p.hire) (sound.hire room) mem queued alone
    exact order.accept sent none rfl
  | drop | complete => exact order.of_eq sent_freeSlot (queue_freeSlot _) rfl rfl
  | @progress _ _ x => exact order.of_eq rfl rfl (by cases x <;> rfl) (by cases x <;> rfl)
  | @finish _ _ x => exact order.of_eq rfl rfl (by cases x <;> rfl) (by cases x <;> rfl)
  | panic => exact order.of_eq rfl rfl rfl rfl
  | enter => exact order.of_eq (sent_append (by simp)) rfl rfl rfl
  | queue => exact order.of_eq (sent_append (by simp)) rfl rfl rfl
  | giveUp mem waits => exact order.of_eq (sent_leave mem (by simp [waits])) rfl rfl rfl
  | giveBack mem granted =>
    exact order.of_eq (sent_leave (p := { p with free := p.free + 1 }) mem (by simp [granted])) rfl
      rfl rfl
  | obtain mem granted =>
    exact order.of_eq (sent_setStage mem (by simp [granted]) (by simp)) rfl rfl rfl
  | release =>
    rw [release_fst]
    exact order.of_eq rfl rfl rfl rfl
  | _ => exact order.of_eq rfl rfl rfl rfl

namespace Ledger

variable {shutdown : Bool}

theorem mono {shutdown' : Bool} (ledger : Ledger shutdown events p)
    (still : shutdown = true → shutdown' = true) : Ledger shutdown' events p :=
  { ledger with
    reasons := fun i r mem => by
      obtain ⟨b, reason, known⟩ := ledger.reasons i r mem
      exact ⟨b, reason, fun h => still (known h)⟩ }

theorem exchange (ledger : Ledger shutdown events p) (h : p.worker w = x) (ne : x ≠ .exited)
    (y : Worker) (held : ∀ k, p'.held k = (p.setWorker w y).held k)
    (order : p'.InOrder (events ++ new))
    (fates : ∀ i, (marked .taken new).count i + (x.item? .unseen).toList.count i +
        (x.item? .handed).toList.count i =
      (y.item? .unseen).toList.count i + (marked .dropped new).count i +
        (y.item? .handed).toList.count i + (marked .started new).count i)
    (ends : ∀ i, (marked .started new).count i + (x.item? .underway).toList.count i =
      (y.item? .underway).toList.count i + (marked .finished new).count i +
        (marked .panicked new).count i)
    (reasons : ∀ i r, .dropped i r ∈ new → reason? i shutdown = some r)
    (fit : ∀ i, y.item? .handed = some i → i.fault? = none)
    (begun : ∀ i ∈ marked .started new, x.item? .handed = some i) :
    Ledger shutdown (events ++ new) p' := by
  have exchanged (k : Hand) (i : WorkItem) := count_held_setWorker h ne y k i
  have mem (i : WorkItem) (holds : x.item? .handed = some i) : i ∈ p.held .handed :=
    List.mem_filterMap.2 ⟨x, List.mem_of_getElem? (worker_eq_of_ne_exited h ne), holds⟩
  refine ⟨order, fun i => ?_, fun i => ?_, fun i r dropped => ?_, fun i either => ?_⟩
  · have := ledger.fates i
    have := fates i
    have := exchanged .unseen i
    have := exchanged .handed i
    simp only [held, marked_append, List.count_append]
    omega
  · have := ledger.ends i
    have := ends i
    have := exchanged .underway i
    simp only [held, marked_append, List.count_append]
    omega
  · rcases List.mem_append.1 dropped with old | new
    · exact ledger.reasons i r old
    · exact ⟨shutdown, reasons i r new, id⟩
  · rw [held, marked_append, List.mem_append] at either
    rcases either with handed | started | started
    · obtain ⟨z, mem, holds⟩ := List.mem_filterMap.1 handed
      rcases List.mem_or_eq_of_mem_set mem with mem | rfl
      · exact ledger.fit i (.inl (List.mem_filterMap.2 ⟨z, mem, holds⟩))
      · exact fit i holds
    · exact ledger.fit i (.inr started)
    · exact ledger.fit i (.inl (mem i (begun i started)))

theorem frame (ledger : Ledger shutdown events p) (held : ∀ k, p'.held k = p.held k)
    (order : p'.InOrder (events ++ new))
    (submitted : ∀ e ∈ new, ∃ i, e = .accepted i ∨ e = .refused i) :
    Ledger shutdown (events ++ new) p' := by
  have quiet (m : Mark) (ne : m ≠ .accepted) (ne' : m ≠ .refused) :
      marked m (events ++ new) = marked m events := by
    have none : marked m new = [] := List.filterMap_eq_nil_iff.2 fun e mem => by
      obtain ⟨i, rfl | rfl⟩ := submitted e mem <;>
        simp [Event.marked?, Event.mark?, ne.symm, ne'.symm]
    rw [marked_append, none, List.append_nil]
  refine ⟨order, fun i => ?_, fun i => ?_, fun i r dropped => ?_, fun i => ?_⟩
  · simpa [held, quiet] using ledger.fates i
  · simpa [held, quiet] using ledger.ends i
  · refine ledger.reasons i r ((List.mem_append.1 dropped).resolve_right fun mem => ?_)
    obtain ⟨j, eq | eq⟩ := submitted _ mem <;> cases eq
  · simpa [held, quiet] using ledger.fit i

theorem move (ledger : Ledger shutdown events p) (sound : p.Sound)
    (h : Move now shutdown p a woken new p') (alone : p.Alone a) :
    Ledger shutdown (events ++ new) p' := by
  have order := ledger.order.move sound h alone
  cases h with
  | stay => exact ledger.frame (fun _ => rfl) order (by simp)
  | listen rests =>
    refine ledger.exchange rests (by simp) (.idle _) (fun _ => rfl) order ?_ ?_ ?_ ?_ ?_
    all_goals simp [Worker.item?]
  | take waits =>
    refine ledger.exchange waits (by simp) (.holding _) (fun _ => rfl) order ?_ ?_ ?_ ?_ ?_
    all_goals simp [Worker.item?, Event.marked?, Event.mark?]
  | depart waits =>
    refine ledger.exchange waits (by simp) .exited (fun _ => rfl) order ?_ ?_ ?_ ?_ ?_
    all_goals simp [Worker.item?]
  | drop holds reason =>
    refine ledger.exchange holds (by simp) .resting (held_freeSlot _) order ?_ ?_ ?_ ?_ ?_
    all_goals simp [Worker.item?, Event.marked?, Event.mark?, reason]
  | begin holds fit =>
    refine ledger.exchange holds (by simp) (.evaluating _ .spawned) (fun _ => rfl) order
      ?_ ?_ ?_ ?_ ?_
    all_goals simp [Worker.item?, fault?_of_reason? fit]
  | complete ended =>
    refine ledger.exchange ended (by simp) .resting (held_freeSlot _) order ?_ ?_ ?_ ?_ ?_
    all_goals simp [Worker.item?]
  | @progress w i x y runs later =>
    refine ledger.exchange runs (by simp) (.evaluating _ _) (fun _ => rfl) order ?_ ?_ ?_ ?_ ?_
    all_goals
      cases x <;> cases y <;>
        simp [Worker.item?, Progress.beginning, Event.marked?, Event.mark?] at later ⊢
  | @finish w i x runs =>
    refine ledger.exchange runs (by simp) (.finished _) (fun _ => rfl) order ?_ ?_ ?_ ?_ ?_
    all_goals cases x <;> simp [Worker.item?, Progress.beginning, Event.marked?, Event.mark?]
  | panic runs =>
    refine ledger.exchange runs (by simp) (.finished _) (fun _ => rfl) order ?_ ?_ ?_ ?_ ?_
    all_goals simp [Worker.item?, Event.marked?, Event.mark?]
  | refuse => exact ledger.frame (fun _ => rfl) order (by simp)
  | giveUp | giveBack | accept => exact ledger.frame (fun _ => rfl) order (by simp)
  | hire => exact ledger.frame (held_hire p) order (by simp)
  | release => exact ledger.frame (fun _ => by rw [release_fst]; rfl) order (by simp)
  | _ => exact ledger.frame (fun _ => rfl) order (by simp)

theorem begun_le (ledger : Ledger shutdown events p) (i : WorkItem) :
    (marked .started events).count i + (p.held .handed).count i ≤
      (marked .accepted events).count i := by
  obtain ⟨kept, _, order⟩ := ledger.order
  have := ledger.fates i
  have := congrArg (List.count i) order
  rw [List.count_append] at this
  omega

end Ledger

theorem Move.submitted (h : Move now shutdown p a woken events p') (other : ∀ c, a ≠ .caller c) :
    marked .accepted events = [] ∧ marked .refused events = [] := by
  cases h with
  | @progress _ _ x | @finish _ _ x => cases x <;> exact ⟨rfl, rfl⟩
  | refuse | giveUp | giveBack | accept | hire => exact absurd rfl (other _)
  | _ => exact ⟨rfl, rfl⟩

end Pool

end Autoscaling
