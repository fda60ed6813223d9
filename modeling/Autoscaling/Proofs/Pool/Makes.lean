import Autoscaling.Proofs.Pool.Sound
import Autoscaling.Proofs.Pool.Summons

namespace Autoscaling.Pool

variable {p : Pool} {w c now deadline : Nat} {i : WorkItem} {shutdown : Bool}

theorem Sound.mem_idle (sound : p.Sound) (waits : p.worker w = .idle deadline) : w ∈ p.idle :=
  (sound.line w).2 ⟨deadline, waits⟩

theorem Sound.head_of_alone (sound : p.Sound) (waits : p.worker w = .idle deadline)
    (alone : p.idle.erase w = []) : p.idle.head? = some w := by
  have mem := sound.mem_idle waits
  have perm := List.perm_cons_erase mem
  rw [alone] at perm
  rw [perm.eq_singleton]
  rfl

theorem reception_item (sound : p.Sound) (waits : p.worker w = .idle deadline)
    (h : p.reception w now deadline = .item i) :
    p.idle.head? = some w ∧ p.queue = i :: p.queue.tail := by
  unfold reception at h
  split at h
  · next first queue =>
    cases h
    exact ⟨eq_of_beq first, by rw [queue]; rfl⟩
  · split at h
    · cases h
    · split at h
      · split at h
        · next alone queue =>
          cases h
          exact ⟨sound.head_of_alone waits (by simpa using alone), by rw [queue]; rfl⟩
        · cases h
      · cases h

theorem reception_leaves (h : p.reception w now deadline = .leaves) :
    (deadline ≤ now ∨ p.closed = true ∧ p.idle.head? = some w) ∧
      (p.queue = [] ∨ p.idle.head? ≠ some w) := by
  unfold reception at h
  split at h
  · cases h
  · next notBoth =>
    have left : p.queue = [] ∨ p.idle.head? ≠ some w := by
      cases queue : p.queue with
      | nil => exact .inl rfl
      | cons j rest => exact .inr fun first => notBoth j rest (by simp [first]) queue
    refine ⟨?_, left⟩
    split at h
    · next shut =>
      rw [Bool.and_eq_true] at shut
      exact .inr ⟨shut.2, eq_of_beq shut.1⟩
    · split at h
      · next due => exact .inl due
      · cases h

theorem reception_nothing (h : p.reception w now deadline = .nothing) :
    now < deadline ∧ ¬ p.Serves w := by
  unfold reception at h
  split at h
  · cases h
  · next notBoth =>
    split at h
    · cases h
    · next open_ =>
      split at h
      · split at h <;> cases h
      · next early =>
        refine ⟨Nat.lt_of_not_le early, fun ⟨first, something⟩ => ?_⟩
        rcases something with queued | closed
        · obtain ⟨j, rest, queue⟩ := List.exists_cons_of_ne_nil queued
          exact notBoth j rest (by simp [first]) queue
        · simp [first, closed] at open_

theorem receive_cases (now : Nat) (shutdown : Bool) (sound : p.Sound)
    (waits : p.worker w = .idle deadline) :
    (∃ p' woken i, p.receive w now deadline = (p', woken, .item i) ∧
      Move now shutdown p (.worker w) woken [.taken i] p') ∨
    (∃ p' woken, p.receive w now deadline = (p', woken, .leaves) ∧
      Move now shutdown p (.worker w) woken [] p' ∧ p'.worker w = .exited) ∨
    p.receive w now deadline = (p, [], .nothing) ∧ now < deadline ∧ ¬ p.Serves w := by
  unfold receive
  cases r : p.reception w now deadline with
  | item i =>
    obtain ⟨first, queue⟩ := reception_item sound waits r
    exact .inl ⟨_, _, i, rfl, .take waits first queue⟩
  | leaves =>
    obtain ⟨reason, left⟩ := reception_leaves r
    refine .inr (.inl ⟨_, _, rfl, .depart waits reason left, ?_⟩)
    exact (worker_setWorker (p := (p.leaveLine w).1) waits (by simp) .exited w).trans (if_pos rfl)
  | nothing => exact .inr (.inr ⟨rfl, reception_nothing r⟩)

theorem dispatch_cases (now : Nat) (shutdown : Bool) (holds : p.worker w = .holding i) :
    (∃ p' woken r, p.dispatch w i shutdown = (p', woken, some r) ∧
      Move now shutdown p (.worker w) woken [.dropped i r] p') ∨
    (∃ p' woken, p.dispatch w i shutdown = (p', woken, none) ∧
      Move now shutdown p (.worker w) woken [] p' ∧ p'.worker w = .evaluating i .spawned) := by
  unfold dispatch
  cases reason : reason? i shutdown with
  | some r => exact .inl ⟨_, _, r, rfl, .drop holds reason⟩
  | none =>
    refine .inr ⟨_, _, rfl, .begin holds reason, ?_⟩
    exact (worker_setWorker holds (by simp) _ w).trans (if_pos rfl)

def entries (p : Pool) : List (Nat × WorkItem) := p.submissions.map fun s => (s.caller, s.item)

variable {s : Submission} {d : Nat} {j : WorkItem}

theorem mem_entries : (d, j) ∈ p.entries ↔ ∃ t ∈ p.submissions, t.caller = d ∧ t.item = j := by
  simp [entries]

theorem entries_freeSlot (p : Pool) : p.freeSlot.1.entries = p.entries := by
  rcases freeSlot_cases p with ⟨l₁, t, l₂, _, _, eq, free⟩ | ⟨_, free⟩
  · rw [free]
    simp [entries, eq]
  · rw [free]
    rfl

theorem entries_setStage (mem : s ∈ p.submissions) (stage : Stage) :
    (p.setStage s stage).entries = p.entries := by
  obtain ⟨l₁, l₂, eq, replaced⟩ := exists_replace_eq (t := { s with stage }) mem
  simp only [entries, setStage, replaced]
  simp [eq]

theorem mem_entries_leave (once : (p.submissions.map (·.caller)).Nodup) (mem : s ∈ p.submissions) :
    (d, j) ∈ (p.leave s).1.entries ↔ d ≠ s.caller ∧ (d, j) ∈ p.entries := by
  have erase (t : Submission) : t ∈ (p.leave s).1.submissions ↔ t ≠ s ∧ t ∈ p.submissions :=
    once.of_map.mem_erase_iff
  simp only [mem_entries, erase]
  constructor
  · rintro ⟨t, ⟨ne, mem'⟩, rfl, rfl⟩
    exact ⟨fun eq => ne (List.inj_on_of_nodup_map once mem' mem eq), t, mem', rfl, rfl⟩
  · rintro ⟨other, t, mem', rfl, rfl⟩
    exact ⟨t, ⟨fun eq => other (by rw [eq]), mem'⟩, rfl, rfl⟩

theorem Move.mem_entries {p' : Pool} (h : Move now shutdown p a woken events p') (sound : p.Sound)
    (other : a ≠ .caller d) : (d, j) ∈ p'.entries ↔ (d, j) ∈ p.entries := by
  have leave {q : Pool} {s : Submission} (same : q.submissions = p.submissions)
      (mem : s ∈ p.submissions) (other : Agent.caller s.caller ≠ .caller d) :
      (d, j) ∈ (q.leave s).1.entries ↔ (d, j) ∈ p.entries := by
    have ne : d ≠ s.caller := fun eq => other (by rw [eq])
    have eq : q.entries = p.entries := by rw [entries, entries, same]
    rw [mem_entries_leave (same ▸ sound.callers) (same ▸ mem), eq]
    exact and_iff_right ne
  cases h with
  | drop | complete => exact iff_of_eq (congrArg _ (entries_freeSlot _))
  | enter | queue =>
    have ne : d ≠ _ := fun eq => other (by rw [eq])
    simp [entries, ne]
  | giveUp mem | giveBack mem | accept mem | hire mem => exact leave rfl mem other
  | obtain mem | send mem => exact iff_of_eq (congrArg _ (entries_setStage mem _))
  | release =>
    rw [release_fst]
    rfl
  | _ => rfl

def Turn.events (i : WorkItem) : Turn → List Event
  | .accepted => [.accepted i]
  | .refused => [.refused i]
  | .goOn | .wait => []

structure Submits (now : Nat) (shutdown : Bool) (p : Pool) (c : Nat) (i : WorkItem) (p' : Pool)
    (woken : List Agent) (turn : Turn) : Prop where
  move : Move now shutdown p (.caller c) woken (turn.events i) p'
  under : ∀ j, (c, j) ∈ p'.entries ↔ (turn = .goOn ∨ turn = .wait) ∧ i = j
  waits : turn = .wait → ¬ p'.Summons (.caller c)

theorem submits_enter (new : ∀ t ∈ p.submissions, t.caller ≠ c) :
    Submits now shutdown p c i (p.enter c i).1 [] (p.enter c i).2 := by
  have none (j : WorkItem) : (c, j) ∉ p.entries := fun mem => by
    obtain ⟨t, mem, eq, _⟩ := mem_entries.1 mem
    exact new t mem eq
  have added (q : Pool) (stage : Stage) (eq : q.submissions = p.submissions ++ [⟨c, i, stage⟩])
      (j : WorkItem) : (c, j) ∈ q.entries ↔ i = j := by
    have : q.entries = p.entries ++ [(c, i)] := by simp [entries, eq]
    rw [this, List.mem_append, or_iff_right (none j), List.mem_singleton, Prod.mk.injEq,
      and_iff_right rfl, eq_comm]
  unfold enter
  split
  · next released => exact ⟨.refuse released, by simpa using none, by simp⟩
  · next running =>
    rw [Bool.not_eq_true] at running
    split
    · next free =>
      exact ⟨.enter running free new, fun j => (added _ .holding (by rfl) j).trans (by simp),
        by simp⟩
    · next full =>
      refine ⟨.queue running (by omega) new,
        fun j => (added _ .waiting (by rfl) j).trans (by simp), fun _ summons => ?_⟩
      obtain ⟨t, mem, caller, reason⟩ := summons
      rcases List.mem_append.1 mem with mem | mem
      · exact new t mem caller
      · simp [List.mem_singleton.1 mem, running] at reason

theorem submits_proceed (sound : p.Sound) (mem : s ∈ p.submissions) :
    Submits now shutdown p s.caller s.item (p.proceed s).1 (p.proceed s).2.1 (p.proceed s).2.2 := by
  have self (j : WorkItem) : (s.caller, j) ∈ p.entries ↔ s.item = j := by
    refine mem_entries.trans ⟨fun ⟨t, mem', eq, item⟩ => ?_, fun eq => ⟨s, mem, rfl, eq⟩⟩
    rw [← item, sound.eq_of_caller mem mem' eq.symm]
  have ended {q : Pool} (same : q.submissions = p.submissions) (j : WorkItem) :
      (s.caller, j) ∉ (q.leave s).1.entries := fun mem' =>
    ((mem_entries_leave (same ▸ sound.callers) (same ▸ mem)).1 mem').1 rfl
  unfold proceed
  split
  · next waiting =>
    split
    · next released =>
      exact ⟨.giveUp mem waiting released, by simpa using ended rfl, by simp⟩
    · next running =>
      refine ⟨.stay, by simpa using self, fun _ summons => ?_⟩
      obtain ⟨t, mem', eq, reason⟩ := summons
      rw [sound.eq_of_caller mem' mem eq] at reason
      simp [waiting, running] at reason
  · next granted =>
    split
    · next released =>
      have freed : p.freeSlot = ({ p with free := p.free + 1 }, []) := by simp [freeSlot, released]
      rw [freed]
      exact ⟨.giveBack mem granted released,
        by simpa using ended (q := { p with free := p.free + 1 }) rfl, by simp⟩
    · next running =>
      refine ⟨.obtain mem granted (by simpa using running), ?_, by simp⟩
      simpa [entries_setStage mem] using self
  · next holding =>
    refine ⟨.send mem holding, fun j => ?_, by simp⟩
    change (s.caller, j) ∈ (p.setStage s .queued).entries ↔ _
    simpa [entries_setStage mem] using self j
  · next queued =>
    rcases spawnIfNeeded_cases p with ⟨eq, enough⟩ | ⟨eq, running, few, room⟩
    · rw [eq]
      exact ⟨.accept mem queued enough, by simpa using ended rfl, by simp⟩
    · rw [eq]
      exact ⟨.hire mem queued running few room, by simpa using ended (q := p.hire) rfl, by simp⟩

theorem submits_submit (now : Nat) (shutdown : Bool) (sound : p.Sound) {entered : Bool}
    (under : ∀ j, (c, j) ∈ p.entries ↔ entered = true ∧ i = j) :
    Submits now shutdown p c i (p.submit c i entered).1 (p.submit c i entered).2.1
      (p.submit c i entered).2.2 := by
  unfold submit
  split
  · next entered =>
    obtain ⟨s, mem, rfl, rfl⟩ := mem_entries.1 ((under i).2 ⟨entered, rfl⟩)
    split
    · next t found =>
      have same : t.caller = s.caller := by simpa using List.find?_some found
      rw [sound.eq_of_caller (List.mem_of_find?_eq_some found) mem same]
      exact submits_proceed sound mem
    · next none =>
      have := List.find?_eq_none.1 none s mem
      simp at this
  · next fresh =>
    refine submits_enter fun t mem eq => fresh ?_
    exact ((under t.item).1 (mem_entries.2 ⟨t, mem, eq, rfl⟩)).1

end Autoscaling.Pool
