import Autoscaling.Proofs.Machine.Brief

namespace Autoscaling

namespace Observation

def lost (b b' : String → Behaviour) (o : Observation) : List (Nat × String) :=
  ((starts o.started).filter fun e => b e.2 = .panics ∧ b' e.2 ≠ .panics).mergeSort jobOrder

structure Alike (b b' : String → Behaviour) (o o' : Observation) : Prop where
  same : o' = { o with finished := o'.finished }
  finished : o.finished.filter (fun e => b' e.2 ≠ .panics) =
    o'.finished.filter fun e => b e.2 ≠ .panics
  lost : o'.finished.filter (fun e => b e.2 = .panics) = o.lost b b'
  lost' : o.finished.filter (fun e => b' e.2 = .panics) = o.lost b' b

theorem jobOrder_total (a b : Nat × String) : jobOrder a b || jobOrder b a := by
  simp only [jobOrder, Bool.or_eq_true, Bool.and_eq_true, decide_eq_true_eq, beq_iff_eq]
  rcases Nat.lt_trichotomy a.1 b.1 with lt | eq | gt
  · exact .inl (.inl lt)
  · exact (String.le_total a.2 b.2).imp (fun le => .inr ⟨eq, le⟩) fun le => .inr ⟨eq.symm, le⟩
  · exact .inr (.inl gt)

theorem jobOrder_trans (a b c : Nat × String) (ab : jobOrder a b) (bc : jobOrder b c) :
    jobOrder a c := by
  simp only [jobOrder, Bool.or_eq_true, Bool.and_eq_true, decide_eq_true_eq, beq_iff_eq] at *
  rcases ab with ab | ⟨ab, ab'⟩ <;> rcases bc with bc | ⟨bc, bc'⟩
  · exact .inl (by omega)
  · exact .inl (by omega)
  · exact .inl (by omega)
  · exact .inr ⟨by omega, String.le_trans ab' bc'⟩

theorem jobOrder_antisymm (a b : Nat × String) (ab : jobOrder a b) (ba : jobOrder b a) : a = b := by
  simp only [jobOrder, Bool.or_eq_true, Bool.and_eq_true, decide_eq_true_eq, beq_iff_eq] at *
  rcases ab with ab | ⟨ab, ab'⟩ <;> rcases ba with ba | ⟨ba, ba'⟩
  · omega
  · omega
  · omega
  · exact Prod.ext ab (String.le_antisymm ab' ba')

theorem filter_mergeSort (l : List (Nat × String)) (p : Nat × String → Bool) :
    (l.mergeSort jobOrder).filter p = (l.filter p).mergeSort jobOrder := by
  have sorted (l : List (Nat × String)) := List.pairwise_mergeSort jobOrder_trans jobOrder_total l
  have perm := ((List.mergeSort_perm l jobOrder).filter p).trans
    (List.mergeSort_perm (l.filter p) jobOrder).symm
  exact perm.eq_of_pairwise (fun a b _ _ => jobOrder_antisymm a b) ((sorted l).filter p)
    (sorted (l.filter p))

end Observation

namespace Machine

open Observation

variable {b b' : String → Behaviour} {s s' start start' m : Machine} {turn : Option Agent}
  {a : Agent} {cs cs' : List Command} {told told' : List (Nat × Event)} {c w : Nat} {i : WorkItem}

theorem filterMap_echo {α : Type} {f : Nat × Event → Option α}
    (blind : ∀ t i, f (t, .finished i) = f (t, .panicked i))
    (echo : List.Forall₂ (Echoes b b') told told') : told.filterMap f = told'.filterMap f := by
  induction echo with
  | nil => rfl
  | cons echo _ ih =>
    cases echo with
    | same => simp only [List.filterMap_cons, ih]
    | panicked | finished => simp only [List.filterMap_cons, blind, ih]

theorem finished_echo (echo : List.Forall₂ (Echoes b b') told told') :
    (told.filterMap finished?).filter (fun e => b e.2 = b' e.2) =
      (told'.filterMap finished?).filter fun e => b e.2 = b' e.2 := by
  induction echo with
  | nil => rfl
  | cons echo _ ih =>
    cases echo with
    | same =>
      simp only [List.filterMap_cons]
      split
      · exact ih
      · simp only [List.filter_cons, ih]
    | panicked panics returns | finished returns panics =>
      simp [List.filterMap_cons, finished?, panics, returns, ih]

theorem finished_lost (twins : ∀ job, (b job).Twin (b' job)) (brisk : Brisk b' told') :
    (told'.filterMap finished?).filter (fun e => b e.2 = .panics) =
      (starts (told'.filterMap started?)).filter fun e => b e.2 = .panics ∧ b' e.2 ≠ .panics := by
  have brief (e : Nat × String) (panics : b e.2 = .panics) :
      (b' e.2).isBrief = true ∧ (b' e.2 = .instant ↔ b' e.2 ≠ .panics) := by
    rcases twins e.2 with eq | ⟨_, returns⟩ | ⟨returns, _⟩
    · simp [← eq, panics, Behaviour.isBrief]
    · simp [returns, Behaviour.isBrief]
    · rw [panics] at returns
      cases returns
  calc
    _ = ((told'.filterMap finished?).filter (fun e => (b' e.2).isBrief)).filter
        (fun e => b e.2 = .panics) := by
      rw [List.filter_filter]
      refine List.filter_congr fun e _ => ?_
      by_cases panics : b e.2 = .panics <;> simp [panics, brief]
    _ = ((starts (told'.filterMap started?)).filter fun e => b' e.2 = .instant).filter
        (fun e => b e.2 = .panics) := by rw [brisk]
    _ = _ := by
      rw [List.filter_filter]
      refine List.filter_congr fun e _ => ?_
      by_cases panics : b e.2 = .panics <;> simp [panics, brief]

theorem not_panics_of_finished (brisk : Brisk b told) {e : Nat × String}
    (mem : e ∈ told.filterMap finished?) : b e.2 ≠ .panics := fun panics => by
  have lost := finished_lost (fun _ => .inl rfl) brisk
  have none : e ∈ (told.filterMap finished?).filter fun e => b e.2 = .panics :=
    List.mem_filter.2 ⟨mem, decide_eq_true panics⟩
  rw [lost] at none
  have := (List.mem_filter.1 none).2
  simp at this

theorem finished_eq (twins : ∀ job, (b job).Twin (b' job))
    (echo : List.Forall₂ (Echoes b b') told told') (brisk : Brisk b told)
    (brisk' : Brisk b' told') :
    (told.filterMap finished?).filter (fun e => b' e.2 ≠ .panics) =
      (told'.filterMap finished?).filter fun e => b e.2 ≠ .panics := by
  calc
    _ = ((told.filterMap finished?).filter (fun e => b e.2 = b' e.2)).filter
        (fun e => b e.2 ≠ .panics) := by
      rw [List.filter_filter]
      refine List.filter_congr fun e mem => ?_
      have calm := not_panics_of_finished brisk mem
      rcases twins e.2 with eq | ⟨panics, _⟩ | ⟨returns, panics⟩
      · simp [eq]
      · exact absurd panics calm
      · simp [returns, panics]
    _ = ((told'.filterMap finished?).filter (fun e => b e.2 = b' e.2)).filter
        (fun e => b e.2 ≠ .panics) := by rw [finished_echo echo]
    _ = _ := by
      rw [List.filter_filter]
      refine List.filter_congr fun e mem => ?_
      have calm := not_panics_of_finished brisk' mem
      rcases twins e.2 with eq | ⟨panics, _⟩ | ⟨_, panics⟩
      · simp [eq]
      · simp [panics]
      · exact absurd panics calm

theorem alike_of_told {t t' : Machine} (twins : ∀ job, (b job).Twin (b' job))
    (mirrors : Mirrors b b' t t') (told_eq : t.journal = told ++ s.journal)
    (told_eq' : t'.journal = told' ++ s'.journal) (echo : List.Forall₂ (Echoes b b') told told')
    (brisk : Brisk b told) (brisk' : Brisk b' told') :
    Alike b b' (Observation.of t s.journal.length) (Observation.of t' s'.journal.length) := by
  have events : t.journal.take (t.journal.length - s.journal.length) = told := by
    simp [told_eq]
  have events' : t'.journal.take (t'.journal.length - s'.journal.length) = told' := by
    simp [told_eq']
  have echo := List.forall₂_reverse_iff.2 echo
  have started := filterMap_echo (f := started?) (fun _ _ => rfl) echo
  constructor
  case same =>
    have answers := filterMap_echo (f := answer?) (fun _ _ => rfl) echo
    have questions := filterMap_echo (f := Option.guard isQuestion) (fun _ _ => rfl) echo
    rw [List.filterMap_eq_filter] at questions
    simp only [Observation.of, events, events', started, answers, questions]
    rw [mirrors.same]
    rfl
  case finished =>
    simp only [Observation.of, events, events', filter_mergeSort]
    rw [finished_eq twins echo brisk.reverse brisk'.reverse]
  case lost =>
    simp only [Observation.of, lost, events, events', filter_mergeSort, started]
    rw [finished_lost twins brisk'.reverse]
  case lost' =>
    simp only [Observation.of, lost, events, filter_mergeSort]
    rw [finished_lost (fun job => (twins job).symm) brisk.reverse]

theorem Mirrors.perform {k : Command} (mirrors : Mirrors b b' s s')
    (twins : ∀ job, (b job).Twin (b' job)) (fresh : start.Fresh) (fresh' : start'.Fresh)
    (run : Run poolRule start cs none s) (run' : Run poolRule start' cs' none s')
    (settled : s.ready = []) (ofPool : k.isOfPool = true) :
    Mirrors b b' (s.perform k) (s'.perform k) ∧
      Alike b b' (Observation.of (s.perform k) s.journal.length)
        (Observation.of (s'.perform k) s'.journal.length) := by
  have next : Mirrors b b' (s.perform k) (s'.perform k) :=
    (mirrors.apply twins ofPool).settle twins
  have settled' : s'.ready = [] := by rw [mirrors.ready_eq, settled]
  have goes : Run poolRule s _ none (s.perform k) := Run.start.perform (fun _ _ _ => trivial)
    (run.punctual fresh.punctual) settled fun _ => ofPool
  have goes' : Run poolRule s' _ none (s'.perform k) := Run.start.perform (fun _ _ _ => trivial)
    (run'.punctual fresh'.punctual) settled' fun _ => ofPool
  obtain ⟨_, told, journal, brisk⟩ := run.recounts goes fresh fun _ _ => id
  obtain ⟨_, told', journal', brisk'⟩ := run'.recounts goes' fresh' fun _ _ => id
  rw [mirrors.does] at brisk
  rw [mirrors.does'] at brisk'
  have echo : List.Forall₂ (Echoes b b') told told' := by
    have length := mirrors.journal.length_eq
    have all := next.journal
    have lengths := all.length_eq
    rw [journal, journal'] at all lengths
    have := List.forall₂_take told.length all
    rw [List.length_append, List.length_append, length, Nat.add_right_cancel_iff] at lengths
    rwa [List.take_left, lengths, List.take_left] at this
  exact ⟨next, alike_of_told twins next journal journal' echo brisk brisk'⟩

theorem Mirrors.play {ks : List Command} (mirrors : Mirrors b b' s s')
    (twins : ∀ job, (b job).Twin (b' job)) (fresh : start.Fresh) (fresh' : start'.Fresh)
    (run : Run poolRule start cs none s) (run' : Run poolRule start' cs' none s')
    (settled : s.ready = []) (ofPool : ∀ k ∈ ks, k.isOfPool = true) :
    List.Forall₂ (Alike b b') (s.play ks).2 (s'.play ks).2 := by
  induction ks generalizing cs cs' s s' with
  | nil => exact .nil
  | cons k ks ih =>
    have may := ofPool k (List.mem_cons_self ..)
    have settled' : s'.ready = [] := by rw [mirrors.ready_eq, settled]
    obtain ⟨next, alike⟩ := mirrors.perform twins fresh fresh' run run' settled may
    have goes := run.perform (c := k) (fun _ _ _ => trivial) fresh.punctual settled fun _ => may
    have goes' := run'.perform (c := k) (fun _ _ _ => trivial) fresh'.punctual settled' fun _ => may
    exact .cons alike (ih next goes goes' (ready_settle _) fun k mem =>
      ofPool k (List.mem_cons_of_mem _ mem))

theorem Mirrors.follow (mirrors : Mirrors b b' s s') (twins : ∀ job, (b job).Twin (b' job))
    {t : Machine} (run : Run poolRule s cs turn t) :
    ∃ t', Run poolRule s' cs turn t' ∧ Mirrors b b' t t' := by
  induction run with
  | start => exact ⟨s', .start, mirrors⟩
  | command _ may instant ih =>
    obtain ⟨t', run', mirrors⟩ := ih
    exact ⟨_, run'.command may instant, mirrors.apply twins may⟩
  | @elapse cs t time _ settled later timely ih =>
    obtain ⟨t', run', mirrors⟩ := ih
    have timers : t'.timers = t.timers := by rw [mirrors.same, timers_recast]
    refine ⟨t'.elapse time, run'.elapse ?_ ?_ ?_, mirrors.elapse time⟩
    · rw [mirrors.ready_eq, settled]
    · rwa [mirrors.now_eq]
    · rwa [timers]
  | choose _ ready may ih =>
    obtain ⟨t', run', mirrors⟩ := ih
    exact ⟨_, run'.choose (mirrors.ready_eq ▸ ready) trivial,
      mirrors.silent (prefer · _) (fun _ _ => rfl) rfl⟩
  | move _ goesOn ih =>
    obtain ⟨t', run', mirrors⟩ := ih
    have next := mirrors.step twins
    exact ⟨_, run'.move (next.ready_eq ▸ goesOn), next⟩
  | pause _ waits ih =>
    obtain ⟨t', run', mirrors⟩ := ih
    have next := mirrors.step twins
    exact ⟨_, run'.pause (next.ready_eq ▸ waits), next⟩

/-- What two pools have in common where evaluations panic in one and return at once in the other. -/
structure PanicsUnseen (b b' : String → Behaviour) (ks : List Command) (s s' : Machine) : Prop where
  seen : List.Forall₂ (Alike b b') (s.play ks).2 (s'.play ks).2
  followed : ∀ {cs turn t}, Run poolRule s cs turn t →
    ∃ t', Run poolRule s' cs turn t' ∧ Mirrors b b' t t'
  followed' : ∀ {cs turn t'}, Run poolRule s' cs turn t' →
    ∃ t, Run poolRule s cs turn t ∧ Mirrors b b' t t'

theorem mirrors_ofPool {capacity expiry : Nat} {x : Scenario} {behaviours : Dict Behaviour}
    (made : ofPool capacity expiry x = .made s)
    (made' : ofPool capacity expiry { x with behaviours } = .made s') :
    Mirrors x.behaviour (Scenario.behaviour { x with behaviours }) s s' := by
  unfold ofPool at made made'
  split at made
  · next pool create =>
    cases made
    rw [create] at made'
    cases made'
    exact ⟨rfl, rfl, rfl, rfl, .nil, fun _ mem => nomatch mem⟩
  · cases made
  · cases made

/-- A pool where evaluations panic and one where they return at once instead cannot be told apart
but by the evaluations that finish. -/
theorem panicsUnseen {capacity expiry : Nat} {x : Scenario} {behaviours : Dict Behaviour}
    (made : ofPool capacity expiry x = .made s)
    (made' : ofPool capacity expiry { x with behaviours } = .made s')
    (twins : ∀ job, (x.behaviour job).Twin (Scenario.behaviour { x with behaviours } job))
    {ks : List Command} (ofPool : ∀ k ∈ ks, k.isOfPool = true) :
    PanicsUnseen x.behaviour (Scenario.behaviour { x with behaviours }) ks s s' := by
  have mirrors := mirrors_ofPool made made'
  have fresh := fresh_ofPool made
  constructor
  case seen =>
    exact mirrors.play twins fresh (fresh_ofPool made') .start .start fresh.ready ofPool
  case followed => exact mirrors.follow twins
  case followed' =>
    intro cs turn t' run
    obtain ⟨t, run, mirrors⟩ := mirrors.symm.follow (fun job => (twins job).symm) run
    exact ⟨t, run, mirrors.symm⟩

def panicky : Scenario := { behaviours := (∅ : Dict Behaviour).insert "a" .panics }

def twoItems : List Command := [.submit [heldItem], .submit [{ heldItem with job := "b" }]]

theorem panicsUnseen_twoItems :
    ((around heldUp.pool panicky).play twoItems).2.map (·.finished) =
        [[], [(0, "b")]] ∧
      ((around heldUp.pool {}).play twoItems).2.map (·.finished) =
        [[(0, "a")], [(0, "b")]] ∧
      PanicsUnseen panicky.behaviour (Scenario.behaviour {}) twoItems (around heldUp.pool panicky)
        (around heldUp.pool {}) := by
  have made : ofPool 1 100 panicky = .made (around heldUp.pool panicky) := rfl
  have made' : ofPool 1 100 {} = .made (around heldUp.pool {}) := rfl
  refine ⟨by decide +kernel, by decide +kernel, panicsUnseen made made' (fun job => ?_)
    (by simp [twoItems, Command.isOfPool])⟩
  by_cases own : job = "a"
  · exact .inr (.inl (by simp [own, Scenario.behaviour, panicky]))
  · exact .inl (by simp [own, Scenario.behaviour, panicky])

end Machine
end Autoscaling
