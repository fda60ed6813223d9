import Autoscaling.Session

namespace Autoscaling

namespace Store

def Write.group? : Write → Option String
  | .putGroup _ group _ | .deleteGroup _ group => some group
  | .putJob .. | .deleteJob _ => none

def Write.deletes : Write → Bool
  | .deleteGroup .. | .deleteJob _ => true
  | .putJob .. | .putGroup .. => false

def Write.Independent (a b : Write) : Prop :=
  a.job ≠ b.job ∨ (∃ g g', a.group? = some g ∧ b.group? = some g' ∧ g ≠ g') ∨
    (a.deletes = true ∧ b.deletes = true)

variable {a b : Write}

theorem revise_comm_of_group {g g' : String} (about : a.group? = some g)
    (about' : b.group? = some g') (ne : g ≠ g') (groups : Option JobPolicies) :
    a.revise (b.revise groups) = b.revise (a.revise groups) := by
  cases a with
  | putJob | deleteJob => cases about
  | putGroup job group p =>
    cases about
    cases b with
    | putJob | deleteJob => cases about'
    | putGroup job' group' p' =>
      cases about'
      exact congrArg some (Dict.insert_comm _ ne.symm p' p)
    | deleteGroup job' group' =>
      cases about'
      cases groups <;> simp [Write.revise, Dict.erase_insert_of_ne _ ne]
  | deleteGroup job group =>
    cases about
    cases b with
    | putJob | deleteJob => cases about'
    | putGroup job' group' p' =>
      cases about'
      cases groups <;> simp [Write.revise, Dict.erase_insert_of_ne _ ne.symm]
    | deleteGroup job' group' =>
      cases groups <;> simp [Write.revise, Dict.erase_comm]

theorem revise_comm_of_deletes (deletes : a.deletes = true) (deletes' : b.deletes = true)
    (groups : Option JobPolicies) : a.revise (b.revise groups) = b.revise (a.revise groups) := by
  cases a with
  | putJob | putGroup => cases deletes
  | deleteJob =>
    cases b with
    | putJob | putGroup => cases deletes'
    | deleteGroup | deleteJob => rfl
  | deleteGroup =>
    cases b with
    | putJob | putGroup => cases deletes'
    | deleteJob => rfl
    | deleteGroup => cases groups <;> simp [Write.revise, Dict.erase_comm]

theorem write_comm (s : Store) (independent : a.Independent b) :
    (s.write a).write b = (s.write b).write a := by
  refine Dict.ext_get? fun job => ?_
  by_cases own : job = a.job
  · by_cases own' : job = b.job
    · have revise (groups : Option JobPolicies) :
          a.revise (b.revise groups) = b.revise (a.revise groups) := by
        rcases independent with other | ⟨g, g', about, about', ne⟩ | ⟨deletes, deletes'⟩
        · exact absurd (own.symm.trans own') other
        · exact revise_comm_of_group about about' ne groups
        · exact revise_comm_of_deletes deletes deletes' groups
      simp only [get?_write, if_pos own, if_pos own', revise]
    · simp only [get?_write, if_pos own, if_neg own']
  · simp only [get?_write, if_neg own]

example :
    let put (p : Policy) := Write.putGroup "web" "api" p
    (Store.write ∅ (put {})).write (put { enabled := false }) ≠
      (Store.write ∅ (put { enabled := false })).write (put {}) := by decide

theorem revise_revise (w : Write) (groups : Option JobPolicies) :
    w.revise (w.revise groups) = w.revise groups := by
  cases w with
  | putJob | deleteJob => rfl
  | putGroup => simp [Write.revise, Dict.insert_insert]
  | deleteGroup => cases groups <;> simp [Write.revise, Dict.erase_erase]

theorem write_write (s : Store) (w : Write) : (s.write w).write w = s.write w := by
  refine Dict.ext_get? fun job => ?_
  by_cases own : job = w.job
  · simp only [get?_write, if_pos own, revise_revise]
  · simp only [get?_write, if_neg own]

end Store

namespace Session

def Call.job? : Call → Option String
  | .write w => some w.job
  | .ask (.job job) | .ask (.group job _) => some job
  | .ask .all | .count | .keep _ | .recall _ => none

def Apart (requests : List Request) : Prop :=
  ∀ r ∈ requests, ∀ r' ∈ requests, r.handle ≠ r'.handle →
    ∀ job, ¬(r.call.job? = some job ∧ r'.call.job? = some job)

def through (handle : Nat) (requests : List Request) : List Request :=
  requests.filter (·.handle = handle)

def repliesThrough (handle : Nat) (s : Session) (requests : List Request) : List Reply :=
  ((requests.zip (s.run requests).2).filter fun (r, _) =>
    r.handle = handle && r.call.job?.isSome).map (·.2)

def Reorders (requests requests' : List Request) : Prop :=
  ∀ handle, through handle requests = through handle requests'

def Agree (jobs : String → Prop) (s s' : Session) : Prop :=
  ∀ job, jobs job → s.backend.store.get? job = s'.backend.store.get? job

variable {s s' : Session} {jobs : String → Prop} {r : Request} {requests requests' : List Request}

theorem Agree.refl (jobs : String → Prop) (s : Session) : Agree jobs s s := fun _ _ => rfl

theorem Agree.trans {s'' : Session} (agree : Agree jobs s s') (agree' : Agree jobs s' s'') :
    Agree jobs s s'' :=
  fun job own => (agree job own).trans (agree' job own)

theorem Agree.perform (agree : Agree jobs s s') (r : Request) :
    Agree jobs (s.perform r).1 (s'.perform r).1 := by
  unfold Session.perform
  cases r.call with
  | write w =>
    intro job own
    change (s.backend.store.write w).get? job = (s'.backend.store.write w).get? job
    rw [Store.get?_write, Store.get?_write, agree job own]
  | _ => exact agree

theorem Agree.reply_eq (agree : Agree jobs s s') {job : String} (about : r.call.job? = some job)
    (own : jobs job) : (s.perform r).2 = (s'.perform r).2 := by
  unfold Session.perform
  cases call : r.call with
  | write => rfl
  | ask q =>
    rw [call] at about
    cases q with
    | all => cases about
    | job =>
      cases about
      exact congrArg (Reply.answer ∘ .job) (agree job own)
    | group _ group =>
      cases about
      exact congrArg (fun groups => Reply.answer (.group (groups.bind (·.get? group))))
        (agree job own)
  | count | keep | «recall» => simp [call, Call.job?] at about

theorem agree_perform (s : Session) (beside : ∀ job, jobs job → r.call.job? ≠ some job) :
    Agree jobs (s.perform r).1 s := by
  intro job own
  have other := beside job own
  unfold Session.perform
  cases call : r.call with
  | write w =>
    rw [call] at other
    exact Store.get?_write_of_ne s.backend.store fun eq => other (congrArg some eq.symm)
  | _ => rfl

theorem agree_run (s : Session)
    (beside : ∀ r ∈ requests, ∀ job, jobs job → r.call.job? ≠ some job) :
    Agree jobs (s.run requests).1 s := by
  induction requests generalizing s with
  | nil => exact .refl jobs s
  | cons r rest ih =>
    have first := agree_perform s (beside r (List.mem_cons_self ..))
    exact (ih _ fun r' mem => beside r' (List.mem_cons_of_mem _ mem)).trans first

theorem repliesThrough_cons (handle : Nat) (s : Session) (r : Request) (rest : List Request) :
    repliesThrough handle s (r :: rest) =
      (if r.handle = handle ∧ r.call.job?.isSome then [(s.perform r).2] else []) ++
        repliesThrough handle (s.perform r).1 rest := by
  simp only [repliesThrough, run, List.zip_cons_cons, List.filter_cons]
  by_cases own : r.handle = handle <;> cases r.call.job? <;> simp [own]

theorem Agree.run {handle : Nat} (agree : Agree jobs s s')
    (within : ∀ r ∈ requests, r.handle = handle → ∀ job, r.call.job? = some job → jobs job)
    (beside : ∀ r ∈ requests, r.handle ≠ handle → ∀ job, jobs job → r.call.job? ≠ some job) :
    Agree jobs (s.run requests).1 (s'.run (through handle requests)).1 ∧
      repliesThrough handle s requests = repliesThrough handle s' (through handle requests) := by
  induction requests generalizing s s' with
  | nil => exact ⟨agree, rfl⟩
  | cons r rest ih =>
    have within' := fun r' mem => within r' (List.mem_cons_of_mem r mem)
    have beside' := fun r' mem => beside r' (List.mem_cons_of_mem r mem)
    by_cases own : r.handle = handle
    · obtain ⟨last, replies⟩ := ih (agree.perform r) within' beside'
      have first : through handle (r :: rest) = r :: through handle rest :=
        List.filter_cons_of_pos (decide_eq_true own)
      rw [first, repliesThrough_cons, repliesThrough_cons, replies]
      refine ⟨last, congrArg (· ++ _) ?_⟩
      split
      · next about =>
        obtain ⟨job, about⟩ := Option.isSome_iff_exists.1 about.2
        have mine := within r (List.mem_cons_self ..) own job about
        rw [agree.reply_eq about mine]
      · rfl
    · have next := (agree_perform s (beside r (List.mem_cons_self ..) own)).trans agree
      obtain ⟨last, replies⟩ := ih next within' beside'
      have rest' : through handle (r :: rest) = through handle rest :=
        List.filter_cons_of_neg (by simpa using own)
      rw [rest', repliesThrough_cons, if_neg fun h => own h.1]
      exact ⟨last, replies⟩

theorem Apart.alone (apart : Apart requests) (s : Session) (handle : Nat) :
    Agree (fun job => ∃ r ∈ requests, r.handle = handle ∧ r.call.job? = some job)
        (s.run requests).1 (s.run (through handle requests)).1 ∧
      repliesThrough handle s requests = repliesThrough handle s (through handle requests) := by
  refine (Agree.refl _ s).run (fun r mem own job about => ⟨r, mem, own, about⟩) ?_
  rintro r mem other job ⟨r', mem', rfl, about⟩ about'
  exact apart r mem r' mem' other job ⟨about', about⟩

namespace Reorders

theorem symm (reorders : Reorders requests requests') : Reorders requests' requests :=
  fun handle => (reorders handle).symm

theorem mem (reorders : Reorders requests requests') (mem : r ∈ requests') : r ∈ requests := by
  have own : r ∈ through r.handle requests' := List.mem_filter.2 ⟨mem, decide_eq_true rfl⟩
  rw [← reorders r.handle] at own
  exact (List.mem_filter.1 own).1

theorem apart (reorders : Reorders requests requests') (apart : Apart requests) :
    Apart requests' := fun r mem r' mem' =>
  apart r (reorders.mem mem) r' (reorders.mem mem')

theorem store_eq (reorders : Reorders requests requests') (apart : Apart requests) (s : Session) :
    (s.run requests).1.backend.store = (s.run requests').1.backend.store := by
  refine Dict.ext_get? fun job => ?_
  by_cases touched : ∃ r ∈ requests, r.call.job? = some job
  · obtain ⟨r, mem, about⟩ := touched
    have agree := (apart.alone s r.handle).1 job ⟨r, mem, rfl, about⟩
    have agree' := ((reorders.apart apart).alone s r.handle).1 job
      ⟨r, reorders.symm.mem mem, rfl, about⟩
    rw [agree, agree', reorders r.handle]
  · have untouched : ∀ r ∈ requests, ∀ j, j = job → r.call.job? ≠ some j := by
      rintro r mem _ rfl about
      exact touched ⟨r, mem, about⟩
    rw [agree_run s untouched job rfl,
      agree_run s (fun r mem => untouched r (reorders.mem mem)) job rfl]

theorem repliesThrough_eq (reorders : Reorders requests requests') (apart : Apart requests)
    (s : Session) (handle : Nat) :
    repliesThrough handle s requests = repliesThrough handle s requests' := by
  rw [(apart.alone s handle).2, ((reorders.apart apart).alone s handle).2, reorders handle]

end Reorders

structure OrderFree (s : Session) : Prop where
  pairs : ∀ a b : Store.Write, a.Independent b →
    (s.backend.store.write a).write b = (s.backend.store.write b).write a
  twice : ∀ w : Store.Write, (s.backend.store.write w).write w = s.backend.store.write w
  ends : ∀ requests requests', Apart requests → Reorders requests requests' →
    (s.run requests).1.backend.store = (s.run requests').1.backend.store
  replies : ∀ requests requests', Apart requests → Reorders requests requests' →
    ∀ handle, repliesThrough handle s requests = repliesThrough handle s requests'

/-- Independent writes commute, and handles with jobs of their own do not notice each other. -/
theorem orderFree (s : Session) : OrderFree s :=
  ⟨fun _ _ => Store.write_comm s.backend.store, Store.write_write s.backend.store,
    fun _ _ apart reorders => reorders.store_eq apart s,
    fun _ _ apart reorders => reorders.repliesThrough_eq apart s⟩

end Session

end Autoscaling
