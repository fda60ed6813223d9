import Autoscaling.Session

namespace Autoscaling

namespace Store

def Write.settles (job group : String) : Write → Bool
  | .putJob j _ | .deleteJob j => j = job
  | .putGroup j g _ | .deleteGroup j g => j = job && g = group

def Write.settlesJob (job : String) : Write → Bool
  | .putJob j _ | .putGroup j _ _ | .deleteJob j => j = job
  | .deleteGroup .. => false

def Write.policy? (group : String) : Write → Option Policy
  | .putJob _ groups => groups.get? group
  | .putGroup _ _ p => some p
  | .deleteGroup .. | .deleteJob _ => none

def Write.puts : Write → Bool
  | .putJob .. | .putGroup .. => true
  | .deleteGroup .. | .deleteJob _ => false

def latest (p : Write → Bool) (history : List Write) : Option Write := history.reverse.find? p

def policyAfter (history : List Write) (job group : String) : Option Policy :=
  (latest (·.settles job group) history).bind (·.policy? group)

def presentAfter (history : List Write) (job : String) : Bool :=
  (latest (·.settlesJob job) history).any (·.puts)

structure After (history : List Write) (set : PolicySet) : Prop where
  policy : ∀ job group, (set.get? job).bind (·.get? group) = policyAfter history job group
  present : ∀ job, (set.get? job).isSome = presentAfter history job

variable {history : List Write} {set set' : PolicySet} {job group : String}

theorem latest_concat (p : Write → Bool) (history : List Write) (w : Write) :
    latest p (history ++ [w]) = if p w then some w else latest p history := by
  simp only [latest, List.reverse_append, List.reverse_singleton, List.singleton_append,
    List.find?_cons]
  cases p w <;> rfl

theorem policyAfter_concat (history : List Write) (w : Write) (job group : String) :
    policyAfter (history ++ [w]) job group =
      if w.settles job group then w.policy? group else policyAfter history job group := by
  rw [policyAfter, latest_concat]
  split <;> rfl

theorem presentAfter_concat (history : List Write) (w : Write) (job : String) :
    presentAfter (history ++ [w]) job =
      if w.settlesJob job then w.puts else presentAfter history job := by
  rw [presentAfter, latest_concat]
  split <;> rfl

theorem Write.job_of_settles {w : Write} (settles : w.settles job group = true) :
    job = w.job := by
  cases w <;> simp_all [Write.settles, Write.job]

theorem Write.job_of_settlesJob {w : Write} (settles : w.settlesJob job = true) :
    job = w.job := by
  cases w <;> simp_all [Write.settlesJob, Write.job]

theorem get?_revise (w : Write) (groups : Option JobPolicies) (group : String) :
    (w.revise groups).bind (·.get? group) =
      if w.settles w.job group then w.policy? group else groups.bind (·.get? group) := by
  cases w with
  | putJob | deleteJob => simp [Write.revise, Write.settles, Write.job, Write.policy?]
  | putGroup j g p =>
    by_cases same : group = g
    · simp [Write.revise, Write.settles, Write.job, Write.policy?, same]
    · cases groups <;> simp [Write.revise, Write.settles, Write.job, same, Ne.symm same]
  | deleteGroup j g =>
    by_cases same : group = g
    · cases groups <;> simp [Write.revise, Write.settles, Write.job, Write.policy?, same]
    · cases groups <;> simp [Write.revise, Write.settles, Write.job, same, Ne.symm same]

theorem isSome_revise (w : Write) (groups : Option JobPolicies) :
    (w.revise groups).isSome = if w.settlesJob w.job then w.puts else groups.isSome := by
  cases w <;> simp [Write.revise, Write.settlesJob, Write.job, Write.puts]

theorem After.write (after : After history set) (w : Write) :
    After (history ++ [w]) (Store.write set w) := by
  constructor
  case policy =>
    intro job group
    rw [policyAfter_concat, ← after.policy]
    by_cases own : job = w.job
    · rw [own, get?_write_self, get?_revise]
    · rw [get?_write_of_ne set own, if_neg (own ∘ Write.job_of_settles)]
  case present =>
    intro job
    rw [presentAfter_concat, ← after.present]
    by_cases own : job = w.job
    · rw [own, get?_write_self, isSome_revise]
    · rw [get?_write_of_ne set own, if_neg (own ∘ Write.job_of_settlesJob)]

theorem after_nil : After [] ∅ := ⟨fun _ _ => rfl, fun _ => rfl⟩

theorem After.unique (after : After history set) (after' : After history set') : set = set' := by
  refine Dict.ext_get? fun job => ?_
  have present := (after.present job).trans (after'.present job).symm
  have policy (group : String) := (after.policy job group).trans (after'.policy job group).symm
  cases found : set.get? job with
  | none =>
    rw [found] at present
    exact (Option.isSome_eq_false_iff.1 present.symm |> Option.isNone_iff_eq_none.1).symm
  | some groups =>
    rw [found] at present policy
    obtain ⟨groups', found'⟩ := Option.isSome_iff_exists.1 present.symm
    rw [found'] at policy ⊢
    exact congrArg some (Dict.ext_get? policy)

end Store

namespace Session

def Call.write? : Call → Option Store.Write
  | .write w => some w
  | _ => none

def writes (requests : List Request) : List Store.Write := requests.filterMap (·.call.write?)

def Kept (before : List Request) (name : String) : Option PolicySet → Prop
  | none => ∀ r ∈ before, r.call ≠ .keep name
  | some set => ∃ earlier r later, before = earlier ++ r :: later ∧ r.call = .keep name ∧
      (∀ r ∈ later, r.call ≠ .keep name) ∧ Store.After (writes earlier) set

def Settles (before : List Request) : Call → Reply → Prop
  | .write _, reply | .keep _, reply => reply = .done
  | .ask .all, reply => ∃ set, Store.After (writes before) set ∧ reply = .answer (.all set)
  | .ask (.job job), reply => ∃ groups : Option JobPolicies, reply = .answer (.job groups) ∧
      groups.isSome = Store.presentAfter (writes before) job ∧
      ∀ group, groups.bind (·.get? group) = Store.policyAfter (writes before) job group
  | .ask (.group job group), reply =>
    reply = .answer (.group (Store.policyAfter (writes before) job group))
  | .count, reply => ∃ jobs : List String, jobs.Nodup ∧
      (∀ job, job ∈ jobs ↔ Store.presentAfter (writes before) job = true) ∧
      reply = .count jobs.length
  | .recall name, reply => ∃ set, Kept before name set ∧ reply = .kept set

structure Tracks (before : List Request) (s : Session) : Prop where
  store : Store.After (writes before) s.backend.store
  kept : ∀ name, Kept before name (s.kept.get? name)

variable {before : List Request} {s : Session} {r : Request} {name : String}

theorem writes_concat (before : List Request) (r : Request) :
    writes (before ++ [r]) = writes before ++ r.call.write?.toList := by
  simp only [writes, List.filterMap_append, List.filterMap_cons, List.filterMap_nil]
  cases r.call.write? <;> rfl

theorem Kept.concat {set : Option PolicySet} (kept : Kept before name set)
    (other : r.call ≠ .keep name) : Kept (before ++ [r]) name set := by
  have still {l : List Request} (none : ∀ r ∈ l, r.call ≠ .keep name) :
      ∀ r' ∈ l ++ [r], r'.call ≠ .keep name := fun r' mem =>
    (List.mem_append.1 mem).elim (none r') fun mem => List.mem_singleton.1 mem ▸ other
  cases set with
  | none => exact still kept
  | some set =>
    obtain ⟨earlier, r', later, rfl, keeps, none, after⟩ := kept
    exact ⟨earlier, r', later ++ [r], by simp, keeps, still none, after⟩

theorem Tracks.settles (tracks : Tracks before s) (r : Request) :
    Settles before r.call (s.perform r).2 := by
  unfold perform
  cases r.call with
  | write | keep => rfl
  | ask q =>
    cases q with
    | all => exact ⟨_, tracks.store, rfl⟩
    | job job => exact ⟨_, rfl, tracks.store.present job, tracks.store.policy job⟩
    | group job group => exact congrArg (Reply.answer ∘ .group) (tracks.store.policy job group)
  | count =>
    refine ⟨s.backend.store.keys, Dict.nodup_keys _, fun job => ?_, by rw [Dict.length_keys]⟩
    rw [Dict.mem_keys_iff, tracks.store.present]
  | «recall» name => exact ⟨_, tracks.kept name, rfl⟩

theorem Tracks.perform (tracks : Tracks before s) (r : Request) :
    Tracks (before ++ [r]) (s.perform r).1 := by
  have store (none : r.call.write? = none) :
      Store.After (writes (before ++ [r])) s.backend.store := by
    rw [writes_concat, none]
    exact (List.append_nil (writes before)).symm ▸ tracks.store
  unfold Session.perform
  split
  · next w call =>
    have other (name : String) : r.call ≠ .keep name := by simp [call]
    refine ⟨?_, fun name => (tracks.kept name).concat (other name)⟩
    rw [writes_concat, call]
    exact tracks.store.write w
  · next q call =>
    exact ⟨store (by rw [call]; rfl), fun name => (tracks.kept name).concat (by simp [call])⟩
  · next call =>
    exact ⟨store (by rw [call]; rfl), fun name => (tracks.kept name).concat (by simp [call])⟩
  · next name call =>
    refine ⟨store (by rw [call]; rfl), fun name' => ?_⟩
    change Kept _ _ ((s.kept.insert name s.backend.store).get? name')
    rw [Dict.get?_insert]
    split
    · next same => exact ⟨before, r, [], rfl, by rw [call, same], by simp, tracks.store⟩
    · next other => exact (tracks.kept name').concat (by simp [call, Ne.symm other])
  · next name call =>
    exact ⟨store (by rw [call]; rfl), fun name => (tracks.kept name).concat (by simp [call])⟩

theorem run_append (s : Session) (before after : List Request) :
    s.run (before ++ after) =
      (((s.run before).1.run after).1, (s.run before).2 ++ ((s.run before).1.run after).2) := by
  induction before generalizing s with
  | nil => rfl
  | cons r rest ih => simp only [List.cons_append, run, ih]

theorem length_run (s : Session) (requests : List Request) :
    (s.run requests).2.length = requests.length := by
  induction requests generalizing s with
  | nil => rfl
  | cons r rest ih => simp only [run, List.length_cons, ih]

theorem Tracks.run (tracks : Tracks before s) (requests : List Request) :
    Tracks (before ++ requests) (s.run requests).1 := by
  induction requests generalizing before s with
  | nil => rwa [List.append_nil]
  | cons r rest ih =>
    rw [List.append_cons]
    exact ih (tracks.perform r)

theorem tracks_start (timings : Option Recorder) : Tracks [] { backend := { timings } } :=
  ⟨Store.after_nil, fun _ _ mem => nomatch mem⟩

/-- Whatever is asked through whichever handle, the requests before it settle the answer. -/
theorem reply_settled (timings : Option Recorder) (before after : List Request) (r : Request) :
    ∃ reply, (Session.run { backend := { timings } } (before ++ r :: after)).2[before.length]? =
      some reply ∧ Settles before r.call reply := by
  refine ⟨_, ?_, ((tracks_start timings).run before).settles r⟩
  rw [run_append, List.getElem?_append_right (Nat.le_of_eq (length_run _ before)), length_run,
    Nat.sub_self]
  rfl

example :
    (Session.run {} [{ call := .write (.putJob "web" ∅) }, { call := .keep "before" },
      { handle := 1, call := .write (.deleteJob "web") }, { call := .recall "before" }]).2[3]? =
    some (.kept (some (.insert ∅ "web" ∅))) := by decide

end Session

end Autoscaling
