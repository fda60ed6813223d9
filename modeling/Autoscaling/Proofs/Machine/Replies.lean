import Autoscaling.Proofs.Machine.Course

namespace Autoscaling

theorem Dict.mem_keys_filter_iff {d : Dict α} {k : String} {v : α} (mem : (k, v) ∈ d.entries)
    {chosen : String × α → Bool} :
    k ∈ (d.entries.filter chosen).map (·.1) ↔ chosen (k, v) = true := by
  simp only [List.mem_map, List.mem_filter]
  constructor
  · rintro ⟨⟨_, v'⟩, ⟨mem', holds⟩, rfl⟩
    cases (get?_eq_some_iff.2 mem').symm.trans (get?_eq_some_iff.2 mem)
    exact holds
  · exact fun holds => ⟨(k, v), ⟨mem, holds⟩, rfl⟩

inductive Verdict
  | deploying
  | cooling
  | undetermined
  | clear
deriving DecidableEq

def Verdict.query : Verdict → Query
  | .deploying => .deployment
  | .cooling | .undetermined | .clear => .cooldown

namespace Scenario

/-- What the answer to the query makes of the group, unless it takes the other query to tell. -/
def reply (x : Scenario) (q : Query) (m : Member) (cooldown : Duration) (now : Time) :
    Option Verdict :=
  match q with
  | .deployment => if m ∈ x.deploying then some .deploying else none
  | .cooldown =>
    if m ∈ x.undetermined then some .undetermined
    else if x.history.inCooldown m.1 m.2 cooldown now then some .cooling
    else some .clear

variable {x : Scenario} {q : Query} {m : Member} {cooldown : Duration} {now : Time}

theorem exists_reply_of_objects (objects : x.objects q m cooldown now = true) :
    ∃ v, x.reply q m cooldown now = some v ∧ v ≠ .clear ∧ v.query = q := by
  cases q with
  | deployment =>
    have deploying : m ∈ x.deploying := by simpa [Scenario.objects] using objects
    exact ⟨.deploying, if_pos deploying, by simp, rfl⟩
  | cooldown =>
    by_cases unknown : m ∈ x.undetermined
    · exact ⟨.undetermined, if_pos unknown, by simp, rfl⟩
    · have cooling : x.history.inCooldown m.1 m.2 cooldown now = true := by
        simpa [Scenario.objects, coolsDown, unknown] using objects
      exact ⟨.cooling, (if_neg unknown).trans (if_pos cooling), by simp, rfl⟩

theorem reply_of_steady (steady : m ∉ x.deploying) :
    x.reply .deployment m cooldown now = none :=
  if_neg steady

theorem reply_of_cool (cool : x.coolsDown m cooldown now = false) :
    x.reply .cooldown m cooldown now = some .clear := by
  simp_all [reply, coolsDown]

end Scenario

/-- What the scaler says of each group, and whether the pool takes the item of each job. -/
structure Replies where
  verdict : Member → Verdict
  takes : String → Bool

namespace Replies

variable {r : Replies} {m : Member} {v : Verdict} {b : Bool} {job : String}
  {past left : List (String × Policy)} {jobs : List (String × JobPolicies)}

def both (job : String) (e : String × Policy) : List Event :=
  [.askedDeploying job e.1, .askedCooldown job e.1 e.2.cooldown]

def upTo (job : String) (e : String × Policy) : Query → List Event
  | .deployment => [.askedDeploying job e.1]
  | .cooldown => both job e

def questions (r : Replies) (job : String) : List (String × Policy) → List Event
  | [] => []
  | (group, policy) :: left =>
    match r.verdict (job, group) with
    | .deploying => [.askedDeploying job group]
    | .cooling | .undetermined => both job (group, policy)
    | .clear => both job (group, policy) ++ r.questions job left

def clears (r : Replies) (job : String) (groups : JobPolicies) : Bool :=
  match groups.entries with
  | [] => false
  | (group, _) :: _ => r.verdict (job, group) = .clear

def inquiries (r : Replies) (jobs : List (String × JobPolicies)) : List Event :=
  jobs.flatMap fun j => r.questions j.1 j.2.entries

def report (r : Replies) (jobs : List (String × JobPolicies)) : Report where
  jobsEvaluated := jobs.length
  submitted := (jobs.filter fun j => r.clears j.1 j.2 && r.takes j.1).map (·.1)
  gated := (jobs.filter fun j => !r.clears j.1 j.2).map (·.1)

theorem clears_iff {groups : JobPolicies} : r.clears job groups = true ↔
    ∃ group policy others, groups.entries = (group, policy) :: others ∧
      r.verdict (job, group) = .clear := by
  unfold clears
  split
  · next none => simp [none]
  · next group policy others some => simp [some]

theorem clears_congr {r' : Replies} {groups : JobPolicies}
    (same : ∀ group policy others, groups.entries = (group, policy) :: others →
      r'.verdict (job, group) = r.verdict (job, group)) :
    r'.clears job groups = r.clears job groups := by
  unfold clears
  split
  · rfl
  · next group policy others first => rw [same group policy others first]

theorem questions_append (clear : ∀ e ∈ past, r.verdict (job, e.1) = .clear) :
    r.questions job (past ++ left) = past.flatMap (both job) ++ r.questions job left := by
  induction past with
  | nil => rfl
  | cons e past ih =>
    have first := clear e (List.mem_cons_self ..)
    have rest := ih fun e mem => clear e (List.mem_cons_of_mem _ mem)
    simp [questions, first, rest]

@[simp] theorem inquiries_nil : r.inquiries [] = [] := rfl

theorem inquiries_concat (groups : JobPolicies) :
    r.inquiries (jobs ++ [(job, groups)]) = r.inquiries jobs ++ r.questions job groups.entries := by
  simp [inquiries]

theorem inquiries_cons (j : String × JobPolicies) :
    r.inquiries (j :: jobs) = r.questions j.1 j.2.entries ++ r.inquiries jobs :=
  List.flatMap_cons

theorem questions_of_blocked {group : String} (policy : Policy) (left : List (String × Policy))
    (blocked : r.verdict (job, group) ≠ .clear) :
    r.questions job ((group, policy) :: left) =
      upTo job (group, policy) (r.verdict (job, group)).query := by
  rw [questions]
  cases verdict : r.verdict (job, group) with
  | clear => exact absurd verdict blocked
  | _ => rfl

theorem exists_questions_cons {group : String} (policy : Policy) (left : List (String × Policy))
    {q : Query} (passed : q = .cooldown → r.verdict (job, group) ≠ .deploying) :
    ∃ more, r.questions job ((group, policy) :: left) = upTo job (group, policy) q ++ more := by
  rw [questions]
  cases q with
  | deployment => split <;> exact ⟨_, rfl⟩
  | cooldown =>
    split
    · next deploying => exact absurd deploying (passed rfl)
    · exact ⟨[], rfl⟩
    · exact ⟨[], rfl⟩
    · exact ⟨_, rfl⟩

theorem inquiries_append (more : List (String × JobPolicies)) :
    r.inquiries (jobs ++ more) = r.inquiries jobs ++ r.inquiries more :=
  List.flatMap_append

def hear (r : Replies) (m : Member) (v : Verdict) : Replies :=
  { r with verdict := fun k => if k = m then v else r.verdict k }

def settle (r : Replies) (job : String) (b : Bool) : Replies :=
  { r with takes := fun k => if k = job then b else r.takes k }

@[simp] theorem verdict_hear_self : (r.hear m v).verdict m = v := if_pos rfl

theorem verdict_hear_of_ne {k : Member} (ne : k ≠ m) : (r.hear m v).verdict k = r.verdict k :=
  if_neg ne

@[simp] theorem takes_settle_self : (r.settle job b).takes job = b := if_pos rfl

theorem takes_settle_of_ne {other : String} (ne : other ≠ job) :
    (r.settle job b).takes other = r.takes other :=
  if_neg ne

theorem questions_hear (other : job ≠ m.1) (l : List (String × Policy)) :
    (r.hear m v).questions job l = r.questions job l := by
  induction l with
  | nil => rfl
  | cons e l ih =>
    have same : (r.hear m v).verdict (job, e.1) = r.verdict (job, e.1) :=
      verdict_hear_of_ne fun eq => other (congrArg Prod.fst eq)
    simp only [questions, same, ih]

theorem clears_hear (other : job ≠ m.1) (groups : JobPolicies) :
    (r.hear m v).clears job groups = r.clears job groups := by
  unfold clears
  split
  · rfl
  · next group _ _ _ =>
    rw [verdict_hear_of_ne fun eq => other (congrArg Prod.fst eq)]

theorem questions_settle (l : List (String × Policy)) :
    (r.settle other b).questions job l = r.questions job l := by
  induction l with
  | nil => rfl
  | cons e l ih =>
    have same : (r.settle other b).verdict = r.verdict := rfl
    simp only [questions, same, ih]

theorem inquiries_hear (fresh : m.1 ∉ jobs.map (·.1)) :
    (r.hear m v).inquiries jobs = r.inquiries jobs :=
  List.flatMap_congr fun _ mem =>
    questions_hear (fun eq => fresh (eq ▸ List.mem_map_of_mem mem)) _

theorem report_hear (fresh : m.1 ∉ jobs.map (·.1)) :
    (r.hear m v).report jobs = r.report jobs := by
  have same (j) (mem : j ∈ jobs) : (r.hear m v).clears j.1 j.2 = r.clears j.1 j.2 :=
    clears_hear (fun eq => fresh (eq ▸ List.mem_map_of_mem mem)) _
  unfold report
  congr 2
  · exact List.filter_congr fun j mem => by rw [same j mem]; rfl
  · exact List.filter_congr fun j mem => by rw [same j mem]

@[simp] theorem inquiries_settle (other : String) :
    (r.settle other b).inquiries jobs = r.inquiries jobs :=
  List.flatMap_congr fun _ _ => questions_settle _

theorem report_settle (fresh : job ∉ jobs.map (·.1)) :
    (r.settle job b).report jobs = r.report jobs := by
  have same (j) (mem : j ∈ jobs) : (r.settle job b).takes j.1 = r.takes j.1 :=
    takes_settle_of_ne fun eq => fresh (eq ▸ List.mem_map_of_mem mem)
  unfold report
  congr 2
  exact List.filter_congr fun j mem => by rw [same j mem]; rfl

end Replies

def Report.visit (r : Report) : Report := { r with jobsEvaluated := r.jobsEvaluated + 1 }

namespace Replies

variable {r : Replies} {job : String} {groups : JobPolicies} {jobs : List (String × JobPolicies)}

theorem report_gated (blocked : r.clears job groups = false) :
    r.report (jobs ++ [(job, groups)]) =
      { (r.report jobs).visit with gated := (r.report jobs).gated ++ [job] } := by
  simp [report, Report.visit, blocked]

theorem report_settled (fresh : job ∉ jobs.map (·.1)) (clears : r.clears job groups = true)
    (b : Bool) : (r.settle job b).report (jobs ++ [(job, groups)]) =
      { (r.report jobs).visit with
        submitted := (r.report jobs).submitted ++ if b then [job] else [] } := by
  have clears : (r.settle job b).clears job groups = true := clears
  rw [← report_settle (b := b) fresh]
  cases b <;> simp [report, Report.visit, clears]

theorem mem_submitted_iff {jobs : PolicySet} (mem : (job, groups) ∈ jobs.entries) :
    job ∈ (r.report jobs.entries).submitted ↔ r.clears job groups = true ∧ r.takes job = true := by
  rw [report, Dict.mem_keys_filter_iff mem, Bool.and_eq_true]

theorem mem_gated_iff {jobs : PolicySet} (mem : (job, groups) ∈ jobs.entries) :
    job ∈ (r.report jobs.entries).gated ↔ r.clears job groups = false := by
  rw [report, Dict.mem_keys_filter_iff mem, Bool.not_eq_true']

end Replies

namespace Pass

structure Scans (r : Replies) (n : Nat) (entries done : List (String × JobPolicies))
    (past : List (String × Policy)) (p : Pass) (c : Check) : Prop where
  number : p.number = n
  split : entries = done ++ (c.job, c.groups) :: p.rest
  report : p.report = (r.report done).visit
  groups : c.groups.entries = past ++ c.left
  clear : ∀ e ∈ past, r.verdict (c.job, e.1) = .clear
  safe : c.safe = !past.isEmpty

def scanned (r : Replies) (done : List (String × JobPolicies)) (past : List (String × Policy))
    (job : String) : List Event :=
  r.inquiries done ++ past.flatMap (Replies.both job)

/-- Where the pass of the number stands that has read `entries`, and what it has asked. -/
inductive Stands (r : Replies) (n : Nat) (entries : List (String × JobPolicies)) :
    Stage → List Event → Prop
  | visiting (number : p.number = n) (split : entries = done ++ p.rest)
      (report : p.report = r.report done) :
      Stands r n entries (.visiting p) (r.inquiries done)
  | checking (scans : Scans r n entries done past p c) :
      Stands r n entries (.checking .deployment p c) (scanned r done past c.job)
  | following (scans : Scans r n entries done past p c) (next : c.left = (group, policy) :: left)
      (steady : r.verdict (c.job, group) ≠ .deploying) :
      Stands r n entries (.checking .cooldown p c)
        (scanned r done past c.job ++ [.askedDeploying c.job group])
  | held (scans : Scans r n entries done past p c) (next : c.left = (group, policy) :: left)
      (passed : q = .cooldown → r.verdict (c.job, group) ≠ .deploying) :
      Stands r n entries (.held q p c)
        (scanned r done past c.job ++ Replies.upTo c.job (group, policy) q)
  | answering (scans : Scans r n entries done past p c)
      (next : c.left = (group, policy) :: left)
      (passed : q = .cooldown → r.verdict (c.job, group) ≠ .deploying) :
      Stands r n entries (.answering q p c)
        (scanned r done past c.job ++ Replies.upTo c.job (group, policy) q)
  | submitting (number : p.number = n) (item : i.pass = n)
      (split : entries = done ++ (i.job, i.policies) :: p.rest)
      (report : p.report = (r.report done).visit) (clears : r.clears i.job i.policies = true) :
      Stands r n entries (.submitting p i entered)
        (r.inquiries done ++ r.questions i.job i.policies.entries)

/-- The group that the pass has asked about without knowing yet how it stands. -/
def Stage.asks? : Stage → Option (Member × Policy)
  | .checking .cooldown _ c | .held _ _ c | .answering _ _ c =>
    c.left.head?.map fun e => ((c.job, e.1), e.2)
  | _ => none

def Stage.query? : Stage → Option Query
  | .checking q .. | .held q .. | .answering q .. => some q
  | _ => none

def Answers (s : Machine) (stage : Stage) (q : Query) (m : Member) (v : Option Verdict) : Prop :=
  ∃ p c policy, stage = .answering q p c ∧ stage.asks? = some (m, policy) ∧
    s.scenario.reply q m policy.cooldown s.clock = v

variable {s : Machine} {stage next : Stage} {turn : Turn} {told asked : List Event} {n : Nat}
  {r : Replies} {entries done : List (String × JobPolicies)} {past left : List (String × Policy)}
  {p : Pass} {c : Check} {group : String} {policy : Policy} {q : Query} {v : Verdict}

theorem fresh_of_split {job : String} {groups : JobPolicies} {rest : List (String × JobPolicies)}
    (nodup : (entries.map (·.1)).Nodup) (split : entries = done ++ (job, groups) :: rest) :
    job ∉ done.map (·.1) := by
  intro mem
  rw [split, List.map_append, List.nodup_append] at nodup
  exact nodup.2.2 job mem job (by simp) rfl

namespace Scans

theorem hear (scans : Scans r n entries done past p c) (nodup : (entries.map (·.1)).Nodup)
    (next : c.left = (group, policy) :: left) (v : Verdict) :
    Scans (r.hear (c.job, group) v) n entries done past p c ∧
      scanned (r.hear (c.job, group) v) done past c.job = scanned r done past c.job := by
  have fresh : c.job ∉ done.map (·.1) := fresh_of_split nodup scans.split
  refine ⟨{ scans with report := ?_, clear := fun e mem => ?_ }, ?_⟩
  · rw [Replies.report_hear fresh, scans.report]
  · rw [Replies.verdict_hear_of_ne, scans.clear e mem]
    intro eq
    have twice := c.groups.nodup_keys
    rw [Dict.keys, scans.groups, next, List.map_append, List.nodup_append] at twice
    exact twice.2.2 e.1 (List.mem_map_of_mem mem) group (by simp) (congrArg Prod.snd eq)
  · rw [scanned, Replies.inquiries_hear fresh, scanned]

theorem step (scans : Scans r n entries done past p c) (next : c.left = (group, policy) :: left)
    (clear : r.verdict (c.job, group) = .clear) :
    Scans r n entries done (past ++ [(group, policy)]) p { c with left, safe := true } where
  number := scans.number
  split := scans.split
  report := scans.report
  groups := by rw [scans.groups, next, List.append_assoc]; rfl
  clear e mem := by
    rcases List.mem_append.1 mem with old | new
    · exact scans.clear e old
    · rw [List.mem_singleton.1 new]
      exact clear
  safe := by simp

theorem decide (scans : Scans r n entries done past p c)
    (halts : ∀ group policy left, c.left = (group, policy) :: left →
      r.verdict (c.job, group) ≠ .clear) :
    Stands r n entries (p.decide c) (scanned r done past c.job ++ r.questions c.job c.left) := by
  have asked : scanned r done past c.job ++ r.questions c.job c.left =
      r.inquiries done ++ r.questions c.job c.groups.entries := by
    rw [scanned, List.append_assoc, scans.groups, Replies.questions_append scans.clear]
  rw [asked]
  unfold Pass.decide
  cases past with
  | nil =>
    have blocked : r.clears c.job c.groups = false := by
      refine Bool.eq_false_iff.2 fun clears => ?_
      obtain ⟨group, policy, others, first, clear⟩ := Replies.clears_iff.1 clears
      exact halts group policy others (scans.groups.symm.trans first) clear
    rw [if_neg (by simp [scans.safe]), ← Replies.inquiries_concat]
    refine .visiting scans.number ?_ ?_
    · rw [scans.split, List.append_assoc]
      rfl
    · dsimp only
      rw [Replies.report_gated blocked, scans.report]
      rfl
  | cons e past =>
    rw [if_pos (by simp [scans.safe])]
    refine .submitting scans.number scans.number scans.split scans.report ?_
    exact Replies.clears_iff.2 ⟨e.1, e.2, past ++ c.left, scans.groups,
      scans.clear e (List.mem_cons_self ..)⟩

end Scans

structure Hears (s : Machine) (stage next : Stage) (told : List Event) (r r' : Replies) : Prop where
  verdict : ∀ m, (∃ policy, next.asks? = some (m, policy)) ∨
    (∃ q, stage.query? = some q ∧ (r'.verdict m).query = q ∧
      Answers s stage q m (some (r'.verdict m))) ∨
    (r'.verdict m = r.verdict m ∧ ∀ policy, stage.asks? ≠ some (m, policy))
  takes : ∀ job, r'.takes job = false → r.takes job = false ∨
    ∃ i, stage.submits? = some i ∧ i.job = job ∧ told = [.refused i]

theorem hears_same {r' : Replies} (same : ∀ m, r'.verdict m = r.verdict m)
    (asks : ∀ m policy, stage.asks? = some (m, policy) → next.asks? = some (m, policy))
    (m : Member) : (∃ policy, next.asks? = some (m, policy)) ∨
      (∃ q, stage.query? = some q ∧ (r'.verdict m).query = q ∧
        Answers s stage q m (some (r'.verdict m))) ∨
      (r'.verdict m = r.verdict m ∧ ∀ policy, stage.asks? ≠ some (m, policy)) := by
  by_cases open_ : ∃ policy, stage.asks? = some (m, policy)
  · obtain ⟨policy, eq⟩ := open_
    exact .inl ⟨policy, asks m policy eq⟩
  · exact .inr (.inr ⟨same m, fun policy eq => open_ ⟨policy, eq⟩⟩)

theorem hears_nothing
    (asks : ∀ m policy, stage.asks? = some (m, policy) → next.asks? = some (m, policy)) :
    Hears s stage next told r r :=
  ⟨hears_same (fun _ => rfl) asks, fun _ => .inl⟩

theorem asks_of_none (none : stage.asks? = none) (m : Member) (policy : Policy)
    (asks : stage.asks? = some (m, policy)) : next.asks? = some (m, policy) :=
  nomatch none.symm.trans asks

theorem hears_answer (first : c.left = (group, policy) :: left)
    (settled : (∃ policy, next.asks? = some ((c.job, group), policy)) ∨ v.query = q ∧
      s.scenario.reply q (c.job, group) policy.cooldown s.clock = some v) :
    Hears s (.answering q p c) next told r (r.hear (c.job, group) v) := by
  have asks : (Stage.answering q p c).asks? = some ((c.job, group), policy) := by
    simp [Stage.asks?, first]
  refine ⟨fun m => ?_, fun _ => .inl⟩
  by_cases own : m = (c.job, group)
  · subst own
    rw [Replies.verdict_hear_self]
    refine settled.imp_right fun ⟨own, reply⟩ => .inl ⟨q, rfl, own, p, c, policy, rfl, asks, reply⟩
  · refine .inr (.inr ⟨Replies.verdict_hear_of_ne own, fun policy' eq => ?_⟩)
    rw [asks] at eq
    cases eq
    exact absurd rfl own

theorem Scans.block (scans : Scans r n entries done past p c)
    (nodup : (entries.map (·.1)).Nodup) (first : c.left = (group, policy) :: left)
    (blocked : v ≠ .clear) :
    Stands (r.hear (c.job, group) v) n entries (p.decide c)
      (scanned r done past c.job ++ Replies.upTo c.job (group, policy) v.query) := by
  obtain ⟨scans, same⟩ := scans.hear nodup first v
  have blocked : (r.hear (c.job, group) v).verdict (c.job, group) ≠ .clear := by
    rwa [Replies.verdict_hear_self]
  have asked := Replies.questions_of_blocked policy left blocked
  rw [← first, Replies.verdict_hear_self] at asked
  rw [← same, ← asked]
  refine scans.decide fun g q l eq => ?_
  rw [first] at eq
  cases eq
  exact blocked

theorem Leads.stands_answering (leads : Leads s (.answering q p c) turn told)
    (goesOn : turn.next? = some next) (nodup : (entries.map (·.1)).Nodup)
    (scans : Scans r n entries done past p c) (first : c.left = (group, policy) :: left) :
    ∃ r', Hears s (.answering q p c) next told r r' ∧ Stands r' n entries next
      (scanned r done past c.job ++ Replies.upTo c.job (group, policy) q ++
        told.filter (·.inquires)) := by
  cases leads with
  | through none =>
    rw [none] at first
    cases first
  | objects first' objects =>
    cases goesOn
    cases first'.symm.trans first
    obtain ⟨v, reply, blocked, rfl⟩ := Scenario.exists_reply_of_objects objects
    refine ⟨_, hears_answer first (.inr ⟨rfl, reply⟩), ?_⟩
    simpa using scans.block nodup first blocked
  | steady first' steady =>
    cases goesOn
    cases first'.symm.trans first
    -- Until the other reply comes the group counts as clear.
    refine ⟨r.hear (c.job, group) .clear, hears_answer first (.inl ⟨policy, ?_⟩), ?_⟩
    · simp [Stage.asks?, first]
    · obtain ⟨scans, same⟩ := scans.hear nodup first .clear
      have stands := Stands.following scans first (by simp)
      rw [same] at stands
      simpa [Replies.upTo] using stands
  | clear first' cool =>
    cases goesOn
    cases first'.symm.trans first
    refine ⟨_, hears_answer first (.inr ⟨rfl, Scenario.reply_of_cool cool⟩), ?_⟩
    obtain ⟨scans, same⟩ := scans.hear nodup first .clear
    have stands := Stands.checking (scans.step first Replies.verdict_hear_self)
    rw [scanned, List.flatMap_append, ← List.append_assoc, ← scanned, same] at stands
    simpa [Replies.upTo] using stands

theorem Stands.settle {i : WorkItem} {entered : Bool} (nodup : (entries.map (·.1)).Nodup)
    (stands : Stands r n entries (.submitting p i entered) asked) (b : Bool)
    {p' : Pass} (number : p'.number = p.number) (rest : p'.rest = p.rest)
    (report : p'.report =
      { p.report with submitted := p.report.submitted ++ if b then [i.job] else [] }) :
    Stands (r.settle i.job b) n entries (.visiting p') asked := by
  cases stands with | @submitting _ _ _ done number' _ split report' clears =>
  have fresh := fresh_of_split nodup split
  rw [← Replies.inquiries_concat, ← Replies.inquiries_settle (b := b) i.job]
  refine .visiting (number.trans number') ?_ ?_
  · rw [split, rest, List.append_assoc]
    rfl
  · rw [Replies.report_settled fresh clears, report, report']
    rfl

theorem Leads.stands (leads : Leads s stage turn told) (goesOn : turn.next? = some next)
    (nodup : (entries.map (·.1)).Nodup) (stands : Stands r n entries stage asked) :
    ∃ r', Hears s stage next told r r' ∧
      Stands r' n entries next (asked ++ told.filter (·.inquires)) := by
  cases stands with
  | visiting number split report =>
    cases leads with
    | finish => cases goesOn
    | visit first =>
      cases goesOn
      refine ⟨r, hears_nothing (asks_of_none rfl), @Stands.checking _ _ _ _ [] _ _ ?_⟩
      exact ⟨number, first ▸ split, congrArg Report.visit report, rfl, List.forall_mem_nil _, rfl⟩
  | checking scans =>
    refine ⟨r, hears_nothing (asks_of_none rfl), ?_⟩
    cases leads with
    | pass none =>
      cases goesOn
      have decides := scans.decide fun group policy left eq => nomatch none.symm.trans eq
      rwa [none] at decides
    | ask first =>
      cases goesOn
      exact .answering scans first nofun
    | hold first =>
      cases goesOn
      exact .held scans first nofun
  | @following done past p c group policy left scans first steady =>
    have asked : scanned r done past c.job ++ [.askedDeploying c.job group] ++
        [Query.cooldown.asked c.job group policy.cooldown].filter (·.inquires) =
          scanned r done past c.job ++ Replies.upTo c.job (group, policy) .cooldown :=
      List.append_assoc ..
    cases leads with
    | pass none => cases none.symm.trans first
    | ask first' =>
      cases goesOn
      cases first'.symm.trans first
      exact ⟨r, hears_nothing fun _ _ => id, asked ▸ .answering scans first fun _ => steady⟩
    | hold first' =>
      cases goesOn
      cases first'.symm.trans first
      exact ⟨r, hears_nothing fun _ _ => id, asked ▸ .held scans first fun _ => steady⟩
  | held scans first passed =>
    cases leads with | keep =>
    cases goesOn
    exact ⟨r, hears_nothing fun _ _ => id, (List.append_nil _).symm ▸ .held scans first passed⟩
  | answering scans first => exact leads.stands_answering goesOn nodup scans first
  | @submitting done p i entered number item split report clears =>
    have stands : Stands r n entries (.submitting p i entered) _ :=
      .submitting number item split report clears
    cases leads with
    | submit | wait =>
      cases goesOn
      refine ⟨r, hears_nothing (asks_of_none rfl), ?_⟩
      exact (List.append_nil _).symm ▸ .submitting number item split report clears
    | accept =>
      cases goesOn
      refine ⟨r.settle i.job true, ⟨hears_same (fun _ => rfl) (asks_of_none rfl), ?_⟩, ?_⟩
      · refine fun job no => .inl ?_
        by_cases own : job = i.job
        · subst own
          simp at no
        · rwa [Replies.takes_settle_of_ne own] at no
      · exact (List.append_nil _).symm ▸ stands.settle nodup true rfl rfl rfl
    | refuse =>
      cases goesOn
      refine ⟨r.settle i.job false,
        ⟨hears_same (fun _ => rfl) (asks_of_none rfl), fun job no => ?_⟩, ?_⟩
      · by_cases own : job = i.job
        · exact .inr ⟨i, rfl, own.symm, rfl⟩
        · rw [Replies.takes_settle_of_ne own] at no
          exact .inl no
      · exact (List.append_nil _).symm ▸ stands.settle nodup false rfl rfl (by simp)

theorem asks?_freeStage (stage : Stage) : (Machine.freeStage stage).asks? = stage.asks? := by
  cases stage <;> rfl

theorem query?_freeStage (stage : Stage) : (Machine.freeStage stage).query? = stage.query? := by
  cases stage <;> rfl

theorem Stands.freeStage (stands : Stands r n entries stage asked) :
    Stands r n entries (Machine.freeStage stage) asked := by
  cases stands with
  | held scans first passed => exact .answering scans first passed
  | visiting number split report => exact .visiting number split report
  | checking scans => exact .checking scans
  | following scans first steady => exact .following scans first steady
  | answering scans first passed => exact .answering scans first passed
  | submitting number item split report clears =>
    exact .submitting number item split report clears

theorem Stands.exists_later (stands : Stands r n entries stage asked) :
    ∃ later, asked ++ later = r.inquiries entries := by
  have scans {done : List (String × JobPolicies)} {past : List (String × Policy)} {p : Pass}
      {c : Check} {told more : List Event}
      (scans : Scans r n entries done past p c) (eq : r.questions c.job c.left = told ++ more) :
      ∃ later, scanned r done past c.job ++ told ++ later = r.inquiries entries := by
    refine ⟨more ++ r.inquiries p.rest, ?_⟩
    rw [scans.split, Replies.inquiries_append, Replies.inquiries_cons, scans.groups,
      Replies.questions_append scans.clear, eq]
    simp [scanned]
  cases stands with
  | @visiting _ p _ split => exact ⟨r.inquiries p.rest, by rw [split, Replies.inquiries_append]⟩
  | checking it =>
    obtain ⟨later, eq⟩ := scans it (List.nil_append _).symm
    exact ⟨later, by rwa [List.append_nil] at eq⟩
  | @following _ _ _ _ group policy left it first steady =>
    obtain ⟨more, eq⟩ := Replies.exists_questions_cons (q := .deployment) policy left nofun
    exact scans it ((congrArg _ first).trans eq)
  | @held _ _ _ _ group policy left _ it first passed
  | @answering _ _ _ _ group policy left _ it first passed =>
    obtain ⟨more, eq⟩ := Replies.exists_questions_cons policy left passed
    exact scans it ((congrArg _ first).trans eq)
  | @submitting _ p _ _ _ _ split =>
    refine ⟨r.inquiries p.rest, ?_⟩
    rw [split, Replies.inquiries_append, Replies.inquiries_cons, List.append_assoc]

theorem Stands.item {i : WorkItem} {entered : Bool}
    (stands : Stands r n entries (.submitting p i entered) asked) :
    i.pass = n ∧ (i.job, i.policies) ∈ entries := by
  cases stands with | submitting _ item split =>
  exact ⟨item, by simp [split]⟩

theorem Leads.submitted_cases {u : Pass} {job : String} (leads : Leads s stage turn told)
    (goesOn : turn.next? = some next) (pass : next.pass? = some u)
    (mem : job ∈ u.report.submitted) :
    (∃ p, stage.pass? = some p ∧ job ∈ p.report.submitted) ∨
      ∃ p i entered, stage = .submitting p i entered ∧ i.job = job ∧ told = [.accepted i] := by
  have decides {p : Pass} {c : Check} (pass : (p.decide c).pass? = some u) :
      job ∈ p.report.submitted := by
    unfold Pass.decide at pass
    split at pass <;> cases pass <;> exact mem
  cases leads with
  | skip | fail | lack | finish => cases goesOn
  | read =>
    cases goesOn
    cases pass
    cases mem
  | pass | through | objects =>
    cases goesOn
    exact .inl ⟨_, rfl, decides pass⟩
  | accept =>
    cases goesOn
    cases pass
    rcases List.mem_append.1 mem with old | new
    · exact .inl ⟨_, rfl, old⟩
    · exact .inr ⟨_, _, _, rfl, (List.mem_singleton.1 new).symm, rfl⟩
  | _ =>
    cases goesOn
    cases pass
    exact .inl ⟨_, rfl, mem⟩

def Stage.evaluated (stage : Stage) : Nat :=
  (stage.pass?.map (·.report.jobsEvaluated)).getD 0

theorem Leads.evaluated_le (leads : Leads s stage turn told) (goesOn : turn.next? = some next) :
    stage.evaluated ≤ next.evaluated := by
  have decides (p : Pass) (c : Check) : p.report.jobsEvaluated ≤ (p.decide c).evaluated := by
    unfold Pass.decide
    split <;> exact Nat.le_refl _
  cases leads with
  | skip | fail | lack | finish => cases goesOn
  | read =>
    cases goesOn
    exact Nat.zero_le _
  | visit =>
    cases goesOn
    exact Nat.le_succ _
  | pass | through | objects =>
    cases goesOn
    exact decides _ _
  | _ =>
    cases goesOn
    exact Nat.le_refl _

theorem Leads.asks {job group : String} (leads : Leads s stage turn told)
    (goesOn : turn.next? = some next) (mem : .askedDeploying job group ∈ told) :
    ∃ policy, next.asks? = some ((job, group), policy) := by
  cases leads with
  | @ask _ policy _ q _ _ first | @hold _ policy _ q _ _ first =>
    cases goesOn
    cases q <;> cases List.mem_singleton.1 mem
    exact ⟨policy, by simp [Stage.asks?, first]⟩
  | _ => simp at mem

theorem Leads.passed {k : Member} (leads : Leads s stage turn told)
    (goesOn : turn.next? = some next) (query : next.query? = some .cooldown)
    (asks : next.asks? = some (k, policy)) :
    (stage.query? = some .cooldown ∧ stage.asks? = some (k, policy)) ∨
      Answers s stage .deployment k none := by
  have decides {p : Pass} {c : Check} : (p.decide c).query? = none := by
    unfold Pass.decide
    split <;> rfl
  cases leads with
  | skip | fail | lack | finish => cases goesOn
  | pass | through | objects =>
    cases goesOn
    rw [decides] at query
    cases query
  | ask | hold =>
    cases goesOn
    cases query
    exact .inl ⟨rfl, asks⟩
  | keep =>
    cases goesOn
    exact .inl ⟨query, asks⟩
  | @steady group policy _ p c first steady =>
    cases goesOn
    simp only [Stage.asks?, first, List.head?_cons, Option.map_some, Option.some.injEq,
      Prod.mk.injEq] at asks
    obtain ⟨rfl, rfl⟩ := asks
    exact .inr ⟨p, c, policy, rfl, by simp [Stage.asks?, first], Scenario.reply_of_steady steady⟩
  | _ =>
    cases goesOn
    cases query

end Pass

end Autoscaling
