import Autoscaling.Proofs.Recorder.Tallies
import Autoscaling.Proofs.Text.Order

namespace Autoscaling.Recorder

inductive Act
  | record (c : Call)
  | stats (name : String)
  | snapshot

structure Request where
  handle : Nat := 0
  act : Act

inductive Reply
  | done
  | stats (t : Option OperationTiming)
  | snapshot (timings : List OperationTiming)
deriving DecidableEq

def perform (r : Recorder) (q : Request) : Recorder × Reply :=
  match q.act with
  | .record c => (r.record c.key c.elapsed, .done)
  | .stats name => (r, .stats (r.stats name))
  | .snapshot => (r, .snapshot r.snapshot)

def run : Recorder → List Request → Recorder × List Reply
  | r, [] => (r, [])
  | r, q :: rest =>
    let (r, reply) := r.perform q
    let (last, replies) := r.run rest
    (last, reply :: replies)

def Act.call? : Act → Option Call
  | .record c => some c
  | _ => none

def recorded (requests : List Request) : List Call := requests.filterMap (·.act.call?)

theorem run_eq_recordAll (r : Recorder) (requests : List Request) :
    (r.run requests).1 = r.recordAll (recorded requests) := by
  induction requests generalizing r with
  | nil => rfl
  | cons q rest ih =>
    simp only [run, ih]
    unfold perform recorded
    cases act : q.act <;> simp [act, Act.call?, recordAll]

structure Sums (times : List Duration) (t : OperationTiming) : Prop where
  count : t.count.toNat = times.length % 2 ^ 64
  total : t.total.nanos = spent times % 2 ^ 64
  le_max : ∀ d ∈ times, clipped d ≤ t.max.nanos
  exists_max : ∃ d ∈ times, clipped d = t.max.nanos

variable {calls calls' : List Call} {times times' : List Duration} {t t' : OperationTiming}
  {timings timings' : List OperationTiming} {r : Recorder} {d : Duration}

theorem le_longest (mem : d ∈ times) : clipped d ≤ longest times := by
  induction times with
  | nil => cases mem
  | cons e times ih =>
    rcases List.mem_cons.1 mem with rfl | mem
    · exact Nat.le_max_left ..
    · exact Nat.le_trans (ih mem) (Nat.le_max_right ..)

theorem exists_longest (some : times ≠ []) : ∃ d ∈ times, clipped d = longest times := by
  induction times with
  | nil => exact absurd rfl some
  | cons e times ih =>
    rcases Nat.le_total (longest times) (clipped e) with first | later
    · exact ⟨e, List.mem_cons_self, (Nat.max_eq_left first).symm⟩
    · have eq : longest (e :: times) = longest times := Nat.max_eq_right later
      cases times with
      | nil =>
        have none : longest [e] ≤ clipped e := eq ▸ Nat.zero_le _
        exact ⟨e, List.mem_cons_self, Nat.le_antisymm (le_longest List.mem_cons_self) none⟩
      | cons e' times =>
        obtain ⟨d, mem, most⟩ := ih (List.cons_ne_nil e' times)
        exact ⟨d, List.mem_cons_of_mem _ mem, most.trans eq.symm⟩

theorem sums_tallyOf (some : times ≠ []) (name : String) :
    Sums times (timing name (tallyOf times)) := by
  have max : (timing name (tallyOf times)).max.nanos = longest times := max_tallyOf times
  constructor
  case count => exact count_tallyOf times
  case total => exact total_tallyOf times
  case le_max => exact fun d mem => max ▸ le_longest mem
  case exists_max => exact max ▸ exists_longest some

theorem Sums.unique (sums : Sums times t) (sums' : Sums times' t') (perm : times.Perm times')
    (same : t.operation = t'.operation) : t = t' := by
  have count : t.count = t'.count := UInt64.toNat_inj.1 <| by
    rw [sums.count, sums'.count, perm.length_eq]
  have total : t.total = t'.total := Duration.ext <| by
    rw [sums.total, sums'.total, spent, spent, (perm.map clipped).sum_nat]
  have max : t.max = t'.max := by
    obtain ⟨d, mem, eq⟩ := sums.exists_max
    obtain ⟨d', mem', eq'⟩ := sums'.exists_max
    have le := sums'.le_max d (perm.mem_iff.1 mem)
    have le' := sums.le_max d' (perm.mem_iff.2 mem')
    exact Duration.ext (by omega)
  cases t
  cases t'
  simp_all

def pairs (calls : List Call) : List (String × Duration) :=
  calls.map fun c => (operation c.key, c.elapsed)

structure Shows (calls : List Call) (timings : List OperationTiming) : Prop where
  ascending : timings.Pairwise fun t t' => Text.bytes t.operation < Text.bytes t'.operation
  operations : ∀ name, (∃ t ∈ timings, t.operation = name) ↔ ∃ c ∈ calls, operation c.key = name
  sums : ∀ t ∈ timings, Sums (timesOf calls t.operation) t

theorem timesOf_eq (calls : List Call) (name : String) :
    timesOf calls name = ((pairs calls).filter (·.1 = name)).map (·.2) := by
  simp [timesOf, pairs, List.filter_map, Function.comp_def]

theorem timesOf_perm (perm : (pairs calls).Perm (pairs calls')) (name : String) :
    (timesOf calls name).Perm (timesOf calls' name) := by
  rw [timesOf_eq, timesOf_eq]
  exact (perm.filter _).map _

theorem timesOf_ne_nil_iff {name : String} :
    timesOf calls name ≠ [] ↔ ∃ c ∈ calls, operation c.key = name := by
  simp [timesOf]

theorem ascending_snapshot (r : Recorder) :
    r.snapshot.Pairwise fun t t' => t.operation < t'.operation := by
  have sorted : r.snapshot.Pairwise fun t t' => t.operation ≤ t'.operation :=
    (List.pairwise_mergeSort (fun _ _ _ le le' => by
      simp only [decide_eq_true_eq] at *
      exact String.le_trans le le') (fun _ _ => by
      simpa using String.le_total ..) _).imp of_decide_eq_true
  have apart : (r.snapshot.map (·.operation)).Nodup := by
    rw [snapshot, ((List.mergeSort_perm _ _).map _).nodup_iff, List.map_map]
    exact r.nodup_keys
  exact (sorted.and (List.pairwise_map.1 apart)).imp fun both =>
    Dict.lt_of_not_lt_of_ne (String.not_lt.2 both.1) (Ne.symm both.2)

theorem shows_snapshot (calls : List Call) : Shows calls (empty.recordAll calls).snapshot := by
  constructor
  case ascending => exact (ascending_snapshot _).imp Text.bytes_lt
  case operations =>
    intro name
    rw [← timesOf_ne_nil_iff]
    constructor
    · rintro ⟨t, mem, rfl⟩
      exact (mem_snapshot_recordAll.1 mem).1
    · exact fun some => ⟨_, timing_mem_snapshot some, rfl⟩
  case sums =>
    intro t mem
    obtain ⟨some, eq⟩ := mem_snapshot_recordAll.1 mem
    have sums := sums_tallyOf some t.operation
    rwa [← eq] at sums

theorem Shows.mem (shows : Shows calls timings) (shows' : Shows calls' timings')
    (perm : (pairs calls).Perm (pairs calls')) (mem : t ∈ timings) : t ∈ timings' := by
  have times := timesOf_perm perm t.operation
  have some : timesOf calls t.operation ≠ [] :=
    timesOf_ne_nil_iff.2 ((shows.operations _).1 ⟨t, mem, rfl⟩)
  have some' : timesOf calls' t.operation ≠ [] := fun none => some (none ▸ times).eq_nil
  obtain ⟨t', mem', same⟩ := (shows'.operations _).2 (timesOf_ne_nil_iff.1 some')
  have sums' := shows'.sums t' mem'
  rw [same] at sums'
  rwa [(shows.sums t mem).unique sums' times same.symm]

theorem Shows.nodup (shows : Shows calls timings) : timings.Nodup := by
  refine shows.ascending.imp ?_
  rintro t _ less rfl
  exact List.lt_irrefl _ less

theorem Shows.unique (shows : Shows calls timings) (shows' : Shows calls' timings')
    (perm : (pairs calls).Perm (pairs calls')) : timings = timings' := by
  have same : timings.Perm timings' :=
    (List.perm_ext_iff_of_nodup shows.nodup shows'.nodup).2 fun _ =>
      ⟨shows.mem shows' perm, shows'.mem shows perm.symm⟩
  exact same.eq_of_pairwise (fun _ _ _ _ lt gt => absurd gt (List.lt_asymm lt)) shows.ascending
    shows'.ascending

theorem stats_eq_find? (r : Recorder) (name : String) :
    r.stats name = r.snapshot.find? (·.operation = name) := by
  cases found : r.get? name with
  | none =>
    rw [stats, found]
    refine (List.find?_eq_none.2 fun t mem own => ?_).symm
    obtain ⟨tally, known, _⟩ := mem_snapshot_iff.1 mem
    rw [of_decide_eq_true own, found] at known
    cases known
  | some tally =>
    have mem : timing name tally ∈ r.snapshot := mem_snapshot_iff.2 ⟨tally, found, rfl⟩
    rw [stats, found]
    cases first : r.snapshot.find? (·.operation = name) with
    | none => exact absurd (decide_eq_true rfl) (List.find?_eq_none.1 first _ mem)
    | some t =>
      have own : t.operation = name := by simpa using List.find?_some first
      obtain ⟨tally', known, eq⟩ := mem_snapshot_iff.1 (List.mem_of_find?_eq_some first)
      rw [own] at known eq
      cases found.symm.trans known
      exact congrArg some eq.symm

/-- What a recorder answers through any handle after requests through any handles. -/
structure Faithful (requests : List Request) (r : Recorder) : Prop where
  shows : ∀ handle, ∃ timings, (r.perform ⟨handle, .snapshot⟩).2 = .snapshot timings ∧
    Shows (recorded requests) timings ∧ ∀ handle' name,
      (r.perform ⟨handle', .stats name⟩).2 = .stats (timings.find? (·.operation = name))
  orderFree : ∀ requests', (pairs (recorded requests)).Perm (pairs (recorded requests')) →
    ∀ handle handle', (r.perform ⟨handle, .snapshot⟩).2 =
      ((empty.run requests').1.perform ⟨handle', .snapshot⟩).2

/-- A recorder shows what was recorded. -/
theorem faithful_run (requests : List Request) : Faithful requests (empty.run requests).1 := by
  rw [run_eq_recordAll]
  have shows := shows_snapshot (recorded requests)
  constructor
  case shows =>
    exact fun _ => ⟨_, rfl, shows, fun _ name => congrArg Reply.stats (stats_eq_find? _ name)⟩
  case orderFree =>
    intro requests' perm _ _
    rw [run_eq_recordAll]
    exact congrArg Reply.snapshot (shows.unique (shows_snapshot _) perm)

end Autoscaling.Recorder
