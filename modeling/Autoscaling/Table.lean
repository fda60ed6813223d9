namespace Autoscaling

/-- Finite maps whose entries stand in no particular order. -/
structure Table (κ : Type u) (α : Type v) where
  entries : List (κ × α)
  nodup_keys : (entries.map (·.1)).Nodup
deriving DecidableEq

namespace Table

variable {κ : Type u} {α : Type v} [DecidableEq κ]

def empty : Table κ α := ⟨[], .nil⟩

instance : EmptyCollection (Table κ α) := ⟨empty⟩

def get? (t : Table κ α) (k : κ) : Option α := (t.entries.find? (·.1 = k)).map (·.2)

def retain (t : Table κ α) (keep : κ → Bool) : Table κ α where
  entries := t.entries.filter (keep ·.1)
  nodup_keys := t.nodup_keys.sublist (List.filter_sublist.map _)

def insert (t : Table κ α) (k : κ) (v : α) : Table κ α where
  entries := (k, v) :: (t.retain (· ≠ k)).entries
  nodup_keys := by
    refine List.nodup_cons.2 ⟨fun mem => ?_, (t.retain (· ≠ k)).nodup_keys⟩
    obtain ⟨e, mem, eq⟩ := List.mem_map.1 mem
    exact of_decide_eq_true (List.mem_filter.1 mem).2 eq

theorem get?_eq_some_iff {t : Table κ α} {k : κ} {v : α} :
    t.get? k = some v ↔ (k, v) ∈ t.entries := by
  obtain ⟨entries, nodup⟩ := t
  simp only [get?]
  induction entries with
  | nil => simp
  | cons e entries ih =>
    obtain ⟨first, later⟩ := List.nodup_cons.1 nodup
    obtain ⟨k', v'⟩ := e
    by_cases own : k' = k
    · subst own
      have other : (k', v) ∉ entries := fun mem => first (List.mem_map.2 ⟨_, mem, rfl⟩)
      simp [other, eq_comm]
    · simp [own, Ne.symm own, ih later]

@[simp] theorem get?_empty (k : κ) : (∅ : Table κ α).get? k = none := rfl

@[simp] theorem get?_retain (t : Table κ α) (keep : κ → Bool) (k : κ) :
    (t.retain keep).get? k = if keep k then t.get? k else none := by
  refine Option.ext fun v => ?_
  rw [get?_eq_some_iff, retain, List.mem_filter, ← get?_eq_some_iff]
  by_cases kept : keep k = true <;> simp [kept]

@[simp] theorem get?_insert (t : Table κ α) (k k' : κ) (v : α) :
    (t.insert k v).get? k' = if k' = k then some v else t.get? k' := by
  refine Option.ext fun v' => ?_
  rw [get?_eq_some_iff, insert, List.mem_cons, ← get?_eq_some_iff, get?_retain]
  by_cases own : k' = k
  · simp [own, eq_comm]
  · simp [own]

end Table

end Autoscaling
