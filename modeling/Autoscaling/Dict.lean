/-!
Finite maps from names, their entries in ascending order of names. Names are ordered by code points,
which is the order of their UTF-8 bytes. Maps that answer every look-up alike are equal.
-/

namespace Autoscaling

structure Dict (α : Type u) where
  entries : List (String × α)
  ascending : entries.Pairwise (·.1 < ·.1)
deriving DecidableEq

namespace Dict

def empty : Dict α := ⟨[], .nil⟩

instance : EmptyCollection (Dict α) := ⟨empty⟩

instance : Inhabited (Dict α) := ⟨empty⟩

def isEmpty (d : Dict α) : Bool := d.entries.isEmpty

def size (d : Dict α) : Nat := d.entries.length

def keys (d : Dict α) : List String := d.entries.map (·.1)

def findEntry (k : String) : List (String × α) → Option α
  | [] => none
  | (k', v) :: rest => if k = k' then some v else findEntry k rest

def get? (d : Dict α) (k : String) : Option α := findEntry k d.entries

def insertEntry (k : String) (v : α) : List (String × α) → List (String × α)
  | [] => [(k, v)]
  | (k', v') :: rest =>
    if k < k' then (k, v) :: (k', v') :: rest
    else if k = k' then (k, v) :: rest
    else (k', v') :: insertEntry k v rest

theorem mem_insertEntry {k : String} {v : α} {e : String × α} {l : List (String × α)}
    (h : e ∈ insertEntry k v l) : e = (k, v) ∨ e ∈ l := by
  induction l with
  | nil => simpa [insertEntry] using h
  | cons e' rest ih =>
    simp only [insertEntry] at h
    split at h
    · simpa using h
    · split at h
      · rcases List.mem_cons.1 h with rfl | h
        · exact .inl rfl
        · exact .inr (List.mem_cons_of_mem _ h)
      · rcases List.mem_cons.1 h with rfl | h
        · exact .inr List.mem_cons_self
        · exact (ih h).imp_right (List.mem_cons_of_mem _)

theorem lt_of_not_lt_of_ne {a b : String} (h : ¬ a < b) (ne : a ≠ b) : b < a :=
  Classical.byContradiction fun h' =>
    ne (String.le_antisymm (String.not_lt.1 h') (String.not_lt.1 h))

theorem ascending_insertEntry (k : String) (v : α) {l : List (String × α)}
    (h : l.Pairwise (·.1 < ·.1)) : (insertEntry k v l).Pairwise (·.1 < ·.1) := by
  induction l with
  | nil => simp [insertEntry]
  | cons e rest ih =>
    obtain ⟨first, later⟩ := List.pairwise_cons.1 h
    simp only [insertEntry]
    split
    · next lt =>
      refine List.pairwise_cons.2 ⟨fun e' he' => ?_, h⟩
      rcases List.mem_cons.1 he' with rfl | he'
      · exact lt
      · exact String.lt_trans lt (first e' he')
    · next ge =>
      split
      · next eq => exact List.pairwise_cons.2 ⟨fun e' he' => eq ▸ first e' he', later⟩
      · next ne =>
        refine List.pairwise_cons.2 ⟨fun e' he' => ?_, ih later⟩
        rcases mem_insertEntry he' with rfl | he'
        · exact lt_of_not_lt_of_ne ge ne
        · exact first e' he'

def insert (d : Dict α) (k : String) (v : α) : Dict α :=
  ⟨insertEntry k v d.entries, ascending_insertEntry k v d.ascending⟩

def erase (d : Dict α) (k : String) : Dict α :=
  ⟨d.entries.filter (·.1 != k), d.ascending.filter _⟩

def ofList (l : List (String × α)) : Dict α :=
  l.foldl (fun d (k, v) => d.insert k v) ∅

def map (f : α → β) (d : Dict α) : Dict β :=
  ⟨d.entries.map fun (k, v) => (k, f v), List.pairwise_map.2 d.ascending⟩

/-- Reads every value, in ascending order of names; the first problem ends the reading. -/
def readAll (f : α → Except ε β) (d : Dict α) : Except ε (Dict β) := do
  return ofList (← d.entries.mapM fun (k, v) => do return (k, ← f v))

theorem findEntry_insertEntry (k k' : String) (v : α) (l : List (String × α)) :
    findEntry k' (insertEntry k v l) = if k' = k then some v else findEntry k' l := by
  induction l with
  | nil => rfl
  | cons e rest ih =>
    obtain ⟨k'', v''⟩ := e
    simp only [insertEntry]
    split
    · rfl
    · split
      · next eq =>
        subst eq
        by_cases h : k' = k <;> simp [findEntry, h]
      · next ne =>
        by_cases h : k' = k''
        · have : k' ≠ k := fun h' => ne (h'.symm.trans h)
          simp [findEntry, h, Ne.symm ne]
        · simp [findEntry, h, ih]

@[simp] theorem get?_empty (k : String) : (∅ : Dict α).get? k = none := rfl

@[simp] theorem get?_insert (d : Dict α) (k k' : String) (v : α) :
    (d.insert k v).get? k' = if k' = k then some v else d.get? k' :=
  findEntry_insertEntry ..

theorem findEntry_filter_ne (k k' : String) (l : List (String × α)) :
    findEntry k' (l.filter (·.1 != k)) = if k' = k then none else findEntry k' l := by
  induction l with
  | nil => simp [findEntry]
  | cons e rest ih =>
    obtain ⟨k'', v''⟩ := e
    by_cases h : k'' = k
    · by_cases h' : k' = k <;> simp_all [findEntry]
    · by_cases h' : k' = k'' <;> simp_all [findEntry]

@[simp] theorem get?_erase (d : Dict α) (k k' : String) :
    (d.erase k).get? k' = if k' = k then none else d.get? k' :=
  findEntry_filter_ne ..

theorem findEntry_eq_some_iff {k : String} {v : α} {l : List (String × α)}
    (h : l.Pairwise (·.1 < ·.1)) : findEntry k l = some v ↔ (k, v) ∈ l := by
  induction l with
  | nil => simp [findEntry]
  | cons e rest ih =>
    obtain ⟨first, later⟩ := List.pairwise_cons.1 h
    obtain ⟨k', v'⟩ := e
    by_cases hk : k = k'
    · subst hk
      have : (k, v) ∉ rest := fun hm => String.lt_irrefl k (first (k, v) hm)
      simp [findEntry, this, eq_comm]
    · simp [findEntry, ih later, hk]

theorem get?_eq_some_iff {d : Dict α} {k : String} {v : α} :
    d.get? k = some v ↔ (k, v) ∈ d.entries :=
  findEntry_eq_some_iff d.ascending

theorem nodup_keys (d : Dict α) : d.keys.Nodup :=
  (List.pairwise_map.2 d.ascending).imp String.ne_of_lt

@[simp] theorem length_keys (d : Dict α) : d.keys.length = d.size := List.length_map ..

theorem mem_keys_iff {d : Dict α} {k : String} : k ∈ d.keys ↔ (d.get? k).isSome = true := by
  simp only [keys, List.mem_map, Option.isSome_iff_exists, get?_eq_some_iff]
  constructor
  · rintro ⟨⟨_, v⟩, mem, rfl⟩
    exact ⟨v, mem⟩
  · rintro ⟨v, mem⟩
    exact ⟨(k, v), mem, rfl⟩

theorem ext_get? {d e : Dict α} (h : ∀ k, d.get? k = e.get? k) : d = e := by
  have nodup (d : Dict α) : d.entries.Nodup :=
    d.ascending.imp fun lt eq => String.ne_of_lt lt (congrArg _ eq)
  have perm : d.entries.Perm e.entries :=
    (List.perm_ext_iff_of_nodup (nodup d) (nodup e)).2 fun (k, v) => by
      rw [← get?_eq_some_iff, ← get?_eq_some_iff, h]
  have same : d.entries = e.entries :=
    perm.eq_of_pairwise (fun _ _ _ _ lt gt => absurd (String.lt_trans lt gt) (String.lt_irrefl _))
      d.ascending e.ascending
  cases d
  cases e
  cases same
  rfl

theorem insert_insert (d : Dict α) (k : String) (v v' : α) :
    (d.insert k v).insert k v' = d.insert k v' :=
  ext_get? fun j => by
    by_cases h : j = k <;> simp [h]

theorem insert_comm (d : Dict α) (ne : k ≠ k') (v v' : α) :
    (d.insert k v).insert k' v' = (d.insert k' v').insert k v :=
  ext_get? fun j => by
    by_cases h : j = k
    · simp [h, ne]
    · simp [h]

theorem erase_comm (d : Dict α) (k k' : String) : (d.erase k).erase k' = (d.erase k').erase k :=
  ext_get? fun j => by
    by_cases h : j = k <;> simp [h]

theorem erase_erase (d : Dict α) (k : String) : (d.erase k).erase k = d.erase k :=
  ext_get? fun j => by
    by_cases h : j = k <;> simp [h]

theorem erase_insert_of_ne (d : Dict α) (ne : k ≠ k') (v : α) :
    (d.insert k v).erase k' = (d.erase k').insert k v :=
  ext_get? fun j => by
    by_cases h : j = k
    · simp [h, ne]
    · simp [h]

@[simp] theorem erase_empty (k : String) : (∅ : Dict α).erase k = ∅ :=
  ext_get? fun j => by simp

end Dict

end Autoscaling
