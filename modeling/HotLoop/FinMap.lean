/-!
# Finite maps

A finite map is a list of pairs in which no key occurs twice. Writing a key moves it to the end, so
the pairs stand in the order of their last writing. Each operation is described through `find?`.
-/

namespace HotLoop

structure FinMap (κ α : Type) where
  entries : List (κ × α)
  nodup_keys : (entries.map Prod.fst).Nodup

namespace FinMap

variable {κ α : Type}

def empty : FinMap κ α := ⟨[], List.nodup_nil⟩

instance : EmptyCollection (FinMap κ α) := ⟨empty⟩

instance : Inhabited (FinMap κ α) := ⟨empty⟩

def keys (m : FinMap κ α) : List κ := m.entries.map Prod.fst

def values (m : FinMap κ α) : List α := m.entries.map Prod.snd

def size (m : FinMap κ α) : Nat := m.entries.length

/-- Keeps the pairs whose key passes `p`. -/
def filterKeys (m : FinMap κ α) (p : κ → Bool) : FinMap κ α where
  entries := m.entries.filter fun e => p e.1
  nodup_keys := m.nodup_keys.sublist (List.filter_sublist.map _)

theorem size_eq_length_keys (m : FinMap κ α) : m.size = m.keys.length := by
  rw [keys, List.length_map, size]

variable [DecidableEq κ]

def find? (m : FinMap κ α) (k : κ) : Option α := m.entries.lookup k

def findD (m : FinMap κ α) (k : κ) (a : α) : α := (m.find? k).getD a

def contains (m : FinMap κ α) (k : κ) : Bool := (m.find? k).isSome

def erase (m : FinMap κ α) (k : κ) : FinMap κ α := m.filterKeys fun j => decide (j ≠ k)

theorem not_mem_keys_erase (m : FinMap κ α) (k : κ) : k ∉ (m.erase k).keys := by
  simp [keys, erase, filterKeys]

/-- Writes `a` under `k` and makes it the latest pair. -/
def insert (m : FinMap κ α) (k : κ) (a : α) : FinMap κ α where
  entries := (m.erase k).entries ++ [(k, a)]
  nodup_keys := by
    have hk := not_mem_keys_erase m k
    simp only [List.map_append, List.map_cons, List.map_nil, List.nodup_append]
    refine ⟨(m.erase k).nodup_keys, by simp, ?_⟩
    rintro j hj i hi rfl
    obtain rfl := List.mem_singleton.1 hi
    exact hk hj

/-- Changes the value under `k`, if there is one, and keeps the order of the pairs. -/
def modify (m : FinMap κ α) (k : κ) (f : α → α) : FinMap κ α where
  entries := m.entries.map fun e => (e.1, if e.1 = k then f e.2 else e.2)
  nodup_keys := by
    have h : (fun e : κ × α => ((e.1, if e.1 = k then f e.2 else e.2) : κ × α).1) = Prod.fst := rfl
    rw [List.map_map]
    exact m.nodup_keys

/-! ## Looking up -/

theorem lookup_filter_fst (l : List (κ × α)) (p : κ → Bool) (k : κ) :
    (l.filter fun e => p e.1).lookup k = if p k then l.lookup k else none := by
  induction l with
  | nil => simp
  | cons e l ih =>
    obtain ⟨j, a⟩ := e
    by_cases hj : k = j
    · subst hj
      cases hp : p k <;> simp [hp, ih]
    · have hne : (k == j) = false := beq_false_of_ne hj
      cases hp : p j <;> simp [List.lookup_cons, hp, ih, hne]

@[simp] theorem find?_empty (k : κ) : (empty : FinMap κ α).find? k = none := rfl

@[simp] theorem find?_filterKeys (m : FinMap κ α) (p : κ → Bool) (k : κ) :
    (m.filterKeys p).find? k = if p k then m.find? k else none :=
  lookup_filter_fst m.entries p k

@[simp] theorem find?_erase (m : FinMap κ α) (k j : κ) :
    (m.erase k).find? j = if j = k then none else m.find? j := by
  by_cases h : j = k <;> simp [erase, h]

@[simp] theorem find?_insert (m : FinMap κ α) (k j : κ) (a : α) :
    (m.insert k a).find? j = if j = k then some a else m.find? j := by
  have he := find?_erase m k j
  simp only [find?] at he ⊢
  simp only [insert, List.lookup_append, he]
  by_cases h : j = k
  · simp [h]
  · simp [h, List.lookup_cons, beq_false_of_ne h]

theorem find?_insert_self (m : FinMap κ α) (k : κ) (a : α) : (m.insert k a).find? k = some a :=
  (find?_insert m k k a).trans (if_pos rfl)

theorem find?_insert_of_ne {m : FinMap κ α} {j k : κ} (h : j ≠ k) (a : α) :
    (m.insert k a).find? j = m.find? j := by
  rw [find?_insert, if_neg h]

theorem find?_erase_of_ne {m : FinMap κ α} {j k : κ} (h : j ≠ k) :
    (m.erase k).find? j = m.find? j := by
  rw [find?_erase, if_neg h]

theorem find?_insert_congr {m m' : FinMap κ α} {j : κ} (h : m.find? j = m'.find? j) (k : κ)
    (a : α) : (m.insert k a).find? j = (m'.insert k a).find? j := by
  rw [find?_insert, find?_insert, h]

theorem find?_erase_congr {m m' : FinMap κ α} {j : κ} (h : m.find? j = m'.find? j) (k : κ) :
    (m.erase k).find? j = (m'.erase k).find? j := by
  rw [find?_erase, find?_erase, h]

theorem findD_insert (m : FinMap κ α) (k j : κ) (a b : α) :
    (m.insert k a).findD j b = if j = k then a else m.findD j b := by
  unfold findD
  rw [find?_insert]
  split <;> rfl

theorem findD_insert_self (m : FinMap κ α) (k : κ) (a b : α) : (m.insert k a).findD k b = a :=
  (findD_insert m k k a b).trans (if_pos rfl)

@[simp] theorem find?_modify (m : FinMap κ α) (k j : κ) (f : α → α) :
    (m.modify k f).find? j = if j = k then (m.find? j).map f else m.find? j := by
  obtain ⟨l, hl⟩ := m
  simp only [find?, modify]
  clear hl
  induction l with
  | nil => simp
  | cons e l ih =>
    obtain ⟨i, a⟩ := e
    by_cases hi : j = i
    · subst hi
      by_cases hk : j = k <;> simp [hk]
    · have hne : (j == i) = false := beq_false_of_ne hi
      simp only [List.map_cons, List.lookup_cons, hne, ih]

theorem mem_entries_iff (m : FinMap κ α) (k : κ) (a : α) :
    (k, a) ∈ m.entries ↔ m.find? k = some a := by
  obtain ⟨l, hl⟩ := m
  simp only [find?]
  induction l with
  | nil => simp
  | cons e l ih =>
    obtain ⟨j, b⟩ := e
    have hj : j ∉ l.map Prod.fst := (List.nodup_cons.1 hl).1
    rw [List.mem_cons, List.lookup_cons, ih (List.nodup_cons.1 hl).2]
    by_cases h : k = j
    · subst h
      have hn : l.lookup k = none := List.lookup_eq_none_iff.2 fun e he => by
        have hne : k ≠ e.1 := fun h => hj (h ▸ List.mem_map_of_mem he)
        simpa using hne
      simp [hn, eq_comm]
    · have hne : (k == j) = false := beq_false_of_ne h
      simp [h, hne]

theorem mem_keys_iff (m : FinMap κ α) (k : κ) : k ∈ m.keys ↔ ∃ a, m.find? k = some a := by
  simp [keys, mem_entries_iff]

theorem mem_values_iff (m : FinMap κ α) (a : α) : a ∈ m.values ↔ ∃ k, m.find? k = some a := by
  simp [values, mem_entries_iff]

/-! ## Writing twice -/

/-- What is filtered out may have been written. -/
theorem filterKeys_insert (m : FinMap κ α) {p : κ → Bool} {k : κ} (hp : p k = false) (a : α) :
    (m.insert k a).filterKeys p = m.filterKeys p := by
  obtain ⟨entries, hn⟩ := m
  simp only [insert, erase, filterKeys, List.filter_append, List.filter_filter, mk.injEq]
  have hlast : [(k, a)].filter (fun e => p e.1) = [] := by simp [hp]
  rw [hlast, List.append_nil]
  refine List.filter_congr fun e he => ?_
  by_cases hk : e.1 = k
  · rw [hk, hp, Bool.false_and]
  · rw [decide_eq_true hk, Bool.and_true]

theorem erase_insert (m : FinMap κ α) (k : κ) (a : α) : (m.insert k a).erase k = m.erase k :=
  filterKeys_insert m (decide_eq_false (not_not_intro rfl)) a

theorem insert_insert (m : FinMap κ α) (k : κ) (a b : α) :
    (m.insert k a).insert k b = m.insert k b := by
  have he := congrArg entries (erase_insert m k a)
  obtain ⟨entries, hn⟩ := m
  simp only [insert] at he ⊢
  simp only [he]

theorem modify_insert (m : FinMap κ α) (k : κ) (a : α) (f : α → α) :
    (m.insert k a).modify k f = m.insert k (f a) := by
  obtain ⟨entries, hn⟩ := m
  simp only [insert, modify, mk.injEq, List.map_append, List.map_cons, List.map_nil, if_true]
  congr 1
  refine (List.map_congr_left fun x hx => ?_).trans (List.map_id _)
  have hne : x.1 ≠ k := by simpa using (List.mem_filter.1 hx).2
  rw [if_neg hne]
  rfl

/-! ## Counting -/

theorem keys_erase (m : FinMap κ α) (k : κ) : (m.erase k).keys = m.keys.erase k := by
  have hn : m.keys.Nodup := m.nodup_keys
  rw [hn.erase_eq_filter]
  simp only [keys, erase, filterKeys, List.filter_map]
  congr 1
  refine List.filter_congr fun e _ => ?_
  by_cases he : e.1 = k <;> simp [he]

theorem keys_insert {m : FinMap κ α} {k : κ} (h : m.find? k = none) (a : α) :
    (m.insert k a).keys = m.keys ++ [k] := by
  have hk : k ∉ m.keys := by
    rw [mem_keys_iff, h]
    simp
  rw [← List.erase_of_not_mem hk, ← keys_erase]
  exact List.map_append

theorem keys_modify (m : FinMap κ α) (k : κ) (f : α → α) : (m.modify k f).keys = m.keys :=
  List.map_map

theorem size_erase {m : FinMap κ α} {k : κ} {a : α} (h : m.find? k = some a) :
    (m.erase k).size + 1 = m.size := by
  have hk : k ∈ m.keys := (mem_keys_iff m k).2 ⟨a, h⟩
  have hp := List.length_pos_of_mem hk
  rw [size_eq_length_keys, size_eq_length_keys, keys_erase, List.length_erase_of_mem hk]
  omega

theorem size_insert {m : FinMap κ α} {k : κ} (h : m.find? k = none) (a : α) :
    (m.insert k a).size = m.size + 1 := by
  rw [size_eq_length_keys, size_eq_length_keys, keys_insert h]
  exact List.length_append

theorem size_insert_of_some {m : FinMap κ α} {k : κ} {b : α} (h : m.find? k = some b) (a : α) :
    (m.insert k a).size = m.size := by
  rw [← size_erase h]
  exact List.length_append

theorem size_modify (m : FinMap κ α) (k : κ) (f : α → α) : (m.modify k f).size = m.size :=
  List.length_map _

end FinMap

end HotLoop
