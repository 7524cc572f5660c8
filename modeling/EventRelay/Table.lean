/-!
Finite tables. Entries keep the order in which their keys first came and no key occurs twice.
Main statements: `find?_insert`, `find?_erase` and `mem_keys`.
-/
namespace EventRelay

structure Table (α : Type u) (β : Type v) where
  entries : List (α × β)
  nodup : (entries.map Prod.fst).Nodup

namespace Table
variable {α : Type u} {β : Type v} [DecidableEq α]

/- The three list operations behind the table. -/
def lookup (k : α) : List (α × β) → Option β
  | [] => none
  | (a, b) :: r => if a = k then some b else lookup k r

def put (k : α) (v : β) : List (α × β) → List (α × β)
  | [] => [(k, v)]
  | (a, b) :: r => if a = k then (k, v) :: r else (a, b) :: put k v r

def remove (k : α) : List (α × β) → List (α × β)
  | [] => []
  | (a, b) :: r => if a = k then r else (a, b) :: remove k r

theorem mem_put {k a : α} {v : β} {l : List (α × β)} :
    a ∈ (put k v l).map Prod.fst ↔ a = k ∨ a ∈ l.map Prod.fst := by
  induction l with
  | nil => simp [put]
  | cons e r ih =>
    obtain ⟨x, y⟩ := e
    by_cases h : x = k
    · subst h; simp [put]
    · simp only [put, if_neg h, List.map_cons, List.mem_cons, ih]
      constructor
      · rintro (h | h | h) <;> simp [h]
      · rintro (h | h | h) <;> simp [h]

theorem nodup_put (k : α) (v : β) {l : List (α × β)} (h : (l.map Prod.fst).Nodup) :
    ((put k v l).map Prod.fst).Nodup := by
  induction l with
  | nil => simp [put]
  | cons e r ih =>
    obtain ⟨x, y⟩ := e
    simp only [List.map_cons, List.nodup_cons] at h
    by_cases hx : x = k
    · subst hx; simpa [put] using h
    · simp only [put, if_neg hx, List.map_cons, List.nodup_cons, mem_put]
      exact ⟨fun hm => hm.elim hx h.1, ih h.2⟩

theorem mem_of_mem_remove {k a : α} {l : List (α × β)} (h : a ∈ (remove k l).map Prod.fst) :
    a ∈ l.map Prod.fst := by
  induction l with
  | nil => simp [remove] at h
  | cons e r ih =>
    obtain ⟨x, y⟩ := e
    by_cases hx : x = k
    · simp only [remove, if_pos hx] at h; simp only [List.map_cons, List.mem_cons]; exact .inr h
    · simp only [remove, if_neg hx, List.map_cons, List.mem_cons] at h ⊢
      exact h.imp_right ih

theorem nodup_remove (k : α) {l : List (α × β)} (h : (l.map Prod.fst).Nodup) :
    ((remove k l).map Prod.fst).Nodup := by
  induction l with
  | nil => simp [remove]
  | cons e r ih =>
    obtain ⟨x, y⟩ := e
    simp only [List.map_cons, List.nodup_cons] at h
    by_cases hx : x = k
    · simpa [remove, hx] using h.2
    · simp only [remove, if_neg hx, List.map_cons, List.nodup_cons]
      exact ⟨fun hm => h.1 (mem_of_mem_remove hm), ih h.2⟩

theorem lookup_put (k j : α) (v : β) (l : List (α × β)) :
    lookup j (put k v l) = if k = j then some v else lookup j l := by
  induction l with
  | nil => simp [put, lookup]
  | cons e r ih =>
    obtain ⟨x, y⟩ := e
    by_cases hx : x = k
    · subst hx; by_cases hj : x = j <;> simp [put, lookup, hj]
    · by_cases hj : x = j
      · subst hj; simp [put, lookup, hx, Ne.symm hx]
      · simp [put, lookup, hx, hj, ih]

theorem lookup_eq_none {j : α} {l : List (α × β)} (h : j ∉ l.map Prod.fst) :
    lookup j l = none := by
  induction l with
  | nil => rfl
  | cons e r ih =>
    obtain ⟨x, y⟩ := e
    simp only [List.map_cons, List.mem_cons, not_or] at h
    simp [lookup, Ne.symm h.1, ih h.2]

theorem lookup_remove (k j : α) {l : List (α × β)} (h : (l.map Prod.fst).Nodup) :
    lookup j (remove k l) = if k = j then none else lookup j l := by
  induction l with
  | nil => simp [remove, lookup]
  | cons e r ih =>
    obtain ⟨x, y⟩ := e
    simp only [List.map_cons, List.nodup_cons] at h
    by_cases hx : x = k
    · subst hx
      by_cases hj : x = j
      · subst hj; simpa [remove] using lookup_eq_none h.1
      · simp [remove, lookup, hj]
    · by_cases hj : x = j
      · subst hj; simp [remove, lookup, hx, Ne.symm hx]
      · simp [remove, lookup, hx, hj, ih h.2]

theorem put_put (k : α) (v w : β) (l : List (α × β)) : put k w (put k v l) = put k w l := by
  induction l with
  | nil => simp [put]
  | cons e r ih =>
    obtain ⟨x, y⟩ := e
    by_cases hx : x = k <;> simp [put, hx, ih]

theorem remove_put {k : α} {l : List (α × β)} (h : lookup k l = none) (v : β) :
    remove k (put k v l) = l := by
  induction l with
  | nil => simp [put, remove]
  | cons e r ih =>
    obtain ⟨x, y⟩ := e
    by_cases hx : x = k
    · simp [lookup, hx] at h
    · rw [lookup, if_neg hx] at h
      simp [put, remove, hx, ih h]

def empty : Table α β := ⟨[], .nil⟩
instance : Inhabited (Table α β) := ⟨empty⟩

def find? (t : Table α β) (k : α) : Option β := lookup k t.entries
def contains (t : Table α β) (k : α) : Bool := (t.find? k).isSome

/-- A new key goes to the end, a known key keeps its place and gets the new value. -/
def insert (t : Table α β) (k : α) (v : β) : Table α β :=
  ⟨put k v t.entries, nodup_put k v t.nodup⟩

def erase (t : Table α β) (k : α) : Table α β := ⟨remove k t.entries, nodup_remove k t.nodup⟩

def modify (t : Table α β) (k : α) (f : β → β) : Table α β :=
  match t.find? k with
  | some v => t.insert k (f v)
  | none => t

def keys (t : Table α β) : List α := t.entries.map Prod.fst
def values (t : Table α β) : List β := t.entries.map Prod.snd
def size (t : Table α β) : Nat := t.entries.length
def isEmpty (t : Table α β) : Bool := t.entries.isEmpty

@[simp] theorem find?_empty (k : α) : (empty : Table α β).find? k = none := rfl

omit [DecidableEq α] in
theorem eq_empty_of_isEmpty {t : Table α β} (h : t.isEmpty = true) : t = empty := by
  obtain ⟨l, hl⟩ := t
  cases l with
  | nil => rfl
  | cons e r => cases h

theorem mem_keys {t : Table α β} {k : α} : k ∈ t.keys ↔ ∃ v, t.find? k = some v := by
  unfold keys find?
  induction t.entries with
  | nil => simp [lookup]
  | cons e r ih =>
    obtain ⟨x, y⟩ := e
    by_cases hx : x = k
    · simp [lookup, hx]
    · simp only [List.map_cons, List.mem_cons, lookup, if_neg hx, Ne.symm hx, false_or, ih]

theorem mem_entries {t : Table α β} {k : α} {v : β} :
    (k, v) ∈ t.entries ↔ t.find? k = some v := by
  obtain ⟨l, hn⟩ := t
  unfold find?
  induction l with
  | nil => simp [lookup]
  | cons e r ih =>
    obtain ⟨x, y⟩ := e
    simp only [List.map_cons, List.nodup_cons] at hn
    by_cases hx : x = k
    · subst hx
      have hr : (x, v) ∉ r := fun hr => hn.1 (List.mem_map_of_mem hr)
      simp [lookup, hr, eq_comm]
    · simp [lookup, hx, Ne.symm hx, ih hn.2]

theorem mem_values {t : Table α β} {v : β} : v ∈ t.values ↔ ∃ k, t.find? k = some v := by
  simp only [values, List.mem_map, Prod.exists, mem_entries, exists_eq_right]

theorem nodup_values {t : Table α β}
    (h : ∀ j k v, t.find? j = some v → t.find? k = some v → j = k) : t.values.Nodup := by
  rw [values, List.Nodup, List.pairwise_map]
  refine (List.pairwise_map.1 t.nodup).imp_of_mem fun hx hy hne heq => hne ?_
  exact h _ _ _ (mem_entries.1 hx) (by rw [heq]; exact mem_entries.1 hy)

theorem find?_insert (t : Table α β) (k j : α) (v : β) :
    (t.insert k v).find? j = if k = j then some v else t.find? j :=
  lookup_put k j v t.entries

theorem find?_erase (t : Table α β) (k j : α) :
    (t.erase k).find? j = if k = j then none else t.find? j :=
  lookup_remove k j t.nodup

@[simp] theorem insert_insert (t : Table α β) (k : α) (v w : β) :
    (t.insert k v).insert k w = t.insert k w := by
  simp only [insert, put_put]

theorem erase_insert {t : Table α β} {k : α} (h : t.find? k = none) (v : β) :
    (t.insert k v).erase k = t := by
  simp only [erase, insert, remove_put h]

theorem find?_insert_eq_some {t : Table α β} {k j : α} {v w : β} :
    (t.insert k v).find? j = some w ↔ k = j ∧ v = w ∨ k ≠ j ∧ t.find? j = some w := by
  rw [find?_insert]
  by_cases h : k = j <;> simp [h]

theorem find?_erase_eq_some {t : Table α β} {k j : α} {v : β} :
    (t.erase k).find? j = some v ↔ k ≠ j ∧ t.find? j = some v := by
  rw [find?_erase]
  by_cases h : k = j <;> simp [h]

theorem find?_modify (t : Table α β) (k j : α) (f : β → β) :
    (t.modify k f).find? j = if k = j then (t.find? j).map f else t.find? j := by
  unfold modify
  by_cases h : k = j
  · subst h; cases hk : t.find? k <;> simp [hk, find?_insert]
  · cases hk : t.find? k <;> simp [find?_insert, h]

end Table
end EventRelay
