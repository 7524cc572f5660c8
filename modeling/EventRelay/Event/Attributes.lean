import EventRelay.Text.Utf8
/-!
Attributes of a content event: texts by key, in ascending order of the keys' UTF-8 bytes.
Main statements: `find?_insert` and `ext_find?`, attributes are what their keys look up.
-/
namespace EventRelay

def KeyLt (a b : String) : Prop := Utf8.encode a < Utf8.encode b

instance (a b : String) : Decidable (KeyLt a b) := inferInstanceAs (Decidable (_ < _))

theorem KeyLt.irrefl (a : String) : ¬ KeyLt a a := List.lt_irrefl _
theorem KeyLt.trans {a b c : String} (h : KeyLt a b) (k : KeyLt b c) : KeyLt a c :=
  List.lt_trans h k

theorem KeyLt.ne {a b : String} (h : KeyLt a b) : a ≠ b := fun hab => irrefl b (hab ▸ h)

theorem KeyLt.total {a b : String} (h : ¬ KeyLt a b) (k : a ≠ b) : KeyLt b a := by
  apply Decidable.by_contra
  intro h'
  exact k (Utf8.encode_injective (List.le_antisymm h' h))

structure Attributes where
  entries : List (String × String)
  sorted : (entries.map Prod.fst).Pairwise KeyLt
  deriving DecidableEq

namespace Attributes

def empty : Attributes := ⟨[], .nil⟩

def put (k v : String) : List (String × String) → List (String × String)
  | [] => [(k, v)]
  | (a, b) :: r =>
    if k = a then (k, v) :: r
    else if KeyLt k a then (k, v) :: (a, b) :: r
    else (a, b) :: put k v r

theorem mem_put {k v a : String} {l : List (String × String)}
    (h : a ∈ (put k v l).map Prod.fst) : a = k ∨ a ∈ l.map Prod.fst := by
  induction l with
  | nil => simpa [put] using h
  | cons e r ih =>
    obtain ⟨x, y⟩ := e
    simp only [put] at h
    split at h
    · next hk =>
      subst hk
      simp only [List.map_cons, List.mem_cons] at h ⊢
      exact h.imp_right .inr
    · split at h
      · simpa using h
      · simp only [List.map_cons, List.mem_cons] at h ⊢
        rcases h with h | h
        · exact .inr (.inl h)
        · exact (ih h).imp_right .inr

theorem sorted_put (k v : String) {l : List (String × String)}
    (h : (l.map Prod.fst).Pairwise KeyLt) : ((put k v l).map Prod.fst).Pairwise KeyLt := by
  induction l with
  | nil => simp [put]
  | cons e r ih =>
    obtain ⟨x, y⟩ := e
    simp only [List.map_cons, List.pairwise_cons] at h
    simp only [put]
    split
    · next hk => subst hk; simpa using h
    · split
      · next hk hlt =>
        simp only [List.map_cons, List.pairwise_cons, List.mem_cons]
        refine ⟨?_, h⟩
        rintro a (rfl | ha)
        · exact hlt
        · exact hlt.trans (h.1 a ha)
      · next hk hlt =>
        simp only [List.map_cons, List.pairwise_cons]
        refine ⟨fun a ha => ?_, ih h.2⟩
        rcases mem_put ha with rfl | ha
        · exact KeyLt.total hlt hk
        · exact h.1 a ha

/-- The last value for a key wins. -/
def insert (t : Attributes) (k v : String) : Attributes :=
  ⟨put k v t.entries, sorted_put k v t.sorted⟩

def ofList (l : List (String × String)) : Attributes :=
  l.foldl (fun t (k, v) => t.insert k v) empty

def lookup (j : String) : List (String × String) → Option String
  | [] => none
  | (a, b) :: r => if a = j then some b else lookup j r

def find? (t : Attributes) (k : String) : Option String := lookup k t.entries

theorem lookup_put (k v j : String) (l : List (String × String)) :
    lookup j (put k v l) = if k = j then some v else lookup j l := by
  induction l with
  | nil => simp [put, lookup]
  | cons e r ih =>
    obtain ⟨x, y⟩ := e
    simp only [put]
    split
    · next hk => subst hk; by_cases hj : k = j <;> simp [lookup, hj]
    · split
      · simp [lookup]
      · next hk _ =>
        by_cases hj : x = j
        · subst hj; simp [lookup, hk]
        · simp [lookup, hj, ih]

theorem find?_insert (t : Attributes) (k v j : String) :
    (t.insert k v).find? j = if k = j then some v else t.find? j :=
  lookup_put k v j t.entries

theorem lookup_eq_none {j : String} {l : List (String × String)}
    (h : ∀ a ∈ l.map Prod.fst, KeyLt j a) : lookup j l = none := by
  induction l with
  | nil => rfl
  | cons e r ih =>
    obtain ⟨x, y⟩ := e
    simp only [List.map_cons, List.mem_cons, forall_eq_or_imp] at h
    have : x ≠ j := fun hx => KeyLt.irrefl j (hx ▸ h.1)
    simp [lookup, this, ih h.2]

theorem entries_eq {l m : List (String × String)} (hl : (l.map Prod.fst).Pairwise KeyLt)
    (hm : (m.map Prod.fst).Pairwise KeyLt) (h : ∀ k, lookup k l = lookup k m) : l = m := by
  induction l generalizing m with
  | nil =>
    cases m with
    | nil => rfl
    | cons e m => obtain ⟨a, b⟩ := e; simpa [lookup] using h a
  | cons e l ih =>
    obtain ⟨x, y⟩ := e
    simp only [List.map_cons, List.pairwise_cons] at hl
    cases m with
    | nil => simpa [lookup] using h x
    | cons f m =>
      obtain ⟨a, b⟩ := f
      simp only [List.map_cons, List.pairwise_cons] at hm
      have hxa : x = a := by
        apply Decidable.by_contra
        intro hne
        by_cases hlt : KeyLt x a
        · have := h x
          rw [lookup, if_pos rfl, lookup, if_neg (Ne.symm hne),
            lookup_eq_none fun c hc => hlt.trans (hm.1 c hc)] at this
          cases this
        · have hgt := KeyLt.total hlt hne
          have := h a
          rw [lookup, if_neg hne, lookup, if_pos rfl,
            lookup_eq_none fun c hc => hgt.trans (hl.1 c hc)] at this
          cases this
      subst hxa
      have hyb : y = b := by simpa [lookup] using h x
      subst hyb
      rw [ih hl.2 hm.2]
      intro k
      by_cases hk : x = k
      · subst hk; rw [lookup_eq_none hl.1, lookup_eq_none hm.1]
      · simpa [lookup, hk] using h k

theorem ext_find? {s t : Attributes} (h : ∀ k, s.find? k = t.find? k) : s = t := by
  cases s; cases t
  simpa using entries_eq (by assumption) (by assumption) h

end Attributes
end EventRelay
