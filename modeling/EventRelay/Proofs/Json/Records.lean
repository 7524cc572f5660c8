import EventRelay.Json.Record
import EventRelay.Proofs.Json.Skipping
/-!
Objects with known members are read in any order, with other members in between, and as arrays.
Main statements: `Reads.record` and `entries_append`.
-/
namespace EventRelay.Json
open Outcome

/-- The parser takes every text of `V` for `x`. -/
structure Reads {α : Type} (p : Parse α) (x : α) (V : List Char → Prop) : Prop where
  starts : ∀ v, V v → Starts v
  reads : ∀ v ws rest, V v → Space ws → Ends rest → p (ws ++ (v ++ rest)) = .ok (x, rest)

/-- The members `a` and `b` in an object, with any others around them, or in an array. -/
inductive IsStruct (a b : String) (A B : List Char → Prop) : List Char → Prop
  | object {ms : List (String × List Char)} {v w cs : List Char} (h : IsObject ms cs)
      (ha : ms.filter (·.1 = a) = [(a, v)]) (hv : A v) (hb : ms.filter (·.1 = b) = [(b, w)])
      (hw : B w) (hms : ∀ m ∈ ms, m.1 ≠ a → m.1 ≠ b → IsJson m.2) : IsStruct a b A B cs
  | array {v w cs : List Char} (h : Items true [v, w] cs) (hv : A v) (hw : B w) :
      IsStruct a b A B ('[' :: cs)

theorem Members.length_lt {N : String → List Char → Prop} {first : Bool}
    {ms : List (String × List Char)} {cs : List Char} (h : Members N first ms cs) :
    ms.length < cs.length := by
  induction h with
  | close _ => simp
  | member _ _ _ _ _ ih =>
    simp only [List.length_append, List.length_cons]
    omega

theorem IsObject.starts {ms : List (String × List Char)} {v : List Char} (h : IsObject ms v) :
    Starts v := by
  cases h with
  | mk _ => exact ⟨_, _, rfl, rfl, by decide⟩

/-! ### Names -/

theorem nextKey_close {first : Bool} {a : List Char} (ha : Space a) (r : List Char) :
    nextKey first (a ++ '\x7d' :: r) = .ok (none, r) := by
  rw [nextKey, skipSpace_mark ha rfl]
  rfl

theorem nextKey_name {first : Bool} {a n : List Char} {k : String} (ha : Gap first a)
    (hn : IsName k n) (r : List Char) :
    nextKey first (a ++ '"' :: (n ++ '"' :: r)) = .ok (some k, r) := by
  cases ha with
  | first ha =>
    rw [nextKey, skipSpace_mark ha rfl]
    simp only [quoted_of_spells hn]
    rfl
  | next ha hb =>
    rw [List.append_assoc, List.cons_append, nextKey, skipSpace_mark ha rfl]
    simp only [mark_of_space (c := '"') hb rfl, ok_bind, quoted_of_spells hn]
    rfl

/-! ### Texts by name -/

theorem entries_append {first : Bool} {ms : List (String × List Char)} {cs : List Char}
    (h : Members IsName first ms cs) {es : List (String × String)}
    (hes : List.Forall₂ (fun e m => e.1 = m.1 ∧ IsText e.2 m.2) es ms) {fuel : Nat}
    (hf : ms.length < fuel) (rest : List Char) :
    entries fuel first (cs ++ rest) = .ok (es, rest) := by
  induction h generalizing es fuel with
  | close ha =>
    cases hes
    obtain ⟨fuel, rfl⟩ := Nat.exists_eq_add_of_le' (show 1 ≤ fuel from hf)
    rw [List.append_assoc, List.singleton_append, entries, nextKey_close ha]
    rfl
  | @member _ _ b c v cs n k ms ha hn hb hc h ih =>
    cases hes with
    | @cons e _ es _ he hes =>
      obtain ⟨k', s⟩ := e
      obtain ⟨hk, hs⟩ := he
      cases hk
      rw [List.length_cons] at hf
      obtain ⟨fuel, rfl⟩ := Nat.exists_eq_add_of_le' (by omega : 1 ≤ fuel)
      have hrest : entries fuel false (cs ++ rest) = .ok (es, rest) := ih hes (by omega)
      simp only [List.append_assoc, List.cons_append]
      rw [entries, nextKey_name ha hn, ok_bind]
      simp only [mark_of_space (c := ':') hb rfl, ok_bind, text_of_isText hs hc, hrest]
      rfl

/-! ### Members -/

section
variable {α β : Type} {a b : String} {ra : Parse α} {rb : Parse β} {fuel : Nat} {first : Bool}
  {x : Option α} {y : Option β}

theorem members_close {d : List Char} (hd : Space d) {v : α} {w : β} (r : List Char) :
    members a b ra rb (fuel + 1) first (some v) (some w) (d ++ '\x7d' :: r) = .ok ((v, w), r) := by
  rw [members, nextKey_close hd]
  rfl

variable {k : String} {gap n c : List Char} (hgap : Gap first gap) (hn : IsName k n) (hc : Space c)

include hgap hn hc in
theorem members_member (r : List Char) :
    members a b ra rb (fuel + 1) first x y (gap ++ '"' :: (n ++ '"' :: (c ++ ':' :: r))) =
      if k = a then
        if x.isSome then .error .mismatch
        else ra r >>= fun (v, r) => members a b ra rb fuel false (some v) y r
      else if k = b then
        if y.isSome then .error .mismatch
        else rb r >>= fun (w, r) => members a b ra rb fuel false x (some w) r
      else skip r >>= fun (_, r) => members a b ra rb fuel false x y r := by
  rw [members, nextKey_name hgap hn, ok_bind]
  simp only [mark_of_space (c := ':') hc rfl, ok_bind]
  rfl

include hgap hn hc in
theorem members_eq_ok {r : List Char} {out : (α × β) × List Char}
    (h : members a b ra rb (fuel + 1) first x y (gap ++ '"' :: (n ++ '"' :: (c ++ ':' :: r))) =
      .ok out) :
    (k = a ∧ x = none ∧ ∃ v t, ra r = .ok (v, t) ∧
      members a b ra rb fuel false (some v) y t = .ok out) ∨
    (k ≠ a ∧ k = b ∧ y = none ∧ ∃ w t, rb r = .ok (w, t) ∧
      members a b ra rb fuel false x (some w) t = .ok out) ∨
    (k ≠ a ∧ k ≠ b ∧ ∃ t, skip r = .ok ((), t) ∧
      members a b ra rb fuel false x y t = .ok out) := by
  rw [members_member hgap hn hc] at h
  by_cases hka : k = a
  · rw [if_pos hka] at h
    cases x with
    | some v => cases h
    | none =>
      obtain ⟨⟨v, t⟩, hv, h⟩ := bind_eq_ok.1 h
      exact .inl ⟨hka, rfl, v, t, hv, h⟩
  · rw [if_neg hka] at h
    by_cases hkb : k = b
    · rw [if_pos hkb] at h
      cases y with
      | some w => cases h
      | none =>
        obtain ⟨⟨w, t⟩, hw, h⟩ := bind_eq_ok.1 h
        exact .inr (.inl ⟨hka, hkb, rfl, w, t, hw, h⟩)
    · rw [if_neg hkb] at h
      obtain ⟨⟨_, t⟩, hskip, h⟩ := bind_eq_ok.1 h
      exact .inr (.inr ⟨hka, hkb, t, hskip, h⟩)

end

/-- The value of a member, once it is read or while it is to come. -/
def Awaits {α : Type} (a : String) (A : List Char → Prop) (x : α)
    (ms : List (String × List Char)) : Option α → Prop
  | some v => v = x ∧ ms.filter (·.1 = a) = []
  | none => ∃ v, ms.filter (·.1 = a) = [(a, v)] ∧ A v

section
variable {α : Type} {a : String} {A : List Char → Prop} {x : α} {k : String} {v : List Char}
  {ms : List (String × List Char)} {o : Option α}

theorem Awaits.hit (h : Awaits a A x ((a, v) :: ms) o) :
    o = none ∧ A v ∧ Awaits a A x ms (some x) := by
  cases o with
  | some _ =>
    rw [Awaits, List.filter_cons_of_pos (by simp)] at h
    exact absurd h.2 (List.cons_ne_nil _ _)
  | none =>
    rw [Awaits, List.filter_cons_of_pos (by simp)] at h
    obtain ⟨w, hw, hA⟩ := h
    obtain ⟨hvw, hnil⟩ := List.cons.inj hw
    cases hvw
    exact ⟨rfl, hA, rfl, hnil⟩

theorem Awaits.miss (h : Awaits a A x ((k, v) :: ms) o) (hk : k ≠ a) : Awaits a A x ms o := by
  cases o with
  | some _ => rwa [Awaits, List.filter_cons_of_neg (by simpa using hk)] at h
  | none => rwa [Awaits, List.filter_cons_of_neg (by simpa using hk)] at h

end

section
variable {α β : Type} {a b : String} {ra : Parse α} {rb : Parse β} {x : α} {y : β}
  {A B : List Char → Prop}

theorem members_append (hra : Reads ra x A) (hrb : Reads rb y B) (hab : a ≠ b) {first : Bool}
    {ms : List (String × List Char)} {cs : List Char} (h : Members IsName first ms cs)
    (hms : ∀ m ∈ ms, m.1 ≠ a → m.1 ≠ b → IsJson m.2) {o : Option α} {p : Option β}
    (ho : Awaits a A x ms o) (hp : Awaits b B y ms p) {fuel : Nat} (hf : ms.length < fuel)
    (rest : List Char) :
    members a b ra rb fuel first o p (cs ++ rest) = .ok ((x, y), rest) := by
  induction h generalizing o p fuel with
  | close hd =>
    obtain ⟨fuel, rfl⟩ := Nat.exists_eq_add_of_le' (show 1 ≤ fuel from hf)
    rw [List.append_assoc, List.singleton_append]
    cases o with
    | none =>
      obtain ⟨v, hv, -⟩ := ho
      cases hv
    | some v =>
      cases p with
      | none =>
        obtain ⟨w, hw, -⟩ := hp
        cases hw
      | some w =>
        obtain ⟨rfl, -⟩ := ho
        obtain ⟨rfl, -⟩ := hp
        exact members_close hd rest
  | @member _ _ c d v cs n k ms hgap hn hc hd h ih =>
    rw [List.length_cons] at hf
    rw [List.forall_mem_cons] at hms
    obtain ⟨fuel, rfl⟩ := Nat.exists_eq_add_of_le' (by omega : 1 ≤ fuel)
    have hend : Ends (cs ++ rest) := h.ends rest
    simp only [List.append_assoc, List.cons_append]
    rw [members_member hgap hn hc]
    by_cases hka : k = a
    · subst hka
      obtain ⟨rfl, hv, ho⟩ := ho.hit
      rw [if_pos rfl, if_neg (by simp), hra.reads v d _ hv hd hend, ok_bind]
      exact ih hms.2 ho (hp.miss hab) (by omega)
    · by_cases hkb : k = b
      · subst hkb
        obtain ⟨rfl, hv, hp⟩ := hp.hit
        rw [if_neg hka, if_pos rfl, if_neg (by simp), hrb.reads v d _ hv hd hend, ok_bind]
        exact ih hms.2 (ho.miss hka) hp (by omega)
      · rw [if_neg hka, if_neg hkb, skip_of_isJson (hms.1 hka hkb) hd hend, ok_bind]
        exact ih hms.2 (ho.miss hka) (hp.miss hkb) (by omega)

end

/-! ### Arrays -/

theorem item_append {first : Bool} {a cs : List Char} (ha : Gap first a) (hcs : Starts cs) :
    item first (a ++ cs) = .ok ((), cs) := by
  obtain ⟨c, r, rfl, hspace, hc⟩ := hcs
  cases ha with
  | first ha =>
    rw [item, skipSpace_mark ha hspace]
    simp only [if_neg hc, if_true]
  | next ha hb =>
    rw [List.append_assoc, List.cons_append, item, skipSpace_mark ha rfl]
    simp only [skipSpace_mark hb hspace, if_neg hc]
    rfl

section
variable {α β : Type} {a b : String} {ra : Parse α} {rb : Parse β} {x : α} {y : β}
  {A B : List Char → Prop}

theorem record_object (hra : Reads ra x A) (hrb : Reads rb y B) (hab : a ≠ b)
    {ms : List (String × List Char)} {v w cs ws : List Char} (h : IsObject ms cs)
    (ha : ms.filter (·.1 = a) = [(a, v)]) (hv : A v) (hb : ms.filter (·.1 = b) = [(b, w)])
    (hw : B w) (hms : ∀ m ∈ ms, m.1 ≠ a → m.1 ≠ b → IsJson m.2) (hws : Space ws)
    (rest : List Char) : record a b ra rb (ws ++ (cs ++ rest)) = .ok ((x, y), rest) := by
  obtain ⟨h⟩ := h
  rename_i cs
  have hfuel : ms.length < (cs ++ rest).length + 1 := by
    rw [List.length_append]
    exact Nat.lt_add_right _ (Nat.lt_of_lt_of_le h.length_lt (Nat.le_add_right _ _))
  have ho : Awaits a A x ms none := ⟨v, ha, hv⟩
  have hp : Awaits b B y ms none := ⟨w, hb, hw⟩
  rw [List.cons_append, record, skipSpace_mark hws rfl]
  exact members_append hra hrb hab h hms ho hp hfuel rest

theorem record_array (hra : Reads ra x A) (hrb : Reads rb y B) {v w cs ws : List Char}
    (h : Items true [v, w] cs) (hv : A v) (hw : B w) (hws : Space ws) (rest : List Char) :
    record a b ra rb (ws ++ '[' :: (cs ++ rest)) = .ok ((x, y), rest) := by
  rw [record, skipSpace_mark hws rfl]
  cases h with
  | @item _ _ _ _ _ ha h =>
    have hv' := hra.reads v [] _ hv space_nil (h.ends rest)
    cases h with
    | @item _ _ _ _ _ hb h =>
      have hw' := hrb.reads w [] _ hw space_nil (h.ends rest)
      cases h with
      | close hc =>
        simp only [List.append_assoc, List.singleton_append, List.nil_append] at hv' hw' ⊢
        simp only [item_append ha ((hra.starts v hv).append _), ok_bind, hv',
          item_append hb ((hrb.starts w hw).append _), hw', mark_of_space (c := ']') hc rfl]
        rfl

theorem Reads.record (hra : Reads ra x A) (hrb : Reads rb y B) (hab : a ≠ b) :
    Reads (record a b ra rb) (x, y) (IsStruct a b A B) := by
  constructor
  · intro v hv
    cases hv with
    | object h _ _ _ _ _ => exact h.starts
    | array _ _ _ => exact ⟨_, _, rfl, rfl, by decide⟩
  · intro v ws rest hv hws _
    cases hv with
    | object h ha hv hb hw hms => exact record_object hra hrb hab h ha hv hb hw hms hws rest
    | array h hv hw => exact record_array hra hrb h hv hw hws rest

end

end EventRelay.Json
