import EventRelay.Json.Reader
import EventRelay.Proofs.Json.Skipping
/-!
What is read could also be skipped, so that behind a value of the right shape the reader stands where
it would stand behind one of another shape. Main statements: `skippable_text`,
`skippable_integerIn`, `skippable_change` and `skippable_attributesText`.
-/
namespace EventRelay.Json
open Outcome

/-- What the parser takes could also be skipped. -/
def Skippable {α : Type} (p : Parse α) : Prop :=
  ∀ (cs r : List Char) (x : α), p cs = .ok (x, r) → skip cs = .ok ((), r)

theorem Skippable.rest {α : Type} {p : Parse α} (hp : Skippable p) {v ws rest r : List Char}
    {x : α} (hv : IsJson v) (hws : Space ws) (hr : Ends rest)
    (h : p (ws ++ (v ++ rest)) = .ok (x, r)) : r = rest := by
  have hskip := (hp _ _ _ h).symm.trans (skip_of_isJson hv hws hr)
  cases hskip
  rfl

/-! ### Values of one piece -/

theorem mark_eq_ok {c : Char} {cs r : List Char} {u : Unit} :
    mark c cs = .ok (u, r) ↔ skipSpace cs = c :: r := by
  rw [mark]
  split
  · simp [*]
  · rename_i d r' h
    rw [h]
    split
    · rename_i hd
      simp [hd]
    · rename_i hd
      simp [hd]

theorem text_eq_ok {cs r : List Char} {s : String} (h : text cs = .ok (s, r)) :
    ∃ t, skipSpace cs = '"' :: t ∧ quoted t = .ok (s, r) := by
  rw [text] at h
  split at h
  · cases h
  · rename_i c t hcs
    split at h
    · rename_i hc
      exact ⟨t, hc ▸ hcs, h⟩
    · cases h

theorem skipValue_of_text {cs r : List Char} {s : String} (h : text cs = .ok (s, r)) (fuel : Nat) :
    skipValue (fuel + 1) cs = .ok ((), r) := by
  obtain ⟨t, hcs, ht⟩ := text_eq_ok h
  rw [skipValue_of_skipSpace hcs, skipValue_string]
  exact skipString_of_quoted ht

theorem skippable_text : Skippable text := fun _ _ _ h => skipValue_of_text h _

theorem skippable_integerIn (lo hi : Int) : Skippable (integerIn lo hi) := by
  intro cs r x h
  rw [integerIn] at h
  split at h
  · cases h
  · rename_i c t hcs
    split at h
    · rename_i hc
      obtain ⟨⟨n, r'⟩, hn, h⟩ := bind_eq_ok.1 h
      have hr : r' = r := by
        cases n with
        | none => cases h
        | some n =>
          simp only at h
          split at h <;> cases h
          rfl
      subst hr
      rw [skip, skipValue_of_skipSpace hcs]
      exact skipValue_number hc (skipNumber_of_number hn)
    · cases h

theorem skipValue_of_null {cs r : List Char} {u : Unit} (h : null cs = .ok (u, r)) (fuel : Nat) :
    skipValue (fuel + 1) cs = .ok ((), r) := by
  rw [null] at h
  split at h
  · cases h
  · rename_i c t hcs
    split at h
    · rename_i hc
      rw [skipValue_of_skipSpace hcs, hc]
      exact h
    · cases h

/-! ### Objects of texts -/

theorem nextKey_eq_none {first : Bool} {cs r : List Char}
    (h : nextKey first cs = .ok (none, r)) : skipSpace cs = '\x7d' :: r := by
  rw [nextKey] at h
  split at h
  · cases h
  · rename_i c t hcs
    split at h
    · rename_i hc
      cases h
      rw [hcs, hc]
    · split at h
      · split at h
        · obtain ⟨_, -, hpair⟩ := map_eq_ok.1 h
          cases hpair
        · cases h
      · split at h
        · obtain ⟨_, -, h⟩ := bind_eq_ok.1 h
          obtain ⟨_, -, hpair⟩ := bind_eq_ok.1 h
          cases hpair
        · cases h

theorem nextKey_first {cs r : List Char} {k : String} (h : nextKey true cs = .ok (some k, r)) :
    ∃ n, mark '"' cs = .ok ((), n) ∧ quoted n = .ok (k, r) := by
  rw [nextKey] at h
  split at h
  · cases h
  · rename_i c t hcs
    split at h
    · cases h
    · rw [if_pos rfl] at h
      split at h
      · rename_i hc
        obtain ⟨⟨k', r'⟩, hk, hpair⟩ := map_eq_ok.1 h
        cases hpair
        exact ⟨t, mark_eq_ok.2 (hc ▸ hcs), hk⟩
      · cases h

theorem nextKey_next {cs r : List Char} {k : String} (h : nextKey false cs = .ok (some k, r)) :
    ∃ t n, skipSpace cs = ',' :: t ∧ mark '"' t = .ok ((), n) ∧ quoted n = .ok (k, r) := by
  rw [nextKey] at h
  split at h
  · cases h
  · rename_i c t hcs
    split at h
    · cases h
    · rw [if_neg Bool.false_ne_true] at h
      split at h
      · rename_i hc
        obtain ⟨⟨_, n⟩, hmark, h⟩ := bind_eq_ok.1 h
        obtain ⟨⟨k', r'⟩, hk, hpair⟩ := bind_eq_ok.1 h
        cases hpair
        exact ⟨t, n, hc ▸ hcs, hmark, hk⟩
      · cases h

theorem skipRest_of_entries {n : Nat} {cs r : List Char} {es : List (String × String)}
    (h : entries n false cs = .ok (es, r)) {fuel : Nat} (hf : 2 * n ≤ fuel) :
    skipRest fuel cs = .ok ((), r) := by
  induction n generalizing cs es fuel with
  | zero => cases h
  | succ n ih =>
    obtain ⟨⟨key, t⟩, hkey, h⟩ := bind_eq_ok.1 h
    cases key with
    | none =>
      cases h
      exact skipRest_close (nextKey_eq_none hkey)
    | some k =>
      obtain ⟨⟨_, v⟩, hcolon, h⟩ := bind_eq_ok.1 h
      obtain ⟨⟨_, t'⟩, hv, h⟩ := bind_eq_ok.1 h
      obtain ⟨⟨_, r'⟩, hes, h⟩ := bind_eq_ok.1 h
      cases h
      obtain ⟨u, w, hcomma, hname, hk⟩ := nextKey_next hkey
      obtain ⟨fuel, rfl⟩ := Nat.exists_eq_add_of_le' (by omega : 2 ≤ fuel)
      rw [skipRest_comma hcomma, skipMembers_member hname (skipString_of_quoted hk) hcolon
        (skipValue_of_text hv fuel)]
      exact ih hes (by omega)

theorem skip_object {cs t r : List Char} (hcs : skipSpace cs = '\x7b' :: t)
    (h : ∀ fuel, 2 * t.length ≤ fuel → skipValue (fuel + 3) ('\x7b' :: t) = .ok ((), r)) :
    skip cs = .ok ((), r) := by
  have hlen : (skipSpace cs).length ≤ cs.length := (List.dropWhile_suffix _).length_le
  rw [hcs, List.length_cons] at hlen
  obtain ⟨fuel, hfuel⟩ := Nat.exists_eq_add_of_le' (by omega : 3 ≤ 2 * cs.length + 2)
  rw [skip, hfuel, skipValue_of_skipSpace hcs]
  exact h fuel (by omega)

theorem skippable_attributesText : Skippable attributesText := by
  intro cs r x h
  rw [attributesText] at h
  split at h
  · cases h
  · rename_i c t hcs
    split at h
    · rename_i hc
      subst hc
      refine skip_object hcs fun fuel hf => ?_
      obtain ⟨⟨es, r'⟩, hes, hpair⟩ := map_eq_ok.1 h
      cases hpair
      obtain ⟨⟨key, u⟩, hkey, h⟩ := bind_eq_ok.1 hes
      cases key with
      | none =>
        cases h
        exact skipValue_emptyObject (nextKey_eq_none hkey)
      | some k =>
        obtain ⟨⟨_, v⟩, hcolon, h⟩ := bind_eq_ok.1 h
        obtain ⟨⟨_, t'⟩, hv, h⟩ := bind_eq_ok.1 h
        obtain ⟨⟨_, r'⟩, hrest, h⟩ := bind_eq_ok.1 h
        cases h
        obtain ⟨w, hname, hk⟩ := nextKey_first hkey
        rw [skipValue_object (mark_eq_ok.1 hname), skipMembers_member hname
          (skipString_of_quoted hk) hcolon (skipValue_of_text hv _)]
        exact skipRest_of_entries hrest (by omega)
    · cases h

theorem skippable_change : Skippable change := by
  intro cs r x h
  rw [change] at h
  split at h
  · cases h
  · rename_i c t hcs
    split at h
    · rename_i hc
      obtain ⟨⟨k, r'⟩, hk, h⟩ := bind_eq_ok.1 h
      have hr : r' = r := by
        simp only at h
        split at h <;> cases h
        rfl
      subst hr
      rw [skip, skipValue_of_skipSpace hcs, hc, skipValue_string]
      exact skipString_of_quoted hk
    · split at h
      · rename_i hc
        obtain ⟨⟨k, u⟩, hk, h⟩ := bind_eq_ok.1 h
        simp only at h
        split at h
        · cases h
        · obtain ⟨⟨_, v⟩, hcolon, h⟩ := bind_eq_ok.1 h
          obtain ⟨⟨_, w⟩, hnull, h⟩ := bind_eq_ok.1 h
          obtain ⟨⟨_, r'⟩, hclose, h⟩ := bind_eq_ok.1 h
          cases h
          obtain ⟨n, hn, hquoted⟩ := text_eq_ok hk
          refine skip_object (hc ▸ hcs) fun fuel _ => ?_
          rw [skipValue_object hn, skipMembers_member (mark_eq_ok.2 hn)
            (skipString_of_quoted hquoted) hcolon (skipValue_of_null hnull fuel)]
          exact skipRest_close (mark_eq_ok.1 hclose)
      · cases h

end EventRelay.Json
