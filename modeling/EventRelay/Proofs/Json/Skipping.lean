import EventRelay.Proofs.Json.Numbers
import EventRelay.Proofs.Json.Strings
/-!
Any JSON is skipped, of any depth. Main statement: `skip_of_isJson`.
-/
namespace EventRelay.Json
open Outcome

/-- Two units of fuel for each character are enough for this value. -/
def Skips (v : List Char) : Prop :=
  ∀ (fuel : Nat) (ws rest : List Char), 2 * v.length ≤ fuel → Space ws → Ends rest →
    skipValue fuel (ws ++ (v ++ rest)) = .ok ((), rest)

theorem IsNumber.first {v : List Char} (h : IsNumber v) :
    ∃ c r, v = c :: r ∧ (c = '-' ∨ c.isDigit = true) := by
  obtain ⟨hs, hd, -, -, -⟩ := h
  obtain rfl | rfl := hs
  · obtain ⟨c, ds, rfl⟩ := List.exists_cons_of_ne_nil hd.1
    exact ⟨c, _, rfl, .inr (hd.2 c List.mem_cons_self)⟩
  · exact ⟨'-', _, rfl, .inl rfl⟩

theorem starts_number {c : Char} (h : c = '-' ∨ c.isDigit = true) :
    isSpace c = false ∧ c ≠ ']' ∧ c ≠ 'n' ∧ c ≠ 't' ∧ c ≠ 'f' := by
  obtain rfl | h := h
  · decide
  · refine ⟨?_, ?_, ?_, ?_, ?_⟩
    · by_contra hspace
      simp only [isSpace, Bool.not_eq_false, Bool.or_eq_true, beq_iff_eq] at hspace
      obtain (((rfl | rfl) | rfl) | rfl) := hspace <;> cases h
    all_goals
      rintro rfl
      cases h

theorem IsJson.starts {v : List Char} (h : IsJson v) : Starts v := by
  cases h with
  | null => exact ⟨_, _, rfl, rfl, by decide⟩
  | true => exact ⟨_, _, rfl, rfl, by decide⟩
  | false => exact ⟨_, _, rfl, rfl, by decide⟩
  | number h =>
    obtain ⟨c, r, rfl, hc⟩ := h.first
    exact ⟨c, r, rfl, (starts_number hc).1, (starts_number hc).2.1⟩
  | string _ => exact ⟨_, _, rfl, rfl, by decide⟩
  | array _ _ => exact ⟨_, _, rfl, rfl, by decide⟩
  | object _ _ => exact ⟨_, _, rfl, rfl, by decide⟩

/-! ### Arrays -/

section
variable {fuel : Nat} {a cs r : List Char}

theorem skipItems_close (ha : Space a) (h : skipValue fuel cs = .ok ((), a ++ ']' :: r)) :
    skipItems (fuel + 1) cs = .ok ((), r) := by
  rw [skipItems, h, ok_bind]
  simp only [skipSpace_mark (c := ']') ha rfl]
  rfl

theorem skipItems_comma (ha : Space a) (h : skipValue fuel cs = .ok ((), a ++ ',' :: r)) :
    skipItems (fuel + 1) cs = skipItems fuel r := by
  rw [skipItems, h, ok_bind]
  simp only [skipSpace_mark (c := ',') ha rfl]

end

theorem skipItems_append {first : Bool} {vs : List (List Char)} {cs : List Char}
    (h : Items first vs cs) (hfirst : first = false) (hvs : ∀ v ∈ vs, Skips v) {fuel : Nat}
    {a v : List Char} (ha : Space a) (hv : Skips v)
    (hf : 2 * (a.length + v.length + cs.length) ≤ fuel) (rest : List Char) :
    skipItems fuel (a ++ (v ++ (cs ++ rest))) = .ok ((), rest) := by
  induction h generalizing fuel a v with
  | @close _ b hb =>
    have hend : Ends (b ++ [']'] ++ rest) := (Items.close hb).ends rest
    simp only [List.length_append, List.length_singleton] at hf
    obtain ⟨fuel, rfl⟩ := Nat.exists_eq_add_of_le' (by omega : 1 ≤ fuel)
    have hskip := hv fuel a _ (by omega) ha hend
    rw [List.append_assoc] at hskip ⊢
    exact skipItems_close hb hskip
  | @item _ _ w cs ws hgap h ih =>
    subst hfirst
    have hend := (Items.item (v := w) hgap h).ends rest
    cases hgap with
    | @next b c hb hc =>
      rw [List.forall_mem_cons] at hvs
      simp only [List.length_append, List.length_cons] at hf
      obtain ⟨fuel, rfl⟩ := Nat.exists_eq_add_of_le' (by omega : 1 ≤ fuel)
      have hskip := hv fuel a _ (by omega) ha hend
      simp only [List.append_assoc, List.cons_append] at hskip ⊢
      rw [skipItems_comma hb hskip]
      exact ih rfl hvs.2 hc hvs.1 (by omega)

/-! ### Objects -/

/-- What is left of a skipped object behind the value of a member. -/
def skipRest (fuel : Nat) : Parse Unit := fun cs =>
  match skipSpace cs with
  | ',' :: r => skipMembers fuel r
  | '\x7d' :: r => .ok ((), r)
  | [] => .error .cutShort
  | _ => .error .malformed

section
variable {fuel : Nat} {a cs r : List Char}

theorem skipRest_close (h : skipSpace cs = '\x7d' :: r) : skipRest fuel cs = .ok ((), r) := by
  rw [skipRest, h]
  rfl

theorem skipRest_comma (h : skipSpace cs = ',' :: r) : skipRest fuel cs = skipMembers fuel r := by
  rw [skipRest, h]
  rfl

theorem skipMembers_member {n v w : List Char} (hname : mark '"' cs = .ok ((), n))
    (hskip : skipString false 0 n = .ok ((), v)) (hcolon : mark ':' v = .ok ((), w))
    (hvalue : skipValue fuel w = .ok ((), r)) : skipMembers (fuel + 1) cs = skipRest fuel r := by
  rw [skipMembers, hname, ok_bind]
  simp only [hskip, hcolon, hvalue, ok_bind]
  rfl

theorem skipMembers_chars {n b : List Char} (ha : Space a) (hn : IsChars n) (hb : Space b)
    (hvalue : skipValue fuel cs = .ok ((), r)) :
    skipMembers (fuel + 1) (a ++ '"' :: (n ++ '"' :: (b ++ ':' :: cs))) = skipRest fuel r :=
  skipMembers_member (mark_of_space ha rfl _) (skipString_of_isChars hn _) (mark_of_space hb rfl _)
    hvalue

end

theorem skipMembers_append {first : Bool} {ms : List (String × List Char)} {cs : List Char}
    (h : Members (fun _ => IsChars) first ms cs) (hfirst : first = false)
    (hms : ∀ m ∈ ms, Skips m.2) {fuel : Nat} {a n b c v : List Char} (ha : Space a)
    (hn : IsChars n) (hb : Space b) (hc : Space c) (hv : Skips v)
    (hf : 2 * (a.length + n.length + b.length + c.length + v.length + cs.length) ≤ fuel)
    (rest : List Char) :
    skipMembers fuel (a ++ '"' :: (n ++ '"' :: (b ++ ':' :: (c ++ (v ++ (cs ++ rest)))))) =
      .ok ((), rest) := by
  induction h generalizing fuel a n b c v with
  | @close _ d hd =>
    have hend : Ends (d ++ ['\x7d'] ++ rest) :=
      (Members.close (N := fun _ => IsChars) hd).ends rest
    simp only [List.length_append, List.length_singleton] at hf
    obtain ⟨fuel, rfl⟩ := Nat.exists_eq_add_of_le' (by omega : 1 ≤ fuel)
    have hskip := hv fuel c _ (by omega) hc hend
    rw [List.append_assoc] at hskip ⊢
    rw [skipMembers_chars ha hn hb hskip]
    exact skipRest_close (skipSpace_mark hd rfl rest)
  | @member _ _ b' c' w cs n' k ws hgap hn' hb' hc' h ih =>
    subst hfirst
    have hend := (Members.member (k := k) (v := w) hgap hn' hb' hc' h).ends rest
    cases hgap with
    | @next d a' hd ha' =>
      rw [List.forall_mem_cons] at hms
      simp only [List.length_append, List.length_cons] at hf
      obtain ⟨fuel, rfl⟩ := Nat.exists_eq_add_of_le' (by omega : 1 ≤ fuel)
      have hskip := hv fuel c _ (by omega) hc hend
      simp only [List.append_assoc, List.cons_append] at hskip ⊢
      rw [skipMembers_chars ha hn hb hskip, skipRest_comma (skipSpace_mark hd rfl _)]
      exact ih rfl hms.2 ha' hn' hb' hc' hms.1 (by omega)

/-! ### Values -/

section
variable {fuel : Nat} {a cs r : List Char} {c : Char}

theorem skipValue_of_skipSpace (h : skipSpace cs = c :: r) :
    skipValue (fuel + 1) cs = skipValue (fuel + 1) (c :: r) := by
  rw [skipValue, skipValue, h, skipSpace_cons (isSpace_of_skipSpace h)]

theorem skipValue_number (hc : c = '-' ∨ c.isDigit = true) (h : skipNumber (c :: cs) = .ok r) :
    skipValue (fuel + 1) (c :: cs) = .ok ((), r) := by
  obtain ⟨hspace, -, hn, ht, hf⟩ := starts_number hc
  rw [skipValue, skipSpace_cons hspace]
  simp only [if_neg hn, if_neg ht, if_neg hf, if_pos hc, h]
  rfl

theorem skipValue_string (cs : List Char) :
    skipValue (fuel + 1) ('"' :: cs) = skipString false 0 cs := rfl

theorem skipValue_emptyArray (h : skipSpace cs = ']' :: r) :
    skipValue (fuel + 1) ('[' :: cs) = .ok ((), r) := by
  rw [skipValue, skipSpace_cons rfl]
  simp [h]

theorem skipValue_array (h : skipSpace cs = c :: r) (hc : c ≠ ']') :
    skipValue (fuel + 1) ('[' :: cs) = skipItems fuel cs := by
  rw [skipValue, skipSpace_cons rfl]
  simp [h, hc]

theorem skipValue_emptyObject (h : skipSpace cs = '\x7d' :: r) :
    skipValue (fuel + 1) ('\x7b' :: cs) = .ok ((), r) := by
  rw [skipValue, skipSpace_cons rfl]
  simp [h]

theorem skipValue_object (h : skipSpace cs = '"' :: r) :
    skipValue (fuel + 1) ('\x7b' :: cs) = skipMembers fuel cs := by
  rw [skipValue, skipSpace_cons rfl]
  simp [h]

end

theorem skips_cons {c : Char} {v : List Char} (hc : isSpace c = false)
    (h : ∀ (fuel : Nat) (rest : List Char), 2 * v.length ≤ fuel → Ends rest →
      skipValue (fuel + 1) (c :: (v ++ rest)) = .ok ((), rest)) : Skips (c :: v) := by
  intro fuel ws rest hf hws hr
  rw [List.length_cons] at hf
  obtain ⟨fuel, rfl⟩ := Nat.exists_eq_add_of_le' (by omega : 1 ≤ fuel)
  rw [List.cons_append, skipValue_of_skipSpace (skipSpace_mark hws hc _)]
  exact h fuel rest (by omega) hr

theorem skipValue_of_isJson {v : List Char} (h : IsJson v) : Skips v := by
  induction h with
  | null => exact skips_cons rfl fun _ _ _ _ => rfl
  | true => exact skips_cons rfl fun _ _ _ _ => rfl
  | false => exact skips_cons rfl fun _ _ _ _ => rfl
  | number h =>
    obtain ⟨c, r, rfl, hc⟩ := h.first
    exact skips_cons (starts_number hc).1 fun fuel rest _ hr =>
      skipValue_number hc (skipNumber_of_isNumber h hr)
  | string h =>
    refine skips_cons rfl fun fuel rest _ _ => ?_
    rw [List.append_assoc, skipValue_string]
    exact skipString_of_isChars h rest
  | array h hv ih =>
    refine skips_cons rfl fun fuel rest hf _ => ?_
    cases h with
    | close ha =>
      rw [List.append_assoc]
      exact skipValue_emptyArray (skipSpace_mark ha rfl rest)
    | @item _ a v cs _ ha h =>
      cases ha with
      | first ha =>
        rw [List.forall_mem_cons] at hv ih
        simp only [List.length_append] at hf
        obtain ⟨c, r, hcs, hspace, hc⟩ := hv.1.starts.append (cs ++ rest)
        have hskip : skipSpace (a ++ (v ++ (cs ++ rest))) = c :: r := by
          rw [hcs, skipSpace_mark ha hspace]
        rw [List.append_assoc, List.append_assoc, skipValue_array hskip hc]
        exact skipItems_append h rfl ih.2 ha ih.1 (by omega) rest
  | object h _ ih =>
    refine skips_cons rfl fun fuel rest hf _ => ?_
    cases h with
    | close ha =>
      rw [List.append_assoc]
      exact skipValue_emptyObject (skipSpace_mark ha rfl rest)
    | @member _ _ _ _ v _ _ _ _ ha hn hb hc h =>
      cases ha with
      | first ha =>
        rw [List.forall_mem_cons] at ih
        have hv : Skips v := ih.1
        simp only [List.length_append, List.length_cons] at hf
        simp only [List.append_assoc, List.cons_append]
        rw [skipValue_object (skipSpace_mark ha rfl _)]
        exact skipMembers_append h rfl ih.2 ha hn hb hc hv (by omega) rest

theorem skip_of_isJson {v ws rest : List Char} (h : IsJson v) (hws : Space ws)
    (hr : Ends rest) : skip (ws ++ (v ++ rest)) = .ok ((), rest) := by
  refine skipValue_of_isJson h _ ws rest ?_ hws hr
  simp only [List.length_append]
  omega

end EventRelay.Json
