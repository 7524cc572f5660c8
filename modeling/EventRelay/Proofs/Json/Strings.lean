import EventRelay.Json.Shape
import EventRelay.Json.Skip
import EventRelay.Proofs.Json.Grammar
import EventRelay.Proofs.Outcome
/-!
Strings are read however they are spelled. Main statements: `text_of_isText` and `isText_string`,
and `skipString_of_stringBody`, a string that is read can also be skipped.
-/
namespace EventRelay.Json
open Outcome

theorem escaped?_u : escaped? 'u' = none := rfl

/-! ### Reading -/

theorem stringBody_digits {high : Option Nat} {value n : Nat} {ds : List Char}
    (h : Hex.numberFrom? value ds = some n) (r : List Char) :
    stringBody (.digits high (ds.length + 1) value) (ds ++ r) =
      stringBody (.digits high 1 n) r := by
  induction ds generalizing value with
  | nil =>
    cases h
    rfl
  | cons c ds ih =>
    obtain ⟨d, hd, hn⟩ := Option.bind_eq_some_iff.1 h
    rw [List.cons_append, stringBody]
    simp only [hd, List.length_cons, Nat.lt_add_left_iff_pos, Nat.succ_pos, if_true,
      Nat.add_sub_cancel]
    exact ih hn

theorem stringBody_codeUnit {high : Option Nat} {ds : List Char} {n : Nat} (h : CodeUnit ds n)
    (r : List Char) : stringBody (.digits high 4 0) (ds ++ r) =
      match high with
      | none =>
        if isLow n then .error .malformed
        else if isHigh n then stringBody (.pairBackslash n) r
        else (fun p => (.ofNat n :: p.1, p.2)) <$> stringBody .plain r
      | some m =>
        if isLow n then (fun p => (pair m n :: p.1, p.2)) <$> stringBody .plain r
        else .error .malformed := by
  obtain ⟨hlen, hn⟩ := h
  have hne : ds ≠ [] := List.ne_nil_of_length_eq_add_one hlen
  rw [← List.dropLast_concat_getLast hne, Hex.number?, Hex.numberFrom?_append] at hn
  obtain ⟨m, hm, hlast⟩ := Option.bind_eq_some_iff.1 hn
  obtain ⟨d, hd, hn⟩ := Option.bind_eq_some_iff.1 hlast
  cases hn
  have hinit : ds.dropLast.length + 1 = 4 := by rw [List.length_dropLast, hlen]
  rw [← List.dropLast_concat_getLast hne, List.append_assoc, ← hinit, stringBody_digits hm,
    List.singleton_append, stringBody]
  cases high with
  | none => simp only [hd, Nat.lt_irrefl, if_false]
  | some m => simp only [hd, Nat.lt_irrefl, if_false]

theorem not_surrogate (c : Char) : isLow c.toNat = false ∧ isHigh c.toNat = false := by
  have hvalid : c.toNat < 0xd800 ∨ 0xdfff < c.toNat ∧ c.toNat < 0x110000 := c.valid
  simp only [isLow, isHigh, Bool.and_eq_false_iff, decide_eq_false_iff_not]
  omega

theorem isLow_of_isHigh {n : Nat} (h : isHigh n) : isLow n = false := by
  simp only [isLow, isHigh, Bool.and_eq_true, Bool.and_eq_false_iff, decide_eq_true_iff,
    decide_eq_false_iff_not] at h ⊢
  omega

theorem stringBody_of_spells {s cs : List Char} (h : Spells s cs) (r : List Char) :
    stringBody .plain (cs ++ '"' :: r) = .ok (s, r) := by
  induction h with
  | nil => rfl
  | plain hq hb hc _ ih =>
    rw [List.cons_append, stringBody]
    simp only [if_neg hq, if_neg hb, if_neg (Nat.not_lt.2 hc), ih]
    rfl
  | short he _ ih =>
    rw [List.cons_append, List.cons_append, stringBody]
    simp only [Char.reduceEq, if_false, if_true]
    rw [stringBody]
    simp only [he, ih]
    rfl
  | @unit c ds _ _ hd _ ih =>
    obtain ⟨hlow, hhigh⟩ := not_surrogate c
    rw [List.cons_append, List.cons_append, List.append_assoc, stringBody]
    simp only [Char.reduceEq, if_false, if_true]
    rw [stringBody]
    simp only [escaped?_u, if_true, stringBody_codeUnit hd, hlow, hhigh, ih, Char.ofNat_toNat,
      Bool.false_eq_true, if_false]
    rfl
  | @pair c hi lo ds es _ _ hd he hhi hlo hc _ ih =>
    have hpair : pair hi lo = c := by rw [pair, ← hc, Char.ofNat_toNat]
    rw [List.cons_append, List.cons_append, List.append_assoc, List.cons_append, List.cons_append,
      List.append_assoc, stringBody]
    simp only [Char.reduceEq, if_false, if_true]
    rw [stringBody]
    simp only [escaped?_u, if_true, stringBody_codeUnit hd, isLow_of_isHigh hhi, hhi,
      Bool.false_eq_true, if_false]
    rw [stringBody]
    simp only [if_true]
    rw [stringBody]
    simp only [if_true, stringBody_codeUnit he, hlo, ih, hpair]
    rfl

theorem quoted_of_spells {s : String} {cs : List Char} (h : Spells s.toList cs) (r : List Char) :
    quoted (cs ++ '"' :: r) = .ok (s, r) := by
  rw [quoted, stringBody_of_spells h]
  exact congrArg (fun t => Except.ok (t, r)) String.ofList_toList

theorem text_quoted {s : String} {ws cs : List Char} (hws : Space ws) (h : Spells s.toList cs)
    (r : List Char) : text (ws ++ '"' :: (cs ++ '"' :: r)) = .ok (s, r) := by
  rw [text, skipSpace_mark hws rfl]
  exact (if_pos rfl).trans (quoted_of_spells h r)

theorem text_of_isText {s : String} {v : List Char} (h : IsText s v) {ws : List Char}
    (hws : Space ws) (rest : List Char) : text (ws ++ (v ++ rest)) = .ok (s, rest) := by
  obtain ⟨cs, hcs, rfl⟩ := h
  rw [List.cons_append, List.append_assoc]
  exact text_quoted hws hcs rest

/-! ### Writing -/

theorem codeUnit_fixed {n : Nat} (h : n < 0x10000) : CodeUnit (Hex.fixed 4 n) n :=
  ⟨Hex.length_fixed 4 n, (Hex.number?_fixed 4 n).trans (congrArg some (Nat.mod_eq_of_lt h))⟩

theorem spells_escape (s : List Char) : Spells s (s.flatMap escape) := by
  induction s with
  | nil => exact .nil
  | cons c s ih =>
    rw [List.flatMap_cons, escape]
    split
    · rename_i hc
      obtain rfl | rfl := hc <;> exact .short rfl ih
    split
    · rename_i hc
      exact .short (hc ▸ rfl) ih
    split
    · rename_i hc
      exact .short (hc ▸ rfl) ih
    split
    · rename_i hc
      exact .short (hc ▸ rfl) ih
    split
    · rename_i hc
      exact .short (hc ▸ rfl) ih
    split
    · rename_i hc
      exact .short (hc ▸ rfl) ih
    split
    · rename_i hc
      exact .unit (codeUnit_fixed (by omega)) ih
    · rename_i hq _ _ _ _ _ hc
      rw [not_or] at hq
      exact .plain hq.1 hq.2 (Nat.not_lt.1 hc) ih

theorem isText_string (s : String) : IsText s (string s) := ⟨_, spells_escape s.toList, rfl⟩

/-! ### Skipping -/

theorem skipString_plain (c : Char) (r : List Char) : skipString false 0 (c :: r) =
    if c = '"' then .ok ((), r)
    else if c = '\\' then skipString true 0 r
    else if c.toNat < 0x20 then .error .malformed
    else skipString false 0 r := rfl

theorem skipString_escape (c : Char) (r : List Char) : skipString true 0 (c :: r) =
    if (escaped? c).isSome then skipString false 0 r
    else if c = 'u' then skipString false 4 r
    else .error .malformed := rfl

theorem skipString_digit {left : Nat} {c : Char} (h : 0 < left) (hc : (Hex.value? c).isSome)
    (r : List Char) : skipString false left (c :: r) = skipString false (left - 1) r := by
  rw [skipString, if_pos h, if_pos hc]

theorem skipString_digits {ds : List Char} (h : ∀ c ∈ ds, (Hex.value? c).isSome) (r : List Char) :
    skipString false ds.length (ds ++ r) = skipString false 0 r := by
  induction ds with
  | nil => rfl
  | cons c ds ih =>
    rw [List.forall_mem_cons] at h
    rw [List.cons_append, List.length_cons, skipString_digit (Nat.succ_pos _) h.1]
    exact ih h.2

theorem skipString_of_isChars {cs : List Char} (h : IsChars cs) (r : List Char) :
    skipString false 0 (cs ++ '"' :: r) = .ok ((), r) := by
  induction h with
  | nil => rfl
  | plain hq hb hc _ ih =>
    rw [List.cons_append, skipString_plain, if_neg hq, if_neg hb, if_neg (Nat.not_lt.2 hc), ih]
  | short he _ ih =>
    rw [List.cons_append, List.cons_append, skipString_plain, if_neg (by decide), if_pos rfl,
      skipString_escape, if_pos he, ih]
  | @unit ds _ hl hd _ ih =>
    rw [List.cons_append, List.cons_append, List.append_assoc, skipString_plain,
      if_neg (by decide), if_pos rfl, skipString_escape, if_neg (by decide), if_pos rfl, ← hl,
      skipString_digits hd, ih]

/-- Where a string that is skipped stands, by where the same string stands when it is read. -/
def StringMode.skipping : StringMode → Bool × Nat
  | .plain => (false, 0)
  | .escape => (true, 0)
  | .digits _ left _ => (false, left)
  | .pairBackslash _ => (false, 0)
  | .pairU _ => (true, 0)

def StringMode.Waits : StringMode → Prop
  | .digits _ left _ => 0 < left
  | _ => True

/-- Behind the character `c` the string is still read, and skipping it comes to the same place. -/
def StringMode.Passes (m : StringMode) (c : Char) (cs r : List Char) : Prop :=
  ∃ n ds, n.Waits ∧ stringBody n cs = .ok (ds, r) ∧
    skipString m.skipping.1 m.skipping.2 (c :: cs) = skipString n.skipping.1 n.skipping.2 cs

section
variable {c d : Char} {cs ds r : List Char}

theorem passes_push {m : StringMode} (h : (fun (p : List Char × List Char) => (d :: p.1, p.2)) <$>
      stringBody .plain cs = .ok (ds, r))
    (hskip : skipString m.skipping.1 m.skipping.2 (c :: cs) = skipString false 0 cs) :
    m.Passes c cs r := by
  obtain ⟨⟨ds', r'⟩, hbody, hpair⟩ := map_eq_ok.1 h
  cases hpair
  exact ⟨.plain, ds', trivial, hbody, hskip⟩

theorem passes_plain (h : stringBody .plain (c :: cs) = .ok (ds, r)) (hc : c ≠ '"') :
    StringMode.plain.Passes c cs r := by
  have hskip := skipString_plain c cs
  rw [stringBody, if_neg hc] at h
  rw [if_neg hc] at hskip
  split at h
  · rename_i hb
    exact ⟨.escape, ds, trivial, h, by rwa [if_pos hb] at hskip⟩
  · rename_i hb
    rw [if_neg hb] at hskip
    split at h
    · cases h
    · rename_i hlt
      exact passes_push h (by rwa [if_neg hlt] at hskip)

theorem passes_escape (h : stringBody .escape (c :: cs) = .ok (ds, r)) :
    StringMode.escape.Passes c cs r := by
  have hskip := skipString_escape c cs
  rw [stringBody] at h
  split at h
  · rename_i he
    exact passes_push h (by rwa [he, Option.isSome_some, if_pos rfl] at hskip)
  · rename_i he
    rw [he, Option.isSome_none, if_neg Bool.false_ne_true] at hskip
    split at h
    · rename_i hu
      exact ⟨.digits none 4 0, ds, Nat.succ_pos 3, h, by rwa [if_pos hu] at hskip⟩
    · cases h

theorem passes_digits {high : Option Nat} {left value : Nat} (hleft : 0 < left)
    (h : stringBody (.digits high left value) (c :: cs) = .ok (ds, r)) :
    (StringMode.digits high left value).Passes c cs r := by
  rw [stringBody] at h
  cases hd : Hex.value? c with
  | none =>
    simp only [hd] at h
    cases h
  | some d =>
    have hskip := skipString_digit hleft (Option.isSome_of_eq_some hd) cs
    simp only [hd] at h
    split at h
    · rename_i hmore
      exact ⟨.digits high (left - 1) _, ds, Nat.sub_pos_of_lt hmore, h, hskip⟩
    · rename_i hlast
      rw [show left - 1 = 0 by omega] at hskip
      split at h
      · split at h
        · cases h
        · split at h
          · exact ⟨.pairBackslash _, ds, trivial, h, hskip⟩
          · exact passes_push h hskip
      · split at h
        · exact passes_push h hskip
        · cases h

theorem passes_pairBackslash {high : Nat}
    (h : stringBody (.pairBackslash high) (c :: cs) = .ok (ds, r)) :
    (StringMode.pairBackslash high).Passes c cs r := by
  rw [stringBody] at h
  split at h
  · rename_i hb
    subst hb
    exact ⟨.pairU high, ds, trivial, h, rfl⟩
  · cases h

theorem passes_pairU {high : Nat} (h : stringBody (.pairU high) (c :: cs) = .ok (ds, r)) :
    (StringMode.pairU high).Passes c cs r := by
  rw [stringBody] at h
  split at h
  · rename_i hu
    subst hu
    exact ⟨.digits (some high) 4 0, ds, Nat.succ_pos 3, h, rfl⟩
  · cases h

end

theorem skipString_of_stringBody {m : StringMode} {cs ds r : List Char} (hm : m.Waits)
    (h : stringBody m cs = .ok (ds, r)) :
    skipString m.skipping.1 m.skipping.2 cs = .ok ((), r) := by
  induction cs generalizing m ds with
  | nil => cases h
  | cons c cs ih =>
    have passes (hp : m.Passes c cs r) :
        skipString m.skipping.1 m.skipping.2 (c :: cs) = .ok ((), r) := by
      obtain ⟨n, ds', hn, hbody, hskip⟩ := hp
      exact hskip.trans (ih hn hbody)
    cases m with
    | plain =>
      by_cases hc : c = '"'
      · subst hc
        cases h
        rfl
      · exact passes (passes_plain h hc)
    | escape => exact passes (passes_escape h)
    | digits high left value => exact passes (passes_digits hm h)
    | pairBackslash high => exact passes (passes_pairBackslash h)
    | pairU high => exact passes (passes_pairU h)

theorem skipString_of_quoted {cs r : List Char} {s : String} (h : quoted cs = .ok (s, r)) :
    skipString false 0 cs = .ok ((), r) := by
  obtain ⟨⟨ds, r'⟩, hbody, hpair⟩ := map_eq_ok.1 h
  cases hpair
  exact skipString_of_stringBody (m := .plain) trivial hbody

end EventRelay.Json
