import EventRelay.Config.Environment
import Mathlib.Data.List.Induction
/-!
Decimal numerals with white space around them. Main statement: `numeral?_trim_eq_some_iff`, which
texts are read as a number.
-/
namespace EventRelay.Text

/-- The text has nothing but white space around `cs`. -/
def Surrounds (cs text : List Char) : Prop :=
  ∃ a b : List Char, (∀ c ∈ a, isBlank c) ∧ (∀ c ∈ b, isBlank c) ∧ text = a ++ cs ++ b

/-- The digits of `n`, behind zeros and a plus sign if there are any. -/
inductive IsNumeral (n : Nat) : List Char → Prop
  | plain (zeros : Nat) : IsNumeral n (List.replicate zeros '0' ++ Nat.toDigits 10 n)
  | plus (zeros : Nat) : IsNumeral n ('+' :: (List.replicate zeros '0' ++ Nat.toDigits 10 n))

theorem trimLeft_eq (cs : List Char) :
    ∃ a : List Char, (∀ c ∈ a, isBlank c) ∧ cs = a ++ trimLeft cs := by
  refine ⟨cs.takeWhile isBlank, ?_, List.takeWhile_append_dropWhile.symm⟩
  exact List.all_eq_true.1 List.all_takeWhile

theorem isBlank_head_trimLeft {cs : List Char} {c : Char} (h : (trimLeft cs).head? = some c) :
    isBlank c = false := by
  have hnot := List.head?_dropWhile_not isBlank cs
  rw [trimLeft] at h
  rw [h] at hnot
  simpa using hnot

theorem surrounds_trim (cs : List Char) : Surrounds (trim cs) cs ∧ Trimmed (trim cs) := by
  obtain ⟨a, ha, hcs⟩ := trimLeft_eq cs
  obtain ⟨b, hb, hrev⟩ := trimLeft_eq (trimLeft cs).reverse
  have hback : trimLeft cs = trim cs ++ b.reverse := by
    rw [trim, ← List.reverse_append, ← hrev, List.reverse_reverse]
  have hb' : ∀ c ∈ b.reverse, isBlank c := fun c hc => hb c (List.mem_reverse.1 hc)
  refine ⟨⟨a, b.reverse, ha, hb', ?_⟩, fun c hc => ?_, fun c hc => ?_⟩
  · rw [List.append_assoc, ← hback]
    exact hcs
  · refine @isBlank_head_trimLeft cs c ?_
    rw [hback, List.head?_append, hc]
    rfl
  · rw [trim, List.getLast?_reverse] at hc
    exact isBlank_head_trimLeft hc

theorem trimmed_of_any {cs : List Char} (h : cs.any isBlank = false) : Trimmed cs := by
  have hall : ∀ c ∈ cs, isBlank c = false := by simpa using h
  exact ⟨fun c hc => hall c (List.mem_of_mem_head? hc),
    fun c hc => hall c (List.mem_of_getLast? hc)⟩

theorem trim_of_surrounds {cs text : List Char} (h : Surrounds cs text) (ht : Trimmed cs) :
    trim text = cs := by
  obtain ⟨a, b, ha, hb, rfl⟩ := h
  exact trim_surround ha hb ht

theorem trim_eq_nil {cs : List Char} (h : ∀ c ∈ cs, isBlank c) : trim cs = [] :=
  trim_of_surrounds ⟨cs, [], h, List.forall_mem_nil _, by simp⟩ ⟨nofun, nofun⟩

/-! ### Digits -/

theorem isDigit_iff {c : Char} : c.isDigit = true ↔ 48 ≤ c.toNat ∧ c.toNat ≤ 57 := by
  unfold Char.isDigit
  rw [Bool.and_eq_true, decide_eq_true_iff, decide_eq_true_iff, ge_iff_le,
    UInt32.le_iff_toNat_le, UInt32.le_iff_toNat_le]
  rfl

theorem digitChar_of_isDigit {c : Char} (h : c.isDigit = true) :
    (c.toNat - '0'.toNat).digitChar = c := by
  rw [isDigit_iff] at h
  have hall : ∀ d : Fin 10, (48 + d.val - '0'.toNat).digitChar.toNat = 48 + d.val := by decide
  have hc := hall ⟨c.toNat - 48, by omega⟩
  rw [show 48 + (c.toNat - 48) = c.toNat by omega] at hc
  exact Char.toNat_inj.1 hc

theorem digit_lt {c : Char} (h : c.isDigit = true) : c.toNat - '0'.toNat < 10 := by
  rw [isDigit_iff] at h
  have hzero : '0'.toNat = 48 := rfl
  omega

theorem digits_eq {ds : List Char} (hne : ds ≠ []) (hds : ∀ c ∈ ds, c.isDigit = true) :
    ∃ zeros, ds = List.replicate zeros '0' ++ Nat.toDigits 10 (Nat.ofDigitChars 10 ds 0) := by
  induction ds using List.reverseRecOn with
  | nil => exact absurd rfl hne
  | append_singleton ds c ih =>
    have hc : c.isDigit = true := hds c (List.mem_append_right _ List.mem_cons_self)
    have hlast : Nat.toDigits 10 (c.toNat - '0'.toNat) = [c] := by
      rw [Nat.toDigits_of_lt_base (digit_lt hc), digitChar_of_isDigit hc]
    rw [Nat.ofDigitChars_append, Nat.ofDigitChars_cons, Nat.ofDigitChars_nil]
    by_cases hnil : ds = []
    · refine ⟨0, ?_⟩
      subst hnil
      rw [Nat.ofDigitChars_nil, Nat.mul_zero, Nat.zero_add, hlast]
      rfl
    · obtain ⟨zeros, hz⟩ := ih hnil fun x hx => hds x (List.mem_append_left _ hx)
      obtain hzero | hpos := Nat.eq_zero_or_pos (Nat.ofDigitChars 10 ds 0)
      · refine ⟨zeros + 1, ?_⟩
        rw [hzero] at hz
        rw [hzero, Nat.mul_zero, Nat.zero_add, hlast, List.replicate_succ', hz]
        rfl
      · refine ⟨zeros, ?_⟩
        rw [← Nat.toDigits_append_toDigits (by decide) hpos (digit_lt hc), hlast,
          ← List.append_assoc, ← hz]

theorem ofDigitChars_zeros (zeros n : Nat) :
    Nat.ofDigitChars 10 (List.replicate zeros '0' ++ Nat.toDigits 10 n) 0 = n := by
  rw [Nat.ofDigitChars_append, Nat.ofDigitChars_replicate_zero, Nat.mul_zero,
    Nat.ofDigitChars_toDigits (by decide) (by decide)]

theorem isDigit_of_mem_zeros {zeros n : Nat} {c : Char}
    (h : c ∈ List.replicate zeros '0' ++ Nat.toDigits 10 n) : c.isDigit = true := by
  obtain h | h := List.mem_append.1 h
  · rw [List.eq_of_mem_replicate h]
    rfl
  · exact Nat.isDigit_of_mem_toDigits (by decide) (by decide) h

theorem not_isBlank_of_isDigit {c : Char} (h : c.isDigit = true) : isBlank c = false := by
  rw [isDigit_iff] at h
  simp only [isBlank, Bool.or_eq_false_iff, Bool.and_eq_false_iff, decide_eq_false_iff_not,
    beq_eq_false_iff_ne]
  omega

theorem IsNumeral.mem {n : Nat} {cs : List Char} (h : IsNumeral n cs) {c : Char} (hc : c ∈ cs) :
    c = '+' ∨ c.isDigit = true := by
  cases h with
  | plain zeros => exact .inr (isDigit_of_mem_zeros hc)
  | plus zeros => exact (List.mem_cons.1 hc).imp_right isDigit_of_mem_zeros

theorem IsNumeral.trimmed {n : Nat} {cs : List Char} (h : IsNumeral n cs) : Trimmed cs := by
  refine trimmed_of_any (List.any_eq_false.2 fun c hc => Bool.eq_false_iff.1 ?_)
  obtain rfl | hdigit := h.mem hc
  · rfl
  · exact not_isBlank_of_isDigit hdigit

theorem value_eq_some_iff {ds : List Char} {n : Nat} :
    (if ds ≠ [] ∧ ds.all Char.isDigit ∧ Nat.ofDigitChars 10 ds 0 < UInt64.size then
      some (Nat.ofDigitChars 10 ds 0) else none) = some n ↔
    (∃ zeros, ds = List.replicate zeros '0' ++ Nat.toDigits 10 n) ∧ n < UInt64.size := by
  rw [Option.ite_none_right_eq_some]
  constructor
  · intro h
    obtain ⟨⟨hne, hall, hlt⟩, hn⟩ := h
    cases hn
    exact ⟨digits_eq hne (List.all_eq_true.1 hall), hlt⟩
  · intro h
    obtain ⟨⟨zeros, rfl⟩, hlt⟩ := h
    rw [ofDigitChars_zeros]
    refine ⟨⟨by simp [Nat.toDigits_ne_nil], ?_, hlt⟩, rfl⟩
    exact List.all_eq_true.2 fun c hc => isDigit_of_mem_zeros hc

theorem numeral?_eq_some_iff {cs : List Char} {n : Nat} :
    Environment.numeral? cs = some n ↔ IsNumeral n cs ∧ n < UInt64.size := by
  simp only [Environment.numeral?, value_eq_some_iff]
  refine and_congr_left fun _ => ⟨fun h => ?_, fun h => ?_⟩
  · obtain ⟨zeros, hz⟩ := h
    split at hz
    · rename_i hplus
      obtain ⟨r, rfl⟩ := List.head?_eq_some_iff.1 hplus
      rw [List.drop_succ_cons, List.drop_zero] at hz
      exact hz ▸ .plus zeros
    · exact hz ▸ .plain zeros
  · cases h with
    | plus zeros => exact ⟨zeros, rfl⟩
    | plain zeros =>
      refine ⟨zeros, if_neg fun hplus => ?_⟩
      cases isDigit_of_mem_zeros (List.mem_of_mem_head? hplus)

theorem numeral?_trim_eq_some_iff {text : List Char} {n : Nat} :
    Environment.numeral? (trim text) = some n ↔
      (∃ cs, IsNumeral n cs ∧ Surrounds cs text) ∧ n < UInt64.size := by
  rw [numeral?_eq_some_iff]
  constructor
  · intro h
    exact ⟨⟨_, h.1, (surrounds_trim text).1⟩, h.2⟩
  · intro h
    obtain ⟨⟨cs, hn, hcs⟩, hlt⟩ := h
    rw [trim_of_surrounds hcs hn.trimmed]
    exact ⟨hn, hlt⟩

end EventRelay.Text
