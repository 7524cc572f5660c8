import EventRelay.Json.Number
import EventRelay.Json.Writer
import EventRelay.Proofs.Json.Grammar
import EventRelay.Proofs.Outcome
import EventRelay.Proofs.Text.Numeral
/-!
Numbers. Main statements: `number_integer`, an integer of 64 bits is read back, and
`skipNumber_of_number`, a number that is read can also be skipped.
-/
namespace EventRelay.Json
open Outcome Text

/-! ### Digits -/

def Digitless (rest : List Char) : Prop := ∀ c, rest.head? = some c → c.isDigit = false

theorem Ends.ne {rest : List Char} (h : Ends rest) {c d : Char} (hc : rest.head? = some c)
    (hd : ¬(isSpace d = true ∨ d = ',' ∨ d = ']' ∨ d = '\x7d')) : c ≠ d :=
  fun heq => hd (heq ▸ h c hc)

theorem Ends.digitless {rest : List Char} (h : Ends rest) : Digitless rest := by
  intro c hc
  have hstop := h c hc
  simp only [isSpace, Bool.or_eq_true, beq_iff_eq] at hstop
  obtain ((((rfl | rfl) | rfl) | rfl) | rfl | rfl | rfl) := hstop <;> rfl

theorem span_digits {ds rest : List Char} (hd : ∀ c ∈ ds, c.isDigit = true)
    (hr : Digitless rest) :
    (ds ++ rest).takeWhile Char.isDigit = ds ∧ (ds ++ rest).dropWhile Char.isDigit = rest := by
  rw [List.takeWhile_append_of_pos hd, List.dropWhile_append_of_pos hd]
  cases rest with
  | nil => simp
  | cons c r =>
    have hc : ¬c.isDigit = true := by simp [hr c rfl]
    rw [List.takeWhile_cons_of_neg hc, List.dropWhile_cons_of_neg hc, List.append_nil]
    exact ⟨rfl, rfl⟩

theorem digits_append {ds rest : List Char} (hd : Digits ds) (hr : Digitless rest) :
    digits (ds ++ rest) = .ok (ds, rest) := by
  obtain ⟨htake, hdrop⟩ := span_digits hd.2 hr
  rw [digits, htake, hdrop]
  exact if_pos hd.1

theorem skipDigits_append {ds rest : List Char} (hd : Digits ds) (hr : Digitless rest) :
    skipDigits (ds ++ rest) = .ok rest := by
  cases ds with
  | nil => exact absurd rfl hd.1
  | cons c ds =>
    obtain ⟨hc, hds⟩ := List.forall_mem_cons.1 hd.2
    rw [List.cons_append, skipDigits, if_pos hc, (span_digits hds hr).2]

theorem skipDigits_of_digits {cs ds r : List Char} (h : digits cs = .ok (ds, r)) :
    skipDigits cs = .ok r ∧ ds = cs.takeWhile Char.isDigit := by
  rw [digits] at h
  split at h
  · rename_i hne
    cases h
    cases cs with
    | nil => exact absurd rfl hne
    | cons c cs =>
      have hc : c.isDigit = true := by
        by_contra hc
        exact hne (List.takeWhile_cons_of_neg hc)
      rw [skipDigits, if_pos hc, List.dropWhile_cons_of_pos hc]
      exact ⟨rfl, rfl⟩
  · split at h <;> cases h

/-! ### Integers -/

theorem digits_toDigits (n : Nat) : Digits (Nat.toDigits 10 n) :=
  ⟨Nat.toDigits_ne_nil, fun _ hc => Nat.isDigit_of_mem_toDigits (by decide) (by decide) hc⟩

theorem head_toDigits_append (n : Nat) (r : List Char) :
    (Nat.toDigits 10 n ++ r).head? = (Nat.toDigits 10 n).head? := by
  rw [List.head?_append, List.head?_eq_some_head Nat.toDigits_ne_nil, Option.some_or]

theorem eq_zero_of_head_toDigits {n : Nat} (h : (Nat.toDigits 10 n).head? = some '0') : n = 0 := by
  induction n using Nat.strongRecOn with
  | ind n ih =>
    obtain hlt | hle := Nat.lt_or_ge n 10
    · have hall : ∀ d : Fin 10, some d.val.digitChar = some '0' → d.val = 0 := by decide
      rw [Nat.toDigits_of_lt_base hlt] at h
      exact hall ⟨n, hlt⟩ h
    · have hpos : 0 < n / 10 := Nat.div_pos hle (by decide)
      rw [← Nat.div_add_mod n 10, ← Nat.toDigits_append_toDigits (by decide) hpos
        (Nat.mod_lt n (by decide)), head_toDigits_append] at h
      exact absurd (ih _ (by omega) h) (Nat.pos_iff_ne_zero.1 hpos)

theorem toDigits_head {n : Nat} (h : (Nat.toDigits 10 n).head? = some '0') :
    Nat.toDigits 10 n = ['0'] := by
  rw [eq_zero_of_head_toDigits h]
  rfl

theorem fraction_of_ends {rest : List Char} (h : Ends rest) : fraction rest = .ok (none, rest) := by
  unfold fraction
  split
  · exact absurd rfl (h.ne rfl (by decide))
  · rfl

theorem exponent_of_ends {rest : List Char} (h : Ends rest) : exponent rest = .ok (none, rest) := by
  cases rest with
  | nil => rfl
  | cons c r =>
    rw [exponent, if_neg (not_or.2 ⟨h.ne rfl (by decide), h.ne rfl (by decide)⟩)]

theorem number_toDigits {n : Nat} (hn : n < UInt64.size) {rest : List Char} (hr : Ends rest) :
    number (Nat.toDigits 10 n ++ rest) = .ok (some (n : Int), rest) ∧
    (0 < n → Int64.minValue.toInt ≤ -n →
      number ('-' :: (Nat.toDigits 10 n ++ rest)) = .ok (some (-n : Int), rest)) := by
  have hvalue : Nat.ofDigitChars 10 (Nat.toDigits 10 n) 0 = n :=
    Nat.ofDigitChars_toDigits (by decide) (by decide)
  have hleading : leading 0 (Nat.toDigits 10 n) = (n, []) := by
    rw [leading_of_lt (by rwa [hvalue]), hvalue]
  have hzero : ¬((Nat.toDigits 10 n).head? = some '0' ∧ Nat.toDigits 10 n ≠ ['0']) :=
    fun h => h.2 (toDigits_head h.1)
  have hsign : (Nat.toDigits 10 n ++ rest).head? ≠ some '-' := by
    rw [head_toDigits_append]
    intro h
    cases (digits_toDigits n).2 _ (List.mem_of_mem_head? h)
  constructor
  · simp only [number, hsign, decide_false, if_false,
      digits_append (digits_toDigits n) hr.digitless, ok_bind, hzero, fraction_of_ends hr,
      exponent_of_ends hr, hleading, true_and, if_true, Bool.not_false]
    rfl
  · intro hpos hmin
    simp only [number, List.head?_cons, decide_true, if_true, List.drop_succ_cons, List.drop_zero,
      digits_append (digits_toDigits n) hr.digitless, ok_bind, hzero, if_false,
      fraction_of_ends hr, exponent_of_ends hr, hleading, true_and, Bool.not_true,
      Bool.false_eq_true, hpos, hmin]
    rfl

theorem number_integer {n : Int} (hlo : Int64.minValue.toInt ≤ n) (hhi : n ≤ Int64.maxValue.toInt)
    {rest : List Char} (hr : Ends rest) : number (integer n ++ rest) = .ok (some n, rest) := by
  have hmin : Int64.minValue.toInt = -2 ^ 63 := rfl
  have hmax : Int64.maxValue.toInt = 2 ^ 63 - 1 := rfl
  have hsize : UInt64.size = 2 ^ 64 := rfl
  cases n with
  | ofNat m =>
    rw [Int.ofNat_eq_natCast] at hhi
    exact (number_toDigits (by omega) hr).1
  | negSucc m => exact (number_toDigits (n := m + 1) (by omega) hr).2 (Nat.succ_pos m) hlo

/-! ### Skipping -/

theorem Fraction.digitless {frac exp rest : List Char} (hf : Fraction frac) (he : Exponent exp)
    (hr : Ends rest) : Digitless (frac ++ (exp ++ rest)) := by
  cases hf with
  | some _ =>
    intro c hc
    cases hc
    rfl
  | none =>
    cases he with
    | none => exact hr.digitless
    | some he _ _ =>
      intro c hc
      cases hc
      obtain rfl | rfl := he <;> rfl

theorem skipExponent_append {exp rest : List Char} (he : Exponent exp) (hr : Ends rest) :
    skipExponent (exp ++ rest) = .ok rest := by
  cases he with
  | none =>
    rw [List.nil_append]
    cases rest with
    | nil => rfl
    | cons c r =>
      rw [skipExponent, if_neg (not_or.2 ⟨hr.ne rfl (by decide), hr.ne rfl (by decide)⟩)]
  | @some e sign ds he hs hd =>
    have hsign : (exponentSign (sign ++ ds ++ rest)).2 = ds ++ rest := by
      obtain rfl | rfl | rfl := hs
      · cases ds with
        | nil => exact absurd rfl hd.1
        | cons c ds =>
          have hc : c.isDigit = true := hd.2 c List.mem_cons_self
          have hplus : c ≠ '+' := by
            rintro rfl
            cases hc
          have hminus : c ≠ '-' := by
            rintro rfl
            cases hc
          simp [exponentSign, hplus, hminus]
      · rfl
      · rfl
    rw [List.cons_append, skipExponent, if_pos he, hsign, skipDigits_append hd hr.digitless]

theorem skipNumber_minus {cs : List Char} (h : cs.head? ≠ some '-') :
    skipNumber ('-' :: cs) = skipNumber cs := by
  simp only [skipNumber, List.head?_cons, if_true, List.drop_succ_cons, List.drop_zero, h, if_false]

theorem not_zero_first {ds rest : List Char} (hd : Digits ds)
    (hz : ds.head? = some '0' → ds = ['0']) (hr : Digitless rest) :
    ¬((ds ++ rest).head? = some '0' ∧ ((ds ++ rest).drop 1).head?.any Char.isDigit) := by
  rintro ⟨hzero, hnext⟩
  have hhead : ds.head? = some '0' := by
    cases ds with
    | nil => exact absurd rfl hd.1
    | cons d ds => exact hzero
  rw [hz hhead, List.singleton_append, List.drop_succ_cons, List.drop_zero,
    Option.any_eq_true] at hnext
  obtain ⟨c, hc, hdigit⟩ := hnext
  rw [hr c hc] at hdigit
  cases hdigit

theorem skipNumber_of_isNumber {cs rest : List Char} (h : IsNumber cs) (hr : Ends rest) :
    skipNumber (cs ++ rest) = .ok rest := by
  obtain ⟨hs, hd, hz, hf, he⟩ := h
  rename_i sign ds frac exp
  have htail : Digitless (frac ++ (exp ++ rest)) := hf.digitless he hr
  have hsign : (ds ++ (frac ++ (exp ++ rest))).head? ≠ some '-' := by
    obtain ⟨hne, hdigits⟩ := hd
    cases ds with
    | nil => exact absurd rfl hne
    | cons d ds =>
      intro hminus
      cases hminus
      cases hdigits '-' List.mem_cons_self
  have hplain : skipNumber (ds ++ (frac ++ (exp ++ rest))) = .ok rest := by
    simp only [skipNumber, hsign, if_false, skipDigits_append hd htail, ok_bind,
      not_zero_first hd hz htail]
    cases hf with
    | some hd' =>
      have hexp : Digitless (exp ++ rest) := Fraction.none.digitless he hr
      exact (congrArg (· >>= skipExponent) (skipDigits_append hd' hexp)).trans
        (skipExponent_append he hr)
    | none =>
      split
      · rename_i hdot
        cases he with
        | none => exact absurd rfl (hr.ne (congrArg List.head? hdot) (by decide))
        | some he _ _ => exact absurd ((List.cons.inj hdot).1 ▸ he) (by decide)
      · exact skipExponent_append he hr
  simp only [List.append_assoc]
  obtain rfl | rfl := hs
  · exact hplain
  · exact (skipNumber_minus hsign).trans hplain

theorem skipExponent_of_exponent {cs r : List Char} {e : Option Int}
    (h : exponent cs = .ok (e, r)) : skipExponent cs = .ok r := by
  cases cs with
  | nil =>
    cases h
    rfl
  | cons c cs =>
    rw [exponent] at h
    rw [skipExponent]
    split at h
    · rename_i hc
      rw [if_pos hc]
      obtain ⟨⟨ds, r'⟩, hds, hr⟩ := bind_eq_ok.1 h
      cases hr
      exact (skipDigits_of_digits hds).1
    · rename_i hc
      cases h
      rw [if_neg hc]

theorem zero_first {cs : List Char}
    (h : cs.head? = some '0' ∧ (cs.drop 1).head?.any Char.isDigit) :
    (cs.takeWhile Char.isDigit).head? = some '0' ∧ cs.takeWhile Char.isDigit ≠ ['0'] := by
  obtain ⟨hzero, hnext⟩ := h
  obtain ⟨cs, rfl⟩ := List.head?_eq_some_iff.1 hzero
  rw [List.drop_succ_cons, List.drop_zero, Option.any_eq_true] at hnext
  obtain ⟨c, hc, hdigit⟩ := hnext
  obtain ⟨cs, rfl⟩ := List.head?_eq_some_iff.1 hc
  rw [List.takeWhile_cons_of_pos rfl, List.takeWhile_cons_of_pos hdigit]
  exact ⟨rfl, nofun⟩

theorem skipNumber_of_number {cs r : List Char} {n : Option Int} (h : number cs = .ok (n, r)) :
    skipNumber cs = .ok r := by
  obtain ⟨⟨ds, r₁⟩, hds, h⟩ := bind_eq_ok.1 h
  obtain ⟨hskip, htake⟩ := skipDigits_of_digits hds
  simp only at h
  split at h
  · cases h
  rename_i hzero
  obtain ⟨⟨frac, r₂⟩, hfrac, h⟩ := bind_eq_ok.1 h
  obtain ⟨⟨exp, r₃⟩, hexp, h⟩ := bind_eq_ok.1 h
  -- Whatever the number comes to, the text behind it is the one behind the exponent.
  have hr : r₃ = r := by
    split at h
    · split at h
      · cases h
        rfl
      split at h
      · cases h
        rfl
      split at h <;> cases h
      rfl
    · split at h <;> cases h
      rfl
  subst hr
  have hskipExponent : skipExponent r₂ = .ok r₃ := skipExponent_of_exponent hexp
  rw [htake] at hzero
  simp only [skipNumber, hskip, ok_bind, mt zero_first hzero, if_false]
  unfold fraction at hfrac
  split at hfrac
  · obtain ⟨⟨fs, r'⟩, hfs, hpair⟩ := map_eq_ok.1 hfrac
    cases hpair
    exact (congrArg (· >>= skipExponent) (skipDigits_of_digits hfs).1).trans hskipExponent
  · cases hfrac
    exact hskipExponent

end EventRelay.Json
