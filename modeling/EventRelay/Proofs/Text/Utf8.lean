import EventRelay.Text.Utf8
/-!
The bytes that are a text are those that encode one. Main statement: `decode_eq_ok_iff`.
-/
namespace EventRelay.Utf8

theorem isTail_iff {b : UInt8} : isTail b = true ↔ 0x80 ≤ b.toNat ∧ b.toNat < 0xC0 := by
  simp [isTail]

theorem isSecondOfThree_iff {a b : UInt8} : isSecondOfThree a b = true ↔
    (0x80 ≤ b.toNat ∧ b.toNat < 0xC0) ∧ (a.toNat = 0xE0 → 0xA0 ≤ b.toNat) ∧
      (a.toNat = 0xED → b.toNat < 0xA0) := by
  simp only [isSecondOfThree, Bool.and_eq_true, isTail_iff, Bool.or_eq_true, bne_iff_ne,
    decide_eq_true_eq, ← Decidable.imp_iff_not_or, ne_eq, and_assoc]

theorem isSecondOfFour_iff {a b : UInt8} : isSecondOfFour a b = true ↔
    (0x80 ≤ b.toNat ∧ b.toNat < 0xC0) ∧ (a.toNat = 0xF0 → 0x90 ≤ b.toNat) ∧
      (a.toNat = 0xF4 → b.toNat < 0x90) := by
  simp only [isSecondOfFour, Bool.and_eq_true, isTail_iff, Bool.or_eq_true, bne_iff_ne,
    decide_eq_true_eq, ← Decidable.imp_iff_not_or, ne_eq, and_assoc]

theorem toNat_ofNat {n : Nat} (h : n.isValidChar) : (Char.ofNat n).val.toNat = n := by
  rw [Char.ofNat, dif_pos h]
  rfl

theorem encodeChar_one {a : UInt8} (h : a.toNat < 0x80) :
    String.utf8EncodeChar (.ofNat a.toNat) = [a] := by
  have hv : a.toNat.isValidChar := .inl (by omega)
  rw [String.utf8EncodeChar, toNat_ofNat hv, if_pos (by omega)]
  simp

theorem encodeChar_two {a b : UInt8} (h : 0xC2 ≤ a.toNat) (h' : a.toNat < 0xE0)
    (hb : isTail b = true) : String.utf8EncodeChar (two a b) = [a, b] := by
  rw [isTail_iff] at hb
  have hv : ((a.toNat - 0xC0) * 64 + (b.toNat - 0x80)).isValidChar := .inl (by omega)
  rw [String.utf8EncodeChar, two, toNat_ofNat hv, if_neg (by omega), if_pos (by omega)]
  simp only [List.cons.injEq, and_true, ← UInt8.toNat_inj, UInt8.toNat_ofNat']
  omega

theorem encodeChar_three {a b c : UInt8} (h : 0xE0 ≤ a.toNat) (h' : a.toNat < 0xF0)
    (hb : isSecondOfThree a b = true) (hc : isTail c = true) :
    String.utf8EncodeChar (three a b c) = [a, b, c] := by
  rw [isSecondOfThree_iff] at hb
  rw [isTail_iff] at hc
  have hv : ((a.toNat - 0xE0) * 4096 + (b.toNat - 0x80) * 64 + (c.toNat - 0x80)).isValidChar := by
    unfold Nat.isValidChar
    omega
  rw [String.utf8EncodeChar, three, toNat_ofNat hv, if_neg (by omega), if_neg (by omega),
    if_pos (by omega)]
  simp only [List.cons.injEq, and_true, ← UInt8.toNat_inj, UInt8.toNat_ofNat']
  omega

theorem encodeChar_four {a b c d : UInt8} (h : 0xF0 ≤ a.toNat) (h' : a.toNat < 0xF5)
    (hb : isSecondOfFour a b = true) (hc : isTail c = true) (hd : isTail d = true) :
    String.utf8EncodeChar (four a b c d) = [a, b, c, d] := by
  rw [isSecondOfFour_iff] at hb
  rw [isTail_iff] at hc hd
  have hv : ((a.toNat - 0xF0) * 262144 + (b.toNat - 0x80) * 4096 + (c.toNat - 0x80) * 64 +
      (d.toNat - 0x80)).isValidChar := .inr (by omega)
  rw [String.utf8EncodeChar, four, toNat_ofNat hv, if_neg (by omega), if_neg (by omega),
    if_neg (by omega)]
  simp only [List.cons.injEq, and_true, ← UInt8.toNat_inj, UInt8.toNat_ofNat']
  omega

theorem encodeChars_of_map {c : Char} {i : Nat} {bs r : List UInt8} {cs : List Char}
    (hc : String.utf8EncodeChar c = bs)
    (ih : ∀ cs, decodeFrom i r = .ok cs → r = encodeChars cs)
    (h : (c :: ·) <$> decodeFrom i r = .ok cs) : bs ++ r = encodeChars cs := by
  cases hr : decodeFrom i r with
  | error f =>
    rw [hr] at h
    cases h
  | ok rest =>
    rw [hr] at h
    cases h
    rw [encodeChars, List.flatMap_cons, hc]
    exact congrArg (bs ++ ·) (ih rest hr)

theorem eq_encodeChars_of_decodeFrom {i : Nat} {bs : List UInt8} {cs : List Char}
    (h : decodeFrom i bs = .ok cs) : bs = encodeChars cs := by
  fun_induction decodeFrom i bs generalizing cs with
  | case1 =>
    cases h
    rfl
  | case2 i a r ha ih => exact encodeChars_of_map (encodeChar_one ha) (fun _ => ih) h
  | case5 i a _ ha ha' b r hb ih =>
    exact encodeChars_of_map (encodeChar_two (Nat.le_of_not_lt ha) ha' hb) (fun _ => ih) h
  | case9 i a _ _ ha ha' b hb c r hc ih =>
    exact encodeChars_of_map (encodeChar_three (Nat.le_of_not_lt ha) ha' hb hc) (fun _ => ih) h
  | case15 i a _ _ _ ha ha' b hb c hc d r hd ih =>
    exact encodeChars_of_map (encodeChar_four (Nat.le_of_not_lt ha) ha' hb hc hd) (fun _ => ih) h
  | _ => cases h

theorem decode_eq_ok_iff {bs : List UInt8} {s : String} :
    decode bs = .ok s ↔ bs = encode s := by
  constructor
  · intro h
    unfold decode at h
    cases hd : decodeFrom 0 bs with
    | error f =>
      rw [hd] at h
      cases h
    | ok cs =>
      rw [hd] at h
      cases h
      rw [encode, String.toList_ofList]
      exact eq_encodeChars_of_decodeFrom hd
  · intro h
    rw [h, decode_encode]

end EventRelay.Utf8
