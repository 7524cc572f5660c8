/-!
UTF-8. `encode` writes a text as bytes; `decode` reads bytes back and locates the first fault.
Main statement: `decode_encode`.
-/
namespace EventRelay.Utf8

def encodeChars (cs : List Char) : List UInt8 := cs.flatMap String.utf8EncodeChar
def encode (s : String) : List UInt8 := encodeChars s.toList

/- `index` counts the bytes before the fault; an invalid sequence has `length` bytes to skip. -/
inductive Fault where
  | invalid (length index : Nat)
  | incomplete (index : Nat)
  deriving DecidableEq, Repr

def Fault.message : Fault → String
  | .invalid n i => s!"invalid utf-8 sequence of {n} bytes from index {i}"
  | .incomplete i => s!"incomplete utf-8 byte sequence from index {i}"

def isTail (b : UInt8) : Bool := 0x80 ≤ b.toNat && b.toNat < 0xC0

/-- The second byte of a three byte sequence: no shorter form exists and it is no surrogate. -/
def isSecondOfThree (a b : UInt8) : Bool :=
  isTail b && (a.toNat != 0xE0 || 0xA0 ≤ b.toNat) && (a.toNat != 0xED || b.toNat < 0xA0)

/-- The second byte of a four byte sequence: no shorter form exists and it ends at U+10FFFF. -/
def isSecondOfFour (a b : UInt8) : Bool :=
  isTail b && (a.toNat != 0xF0 || 0x90 ≤ b.toNat) && (a.toNat != 0xF4 || b.toNat < 0x90)

def two (a b : UInt8) : Char := .ofNat ((a.toNat - 0xC0) * 64 + (b.toNat - 0x80))
def three (a b c : UInt8) : Char :=
  .ofNat ((a.toNat - 0xE0) * 4096 + (b.toNat - 0x80) * 64 + (c.toNat - 0x80))
def four (a b c d : UInt8) : Char :=
  .ofNat ((a.toNat - 0xF0) * 262144 + (b.toNat - 0x80) * 4096 + (c.toNat - 0x80) * 64 +
    (d.toNat - 0x80))

/- Reads the characters of a byte list whose first byte stands at index `i`. -/
def decodeFrom (i : Nat) : List UInt8 → Except Fault (List Char)
  | [] => .ok []
  | a :: r =>
    if a.toNat < 0x80 then (.ofNat a.toNat :: ·) <$> decodeFrom (i + 1) r
    else if a.toNat < 0xC2 then .error (.invalid 1 i)
    else if a.toNat < 0xE0 then
      match r with
      | [] => .error (.incomplete i)
      | b :: r =>
        if isTail b then (two a b :: ·) <$> decodeFrom (i + 2) r
        else .error (.invalid 1 i)
    else if a.toNat < 0xF0 then
      match r with
      | [] => .error (.incomplete i)
      | b :: r =>
        if isSecondOfThree a b then
          match r with
          | [] => .error (.incomplete i)
          | c :: r =>
            if isTail c then (three a b c :: ·) <$> decodeFrom (i + 3) r
            else .error (.invalid 2 i)
        else .error (.invalid 1 i)
    else if a.toNat < 0xF5 then
      match r with
      | [] => .error (.incomplete i)
      | b :: r =>
        if isSecondOfFour a b then
          match r with
          | [] => .error (.incomplete i)
          | c :: r =>
            if isTail c then
              match r with
              | [] => .error (.incomplete i)
              | d :: r =>
                if isTail d then (four a b c d :: ·) <$> decodeFrom (i + 4) r
                else .error (.invalid 3 i)
            else .error (.invalid 2 i)
        else .error (.invalid 1 i)
    else .error (.invalid 1 i)

def decode (bs : List UInt8) : Except Fault String := String.ofList <$> decodeFrom 0 bs

def decode? (bs : List UInt8) : Option String := (decode bs).toOption

theorem decodeFrom_encodeChar (i : Nat) (c : Char) (r : List UInt8) :
    decodeFrom i (String.utf8EncodeChar c ++ r) =
      (c :: ·) <$> decodeFrom (i + (String.utf8EncodeChar c).length) r := by
  have hv := c.valid
  have hc : Char.ofNat c.val.toNat = c := Char.ofNat_toNat c
  simp only [UInt32.isValidChar, Nat.isValidChar] at hv
  unfold String.utf8EncodeChar
  generalize hn : c.val.toNat = n at *
  have hn' : n < 0xD800 ∨ 0xDFFF < n ∧ n < 0x110000 := by simpa [hn] using hv
  simp only
  split
  · rw [List.cons_append, List.nil_append, decodeFrom.eq_def]
    simp only [UInt8.toNat_ofNat', Nat.reducePow]
    rw [show n % 256 = n by omega, if_pos (by omega), hc]; rfl
  · split
    · rw [List.cons_append, List.cons_append, List.nil_append, decodeFrom.eq_def]
      simp only [UInt8.toNat_ofNat', Nat.reducePow, isTail, two]
      rw [if_neg (by omega), if_neg (by omega), if_pos (by omega),
        if_pos (by simp; omega)]
      rw [show ((n / 64 % 32 + 192) % 256 - 192) * 64 + ((n % 64 + 128) % 256 - 128) = n by omega,
        hc]
      rfl
    · split
      · rw [List.cons_append, List.cons_append, List.cons_append, List.nil_append,
          decodeFrom.eq_def]
        simp only [UInt8.toNat_ofNat', Nat.reducePow, isTail, isSecondOfThree, three]
        rw [if_neg (by omega), if_neg (by omega), if_neg (by omega), if_pos (by omega),
          if_pos (by simp; omega), if_pos (by simp; omega)]
        rw [show ((n / 4096 % 16 + 224) % 256 - 224) * 4096 +
          ((n / 64 % 64 + 128) % 256 - 128) * 64 + ((n % 64 + 128) % 256 - 128) = n by omega, hc]
        rfl
      · rw [List.cons_append, List.cons_append, List.cons_append, List.cons_append, List.nil_append,
          decodeFrom.eq_def]
        simp only [UInt8.toNat_ofNat', Nat.reducePow, isTail, isSecondOfFour, four]
        rw [if_neg (by omega), if_neg (by omega), if_neg (by omega), if_neg (by omega),
          if_pos (by omega), if_pos (by simp; omega), if_pos (by simp; omega),
          if_pos (by simp; omega)]
        rw [show ((n / 262144 % 8 + 240) % 256 - 240) * 262144 +
          ((n / 4096 % 64 + 128) % 256 - 128) * 4096 + ((n / 64 % 64 + 128) % 256 - 128) * 64 +
          ((n % 64 + 128) % 256 - 128) = n by omega, hc]
        rfl

theorem decodeFrom_encodeChars (i : Nat) (cs : List Char) :
    decodeFrom i (encodeChars cs) = .ok cs := by
  induction cs generalizing i with
  | nil => rfl
  | cons c cs ih =>
    rw [encodeChars, List.flatMap_cons, decodeFrom_encodeChar]
    show (c :: ·) <$> decodeFrom _ (encodeChars cs) = _
    rw [ih]; rfl

theorem decode_encode (s : String) : decode (encode s) = .ok s := by
  rw [decode, encode, decodeFrom_encodeChars]
  show Except.ok (String.ofList s.toList) = _
  rw [String.ofList_toList]

theorem encode_injective {s t : String} (h : encode s = encode t) : s = t := by
  have := decode_encode s
  rw [h, decode_encode] at this
  exact (Except.ok.inj this).symm

end EventRelay.Utf8
