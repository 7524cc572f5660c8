/-!
Hexadecimal digits. Main statement: `number?_fixed`, a number reads back from its digits.
-/
namespace EventRelay.Hex

def digit (n : Nat) : Char := if n < 10 then .ofNat (48 + n) else .ofNat (87 + n)

/-- Reads either case. -/
def value? (c : Char) : Option Nat :=
  let n := c.toNat
  if 48 ≤ n ∧ n ≤ 57 then some (n - 48)
  else if 97 ≤ n ∧ n ≤ 102 then some (n - 87)
  else if 65 ≤ n ∧ n ≤ 70 then some (n - 55)
  else none

/-- The lowest `w` digits of `n`, most significant first. -/
def fixed : Nat → Nat → List Char
  | 0, _ => []
  | w + 1, n => fixed w (n / 16) ++ [digit (n % 16)]

/- Reads digits behind the number `n` that precedes them. -/
def numberFrom? (n : Nat) : List Char → Option Nat
  | [] => some n
  | c :: r => (value? c).bind fun d => numberFrom? (n * 16 + d) r

def number? (cs : List Char) : Option Nat := numberFrom? 0 cs

def ofBytes (bs : List UInt8) : String := .ofList (bs.flatMap fun b => fixed 2 b.toNat)

def bytes? : List Char → Option (List UInt8)
  | [] => some []
  | [_] => none
  | a :: b :: r => do
    let h ← value? a
    let l ← value? b
    return UInt8.ofNat (h * 16 + l) :: (← bytes? r)

theorem value?_digit {n : Nat} (h : n < 16) : value? (digit n) = some n := by
  have : ∀ n : Fin 16, value? (digit n) = some n.val := by decide
  exact this ⟨n, h⟩

theorem length_fixed (w n : Nat) : (fixed w n).length = w := by
  induction w generalizing n with
  | zero => rfl
  | succ w ih => simp [fixed, ih]

theorem numberFrom?_append (n : Nat) (a b : List Char) :
    numberFrom? n (a ++ b) = (numberFrom? n a).bind fun m => numberFrom? m b := by
  induction a generalizing n with
  | nil => rfl
  | cons c a ih =>
    simp only [List.cons_append, numberFrom?]
    cases value? c with
    | none => rfl
    | some d => exact ih _

theorem numberFrom?_fixed (w m n : Nat) :
    numberFrom? m (fixed w n) = some (m * (1 <<< (4 * w)) + n % (1 <<< (4 * w))) := by
  induction w generalizing n with
  | zero => simp [fixed, numberFrom?, Nat.mod_one]
  | succ w ih =>
    rw [fixed, numberFrom?_append, ih]
    simp only [Option.bind_some, numberFrom?, value?_digit (Nat.mod_lt n (by decide : 0 < 16))]
    have hw : 1 <<< (4 * (w + 1)) = 16 * 1 <<< (4 * w) := by
      rw [Nat.one_shiftLeft, Nat.one_shiftLeft, Nat.mul_add, Nat.pow_add, Nat.mul_comm]
    rw [hw, Nat.mod_mul, Nat.add_mul, Nat.mul_left_comm m 16, Nat.mul_comm 16 (m * _)]
    congr 1
    omega

theorem number?_fixed (w n : Nat) : number? (fixed w n) = some (n % (1 <<< (4 * w))) := by
  rw [number?, numberFrom?_fixed, Nat.zero_mul, Nat.zero_add]

end EventRelay.Hex
