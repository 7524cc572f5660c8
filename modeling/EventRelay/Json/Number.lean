import EventRelay.Json.Parse
/-!
Numbers in JSON text. All are read, and only integers of 64 bits are told apart from one another.
Main statement: `leading_of_lt`.
-/
namespace EventRelay.Json

/-- Takes further decimal digits onto a number as long as it stays below 2^64. -/
def leading (n : Nat) : List Char → Nat × List Char
  | [] => (n, [])
  | c :: r =>
    let m := 10 * n + (c.toNat - '0'.toNat)
    if m < UInt64.size then leading m r else (n, c :: r)

/-- The nearest number of 53 significant bits; a tie goes to the even one. -/
def nearest53 (n : Nat) : Nat :=
  let unit := 1 <<< (n.log2 + 1 - 53)
  let q := n / unit
  let twice := 2 * (n % unit)
  if unit < twice ∨ unit = twice ∧ q % 2 = 1 then (q + 1) * unit else q * unit

/-- Whether the product of the doubles nearest to `m` and to `10^e` is too large for a double, that
is 2^1024 or more after rounding. -/
def overflows (m : Nat) (e : Int) : Bool :=
  m ≠ 0 && 0 ≤ e &&
    (308 < e || 1 <<< 1024 - 1 <<< 970 ≤ nearest53 m * nearest53 (Nat.pow 10 e.toNat))

def digits : Parse (List Char) := fun cs =>
  let ds := cs.takeWhile Char.isDigit
  if ds ≠ [] then .ok (ds, cs.dropWhile Char.isDigit)
  else if cs = [] then .error .cutShort
  else .error .malformed

def fraction : Parse (Option (List Char))
  | '.' :: r => (fun (ds, r) => (some ds, r)) <$> digits r
  | cs => .ok (none, cs)

def exponentSign : List Char → Bool × List Char
  | '-' :: r => (true, r)
  | '+' :: r => (false, r)
  | cs => (false, cs)

def exponent : Parse (Option Int)
  | c :: r =>
    if c = 'e' ∨ c = 'E' then do
      let (negative, r) := exponentSign r
      let (ds, r) ← digits r
      let n : Int := Nat.ofDigitChars 10 ds 0
      return (some (if negative then -n else n), r)
    else .ok (none, c :: r)
  | [] => .ok (none, [])

/-- An integer of 64 bits, signed or unsigned; `none` is any other number, `-0` included. Of such a
number only as many leading digits count as 64 bits hold. -/
def number : Parse (Option Int) := fun cs => do
  let negative := cs.head? = some '-'
  let (ds, r) ← digits (if negative then cs.drop 1 else cs)
  if ds.head? = some '0' ∧ ds ≠ ['0'] then throw .malformed
  let (frac, r) ← fraction r
  let (exp, r) ← exponent r
  let (m, beyond) := leading 0 ds
  if frac = none ∧ exp = none ∧ beyond = [] then
    if !negative then return (some m, r)
    if 0 < m ∧ Int64.minValue.toInt ≤ -m then return (some (-m), r)
  let fs := frac.getD []
  let (m, cut) := leading m fs
  let places := fs.length - cut.length
  if overflows m (exp.getD 0 + beyond.length - places) then throw .malformed
  return (none, r)

/- Skipped numbers that end too early are malformed. -/
def skipDigits (cs : List Char) : Except Fault (List Char) :=
  match cs with
  | [] => .error .malformed
  | c :: r => if c.isDigit then .ok (r.dropWhile Char.isDigit) else .error .malformed

def skipExponent (cs : List Char) : Except Fault (List Char) :=
  match cs with
  | c :: r => if c = 'e' ∨ c = 'E' then skipDigits (exponentSign r).2 else .ok cs
  | [] => .ok cs

def skipNumber (cs : List Char) : Except Fault (List Char) := do
  let cs := if cs.head? = some '-' then cs.drop 1 else cs
  let r ← skipDigits cs
  if cs.head? = some '0' ∧ (cs.drop 1).head?.any Char.isDigit then throw .malformed
  match r with
  | '.' :: r => skipExponent (← skipDigits r)
  | _ => skipExponent r

theorem le_ofDigitChars (n : Nat) (ds : List Char) : n ≤ Nat.ofDigitChars 10 ds n := by
  induction ds generalizing n with
  | nil => exact Nat.le_refl n
  | cons c r ih =>
    rw [Nat.ofDigitChars_cons]
    exact Nat.le_trans (by omega) (ih _)

theorem leading_of_lt {n : Nat} {ds : List Char} (h : Nat.ofDigitChars 10 ds n < UInt64.size) :
    leading n ds = (Nat.ofDigitChars 10 ds n, []) := by
  induction ds generalizing n with
  | nil => rfl
  | cons c r ih =>
    rw [Nat.ofDigitChars_cons] at h ⊢
    rw [leading, if_pos (Nat.lt_of_le_of_lt (le_ofDigitChars _ r) h), ih h]

end EventRelay.Json
