import EventRelay.Json.Writer
import EventRelay.Json.Text
/-!
The texts of JSON: strings, numbers, and arrays and objects laid out with white space anywhere
between their tokens.
-/
namespace EventRelay.Json

def Space (ws : List Char) : Prop := ∀ c ∈ ws, isSpace c = true

/-- What can stand behind a value. -/
def Ends (rest : List Char) : Prop :=
  ∀ c, rest.head? = some c → isSpace c = true ∨ c = ',' ∨ c = ']' ∨ c = '\x7d'

def Starts (v : List Char) : Prop := ∃ c r, v = c :: r ∧ isSpace c = false ∧ c ≠ ']'

def CodeUnit (ds : List Char) (n : Nat) : Prop := ds.length = 4 ∧ Hex.number? ds = some n

/-- The characters between the quotes of a string that means `s`. -/
inductive Spells : List Char → List Char → Prop
  | nil : Spells [] []
  | plain {c : Char} {s cs : List Char} (hq : c ≠ '"') (hb : c ≠ '\\') (hc : 0x20 ≤ c.toNat)
      (h : Spells s cs) : Spells (c :: s) (c :: cs)
  | short {c e : Char} {s cs : List Char} (he : escaped? e = some c) (h : Spells s cs) :
      Spells (c :: s) ('\\' :: e :: cs)
  | unit {c : Char} {ds s cs : List Char} (hd : CodeUnit ds c.toNat) (h : Spells s cs) :
      Spells (c :: s) ('\\' :: 'u' :: (ds ++ cs))
  | pair {c : Char} {hi lo : Nat} {ds es s cs : List Char} (hd : CodeUnit ds hi)
      (he : CodeUnit es lo) (hhi : isHigh hi) (hlo : isLow lo)
      (hc : c.toNat = 0x10000 + (hi - 0xD800) * 0x400 + (lo - 0xDC00)) (h : Spells s cs) :
      Spells (c :: s) ('\\' :: 'u' :: (ds ++ '\\' :: 'u' :: (es ++ cs)))

/-- The characters between the quotes of any string, half of a surrogate pair among them. -/
inductive IsChars : List Char → Prop
  | nil : IsChars []
  | plain {c : Char} {cs : List Char} (hq : c ≠ '"') (hb : c ≠ '\\') (hc : 0x20 ≤ c.toNat)
      (h : IsChars cs) : IsChars (c :: cs)
  | short {e : Char} {cs : List Char} (he : (escaped? e).isSome) (h : IsChars cs) :
      IsChars ('\\' :: e :: cs)
  | unit {ds cs : List Char} (hl : ds.length = 4) (hd : ∀ c ∈ ds, (Hex.value? c).isSome)
      (h : IsChars cs) : IsChars ('\\' :: 'u' :: (ds ++ cs))

def IsText (s : String) (v : List Char) : Prop :=
  ∃ cs, Spells s.toList cs ∧ v = '"' :: (cs ++ ['"'])

def Digits (ds : List Char) : Prop := ds ≠ [] ∧ ∀ c ∈ ds, c.isDigit = true

inductive Fraction : List Char → Prop
  | none : Fraction []
  | some {ds : List Char} (hd : Digits ds) : Fraction ('.' :: ds)

inductive Exponent : List Char → Prop
  | none : Exponent []
  | some {e : Char} {sign ds : List Char} (he : e = 'e' ∨ e = 'E')
      (hs : sign = [] ∨ sign = ['+'] ∨ sign = ['-']) (hd : Digits ds) : Exponent (e :: (sign ++ ds))

inductive IsNumber : List Char → Prop
  | mk {sign ds frac exp : List Char} (hs : sign = [] ∨ sign = ['-']) (hd : Digits ds)
      (hz : ds.head? = some '0' → ds = ['0']) (hf : Fraction frac) (he : Exponent exp) :
      IsNumber (sign ++ (ds ++ (frac ++ exp)))

/-- What stands before an item: white space, and a comma unless the item is the first one. -/
inductive Gap : Bool → List Char → Prop
  | first {a : List Char} (ha : Space a) : Gap true a
  | next {a b : List Char} (ha : Space a) (hb : Space b) : Gap false (a ++ ',' :: b)

inductive Items : Bool → List (List Char) → List Char → Prop
  | close {first : Bool} {a : List Char} (ha : Space a) : Items first [] (a ++ [']'])
  | item {first : Bool} {a v cs : List Char} {vs : List (List Char)} (ha : Gap first a)
      (h : Items false vs cs) : Items first (v :: vs) (a ++ (v ++ cs))

/-- The rest of an object, to its closing brace; `N` says how names are spelled. -/
inductive Members (N : String → List Char → Prop) :
    Bool → List (String × List Char) → List Char → Prop
  | close {first : Bool} {a : List Char} (ha : Space a) : Members N first [] (a ++ ['\x7d'])
  | member {first : Bool} {a b c v cs n : List Char} {k : String} {ms : List (String × List Char)}
      (ha : Gap first a) (hn : N k n) (hb : Space b) (hc : Space c) (h : Members N false ms cs) :
      Members N first ((k, v) :: ms) (a ++ '"' :: (n ++ '"' :: (b ++ ':' :: (c ++ (v ++ cs)))))

inductive IsJson : List Char → Prop
  | null : IsJson ['n', 'u', 'l', 'l']
  | true : IsJson ['t', 'r', 'u', 'e']
  | false : IsJson ['f', 'a', 'l', 's', 'e']
  | number {cs : List Char} (h : IsNumber cs) : IsJson cs
  | string {cs : List Char} (h : IsChars cs) : IsJson ('"' :: (cs ++ ['"']))
  | array {vs : List (List Char)} {cs : List Char} (h : Items Bool.true vs cs)
      (hv : ∀ v ∈ vs, IsJson v) : IsJson ('[' :: cs)
  | object {ms : List (String × List Char)} {cs : List Char}
      (h : Members (fun _ => IsChars) Bool.true ms cs) (hv : ∀ m ∈ ms, IsJson m.2) :
      IsJson ('\x7b' :: cs)

def IsName (k : String) (n : List Char) : Prop := Spells k.toList n

/-- An object, and what its members are. -/
inductive IsObject : List (String × List Char) → List Char → Prop
  | mk {ms : List (String × List Char)} {cs : List Char} (h : Members IsName Bool.true ms cs) :
      IsObject ms ('\x7b' :: cs)

/-! ### White space and marks -/

theorem space_nil : Space [] := List.forall_mem_nil _

theorem skipSpace_append {ws : List Char} (h : Space ws) (cs : List Char) :
    skipSpace (ws ++ cs) = skipSpace cs := by
  induction ws with
  | nil => rfl
  | cons c ws ih =>
    have hc : isSpace c = true := h c List.mem_cons_self
    rw [skipSpace, List.cons_append, List.dropWhile_cons_of_pos hc]
    exact ih fun d hd => h d (List.mem_cons_of_mem c hd)

theorem skipSpace_cons {c : Char} (h : isSpace c = false) (r : List Char) :
    skipSpace (c :: r) = c :: r := by
  rw [skipSpace, List.dropWhile_cons_of_neg (by simp [h])]

theorem skipSpace_eq_nil {ws : List Char} (h : Space ws) : skipSpace ws = [] := by
  simpa [skipSpace] using skipSpace_append h []

theorem isSpace_of_skipSpace {cs r : List Char} {c : Char} (h : skipSpace cs = c :: r) :
    isSpace c = false := by
  have hnot := List.head?_dropWhile_not isSpace cs
  rw [skipSpace] at h
  rw [h] at hnot
  simpa using hnot

theorem skipSpace_mark {ws : List Char} {c : Char} (h : Space ws) (hc : isSpace c = false)
    (r : List Char) : skipSpace (ws ++ c :: r) = c :: r := by
  rw [skipSpace_append h, skipSpace_cons hc]

theorem mark_of_space {ws : List Char} {c : Char} (h : Space ws) (hc : isSpace c = false)
    (r : List Char) : mark c (ws ++ c :: r) = .ok ((), r) := by
  rw [mark, skipSpace_mark h hc]
  exact if_pos rfl

theorem Starts.append {v : List Char} (h : Starts v) (r : List Char) : Starts (v ++ r) := by
  obtain ⟨c, w, rfl, hc⟩ := h
  exact ⟨c, w ++ r, rfl, hc⟩

theorem Space.ends {ws : List Char} (h : Space ws) : Ends ws :=
  fun _ hc => .inl (h _ (List.mem_of_mem_head? hc))

theorem ends_of_space {ws : List Char} {c : Char} (h : Space ws)
    (hc : c = ',' ∨ c = ']' ∨ c = '\x7d') (r : List Char) : Ends (ws ++ c :: r) := by
  intro d hd
  cases ws with
  | nil =>
    cases hd
    exact .inr hc
  | cons w ws =>
    cases hd
    exact .inl (h _ List.mem_cons_self)

theorem Items.ends {vs : List (List Char)} {cs : List Char} (h : Items false vs cs)
    (rest : List Char) : Ends (cs ++ rest) := by
  cases h with
  | close ha =>
    rw [List.append_assoc]
    exact ends_of_space ha (.inr (.inl rfl)) _
  | item ha _ =>
    cases ha with
    | next ha _ =>
      rw [List.append_assoc, List.append_assoc]
      exact ends_of_space ha (.inl rfl) _

theorem Members.ends {N : String → List Char → Prop} {ms : List (String × List Char)}
    {cs : List Char} (h : Members N false ms cs) (rest : List Char) : Ends (cs ++ rest) := by
  cases h with
  | close ha =>
    rw [List.append_assoc]
    exact ends_of_space ha (.inr (.inr rfl)) _
  | member ha _ _ _ _ =>
    cases ha with
    | next ha _ =>
      rw [List.append_assoc, List.append_assoc]
      exact ends_of_space ha (.inl rfl) _

end EventRelay.Json
