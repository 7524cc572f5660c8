/-!
White space of Unicode and trimming. Main statement: `trim_surround`, trimming undoes padding.
-/
namespace EventRelay.Text

def isBlank (c : Char) : Bool :=
  let n := c.toNat
  (0x9 ≤ n && n ≤ 0xD) || n == 0x20 || n == 0x85 || n == 0xA0 || n == 0x1680 ||
    (0x2000 ≤ n && n ≤ 0x200A) || n == 0x2028 || n == 0x2029 || n == 0x202F || n == 0x205F ||
    n == 0x3000

def trimLeft (cs : List Char) : List Char := cs.dropWhile isBlank
def trim (cs : List Char) : List Char := (trimLeft (trimLeft cs).reverse).reverse

def Trimmed (cs : List Char) : Prop :=
  (∀ c, cs.head? = some c → isBlank c = false) ∧ ∀ c, cs.getLast? = some c → isBlank c = false

theorem trimLeft_append {b : List Char} (l : List Char) (h : ∀ c ∈ b, isBlank c) :
    trimLeft (b ++ l) = trimLeft l := by
  induction b with
  | nil => rfl
  | cons c b ih =>
    rw [List.cons_append, trimLeft, List.dropWhile_cons_of_pos (h c List.mem_cons_self)]
    exact ih fun x hx => h x (List.mem_cons_of_mem c hx)

theorem trimLeft_of_head {l : List Char} (h : ∀ c, l.head? = some c → isBlank c = false) :
    trimLeft l = l := by
  cases l with
  | nil => rfl
  | cons c r => exact List.dropWhile_cons_of_neg (by simp [h c rfl])

theorem trim_surround {a cs b : List Char} (ha : ∀ c ∈ a, isBlank c) (hb : ∀ c ∈ b, isBlank c)
    (h : Trimmed cs) : trim (a ++ cs ++ b) = cs := by
  have hr : trimLeft cs.reverse = cs.reverse := by
    refine trimLeft_of_head fun c hc => h.2 c ?_
    rwa [List.head?_reverse] at hc
  have hb' : ∀ c ∈ b.reverse, isBlank c := fun c hc => hb c (List.mem_reverse.1 hc)
  rw [trim, List.append_assoc, trimLeft_append _ ha]
  cases cs with
  | nil =>
    have : trimLeft b = [] := by simpa [trimLeft] using trimLeft_append [] hb
    rw [List.nil_append, this]; rfl
  | cons c r =>
    rw [trimLeft_of_head (l := c :: r ++ b) (by simpa using h.1 c rfl), List.reverse_append,
      trimLeft_append _ hb', hr, List.reverse_reverse]

end EventRelay.Text
