import EventRelay.Log.Partition
import Mathlib.Order.Bounds.Basic
import Mathlib.Tactic.Common
/-!
What a partition's ring of slots holds. Main statements: `Keeps.append`, the ring holds the window
of all that was appended, and `Keeps.record`, what a reader gets out of it.
-/
namespace EventRelay

theorem isLeast_windowSize (n : Nat) :
    IsLeast {w | max n 1 ≤ w ∧ w.isPowerOfTwo} (windowSize n) := by
  refine ⟨⟨Nat.max_le.2 ⟨le_windowSize n, windowSize_pos n⟩, ?_⟩, fun w hw => ?_⟩
  · unfold windowSize
    split
    · exact ⟨0, rfl⟩
    · exact ⟨(n - 1).log2 + 1, Nat.one_shiftLeft _⟩
  · obtain ⟨hle, j, rfl⟩ := hw
    unfold windowSize
    split
    · exact Nat.one_le_two_pow
    · have hj : (n - 1).log2 < j := (Nat.log2_lt (by omega)).2 (by omega)
      rw [Nat.one_shiftLeft]
      exact Nat.pow_le_pow_right Nat.two_pos hj

namespace Partition

/-- The ring of `p` holds the window of `rs`, the records in the order of their appending. -/
structure Keeps (p : Partition) (rs : List Record) : Prop where
  length : rs.length = p.next
  offset : ∀ (o : Nat) (rec : Record), rs[o]? = some rec → rec.offset = o
  slot : ∀ o : Nat, p.oldest ≤ o → o < p.next → p.slots[o % p.window]? = rs[o]?

@[simp] theorem window_append (p : Partition) (f : Nat → Record) :
    (p.append f).window = p.window := rfl

@[simp] theorem next_append (p : Partition) (f : Nat → Record) :
    (p.append f).next = p.next + 1 := rfl

theorem keeps_empty (retention : Nat) : (empty retention).Keeps [] where
  length := rfl
  offset := by simp
  slot o _ h := absurd h (Nat.not_lt_zero o)

theorem slots_append (p : Partition) (f : Nat → Record) (j : Nat) :
    (p.append f).slots[j]? =
      if j = p.next % p.window then some (f p.next)
      else p.slots[j]? := by
  have hs := p.size_slots
  have hw := Nat.mod_lt p.next p.window_pos
  have happ : (p.append f).slots =
      if h : p.next % p.window < p.slots.size then p.slots.set (p.next % p.window) (f p.next) h
      else p.slots.push (f p.next) := rfl
  rw [happ]
  by_cases hlt : p.next % p.window < p.slots.size
  · simp only [dif_pos hlt, Array.getElem?_set, eq_comm]
  · -- The ring is not full yet, so the new slot is the first one behind it.
    have hnext : p.next % p.window = p.slots.size := by
      by_cases hp : p.next < p.window
      · rw [Nat.mod_eq_of_lt hp] at hlt ⊢; omega
      · omega
    rw [dif_neg hlt, Array.getElem?_push, hnext]

theorem mod_ne_of_near {w o n : Nat} (h : o < n) (hn : n < o + w) : o % w ≠ n % w := by
  intro he
  have hd : (n - o) % w = 0 := Nat.sub_mod_eq_zero_of_mod_eq he.symm
  rw [Nat.mod_eq_of_lt (by omega)] at hd
  omega

theorem Keeps.append {p : Partition} {rs : List Record} (h : p.Keeps rs) {f : Nat → Record}
    (hf : (f p.next).offset = p.next) : (p.append f).Keeps (rs ++ [f p.next]) where
  length := by simp [h.length]
  offset o rec hrec := by
    rw [List.getElem?_append, h.length] at hrec
    split at hrec
    · exact h.offset o rec hrec
    · rename_i ho
      have ho' : o = p.next := by
        have := (List.getElem?_eq_some_iff.1 hrec).1
        simp only [List.length_singleton] at this
        omega
      subst ho'
      simp only [Nat.sub_self, List.getElem?_cons_zero, Option.some.injEq] at hrec
      rw [← hrec, hf]
  slot o hold hnew := by
    simp only [oldest, next_append, window_append] at hold hnew
    have hw := p.window_pos
    rw [window_append, slots_append p f, List.getElem?_append, h.length]
    by_cases ho : o = p.next
    · subst ho; simp
    · have hlt : o < p.next := by omega
      rw [if_neg (mod_ne_of_near hlt (by omega)), if_pos hlt]
      exact h.slot o (by unfold oldest; omega) hlt

theorem Keeps.record {p : Partition} {rs : List Record} (h : p.Keeps rs) {e : Nat}
    (he : e < p.next) : rs[max e p.oldest]? = some (p.record e he) := by
  have hw := p.window_pos
  have hm : max e p.oldest < p.next := by unfold oldest; omega
  rw [← h.slot _ (Nat.le_max_right ..) hm]
  exact Array.getElem?_eq_getElem _

theorem Keeps.offset_record {p : Partition} {rs : List Record} (h : p.Keeps rs) {e : Nat}
    (he : e < p.next) : (p.record e he).offset = max e p.oldest :=
  h.offset _ _ (h.record he)

theorem Keeps.offset_lt {p : Partition} {rs : List Record} (h : p.Keeps rs) {rec : Record}
    (hrec : rec ∈ rs) : rec.offset < p.next := by
  obtain ⟨o, ho, rfl⟩ := List.mem_iff_getElem.1 hrec
  rw [h.offset o _ (List.getElem?_eq_getElem ho)]
  exact h.length ▸ ho

end Partition
end EventRelay
