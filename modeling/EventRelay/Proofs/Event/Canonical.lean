import EventRelay.Proofs.Event.Form
import Mathlib.Data.List.Flatten
import Mathlib.Data.List.Nodup
import Mathlib.Data.List.Perm.Subperm
/-!
Among the bytes that are an event the encoder writes those without spare entries: the keys ascend.
Main statements: `isEvent_encode`, `IsEvent.eq_encode` and `IsEvent.length_encode_le`.
-/
namespace EventRelay

def Event.entries : Event → List (String × String)
  | .object .. => []
  | .content _ attributes => attributes.entries

/-- The count of entries and the lengths of their texts fit eight bytes. -/
structure Event.Fits (m : Event) : Prop where
  count : m.entries.length < UInt64.size
  key : ∀ e ∈ m.entries, (Utf8.encode e.1).length < UInt64.size
  value : ∀ e ∈ m.entries, (Utf8.encode e.2).length < UInt64.size

namespace Binary

theorem le_ofLe (bs : List UInt8) : le bs.length (ofLe bs) = bs := by
  induction bs with
  | nil => rfl
  | cons b bs ih =>
    have hb := b.toNat_lt
    have hfirst : (b.toNat + 256 * ofLe bs) % 256 = b.toNat := by omega
    have hrest : (b.toNat + 256 * ofLe bs) / 256 = ofLe bs := by omega
    calc
      le (bs.length + 1) (b.toNat + 256 * ofLe bs)
          = UInt8.ofNat b.toNat :: le bs.length (ofLe bs) := by rw [le, hfirst, hrest]
      _ = b :: bs := by rw [ih, UInt8.ofNat_toNat]

theorem ofLe_lt (bs : List UInt8) : ofLe bs < 1 <<< (8 * bs.length) := by
  rw [Nat.one_shiftLeft]
  induction bs with
  | nil => decide
  | cons b bs ih =>
    have hb := b.toNat_lt
    have hpow : 2 ^ (8 * (bs.length + 1)) = 256 * 2 ^ (8 * bs.length) := by
      rw [Nat.mul_add, Nat.pow_add, Nat.mul_comm]
    rw [List.length_cons, hpow]
    simp only [ofLe, List.foldr_cons] at ih ⊢
    omega

theorem IsNumber.lt {w n : Nat} {bs : List UInt8} (h : IsNumber w n bs) : n < 1 <<< (8 * w) := by
  rw [← h.value, ← h.length]
  exact ofLe_lt bs

theorem isNumber_int64 {bs : List UInt8} (h : bs.length = 8) :
    IsNumber 8 (ofLe bs).toUInt64.toInt64.toUInt64.toNat bs := by
  have hlt : ofLe bs < UInt64.size := IsNumber.lt ⟨h, rfl⟩
  exact ⟨h, ((UInt64.toNat_ofNat' (n := ofLe bs)).trans (Nat.mod_eq_of_lt hlt)).symm⟩

theorem isNumber_int32 {bs : List UInt8} (h : bs.length = 4) :
    IsNumber 4 (ofLe bs).toUInt32.toInt32.toUInt32.toNat bs := by
  have hlt : ofLe bs < UInt32.size := IsNumber.lt ⟨h, rfl⟩
  exact ⟨h, ((UInt32.toNat_ofNat' (n := ofLe bs)).trans (Nat.mod_eq_of_lt hlt)).symm⟩

theorem IsNumber.eq_le {w n : Nat} {bs : List UInt8} (h : IsNumber w n bs) : bs = le w n := by
  rw [← h.length, ← h.value, le_ofLe]

theorem isNumber_le {w n : Nat} (h : n < 1 <<< (8 * w)) : IsNumber w n (le w n) :=
  ⟨length_le w n, by rw [ofLe_le, Nat.mod_eq_of_lt h]⟩

theorem IsText.eq_text {s : String} {bs : List UInt8} (h : IsText s bs) : bs = text s := by
  cases h with
  | mk h => rw [text, h.eq_le]

theorem isText_text {s : String} (h : (Utf8.encode s).length < UInt64.size) :
    IsText s (text s) :=
  .mk (isNumber_le h)

theorem AreEntries.eq_flatMap {es : List (String × String)} {bs : List UInt8}
    (h : AreEntries es bs) : bs = es.flatMap entry := by
  induction h with
  | nil => rfl
  | cons hk hv _ ih => rw [List.flatMap_cons, entry, ← hk.eq_text, ← hv.eq_text, ih]

theorem areEntries_flatMap {es : List (String × String)}
    (hk : ∀ e ∈ es, (Utf8.encode e.1).length < UInt64.size)
    (hv : ∀ e ∈ es, (Utf8.encode e.2).length < UInt64.size) :
    AreEntries es (es.flatMap entry) := by
  induction es with
  | nil => exact .nil
  | cons e es ih =>
    rw [List.forall_mem_cons] at hk hv
    exact .cons (isText_text hk.1) (isText_text hv.1) (ih hk.2 hv.2)

theorem lookup_reverse {es : List (String × String)} (h : (es.map Prod.fst).Pairwise KeyLt)
    (k : String) : es.reverse.lookup k = Attributes.lookup k es := by
  induction es with
  | nil => rfl
  | cons e es ih =>
    rw [List.map_cons, List.pairwise_cons] at h
    rw [List.reverse_cons, List.lookup_append, ih h.2, Attributes.lookup]
    by_cases hk : e.1 = k
    · subst hk
      rw [Attributes.lookup_eq_none h.1, if_pos rfl, Option.none_or, List.lookup_cons,
        beq_self_eq_true]
    · rw [if_neg hk, List.lookup_cons, beq_false_of_ne (Ne.symm hk), List.lookup_nil,
        Option.or_none]

theorem isEvent_encode {m : Event} (h : m.Fits) : IsEvent m m.entries (encode m) := by
  cases m with
  | object change id =>
    have hid : (ofLe (le 8 id.toUInt64.toNat)).toUInt64.toInt64 = id := by
      rw [(isNumber_le id.toUInt64.toNat_lt).value, Nat.toUInt64, UInt64.ofNat_toNat,
        Int64.toInt64_toUInt64]
    have htag : tag change < 1 <<< (8 * 4) := by
      cases change <;> decide
    have hevent := IsEvent.object (isNumber_le (w := 4) (n := 0) (by decide)) (isNumber_le htag)
      (length_le 8 id.toUInt64.toNat)
    rwa [hid] at hevent
  | content kind attributes =>
    have hkind : (ofLe (le 4 kind.toUInt32.toNat)).toUInt32.toInt32 = kind := by
      rw [(isNumber_le kind.toUInt32.toNat_lt).value, Nat.toUInt32, UInt32.ofNat_toNat,
        Int32.toInt32_toUInt32]
    have hevent := IsEvent.content (isNumber_le (w := 4) (n := 1) (by decide))
      (length_le 4 kind.toUInt32.toNat) (isNumber_le h.count) (areEntries_flatMap h.key h.value)
      fun k => (lookup_reverse attributes.sorted k).symm
    rwa [hkind] at hevent

theorem IsEvent.eq_encode {m : Event} {es : List (String × String)} {bs : List UInt8}
    (h : IsEvent m es bs) (hes : (es.map Prod.fst).Pairwise KeyLt) : bs = encode m := by
  cases h with
  | object hvariant hkind hnumber =>
    rw [encode, ← hvariant.eq_le, ← hkind.eq_le, ← (isNumber_int64 hnumber).eq_le]
  | @content attributes es variant number count entries hvariant hnumber hcount hentries hlast =>
    have hattributes : attributes = ⟨es, hes⟩ :=
      Attributes.ext_find? fun k => (hlast k).trans (lookup_reverse hes k)
    rw [hattributes, encode, ← hvariant.eq_le, ← (isNumber_int32 hnumber).eq_le, ← hcount.eq_le,
      ← hentries.eq_flatMap]

theorem mem_of_lookup {es : List (String × String)} {k v : String} (h : es.lookup k = some v) :
    (k, v) ∈ es := by
  induction es with
  | nil => cases h
  | cons e es ih =>
    rw [List.lookup_cons] at h
    split at h
    · rename_i hk
      cases h
      rw [eq_of_beq hk]
      exact List.mem_cons_self
    · exact List.mem_cons_of_mem e (ih h)

theorem find?_of_mem {attributes : Attributes} {e : String × String}
    (h : e ∈ attributes.entries) : attributes.find? e.1 = some e.2 := by
  obtain ⟨es, hes⟩ := attributes
  induction es with
  | nil => cases h
  | cons e' es ih =>
    rw [List.map_cons, List.pairwise_cons] at hes
    rw [Attributes.find?, Attributes.lookup]
    cases List.mem_cons.1 h with
    | inl hthis => rw [hthis, if_pos rfl]
    | inr hrest =>
      have hlt : KeyLt e'.1 e.1 := hes.1 e.1 (List.mem_map_of_mem hrest)
      rw [if_neg (KeyLt.ne hlt)]
      exact ih hes.2 hrest

theorem IsEvent.subperm {m : Event} {es : List (String × String)} {bs : List UInt8}
    (h : IsEvent m es bs) : m.entries.Subperm es := by
  cases h with
  | object => exact .refl _
  | @content attributes es variant number count entries hvariant hnumber hcount hentries hlast =>
    have hnodup : attributes.entries.Nodup := .of_map Prod.fst (attributes.sorted.imp KeyLt.ne)
    refine List.subperm_of_subset hnodup fun e he => ?_
    have hlookup := (hlast e.1).symm.trans (find?_of_mem he)
    exact List.mem_reverse.1 (mem_of_lookup hlookup)

theorem IsText.length_lt {s : String} {bs : List UInt8} (h : IsText s bs) :
    (Utf8.encode s).length < UInt64.size := by
  cases h with
  | mk h => exact h.lt

theorem AreEntries.lengths_lt {es : List (String × String)} {bs : List UInt8}
    (h : AreEntries es bs) : ∀ e ∈ es,
      (Utf8.encode e.1).length < UInt64.size ∧ (Utf8.encode e.2).length < UInt64.size := by
  induction h with
  | nil => exact List.forall_mem_nil _
  | cons hk hv _ ih => exact List.forall_mem_cons.2 ⟨⟨hk.length_lt, hv.length_lt⟩, ih⟩

theorem IsEvent.fits {m : Event} {es : List (String × String)} {bs : List UInt8}
    (h : IsEvent m es bs) : m.Fits := by
  have hsub := h.subperm
  cases h with
  | object =>
    have hnone : (0 : Nat) < UInt64.size := by decide
    exact ⟨hnone, List.forall_mem_nil _, List.forall_mem_nil _⟩
  | content _ _ hcount hentries _ =>
    exact ⟨Nat.lt_of_le_of_lt hsub.length_le hcount.lt,
      fun e he => (hentries.lengths_lt e (hsub.subset he)).1,
      fun e he => (hentries.lengths_lt e (hsub.subset he)).2⟩

theorem length_flatMap_le {es es' : List (String × String)} (h : es.Subperm es') :
    (es.flatMap entry).length ≤ (es'.flatMap entry).length := by
  obtain ⟨l, hperm, hsub⟩ := h
  rw [← (hperm.flatMap_right entry).length_eq]
  exact (hsub.flatMap entry).length_le

theorem IsEvent.length_encode_le {m : Event} {es : List (String × String)} {bs : List UInt8}
    (h : IsEvent m es bs) : (encode m).length ≤ bs.length := by
  have hsub := h.subperm
  cases h with
  | object hvariant hkind hnumber =>
    simp only [encode, List.length_append, length_le, hvariant.length, hkind.length, hnumber,
      Nat.le_refl]
  | @content attributes es variant number count entries hvariant hnumber hcount hentries hlast =>
    have hle := length_flatMap_le hsub
    rw [← hentries.eq_flatMap] at hle
    simp only [encode, List.length_append, length_le, hvariant.length, hnumber, hcount.length]
    exact Nat.add_le_add_left hle _

end Binary
end EventRelay
