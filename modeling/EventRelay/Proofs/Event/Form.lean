import EventRelay.Event.Binary
import EventRelay.Proofs.Outcome
import EventRelay.Proofs.Text.Utf8
import Mathlib.Data.List.Induction
/-!
Which bytes are an event, said without a reader: numbers of fixed width, and texts and entries with
their lengths in front. Main statement: `reads_event`, the reader takes exactly such bytes off the
front of a list.
-/
namespace EventRelay
open Outcome

namespace Binary

/-- `bs` are `w` bytes that hold `n`, the least significant one first. -/
structure IsNumber (w n : Nat) (bs : List UInt8) : Prop where
  length : bs.length = w
  value : ofLe bs = n

inductive IsText (s : String) : List UInt8 → Prop
  | mk {len : List UInt8} (h : IsNumber 8 (Utf8.encode s).length len) :
      IsText s (len ++ Utf8.encode s)

inductive AreEntries : List (String × String) → List UInt8 → Prop
  | nil : AreEntries [] []
  | cons {k v : String} {es : List (String × String)} {key value rest : List UInt8}
      (hk : IsText k key) (hv : IsText v value) (hes : AreEntries es rest) :
      AreEntries ((k, v) :: es) (key ++ value ++ rest)

/-- The bytes are an event, whose number is any eight or four bytes. Those of content hold the
entries `es`, and each attribute has the last value that they give it. -/
inductive IsEvent : Event → List (String × String) → List UInt8 → Prop
  | object {change : Change} {variant kind number : List UInt8} (hvariant : IsNumber 4 0 variant)
      (hkind : IsNumber 4 (tag change) kind) (hnumber : number.length = 8) :
      IsEvent (.object change (ofLe number).toUInt64.toInt64) [] (variant ++ kind ++ number)
  | content {attributes : Attributes} {es : List (String × String)}
      {variant number count entries : List UInt8} (hvariant : IsNumber 4 1 variant)
      (hnumber : number.length = 4) (hcount : IsNumber 8 es.length count)
      (hentries : AreEntries es entries)
      (hlast : ∀ k, attributes.find? k = es.reverse.lookup k) :
      IsEvent (.content (ofLe number).toUInt32.toInt32 attributes) es
        (variant ++ number ++ count ++ entries)

/-- The reader takes what has the form, and nothing else, off the front of a list. -/
def Reads {α : Type} (read : List UInt8 → Except Fault (α × List UInt8))
    (form : α → List UInt8 → Prop) : Prop :=
  ∀ bs a rest, read bs = .ok (a, rest) ↔ ∃ front, form a front ∧ bs = front ++ rest

theorem reads_number (w : Nat) : Reads (number w) (IsNumber w) := by
  intro bs n rest
  unfold number
  constructor
  · intro h
    split at h
    · cases h
    · rename_i hlen
      cases h
      exact ⟨bs.take w, ⟨List.length_take_of_le (Nat.le_of_not_lt hlen), rfl⟩,
        (List.take_append_drop w bs).symm⟩
  · intro h
    obtain ⟨front, ⟨rfl, rfl⟩, rfl⟩ := h
    rw [if_neg (by simp), List.take_left, List.drop_left]

theorem reads_text : Reads readText IsText := by
  intro bs s rest
  simp only [readText, bind_eq_ok, Prod.exists, reads_number 8 _ _ _]
  constructor
  · intro h
    obtain ⟨n, bytes, ⟨len, hlen, rfl⟩, h⟩ := h
    split at h
    · cases h
    · rename_i hn
      obtain ⟨s', hs, h⟩ := bind_eq_ok.1 h
      cases h
      have htext := Utf8.decode_eq_ok_iff.1 (mapError_eq_ok.1 hs)
      have hsize := List.length_take_of_le (Nat.le_of_not_lt hn)
      rw [htext] at hsize
      refine ⟨len ++ Utf8.encode s, .mk (hsize ▸ hlen), ?_⟩
      rw [← htext, List.append_assoc, List.take_append_drop]
  · intro h
    obtain ⟨front, ⟨hlen⟩, rfl⟩ := h
    refine ⟨_, _, ⟨_, hlen, List.append_assoc ..⟩, ?_⟩
    rw [if_neg (by simp), List.take_left, List.drop_left, Utf8.decode_encode]
    rfl

theorem reads_change : Reads readChange fun change => IsNumber 4 (tag change) := by
  intro bs change rest
  simp only [readChange, bind_eq_ok, Prod.exists, reads_number 4 _ _ _]
  constructor
  · intro h
    obtain ⟨n, bytes, ⟨front, hn, rfl⟩, h⟩ := h
    split at h
    · cases h; exact ⟨front, hn, rfl⟩
    · cases h; exact ⟨front, hn, rfl⟩
    · cases h; exact ⟨front, hn, rfl⟩
    · cases h
  · intro h
    obtain ⟨front, hn, rfl⟩ := h
    refine ⟨tag change, rest, ⟨front, hn, rfl⟩, ?_⟩
    cases change <;> rfl

theorem reads_entries (n : Nat) :
    Reads (readEntries n) fun es bs => AreEntries es bs ∧ es.length = n := by
  induction n with
  | zero =>
    intro bs es rest
    constructor
    · intro h
      cases h
      exact ⟨[], ⟨.nil, rfl⟩, rfl⟩
    · intro h
      obtain ⟨front, ⟨hes, hn⟩, rfl⟩ := h
      cases List.length_eq_zero_iff.1 hn
      cases hes
      rfl
  | succ n ih =>
    intro bs es rest
    simp only [readEntries, bind_eq_ok, Prod.exists, reads_text _ _ _, ih _ _ _]
    constructor
    · intro h
      obtain ⟨k, _, ⟨key, hk, rfl⟩, v, _, ⟨value, hv, rfl⟩, es', _, ⟨front, ⟨hes, hn⟩, rfl⟩, h⟩ := h
      cases h
      refine ⟨key ++ value ++ front, ⟨.cons hk hv hes, by rw [List.length_cons, hn]⟩, ?_⟩
      simp only [List.append_assoc]
    · intro h
      obtain ⟨_, ⟨hes, hn⟩, rfl⟩ := h
      cases hes with
      | nil => cases hn
      | @cons k v es key value front hk hv hes =>
        refine ⟨k, _, ⟨key, hk, ?_⟩, v, _, ⟨value, hv, rfl⟩, es, _,
          ⟨front, ⟨hes, Nat.succ.inj hn⟩, rfl⟩, rfl⟩
        simp only [List.append_assoc]

theorem find?_ofList (es : List (String × String)) (k : String) :
    (Attributes.ofList es).find? k = es.reverse.lookup k := by
  induction es using List.reverseRecOn with
  | nil => rfl
  | append_singleton es e ih =>
    rw [Attributes.ofList, List.foldl_append, ← Attributes.ofList, List.foldl_cons, List.foldl_nil,
      Attributes.find?_insert, ih, List.reverse_append, List.reverse_singleton,
      List.singleton_append, List.lookup_cons]
    by_cases hk : e.1 = k
    · rw [if_pos hk, ← hk, beq_self_eq_true]
    · rw [if_neg hk, beq_false_of_ne (Ne.symm hk)]

theorem isEvent_of_read {bs rest : List UInt8} {m : Event} (h : read bs = .ok (m, rest)) :
    ∃ es front, IsEvent m es front ∧ bs = front ++ rest := by
  simp only [read, bind_eq_ok, Prod.exists, reads_number 4 _ _ _] at h
  obtain ⟨n, _, ⟨variant, hvariant, rfl⟩, h⟩ := h
  split at h
  · simp only [bind_eq_ok, Prod.exists, reads_change _ _ _, reads_number 8 _ _ _] at h
    obtain ⟨change, _, ⟨kind, hkind, rfl⟩, id, _, ⟨number, hnumber, rfl⟩, h⟩ := h
    cases h
    rw [← hnumber.value]
    refine ⟨[], variant ++ kind ++ number, .object hvariant hkind hnumber.length, ?_⟩
    simp only [List.append_assoc]
  · simp only [bind_eq_ok, Prod.exists, reads_number 4 _ _ _, reads_number 8 _ _ _,
      reads_entries _ _ _ _] at h
    obtain ⟨kind, _, ⟨number, hnumber, rfl⟩, _, _, ⟨count, hcount, rfl⟩, es, _,
      ⟨entries, ⟨hentries, rfl⟩, rfl⟩, h⟩ := h
    cases h
    rw [← hnumber.value]
    refine ⟨es, variant ++ number ++ count ++ entries,
      .content hvariant hnumber.length hcount hentries (find?_ofList es), ?_⟩
    simp only [List.append_assoc]
  · cases h

theorem IsEvent.read {m : Event} {es : List (String × String)} {front : List UInt8}
    (h : IsEvent m es front) (rest : List UInt8) : read (front ++ rest) = .ok (m, rest) := by
  simp only [Binary.read, bind_eq_ok, Prod.exists, reads_number 4 _ _ _]
  cases h with
  | @object change variant kind number hvariant hkind hnumber =>
    refine ⟨0, kind ++ number ++ rest, ⟨variant, hvariant, by simp only [List.append_assoc]⟩, ?_⟩
    simp only [bind_eq_ok, Prod.exists, reads_change _ _ _, reads_number 8 _ _ _]
    refine ⟨change, number ++ rest, ⟨kind, hkind, by simp only [List.append_assoc]⟩, _, rest,
      ⟨number, ⟨hnumber, rfl⟩, rfl⟩, rfl⟩
  | @content attributes es variant number count entries hvariant hnumber hcount hentries hlast =>
    refine ⟨1, number ++ count ++ entries ++ rest,
      ⟨variant, hvariant, by simp only [List.append_assoc]⟩, ?_⟩
    simp only [bind_eq_ok, Prod.exists, reads_number 4 _ _ _, reads_number 8 _ _ _,
      reads_entries _ _ _ _]
    have hattributes : attributes = .ofList es :=
      Attributes.ext_find? fun k => (hlast k).trans (find?_ofList es k).symm
    refine ⟨_, count ++ entries ++ rest,
      ⟨number, ⟨hnumber, rfl⟩, by simp only [List.append_assoc]⟩, _, entries ++ rest,
      ⟨count, hcount, by simp only [List.append_assoc]⟩, es, rest,
      ⟨entries, ⟨hentries, rfl⟩, rfl⟩, ?_⟩
    rw [hattributes]
    rfl

theorem reads_event : Reads read fun m bs => ∃ es, IsEvent m es bs := by
  intro bs m rest
  constructor
  · intro h
    obtain ⟨es, front, hm, rfl⟩ := isEvent_of_read h
    exact ⟨front, ⟨es, hm⟩, rfl⟩
  · intro h
    obtain ⟨front, ⟨es, hm⟩, rfl⟩ := h
    exact hm.read rest

theorem IsEvent.eq_of_front {m m' : Event} {es es' : List (String × String)}
    {bs bs' : List UInt8} (h : IsEvent m es bs) (h' : IsEvent m' es' bs') (hp : bs <+: bs') :
    m = m' ∧ bs = bs' := by
  obtain ⟨rest, rfl⟩ := hp
  have hread := h'.read []
  rw [List.append_nil, h.read rest] at hread
  cases hread
  exact ⟨rfl, (List.append_nil bs).symm⟩

end Binary

namespace Event

theorem decode_eq_ok_iff {p : List UInt8} {m : Event} :
    decode p = .ok m ↔ ∃ es front, Binary.IsEvent m es front ∧ front <+: p := by
  rw [decode, mapError_eq_ok]
  constructor
  · intro h
    obtain ⟨⟨m', rest⟩, hread, hm⟩ := bind_eq_ok.1 h
    cases hm
    obtain ⟨front, ⟨es, hm⟩, rfl⟩ := (Binary.reads_event p m' rest).1 hread
    exact ⟨es, front, hm, List.prefix_append front rest⟩
  · intro h
    obtain ⟨es, front, hm, rest, rfl⟩ := h
    rw [Binary.decode, (Binary.reads_event _ m rest).2 ⟨front, ⟨es, hm⟩, rfl⟩]
    rfl

theorem decode_refused {p : List UInt8} (h : ∀ m, decode p ≠ .ok m) :
    ∃ reason, decode p = .error (.deserialization reason) := by
  unfold decode at h ⊢
  cases hd : Binary.decode p with
  | ok m =>
    rw [hd] at h
    exact absurd rfl (h m)
  | error f => exact ⟨f.message, rfl⟩

end Event
end EventRelay
