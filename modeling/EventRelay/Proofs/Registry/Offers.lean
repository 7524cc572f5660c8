import EventRelay.Proofs.Registry.Mailboxes
import Mathlib.Data.List.Count
import Mathlib.Data.List.Nodup
import Mathlib.Logic.Function.Iterate
/-!
What an offer leaves in each mailbox, and whom it counts. Main statements: `get?_offer_count`,
`offer_taken` and `offer_all`.
-/
namespace EventRelay

namespace Mailbox

def hasRoom (b : Mailbox) : Bool := b.accepting && decide (b.buffer.length < b.capacity)

/-- The mailbox after it was offered an event, whether it took it or not. -/
def offered (m : Event) (b : Mailbox) : Mailbox :=
  if b.hasRoom then { b with buffer := b.buffer ++ [m] } else b

theorem deliver_of_hasRoom {b : Mailbox} (m : Event) (h : b.hasRoom = true) :
    b.deliver m = .ok (b.offered m) := by
  obtain ⟨ha, hr⟩ := Bool.and_eq_true_iff.1 h
  rw [offered, if_pos h, deliver_of_room m ha (of_decide_eq_true hr)]

theorem deliver_of_not_hasRoom {b : Mailbox} (m : Event) (h : b.hasRoom = false) :
    ∃ f, b.deliver m = .error f := by
  cases ha : b.accepting with
  | false => exact ⟨_, deliver_of_closed m ha⟩
  | true =>
    rw [hasRoom, ha, Bool.true_and, decide_eq_false_iff_not, Nat.not_lt] at h
    exact ⟨_, deliver_of_full m ha h⟩

end Mailbox

namespace Mailboxes

def takes (t : Mailboxes) (k : Nat) : Bool := (t.get? k).any Mailbox.hasRoom

theorem modify_congr {t : Mailboxes} {k : Nat} {f g : Mailbox → Mailbox}
    (h : ∀ b, t.get? k = some b → f b = g b) : t.modify k f = t.modify k g := by
  refine congrArg Mailboxes.mk (Array.ext_getElem? fun j => ?_)
  rw [Array.getElem?_modify, Array.getElem?_modify]
  split
  · rename_i hkj
    subst hkj
    exact Option.map_congr h
  · rfl

theorem modify_id (t : Mailboxes) (k : Nat) : t.modify k id = t := by
  refine congrArg Mailboxes.mk (Array.ext_getElem? fun j => ?_)
  rw [Array.getElem?_modify, Option.map_id, id, ite_self]

theorem get?_modify_of_ne (t : Mailboxes) {j k : Nat} (h : j ≠ k) (f : Mailbox → Mailbox) :
    (t.modify j f).get? k = t.get? k := by
  rw [get?_modify, if_neg h]

theorem takes_modify_of_ne (t : Mailboxes) {j k : Nat} (h : j ≠ k) (f : Mailbox → Mailbox) :
    (t.modify j f).takes k = t.takes k := by
  rw [takes, takes, get?_modify_of_ne t h]

theorem deliver_of_takes {t : Mailboxes} {k : Nat} (m : Event) (h : t.takes k = true) :
    t.deliver k m = .ok (t.modify k (.offered m)) := by
  cases hb : t.get? k with
  | none => rw [takes, hb] at h; cases h
  | some b =>
    rw [takes, hb] at h
    have hsame : (t.modify k fun _ => b.offered m) = t.modify k (.offered m) :=
      modify_congr fun b' hb' => by rw [Option.some.inj (hb.symm.trans hb')]
    simp only [deliver, hb, Mailbox.deliver_of_hasRoom m h, Except.map, hsame]

theorem deliver_of_not_takes {t : Mailboxes} {k : Nat} (m : Event) (h : t.takes k = false) :
    ∃ f, t.deliver k m = .error f := by
  cases hb : t.get? k with
  | none => exact ⟨.closed, by simp only [deliver, hb]⟩
  | some b =>
    rw [takes, hb] at h
    obtain ⟨f, hf⟩ := Mailbox.deliver_of_not_hasRoom m h
    exact ⟨f, by simp only [deliver, hb, hf, Except.map]⟩

theorem modify_of_not_takes {t : Mailboxes} {k : Nat} (m : Event) (h : t.takes k = false) :
    t.modify k (.offered m) = t := by
  rw [modify_congr (g := id), modify_id]
  intro b hb
  rw [takes, hb] at h
  exact if_neg (by rw [show b.hasRoom = false from h]; decide)

end Mailboxes

theorem Table.count_values_le_one {α β : Type} [DecidableEq α] [DecidableEq β] {t : Table α β}
    {v : β} (h : ∀ j k, t.find? j = some v → t.find? k = some v → j = k) :
    t.values.count v ≤ 1 := by
  by_contra hmore
  have htwice : (List.replicate 2 v).Sublist t.values := by
    rw [List.replicate_sublist_iff]
    omega
  obtain ⟨es, hes, hvs⟩ := List.sublist_map_iff.1 htwice
  obtain ⟨e, e', rfl⟩ := List.length_eq_two.1 (by simpa using (congrArg List.length hvs).symm)
  obtain ⟨rfl, hv⟩ : v = e.2 ∧ v = e'.2 := by simpa using hvs
  have hkeys : e.1 ≠ e'.1 := by simpa using t.nodup.sublist (hes.map Prod.fst)
  have hfind : t.find? e.1 = some e.2 := mem_entries.1 (hes.subset (by simp))
  have hfind' : t.find? e'.1 = some e.2 := hv ▸ mem_entries.1 (hes.subset (by simp))
  exact hkeys (h _ _ hfind hfind')

namespace Registry

theorem offer_cons (m : Event) (k : Nat) (ks : List Nat) (t : Mailboxes) :
    let rest := offer m ks (t.modify k (.offered m))
    offer m (k :: ks) t = (rest.1 + (if t.takes k then 1 else 0),
      rest.2.1 + (if t.takes k then 0 else 1), rest.2.2) := by
  rw [offer]
  cases h : t.takes k with
  | true =>
    rw [Mailboxes.deliver_of_takes m h]
    rfl
  | false =>
    obtain ⟨f, hf⟩ := Mailboxes.deliver_of_not_takes m h
    rw [hf, Mailboxes.modify_of_not_takes m h]
    rfl

theorem offer_all (m : Event) (ks : List Nat) (t : Mailboxes) :
    (offer m ks t).1 + (offer m ks t).2.1 = ks.length := by
  induction ks generalizing t with
  | nil => rfl
  | cons k ks ih =>
    have hrest := ih (t.modify k (.offered m))
    rw [offer_cons, List.length_cons]
    cases t.takes k <;> simp only [Bool.false_eq_true, if_true, if_false] <;> omega

theorem offer_taken (m : Event) {ks : List Nat} (h : ks.Nodup) (t : Mailboxes) :
    (offer m ks t).1 = ks.countP t.takes := by
  induction ks generalizing t with
  | nil => rfl
  | cons k ks ih =>
    obtain ⟨hk, hks⟩ := List.nodup_cons.1 h
    have hrest : (offer m ks (t.modify k (.offered m))).1 = ks.countP t.takes := by
      rw [ih hks]
      refine List.countP_congr fun j hj => ?_
      have hkj : k ≠ j := fun hkj => hk (hkj ▸ hj)
      rw [t.takes_modify_of_ne hkj]
    rw [offer_cons, List.countP_cons, ← hrest]

@[simp] theorem size_offer (m : Event) (ks : List Nat) (t : Mailboxes) :
    (offer m ks t).2.2.size = t.size := by
  induction ks generalizing t with
  | nil => rfl
  | cons k ks ih =>
    rw [offer_cons]
    exact (ih _).trans (t.size_modify k _)

theorem get?_offer_count (m : Event) (ks : List Nat) (k : Nat) (t : Mailboxes) :
    (offer m ks t).2.2.get? k = (t.get? k).map (Mailbox.offered m)^[ks.count k] := by
  induction ks generalizing t with
  | nil => exact Option.map_id_apply.symm
  | cons j ks ih =>
    rw [offer_cons]
    refine (ih _).trans ?_
    by_cases hj : j = k
    · subst hj
      rw [t.get?_modify, if_pos rfl, Option.map_map, List.count_cons_self, Function.iterate_succ]
    · rw [t.get?_modify_of_ne hj, List.count_cons_of_ne hj]

theorem get?_offer_of_not_mem (m : Event) {ks : List Nat} {k : Nat} (h : k ∉ ks)
    (t : Mailboxes) : (offer m ks t).2.2.get? k = t.get? k := by
  rw [get?_offer_count, List.count_eq_zero.2 h, Function.iterate_zero, Option.map_id_apply]

theorem get?_offer (m : Event) {ks : List Nat} {k : Nat} (h : ks.count k = 1) (t : Mailboxes) :
    (offer m ks t).2.2.get? k = (t.get? k).map (.offered m) := by
  rw [get?_offer_count, h, Function.iterate_one]

theorem values_of_isEmpty {m : Members} (h : m.isEmpty = true) : m.values = [] := by
  rw [Table.eq_empty_of_isEmpty h]
  rfl

theorem dispatch_of_ok {payload : List UInt8} {m : Event} (h : Binary.decode payload = .ok m)
    (r : Registry) (t : Mailboxes) (c : Channel) :
    let o := offer m (r.members c).values t
    r.dispatch t c payload = (o.1, { r with
      delivered := r.delivered + o.1.toUInt64
      refused := r.refused + o.2.1.toUInt64 }, o.2.2) := by
  unfold dispatch
  by_cases hm : (r.members c).isEmpty
  · have hzero : Nat.toUInt64 0 = 0 := rfl
    simp only [if_pos hm, values_of_isEmpty hm, offer, hzero, UInt64.add_zero]
  · simp only [if_neg hm, h]

theorem dispatch_of_error {payload : List UInt8} {e : Binary.Fault}
    (h : Binary.decode payload = .error e) (r : Registry) (t : Mailboxes) (c : Channel) :
    r.dispatch t c payload = (0, { r with
      undecodable := r.undecodable + if (r.members c).isEmpty then 0 else 1 }, t) := by
  unfold dispatch
  by_cases hm : (r.members c).isEmpty
  · simp only [if_pos hm, UInt64.add_zero]
  · simp only [if_neg hm, h]

@[simp] theorem size_dispatch (r : Registry) (t : Mailboxes) (c : Channel) (payload : List UInt8) :
    (r.dispatch t c payload).2.2.size = t.size := by
  cases hd : Binary.decode payload with
  | error e => rw [dispatch_of_error hd]
  | ok m =>
    rw [dispatch_of_ok hd]
    exact size_offer ..

theorem get?_dispatch_of_not_mem (r : Registry) (t : Mailboxes) (c : Channel)
    (payload : List UInt8) {k : Nat} (h : k ∉ (r.members c).values) :
    (r.dispatch t c payload).2.2.get? k = t.get? k := by
  cases hd : Binary.decode payload with
  | error e => rw [dispatch_of_error hd]
  | ok m =>
    rw [dispatch_of_ok hd]
    exact get?_offer_of_not_mem m h t

end Registry
end EventRelay
