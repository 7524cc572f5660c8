import EventRelay.Proofs.Delivery.Attachment
import EventRelay.Proofs.Registry.Alone
import EventRelay.Proofs.Registry.Queue
import Mathlib.Algebra.BigOperators.Group.List.Basic
import Mathlib.Algebra.GroupWithZero.Nat
import Mathlib.Data.Finset.Card
/-!
The sending ends of a mailbox: the handles that are held outside the registry, and one for each
place of the registry that has a clone of them. Main statements: `Counts.next`, what a deed makes
of this count, and `counts_after`.
-/
namespace EventRelay
open History

/-! ### The places that hold a mailbox -/

section
variable {κ : Type} [DecidableEq κ] {f : κ → Option Nat} {k : Nat} {places : Finset κ}

/-- The places are those that `f` gives mailbox `k`. -/
def Holds (f : κ → Option Nat) (k : Nat) (places : Finset κ) : Prop :=
  ∀ p, p ∈ places ↔ f p = some k

/-- One place changes hands: it leaves the count if it was held, and joins it if it is. -/
theorem Holds.update (h : Holds f k places) (p : κ) (v : Option Nat) :
    ∃ places', Holds (Function.update f p v) k places' ∧
      places'.card + (if f p = some k then 1 else 0) =
        places.card + (if v = some k then 1 else 0) := by
  have hrest : (places.erase p).card + (if f p = some k then 1 else 0) = places.card := by
    split
    · rename_i hp
      exact Finset.card_erase_add_one ((h p).2 hp)
    · rename_i hp
      rw [Finset.erase_eq_of_notMem (mt (h p).1 hp), Nat.add_zero]
  have hold (q : κ) (hq : q ≠ p) : q ∈ places.erase p ↔ Function.update f p v q = some k := by
    rw [Finset.mem_erase, Function.update_of_ne hq, h q]
    exact and_iff_right hq
  by_cases hv : v = some k
  · refine ⟨insert p (places.erase p), fun q => ?_, ?_⟩
    · by_cases hq : q = p
      · subst hq
        simp [hv]
      · rw [Finset.mem_insert, or_iff_right hq]
        exact hold q hq
    · rw [Finset.card_insert_of_notMem (Finset.notMem_erase p places), if_pos hv]
      omega
  · refine ⟨places.erase p, fun q => ?_, by rw [if_neg hv, hrest, Nat.add_zero]⟩
    by_cases hq : q = p
    · subst hq
      simp [hv]
    · exact hold q hq

end

namespace Exchange

/-! ### The handles outside the registry -/

def created (deeds : List Deed) : Nat := (deeds.map mailboxesAdded).sum

/-- The handles of mailbox `k` outside the registry: the first one, and what was cloned of it and
not dropped. -/
def held (k : Nat) (deeds : List Deed) : Nat :=
  (if k < created deeds then 1 else 0) + deeds.count (.handle k .share) -
    deeds.count (.handle k .release)

def needs (k : Nat) : Deed → Bool
  | .attach _ _ j | .handle j (.deliver ..) | .handle j .share | .handle j .release => j = k
  | _ => false

/-- Handles of mailbox `k` are used by those who hold one. -/
def Owned (k : Nat) (deeds : List Deed) : Prop :=
  ∀ i (_ : i < deeds.length), needs k deeds[i] = true → 0 < held k (deeds.take i)

instance (k : Nat) (deeds : List Deed) : Decidable (Owned k deeds) :=
  inferInstanceAs (Decidable (∀ i, ∀ _ : i < deeds.length, _ → _))

section
variable {k : Nat} {deeds : List Deed} {d : Deed}

theorem created_concat : created (deeds ++ [d]) = created deeds + mailboxesAdded d := by
  simp [created]

theorem size_after (workers : Nat) (deeds : List Deed) :
    (after step (new workers) deeds).boxes.size = created deeds := by
  induction deeds using List.reverseRecOn with
  | nil => rfl
  | append_singleton deeds d ih => rw [after_concat, size_step, ih, created_concat]

theorem owned_concat :
    Owned k (deeds ++ [d]) ↔ Owned k deeds ∧ (needs k d = true → 0 < held k deeds) := by
  constructor
  · intro h
    refine ⟨fun i hi hneeds => ?_, fun hneeds => ?_⟩
    · have hlt : i < (deeds ++ [d]).length := by rw [List.length_append]; omega
      have hheld := h i hlt (by rwa [List.getElem_append_left hi])
      rwa [List.take_append_of_le_length (Nat.le_of_lt hi)] at hheld
    · have hlt : deeds.length < (deeds ++ [d]).length := by simp
      have hheld := h deeds.length hlt (by rwa [List.getElem_concat_length rfl])
      rwa [List.take_left] at hheld
  · intro h i hi hneeds
    rw [List.length_append, List.length_singleton] at hi
    by_cases hlast : i = deeds.length
    · subst hlast
      rw [List.getElem_concat_length rfl] at hneeds
      rw [List.take_left]
      exact h.2 hneeds
    · have hlt : i < deeds.length := by omega
      rw [List.getElem_append_left hlt] at hneeds
      rw [List.take_append_of_le_length (Nat.le_of_lt hlt)]
      exact h.1 i hlt hneeds

theorem Owned.balance (h : Owned k deeds) :
    held k deeds + deeds.count (.handle k .release) =
      (if k < created deeds then 1 else 0) + deeds.count (.handle k .share) := by
  induction deeds using List.reverseRecOn with
  | nil => rfl
  | append_singleton deeds d ih =>
    obtain ⟨hold, hneeds⟩ := owned_concat.1 h
    have hbefore := ih hold
    have hcreated : (if k < created deeds then 1 else 0) ≤
        if k < created (deeds ++ [d]) then 1 else 0 := by
      rw [created_concat]
      split <;> split <;> omega
    suffices deeds.count (.handle k .release) + [d].count (.handle k .release) ≤
        (if k < created (deeds ++ [d]) then 1 else 0) + (deeds ++ [d]).count (.handle k .share) by
      rw [held, List.count_append (a := Deed.handle k .release)]
      omega
    rw [List.count_append]
    by_cases hd : d = .handle k .release
    · have hpos := hneeds (by simp [hd, needs])
      have hone : [d].count (.handle k .release) = 1 := by simp [hd]
      omega
    · have hzero : [d].count (.handle k .release) = 0 := by simp [hd]
      omega

theorem Owned.held_concat (h : Owned k (deeds ++ [d])) :
    held k (deeds ++ [d]) + (if d = .handle k .release then 1 else 0) =
      held k deeds + (if d = .handle k .share then 1 else 0) +
        if mailboxesAdded d = 1 ∧ created deeds = k then 1 else 0 := by
  have hnow := h.balance
  have hbefore := (owned_concat.1 h).1.balance
  have hadded : mailboxesAdded d = 0 ∨ mailboxesAdded d = 1 := by
    cases d <;> simp [mailboxesAdded]
  have hcreated : (if k < created (deeds ++ [d]) then 1 else 0) =
      (if k < created deeds then 1 else 0) +
        if mailboxesAdded d = 1 ∧ created deeds = k then 1 else 0 := by
    rw [created_concat]
    split <;> split <;> split <;> omega
  rw [hcreated, List.count_append, List.count_append, List.count_singleton,
    List.count_singleton] at hnow
  simp only [beq_iff_eq] at hnow
  omega

end
end Exchange

/-! ### The sending ends of one mailbox -/

namespace Mailboxes

def senders (t : Mailboxes) (k : Nat) : Nat := (t.get? k).elim 0 Mailbox.senders

def accepts (t : Mailboxes) (k : Nat) : Bool := (t.get? k).all Mailbox.accepting

section
variable {t t' : Mailboxes} {k : Nat}

theorem SameEnds.same (h : t.SameEnds t') (k : Nat) :
    t'.senders k = t.senders k ∧ t'.accepts k = t.accepts k := by
  unfold senders accepts
  cases hb : t.get? k with
  | none =>
    have hle : t.size ≤ k := Array.getElem?_eq_none_iff.1 hb
    have hnone : t'.get? k = none := Array.getElem?_eq_none (h.size.trans_le hle)
    rw [hnone]
    exact ⟨rfl, rfl⟩
  | some b =>
    obtain ⟨b', hb', haccepting, hsenders⟩ := h.box k b hb
    rw [hb']
    exact ⟨hsenders, haccepting⟩

theorem accepts_modify {f : Mailbox → Mailbox} (j : Nat)
    (hf : j = k → ∀ b, (f b).accepting = b.accepting) :
    (t.modify j f).accepts k = t.accepts k := by
  unfold accepts
  rw [get?_modify]
  split
  · rename_i hjk
    cases t.get? k with
    | none => rfl
    | some b => exact hf hjk b
  · rfl

theorem senders_modify {f : Mailbox → Mailbox} (j : Nat) (hf : ∀ b, (f b).senders = b.senders) :
    (t.modify j f).senders k = t.senders k := by
  unfold senders
  rw [get?_modify]
  cases t.get? k with
  | none => split <;> rfl
  | some b =>
    split
    · exact hf b
    · rfl

@[simp] theorem accepts_addSender (t : Mailboxes) (j k : Nat) :
    (t.addSender j).accepts k = t.accepts k :=
  accepts_modify j fun _ _ => rfl

@[simp] theorem accepts_dropSender (t : Mailboxes) (j k : Nat) :
    (t.dropSender j).accepts k = t.accepts k :=
  accepts_modify j fun _ _ => rfl

theorem senders_addSender {j : Nat} (h : j = k → 0 < t.senders k) :
    (t.addSender j).senders k = t.senders k + if j = k then 1 else 0 := by
  unfold senders at h ⊢
  rw [addSender, get?_modify]
  split
  · rename_i hjk
    cases hb : t.get? k with
    | none =>
      rw [hb] at h
      exact absurd (h hjk) (Nat.lt_irrefl 0)
    | some b => rfl
  · rfl

theorem senders_dropSender (j : Nat) :
    (t.dropSender j).senders k = t.senders k - if j = k then 1 else 0 := by
  unfold senders
  rw [dropSender, get?_modify]
  split
  · cases t.get? k with
    | none => exact (Nat.zero_sub 1).symm
    | some b => rfl
  · rfl

end
end Mailboxes

namespace Exchange

/-! ### What a deed does to them -/

def places (x : Exchange) (p : Channel × SubscriberId) : Option Nat := x.attached? p.1 p.2

theorem places_attach (x : Exchange) (c : Channel) (id : SubscriberId) (j : Nat) :
    (x.step (.attach c id j)).2.places = Function.update x.places (c, id) (some j) := by
  funext p
  rw [places, attached_attach, Function.update_apply]
  simp only [places, Prod.ext_iff, eq_comm]

theorem places_detach (x : Exchange) (c : Channel) (id : SubscriberId) :
    (x.step (.detach c id)).2.places = Function.update x.places (c, id) none := by
  funext p
  rw [places, attached_detach, Function.update_apply]
  simp only [places, Prod.ext_iff, eq_comm]

@[simp] theorem places_dispatch (x : Exchange) (c : Channel) (payload : List UInt8) :
    (x.step (.dispatch c payload)).2.places = x.places :=
  funext fun p => x.attached_dispatch c p.1 payload p.2

section
variable (x : Exchange) {k : Nat}

theorem senders_handle {j : Nat} {w : Handling} (h : j = k → w = .share → 0 < x.boxes.senders k) :
    (x.step (.handle j w)).2.boxes.senders k =
      x.boxes.senders k + (if j = k ∧ w = .share then 1 else 0) -
        if j = k ∧ w = .release then 1 else 0 := by
  cases hw : w.keepsEnds with
  | true =>
    have hother : w ≠ .share ∧ w ≠ .release := by
      constructor <;> rintro rfl <;> cases hw
    simp only [hother.1, hother.2, and_false, if_false, Nat.add_zero, Nat.sub_zero]
    exact ((x.boxes.sameEnds_handle j hw).same k).1
  | false =>
    cases w with
    | share =>
      simp only [reduceCtorEq, and_true, and_false, if_false, Nat.sub_zero]
      exact Mailboxes.senders_addSender fun hjk => h hjk rfl
    | release =>
      simp only [reduceCtorEq, and_true, and_false, if_false, Nat.add_zero]
      exact Mailboxes.senders_dropSender j
    | close | discard =>
      simp only [reduceCtorEq, and_false, if_false, Nat.add_zero, Nat.sub_zero]
      exact Mailboxes.senders_modify j fun _ => rfl
    | deliver | take | takeMany => cases hw

theorem senders_add (capacity : Nat) : (x.step (.add capacity)).2.boxes.senders k =
    x.boxes.senders k + if x.boxes.size = k then 1 else 0 := by
  rw [Mailboxes.senders, get?_add]
  by_cases hk : k = x.boxes.size
  · have hnone : x.boxes.get? k = none := Array.getElem?_eq_none (Nat.le_of_eq hk.symm)
    rw [if_pos hk, if_pos hk.symm, Mailboxes.senders, hnone]
    rfl
  · rw [if_neg hk, if_neg (Ne.symm hk)]
    rfl

theorem boxes_attach (c : Channel) (id : SubscriberId) (j : Nat) :
    (x.step (.attach c id j)).2.boxes =
      (x.attached? c id).elim (x.boxes.addSender j) (x.boxes.addSender j).dropSender := by
  simp only [step, Registry.attach, attached?]
  cases (x.registry.members c).find? id <;> rfl

theorem boxes_detach (c : Channel) (id : SubscriberId) :
    (x.step (.detach c id)).2.boxes = (x.attached? c id).elim x.boxes x.boxes.dropSender := by
  simp only [step, Registry.detach, attached?]
  cases (x.registry.members c).find? id <;> rfl

theorem senders_attach (c : Channel) (id : SubscriberId) {j : Nat}
    (h : j = k → 0 < x.boxes.senders k) :
    (x.step (.attach c id j)).2.boxes.senders k =
      x.boxes.senders k + (if j = k then 1 else 0) -
        if x.places (c, id) = some k then 1 else 0 := by
  rw [boxes_attach, places]
  cases hold : x.attached? c id with
  | none => exact Mailboxes.senders_addSender h
  | some old =>
    rw [Option.elim_some, Mailboxes.senders_dropSender, Mailboxes.senders_addSender h]
    simp only [Option.some.injEq]

theorem senders_detach (c : Channel) (id : SubscriberId) :
    (x.step (.detach c id)).2.boxes.senders k =
      x.boxes.senders k - if x.places (c, id) = some k then 1 else 0 := by
  rw [boxes_detach, places]
  cases hold : x.attached? c id with
  | none => rfl
  | some old =>
    rw [Option.elim_some, Mailboxes.senders_dropSender]
    simp only [Option.some.injEq]

theorem accepts_step {d : Deed} (hd : ∀ w, d = .handle k w → w.closes = false)
    (h : x.boxes.accepts k = true) : (x.step d).2.boxes.accepts k = true := by
  cases d with
  | add capacity =>
    rw [Mailboxes.accepts, get?_add]
    split
    · rfl
    · exact h
  | attach c id j =>
    rw [boxes_attach]
    cases x.attached? c id <;> simpa using h
  | detach c id =>
    rw [boxes_detach]
    cases x.attached? c id <;> simpa using h
  | dispatch c payload => exact (((Mailboxes.sameEnds_dispatch ..).same k).2).trans h
  | handle j w =>
    simp only [step, Mailboxes.handle_boxes]
    refine (Mailboxes.accepts_modify j fun hjk b => ?_).trans h
    have hopen := hd w (by rw [hjk])
    cases w with
    | close | discard => cases hopen
    | share | release => rfl
    | deliver | take | takeMany => exact (b.handled_ends rfl).1

end

/-- Mailbox `k` is not closed, and its sending ends are `n` and one for each place that has a clone
of a handle. -/
structure Counts (x : Exchange) (k n : Nat) : Prop where
  accepts : x.boxes.accepts k = true
  counted : ∃ places, Holds x.places k places ∧ x.boxes.senders k = n + places.card

section
variable {x : Exchange} {k n n' : Nat} {d : Deed}

theorem Counts.next (h : x.Counts k n) (hneeds : needs k d = true → 0 < n)
    (hopen : ∀ w, d = .handle k w → w.closes = false)
    (hn : n' + (if d = .handle k .release then 1 else 0) =
      n + (if d = .handle k .share then 1 else 0) +
        if mailboxesAdded d = 1 ∧ x.boxes.size = k then 1 else 0) :
    (x.step d).2.Counts k n' := by
  obtain ⟨places, hplaces, hcount⟩ := h.counted
  refine ⟨x.accepts_step hopen h.accepts, ?_⟩
  cases d with
  | add capacity =>
    refine ⟨places, hplaces, ?_⟩
    simp only [mailboxesAdded, true_and, reduceCtorEq, if_false, Nat.add_zero] at hn
    rw [hn, Nat.add_right_comm, ← hcount]
    exact x.senders_add capacity
  | attach c id j =>
    obtain ⟨places', hplaces', hcard⟩ := hplaces.update (c, id) (some j)
    refine ⟨places', by rwa [places_attach], ?_⟩
    have hsame : n' = n := by simpa [mailboxesAdded] using hn
    have hpos : j = k → 0 < x.boxes.senders k := fun hjk => by
      have := hneeds (by simpa [needs] using hjk)
      omega
    replace hcard : places'.card + (if x.places (c, id) = some k then 1 else 0) =
        places.card + if j = k then 1 else 0 := by
      simpa only [Option.some.injEq] using hcard
    rw [x.senders_attach c id hpos, hcount, hsame]
    omega
  | detach c id =>
    obtain ⟨places', hplaces', hcard⟩ := hplaces.update (c, id) none
    refine ⟨places', by rwa [places_detach], ?_⟩
    have hsame : n' = n := by simpa [mailboxesAdded] using hn
    replace hcard : places'.card + (if x.places (c, id) = some k then 1 else 0) = places.card := by
      simpa only [reduceCtorEq, if_false, Nat.add_zero] using hcard
    rw [x.senders_detach, hcount, hsame]
    omega
  | dispatch c payload =>
    refine ⟨places, by rwa [places_dispatch], ?_⟩
    have hsame : n' = n := by simpa [mailboxesAdded] using hn
    rw [hsame, ← hcount]
    exact ((Mailboxes.sameEnds_dispatch ..).same k).1
  | handle j w =>
    refine ⟨places, hplaces, ?_⟩
    simp only [mailboxesAdded, Nat.zero_ne_one, false_and, if_false, Nat.add_zero,
      Deed.handle.injEq] at hn
    have hpos : j = k → w = .share → 0 < x.boxes.senders k := fun hjk hw => by
      have := hneeds (by simpa [needs, hw] using hjk)
      omega
    rw [x.senders_handle hpos, hcount]
    by_cases hrelease : j = k ∧ w = .release
    · have hshare : ¬(j = k ∧ w = .share) := fun h => by cases hrelease.2.symm.trans h.2
      rw [if_pos hrelease, if_neg hshare] at hn ⊢
      omega
    · rw [if_neg hrelease] at hn ⊢
      omega

theorem counts_new (workers k : Nat) : (new workers).Counts k 0 := by
  have hnone (p : Channel × SubscriberId) : (new workers).places p = none := by
    rw [places, attached?, new, Registry.members_new]
    rfl
  exact ⟨rfl, ∅, fun p => by simp [hnone], rfl⟩

/-- The count after a history in which nobody closes the mailbox. -/
theorem counts_after (workers : Nat) {deeds : List Deed} (h : Owned k deeds)
    (hopen : ∀ w, .handle k w ∈ deeds → w.closes = false) :
    (after step (new workers) deeds).Counts k (held k deeds) := by
  induction deeds using List.reverseRecOn with
  | nil => exact counts_new workers k
  | append_singleton deeds d ih =>
    obtain ⟨hold, hneeds⟩ := owned_concat.1 h
    have hbefore := ih hold fun w hw => hopen w (List.mem_append_left _ hw)
    have hlast (w : Handling) (hw : d = .handle k w) : w.closes = false :=
      hopen w (List.mem_append_right _ (List.mem_singleton.2 hw.symm))
    rw [after_concat]
    refine hbefore.next hneeds hlast ?_
    rw [size_after]
    exact h.held_concat

theorem Counts.senders_eq_zero (h : x.Counts k n) :
    x.boxes.senders k = 0 ↔ n = 0 ∧ ∀ c id, x.attached? c id ≠ some k := by
  obtain ⟨places, hplaces, hcount⟩ := h.counted
  have hnone : places.card = 0 ↔ ∀ c id, x.attached? c id ≠ some k := by
    rw [Finset.card_eq_zero, Finset.eq_empty_iff_forall_notMem, Prod.forall]
    exact forall₂_congr fun c id => not_congr (hplaces (c, id))
  rw [hcount, Nat.add_eq_zero_iff, hnone]

end
end Exchange
end EventRelay
