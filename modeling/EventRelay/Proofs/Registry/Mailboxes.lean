import EventRelay.Registry
/-!
What the operations of a registry do to mailboxes. Only a dispatch puts a message into a mailbox.
Main statements: `dispatch_offers`, `drains_attach` and `drains_detach`.
-/
namespace EventRelay

namespace Mailboxes

def size (t : Mailboxes) : Nat := t.boxes.size

def buffer (t : Mailboxes) (k : Nat) : List Event := (t.get? k).elim [] Mailbox.buffer

/-- On the way from `t` to `t'` messages are taken from the front of mailboxes, or nothing
happens. -/
structure Drains (t t' : Mailboxes) : Prop where
  size : t'.size = t.size
  buffer : ∀ k, t'.buffer k <:+ t.buffer k

/-- On the way from `t` to `t'` the message goes to some of the mailboxes `ks`. -/
structure Offers (m : Event) (ks : List Nat) (t t' : Mailboxes) : Prop where
  size : t'.size = t.size
  buffer : ∀ k, t'.buffer k = t.buffer k ∨ k ∈ ks ∧ t'.buffer k = t.buffer k ++ [m]

section
variable {t t' t'' : Mailboxes}

theorem buffer_of_size_le {k : Nat} (h : t.size ≤ k) : t.buffer k = [] := by
  rw [buffer, get?, Array.getElem?_eq_none h]
  rfl

theorem Drains.refl (t : Mailboxes) : t.Drains t := ⟨rfl, fun _ => List.suffix_refl _⟩

theorem Drains.trans (h : t.Drains t') (h' : t'.Drains t'') : t.Drains t'' where
  size := h'.size.trans h.size
  buffer k := (h'.buffer k).trans (h.buffer k)

@[simp] theorem size_modify (t : Mailboxes) (k : Nat) (f : Mailbox → Mailbox) :
    (t.modify k f).size = t.size := by
  simp [modify, size]

theorem get?_modify (t : Mailboxes) (k j : Nat) (f : Mailbox → Mailbox) :
    (t.modify k f).get? j = if k = j then (t.get? j).map f else t.get? j := by
  simp only [get?, modify, Array.getElem?_modify]

theorem drains_modify (t : Mailboxes) (k : Nat) {f : Mailbox → Mailbox}
    (hf : ∀ b, t.get? k = some b → (f b).buffer <:+ b.buffer) : t.Drains (t.modify k f) := by
  refine ⟨size_modify .., fun j => ?_⟩
  rw [buffer, buffer, get?_modify]
  by_cases hkj : k = j
  · subst hkj
    rw [if_pos rfl]
    cases hb : t.get? k with
    | none => exact List.suffix_refl _
    | some b => exact hf b hb
  · simp only [if_neg hkj, List.suffix_refl]

theorem drains_addSender (t : Mailboxes) (k : Nat) : t.Drains (t.addSender k) :=
  t.drains_modify k fun _ _ => List.suffix_refl _

theorem drains_dropSender (t : Mailboxes) (k : Nat) : t.Drains (t.dropSender k) :=
  t.drains_modify k fun _ _ => List.suffix_refl _

theorem drains_discard (t : Mailboxes) (k : Nat) : t.Drains (t.modify k .discard) :=
  t.drains_modify k fun _ _ => List.nil_suffix

theorem drains_take (t : Mailboxes) (k : Nat) : t.Drains (t.take k).2 := by
  unfold take
  cases hb : t.get? k with
  | none => exact .refl t
  | some b =>
    refine t.drains_modify k fun b' hb' => ?_
    rw [hb, Option.some.injEq] at hb'
    subst hb'
    unfold Mailbox.take
    cases hbuffer : b.buffer with
    | nil => simp [hbuffer]
    | cons m rest => exact List.suffix_cons m rest

theorem drains_takeMany (t : Mailboxes) (k n : Nat) : t.Drains (t.takeMany k n).2 := by
  unfold takeMany
  cases hb : t.get? k with
  | none => exact .refl t
  | some b =>
    refine t.drains_modify k fun b' hb' => ?_
    rw [hb, Option.some.injEq] at hb'
    subst hb'
    exact List.drop_suffix n b.buffer

theorem buffer_add (t : Mailboxes) (capacity k : Nat) :
    (t.add (.new capacity)).2.buffer k = t.buffer k := by
  simp only [add, buffer, get?, Array.getElem?_push]
  by_cases hk : k = t.boxes.size
  · rw [if_pos hk, hk, Array.getElem?_eq_none (Nat.le_refl _)]
    rfl
  · rw [if_neg hk]

theorem deliver_ok {k : Nat} {m : Event} (h : t.deliver k m = .ok t') : t'.size = t.size ∧
    t'.buffer k = t.buffer k ++ [m] ∧ ∀ j, j ≠ k → t'.buffer j = t.buffer j := by
  unfold deliver at h
  cases hb : t.get? k with
  | none => rw [hb] at h; cases h
  | some b =>
    simp only [hb] at h
    cases hd : b.deliver m with
    | error e => rw [hd] at h; cases h
    | ok b' =>
      rw [hd] at h
      cases h
      have hbuffer : b'.buffer = b.buffer ++ [m] := by
        unfold Mailbox.deliver at hd
        split at hd
        · cases hd
        · split at hd
          · cases hd
          · cases hd; rfl
      refine ⟨size_modify .., ?_, fun j hj => ?_⟩
      · rw [buffer, buffer, get?_modify, if_pos rfl, hb]
        exact hbuffer
      · rw [buffer, buffer, get?_modify, if_neg (Ne.symm hj)]

end
end Mailboxes

namespace Registry

theorem offer_offers (m : Event) (ks : List Nat) (h : ks.Nodup) (t : Mailboxes) :
    t.Offers m ks (offer m ks t).2.2 := by
  induction ks generalizing t with
  | nil => exact ⟨rfl, fun _ => .inl rfl⟩
  | cons k ks ih =>
    obtain ⟨hk, hks⟩ := List.nodup_cons.1 h
    rw [offer]
    cases hd : t.deliver k m with
    | error e =>
      have hrest := ih hks t
      exact ⟨hrest.size, fun j => (hrest.buffer j).imp_right fun hj =>
        ⟨List.mem_cons_of_mem k hj.1, hj.2⟩⟩
    | ok t' =>
      have hrest := ih hks t'
      obtain ⟨hsize, hthis, hothers⟩ := Mailboxes.deliver_ok hd
      refine ⟨hrest.size.trans hsize, fun j => ?_⟩
      by_cases hjk : j = k
      · subst hjk
        refine .inr ⟨List.mem_cons_self, ?_⟩
        cases hrest.buffer j with
        | inl hj => exact hj.trans hthis
        | inr hj => exact absurd hj.1 hk
      · rw [← hothers j hjk]
        exact (hrest.buffer j).imp_right fun hj => ⟨List.mem_cons_of_mem k hj.1, hj.2⟩

@[simp] theorem members_dispatch (r : Registry) (t : Mailboxes) (c d : Channel)
    (payload : List UInt8) : (r.dispatch t c payload).2.1.members d = r.members d := by
  unfold dispatch
  by_cases hm : (r.members c).isEmpty
  · simp only [if_pos hm]
  · simp only [if_neg hm]
    cases Binary.decode payload with
    | error e => rfl
    | ok m => rfl

theorem dispatch_offers (r : Registry) (t : Mailboxes) (c : Channel) (payload : List UInt8)
    (h : (r.members c).values.Nodup) : (r.dispatch t c payload).2.2 = t ∨
      ∃ m, Binary.decode payload = .ok m ∧
        t.Offers m (r.members c).values (r.dispatch t c payload).2.2 := by
  unfold dispatch
  by_cases hm : (r.members c).isEmpty
  · exact .inl (by rw [if_pos hm])
  · simp only [if_neg hm]
    cases hd : Binary.decode payload with
    | error e => exact .inl rfl
    | ok m => exact .inr ⟨m, rfl, offer_offers m _ h t⟩

theorem drains_attach (r : Registry) (t : Mailboxes) (c : Channel) (id : SubscriberId)
    (k : Nat) : t.Drains (r.attach t c id k).2 := by
  unfold attach
  cases hf : (r.members c).find? id with
  | none =>
    simp only [hf]
    exact t.drains_addSender k
  | some old =>
    simp only [hf]
    exact (t.drains_addSender k).trans ((t.addSender k).drains_dropSender old)

theorem find?_attach (r : Registry) (t : Mailboxes) (c d : Channel) (id id' : SubscriberId)
    (k : Nat) : ((r.attach t c id k).1.members d).find? id' =
      if c = d ∧ id = id' then some k else (r.members d).find? id' := by
  unfold attach
  rw [members_setMembers]
  by_cases hcd : c = d
  · subst hcd
    by_cases hid : id = id' <;> simp [Table.find?_insert, hid]
  · simp [hcd]

theorem drains_detach (r : Registry) (t : Mailboxes) (c : Channel) (id : SubscriberId) :
    t.Drains (r.detach t c id).2.2 := by
  unfold detach
  cases hf : (r.members c).find? id with
  | none =>
    simp only [hf]
    exact .refl t
  | some k =>
    simp only [hf]
    exact t.drains_dropSender k

theorem find?_detach (r : Registry) (t : Mailboxes) (c d : Channel) (id id' : SubscriberId)
    {k : Nat} (h : ((r.detach t c id).2.1.members d).find? id' = some k) :
    (r.members d).find? id' = some k := by
  unfold detach at h
  cases hf : (r.members c).find? id with
  | none => simp only [hf] at h; exact h
  | some box =>
    simp only [hf, members_setMembers] at h
    split at h
    · rename_i hcd
      subst hcd
      obtain ⟨-, h⟩ := Table.find?_erase_eq_some.1 h
      exact h
    · exact h

end Registry
end EventRelay
