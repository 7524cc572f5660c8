import EventRelay.Proofs.Delivery.Deeds
import EventRelay.Proofs.Registry.Shards
/-!
Who is attached after the deeds of a subscription, and what they make of the two ends of mailboxes.
Main statements: `attached?_detach` and `attached?_opening`, `get?_detach` and `get?_opening`, and
`SameEnds`, what reading and dispatching leave as it is.
-/
namespace EventRelay

/-! ### The ends of a mailbox -/

def Handling.keepsEnds : Handling → Bool
  | .deliver .. | .take | .takeMany _ => true
  | _ => false

theorem Mailbox.handled_ends (b : Mailbox) {w : Handling} (hw : w.keepsEnds = true) :
    (b.handled w).accepting = b.accepting ∧ (b.handled w).senders = b.senders := by
  cases w with
  | deliver id m =>
    simp only [handled, offered]
    split <;> exact ⟨rfl, rfl⟩
  | take =>
    simp only [handled, take]
    split <;> exact ⟨rfl, rfl⟩
  | takeMany n => exact ⟨rfl, rfl⟩
  | share | release | close | discard => cases hw

namespace Mailboxes

structure SameEnds (t t' : Mailboxes) : Prop where
  size : t'.size = t.size
  box : ∀ k b, t.get? k = some b →
    ∃ b', t'.get? k = some b' ∧ b'.accepting = b.accepting ∧ b'.senders = b.senders

theorem SameEnds.refl (t : Mailboxes) : t.SameEnds t := ⟨rfl, fun _ b hb => ⟨b, hb, rfl, rfl⟩⟩

theorem SameEnds.trans {t t' t'' : Mailboxes} (h : t.SameEnds t') (h' : t'.SameEnds t'') :
    t.SameEnds t'' := by
  refine ⟨h'.size.trans h.size, fun k b hb => ?_⟩
  obtain ⟨b', hb', haccepting, hsenders⟩ := h.box k b hb
  obtain ⟨b'', hb'', haccepting', hsenders'⟩ := h'.box k b' hb'
  exact ⟨b'', hb'', haccepting'.trans haccepting, hsenders'.trans hsenders⟩

theorem sameEnds_handle (t : Mailboxes) (k : Nat) {w : Handling} (hw : w.keepsEnds = true) :
    t.SameEnds (t.handle k w).2 := by
  rw [handle_boxes]
  refine ⟨size_modify .., fun j b hb => ?_⟩
  rw [get?_modify, hb]
  split
  · exact ⟨_, rfl, b.handled_ends hw⟩
  · exact ⟨b, rfl, rfl, rfl⟩

theorem sameEnds_dispatch (g : Registry) (t : Mailboxes) (c : Channel) (payload : List UInt8) :
    t.SameEnds (g.dispatch t c payload).2.2 := by
  rw [(g.dispatch_touches t c payload).2, Registry.deliveries]
  split
  · rename_i m hd
    induction (g.members c).entries generalizing t with
    | nil => exact .refl t
    | cons e es ih => exact (t.sameEnds_handle e.2 rfl).trans (ih _)
  · exact .refl t

end Mailboxes

namespace Relay
variable (r : Relay) (g : Nat) (c : Channel) (id : SubscriberId)

/-! ### Who is attached -/

theorem setRegistry_of_le {r : Relay} {g : Nat} (hg : r.registries.size ≤ g) (v : Registry) :
    r.setRegistry g v = r := by
  rw [setRegistry, Array.setIfInBounds, dif_neg (Nat.not_lt.2 hg)]

theorem registry_setRegistry_of_lt {r : Relay} {g : Nat} (hg : g < r.registries.size)
    (v : Registry) (g' : Nat) :
    (r.setRegistry g v).registry g' = if g = g' then v else r.registry g' := by
  unfold registry setRegistry
  split
  · rename_i h
    subst h
    rw [Array.getElem?_setIfInBounds_self_of_lt hg, Option.getD_some]
  · rename_i h
    rw [Array.getElem?_setIfInBounds_ne h]

theorem attached?_of_le {r : Relay} {g : Nat} (hg : r.registries.size ≤ g) (c : Channel)
    (id : SubscriberId) : r.attached? g c id = none := by
  rw [attached?, registry, Array.getElem?_eq_none hg, Option.getD_none, Registry.members_new]
  rfl

theorem attached?_addRegistry (workers : Nat) :
    (r.addRegistry workers).2.attached? g c id = r.attached? g c id := by
  by_cases hg : g = r.registries.size
  · rw [attached?_of_le (Nat.le_of_eq hg.symm), attached?, registry, addRegistry,
      Array.getElem?_push, if_pos hg, Option.getD_some, Registry.members_new]
    rfl
  · rw [attached?, registry, addRegistry, Array.getElem?_push, if_neg hg]
    rfl

theorem attached?_detach (g' : Nat) (c' : Channel) (id' : SubscriberId) :
    (r.detach g c id).2.attached? g' c' id' =
      if g = g' ∧ c = c' ∧ id = id' then none else r.attached? g' c' id' := by
  by_cases hg : g < r.registries.size
  · have hset := registry_setRegistry_of_lt hg ((r.registry g).detach r.mailboxes c id).2.1 g'
    have hdetach := (r.exchange g).attached_detach c c' id id'
    by_cases hgg : g = g'
    · subst hgg
      rw [if_pos rfl] at hset
      simp only [true_and]
      exact (congrArg (fun v => (v.members c').find? id') hset).trans hdetach
    · rw [if_neg hgg] at hset
      rw [if_neg fun h => hgg h.1]
      exact congrArg (fun v => (v.members c').find? id') hset
  · have hle := Nat.le_of_not_lt hg
    have hsame : (r.detach g c id).2.attached? g' c' id' = r.attached? g' c' id' :=
      congrArg (fun q => q.attached? g' c' id')
        (setRegistry_of_le hle ((r.registry g).detach r.mailboxes c id).2.1)
    rw [hsame]
    split
    · rename_i h
      rw [← h.1, attached?_of_le hle]
    · rfl

theorem attached?_attach (k g' : Nat) (c' : Channel) (id' : SubscriberId) :
    (r.deed (g, .attach c id k)).2.attached? g' c' id' =
      if g < r.registries.size ∧ g = g' ∧ c = c' ∧ id = id' then some k
      else r.attached? g' c' id' := by
  by_cases hg : g < r.registries.size
  · have hset := registry_setRegistry_of_lt hg ((r.registry g).attach r.mailboxes c id k).1 g'
    have hattach := (r.exchange g).attached_attach c c' id id' k
    by_cases hgg : g = g'
    · subst hgg
      rw [if_pos rfl] at hset
      simp only [hg, true_and]
      exact (congrArg (fun v => (v.members c').find? id') hset).trans hattach
    · rw [if_neg hgg] at hset
      rw [if_neg fun h => hgg h.2.1]
      exact congrArg (fun v => (v.members c').find? id') hset
  · rw [if_neg fun h => hg h.1]
    exact congrArg (fun q => q.attached? g' c' id')
      (setRegistry_of_le (Nat.le_of_not_lt hg) ((r.registry g).attach r.mailboxes c id k).1)

theorem attached?_opening (sub : Subscription) (capacity g' : Nat) (c' : Channel)
    (id' : SubscriberId) :
    (History.after deed r (sub.opening capacity)).attached? g' c' id' =
      if sub.registry < r.registries.size ∧ sub.registry = g' ∧ sub.channel = c' ∧ sub.id = id'
      then some sub.mailbox else r.attached? g' c' id' := by
  simp only [Subscription.opening, History.after, deed_handle, deed_add]
  exact attached?_attach { r with mailboxes := _ } ..

/-! ### The mailboxes -/

theorem mailboxes_detach : (r.detach g c id).2.mailboxes =
    (r.attached? g c id).elim r.mailboxes r.mailboxes.dropSender := by
  simp only [detach, Registry.detach, attached?]
  cases ((r.registry g).members c).find? id <;> rfl

theorem get?_detach {k : Nat} (h : r.attached? g c id ≠ some k) :
    (r.detach g c id).2.mailboxes.get? k = r.mailboxes.get? k := by
  rw [mailboxes_detach]
  cases ha : r.attached? g c id with
  | none => rfl
  | some j =>
    rw [ha] at h
    exact r.mailboxes.get?_modify_of_ne (fun hj => h (congrArg some hj)) _

theorem get?_detach_attached {r : Relay} {g : Nat} {c : Channel} {id : SubscriberId} {k : Nat}
    (h : r.attached? g c id = some k) : (r.detach g c id).2.mailboxes.get? k =
      (r.mailboxes.get? k).map (.handled .release) := by
  rw [mailboxes_detach, h, Option.elim_some, Mailboxes.dropSender, Mailboxes.get?_modify,
    if_pos rfl]
  rfl

@[simp] theorem size_detach : (r.detach g c id).2.mailboxes.size = r.mailboxes.size := by
  rw [mailboxes_detach]
  cases r.attached? g c id with
  | none => rfl
  | some k => exact r.mailboxes.size_modify k _

@[simp] theorem size_opening (sub : Subscription) (capacity : Nat) :
    (History.after deed r (sub.opening capacity)).mailboxes.size = r.mailboxes.size + 1 := by
  simp only [Subscription.opening, History.after, deed_handle, deed_add, Mailboxes.handle_boxes,
    Mailboxes.size_modify]
  exact (Registry.drains_attach ..).size.trans (Array.size_push _)

theorem get?_opening {r : Relay} {sub : Subscription} (hnew : sub.mailbox = r.mailboxes.size)
    (hfree : r.attached? sub.registry sub.channel sub.id = none) (capacity k : Nat) :
    (History.after deed r (sub.opening capacity)).mailboxes.get? k =
      if k = sub.mailbox then some (.new capacity) else r.mailboxes.get? k := by
  have hold : (((r.mailboxes.add (.new capacity)).2.addSender sub.mailbox).dropSender
      sub.mailbox).get? k = if k = sub.mailbox then some (.new capacity)
        else r.mailboxes.get? k := by
    have hadd : (r.mailboxes.add (.new capacity)).2.get? k =
        if k = sub.mailbox then some (.new capacity) else r.mailboxes.get? k := by
      rw [hnew]
      exact Array.getElem?_push
    simp only [Mailboxes.addSender, Mailboxes.dropSender, Mailboxes.get?_modify, hadd]
    by_cases hk : k = sub.mailbox
    · subst hk
      simp [Mailbox.new]
    · simp only [if_neg hk, if_neg (Ne.symm hk)]
  have hmailboxes : (History.after deed r (sub.opening capacity)).mailboxes =
      ((r.mailboxes.add (.new capacity)).2.addSender sub.mailbox).dropSender sub.mailbox := by
    simp only [Subscription.opening, History.after, deed_handle, deed_add]
    simp only [deed, exchange, Exchange.step, Registry.attach]
    rw [attached?, registry] at hfree
    simp only [registry, hfree]
    rfl
  rw [hmailboxes, hold]

end Relay
end EventRelay
