import EventRelay.Proofs.History
import EventRelay.Proofs.Registry.Offers
/-!
A registry with the mailboxes of its subscribers, and all that is done to them: the calls of the
registry, and what the holders of a mailbox do at its two ends. Main statements: `handle_boxes` and
`handle_outcome`, a mailbox is handled by itself, and `attached_step` and `attached_after`, where an
attached subscriber comes from.
-/
namespace EventRelay

inductive Outcome where
  | done
  | added (box : Nat)
  | found (b : Bool)
  | count (n : Nat)
  | refused (e : Error)
  | taken (m : Taken)
  | batch (ms : List Event)
  deriving DecidableEq

/-- What the holders of the ends of a mailbox do with it. -/
inductive Handling where
  | deliver (id : SubscriberId) (m : Event)
  | share
  | release
  | take
  | takeMany (n : Nat)
  | close
  | discard
  deriving DecidableEq

namespace Mailboxes

def handle (t : Mailboxes) (k : Nat) : Handling → Outcome × Mailboxes
  | .deliver id m =>
    match t.deliver k m with
    | .ok t => (.done, t)
    | .error f => (.refused (id.refusal f), t)
  | .share => (.done, t.addSender k)
  | .release => (.done, t.dropSender k)
  | .take =>
    let (m, t) := t.take k
    (.taken m, t)
  | .takeMany n =>
    let (ms, t) := t.takeMany k n
    (.batch ms, t)
  | .close => (.done, t.modify k .close)
  | .discard => (.done, t.modify k .discard)

end Mailboxes

/-- What is done to an exchange. A mailbox goes by its number, a new one gets the next. -/
inductive Deed where
  | add (capacity : Nat)
  | attach (c : Channel) (id : SubscriberId) (box : Nat)
  | detach (c : Channel) (id : SubscriberId)
  | dispatch (c : Channel) (payload : List UInt8)
  | handle (box : Nat) (w : Handling)
  deriving DecidableEq

structure Exchange where
  registry : Registry
  boxes : Mailboxes := {}

namespace Exchange

def new (workers : Nat) : Exchange := { registry := .new workers }

def attached? (x : Exchange) (c : Channel) (id : SubscriberId) : Option Nat :=
  (x.registry.members c).find? id

def step (x : Exchange) : Deed → Outcome × Exchange
  | .add capacity =>
    let (box, boxes) := x.boxes.add (.new capacity)
    (.added box, { x with boxes })
  | .attach c id box =>
    let (registry, boxes) := x.registry.attach x.boxes c id box
    (.done, { registry, boxes })
  | .detach c id =>
    let (found, registry, boxes) := x.registry.detach x.boxes c id
    (.found found, { registry, boxes })
  | .dispatch c payload =>
    let (n, registry, boxes) := x.registry.dispatch x.boxes c payload
    (.count n, { registry, boxes })
  | .handle box w =>
    let (outcome, boxes) := x.boxes.handle box w
    (outcome, { x with boxes })

end Exchange

/-! ### One mailbox -/

def Mailbox.handled : Handling → Mailbox → Mailbox
  | .deliver _ m, b => b.offered m
  | .share, b => { b with senders := b.senders + 1 }
  | .release, b => { b with senders := b.senders - 1 }
  | .take, b => b.take.2
  | .takeMany n, b => (b.takeMany n).2
  | .close, b => b.close
  | .discard, b => b.discard

namespace Mailboxes

theorem handle_boxes (t : Mailboxes) (k : Nat) (w : Handling) :
    (t.handle k w).2 = t.modify k (.handled w) := by
  have hnone {f : Mailbox → Mailbox} (h : t.get? k = none) : t = t.modify k f :=
    (t.modify_id k).symm.trans (modify_congr (by simp [h]))
  have hsome {f : Mailbox → Mailbox} {b b' : Mailbox} (h : t.get? k = some b) (hf : f b = b') :
      (t.modify k fun _ => b') = t.modify k f :=
    modify_congr fun b hb => by rw [← hf, Option.some.inj (h.symm.trans hb)]
  cases w with
  | deliver id m =>
    cases ht : t.takes k with
    | true =>
      simp only [handle, deliver_of_takes m ht]
      rfl
    | false =>
      obtain ⟨f, hf⟩ := deliver_of_not_takes m ht
      simp only [handle, hf]
      exact (modify_of_not_takes m ht).symm
  | take =>
    simp only [handle, take]
    cases hb : t.get? k with
    | none => exact hnone hb
    | some b => exact hsome hb rfl
  | takeMany n =>
    simp only [handle, takeMany]
    cases hb : t.get? k with
    | none => exact hnone hb
    | some b => exact hsome hb rfl
  | _ => rfl

theorem handle_outcome {t t' : Mailboxes} {k k' : Nat} (h : t.get? k = t'.get? k')
    (w : Handling) : (t.handle k w).1 = (t'.handle k' w).1 := by
  cases w with
  | deliver id m =>
    simp only [handle, deliver, h]
    cases t'.get? k' with
    | none => rfl
    | some b =>
      dsimp only
      cases b.deliver m <;> rfl
  | take =>
    simp only [handle, take, h]
    cases t'.get? k' <;> rfl
  | takeMany n =>
    simp only [handle, takeMany, h]
    cases t'.get? k' <;> rfl
  | _ => rfl

end Mailboxes

/-! ### Who is attached -/

namespace Exchange
variable (x : Exchange) (d : Deed)

theorem attached_attach (c e : Channel) (id id' : SubscriberId) (box : Nat) :
    (x.step (.attach c id box)).2.attached? e id' =
      if c = e ∧ id = id' then some box else x.attached? e id' :=
  x.registry.find?_attach x.boxes c e id id' box

theorem attached_detach (c e : Channel) (id id' : SubscriberId) :
    (x.step (.detach c id)).2.attached? e id' =
      if c = e ∧ id = id' then none else x.attached? e id' := by
  simp only [attached?, step, Registry.detach]
  cases hf : (x.registry.members c).find? id with
  | none =>
    simp only
    split
    · rename_i hsame
      obtain ⟨rfl, rfl⟩ := hsame
      exact hf
    · rfl
  | some box =>
    simp only [Registry.members_setMembers]
    by_cases hce : c = e
    · subst hce
      simp only [if_true, Table.find?_erase, true_and]
    · simp only [hce, if_false, false_and]

@[simp] theorem attached_dispatch (c e : Channel) (payload : List UInt8) (id : SubscriberId) :
    (x.step (.dispatch c payload)).2.attached? e id = x.attached? e id := by
  rw [attached?, step, Registry.members_dispatch, attached?]

theorem attached_step {c : Channel} {id : SubscriberId} {box : Nat}
    (h : (x.step d).2.attached? c id = some box) :
    x.attached? c id = some box ∨ d = .attach c id box := by
  cases d with
  | attach c' id' box' =>
    rw [attached_attach] at h
    split at h
    · rename_i hsame
      obtain ⟨rfl, rfl⟩ := hsame
      cases h
      exact .inr rfl
    · exact .inl h
  | detach c' id' => exact .inl (x.registry.find?_detach x.boxes c' c id' id h)
  | dispatch c' payload => exact .inl (by rwa [attached_dispatch] at h)
  | _ => exact .inl h

theorem attached_after {workers : Nat} {deeds : List Deed} {c : Channel} {id : SubscriberId}
    {box : Nat} (h : (History.after step (new workers) deeds).attached? c id = some box) :
    .attach c id box ∈ deeds := by
  induction deeds using List.reverseRecOn with
  | nil =>
    rw [History.after, attached?, new, Registry.members_new] at h
    cases h
  | append_singleton deeds d ih =>
    rw [History.after_concat] at h
    rw [List.mem_append, List.mem_singleton]
    exact (attached_step _ d h).imp ih Eq.symm

end Exchange
end EventRelay
