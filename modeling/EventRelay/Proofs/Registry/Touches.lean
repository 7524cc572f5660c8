import EventRelay.Proofs.Registry.Exchange
/-!
All that happens to mailboxes, one touch at a time: a new one comes, or one is handled. Every deed
on an exchange is some touches, and a dispatch is one delivery to each subscriber of the channel.
Main statements: `boxes_after` and `outcome_dispatch`.
-/
namespace EventRelay
open History

inductive Touch where
  | add (capacity : Nat)
  | handle (box : Nat) (w : Handling)
  deriving DecidableEq

namespace Mailboxes

def touch (t : Mailboxes) : Touch → Outcome × Mailboxes
  | .add capacity =>
    let (box, t) := t.add (.new capacity)
    (.added box, t)
  | .handle box w => t.handle box w

def countDone {α : Type} (tr : List (α × Outcome)) : Nat := tr.countP fun e => e.2 = .done

end Mailboxes

namespace Registry
open Mailboxes

/-- A dispatch as deliveries, one to each subscriber of the channel. -/
def deliveries (r : Registry) (c : Channel) (payload : List UInt8) : List Touch :=
  match Binary.decode payload with
  | .ok m => (r.members c).entries.map fun (id, box) => .handle box (.deliver id m)
  | .error _ => []

theorem offer_touches (m : Event) (es : List (SubscriberId × Nat)) (t : Mailboxes) :
    let touches := es.map fun (id, box) => Touch.handle box (.deliver id m)
    (offer m (es.map Prod.snd) t).1 = countDone (trace touch t touches) ∧
      (offer m (es.map Prod.snd) t).2.2 = after touch t touches := by
  induction es generalizing t with
  | nil => exact ⟨rfl, rfl⟩
  | cons e es ih =>
    obtain ⟨id, box⟩ := e
    simp only [List.map_cons, offer, trace, after, touch, handle, countDone, List.countP_cons]
    cases t.deliver box m with
    | error f =>
      simp only [reduceCtorEq, decide_false, Bool.false_eq_true, if_false, Nat.add_zero]
      exact ih t
    | ok t' =>
      simp only [decide_true, if_true]
      exact ⟨congrArg (· + 1) (ih t').1, (ih t').2⟩

theorem dispatch_touches (r : Registry) (t : Mailboxes) (c : Channel) (payload : List UInt8) :
    (r.dispatch t c payload).1 = countDone (trace touch t (r.deliveries c payload)) ∧
      (r.dispatch t c payload).2.2 = after touch t (r.deliveries c payload) := by
  cases hd : Binary.decode payload with
  | error e =>
    rw [dispatch_of_error hd, deliveries, hd]
    exact ⟨rfl, rfl⟩
  | ok m =>
    rw [dispatch_of_ok hd, deliveries, hd]
    exact offer_touches m (r.members c).entries t

end Registry

namespace Exchange
open Mailboxes

def touches (x : Exchange) : Deed → List Touch
  | .add capacity => [.add capacity]
  | .attach c id box =>
    .handle box .share :: (x.attached? c id).toList.map fun old => .handle old .release
  | .detach c id => (x.attached? c id).toList.map fun box => .handle box .release
  | .dispatch c payload => x.registry.deliveries c payload
  | .handle box w => [.handle box w]

theorem boxes_step (x : Exchange) (d : Deed) :
    (x.step d).2.boxes = after touch x.boxes (x.touches d) := by
  cases d with
  | add | handle => rfl
  | attach c id box =>
    simp only [step, Registry.attach, touches, attached?]
    cases (x.registry.members c).find? id <;> rfl
  | detach c id =>
    simp only [step, Registry.detach, touches, attached?]
    cases (x.registry.members c).find? id <;> rfl
  | dispatch c payload => exact (x.registry.dispatch_touches x.boxes c payload).2

theorem boxes_after (x : Exchange) (deeds : List Deed) :
    (after step x deeds).boxes = after touch x.boxes (along step touches x deeds) :=
  after_along boxes_step x deeds

theorem outcome_dispatch (x : Exchange) (c : Channel) (payload : List UInt8) :
    (x.step (.dispatch c payload)).1 =
      .count (countDone (trace touch x.boxes (x.touches (.dispatch c payload)))) :=
  congrArg Outcome.count (x.registry.dispatch_touches x.boxes c payload).1

end Exchange
end EventRelay
