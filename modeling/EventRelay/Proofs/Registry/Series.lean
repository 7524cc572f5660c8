import EventRelay.Proofs.Registry.Accounting
import EventRelay.Proofs.Registry.Shards
import Mathlib.Algebra.BigOperators.Group.List.Basic
import Mathlib.Algebra.GroupWithZero.Nat
/-!
What a series of dispatches comes to when nobody takes a message in between: each mailbox gets as
many of the first events for it as it has room for. Main statement: `serves_series`.
-/
namespace EventRelay

/-! ### One mailbox -/

namespace Mailbox

/-- The free places of a mailbox; one that takes nothing has none. -/
def room (b : Mailbox) : Nat := if b.accepting then b.capacity - b.buffer.length else 0

def filled (b : Mailbox) (ms : List Event) : Mailbox :=
  { b with buffer := b.buffer ++ ms.take b.room }

theorem hasRoom_eq (b : Mailbox) : b.hasRoom = decide (0 < b.room) := by
  unfold hasRoom room
  cases b.accepting with
  | false => rfl
  | true =>
    rw [Bool.true_and, if_pos rfl, decide_eq_decide]
    omega

@[simp] theorem filled_nil (b : Mailbox) : b.filled [] = b := by
  simp [filled]

theorem room_filled (b : Mailbox) (ms : List Event) : (b.filled ms).room = b.room - ms.length := by
  unfold filled room
  cases b.accepting with
  | false => simp
  | true =>
    simp only [if_true, List.length_append, List.length_take]
    omega

theorem filled_filled (b : Mailbox) (ms ms' : List Event) :
    (b.filled ms).filled ms' = b.filled (ms ++ ms') := by
  rw [filled, room_filled]
  simp only [filled, List.append_assoc, List.take_append]

theorem filled_singleton (b : Mailbox) (m : Event) : b.filled [m] = b.offered m := by
  unfold filled offered
  rw [hasRoom_eq]
  by_cases h : 0 < b.room
  · obtain ⟨n, hn⟩ : ∃ n, b.room = n + 1 := ⟨b.room - 1, by omega⟩
    rw [if_pos (decide_eq_true h), hn, List.take_succ_cons, List.take_nil]
  · rw [if_neg (by rw [decide_eq_true_eq]; exact h), Nat.eq_zero_of_not_pos h, List.take_zero,
      List.append_nil]

end Mailbox

/-- The events that a series of dispatches holds for a channel. -/
def eventsFor (ds : List (Channel × List UInt8)) (c : Channel) : List Event :=
  ds.filterMap fun d => if d.1 = c then (Binary.decode d.2).toOption else none

theorem countP_eq_sum {α : Type} (P : α → Bool) (xs : List α) :
    xs.countP P = (xs.map fun x => if P x = true then 1 else 0).sum := by
  induction xs with
  | nil => rfl
  | cons x xs ih => rw [List.countP_cons, List.map_cons, List.sum_cons, ih, Nat.add_comm]

theorem eventsFor_append (ds ds' : List (Channel × List UInt8)) (c : Channel) :
    eventsFor (ds ++ ds') c = eventsFor ds c ++ eventsFor ds' c :=
  List.filterMap_append ..

theorem eventsFor_of_ok {c : Channel} {payload : List UInt8} {m : Event}
    (h : Binary.decode payload = .ok m) (c' : Channel) :
    eventsFor [(c, payload)] c' = if c = c' then [m] else [] := by
  simp only [eventsFor, List.filterMap_cons, h, Except.toOption, List.filterMap_nil]
  by_cases hc : c = c' <;> simp [hc]

theorem eventsFor_of_error {c : Channel} {payload : List UInt8} {e : Binary.Fault}
    (h : Binary.decode payload = .error e) (c' : Channel) : eventsFor [(c, payload)] c' = [] := by
  simp [eventsFor, h, Except.toOption]

namespace Exchange
open History

def series (ds : List (Channel × List UInt8)) : List Deed := ds.map fun d => .dispatch d.1 d.2

/-- Each mailbox is attached once, to one channel and under one identifier. -/
def Sorted (x : Exchange) : Prop :=
  ∀ c c' id id' k, x.attached? c id = some k → x.attached? c' id' = some k → c = c' ∧ id = id'

def room (x : Exchange) (e : Channel × SubscriberId) : Nat :=
  ((x.attached? e.1 e.2).bind x.boxes.get?).elim 0 Mailbox.room

/-- `y` is `x` after a series of dispatches that holds the events `ms` for each channel. -/
structure Serves (x : Exchange) (ms : Channel → List Event) (y : Exchange) : Prop where
  shards : y.registry.shards = x.registry.shards
  boxes : ∀ c id k, x.attached? c id = some k →
    y.boxes.get? k = (x.boxes.get? k).map fun b => b.filled (ms c)
  elsewhere : ∀ k, (∀ c id, x.attached? c id ≠ some k) → y.boxes.get? k = x.boxes.get? k
  delivered : y.registry.delivered = x.registry.delivered +
    UInt64.ofNat (x.registry.attached.map fun e => min (x.room e) (ms e.1).length).sum
  refused : y.registry.refused = x.registry.refused +
    UInt64.ofNat (x.registry.attached.map fun e => (ms e.1).length - x.room e).sum

section
variable {x y : Exchange}

theorem Sorted.nodup_values (h : x.Sorted) (c : Channel) :
    (x.registry.members c).values.Nodup :=
  Table.nodup_values fun id id' k hk hk' => (h c c id id' k hk hk').2

theorem placed_of_shards (hp : x.registry.Placed)
    (h : y.registry.shards = x.registry.shards) : y.registry.Placed := by
  intro i s hs c m hm
  rw [Registry.shardOf, Registry.workers, h]
  rw [h] at hs
  exact hp i s hs c m hm

theorem attached_of_shards (h : y.registry.shards = x.registry.shards) :
    y.registry.attached = x.registry.attached := by
  rw [Registry.attached, h, Registry.attached]

theorem attached?_of_shards (h : y.registry.shards = x.registry.shards) (c : Channel)
    (id : SubscriberId) : y.attached? c id = x.attached? c id := by
  have hmembers : y.registry.members c = x.registry.members c := by
    simp only [Registry.members, Registry.shard, Registry.shardOf, Registry.workers, h]
  rw [attached?, attached?, hmembers]

theorem countP_values (h : x.registry.Placed) (c : Channel) (P : Nat → Bool) :
    (x.registry.members c).values.countP P =
      x.registry.attached.countP fun e => (e.1 = c) && (x.attached? e.1 e.2).any P := by
  have hkeys : (x.registry.attached.filter fun e => e.1 = c).Perm
      ((x.registry.members c).keys.map fun id => (c, id)) := by
    have hnodup : ((x.registry.members c).keys.map fun id => (c, id)).Nodup :=
      (x.registry.members c).nodup.map fun _ _ heq => (Prod.mk.inj heq).2
    refine (List.perm_ext_iff_of_nodup (h.nodup_attached.filter _) hnodup).2 fun (d, id) => ?_
    rw [List.mem_filter, h.mem_attached, List.mem_map]
    constructor
    · intro hall
      obtain ⟨hbox, hd⟩ := hall
      obtain rfl := of_decide_eq_true hd
      exact ⟨id, Table.mem_keys.2 hbox, rfl⟩
    · intro hall
      obtain ⟨id', hid, heq⟩ := hall
      cases heq
      exact ⟨Table.mem_keys.1 hid, decide_eq_true rfl⟩
  have hvalues : (x.registry.members c).values.countP P =
      (x.registry.members c).keys.countP fun id => (x.attached? c id).any P := by
    rw [Table.values, Table.keys, List.countP_map, List.countP_map]
    refine List.countP_congr fun e he => ?_
    rw [Function.comp_apply, Function.comp_apply, attached?, Table.mem_entries.1 he,
      Option.any_some]
  rw [hvalues]
  calc (x.registry.members c).keys.countP (fun id => (x.attached? c id).any P)
      = ((x.registry.members c).keys.map fun id => (c, id)).countP
          fun e => (x.attached? e.1 e.2).any P := by rw [List.countP_map]; rfl
    _ = (x.registry.attached.filter fun e => e.1 = c).countP
          fun e => (x.attached? e.1 e.2).any P := (hkeys.countP_eq _).symm
    _ = x.registry.attached.countP fun e => (e.1 = c) && (x.attached? e.1 e.2).any P := by
        rw [List.countP_filter]
        exact List.countP_congr fun e _ => by rw [Bool.and_comm]

theorem any_takes (x : Exchange) (e : Channel × SubscriberId) :
    (x.attached? e.1 e.2).any x.boxes.takes = decide (0 < x.room e) := by
  unfold room
  cases x.attached? e.1 e.2 with
  | none => rfl
  | some k =>
    rw [Option.any_some, Mailboxes.takes, Option.bind_some]
    cases x.boxes.get? k with
    | none => rfl
    | some b => exact b.hasRoom_eq

/-! ### A series -/

theorem Serves.refl (x : Exchange) : x.Serves (fun _ => []) x where
  shards := rfl
  boxes c id k _ := by simp
  elsewhere k _ := rfl
  delivered := by simp
  refused := by simp

theorem Serves.room {ms : Channel → List Event} (h : x.Serves ms y) (e : Channel × SubscriberId) :
    y.room e = x.room e - (ms e.1).length := by
  unfold Exchange.room
  rw [attached?_of_shards h.shards]
  cases hk : x.attached? e.1 e.2 with
  | none => exact (Nat.zero_sub _).symm
  | some k =>
    rw [Option.bind_some, Option.bind_some, h.boxes e.1 e.2 k hk]
    cases x.boxes.get? k with
    | none => exact (Nat.zero_sub _).symm
    | some b => exact b.room_filled (ms e.1)

theorem Serves.trans {z : Exchange} {ms ms' : Channel → List Event} (h : x.Serves ms y)
    (h' : y.Serves ms' z) : x.Serves (fun c => ms c ++ ms' c) z where
  shards := h'.shards.trans h.shards
  boxes c id k hk := by
    rw [h'.boxes c id k (by rw [attached?_of_shards h.shards]; exact hk), h.boxes c id k hk,
      Option.map_map]
    exact congrFun (congrArg _ (funext fun b => b.filled_filled (ms c) (ms' c))) _
  elsewhere k hk := by
    rw [h'.elsewhere k fun c id => by rw [attached?_of_shards h.shards]; exact hk c id,
      h.elsewhere k hk]
  delivered := by
    have hsum : (x.registry.attached.map fun e => min (x.room e) (ms e.1 ++ ms' e.1).length).sum =
        (x.registry.attached.map fun e => min (x.room e) (ms e.1).length).sum +
          (x.registry.attached.map fun e => min (y.room e) (ms' e.1).length).sum := by
      rw [← List.sum_map_add]
      refine congrArg List.sum (List.map_congr_left fun e _ => ?_)
      rw [h.room, List.length_append]
      omega
    rw [h'.delivered, h.delivered, attached_of_shards h.shards, hsum, UInt64.ofNat_add,
      UInt64.add_assoc]
  refused := by
    have hsum : (x.registry.attached.map fun e => (ms e.1 ++ ms' e.1).length - x.room e).sum =
        (x.registry.attached.map fun e => (ms e.1).length - x.room e).sum +
          (x.registry.attached.map fun e => (ms' e.1).length - y.room e).sum := by
      rw [← List.sum_map_add]
      refine congrArg List.sum (List.map_congr_left fun e _ => ?_)
      rw [h.room, List.length_append]
      omega
    rw [h'.refused, h.refused, attached_of_shards h.shards, hsum, UInt64.ofNat_add,
      UInt64.add_assoc]

section
variable {c : Channel} {payload : List UInt8} {m : Event}

theorem taken_eq (hx : x.Sorted) (hp : x.registry.Placed) (h : Binary.decode payload = .ok m) :
    (Registry.offer m (x.registry.members c).values x.boxes).1 =
      (x.registry.attached.map fun e =>
        min (x.room e) (eventsFor [(c, payload)] e.1).length).sum := by
  rw [Registry.offer_taken m (hx.nodup_values c), countP_values hp, countP_eq_sum]
  refine congrArg List.sum (List.map_congr_left fun e _ => ?_)
  rw [x.any_takes, eventsFor_of_ok h]
  by_cases hc : c = e.1
  · rw [if_pos hc, decide_eq_true hc.symm, Bool.true_and, List.length_singleton]
    by_cases hroom : 0 < x.room e
    · rw [if_pos (decide_eq_true hroom)]
      omega
    · rw [if_neg (by rw [decide_eq_true_eq]; exact hroom)]
      omega
  · rw [if_neg hc, decide_eq_false (Ne.symm hc)]
    simp

theorem offered_eq (hp : x.registry.Placed) (h : Binary.decode payload = .ok m) :
    (x.registry.members c).values.length =
      (x.registry.attached.map fun e => (eventsFor [(c, payload)] e.1).length).sum := by
  rw [← List.countP_true, countP_values hp, countP_eq_sum]
  refine congrArg List.sum (List.map_congr_left fun e he => ?_)
  obtain ⟨k, hk⟩ := hp.mem_attached.1 he
  rw [attached?, hk, eventsFor_of_ok h]
  by_cases hc : c = e.1 <;> simp [hc, eq_comm]

theorem refused_eq (hx : x.Sorted) (hp : x.registry.Placed) (h : Binary.decode payload = .ok m) :
    (Registry.offer m (x.registry.members c).values x.boxes).2.1 =
      (x.registry.attached.map fun e =>
        (eventsFor [(c, payload)] e.1).length - x.room e).sum := by
  have hall := Registry.offer_all m (x.registry.members c).values x.boxes
  have hsplit : (x.registry.attached.map fun e => (eventsFor [(c, payload)] e.1).length).sum =
      (x.registry.attached.map fun e =>
        min (x.room e) (eventsFor [(c, payload)] e.1).length).sum +
      (x.registry.attached.map fun e => (eventsFor [(c, payload)] e.1).length - x.room e).sum := by
    rw [← List.sum_map_add]
    refine congrArg List.sum (List.map_congr_left fun e _ => ?_)
    omega
  rw [offered_eq hp h, taken_eq hx hp h] at hall
  omega

end

theorem serves_dispatch (hx : x.Sorted) (hp : x.registry.Placed) (c : Channel)
    (payload : List UInt8) :
    x.Serves (eventsFor [(c, payload)]) (x.step (.dispatch c payload)).2 := by
  obtain ⟨n, -, hd⟩ := dispatched_of_nodup (hx.nodup_values c) payload
  cases hdec : Binary.decode payload with
  | error e =>
    have hnone : eventsFor [(c, payload)] = fun _ => [] :=
      funext fun c' => eventsFor_of_error hdec c'
    have hsame : (x.step (.dispatch c payload)).2.boxes = x.boxes := (hd.undecoded e hdec).2
    rw [hnone]
    refine ⟨hd.shards, fun c id k _ => by rw [hsame]; simp, fun k _ => by rw [hsame], ?_, ?_⟩
    · rw [step, Registry.dispatch_of_error hdec]
      simp
    · rw [step, Registry.dispatch_of_error hdec]
      simp
  | ok m =>
    have hevents := eventsFor_of_ok (c := c) hdec
    refine ⟨hd.shards, fun c' id k hk => ?_, fun k hk => hd.elsewhere k fun id => hk c id, ?_, ?_⟩
    · by_cases hc : c = c'
      · subst hc
        rw [(hd.decoded m hdec).1 id k hk, hevents, if_pos rfl]
        exact congrFun (congrArg _ (funext fun b => (b.filled_singleton m).symm)) _
      · rw [hevents, if_neg hc, hd.elsewhere k fun id' hk' => hc (hx c c' id' id k hk' hk).1]
        simp
    · rw [step, Registry.dispatch_of_ok hdec, ← taken_eq hx hp hdec]
    · rw [step, Registry.dispatch_of_ok hdec, ← refused_eq hx hp hdec]

theorem serves_series (hx : x.Sorted) (hp : x.registry.Placed)
    (ds : List (Channel × List UInt8)) : x.Serves (eventsFor ds) (after step x (series ds)) := by
  induction ds generalizing x with
  | nil => exact .refl x
  | cons d ds ih =>
    have hfirst := serves_dispatch hx hp d.1 d.2
    have hsorted : (x.step (.dispatch d.1 d.2)).2.Sorted := by
      intro c c' id id' k hk hk'
      rw [attached_dispatch] at hk hk'
      exact hx c c' id id' k hk hk'
    have hplaced := placed_of_shards hp hfirst.shards
    have hall := hfirst.trans (ih hsorted hplaced)
    have hevents : eventsFor (d :: ds) = fun c => eventsFor [d] c ++ eventsFor ds c :=
      funext fun c => eventsFor_append [d] ds c
    rw [hevents]
    exact hall

end
end Exchange
end EventRelay
