import EventRelay.Proofs.Registry.Exchange
import EventRelay.Relay.Basic
/-!
What a dispatch does, and what all dispatches of a history add up to in the counters of a registry.
Main statement: `dispatches_add_up`.
-/
namespace EventRelay.Exchange
open History

/-- No two identifiers are attached with one mailbox. -/
def Apart (deeds : List Deed) : Prop :=
  ∀ c c' id id' k, .attach c id k ∈ deeds → .attach c' id' k ∈ deeds → id = id'

/-- `y` comes from `x` by the dispatch of a payload to channel `c`, which answered `n`. -/
structure Dispatched (x : Exchange) (c : Channel) (payload : List UInt8) (n : Nat) (y : Exchange) :
    Prop where
  shards : y.registry.shards = x.registry.shards
  elsewhere : ∀ k, (∀ id, x.attached? c id ≠ some k) → y.boxes.get? k = x.boxes.get? k
  /-- Each subscriber is offered the event once; those with room take it, and they are counted. -/
  decoded : ∀ m, Binary.decode payload = .ok m →
    (∀ id k, x.attached? c id = some k → y.boxes.get? k = (x.boxes.get? k).map (.offered m)) ∧
    n = (x.registry.members c).values.countP x.boxes.takes
  undecoded : ∀ e, Binary.decode payload = .error e → n = 0 ∧ y.boxes = x.boxes
  unheard : (∀ id, x.attached? c id = none) → n = 0 ∧ y = x

def answered (x : Exchange) : Deed → Nat
  | .dispatch c payload => (x.registry.dispatch x.boxes c payload).1
  | _ => 0

/-- The subscribers that the event of a dispatch is meant for. -/
def addressed (x : Exchange) : Deed → Nat
  | .dispatch c payload =>
    if (Binary.decode payload).isOk then x.registry.subscriberCount c else 0
  | _ => 0

/-- Counts a dispatch that subscribers are waiting for but that holds no event. -/
def spoiled (x : Exchange) : Deed → Nat
  | .dispatch c payload =>
    if (Binary.decode payload).isOk ∨ x.registry.subscriberCount c = 0 then 0 else 1
  | _ => 0

/-- `y` comes from `x` while the dispatches counted so far grow by the given numbers. -/
structure Adds (x : Exchange) (answered addressed spoiled : Nat) (y : Exchange) : Prop where
  delivered : y.registry.delivered = x.registry.delivered + answered.toUInt64
  offered : y.registry.delivered + y.registry.refused =
    x.registry.delivered + x.registry.refused + addressed.toUInt64
  undecodable : y.registry.undecodable = x.registry.undecodable + spoiled.toUInt64

theorem adds_nothing {x y : Exchange} (hd : y.registry.delivered = x.registry.delivered)
    (hr : y.registry.refused = x.registry.refused)
    (hu : y.registry.undecodable = x.registry.undecodable) : x.Adds 0 0 0 y := by
  have hzero : Nat.toUInt64 0 = 0 := rfl
  refine ⟨?_, ?_, ?_⟩
  · rw [hd, hzero, UInt64.add_zero]
  · rw [hd, hr, hzero, UInt64.add_zero]
  · rw [hu, hzero, UInt64.add_zero]

theorem Adds.trans {x y z : Exchange} {n m k n' m' k' : Nat} (h : x.Adds n m k y)
    (h' : y.Adds n' m' k' z) : x.Adds (n + n') (m + m') (k + k') z where
  delivered := by
    rw [h'.delivered, h.delivered, Nat.toUInt64, UInt64.ofNat_add, UInt64.add_assoc]
  offered := by rw [h'.offered, h.offered, Nat.toUInt64, UInt64.ofNat_add, UInt64.add_assoc]
  undecodable := by
    rw [h'.undecodable, h.undecodable, Nat.toUInt64, UInt64.ofNat_add, UInt64.add_assoc]

theorem isEmpty_iff_size {m : Members} : m.isEmpty = true ↔ m.size = 0 := by
  rw [Table.isEmpty, Table.size, List.isEmpty_iff_length_eq_zero]

section
variable (x : Exchange)

theorem adds_dispatch (c : Channel) (payload : List UInt8) :
    let d := .dispatch c payload
    x.Adds (x.answered d) (x.addressed d) (x.spoiled d) (x.step d).2 := by
  cases hd : Binary.decode payload with
  | error e =>
    have hok : (Binary.decode payload).isOk = false := by rw [hd]; rfl
    simp only [answered, addressed, spoiled, step, Registry.dispatch_of_error hd, hok,
      Bool.false_eq_true, if_false, false_or, Registry.subscriberCount, ← isEmpty_iff_size]
    refine ⟨(UInt64.add_zero _).symm, (UInt64.add_zero _).symm, ?_⟩
    split <;> rfl
  | ok m =>
    have hok : (Binary.decode payload).isOk = true := by rw [hd]; rfl
    have hall := Registry.offer_all m (x.registry.members c).values x.boxes
    rw [Table.values, List.length_map] at hall
    simp only [answered, addressed, spoiled, step, Registry.dispatch_of_ok hd, hok, if_true,
      true_or, Registry.subscriberCount, Table.size, ← hall]
    refine ⟨rfl, ?_, (UInt64.add_zero _).symm⟩
    simp only [Nat.toUInt64, UInt64.ofNat_add]
    ac_rfl

theorem adds_step (d : Deed) :
    x.Adds (x.answered d) (x.addressed d) (x.spoiled d) (x.step d).2 := by
  cases d with
  | dispatch c payload => exact x.adds_dispatch c payload
  | detach c id =>
    have hsame : x.Adds 0 0 0 (x.step (.detach c id)).2 := by
      simp only [step, Registry.detach]
      split <;> exact adds_nothing rfl rfl rfl
    exact hsame
  | _ => exact adds_nothing rfl rfl rfl

end

theorem adds_after (workers : Nat) (deeds : List Deed) :
    (new workers).Adds (total step answered (new workers) deeds)
      (total step addressed (new workers) deeds) (total step spoiled (new workers) deeds)
      (after step (new workers) deeds) := by
  induction deeds using List.reverseRecOn with
  | nil => exact adds_nothing rfl rfl rfl
  | append_singleton deeds d ih =>
    simp only [total_concat, after_concat]
    exact ih.trans (adds_step _ d)

theorem Apart.nodup_values {workers : Nat} {deeds : List Deed} (h : Apart deeds) (c : Channel) :
    ((after step (new workers) deeds).registry.members c).values.Nodup :=
  Table.nodup_values fun id id' k hk hk' =>
    h c c id id' k (attached_after hk) (attached_after hk')

theorem mem_values {x : Exchange} {c : Channel} {k : Nat} :
    k ∈ (x.registry.members c).values ↔ ∃ id, x.attached? c id = some k :=
  Table.mem_values

theorem isEmpty_of_unheard {x : Exchange} {c : Channel} (h : ∀ id, x.attached? c id = none) :
    (x.registry.members c).isEmpty = true := by
  rw [Table.isEmpty, List.isEmpty_iff, List.eq_nil_iff_forall_not_mem]
  intro e he
  have hsome := Table.mem_entries.1 he
  rw [← attached?, h e.1] at hsome
  cases hsome

theorem dispatched_of_nodup {x : Exchange} {c : Channel}
    (h : (x.registry.members c).values.Nodup) (payload : List UInt8) :
    ∃ n, (x.step (.dispatch c payload)).1 = .count n ∧
      x.Dispatched c payload n (x.step (.dispatch c payload)).2 := by
  refine ⟨(x.registry.dispatch x.boxes c payload).1, rfl, ?_⟩
  simp only [step]
  refine ⟨?_, fun k hk => ?_, fun m hm => ?_, fun e he => ?_, fun hnone => ?_⟩
  · cases hd : Binary.decode payload with
    | error e => rw [Registry.dispatch_of_error hd]
    | ok m => rw [Registry.dispatch_of_ok hd]
  · refine Registry.get?_dispatch_of_not_mem _ _ _ _ fun hmem => ?_
    obtain ⟨id, hid⟩ := mem_values.1 hmem
    exact hk id hid
  · rw [Registry.dispatch_of_ok hm]
    refine ⟨fun id k hk => Registry.get?_offer m ?_ x.boxes, Registry.offer_taken m h x.boxes⟩
    exact List.count_eq_one_of_mem h (mem_values.2 ⟨id, hk⟩)
  · rw [Registry.dispatch_of_error he]
    exact ⟨rfl, rfl⟩
  · simp only [Registry.dispatch, if_pos (isEmpty_of_unheard hnone)]
    exact ⟨trivial, trivial⟩

theorem dispatches_add_up (workers : Nat) (deeds : List Deed) (h : Apart deeds) :
    let x := after step (new workers) deeds
    (∀ c payload, ∃ n, (x.step (.dispatch c payload)).1 = .count n ∧
      x.Dispatched c payload n (x.step (.dispatch c payload)).2) ∧
    x.registry.stats.delivered = (total step answered (new workers) deeds).toUInt64 ∧
    x.registry.stats.delivered + x.registry.stats.refused =
      (total step addressed (new workers) deeds).toUInt64 ∧
    x.registry.stats.undecodable = (total step spoiled (new workers) deeds).toUInt64 := by
  have hadds := adds_after workers deeds
  refine ⟨fun c payload => dispatched_of_nodup (h.nodup_values c) payload, ?_, ?_, ?_⟩
  · exact hadds.delivered.trans (UInt64.zero_add _)
  · exact hadds.offered.trans (UInt64.zero_add _)
  · exact hadds.undecodable.trans (UInt64.zero_add _)

/-- Three subscribers of one channel: the first has room for one message, the third is gone. Two
events are dispatched to them, and two payloads that hold none, one of them to nobody. -/
def threeSubscribers : List Deed :=
  let payload := fun id => Binary.encode (.object .create id)
  [.add 1, .add 8, .add 8, .attach ⟨"a", "k"⟩ (.fresh 0) 0, .attach ⟨"a", "k"⟩ (.fresh 1) 1,
    .attach ⟨"a", "k"⟩ (.fresh 2) 2, .handle 2 .discard, .dispatch ⟨"a", "k"⟩ (payload 1),
    .dispatch ⟨"a", "k"⟩ (payload 2), .dispatch ⟨"a", "k"⟩ [255], .dispatch ⟨"b", "k"⟩ [255]]

/-- The full one and the one that is gone stay attached, and each refusal is counted. -/
theorem dispatches_add_up_of_lag : Apart threeSubscribers ∧
    let x := after step (new 2) threeSubscribers
    let y := (x.step (.dispatch ⟨"a", "k"⟩ (Binary.encode (.object .create 3)))).2
    x.registry.stats.delivered = 3 ∧ x.registry.stats.delivered + x.registry.stats.refused = 6 ∧
    x.registry.stats.undecodable = 1 ∧
    x.Dispatched ⟨"a", "k"⟩ (Binary.encode (.object .create 3)) 1 y := by
  have hnumbered : ∀ c id k, Deed.attach c id k ∈ threeSubscribers → id = .fresh k := by
    intro c id k hk
    simp only [threeSubscribers, List.mem_cons, Deed.attach.injEq, reduceCtorEq, false_or,
      List.not_mem_nil, or_false] at hk
    obtain ⟨-, rfl, rfl⟩ | ⟨-, rfl, rfl⟩ | ⟨-, rfl, rfl⟩ := hk <;> rfl
  have hapart : Apart threeSubscribers := fun c c' id id' k hk hk' =>
    (hnumbered c id k hk).trans (hnumbered c' id' k hk').symm
  obtain ⟨hdispatch, hdelivered, hoffered, hundecodable⟩ :=
    dispatches_add_up 2 threeSubscribers hapart
  refine ⟨hapart, ?_, ?_, ?_, ?_⟩
  · rw [hdelivered]
    decide +kernel
  · rw [hoffered]
    decide +kernel
  · rw [hundecodable]
    decide +kernel
  · obtain ⟨n, -, hd⟩ := hdispatch ⟨"a", "k"⟩ (Binary.encode (.object .create 3))
    have hm : Binary.decode (Binary.encode (.object .create 3)) = .ok (.object .create 3) := by
      decide +kernel
    have hn : n = 1 := (hd.decoded _ hm).2.trans (by decide +kernel)
    exact hn ▸ hd

end EventRelay.Exchange
