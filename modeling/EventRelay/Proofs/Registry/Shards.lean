import EventRelay.Registry
import Mathlib.Data.List.Nodup
/-!
How a registry spreads its channels over its shards. Main statements: `Placed.setMembers`, each
stored channel stays in the shard of its name and has a subscriber, and from it `mem_channels` and
`mem_attached`, what the registry counts.
-/
namespace EventRelay.Registry

/-- Each stored channel lies in the shard of its name and has a subscriber. -/
def Placed (r : Registry) : Prop :=
  ∀ (i : Nat) s, r.shards[i]? = some s → ∀ c m, s.find? c = some m →
    r.shardOf c.name = i ∧ m.isEmpty = false

theorem placed_new (workers : Nat) : (new workers).Placed := by
  intro i s hs c m hm
  obtain ⟨hi, rfl⟩ := Array.getElem?_eq_some_iff.1 hs
  simp [new] at hm

@[simp] theorem workers_setMembers (r : Registry) (c : Channel) (m : Members) :
    (r.setMembers c m).workers = r.workers :=
  Array.size_set (r.shardOf_lt c.name)

@[simp] theorem shardOf_setMembers (r : Registry) (c : Channel) (m : Members) (name : String) :
    (r.setMembers c m).shardOf name = r.shardOf name := by
  rw [shardOf, workers_setMembers, shardOf]

section
variable {r : Registry}

theorem getElem?_shardOf (r : Registry) (c : Channel) :
    r.shards[r.shardOf c.name]? = some (r.shard c) :=
  Array.getElem?_eq_getElem _

theorem getElem?_setMembers (r : Registry) (c : Channel) (m : Members) (i : Nat) :
    (r.setMembers c m).shards[i]? = if r.shardOf c.name = i then
      some (if m.isEmpty then (r.shard c).erase c else (r.shard c).insert c m)
    else r.shards[i]? :=
  Array.getElem?_set (r.shardOf_lt c.name)

theorem Placed.setMembers (h : r.Placed) (c : Channel) (m : Members) :
    (r.setMembers c m).Placed := by
  intro i s hs d n hn
  rw [shardOf_setMembers]
  rw [getElem?_setMembers] at hs
  by_cases hi : r.shardOf c.name = i
  · rw [if_pos hi] at hs
    cases hs
    have hold := h i _ (hi ▸ r.getElem?_shardOf c) d n
    by_cases hm : m.isEmpty
    · rw [if_pos hm, Table.find?_erase_eq_some] at hn
      exact hold hn.2
    · rw [if_neg hm, Table.find?_insert_eq_some] at hn
      obtain ⟨rfl, rfl⟩ | ⟨-, hn⟩ := hn
      · exact ⟨hi, by simpa using hm⟩
      · exact hold hn
  · rw [if_neg hi] at hs
    exact h i s hs d n hn

theorem Placed.stored_iff (h : r.Placed) {c : Channel} {m : Members} :
    (∃ s ∈ r.shards.toList, s.find? c = some m) ↔ m.isEmpty = false ∧ r.members c = m := by
  constructor
  · intro hs
    obtain ⟨s, hs, hm⟩ := hs
    obtain ⟨i, hi⟩ := List.getElem?_of_mem hs
    rw [Array.getElem?_toList] at hi
    obtain ⟨rfl, hsome⟩ := h i s hi c m hm
    rw [r.getElem?_shardOf c, Option.some.injEq] at hi
    rw [members, hi, hm]
    exact ⟨hsome, rfl⟩
  · intro hm
    obtain ⟨hsome, rfl⟩ := hm
    refine ⟨r.shard c, Array.getElem_mem_toList _, ?_⟩
    unfold members at hsome ⊢
    cases hf : (r.shard c).find? c with
    | none => rw [hf] at hsome; cases hsome
    | some m => rfl

/-- What the shards hold is apart, if what each holds tells the channel it belongs to. -/
theorem Placed.nodup_flatMap (h : r.Placed) {α : Type} {f : Shard → List α} (key : α → Channel)
    (hn : ∀ s ∈ r.shards.toList, (f s).Nodup)
    (hk : ∀ s x, x ∈ f s → ∃ m, s.find? (key x) = some m) :
    (r.shards.toList.flatMap f).Nodup := by
  rw [List.nodup_flatMap]
  refine ⟨hn, List.pairwise_iff_getElem.2 fun i j hi hj hij x hx hy => ?_⟩
  obtain ⟨m, hm⟩ := hk _ x hx
  obtain ⟨m', hm'⟩ := hk _ x hy
  rw [Array.length_toList] at hi hj
  have hshard := (h i _ (Array.getElem?_eq_getElem hi) (key x) m (by simpa using hm)).1
  have hshard' := (h j _ (Array.getElem?_eq_getElem hj) (key x) m' (by simpa using hm')).1
  exact Nat.ne_of_lt hij (hshard.symm.trans hshard')

theorem Placed.nodup_channels (h : r.Placed) : r.channels.Nodup :=
  h.nodup_flatMap id (fun s _ => s.nodup) fun _ _ => Table.mem_keys.1

theorem Placed.mem_channels (h : r.Placed) {c : Channel} :
    c ∈ r.channels ↔ ∃ id box, (r.members c).find? id = some box := by
  have hsome (m : Members) : m.isEmpty = false ↔ ∃ id box, m.find? id = some box := by
    constructor
    · intro hm
      cases hl : m.entries with
      | nil => simp [Table.isEmpty, hl] at hm
      | cons e l => exact ⟨e.1, e.2, Table.mem_entries.1 (hl ▸ List.mem_cons_self)⟩
    · intro hid
      obtain ⟨id, box, hbox⟩ := hid
      by_contra hm
      have hempty : m = .empty := Table.eq_empty_of_isEmpty (by simpa using hm)
      rw [hempty] at hbox
      cases hbox
  rw [← hsome, channels, List.mem_flatMap]
  constructor
  · intro hs
    obtain ⟨s, hs, hc⟩ := hs
    obtain ⟨m, hm⟩ := Table.mem_keys.1 hc
    obtain ⟨hm, rfl⟩ := h.stored_iff.1 ⟨s, hs, hm⟩
    exact hm
  · intro hm
    obtain ⟨s, hs, hc⟩ := h.stored_iff.2 ⟨hm, rfl⟩
    exact ⟨s, hs, Table.mem_keys.2 ⟨_, hc⟩⟩

theorem Placed.mem_attached (h : r.Placed) {c : Channel} {id : SubscriberId} :
    (c, id) ∈ r.attached ↔ ∃ box, (r.members c).find? id = some box := by
  simp only [attached, List.mem_flatMap, List.mem_map, Prod.exists, Prod.mk.injEq]
  constructor
  · intro hs
    obtain ⟨s, hs, d, m, hm, id', hid, rfl, rfl⟩ := hs
    obtain ⟨-, rfl⟩ := h.stored_iff.1 ⟨s, hs, Table.mem_entries.1 hm⟩
    exact Table.mem_keys.1 hid
  · intro hbox
    have hc := h.mem_channels.2 ⟨id, hbox⟩
    obtain ⟨s, hs, hc⟩ := List.mem_flatMap.1 hc
    obtain ⟨m, hm⟩ := Table.mem_keys.1 hc
    obtain ⟨-, rfl⟩ := h.stored_iff.1 ⟨s, hs, hm⟩
    exact ⟨s, hs, c, _, Table.mem_entries.2 hm, id, Table.mem_keys.2 hbox, rfl, rfl⟩

theorem Placed.nodup_attached (h : r.Placed) : r.attached.Nodup := by
  refine h.nodup_flatMap Prod.fst (fun s _ => ?_) fun s x hx => ?_
  · rw [List.nodup_flatMap]
    refine ⟨fun e _ => e.2.nodup.map fun _ _ heq => (Prod.mk.inj heq).2, ?_⟩
    refine (List.pairwise_map.1 s.nodup).imp fun hne x hx hy => hne ?_
    obtain ⟨_, -, rfl⟩ := List.mem_map.1 hx
    obtain ⟨_, -, heq⟩ := List.mem_map.1 hy
    exact (Prod.mk.inj heq).1.symm
  · obtain ⟨e, he, hx⟩ := List.mem_flatMap.1 hx
    obtain ⟨_, -, rfl⟩ := List.mem_map.1 hx
    exact ⟨e.2, Table.mem_entries.1 he⟩

end
end EventRelay.Registry
