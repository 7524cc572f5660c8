import EventRelay.Proofs.Log.Operations
import EventRelay.Proofs.Relay.Lanes
/-!
What never goes back while a relay runs: its log, the topics of its brokers and the places of its
lanes. `Later` is a preorder; `Valid.later` says that every action obeys it.
-/
namespace EventRelay

structure Lane.Later (l l' : Lane) : Prop where
  broker : l'.broker = l.broker
  topic : l'.topic = l.topic
  partition : l'.partition = l.partition
  incarnation : l'.reader.cursor.incarnation = l.reader.cursor.incarnation
  column : l'.reader.cursor.partition = l.reader.cursor.partition
  offset : l.reader.cursor.offset ≤ l'.reader.cursor.offset

theorem Lane.Later.refl (l : Lane) : l.Later l := ⟨rfl, rfl, rfl, rfl, rfl, Nat.le_refl _⟩

theorem Lane.Later.trans {k l m : Lane} (h : k.Later l) (h' : l.Later m) : k.Later m where
  broker := h'.broker.trans h.broker
  topic := h'.topic.trans h.topic
  partition := h'.partition.trans h.partition
  incarnation := h'.incarnation.trans h.incarnation
  column := h'.column.trans h.column
  offset := Nat.le_trans h.offset h'.offset

namespace Relay

/-- `s` is what `r` can become. A broker that was not there yet has no topics before. -/
structure Later (r s : Relay) : Prop where
  log : r.log.Grows s.log
  size : r.brokers.size ≤ s.brokers.size
  topics : ∀ b, (r.broker b).topics <+: (s.broker b).topics
  config : ∀ b, b < r.brokers.size → (s.broker b).config = (r.broker b).config
  registry : ∀ b, b < r.brokers.size → (s.broker b).registry = (r.broker b).registry
  closed : ∀ b, b < r.brokers.size → (r.broker b).closed = true → (s.broker b).closed = true
  nextLane : r.nextLane ≤ s.nextLane
  lane : ∀ i l', i < r.nextLane → s.lanes.find? i = some l' →
    ∃ l, r.lanes.find? i = some l ∧ l.Later l'

theorem later_of_eq {r s : Relay} (hl : r.log.Grows s.log) (hb : s.brokers = r.brokers)
    (hn : s.nextLane = r.nextLane) (hi : s.lanes = r.lanes) : r.Later s where
  log := hl
  size := Nat.le_of_eq (congrArg Array.size hb.symm)
  topics b := by simp only [broker, hb, List.prefix_refl]
  config b _ := by rw [broker, broker, hb]
  registry b _ := by rw [broker, broker, hb]
  closed b _ := by rw [broker, broker, hb]; exact id
  nextLane := Nat.le_of_eq hn.symm
  lane i l' _ h := ⟨l', by rw [← hi]; exact h, .refl l'⟩

theorem Later.refl (r : Relay) : r.Later r := later_of_eq (.refl _) rfl rfl rfl

theorem Later.trans {r s t : Relay} (h : r.Later s) (h' : s.Later t) : r.Later t where
  log := h.log.trans h'.log
  size := Nat.le_trans h.size h'.size
  topics b := (h.topics b).trans (h'.topics b)
  config b hb := (h'.config b (Nat.lt_of_lt_of_le hb h.size)).trans (h.config b hb)
  registry b hb := (h'.registry b (Nat.lt_of_lt_of_le hb h.size)).trans (h.registry b hb)
  closed b hb hc := h'.closed b (Nat.lt_of_lt_of_le hb h.size) (h.closed b hb hc)
  nextLane := Nat.le_trans h.nextLane h'.nextLane
  lane i l'' hi hl := by
    obtain ⟨l', hl', hlater'⟩ := h'.lane i l'' (Nat.lt_of_lt_of_le hi h.nextLane) hl
    obtain ⟨l, hl, hlater⟩ := h.lane i l' hi hl'
    exact ⟨l, hl, hlater.trans hlater'⟩

theorem Later.open_before {r s : Relay} (h : r.Later s) {b : Nat} (hb : b < r.brokers.size)
    (ho : (s.broker b).closed = false) : (r.broker b).closed = false := by
  by_contra hc
  have hclosed := h.closed b hb (by simpa using hc)
  rw [ho] at hclosed
  cases hclosed

theorem later_setBroker (r : Relay) {b : Nat} {v : Broker}
    (ht : (r.broker b).topics <+: v.topics) (hc : v.config = (r.broker b).config)
    (hg : v.registry = (r.broker b).registry)
    (ho : (r.broker b).closed = true → v.closed = true) : r.Later (r.setBroker b v) := by
  by_cases hb : b < r.brokers.size
  · have hset := r.broker_setBroker hb v
    refine ⟨.refl _, Nat.le_of_eq (size_setBroker ..).symm, fun b' => ?_, fun b' _ => ?_,
      fun b' _ => ?_, fun b' _ => ?_, Nat.le_refl _, fun i l' _ h => ⟨l', h, .refl l'⟩⟩ <;> rw [hset b']
    all_goals
      split
      · rename_i h
        subst h
        assumption
      · first | exact List.prefix_rfl | rfl | exact id
  · rw [r.setBroker_of_le (Nat.le_of_not_lt hb)]
    exact .refl r

theorem later_push (r : Relay) (v : Broker) :
    r.Later { r with brokers := r.brokers.push v } := by
  have hpush : ∀ b, b < r.brokers.size →
      ({ r with brokers := r.brokers.push v } : Relay).broker b = r.broker b := by
    intro b hb
    simp only [broker, Array.getElem?_push, if_neg (Nat.ne_of_lt hb)]
  refine ⟨.refl _, by simp, fun b => ?_, fun b hb => by rw [hpush b hb],
    fun b hb => by rw [hpush b hb], fun b hb => by rw [hpush b hb]; exact id, Nat.le_refl _,
    fun i l' _ h => ⟨l', h, .refl l'⟩⟩
  by_cases hb : b < r.brokers.size
  · simp only [hpush b hb, List.prefix_refl]
  · have hnone : (r.broker b).topics = [] := by
      rw [broker, Array.getElem?_eq_none (Nat.le_of_not_lt hb)]; rfl
    rw [hnone]
    exact List.nil_prefix

theorem Enrolls.later {r s : Relay} {id b : Nat} {topic : String} {readers : List Reader}
    {stage : Stage} (h : r.Enrolls s id b topic readers stage) : r.Later s where
  log := by rw [h.log]; exact .refl _
  size := Nat.le_of_eq h.size.symm
  topics b' := by
    rw [h.broker b']
    split
    · rename_i hb; subst hb; exact List.prefix_append _ _
    · exact List.prefix_rfl
  config b' _ := by
    rw [h.broker b']
    split
    · rename_i hb; rw [hb]
    · rfl
  registry b' _ := by
    rw [h.broker b']
    split
    · rename_i hb; rw [hb]
    · rfl
  closed b' _ hc := by
    rw [h.broker b']
    split
    · rename_i hb; rw [← hb]; exact hc
    · exact hc
  nextLane := by rw [h.nextLane]; omega
  lane i l' hi hl := ⟨l', by rw [← h.old i (.inl hi)]; exact hl, .refl l'⟩

theorem later_lane {r s : Relay} {i : Nat} {l : Lane} {o : Option Lane}
    (hi : r.lanes.find? i = some l) (hl : ∀ m, o = some m → l.Later m) (hlog : s.log = r.log)
    (hb : s.brokers = r.brokers) (hn : s.nextLane = r.nextLane)
    (hs : ∀ j, s.lanes.find? j = if i = j then o else r.lanes.find? j) : r.Later s := by
  have hsame : r.Later { r with log := s.log, brokers := s.brokers } :=
    later_of_eq (by rw [hlog]; exact .refl _) hb rfl rfl
  refine ⟨hsame.log, hsame.size, hsame.topics, hsame.config, hsame.registry, hsame.closed,
    Nat.le_of_eq hn.symm, fun j m _ hm => ?_⟩
  rw [hs j] at hm
  split at hm
  · rename_i hij
    subst hij
    exact ⟨l, hi, hl m hm⟩
  · exact ⟨m, hm, .refl m⟩

end Relay
end EventRelay
