import EventRelay.Proofs.Log.Operations
/-!
A log and the records that were ever appended to it, in order, each with the incarnation that took
it. Main statement: `Keeps` holds of an empty log and is kept by every operation.
-/
namespace EventRelay

def recordsAt (hist : List (Nat × Record)) (i p : Nat) : List Record :=
  (hist.filter fun e => e.1 = i ∧ e.2.partition = p).map Prod.snd

@[simp] theorem recordsAt_nil (i p : Nat) : recordsAt [] i p = [] := rfl

theorem recordsAt_append (hist hist' : List (Nat × Record)) (i p : Nat) :
    recordsAt (hist ++ hist') i p = recordsAt hist i p ++ recordsAt hist' i p := by
  simp [recordsAt]

theorem mem_recordsAt {hist : List (Nat × Record)} {i p : Nat} {rec : Record} :
    rec ∈ recordsAt hist i p ↔ (i, rec) ∈ hist ∧ rec.partition = p := by
  simp only [recordsAt, List.mem_map, List.mem_filter, decide_eq_true_eq]
  constructor
  · intro hall
    obtain ⟨⟨j, x⟩, ⟨hm, rfl, hp⟩, rfl⟩ := hall
    exact ⟨hm, hp⟩
  · intro hall
    obtain ⟨hm, hp⟩ := hall
    exact ⟨(i, rec), ⟨hm, rfl, hp⟩, rfl⟩

namespace Log

/-- `hist` is what was appended to `l`, of which every partition keeps a window. -/
structure Keeps (l : Log) (retention : Nat) (hist : List (Nat × Record)) : Prop where
  sound : l.Sound
  kept : l.retention = max retention 1
  source : ∀ i rec, (i, rec) ∈ hist → ∃ inc : Incarnation, l.incarnations[i]? = some inc ∧
    rec.topic = inc.topic ∧ rec.partition = partitionFor rec.key inc.partitions.size
  window : ∀ c p, l.partition? c = some p → p.window = windowSize retention
  holds : ∀ c p, l.partition? c = some p → p.Keeps (recordsAt hist c.incarnation c.partition)

theorem keeps_new (retention : Nat) : (new retention).Keeps retention [] where
  sound := sound_new retention
  kept := rfl
  source := by simp
  window c p h := by simp [partition?, new] at h
  holds c p h := by simp [partition?, new] at h

theorem windowSize_max (n : Nat) : windowSize (max n 1) = windowSize n := by
  cases n with
  | zero => rfl
  | succ n => rw [Nat.max_eq_left (by omega)]

theorem Keeps.recordsAt_size {l : Log} {retention : Nat} {hist : List (Nat × Record)}
    (h : l.Keeps retention hist) (p : Nat) : recordsAt hist l.incarnations.size p = [] := by
  rw [List.eq_nil_iff_forall_not_mem]
  intro rec hrec
  obtain ⟨inc, hinc, -⟩ := h.source _ rec (mem_recordsAt.1 hrec).1
  simp at hinc

theorem Keeps.create {l l' : Log} {retention : Nat} {hist : List (Nat × Record)} {t : String}
    {n : Nat} (h : l.Keeps retention hist) (hl : l.create t n = .ok l') :
    l'.Keeps retention hist := by
  have hsound := h.sound.create hl
  have hgrows := grows_create hl
  obtain ⟨-, -, ⟨-, rfl⟩ | ⟨hn, -, rfl⟩⟩ := create_ok hl
  · exact h
  · -- A partition is either one of the new incarnation, which is empty, or an old one.
    have hcases : ∀ c p, Log.partition? { l with
          topics := l.topics.insert t l.incarnations.size
          incarnations := l.incarnations.push (.new t l.retention n hn) } c = some p →
        (c.incarnation = l.incarnations.size ∧ p = .empty l.retention) ∨
          l.partition? c = some p := by
      intro c p hp
      obtain ⟨inc, hinc, hq⟩ := partition?_eq_some.1 hp
      rw [Array.getElem?_push] at hinc
      split at hinc
      · rename_i hc
        cases hinc
        simp only [Incarnation.new, Array.getElem?_replicate] at hq
        split at hq
        · cases hq; exact .inl ⟨hc, rfl⟩
        · cases hq
      · exact .inr (partition?_eq_some.2 ⟨inc, hinc, hq⟩)
    refine ⟨hsound, h.kept, fun i rec hrec => ?_, fun c p hp => ?_, fun c p hp => ?_⟩
    · obtain ⟨inc, hinc, ht, hp⟩ := h.source i rec hrec
      obtain ⟨inc', hinc', ht', hs⟩ := hgrows.incarnation i inc hinc
      exact ⟨inc', hinc', ht.trans ht'.symm, hs ▸ hp⟩
    · obtain ⟨-, rfl⟩ | hp := hcases c p hp
      · simp only [Partition.empty, h.kept, windowSize_max]
      · exact h.window c p hp
    · obtain ⟨hc, rfl⟩ | hp := hcases c p hp
      · rw [hc, h.recordsAt_size]
        exact Partition.keeps_empty _
      · exact h.holds c p hp

theorem Keeps.delete {l l' : Log} {retention : Nat} {hist : List (Nat × Record)} {t : String}
    (h : l.Keeps retention hist) (hl : l.delete t = .ok l') : l'.Keeps retention hist := by
  have hsound := h.sound.delete hl
  obtain ⟨-, rfl⟩ := delete_ok hl
  exact ⟨hsound, h.kept, h.source, h.window, h.holds⟩

theorem Keeps.close {l : Log} {retention : Nat} {hist : List (Nat × Record)}
    (h : l.Keeps retention hist) : l.close.Keeps retention hist :=
  ⟨h.sound.close, h.kept, h.source, h.window, h.holds⟩

theorem Keeps.appends {l l' : Log} {retention : Nat} {hist : List (Nat × Record)} {i : Nat}
    {rec : Record} {inc inc' : Incarnation} {p : Partition} (h : l.Keeps retention hist)
    (ha : l.Appends l' i rec inc inc' p) : l'.Keeps retention (hist ++ [(i, rec)]) := by
  obtain ⟨-, -, hinc⟩ := find_eq_ok.1 ha.find
  refine ⟨h.sound.appends ha, by rw [ha.log]; exact h.kept, fun j x hx => ?_,
    fun c q hq => ?_, fun c q hq => ?_⟩
  · obtain hx | hx := List.mem_append.1 hx
    · obtain ⟨y, hy, ht, hp⟩ := h.source j x hx
      obtain ⟨y', hy', ht', hs⟩ := ha.grows.incarnation j y hy
      exact ⟨y', hy', ht.trans ht'.symm, hs ▸ hp⟩
    · cases List.mem_singleton.1 hx
      have htop := h.sound.topic_eq (find_eq_ok.1 ha.find).2.1 hinc
      refine ⟨inc', by rw [ha.incarnations, if_pos rfl], htop.symm.trans ha.topic.symm, ?_⟩
      rw [ha.partitions, Array.size_setIfInBounds]
      exact ha.routed
  · by_cases hc : c.incarnation = i ∧ c.partition = rec.partition
    · obtain ⟨hold, hnew⟩ := ha.partition_self hc.1 hc.2
      rw [hnew] at hq
      cases hq
      exact h.window c p hold
    · rw [ha.partition_of_ne hc] at hq
      exact h.window c q hq
  · rw [recordsAt_append]
    by_cases hc : c.incarnation = i ∧ c.partition = rec.partition
    · obtain ⟨hold, hnew⟩ := ha.partition_self hc.1 hc.2
      rw [hnew] at hq
      cases hq
      have hlast : recordsAt [(i, rec)] c.incarnation c.partition = [rec] := by
        simp [recordsAt, hc.1, hc.2]
      rw [hlast]
      exact (h.holds c p hold).append ha.offset
    · rw [ha.partition_of_ne hc] at hq
      have hnone : recordsAt [(i, rec)] c.incarnation c.partition = [] := by
        simp only [recordsAt, List.map_eq_nil_iff, List.filter_eq_nil_iff, List.mem_singleton,
          decide_eq_true_eq]
        intro e heq hall
        subst heq
        obtain ⟨hi, hp⟩ := hall
        exact hc ⟨hi.symm, hp.symm⟩
      rw [hnone, List.append_nil]
      exact h.holds c q hq

theorem Keeps.offset {l : Log} {retention : Nat} {hist : List (Nat × Record)} {i p o : Nat}
    {rec : Record} (h : l.Keeps retention hist) (hrec : (recordsAt hist i p)[o]? = some rec) :
    rec.offset = o := by
  obtain ⟨hmem, rfl⟩ := mem_recordsAt.1 (List.mem_of_getElem? hrec)
  obtain ⟨inc, hinc, -, hpart⟩ := h.source i rec hmem
  have hlt : rec.partition < inc.partitions.size := hpart ▸ inc.partitionFor_lt rec.key
  have hp : l.partition? ⟨i, rec.partition, 0⟩ = some inc.partitions[rec.partition] :=
    partition?_eq_some.2 ⟨inc, hinc, Array.getElem?_eq_getElem hlt⟩
  exact (h.holds _ _ hp).offset o rec hrec

theorem Keeps.getElem?_offset {l : Log} {retention : Nat} {hist : List (Nat × Record)} {i : Nat}
    {rec : Record} (h : l.Keeps retention hist) (hrec : (i, rec) ∈ hist) :
    (recordsAt hist i rec.partition)[rec.offset]? = some rec := by
  obtain ⟨o, ho⟩ := List.mem_iff_getElem?.1 (mem_recordsAt.2 ⟨hrec, rfl⟩)
  rw [h.offset ho]
  exact ho

theorem Keeps.pairwise_offset {l : Log} {retention : Nat} {hist : List (Nat × Record)}
    (h : l.Keeps retention hist) (i p : Nat) :
    (recordsAt hist i p).Pairwise fun x y => x.offset < y.offset := by
  apply List.pairwise_iff_getElem.2
  intro j k hj hk hjk
  rw [h.offset (List.getElem?_eq_getElem hj), h.offset (List.getElem?_eq_getElem hk)]
  exact hjk

/-- What a reader finds was appended to its partition, at its place or past it, and lies in the
window. -/
theorem Keeps.read {l : Log} {retention : Nat} {hist : List (Nat × Record)} {c : Cursor}
    {rec : Record} (h : l.Keeps retention hist) (hr : l.read c = .record rec) :
    ∃ p, l.partition? c = some p ∧ c.offset < p.next ∧
      rec.offset = max c.offset (p.next - windowSize retention) ∧ rec.offset < p.next ∧
      (recordsAt hist c.incarnation c.partition)[rec.offset]? = some rec := by
  obtain ⟨p, hp, hlt, rfl⟩ := read_record hr
  have hk := h.holds c p hp
  have ho := hk.offset_record hlt
  have hmem := hk.record hlt
  refine ⟨p, hp, hlt, ?_, hk.offset_lt (List.mem_of_getElem? hmem), ?_⟩
  · rw [ho, Partition.oldest, h.window c p hp]
  · rw [ho]; exact hmem

theorem Keeps.at_past {l : Log} {retention : Nat} {hist : List (Nat × Record)} {c : Cursor}
    {rec : Record} {t : String} {p : Nat} (h : l.Keeps retention hist) (ha : l.At t p c)
    (hr : l.read c = .record rec) : l.At t p (c.past rec) := by
  obtain ⟨q, hq, -, -, hlt, -⟩ := h.read hr
  exact ⟨ha.topic, ha.partition, q, hq, hlt⟩

end Log
end EventRelay
