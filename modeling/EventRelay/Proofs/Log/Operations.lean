import EventRelay.Log
import EventRelay.Proofs.Log.Window
/-!
What the operations of a log do. `Grows` is what all of them have in common; `Keeps` ties a log to
the records that were ever appended to it.
-/
namespace EventRelay.Log

/-- Each topic stands for an incarnation of its own name, and on a closed log there is none. -/
structure Sound (l : Log) : Prop where
  topic : ∀ t i, l.topics.find? t = some i → ∃ inc, l.incarnations[i]? = some inc ∧ inc.topic = t
  closed : l.closed = true → ∀ t, l.topics.find? t = none

theorem find_eq_ok {l : Log} {t : String} {i : Nat} {inc : Incarnation} :
    l.find t = .ok (i, inc) ↔
      l.closed = false ∧ l.topics.find? t = some i ∧ l.incarnations[i]? = some inc := by
  unfold find current?
  cases hc : l.closed
  · cases ht : l.topics.find? t with
    | none => simp
    | some j =>
      have hji : (j = i ∧ l.incarnations[i]? = some inc) ↔
          (j = i ∧ l.incarnations[j]? = some inc) :=
        and_congr_right fun h => by rw [h]
      cases hj : l.incarnations[j]? with
      | none => simp [hj, hji]
      | some x => simp [hj, hji]
  · simp

theorem Sound.find {l : Log} (h : l.Sound) {t : String} {i : Nat} (ht : l.topics.find? t = some i) :
    ∃ inc, l.find t = .ok (i, inc) ∧ inc.topic = t := by
  obtain ⟨inc, hi, hinc⟩ := h.topic t i ht
  have hopen : l.closed = false := by
    by_contra hc
    rw [h.closed (by simpa using hc) t] at ht
    cases ht
  exact ⟨inc, find_eq_ok.2 ⟨hopen, ht, hi⟩, hinc⟩

theorem Sound.topic_eq {l : Log} (h : l.Sound) {t : String} {i : Nat} {inc : Incarnation}
    (ht : l.topics.find? t = some i) (hinc : l.incarnations[i]? = some inc) : inc.topic = t := by
  obtain ⟨inc', hinc', htop⟩ := h.topic t i ht
  rw [hinc] at hinc'
  cases hinc'
  exact htop

theorem partitionCount_of_find {l : Log} {t : String} {i : Nat} {inc : Incarnation}
    (h : l.find t = .ok (i, inc)) : l.partitionCount t = some inc.partitions.size := by
  obtain ⟨_, ht, hi⟩ := find_eq_ok.1 h
  simp [partitionCount, current?, ht, hi]

theorem partitionCount_eq_some {l : Log} {t : String} {n : Nat} :
    l.partitionCount t = some n ↔ ∃ i inc, l.topics.find? t = some i ∧
      l.incarnations[i]? = some inc ∧ inc.partitions.size = n := by
  unfold partitionCount current?
  cases ht : l.topics.find? t with
  | none => simp
  | some i => cases hi : l.incarnations[i]? <;> simp [hi]

theorem Sound.partitionCount_eq_none {l : Log} (h : l.Sound) {t : String} :
    l.partitionCount t = none ↔ l.topics.find? t = none := by
  constructor
  · intro hn
    by_contra ht
    obtain ⟨i, hi⟩ := Option.ne_none_iff_exists'.1 ht
    obtain ⟨inc, hinc, -⟩ := h.topic t i hi
    rw [partitionCount_eq_some.2 ⟨i, inc, hi, hinc, rfl⟩] at hn
    cases hn
  · intro ht
    simp [partitionCount, current?, ht]

/-! ### One law for each operation that succeeds -/

theorem create_ok {l l' : Log} {t : String} {n : Nat} (h : l.create t n = .ok l') :
    l.closed = false ∧ Topic.validate t = .ok () ∧
      (l.partitionCount t = some n ∧ l' = l ∨
        ∃ hn : 0 < n, l.partitionCount t = none ∧ l' = { l with
          topics := l.topics.insert t l.incarnations.size
          incarnations := l.incarnations.push (.new t l.retention n hn) }) := by
  unfold create at h
  cases hc : l.closed
  · cases hv : Topic.validate t with
    | error e => simp [hc, hv] at h; cases h
    | ok u =>
      refine ⟨rfl, rfl, ?_⟩
      simp only [hc, hv] at h
      by_cases hn : 0 < n
      · cases hp : l.partitionCount t with
        | none =>
          simp [hn, hp] at h
          cases h
          exact .inr ⟨hn, rfl, rfl⟩
        | some m =>
          by_cases hm : m = n
          · simp [hn, hp, hm] at h
            cases h
            exact .inl ⟨by rw [hm], rfl⟩
          · simp [hn, hp, hm] at h; cases h
      · simp [hn] at h; cases h
  · simp [hc] at h; cases h

theorem delete_ok {l l' : Log} {t : String} (h : l.delete t = .ok l') :
    (∃ i inc, l.find t = .ok (i, inc)) ∧ l' = { l with topics := l.topics.erase t } := by
  unfold delete at h
  cases hf : l.find t with
  | error e => rw [hf] at h; cases h
  | ok e => rw [hf] at h; cases h; exact ⟨⟨e.1, e.2, rfl⟩, rfl⟩

theorem tail_ok {l : Log} {t : String} {p : Nat} {c : Cursor} (h : l.tail t p = .ok c) :
    ∃ i inc q, l.find t = .ok (i, inc) ∧ inc.partitions[p]? = some q ∧ c = ⟨i, p, q.next⟩ := by
  unfold tail at h
  cases hf : l.find t with
  | error e => rw [hf] at h; cases h
  | ok e =>
    rw [hf] at h
    cases hq : e.2.partitions[p]? with
    | none => simp [Except.bind, bind, hq] at h
    | some q =>
      simp [Except.bind, bind, hq] at h
      cases h
      exact ⟨e.1, e.2, q, rfl, hq, rfl⟩

/-- The record that is appended under a key, and the incarnation that takes it. -/
def record? (l : Log) (topic key : String) (value : List UInt8) : Option (Nat × Record) :=
  match l.find topic with
  | .ok (i, inc) =>
    let (ack, _) := inc.produce key value
    some (i, ⟨topic, ack.partition, ack.offset, key, value⟩)
  | .error _ => none

theorem produce_ok {l l' : Log} {t k : String} {v : List UInt8} {ack : Ack}
    (h : l.produce t k v = .ok (ack, l')) :
    ∃ i inc, l.find t = .ok (i, inc) ∧ ack = (inc.produce k v).1 ∧
      l' = { l with incarnations := l.incarnations.setIfInBounds i (inc.produce k v).2 } := by
  unfold produce at h
  cases hf : l.find t with
  | error e => rw [hf] at h; cases h
  | ok e => rw [hf] at h; cases h; exact ⟨e.1, e.2, rfl, rfl, rfl⟩

theorem closed_create {l l' : Log} {t : String} {n : Nat} (h : l.create t n = .ok l') :
    l'.closed = l.closed := by
  obtain ⟨-, -, ⟨-, rfl⟩ | ⟨_, -, rfl⟩⟩ := create_ok h <;> rfl

theorem closed_delete {l l' : Log} {t : String} (h : l.delete t = .ok l') :
    l'.closed = l.closed := by
  obtain ⟨-, rfl⟩ := delete_ok h
  rfl

theorem closed_produce {l l' : Log} {t k : String} {v : List UInt8} {ack : Ack}
    (h : l.produce t k v = .ok (ack, l')) : l'.closed = l.closed := by
  obtain ⟨i, inc, -, -, rfl⟩ := produce_ok h
  rfl

theorem record?_of_error {l : Log} {t k : String} {v : List UInt8} {e : Error}
    (h : l.produce t k v = .error e) : l.record? t k v = none := by
  unfold produce at h
  unfold record?
  cases hf : l.find t with
  | error e => rfl
  | ok x => rw [hf] at h; cases h

theorem delete_error {l : Log} {t : String} {e : Error} (h : l.delete t = .error e)
    (ho : l.closed = false) : l.partitionCount t = none := by
  unfold delete find at h
  rw [ho] at h
  cases hc : l.current? t with
  | none => simp [partitionCount, hc]
  | some x => simp only [hc] at h; cases h

theorem tail_error {l : Log} {t : String} {p n : Nat} {e : Error} (h : l.tail t p = .error e)
    (ho : l.closed = false) (hp : p < n) : l.partitionCount t ≠ some n := by
  intro hn
  obtain ⟨i, inc, ht, hi, rfl⟩ := partitionCount_eq_some.1 hn
  simp only [tail, find_eq_ok.2 ⟨ho, ht, hi⟩, bind, Except.bind,
    Array.getElem?_eq_getElem hp] at h
  cases h

/-! ### What every operation keeps -/

/-- `l'` comes from `l` by operations: nothing shrinks, and no incarnation is taken up again. -/
structure Grows (l l' : Log) : Prop where
  size : l.incarnations.size ≤ l'.incarnations.size
  incarnation : ∀ (i : Nat) inc, l.incarnations[i]? = some inc → ∃ inc' : Incarnation,
    l'.incarnations[i]? = some inc' ∧ inc'.topic = inc.topic ∧
      inc'.partitions.size = inc.partitions.size
  next : ∀ c p, l.partition? c = some p → ∃ p', l'.partition? c = some p' ∧ p.next ≤ p'.next
  retired : ∀ t i, l'.topics.find? t = some i → i < l.incarnations.size →
    l.topics.find? t = some i
  closed : l.closed = true → l'.closed = true

theorem Grows.refl (l : Log) : l.Grows l :=
  ⟨Nat.le_refl _, fun _ inc h => ⟨inc, h, rfl, rfl⟩, fun _ p h => ⟨p, h, Nat.le_refl _⟩,
    fun _ _ h _ => h, id⟩

theorem Grows.trans {l m n : Log} (h : l.Grows m) (h' : m.Grows n) : l.Grows n where
  size := Nat.le_trans h.size h'.size
  incarnation i inc hi := by
    obtain ⟨inc', hi', ht, hs⟩ := h.incarnation i inc hi
    obtain ⟨inc'', hi'', ht', hs'⟩ := h'.incarnation i inc' hi'
    exact ⟨inc'', hi'', ht'.trans ht, hs'.trans hs⟩
  next c p hp := by
    obtain ⟨p', hp', hle⟩ := h.next c p hp
    obtain ⟨p'', hp'', hle'⟩ := h'.next c p' hp'
    exact ⟨p'', hp'', Nat.le_trans hle hle'⟩
  retired t i ht hi := h.retired t i (h'.retired t i ht (Nat.lt_of_lt_of_le hi h.size)) hi
  closed hc := h'.closed (h.closed hc)

theorem partition?_eq_some {l : Log} {c : Cursor} {p : Partition} :
    l.partition? c = some p ↔
      ∃ inc : Incarnation, l.incarnations[c.incarnation]? = some inc ∧
        inc.partitions[c.partition]? = some p := by
  unfold partition?
  cases l.incarnations[c.incarnation]? <;> simp

/-- `c` stands in partition `p` of an incarnation of `t`, not behind its end. -/
structure At (l : Log) (t : String) (p : Nat) (c : Cursor) : Prop where
  topic : ∃ inc, l.incarnations[c.incarnation]? = some inc ∧ inc.topic = t
  partition : c.partition = p
  offset : ∃ q, l.partition? c = some q ∧ c.offset ≤ q.next

theorem At.grows {l l' : Log} {t : String} {p : Nat} {c : Cursor} (h : l.At t p c)
    (hg : l.Grows l') : l'.At t p c where
  topic := by
    obtain ⟨inc, hinc, ht⟩ := h.topic
    obtain ⟨inc', hinc', ht', -⟩ := hg.incarnation _ inc hinc
    exact ⟨inc', hinc', ht'.trans ht⟩
  partition := h.partition
  offset := by
    obtain ⟨q, hq, hle⟩ := h.offset
    obtain ⟨q', hq', hle'⟩ := hg.next c q hq
    exact ⟨q', hq', Nat.le_trans hle hle'⟩

theorem Sound.at_tail {l : Log} (h : l.Sound) {t : String} {p : Nat} {c : Cursor}
    (hl : l.tail t p = .ok c) : l.At t p c := by
  obtain ⟨i, inc, q, hf, hq, rfl⟩ := tail_ok hl
  obtain ⟨-, ht, hi⟩ := find_eq_ok.1 hf
  obtain ⟨inc', hi', htop⟩ := h.topic t i ht
  exact ⟨⟨inc', hi', htop⟩, rfl, q, partition?_eq_some.2 ⟨inc, hi, hq⟩, Nat.le_refl _⟩

theorem read_record {l : Log} {c : Cursor} {rec : Record} (h : l.read c = .record rec) :
    ∃ p, l.partition? c = some p ∧ ∃ hlt : c.offset < p.next, rec = p.record c.offset hlt := by
  unfold read at h
  split at h
  · cases h
  · rename_i p hp
    split at h
    · rename_i hlt
      cases h
      exact ⟨p, hp, hlt, rfl⟩
    · split at h <;> cases h

theorem grows_create {l l' : Log} {t : String} {n : Nat} (h : l.create t n = .ok l') :
    l.Grows l' := by
  obtain ⟨-, -, ⟨-, rfl⟩ | ⟨hn, -, rfl⟩⟩ := create_ok h
  · exact .refl _
  · have hold : ∀ (i : Nat) inc, l.incarnations[i]? = some inc →
        (l.incarnations.push (.new t l.retention n hn))[i]? = some inc := by
      intro i inc hi
      have := (Array.getElem?_eq_some_iff.1 hi).1
      rw [Array.getElem?_push, if_neg (by omega), hi]
    refine ⟨by simp, fun i inc hi => ⟨inc, hold i inc hi, rfl, rfl⟩, ?_, ?_, id⟩
    · intro c p hp
      obtain ⟨inc, hi, hq⟩ := partition?_eq_some.1 hp
      exact ⟨p, partition?_eq_some.2 ⟨inc, hold _ inc hi, hq⟩, Nat.le_refl _⟩
    · intro s i hs hi
      rw [Table.find?_insert] at hs
      split at hs
      · cases hs; omega
      · exact hs

theorem grows_delete {l l' : Log} {t : String} (h : l.delete t = .ok l') : l.Grows l' := by
  obtain ⟨-, rfl⟩ := delete_ok h
  refine ⟨Nat.le_refl _, fun _ inc h => ⟨inc, h, rfl, rfl⟩, fun _ p h => ⟨p, h, Nat.le_refl _⟩,
    ?_, id⟩
  intro s i hs _
  obtain ⟨-, hs⟩ := Table.find?_erase_eq_some.1 hs
  exact hs

theorem grows_close (l : Log) : l.Grows l.close :=
  ⟨Nat.le_refl _, fun _ inc h => ⟨inc, h, rfl, rfl⟩, fun _ p h => ⟨p, h, Nat.le_refl _⟩,
    fun _ _ h _ => by simp [close] at h, fun _ => rfl⟩

/-- `l'` is `l` with `rec` behind the last record of its partition in the incarnation `i`. -/
structure Appends (l l' : Log) (i : Nat) (rec : Record) (inc inc' : Incarnation) (p : Partition) :
    Prop where
  find : l.find rec.topic = .ok (i, inc)
  routed : rec.partition = partitionFor rec.key inc.partitions.size
  partition : inc.partitions[rec.partition]? = some p
  offset : rec.offset = p.next
  topic : inc'.topic = inc.topic
  partitions : inc'.partitions = inc.partitions.setIfInBounds rec.partition (p.append fun _ => rec)
  log : l' = { l with incarnations := l.incarnations.setIfInBounds i inc' }

theorem produce_appends {l l' : Log} {t k : String} {v : List UInt8} {ack : Ack}
    (h : l.produce t k v = .ok (ack, l')) (hs : l.Sound) :
    ∃ i rec inc inc' p, l.record? t k v = some (i, rec) ∧ l.Appends l' i rec inc inc' p ∧
      rec.topic = t ∧ rec.key = k ∧ rec.value = v ∧ ack = ⟨rec.partition, rec.offset⟩ := by
  obtain ⟨i, inc, hf, rfl, rfl⟩ := produce_ok h
  obtain ⟨-, ht, hi⟩ := find_eq_ok.1 hf
  obtain rfl := hs.topic_eq ht hi
  have hp := inc.partitionFor_lt k
  have hset (q : Partition) : inc.partitions.set (partitionFor k inc.partitions.size) q hp =
      inc.partitions.setIfInBounds (partitionFor k inc.partitions.size) q := by
    rw [Array.setIfInBounds, dif_pos hp]
  refine ⟨i, _, inc, (inc.produce k v).2, _, by rw [record?, hf], ⟨hf, rfl,
    Array.getElem?_eq_getElem hp, rfl, rfl, ?_, rfl⟩, rfl, rfl, rfl, rfl⟩
  exact hset _

section
variable {l l' : Log} {i : Nat} {rec : Record} {inc inc' : Incarnation} {p : Partition}

theorem Appends.incarnations (h : l.Appends l' i rec inc inc' p) (j : Nat) :
    l'.incarnations[j]? = if j = i then some inc' else l.incarnations[j]? := by
  obtain ⟨-, -, hi⟩ := find_eq_ok.1 h.find
  have hlt := (Array.getElem?_eq_some_iff.1 hi).1
  rw [h.log]
  by_cases hj : j = i
  · rw [if_pos hj, hj, Array.getElem?_setIfInBounds_self_of_lt hlt]
  · rw [if_neg hj, Array.getElem?_setIfInBounds_ne (Ne.symm hj)]

theorem Appends.partition_self (h : l.Appends l' i rec inc inc' p) {c : Cursor}
    (hi : c.incarnation = i) (hp : c.partition = rec.partition) :
    l.partition? c = some p ∧ l'.partition? c = some (p.append fun _ => rec) := by
  obtain ⟨-, -, hinc⟩ := find_eq_ok.1 h.find
  have hlt := (Array.getElem?_eq_some_iff.1 h.partition).1
  constructor
  · exact partition?_eq_some.2 ⟨inc, hi ▸ hinc, hp ▸ h.partition⟩
  · refine partition?_eq_some.2 ⟨inc', by rw [h.incarnations, if_pos hi], ?_⟩
    rw [h.partitions, hp, Array.getElem?_setIfInBounds_self_of_lt hlt]

theorem Appends.partition_of_ne (h : l.Appends l' i rec inc inc' p) {c : Cursor}
    (hc : ¬(c.incarnation = i ∧ c.partition = rec.partition)) :
    l'.partition? c = l.partition? c := by
  obtain ⟨-, -, hinc⟩ := find_eq_ok.1 h.find
  unfold partition?
  rw [h.incarnations]
  by_cases hi : c.incarnation = i
  · rw [if_pos hi, hi, hinc]
    have hp : rec.partition ≠ c.partition := fun hp => hc ⟨hi, hp.symm⟩
    simp [h.partitions, Array.getElem?_setIfInBounds_ne hp]
  · rw [if_neg hi]

theorem Appends.grows (h : l.Appends l' i rec inc inc' p) : l.Grows l' where
  size := by rw [h.log]; simp
  incarnation j x hj := by
    rw [h.incarnations]
    by_cases hji : j = i
    · obtain ⟨-, -, hinc⟩ := find_eq_ok.1 h.find
      rw [hji, hinc] at hj
      cases hj
      exact ⟨inc', if_pos hji, h.topic, by rw [h.partitions, Array.size_setIfInBounds]⟩
    · exact ⟨x, by rw [if_neg hji, hj], rfl, rfl⟩
  next c q hq := by
    by_cases hc : c.incarnation = i ∧ c.partition = rec.partition
    · obtain ⟨hold, hnew⟩ := h.partition_self hc.1 hc.2
      rw [hold] at hq
      cases hq
      exact ⟨_, hnew, Nat.le_succ _⟩
    · exact ⟨q, by rw [h.partition_of_ne hc, hq], Nat.le_refl _⟩
  retired t j ht _ := by rw [h.log] at ht; exact ht
  closed hc := by rw [h.log]; exact hc

end

/-! ### Soundness -/

theorem sound_new (retention : Nat) : (new retention).Sound where
  topic t i h := by simp [new] at h
  closed h := by simp [new] at h

theorem Sound.of_grows {l l' : Log} (h : l.Sound) (hg : l.Grows l')
    (ht : ∀ t i, l'.topics.find? t = some i → l.topics.find? t = some i)
    (hc : l'.closed = true → ∀ t, l'.topics.find? t = none) : l'.Sound where
  topic t i hi := by
    obtain ⟨inc, hinc, htop⟩ := h.topic t i (ht t i hi)
    obtain ⟨inc', hinc', htop', -⟩ := hg.incarnation i inc hinc
    exact ⟨inc', hinc', htop'.trans htop⟩
  closed := hc

theorem Sound.create {l l' : Log} (hs : l.Sound) {t : String} {n : Nat}
    (h : l.create t n = .ok l') : l'.Sound := by
  obtain ⟨hopen, -, ⟨-, rfl⟩ | ⟨hn, hnone, rfl⟩⟩ := create_ok h
  · exact hs
  · refine ⟨fun s i hi => ?_, fun hc => ?_⟩
    · rw [Table.find?_insert] at hi
      split at hi
      · rename_i hst
        cases hi
        exact ⟨_, Array.getElem?_push_size, hst⟩
      · obtain ⟨inc, hinc, htop⟩ := hs.topic s i hi
        obtain ⟨inc', hinc', htop', -⟩ := (grows_create h).incarnation i inc hinc
        exact ⟨inc', hinc', htop'.trans htop⟩
    · rw [show l.closed = true from hc] at hopen; cases hopen

theorem Sound.delete {l l' : Log} (hs : l.Sound) {t : String} (h : l.delete t = .ok l') :
    l'.Sound := by
  obtain ⟨-, rfl⟩ := delete_ok h
  refine hs.of_grows (grows_delete h) (fun s i hi => ?_) (fun hc s => ?_)
  · obtain ⟨-, hi⟩ := Table.find?_erase_eq_some.1 hi
    exact hi
  · rw [Table.find?_erase, hs.closed hc s, ite_self]

theorem Sound.appends {l l' : Log} {i : Nat} {rec : Record} {inc inc' : Incarnation}
    {p : Partition} (hs : l.Sound) (h : l.Appends l' i rec inc inc' p) : l'.Sound := by
  refine hs.of_grows h.grows (fun s j hj => ?_) (fun hc s => ?_)
  · rw [h.log] at hj; exact hj
  · rw [h.log] at hc ⊢; exact hs.closed hc s

theorem Sound.close {l : Log} (hs : l.Sound) : l.close.Sound :=
  hs.of_grows (grows_close l) (fun _ _ h => by simp [Log.close] at h) (fun _ _ => rfl)

/-! ### Which topics there are -/

theorem Grows.partitionCount {l l' : Log} (hg : l.Grows l') (hs : l.Sound) {t : String}
    (ht : l'.topics.find? t = l.topics.find? t) : l'.partitionCount t = l.partitionCount t := by
  cases hf : l.topics.find? t with
  | none => simp [Log.partitionCount, current?, ht, hf]
  | some i =>
    obtain ⟨inc, hinc, -⟩ := hs.topic t i hf
    obtain ⟨inc', hinc', -, hsize⟩ := hg.incarnation i inc hinc
    simp [Log.partitionCount, current?, ht, hf, hinc, hinc', hsize]

theorem Sound.partitionCount_create {l l' : Log} (hs : l.Sound) {t : String} {n : Nat}
    (h : l.create t n = .ok l') (u : String) :
    l'.partitionCount u = if u = t then some n else l.partitionCount u := by
  have hg := grows_create h
  obtain ⟨-, -, ⟨hn, rfl⟩ | ⟨hn, -, rfl⟩⟩ := create_ok h
  · split
    · rename_i hu; rw [hu, hn]
    · rfl
  · by_cases hu : u = t
    · subst hu
      rw [if_pos rfl, partitionCount_eq_some]
      exact ⟨l.incarnations.size, .new u l.retention n hn,
        by rw [Table.find?_insert, if_pos rfl], Array.getElem?_push_size, by simp [Incarnation.new]⟩
    · rw [if_neg hu]
      exact hg.partitionCount hs (by rw [Table.find?_insert, if_neg (Ne.symm hu)])

theorem Sound.partitionCount_delete {l l' : Log} (hs : l.Sound) {t : String}
    (h : l.delete t = .ok l') (u : String) :
    l'.partitionCount u = if u = t then none else l.partitionCount u := by
  have hg := grows_delete h
  obtain ⟨-, rfl⟩ := delete_ok h
  by_cases hu : u = t
  · rw [if_pos hu, hu]
    simp [partitionCount, current?, Table.find?_erase]
  · rw [if_neg hu]
    exact hg.partitionCount hs (by rw [Table.find?_erase, if_neg (Ne.symm hu)])

theorem Appends.partitionCount {l l' : Log} {i : Nat} {rec : Record} {inc inc' : Incarnation}
    {p : Partition} (h : l.Appends l' i rec inc inc' p) (hs : l.Sound) (t : String) :
    l'.partitionCount t = l.partitionCount t :=
  h.grows.partitionCount hs (by rw [h.log])

end EventRelay.Log
