import EventRelay.Proofs.Burst.Smooth
import EventRelay.Proofs.Delivery.Attachment
import EventRelay.Proofs.Delivery.Order
import EventRelay.Proofs.Delivery.Once
import EventRelay.Proofs.Registry.Series
/-!
Lanes that read on while nothing else happens. Main statements: `ReadOn.run`, what they come to step
by step, and `ReadOn.window`, at the end of its partition a lane has handed over the last of what it
had not read, as many as the log keeps.
-/
namespace EventRelay

def lastOf {α : Type} (n : Nat) (xs : List α) : List α := xs.drop (xs.length - n)

theorem lastOf_map {α β : Type} (f : α → β) (n : Nat) (xs : List α) :
    lastOf n (xs.map f) = (lastOf n xs).map f := by
  rw [lastOf, lastOf, List.length_map, List.map_drop]

theorem lastOf_drop {α : Type} (n k : Nat) (xs : List α) :
    lastOf n (xs.drop k) = xs.drop (max k (xs.length - n)) := by
  have hsum : k + (xs.length - k - n) = max k (xs.length - n) := by omega
  rw [lastOf, List.length_drop, List.drop_drop, hsum]

theorem drop_take_succ {α : Type} {xs : List α} {k m o : Nat} {x : α} (hx : xs[o]? = some x)
    (hk : k ≤ o) (hm : m = o ∨ m ≤ k ∧ o = k) :
    (xs.take (o + 1)).drop k = (xs.take m).drop k ++ [x] := by
  have ho := (List.getElem?_eq_some_iff.1 hx).1
  have hsame : (xs.take o).drop k = (xs.take m).drop k := by
    obtain rfl | ⟨hmk, rfl⟩ := hm
    · rfl
    · rw [List.drop_eq_nil_of_le (List.length_take_le ..),
        List.drop_eq_nil_of_le (Nat.le_trans (List.length_take_le ..) hmk)]
  have hlength : k ≤ (xs.take o).length := by
    rw [List.length_take]
    omega
  rw [List.take_add_one, hx, Option.toList_some, List.drop_append_of_le_length hlength, hsame]

theorem Reader.read_of_smooth {rd : Reader} (h : rd.Smooth) (log : Log) :
    rd.read log = match log.read rd.cursor with
      | .record r => .record r ⟨rd.cursor.past r, rd.script.tail⟩
      | .pending => .pending
      | .ended => .ended := by
  unfold read
  split
  · rename_i reason script hs
    have hfirst := h (.failure reason) (by rw [hs]; exact List.mem_cons_self)
    cases hfirst
  · rename_i script hs
    have hfirst := h .ended (by rw [hs]; exact List.mem_cons_self)
    cases hfirst
  · rfl

namespace Relay

/-- All lanes are those of broker `b`, which is open; they read, each the incarnation that its topic
stands for, and meet nothing. -/
structure Reading (r : Relay) (b : Nat) : Prop where
  isOpen : (r.broker b).closed = false
  broker : ∀ i l, r.lanes.find? i = some l → l.broker = b
  stage : ∀ i l, r.lanes.find? i = some l → l.stage = .reading
  smooth : ∀ i l, r.lanes.find? i = some l → l.reader.Smooth
  current : ∀ i l, r.lanes.find? i = some l →
    r.log.topics.find? l.topic = some l.reader.cursor.incarnation

def readings (is : List Nat) : List Action := is.map fun i => .step (.lane i) .proceed

section
variable {r s q : Relay} {retention : Nat} {hist : List (Nat × Record)} {b : Nat}

theorem exchange_dispatch (r : Relay) (g : Nat) (c : Channel) (payload : List UInt8) :
    (r.dispatch g c payload).2.exchange g = ((r.exchange g).step (.dispatch c payload)).2 := by
  let v := (r.registry g).dispatch r.mailboxes c payload
  change Exchange.mk ((r.setRegistry g v.2.1).registry g) v.2.2 = ⟨v.2.1, v.2.2⟩
  by_cases hg : g < r.registries.size
  · rw [registry_setRegistry_of_lt hg, if_pos rfl]
  · have hle := Nat.le_of_not_lt hg
    have hnew : r.registry g = .new 1 := by
      rw [registry, Array.getElem?_eq_none hle, Option.getD_none]
    have hsame : v.2.1 = r.registry g := by
      simp only [v, Registry.dispatch, hnew, Registry.members_new]
      rfl
    rw [setRegistry_of_le hle, hsame]

theorem Reading.read_or (hv : r.Valid retention hist) (h : r.Reading b) {i : Nat} {l : Lane}
    (hi : r.lanes.find? i = some l) :
    (∃ rec, r.log.read l.reader.cursor = .record rec) ∨ r.log.read l.reader.cursor = .pending := by
  have hplace := (hv.lanes i l hi).place
  obtain ⟨p, hp, -⟩ := hplace.offset
  obtain ⟨inc, hinc, htopic⟩ := hplace.topic
  have hcurrent : r.log.isCurrent l.reader.cursor.incarnation = true := by
    rw [Log.isCurrent, hinc, Option.any_some, htopic, decide_eq_true_eq]
    exact h.current i l hi
  unfold Log.read
  simp only [hp, hcurrent, if_true]
  split
  · exact .inl ⟨_, rfl⟩
  · exact .inr rfl

theorem Reading.readiness (hv : r.Valid retention hist) (h : r.Reading b) {i : Nat} {l : Lane}
    (hi : r.lanes.find? i = some l) : r.readiness (.lane i) =
      match r.log.read l.reader.cursor with
      | .record _ => .now .proceed
      | _ => .later [] := by
  have hgoes : r.isCancelled l = false := by
    rw [hv.isCancelled hi, h.broker i l hi, h.isOpen]
  simp only [Relay.readiness, hi, Option.elim_some, laneReadiness, hgoes, Bool.false_eq_true,
    if_false, h.stage i l hi, Reader.read_of_smooth (h.smooth i l hi)]
  obtain ⟨rec, hrec⟩ | hpending := h.read_or hv hi
  · simp only [hrec]
  · simp only [hpending]

theorem Reading.step (hv : r.Valid retention hist) (h : r.Reading b) {i : Nat}
    (ha : r.act (.step (.lane i) .proceed) = some s) : ∃ l rec, r.lanes.find? i = some l ∧
      r.log.read l.reader.cursor = .record rec ∧
      s = { (r.dispatch (r.broker b).registry ⟨l.topic, rec.key⟩ rec.value).2 with
        lanes := r.lanes.insert i
          { l with reader := ⟨l.reader.cursor.past rec, l.reader.script.tail⟩ } } := by
  obtain ⟨l, hi, hstep⟩ := stepLane_change ha
  have hread := Reader.read_of_smooth (h.smooth i l hi) r.log
  obtain ⟨rec, hrec⟩ | hpending := h.read_or hv hi
  · simp only [hrec] at hread
    refine ⟨l, rec, hi, hrec, ?_⟩
    cases hstep with
    | hands hs hr =>
      rw [hread] at hr
      cases hr
      rw [h.broker i l hi]
    | fails hs hr | ends hs hr => rw [hread] at hr; cases hr
    | resumes hs => rw [h.stage i l hi] at hs; cases hs
  · simp only [hpending] at hread
    cases hstep with
    | hands hs hr | fails hs hr | ends hs hr => rw [hread] at hr; cases hr
    | resumes hs => rw [h.stage i l hi] at hs; cases hs

theorem Reading.handed (h : r.Reading b) {i : Nat} {l : Lane} (hi : r.lanes.find? i = some l)
    {rec : Record} (hr : r.log.read l.reader.cursor = .record rec) :
    r.handed (.step (.lane i) .proceed) = [⟨i, b, (r.broker b).registry, ⟨l.topic, rec.key⟩,
      rec.value, { l.reader.cursor with offset := rec.offset }⟩] := by
  simp only [Relay.handed, hi, h.stage i l hi, Reader.read_of_smooth (h.smooth i l hi), hr,
    h.broker i l hi]

theorem Reading.next (h : r.Reading b) {i : Nat} {l : Lane} (hi : r.lanes.find? i = some l)
    (rec : Record) (g : Nat) (c : Channel) (payload : List UInt8) :
    Reading { (r.dispatch g c payload).2 with
      lanes := r.lanes.insert i
        { l with reader := ⟨l.reader.cursor.past rec, l.reader.script.tail⟩ } } b := by
  refine ⟨h.isOpen, fun j m hm => ?_, fun j m hm => ?_, fun j m hm => ?_, fun j m hm => ?_⟩ <;>
    obtain ⟨rfl, rfl⟩ | ⟨-, hm⟩ := Table.find?_insert_eq_some.1 hm
  · exact h.broker i l hi
  · exact h.broker j m hm
  · exact h.stage i l hi
  · exact h.stage j m hm
  · exact fun x hx => h.smooth i l hi x (List.mem_of_mem_tail hx)
  · exact h.smooth j m hm
  · exact h.current i l hi
  · exact h.current j m hm

end

end Relay

/-! ### A run of reading lanes -/

/-- The lane `l` has become `m` and handed over `es`: of the records `rs` of its partition, in
order, those that lie before its place and in the window of the last `w`. -/
structure Lane.Passed (l m : Lane) (w : Nat) (rs : List Record) (es : List Handover) : Prop where
  later : l.Later m
  records : es.map Handover.record =
    ((rs.take m.reader.cursor.offset).drop (max l.reader.cursor.offset (rs.length - w))).map
      fun rec => (l.reader.cursor.incarnation, rec)
  begun : m.reader.cursor.offset = l.reader.cursor.offset ∨
    max l.reader.cursor.offset (rs.length - w) < m.reader.cursor.offset

theorem Lane.Passed.refl (l : Lane) (w : Nat) (rs : List Record) : l.Passed l w rs [] where
  later := .refl l
  records := by
    rw [List.drop_eq_nil_of_le (Nat.le_trans (List.length_take_le ..) (Nat.le_max_left ..))]
    rfl
  begun := .inl rfl

theorem Lane.Passed.next {l m : Lane} {w : Nat} {rs : List Record} {es : List Handover}
    (h : l.Passed m w rs es) {rec : Record} (ho : rec.offset =
      max m.reader.cursor.offset (rs.length - w)) (hrec : rs[rec.offset]? = some rec)
    {e : Handover} (he : e.record = (l.reader.cursor.incarnation, rec))
    (script : List ReadHindrance) :
    l.Passed { m with reader := ⟨m.reader.cursor.past rec, script⟩ } w rs (es ++ [e]) where
  later := h.later.trans ⟨rfl, rfl, rfl, rfl, rfl, by simp only [Cursor.past]; omega⟩
  records := by
    have hle := h.later.offset
    have hbegun := h.begun
    have hnext := drop_take_succ (k := max l.reader.cursor.offset (rs.length - w))
      (m := m.reader.cursor.offset) hrec (by omega) (by omega)
    rw [List.map_append, h.records, List.map_singleton, he, Cursor.past, hnext, List.map_append,
      List.map_singleton]
  begun := .inr (by
    have hle := h.later.offset
    simp only [Cursor.past]
    omega)

namespace Relay

/-- The lanes of `q` have handed over `es` until `s`, to the registry of broker `b`. -/
structure ReadOn (q s : Relay) (b retention : Nat) (hist : List (Nat × Record))
    (es : List Handover) : Prop where
  reading : s.Reading b
  log : s.log = q.log
  brokers : s.brokers = q.brokers
  calls : s.calls = q.calls
  removals : s.removals = q.removals
  feeds : s.feeds = q.feeds
  exchange : s.exchange (q.broker b).registry = History.after Exchange.step
    (q.exchange (q.broker b).registry)
    (Exchange.series (es.map fun e => (e.channel, e.payload)))
  stay : ∀ i l, q.lanes.find? i = some l → ∃ m, s.lanes.find? i = some m
  lane : ∀ i m, s.lanes.find? i = some m → ∃ l, q.lanes.find? i = some l ∧
    l.Passed m (windowSize retention) (recordsAt hist l.reader.cursor.incarnation l.partition)
      (es.filter fun e => e.lane = i)
  target : ∀ e ∈ es, e.broker = b ∧ e.registry = (q.broker b).registry
  source : ∀ e ∈ es, ∃ l, q.lanes.find? e.lane = some l ∧ l.topic = e.channel.topic ∧
    l.partition = e.place.partition

section
variable {q r s : Relay} {retention : Nat} {hist : List (Nat × Record)} {b : Nat}
  {es : List Handover}

theorem ReadOn.refl (h : q.Reading b) : q.ReadOn q b retention hist [] where
  reading := h
  log := rfl
  brokers := rfl
  calls := rfl
  removals := rfl
  feeds := rfl
  exchange := rfl
  stay i l hi := ⟨l, hi⟩
  lane i l hi := ⟨l, hi, .refl l _ _⟩
  target e he := by cases he
  source e he := by cases he

theorem Valid.found (hv : r.Valid retention hist) {i : Nat} {l : Lane} {rec : Record}
    (hi : r.lanes.find? i = some l) (hr : r.log.read l.reader.cursor = .record rec) :
    let rs := recordsAt hist l.reader.cursor.incarnation l.partition
    rec.offset = max l.reader.cursor.offset (rs.length - windowSize retention) ∧
      rs[rec.offset]? = some rec ∧ rec.topic = l.topic ∧ rec.partition = l.partition := by
  have hplace := (hv.lanes i l hi).place
  obtain ⟨htopic, -⟩ := hv.read hi hr
  obtain ⟨p, hp, -, ho, -, hmem⟩ := hv.log.read hr
  have hlength := (hv.log.holds _ p hp).length
  rw [hplace.partition] at hmem hlength
  exact ⟨by rw [hlength, ho], hmem, htopic, (mem_recordsAt.1 (List.mem_of_getElem? hmem)).2⟩

theorem ReadOn.next (hv : r.Valid retention hist) (h : q.ReadOn r b retention hist es) {i : Nat}
    (ha : r.act (.step (.lane i) .proceed) = some s) :
    q.ReadOn s b retention hist (es ++ r.handed (.step (.lane i) .proceed)) ∧
      (r.handed (.step (.lane i) .proceed)).length = 1 := by
  obtain ⟨l, rec, hi, hrec, rfl⟩ := h.reading.step hv ha
  obtain ⟨ho, hmem, htopic, hpartition⟩ := hv.found hi hrec
  have hplace := (hv.lanes i l hi).place
  have hbroker : r.broker b = q.broker b := by rw [broker, broker, h.brokers]
  obtain ⟨k, hk, hpassed⟩ := h.lane i l hi
  rw [h.reading.handed hi hrec]
  refine ⟨⟨h.reading.next hi rec _ _ _, h.log, h.brokers, h.calls, h.removals, h.feeds, ?_,
    fun j m hj => ?_, fun j m hj => ?_, fun e he => ?_, fun e he => ?_⟩, rfl⟩
  · have hlast := r.exchange_dispatch (r.broker b).registry ⟨l.topic, rec.key⟩ rec.value
    rw [hbroker] at hlast
    rw [List.map_append, Exchange.series, List.map_append, History.after_append,
      ← Exchange.series, ← h.exchange, hbroker]
    exact hlast
  · obtain ⟨m', hm'⟩ := h.stay j m hj
    by_cases hij : i = j
    · exact ⟨_, by rw [hij]; exact Table.find?_insert_eq_some.2 (.inl ⟨rfl, rfl⟩)⟩
    · exact ⟨m', Table.find?_insert_eq_some.2 (.inr ⟨hij, hm'⟩)⟩
  · rw [List.filter_append]
    obtain ⟨rfl, rfl⟩ | ⟨hij, hj⟩ := Table.find?_insert_eq_some.1 hj
    · refine ⟨k, hk, ?_⟩
      have hinc := hpassed.later.incarnation
      have hpart := hpassed.later.partition
      rw [hinc, hpart] at ho hmem
      rw [List.filter_cons, if_pos (decide_eq_true rfl), List.filter_nil]
      refine hpassed.next ho hmem ?_ _
      simp only [Handover.record, hplace.partition, ← hpartition, ← htopic, hinc]
    · obtain ⟨k', hk', hpassed'⟩ := h.lane j m hj
      refine ⟨k', hk', ?_⟩
      rw [List.filter_cons, if_neg (by rw [decide_eq_true_eq]; exact hij), List.filter_nil,
        List.append_nil]
      exact hpassed'
  · obtain he | he := List.mem_append.1 he
    · exact h.target e he
    · rw [List.mem_singleton.1 he]
      exact ⟨rfl, by rw [hbroker]⟩
  · obtain he | he := List.mem_append.1 he
    · exact h.source e he
    · rw [List.mem_singleton.1 he]
      refine ⟨k, hk, hpassed.later.topic.symm, ?_⟩
      rw [← hpassed.later.partition]
      exact hplace.partition.symm

theorem ReadOn.run (hv : q.Valid retention hist) (h : q.Reading b) {is : List Nat}
    (hr : q.after (readings is) = some s) :
    s.Valid retention hist ∧ q.ReadOn s b retention hist (q.observe handed (readings is)) ∧
      (q.observe handed (readings is)).length = is.length := by
  induction is using List.reverseRecOn generalizing s with
  | nil =>
    cases hr
    exact ⟨hv, .refl h, rfl⟩
  | append_singleton is i ih =>
    rw [readings, List.map_append, List.map_singleton, ← readings] at hr ⊢
    obtain ⟨u, hu, ha⟩ := after_concat.1 hr
    obtain ⟨hvu, hon, hlength⟩ := ih hu
    obtain ⟨hnext, hone⟩ := hon.next hvu ha
    have hvs := hvu.next ha
    rw [show u.appended (.step (.lane i) .proceed) = [] from rfl, List.append_nil] at hvs
    rw [observe_concat handed hu, List.length_append, List.length_append, hlength, hone]
    exact ⟨hvs, hnext, rfl⟩

theorem ReadOn.window (hv : s.Valid retention hist) (h : q.ReadOn s b retention hist es)
    (hidle : s.Idle) {i : Nat} {l : Lane} (hi : q.lanes.find? i = some l) :
    (es.filter fun e => e.lane = i).map Handover.record =
      (lastOf (windowSize retention)
        ((recordsAt hist l.reader.cursor.incarnation l.partition).drop
          l.reader.cursor.offset)).map fun rec => (l.reader.cursor.incarnation, rec) := by
  obtain ⟨m, hm⟩ := h.stay i l hi
  obtain ⟨k, hk, hpassed⟩ := h.lane i m hm
  rw [hi, Option.some.injEq] at hk
  subst hk
  have hopen : (s.broker m.broker).closed = false := by
    rw [h.reading.broker i m hm]
    exact h.reading.isOpen
  obtain ⟨p, hp, hend, -⟩ := hidle.waits hv hm hopen
  have hlength := (hv.log.holds _ p hp).length
  rw [hpassed.later.incarnation, (hv.lanes i m hm).place.partition, hpassed.later.partition]
    at hlength
  rw [hpassed.records, lastOf_drop, List.take_of_length_le (by rw [hlength]; exact hend)]

theorem ReadOn.filter_place (hv : q.Valid retention hist) (hq : q.Reading b)
    (h : q.ReadOn s b retention hist es) {i : Nat} {l : Lane} (hi : q.lanes.find? i = some l) :
    (es.filter fun e => e.channel.topic = l.topic ∧ e.place.partition = l.partition) =
      es.filter fun e => e.lane = i := by
  refine List.filter_congr fun e he => ?_
  rw [decide_eq_decide]
  obtain ⟨k, hk, ht, hp⟩ := h.source e he
  constructor
  · intro hall
    have hb := (hq.broker _ k hk).trans (hq.broker i l hi).symm
    exact hv.apart _ i k l hk hi hb (ht.trans hall.1) (hp.trans hall.2)
  · intro heq
    rw [heq, hi, Option.some.injEq] at hk
    rw [hk, ← ht, ← hp]
    exact ⟨rfl, rfl⟩

theorem ReadOn.length_le (h : q.ReadOn s b retention hist es) (ho : es.Pairwise Handover.Before)
    (unread : List (Nat × Record))
    (hu : ∀ i l, q.lanes.find? i = some l →
      ∀ rec ∈ (recordsAt hist l.reader.cursor.incarnation l.partition).drop
        l.reader.cursor.offset, (l.reader.cursor.incarnation, rec) ∈ unread) :
    es.length ≤ unread.length := by
  have hnodup : (es.map Handover.record).Nodup := by
    refine List.pairwise_map.2 (ho.imp_of_mem fun {e e'} he he' hbefore heq => ?_)
    simp only [Handover.record, Prod.mk.injEq, Record.mk.injEq] at heq
    have hb := (h.target e he).1.trans (h.target e' he').1.symm
    exact absurd heq.2.2.2.1 (Nat.ne_of_lt (hbefore hb heq.2.1 heq.2.2.1).2)
  have hsub : es.map Handover.record ⊆ unread := by
    intro x hx
    obtain ⟨e, he, rfl⟩ := List.mem_map.1 hx
    obtain ⟨l, hl, -⟩ := h.source e he
    obtain ⟨m, hm⟩ := h.stay _ l hl
    obtain ⟨k, hk, hpassed⟩ := h.lane _ m hm
    rw [hl, Option.some.injEq] at hk
    subst hk
    have hin : e.record ∈ (es.filter fun e' => e'.lane = e.lane).map Handover.record :=
      List.mem_map.2 ⟨e, List.mem_filter.2 ⟨he, decide_eq_true rfl⟩, rfl⟩
    rw [hpassed.records, List.drop_take] at hin
    obtain ⟨rec, hrec, heq⟩ := List.mem_map.1 hin
    rw [← heq]
    exact hu _ l hl rec
      (List.drop_subset_drop_left _ (Nat.le_max_left _ _) (List.mem_of_mem_take hrec))
  have hle := (List.subperm_of_subset hnodup hsub).length_le
  rwa [List.length_map] at hle

end

end Relay
end EventRelay
