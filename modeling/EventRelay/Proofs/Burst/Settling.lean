import EventRelay.Proofs.Burst.Turns
import EventRelay.Proofs.Burst.Window
import EventRelay.Proofs.Delivery.Mirror
import Mathlib.Algebra.Order.BigOperators.Group.List
import Mathlib.Algebra.Order.Group.Nat
/-!
After a batch the lanes read on until all is handed over. Main statements: `settles_of_filled`, the
executor comes to rest, and `enough`, its bound on the steps is never met.
-/
namespace EventRelay.Relay

/-- A poised relay `r` has become `q` by `n` steps of a call that published `items` and was answered
with `acks`; the lanes are yet to read. -/
structure Filled (retention : Nat) (acts : List Action) (r : Relay) (b : Nat)
    (items : List Publication) (acks : List Ack) (n : Nat) (q : Relay) : Prop where
  poised : Poised retention acts r b
  run : (r.submit b (.publish items) 0).2.after (turns r.nextCall n) = some q
  answered : q.calls.find? r.nextCall = some ⟨b, .finished (.published acks)⟩

section
variable {retention : Nat} {acts : List Action} {r q s : Relay} {b n : Nat}
  {items : List Publication} {acks : List Ack} {is : List Nat}

theorem Filled.valid (h : Filled retention acts r b items acks n q) :
    q.Valid retention ((new retention).history (untilTurn acts r b items n)) :=
  valid_of_after (h.poised.after h.run)

theorem Filled.registry (h : Filled retention acts r b items acks n q) :
    (q.broker b).registry = (r.broker b).registry :=
  (h.poised.later h.run).registry b (size_of_open h.poised.isOpen)

theorem Filled.exchange (h : Filled retention acts r b items acks n q) (g : Nat) :
    q.exchange g = r.exchange g := by
  have hspares := (h.poised.filling h.run).spares
  rw [Relay.exchange, Relay.exchange, Relay.registry, Relay.registry, hspares.registries,
    hspares.mailboxes]

theorem Filled.removals (h : Filled retention acts r b items acks n q) (j : Nat) :
    q.removals.find? j = none := by
  obtain hnone | ⟨e, he⟩ := (h.poised.filling h.run).removals
  · exact hnone j
  · rw [h.answered] at he
    cases he

theorem Filled.length_history (h : Filled retention acts r b items acks n q) :
    ((r.submit b (.publish items) 0).2.history (turns r.nextCall n)).length = items.length := by
  obtain ⟨hacks, hrecords⟩ := h.poised.published h.run h.answered
  have htotal := congrArg List.length hrecords
  rwa [List.length_map, List.length_zipWith, hacks, Nat.min_self] at htotal

theorem Filled.counter (h : Filled retention acts r b items acks n q) :
    (q.broker b).published = (r.broker b).published + UInt64.ofNat items.length := by
  rw [counter_of_after (h.poised.after h.run) b, counter_of_after h.poised.run b,
    history_of_private (h.poised.after h.run) (h.poised.alone_untilTurn items n),
    history_of_private h.poised.run h.poised.alone, h.poised.history, List.length_append,
    UInt64.ofNat_add, h.length_history]

theorem sorted_of_after (h : (new retention).after acts = some r) (g : Nat) :
    (r.exchange g).Sorted := by
  intro c c' id id' k hk hk'
  have hsupplied := supplied_of_after h
  have hsame := hsupplied.apart _ (hsupplied.attached g c id k hk) _
    (hsupplied.attached g c' id' k hk') rfl
  injection hsame with _ hc hid
  exact ⟨hc, hid⟩

theorem Filled.readOn (h : Filled retention acts r b items acks n q)
    (hs : q.after (readings is) = some s) :
    s.Valid retention ((new retention).history (untilTurn acts r b items n)) ∧
      q.ReadOn s b retention ((new retention).history (untilTurn acts r b items n))
        (q.observe handed (readings is)) ∧
      (q.observe handed (readings is)).length = is.length :=
  ReadOn.run h.valid (h.poised.reading h.run) hs

theorem Filled.serves (h : Filled retention acts r b items acks n q)
    (hs : q.after (readings is) = some s) :
    (r.exchange (r.broker b).registry).Serves
      (eventsFor ((q.observe handed (readings is)).map fun e => (e.channel, e.payload)))
      (s.exchange (r.broker b).registry) := by
  have hexchange := (h.readOn hs).2.1.exchange
  rw [h.registry, h.exchange] at hexchange
  rw [hexchange]
  exact Exchange.serves_series (sorted_of_after h.poised.run _)
    (placed_of_after h.poised.run _) _

theorem Filled.rests (h : Filled retention acts r b items acks n q)
    (hs : q.after (readings is) = some s) {j : Job} (hj : ∀ i, j ≠ .lane i) :
    s.readiness j = .later [] := by
  obtain ⟨-, hon, -⟩ := h.readOn hs
  have hfilling := h.poised.filling h.run
  cases j with
  | call j =>
    rw [readiness, hon.calls]
    by_cases hid : j = r.nextCall
    · rw [hid, h.answered]
      rfl
    · rw [hfilling.others j hid]
      cases hc : r.calls.find? j with
      | none => rfl
      | some c =>
        obtain ⟨answer, hanswer⟩ := h.poised.finished hc
        rw [Option.elim_some, callReadiness, hanswer]
  | removal j => rw [readiness, hon.removals, h.removals j, Option.elim_none]
  | lane i => exact absurd rfl (hj i)
  | feed i =>
    refine readiness_feed (h.poised.idle (.feed i)) (hon.feeds.trans hfilling.spares.feeds) ?_
    intro k hk
    exact (h.serves hs).elsewhere k fun c id hattached => hk (h.poised.unfed c id k hattached)

theorem Filled.lane_of_now (h : Filled retention acts r b items acks n q)
    (hs : q.after (readings is) = some s) {j : Job} {sig : Signal}
    (hnow : s.readiness j = .now sig) : ∃ i, j = .lane i := by
  by_contra hnot
  rw [h.rests hs fun i heq => hnot ⟨i, heq⟩] at hnow
  cases hnow

theorem Filled.length_le (h : Filled retention acts r b items acks n q)
    (hs : q.after (readings is) = some s) : is.length ≤ items.length := by
  obtain ⟨-, hon, hlength⟩ := h.readOn hs
  have hordered : (q.observe handed (readings is)).Pairwise Handover.Before := by
    have hrun : (new retention).after (untilTurn acts r b items n ++ readings is) = some s := by
      rw [after_append, h.poised.after h.run]
      exact hs
    have hall := (handedTo_of_after hrun).ordered
    rw [observe_append handed (h.poised.after h.run)] at hall
    exact (List.pairwise_append.1 hall).2.1
  have hunread := hon.length_le hordered
    ((r.submit b (.publish items) 0).2.history (turns r.nextCall n)) fun i l hi rec hrec => by
      rw [h.poised.history, recordsAt_append, ((h.poised.filling h.run).lanes i l hi).2,
        List.drop_left] at hrec
      exact (mem_recordsAt.1 hrec).1
  rwa [← hlength, ← h.length_history]

theorem Filled.reads (h : Filled retention acts r b items acks n q)
    (hs : q.after (readings is) = some s) {i : Nat} {sig : Signal}
    (hnow : s.readiness (.lane i) = .now sig) :
    sig = .proceed ∧ ∃ s', s.step (.lane i) .proceed = some s' ∧
      q.after (readings (is ++ [i])) = some s' := by
  obtain ⟨hv, hon, -⟩ := h.readOn hs
  have hreading := hon.reading
  cases hi : s.lanes.find? i with
  | none => rw [readiness, hi] at hnow; cases hnow
  | some l =>
    have hread := Reader.read_of_smooth (hreading.smooth i l hi) s.log
    rw [hreading.readiness hv hi] at hnow
    obtain ⟨rec, hrec⟩ | hpending := hreading.read_or hv hi
    · simp only [hrec] at hnow hread
      cases hnow
      obtain ⟨s', hstep⟩ : ∃ s', s.step (.lane i) .proceed = some s' := by
        simp only [step, stepLane, stepLaneOver, hi, hreading.stage i l hi, hread, react,
          Option.bind_eq_bind, Option.bind_some]
        exact ⟨_, rfl⟩
      refine ⟨rfl, s', hstep, ?_⟩
      rw [readings, List.map_append]
      exact after_concat.2 ⟨_, hs, hstep⟩
    · simp only [hpending] at hnow
      cases hnow

theorem Filled.keeps (h : Filled retention acts r b items acks n q)
    (hs : q.after (readings is) = some s) {i : Nat} {s' : Relay}
    (hs' : q.after (readings (is ++ [i])) = some s') (hstep : s.step (.lane i) .proceed = some s')
    {k : Job} {sig : Signal} (hk : k ≠ .lane i) (hnow : s.readiness k = .now sig) :
    s'.readiness k = .now sig := by
  obtain ⟨k, rfl⟩ := h.lane_of_now hs hnow
  obtain ⟨hv, hon, -⟩ := h.readOn hs
  obtain ⟨hv', hon', -⟩ := h.readOn hs'
  obtain ⟨l, rec, hi, hrec, rfl⟩ := hon.reading.step hv hstep
  have hki : i ≠ k := fun heq => hk (by rw [heq])
  cases hm : s.lanes.find? k with
  | none => rw [readiness, hm] at hnow; cases hnow
  | some m =>
    rw [hon.reading.readiness_eq hv hm] at hnow
    rw [hon'.reading.readiness_eq hv' (Table.find?_insert_eq_some.2 (.inr ⟨hki, hm⟩))]
    exact hnow

end

theorem le_total {xs : List Nat} {x : Nat} (hx : x ∈ xs) : x ≤ xs.foldl (· + ·) 0 := by
  rw [← List.sum_eq_foldl]
  exact List.le_sum_of_mem hx

theorem le_workload {r : Relay} {b id : Nat} (hb : b < r.brokers.size) {items : List Publication}
    (hc : r.calls.find? id = some ⟨b, .queued 0 (.publish items)⟩) :
    (items.length + 1) * ((r.broker b).config.workers + 4 + 4) ≤ r.workload := by
  have hcall := Table.mem_values.2 ⟨id, hc⟩
  have hbroker : r.broker b ∈ r.brokers.toList := by
    rw [broker, Array.getElem?_eq_getElem hb]
    exact Array.getElem_mem_toList hb
  unfold workload
  refine Nat.le_trans ?_ (Nat.le_add_right _ 4)
  refine Nat.le_trans ?_ (Nat.le_add_right _ (3 * _))
  refine Nat.le_trans ?_ (Nat.le_add_right _ _)
  refine Nat.le_trans ?_ (Nat.le_add_right _ _)
  refine Nat.le_trans ?_ (Nat.le_add_right _ _)
  refine Nat.mul_le_mul ?_ (Nat.add_le_add_right ?_ 4)
  · exact le_total (List.mem_map.2 ⟨_, hcall, rfl⟩)
  · exact le_total (List.mem_map.2 ⟨_, hbroker, rfl⟩)

theorem enough (r : Relay) {b : Nat} (hb : b < r.brokers.size) (items : List Publication) :
    (Stage.queued 0 (.publish items)).toGo (r.broker b).config.workers + (items.length + 1) ≤
      (r.submit b (.publish items) 0).2.stepBound := by
  have hload := le_workload (r := (r.submit b (.publish items) 0).2) hb
    (Table.find?_insert_eq_some.2 (.inl ⟨rfl, rfl⟩))
  change (items.length + 1) * ((r.broker b).config.workers + 4 + 4) ≤ _ at hload
  have hsmall : (Stage.queued 0 (.publish items)).toGo (r.broker b).config.workers +
      (items.length + 1) ≤ (items.length + 1) * ((r.broker b).config.workers + 4 + 4) := by
    rw [Stage.toGo]
    simp only [Nat.add_mul, Nat.mul_add]
    omega
  have hpos : 0 < (r.submit b (.publish items) 0).2.workload := by omega
  calc (Stage.queued 0 (.publish items)).toGo (r.broker b).config.workers + (items.length + 1)
      ≤ (items.length + 1) * ((r.broker b).config.workers + 4 + 4) := hsmall
    _ ≤ (r.submit b (.publish items) 0).2.workload := hload
    _ ≤ (r.submit b (.publish items) 0).2.stepBound :=
        Nat.le_mul_of_pos_left _ (Nat.mul_pos hpos hpos)

end EventRelay.Relay

namespace EventRelay.Timeline
open Relay

section
variable {retention : Nat} {acts : List Action} {r q : Relay} {b n : Nat}
  {items : List Publication} {acks : List Ack} {t : Timeline} {is : List Nat}

theorem tick_of_filled (h : Filled retention acts r b items acks n q) (ht : t.Aligned)
    (hs : q.after (readings is) = some t.relay) (hready : t.ready ≠ []) :
    ∃ u i, t.tick = some u ∧ u.Aligned ∧ q.after (readings (is ++ [i])) = some u.relay := by
  obtain ⟨⟨j, sig⟩, rest, hlist⟩ := List.exists_cons_of_ne_nil hready
  have hnow := (ht j sig).1 (by rw [hlist]; exact List.mem_cons_self)
  obtain ⟨i, rfl⟩ := h.lane_of_now hs hnow
  obtain ⟨rfl, s, hstep, hs'⟩ := h.reads hs hnow
  obtain ⟨u, hu, rfl, haligned, -⟩ := ht.tick hlist hstep fun k sig hk => h.keeps hs hs' hstep hk
  exact ⟨u, i, hu, haligned, hs'⟩

theorem reads_of_filled (h : Filled retention acts r b items acks n q) (ht : t.Aligned)
    (hq : t.relay = q) (m : Nat) : ∃ is, q.after (readings is) = some (t.run m).relay ∧
      (t.run m).Aligned ∧ ((t.run m).ready = [] ∨ is.length = m) := by
  induction m with
  | zero => exact ⟨[], congrArg some hq.symm, ht, .inr rfl⟩
  | succ m ih =>
    obtain ⟨is, hs, haligned, hend⟩ := ih
    rw [run_add m 1]
    by_cases hready : (t.run m).ready = []
    · rw [run_of_ready hready]
      exact ⟨is, hs, haligned, .inl hready⟩
    · obtain ⟨u, i, hu, hu', hs'⟩ := tick_of_filled h haligned hs hready
      rw [run_of_tick hu]
      refine ⟨is ++ [i], hs', hu', .inr ?_⟩
      rw [List.length_append, hend.resolve_left hready, List.length_singleton]

theorem settles_of_filled (h : Filled retention acts r b items acks n q) (ht : t.Aligned)
    (hq : t.relay = q) {m : Nat} (hm : items.length < m) :
    ∃ is, q.after (readings is) = some (t.run m).relay ∧ (t.run m).ready = [] ∧
      (t.run m).relay.Idle := by
  obtain ⟨is, hs, haligned, hend⟩ := reads_of_filled h ht hq m
  have hle := h.length_le hs
  have hready : (t.run m).ready = [] := hend.resolve_right (by omega)
  refine ⟨is, hs, hready, fun j => ?_⟩
  by_cases hj : ∀ i, j ≠ .lane i
  · exact h.rests hs hj
  · obtain ⟨i, hi⟩ := not_forall.1 hj
    obtain rfl := not_not.1 hi
    obtain ⟨hv, hon, -⟩ := h.readOn hs
    cases hl : (t.run m).relay.lanes.find? i with
    | none => rw [readiness, hl, Option.elim_none]
    | some l =>
      have hnever := haligned.rests hready (.lane i) .proceed
      rw [hon.reading.readiness_eq hv hl] at hnever ⊢
      split at hnever
      · exact absurd rfl hnever
      · rename_i hge
        rw [if_neg hge]

end
end EventRelay.Timeline
