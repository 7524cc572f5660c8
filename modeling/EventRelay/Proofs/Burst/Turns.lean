import EventRelay.Proofs.Burst.Filling
import EventRelay.Proofs.Relay.Executor
/-!
The executor runs a call that publishes to its end before anything else. Main statement:
`finish`.
-/
namespace EventRelay.Relay

section
variable {r s : Relay} {retention : Nat} {hist : List (Nat × Record)} {b id : Nat}

theorem readiness_feed {i : Nat} (h : r.readiness (.feed i) = .later []) (hf : s.feeds = r.feeds)
    (hm : ∀ k, ¬ r.Unfed k → s.mailboxes.get? k = r.mailboxes.get? k) :
    s.readiness (.feed i) = .later [] := by
  rw [readiness] at h ⊢
  rw [hf]
  cases hi : r.feeds.find? i with
  | none => rfl
  | some f =>
    rw [hi, Option.elim_some] at h
    rw [Option.elim_some, ← h]
    unfold feedReadiness
    cases hsub : f.subscription with
    | none => rfl
    | some sub =>
      cases hres : f.result with
      | some result => rfl
      | none =>
        have hbox := hm sub.mailbox fun hk => hk i f sub hi hres hsub rfl
        have htake : (s.take sub).1 = (r.take sub).1 := by
          simp only [take, Mailboxes.take, hbox]
          cases r.mailboxes.get? sub.mailbox <;> rfl
        simp only [htake]

theorem Reading.readiness_eq (hv : r.Valid retention hist) (h : r.Reading b) {i : Nat} {l : Lane}
    (hi : r.lanes.find? i = some l) : r.readiness (.lane i) =
      if l.reader.cursor.offset <
        (recordsAt hist l.reader.cursor.incarnation l.partition).length
      then .now .proceed else .later [] := by
  have hplace := (hv.lanes i l hi).place
  obtain ⟨p, hp, -⟩ := hplace.offset
  have hlength := (hv.log.holds _ p hp).length
  rw [hplace.partition] at hlength
  rw [h.readiness hv hi, hlength]
  unfold Log.read
  simp only [hp]
  by_cases hlt : l.reader.cursor.offset < p.next
  · rw [dif_pos hlt, if_pos hlt]
  · rw [dif_neg hlt, if_neg hlt]
    cases r.log.isCurrent l.reader.cursor.incarnation <;> rfl

theorem readiness_call {items : List Publication} {acks : List Ack} {stage : Stage}
    (hc : r.calls.find? id = some ⟨b, stage⟩) (hcarries : stage.Carries items acks)
    (hsmooth : stage.Smooth) (hun : ∀ answer, stage ≠ .finished answer) :
    r.readiness (.call id) = .now .proceed ∧ ∃ s, r.act (.step (.call id) .proceed) = some s := by
  have hnow {w : Hindrance} {others : List (Nat × Signal)} (hw : w.delay = 0) :
      w.readiness others = .now .proceed := if_pos hw
  rw [act_call hc, readiness, hc, Option.elim_some]
  cases hcarries with
  | queued n h =>
    cases hsmooth
    exact ⟨rfl, _, rfl⟩
  | delayed n h => cases hsmooth
  | creating topic w h => exact ⟨hnow hsmooth, _, rfl⟩
  | opening topic readers w h => exact ⟨hnow hsmooth.1, _, rfl⟩
  | producing w h => exact ⟨hnow hsmooth, _, rfl⟩
  | published | failed => exact absurd rfl (hun _)

end

section
variable {retention : Nat} {acts : List Action} {r q s : Relay} {b n : Nat}
  {items : List Publication}

theorem Poised.reading (h : Poised retention acts r b)
    (hq : (r.submit b (.publish items) 0).2.after (turns r.nextCall n) = some q) :
    q.Reading b := by
  have hrun := h.after hq
  have hp := h.alone_untilTurn items n
  have hfilling := h.filling hq
  have hlanes := lanes_of_private hrun hp
  refine ⟨hfilling.isOpen, hlanes, fun i l hi => (hfilling.lanes i l hi).1, hfilling.smooth.lanes,
    fun i l hi => ?_⟩
  have hlane := (valid_of_after hrun).lanes i l hi
  obtain ⟨inc, hinc, htopic⟩ := hlane.place.topic
  have hknown := hlane.topic
  rw [hlanes i l hi] at hknown
  exact (rooted_of_private hrun hp hknown).current
    (ownsLog_of_after hrun hp fun _ => hfilling.isOpen).logOpen _ inc hinc htopic

theorem Filling.lane_of_now {id : Nat} {hist : List (Nat × Record)} (h : r.Filling q id b hist)
    (hr : Poised retention acts r b) (hnone : ∀ j, q.removals.find? j = none) {j : Job}
    {sig : Signal} (hcall : j ≠ .call id) (hnow : q.readiness j = .now sig) : ∃ i, j = .lane i := by
  cases j with
  | call j =>
    have hj : j ≠ id := fun heq => hcall (congrArg Job.call heq)
    rw [readiness, h.others j hj] at hnow
    cases hc : r.calls.find? j with
    | none => rw [hc] at hnow; cases hnow
    | some c =>
      obtain ⟨answer, hanswer⟩ := hr.finished hc
      rw [hc, Option.elim_some, callReadiness, hanswer] at hnow
      cases hnow
  | removal j => rw [readiness, hnone j] at hnow; cases hnow
  | lane i => exact ⟨i, rfl⟩
  | feed i =>
    rw [readiness_feed (hr.idle (.feed i)) h.spares.feeds fun k _ => by rw [h.spares.mailboxes]]
      at hnow
    cases hnow

theorem Poised.keeps (h : Poised retention acts r b)
    (hq : (r.submit b (.publish items) 0).2.after (turns r.nextCall n) = some q)
    (hnone : ∀ j, q.removals.find? j = none)
    (hs : q.act (.step (.call r.nextCall) .proceed) = some s) {j : Job} {sig : Signal}
    (hj : j ≠ .call r.nextCall) (hnow : q.readiness j = .now sig) : s.readiness j = .now sig := by
  have hqs : (r.submit b (.publish items) 0).2.after (turns r.nextCall (n + 1)) = some s := by
    rw [turns_succ]
    exact after_concat.2 ⟨q, hq, hs⟩
  obtain ⟨i, rfl⟩ := (h.filling hq).lane_of_now h hnone hj hnow
  have hv := valid_of_after (h.after hq)
  cases hi : q.lanes.find? i with
  | none => rw [readiness, hi] at hnow; cases hnow
  | some l =>
    have hreading := h.reading hq
    have hreading' := h.reading hqs
    have hlater := hv.change hs
    obtain ⟨m, hm, hlm⟩ | hended | hclosed := hlater.lane_or hv hi
    · -- The lane stands where it stood, and its partition has not become shorter.
      have hold := ((h.filling hq).lanes i l hi).2
      have hnew := ((h.filling hqs).lanes i m hm).2
      rw [hlm.incarnation, hlm.partition, ← hold] at hnew
      rw [hreading.readiness_eq hv hi] at hnow
      rw [hreading'.readiness_eq (hv.next hs) hm, hlm.incarnation, hlm.partition, hnew,
        recordsAt_append, List.length_append, ← hnow]
      split at hnow
      · rename_i hlt
        rw [if_pos hlt, if_pos (Nat.lt_add_right _ hlt)]
      · cases hnow
    · cases hended
    · rw [hreading.broker i l hi, hreading.isOpen] at hclosed
      cases hclosed

end
end EventRelay.Relay

namespace EventRelay.Timeline
open Relay

section
variable {retention : Nat} {acts : List Action} {r : Relay} {b n : Nat} {items : List Publication}
  {t : Timeline} {stage : Stage}

/-- The call has its answer or its turn. -/
def Goes (t : Timeline) (id : Nat) (stage : Stage) : Prop :=
  (∃ answer, stage = .finished answer) ∨ ∃ rest, t.ready = (.call id, .proceed) :: rest

theorem starts (h : Poised retention acts t.relay b) (hready : t.ready = [])
    (items : List Publication) :
    (t.change (t.relay.submit b (.publish items) 0).2).Aligned ∧
      (t.change (t.relay.submit b (.publish items) 0).2).Goes t.relay.nextCall
        (.queued 0 (.publish items)) := by
  have haligned := aligned_change hready (t.relay.submit b (.publish items) 0).2
  have hq : (t.relay.submit b (.publish items) 0).2.after (turns t.relay.nextCall 0) =
      some (t.relay.submit b (.publish items) 0).2 := rfl
  have hfilling := h.filling hq
  have hreading := h.reading hq
  have hv := valid_of_after (h.after hq)
  have hc : (t.relay.submit b (.publish items) 0).2.calls.find? t.relay.nextCall =
      some ⟨b, .queued 0 (.publish items)⟩ := by rw [submit, Table.find?_insert, if_pos rfl]
  have hcall := (readiness_call hc (.queued 0 rfl) rfl fun answer h => by cases h).1
  have honly : ∀ e ∈ (t.change (t.relay.submit b (.publish items) 0).2).ready,
      e = (.call t.relay.nextCall, .proceed) := by
    intro e he
    have hnow := (haligned e.1 e.2).1 he
    change (t.relay.submit b (.publish items) 0).2.readiness e.1 = .now e.2 at hnow
    obtain ⟨j, sig⟩ := e
    by_cases hj : j = .call t.relay.nextCall
    · subst hj
      rw [hcall] at hnow
      cases hnow
      rfl
    · obtain ⟨i, rfl⟩ := hfilling.lane_of_now h h.removals hj hnow
      cases hi : (t.relay.submit b (.publish items) 0).2.lanes.find? i with
      | none => rw [readiness, hi] at hnow; cases hnow
      | some l =>
        have hend := (hfilling.lanes i l hi).2
        rw [hreading.readiness_eq hv hi, h.history, recordsAt_append, hend] at hnow
        rw [if_neg (by simp [turns, observe])] at hnow
        cases hnow
  refine ⟨haligned, .inr ?_⟩
  have hmem := (haligned (.call t.relay.nextCall) .proceed).2 hcall
  cases hlist : (t.change (t.relay.submit b (.publish items) 0).2).ready with
  | nil => rw [hlist] at hmem; cases hmem
  | cons e rest =>
    rw [honly e (by rw [hlist]; exact List.mem_cons_self)]
    exact ⟨rest, rfl⟩

theorem tick_of_turn (h : Poised retention acts r b) (ht : t.Aligned)
    (hq : (r.submit b (.publish items) 0).2.after (turns r.nextCall n) = some t.relay)
    (hc : t.relay.calls.find? r.nextCall = some ⟨b, stage⟩)
    (hun : ∀ answer, stage ≠ .finished answer) {rest : List (Job × Signal)}
    (hready : t.ready = (.call r.nextCall, .proceed) :: rest) :
    ∃ u stage', t.tick = some u ∧ u.Aligned ∧
      (r.submit b (.publish items) 0).2.after (turns r.nextCall (n + 1)) = some u.relay ∧
      u.relay.calls.find? r.nextCall = some ⟨b, stage'⟩ ∧ u.Goes r.nextCall stage' ∧
      stage'.toGo (r.broker b).config.workers < stage.toGo (r.broker b).config.workers := by
  have hv := valid_of_after (h.after hq)
  have hfilling := h.filling hq
  obtain ⟨ups, acks, hcarrying⟩ := h.carrying hq
  have hcarries := (hcarrying.stage b stage hc).2
  have hsmooth := hfilling.smooth.calls _ _ hc
  obtain ⟨-, s, hs⟩ := readiness_call hc hcarries hsmooth hun
  have hnone : ∀ j, t.relay.removals.find? j = none := by
    refine hfilling.removals.resolve_right fun hfailed => ?_
    obtain ⟨e, he⟩ := hfailed
    rw [hc] at he
    cases he
    exact hun _ rfl
  obtain ⟨u, hu, rfl, haligned, hnext⟩ := ht.tick hready hs fun k sig hk =>
    h.keeps hq hnone hs hk
  have hqs : (r.submit b (.publish items) 0).2.after (turns r.nextCall (n + 1)) =
      some u.relay := by
    rw [turns_succ]
    exact after_concat.2 ⟨_, hq, hs⟩
  obtain ⟨stage', hc'⟩ := (h.filling hqs).call
  obtain ⟨ups', acks', hcarrying'⟩ := h.carrying hqs
  refine ⟨u, stage', hu, haligned, hqs, hc', ?_, ?_⟩
  · by_cases hend : ∃ answer, stage' = .finished answer
    · exact .inl hend
    · exact .inr (hnext _ (readiness_call hc' (hcarrying'.stage b stage' hc').2
        ((h.filling hqs).smooth.calls _ _ hc') fun answer heq => hend ⟨answer, heq⟩).1)
  · have hconfig : (t.relay.broker b).config = (r.broker b).config :=
      ((valid_of_after h.run).run (show r.after (.submit b (.publish items) 0 ::
        turns r.nextCall n) = some t.relay from hq)).2.config b (size_of_open h.isOpen)
    have hcall : t.relay.stepCall r.nextCall .proceed = some u.relay := hs
    obtain ⟨b', stage₀, hc₀, hstep⟩ := stepCall_step hv.workers_pos hcall
    rw [hc] at hc₀
    cases hc₀
    rw [← hconfig]
    exact hstep.toGo hv hc hcarries hsmooth hc'

theorem finish (h : Poised retention acts r b) (m : Nat) (ht : t.Aligned)
    (hq : (r.submit b (.publish items) 0).2.after (turns r.nextCall n) = some t.relay)
    (hc : t.relay.calls.find? r.nextCall = some ⟨b, stage⟩) (hgoes : t.Goes r.nextCall stage)
    (hm : stage.toGo (r.broker b).config.workers ≤ m) :
    ∃ k n' answer, k ≤ m ∧ (t.run k).Aligned ∧
      (r.submit b (.publish items) 0).2.after (turns r.nextCall n') = some (t.run k).relay ∧
      (t.run k).relay.calls.find? r.nextCall = some ⟨b, .finished answer⟩ := by
  induction m generalizing t n stage with
  | zero =>
    obtain ⟨answer, rfl⟩ | ⟨rest, hready⟩ := hgoes
    · exact ⟨0, n, answer, Nat.le_refl _, ht, hq, hc⟩
    · by_cases hend : ∃ answer, stage = .finished answer
      · obtain ⟨answer, rfl⟩ := hend
        exact ⟨0, n, answer, Nat.le_refl _, ht, hq, hc⟩
      · obtain ⟨u, stage', -, -, -, -, -, hlt⟩ :=
          tick_of_turn h ht hq hc (fun answer heq => hend ⟨answer, heq⟩) hready
        omega
  | succ m ih =>
    by_cases hend : ∃ answer, stage = .finished answer
    · obtain ⟨answer, rfl⟩ := hend
      exact ⟨0, n, answer, Nat.zero_le _, ht, hq, hc⟩
    · obtain ⟨rest, hready⟩ := hgoes.resolve_left hend
      obtain ⟨u, stage', hu, hu', hqs, hc', hgoes', hlt⟩ :=
        tick_of_turn h ht hq hc (fun answer heq => hend ⟨answer, heq⟩) hready
      obtain ⟨k, n', answer, hk, hall⟩ := ih hu' hqs hc' hgoes' (by omega)
      refine ⟨k + 1, n', answer, Nat.succ_le_succ hk, ?_⟩
      rw [run_of_tick hu]
      exact hall

end
end EventRelay.Timeline
