import EventRelay.Proofs.Relay.Changes
/-!
What the enrollment of a topic does: one slot is taken and one lane is started for each reader.
Main statement: `enrolls_spec`.
-/
namespace EventRelay.Relay

theorem getElem?_concat_cases {α : Type} {xs : List α} {x y : α} {j : Nat}
    (h : (xs ++ [x])[j]? = some y) : xs[j]? = some y ∨ j = xs.length ∧ y = x := by
  rw [List.getElem?_append] at h
  split at h
  · exact .inl h
  · rename_i hge
    rw [List.getElem?_singleton] at h
    split at h
    · exact .inr ⟨by omega, (Option.some.inj h).symm⟩
    · cases h

theorem addLanes_spec (b : Nat) (topic : String) (p : Nat) (readers : List Reader) (r : Relay) :
    ∃ lanes, addLanes b topic p readers r = (List.range' r.nextLane readers.length,
        { r with lanes, nextLane := r.nextLane + readers.length }) ∧
      (∀ (j : Nat) rd, readers[j]? = some rd → lanes.find? (r.nextLane + j) =
        some { broker := b, topic, partition := p + j, reader := rd }) ∧
      ∀ i, i < r.nextLane ∨ r.nextLane + readers.length ≤ i →
        lanes.find? i = r.lanes.find? i := by
  induction readers generalizing p r with
  | nil => exact ⟨r.lanes, rfl, by simp, fun _ _ => rfl⟩
  | cons reader readers ih =>
    obtain ⟨lanes, heq, hnew, hold⟩ := ih (p + 1) { r with
      lanes := r.lanes.insert r.nextLane { broker := b, topic, partition := p, reader }
      nextLane := r.nextLane + 1 }
    refine ⟨lanes, ?_, fun j rd hj => ?_, fun i hi => ?_⟩
    · rw [addLanes, heq]
      simp [List.range'_succ, Nat.add_assoc, Nat.add_comm 1]
    · cases j with
      | zero =>
        cases hj
        rw [Nat.add_zero, Nat.add_zero, hold _ (.inl (Nat.lt_succ_self _)), Table.find?_insert,
          if_pos rfl]
      | succ j =>
        have hlane := hnew j rd hj
        simpa only [Nat.add_assoc, Nat.add_comm 1] using hlane
    · rw [List.length_cons] at hi
      have hne : r.nextLane ≠ i := by omega
      rw [hold i (by simp only; omega), Table.find?_insert, if_neg hne]

/-- `s` comes from `r` by the enrollment of a topic, with a lane for each reader. The call `id` made
it and goes on to a stage. -/
structure Enrolls (r s : Relay) (id b : Nat) (topic : String) (readers : List Reader)
    (stage : Stage) : Prop where
  log : s.log = r.log
  size : s.brokers.size = r.brokers.size
  broker : ∀ b', s.broker b' = if b' = b then { r.broker b with
    topics := (r.broker b).topics ++ [topic]
    crews := (r.broker b).crews.insert topic (List.range' r.nextLane readers.length) }
    else r.broker b'
  nextLane : s.nextLane = r.nextLane + readers.length
  fresh : ∀ (j : Nat) rd, readers[j]? = some rd →
    s.lanes.find? (r.nextLane + j) = some { broker := b, topic, partition := j, reader := rd }
  old : ∀ i, i < r.nextLane ∨ r.nextLane + readers.length ≤ i →
    s.lanes.find? i = r.lanes.find? i
  calls : s.calls = r.calls.insert id ⟨b, stage⟩
  removals : s.removals = r.removals
  registries : s.registries = r.registries
  mailboxes : s.mailboxes = r.mailboxes
  nextCall : s.nextCall = r.nextCall
  nextRemoval : s.nextRemoval = r.nextRemoval

theorem enrolls_spec {r : Relay} {b : Nat} {topic : String} (hb : b < r.brokers.size)
    (hc : (r.broker b).crews.find? topic = none) (readers : List Reader) (σ σ' : Script)
    (id : Nat) (s : Stage) :
    r.Enrolls (((({ r with script := σ } : Relay).setBroker b
      { r.broker b with topics := (r.broker b).topics ++ [topic] }).startLanes b topic
        readers).goes id b σ' s) id b topic readers s := by
  let q := ({ r with script := σ } : Relay).setBroker b
    { r.broker b with topics := (r.broker b).topics ++ [topic] }
  have hq : q.broker b = { r.broker b with topics := (r.broker b).topics ++ [topic] } := by
    rw [broker_setBroker _ (by exact hb), if_pos rfl]
  -- No lane runs for the topic, so none is told to stop.
  have hnone : dismiss (((q.broker b).crews.find? topic).getD []) q = q := by
    rw [hq, hc]; rfl
  obtain ⟨lanes, heq, hnew, hold⟩ := addLanes_spec b topic 0 readers q
  have hstart : q.startLanes b topic readers =
      ({ q with lanes, nextLane := q.nextLane + readers.length } : Relay).setBroker b
        { q.broker b with
          crews := (q.broker b).crews.insert topic (List.range' q.nextLane readers.length) } := by
    rw [startLanes, hnone, heq]
    rfl
  change r.Enrolls ((q.startLanes b topic readers).goes id b σ' s) id b topic readers s
  rw [hstart]
  have hsize : b < q.brokers.size := by simpa [q] using hb
  refine ⟨rfl, by simp [goes, q], fun b' => ?_, rfl, fun j rd hj => ?_, hold, rfl, rfl, rfl, rfl,
    rfl, rfl⟩
  · have hset := broker_setBroker
      ({ q with lanes, nextLane := q.nextLane + readers.length } : Relay) hsize { q.broker b with
        crews := (q.broker b).crews.insert topic (List.range' q.nextLane readers.length) } b'
    refine hset.trans ?_
    by_cases h : b' = b
    · rw [if_pos h, if_pos h, hq]
      rfl
    · rw [if_neg h, if_neg h]
      exact (broker_setBroker _ (by exact hb) _ b').trans (if_neg h)
  · have hlane := hnew j rd hj
    rw [Nat.zero_add] at hlane
    exact hlane

end EventRelay.Relay
