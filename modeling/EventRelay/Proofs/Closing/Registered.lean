import EventRelay.Proofs.Admission.Enrollment
/-!
The lanes that a broker has registered. Main statement: `crewed_of_after`, they are lanes of that
broker, and no other lane ever gets their numbers.
-/
namespace EventRelay.Relay

/-- The lanes that broker `b` started and has not let go. -/
def registered (r : Relay) (b : Nat) : List Nat := (r.broker b).crews.values.flatten

theorem mem_registered {r : Relay} {b i : Nat} :
    i ∈ r.registered b ↔ ∃ t ids, (r.broker b).crews.find? t = some ids ∧ i ∈ ids := by
  simp only [registered, List.mem_flatten, Table.mem_values]
  constructor
  · intro h
    obtain ⟨ids, ⟨t, ht⟩, hi⟩ := h
    exact ⟨t, ids, ht, hi⟩
  · intro h
    obtain ⟨t, ids, ht, hi⟩ := h
    exact ⟨ids, ⟨t, ht⟩, hi⟩

structure Crewed (r : Relay) : Prop where
  number : ∀ b i, i ∈ r.registered b → i < r.nextLane
  owner : ∀ b i l, i ∈ r.registered b → r.lanes.find? i = some l → l.broker = b

section
variable {r s : Relay} {retention : Nat} {hist : List (Nat × Record)}

theorem registered_setBroker {b : Nat} {v : Broker}
    (hv : ∀ t ids, v.crews.find? t = some ids → (r.broker b).crews.find? t = some ids)
    (b' i : Nat) (hi : i ∈ (r.setBroker b v).registered b') : i ∈ r.registered b' := by
  by_cases hb : b < r.brokers.size
  · rw [mem_registered, r.broker_setBroker hb] at hi
    obtain ⟨t, ids, ht, hi⟩ := hi
    split at ht
    · rename_i heq
      subst heq
      exact mem_registered.2 ⟨t, ids, hv t ids ht, hi⟩
    · exact mem_registered.2 ⟨t, ids, ht, hi⟩
  · rwa [r.setBroker_of_le (Nat.le_of_not_lt hb)] at hi

theorem Change.registered_or {a : Action} (h : r.Valid retention hist) (hc : Change r a s) :
    (∀ b i, i ∈ s.registered b → i ∈ r.registered b) ∨
    ∃ id b topic purpose opened last stage, r.Admits a s id b topic purpose opened last stage := by
  cases hc with
  | @opensBroker config registry hf =>
    refine .inl fun b i hi => ?_
    rw [registered, broker_push] at hi
    split at hi
    · cases hi
    · exact hi
  | @calls id b stage _ sig hc hs =>
    cases hs with
    | closes hb ho => exact .inl (registered_setBroker fun t ids ht => by simp at ht)
    | @produces _ _ _ _ _ log _ _ hσ hl hs =>
      exact .inl (registered_setBroker (r := { r with log })
        (v := { r.broker b with published := (r.broker b).published + 1 }) fun _ _ ht => ht)
    | enrolls script hσ hl hn hk hf hs =>
      exact .inr ⟨_, _, _, _, _, _, _, rfl, ⟨_, hc⟩, hl, hk, hf,
        h.length_readers hc hn ⟨_, script⟩, hs, h.enrolls hc hk ⟨_, script⟩ _ _ _⟩
    | _ => exact .inl fun _ _ hi => hi
  | lanes hi hs => cases hs <;> exact .inl fun _ _ hi => hi
  | _ => exact .inl fun _ _ hi => hi

theorem Enrolls.registered {id b : Nat} {topic : String} {readers : List Reader} {stage : Stage}
    (h : r.Enrolls s id b topic readers stage) {b' i : Nat} (hi : i ∈ s.registered b') :
    i ∈ r.registered b' ∨ b' = b ∧ r.nextLane ≤ i ∧ i < s.nextLane := by
  rw [mem_registered, h.broker b'] at hi
  obtain ⟨t, ids, ht, hi⟩ := hi
  split at ht
  · rename_i hb
    subst hb
    obtain ⟨-, rfl⟩ | ⟨-, ht⟩ := Table.find?_insert_eq_some.1 ht
    · rw [List.mem_range'_1] at hi
      exact .inr ⟨rfl, hi.1, by rw [h.nextLane]; exact hi.2⟩
    · exact .inl (mem_registered.2 ⟨t, ids, ht, hi⟩)
  · exact .inl (mem_registered.2 ⟨t, ids, ht, hi⟩)

theorem Crewed.next (hv : r.Valid retention hist) (h : r.Crewed) {a : Action}
    (hc : Change r a s) : s.Crewed := by
  have hlater := hv.later hc
  have hold : ∀ b i, i ∈ r.registered b →
      i < s.nextLane ∧ ∀ l, s.lanes.find? i = some l → l.broker = b := by
    intro b i hi
    refine ⟨Nat.lt_of_lt_of_le (h.number b i hi) hlater.nextLane, fun l hl => ?_⟩
    obtain ⟨k, hk, hkl⟩ := hlater.lane i l (h.number b i hi) hl
    exact hkl.broker.trans (h.owner b i k hi hk)
  obtain hrest | ⟨id, b, topic, purpose, opened, last, stage, hadmits⟩ := hc.registered_or hv
  · exact ⟨fun b i hi => (hold b i (hrest b i hi)).1,
      fun b i l hi => (hold b i (hrest b i hi)).2 l⟩
  · constructor
    · intro b' i hi
      obtain hi | ⟨-, -, hlt⟩ := hadmits.effect.registered hi
      · exact (hold b' i hi).1
      · exact hlt
    · intro b' i l hi hl
      obtain hi | ⟨rfl, hge, -⟩ := hadmits.effect.registered hi
      · exact (hold b' i hi).2 l hl
      · obtain ⟨j, rd, -, -, rfl⟩ | hr := hadmits.effect.lane_cases hl
        · rfl
        · exact absurd (hv.lanes i l hr).number (Nat.not_lt.2 hge)

end

theorem crewed_of_after {retention : Nat} {acts : List Action} {r : Relay}
    (h : (new retention).after acts = some r) : r.Crewed := by
  induction h using after_induct with
  | start =>
    have hnone : ∀ b i, i ∉ (new retention).registered b := by
      intro b i hi
      cases hi
    exact ⟨fun b i hi => absurd hi (hnone b i), fun b i l hi => absurd hi (hnone b i)⟩
  | next acts q a s hq ha ih =>
    have hv := valid_of_after hq
    exact ih.next hv (hv.change ha)

theorem stats_lanes {r : Relay} (h : r.Crewed) {b : Nat}
    (hnone : ∀ i l, r.lanes.find? i = some l → l.broker ≠ b) : (r.stats b).lanes = 0 := by
  have hempty : r.runningLanes b = [] := by
    refine List.filter_eq_nil_iff.2 fun i hi hl => ?_
    obtain ⟨l, hl⟩ := Option.isSome_iff_exists.1 hl
    exact hnone i l hl (h.owner b i l hi hl)
  exact congrArg List.length hempty

end EventRelay.Relay
