import EventRelay.Proofs.Admission.Enrollment
/-!
The lanes of a known topic. Main statement: `manned`, as long as the broker is open and no read
says that a partition is over, one lane runs for each partition.
-/
namespace EventRelay.Relay

/-- The lane, if any, whose read in this action says that its partition is over. -/
def ended (r : Relay) : Action → List Lane
  | .step (.lane i) .proceed =>
    match r.lanes.find? i with
    | some l =>
      match l.stage, l.reader.read r.log with
      | .reading, .ended => [l]
      | _, _ => []
    | none => []
  | _ => []

/-- Lane `i` reads partition `p` of a topic for broker `b`, and nothing has told it to stop. -/
def Runs (r : Relay) (b : Nat) (topic : String) (p i : Nat) : Prop :=
  ∃ l, r.lanes.find? i = some l ∧ l.broker = b ∧ l.topic = topic ∧ l.partition = p ∧
    r.isCancelled l = false

section
variable {r s : Relay} {retention : Nat} {hist : List (Nat × Record)}

theorem Valid.isCancelled (h : r.Valid retention hist) {i : Nat} {l : Lane}
    (hi : r.lanes.find? i = some l) : r.isCancelled l = (r.broker l.broker).closed := by
  rw [Relay.isCancelled, (h.lanes i l hi).kept, Bool.false_or]

theorem Change.lane_or {a : Action} (h : r.Valid retention hist) (hc : Change r a s) {i : Nat}
    {l : Lane} (hi : r.lanes.find? i = some l) :
    (∃ m, s.lanes.find? i = some m ∧ l.Later m) ∨ l ∈ r.ended a ∨
      (r.broker l.broker).closed = true := by
  have hlater := h.later hc
  have hstay : ∀ m, s.lanes.find? i = some m → ∃ m, s.lanes.find? i = some m ∧ l.Later m := by
    intro m hm
    obtain ⟨k, hk, hkm⟩ := hlater.lane i m (h.lanes i l hi).number hm
    rw [hi] at hk
    cases hk
    exact ⟨m, hm, hkm⟩
  cases hc with
  | @calls id b stage _ sig hc hs =>
    cases hs with
    | @enrolls _ _ _ _ c stage script σ σ' hσ hl hn hk hf hready =>
      have hold := (h.enrolls hc hk ⟨c, script⟩ σ σ' stage).old i (.inl (h.lanes i l hi).number)
      exact .inl (hstay l (hold.trans hi))
    | _ => exact .inl (hstay l hi)
  | @lanes j m _ sig hj hs =>
    by_cases hij : j = i
    · subst hij
      rw [hi] at hj
      cases hj
      cases hs with
      | ends hs hr => exact .inr (.inl (by simp [ended, hi, hs, hr]))
      | stops hc => exact .inr (.inr (by rw [← h.isCancelled hi]; exact hc))
      | hands | fails | resumes =>
        exact .inl (hstay _ (by rw [Table.find?_insert, if_pos rfl]))
    · refine .inl (hstay l ?_)
      cases hs <;>
        first
        | (rw [Table.find?_insert, if_neg hij]; exact hi)
        | (rw [Table.find?_erase, if_neg hij]; exact hi)
  | _ => exact .inl (hstay l hi)

theorem Valid.lane_stays (h : r.Valid retention hist) {acts : List Action}
    (hr : r.after acts = some s) {i : Nat} {l : Lane} (hi : r.lanes.find? i = some l)
    (ho : (s.broker l.broker).closed = false)
    (hend : ∀ m ∈ r.observe ended acts, ¬(m.broker = l.broker ∧ m.topic = l.topic)) :
    ∃ m, s.lanes.find? i = some m ∧ l.Later m := by
  induction hr using after_induct with
  | start => exact ⟨l, hi, .refl l⟩
  | next acts q a s hq ha ih =>
    obtain ⟨hv, hlater⟩ := h.run hq
    have hlater' := hv.later (hv.change ha)
    have hsize := Nat.lt_of_lt_of_le (h.lanes i l hi).broker hlater.size
    have hopen := hlater'.open_before hsize ho
    rw [observe_concat ended hq] at hend
    obtain ⟨m, hm, hlm⟩ := ih hopen fun k hk => hend k (List.mem_append_left _ hk)
    obtain ⟨n, hn, hmn⟩ | hover | hclosed := (hv.change ha).lane_or hv hm
    · exact ⟨n, hn, hlm.trans hmn⟩
    · exact absurd ⟨hlm.broker, hlm.topic⟩ (hend m (List.mem_append_right _ hover))
    · rw [hlm.broker, hopen] at hclosed
      cases hclosed

theorem Admits.lane {a : Action} {id b : Nat} {topic : String} {purpose : Purpose}
    {opened : List Reader} {last : Reader} {stage : Stage}
    (h : r.Admits a s id b topic purpose opened last stage) {p : Nat}
    (hp : p < (r.broker b).config.workers) : ∃ rd, (opened ++ [last])[p]? = some rd ∧
      s.lanes.find? (r.nextLane + p) =
        some { broker := b, topic, partition := p, reader := rd } := by
  rw [← h.length] at hp
  have hget := List.getElem?_eq_getElem hp
  exact ⟨_, hget, h.effect.fresh p _ hget⟩

end

theorem exists_lane {retention : Nat} {acts : List Action} {r : Relay}
    (h : (new retention).after acts = some r) {b : Nat} {topic : String} {p : Nat}
    (ho : (r.broker b).closed = false)
    (hend : ∀ l ∈ (new retention).observe ended acts, ¬(l.broker = b ∧ l.topic = topic))
    (ht : topic ∈ (r.broker b).topics) (hp : p < (r.broker b).config.workers) :
    ∃ i l, r.lanes.find? i = some l ∧ l.broker = b ∧ l.topic = topic ∧ l.partition = p := by
  induction h using after_induct with
  | start => cases ht
  | next acts q a s hq ha ih =>
    have hv := valid_of_after hq
    have hlater := hv.later (hv.change ha)
    rw [observe_concat ended hq] at hend
    -- The topic was known already and its lane stays, or this action enrolls it.
    have hold : topic ∈ (q.broker b).topics →
        ∃ i l, s.lanes.find? i = some l ∧ l.broker = b ∧ l.topic = topic ∧ l.partition = p := by
      intro hk
      have hsize := size_of_mem hk
      have hopen := hlater.open_before hsize ho
      rw [hlater.config b hsize] at hp
      obtain ⟨i, l, hi, rfl, rfl, rfl⟩ :=
        ih hopen (fun l hl => hend l (List.mem_append_left _ hl)) hk hp
      have hone : q.after [a] = some s := by rw [after, ha]; rfl
      obtain ⟨m, hm, hlm⟩ := hv.lane_stays hone hi ho fun k hk =>
        hend k (List.mem_append_right _ (by simpa [observe, ha] using hk))
      exact ⟨i, m, hm, hlm.broker, hlm.topic, hlm.partition⟩
    obtain ⟨-, hrest⟩ | ⟨id, b', topic', purpose, opened, last, stage, hadmits, -⟩ :=
      (hv.change ha).admits_or hv
    · rw [hrest.topics b] at ht
      exact hold ht
    · by_cases hk : topic ∈ (q.broker b).topics
      · exact hold hk
      · rw [hadmits.effect.broker b] at ht hp
        by_cases hb : b = b'
        · subst hb
          rw [if_pos rfl] at ht hp
          obtain ht | ht := List.mem_append.1 ht
          · exact absurd ht hk
          · rw [List.mem_singleton] at ht
            subst ht
            obtain ⟨rd, -, hlane⟩ := hadmits.lane hp
            exact ⟨_, _, hlane, rfl, rfl, rfl⟩
        · rw [if_neg hb] at ht
          exact absurd ht hk

theorem manned {retention : Nat} {acts : List Action} {r : Relay}
    (h : (new retention).after acts = some r) {b : Nat} {topic : String} {p : Nat}
    (ho : (r.broker b).closed = false)
    (hend : ∀ l ∈ (new retention).observe ended acts, ¬(l.broker = b ∧ l.topic = topic))
    (ht : topic ∈ (r.broker b).topics) (hp : p < (r.broker b).config.workers) :
    ∃! i, r.Runs b topic p i := by
  have hv := valid_of_after h
  obtain ⟨i, l, hi, hb, htop, hpart⟩ := exists_lane h ho hend ht hp
  refine ⟨i, ⟨l, hi, hb, htop, hpart, ?_⟩, ?_⟩
  · rw [hv.isCancelled hi, hb, ho]
  · intro j hall
    obtain ⟨m, hj, hb', htop', hpart', -⟩ := hall
    exact hv.apart j i m l hj hi (hb'.trans hb.symm) (htop'.trans htop.symm)
      (hpart'.trans hpart.symm)

end EventRelay.Relay
