import EventRelay.Proofs.Relay.Valid
/-!
When a topic becomes known to a broker. Main statements: `enrolled_topics`, a broker knows the
topics that its calls enrolled, and `opened_before`, every lane starts with a reader that was
opened on its partition while the topic was still unknown.
-/
namespace EventRelay

/-- The topic that a call of broker `b` enrolls in its next step. The call, or the publication it
is made for, is told so. -/
def Stage.enrolled (r : Relay) (b : Nat) : Stage → List (Nat × String)
  | .opening topic _ readers ⟨_, none⟩ =>
    match r.log.tail topic readers.length with
    | .ok _ =>
      if (r.broker b).config.partitions.toNat ≤ readers.length + 1 ∧
        ((r.broker b).enroll topic).1 = .enrolled then [(b, topic)] else []
    | .error _ => []
  | _ => []

namespace Relay

def enrollments (r : Relay) : Action → List (Nat × String)
  | .step (.call id) .proceed => (r.calls.find? id).elim [] fun c => c.stage.enrolled r c.broker
  | _ => []

/-- No topic is enrolled and no lane started on the way from `r` to `s`. -/
structure Rests (r s : Relay) : Prop where
  topics : ∀ b, (s.broker b).topics = (r.broker b).topics
  nextLane : s.nextLane = r.nextLane
  lanes : ∀ i l, s.lanes.find? i = some l → ∃ k, r.lanes.find? i = some k ∧ k.Later l

section
variable {r s : Relay} {retention : Nat} {hist : List (Nat × Record)}

theorem rests_of_eq (hb : s.brokers = r.brokers) (hn : s.nextLane = r.nextLane)
    (hl : s.lanes = r.lanes) : r.Rests s where
  topics b := by rw [broker, broker, hb]
  nextLane := hn
  lanes i l hi := ⟨l, hl ▸ hi, .refl l⟩

theorem rests_setBroker (r : Relay) {b : Nat} {v : Broker}
    (hv : v.topics = (r.broker b).topics) : r.Rests (r.setBroker b v) where
  topics b' := by
    by_cases hb : b < r.brokers.size
    · rw [r.broker_setBroker hb]
      split
      · rename_i h; rw [h, hv]
      · rfl
    · rw [r.setBroker_of_le (Nat.le_of_not_lt hb)]
  nextLane := rfl
  lanes i l hi := ⟨l, hi, .refl l⟩

theorem enrollments_aside (r : Relay) {a : Action} (ha : a.isAside = true) :
    r.enrollments a = [] := by
  cases a with
  | step j sig =>
    cases j with
    | feed id => rfl
    | call | removal | lane => cases ha
  | _ => rfl

theorem enrollments_call {id b : Nat} {stage : Stage} (hc : r.calls.find? id = some ⟨b, stage⟩) :
    r.enrollments (.step (.call id) .proceed) = stage.enrolled r b := by
  rw [enrollments, hc, Option.elim_some]

theorem Moves.enrolled {b : Nat} {sig : Signal} {stage stage' : Stage}
    (h : Moves r b sig stage stage') : stage.enrolled r b = [] := by
  cases h with
  | ensures hb hs => cases hb <;> rfl
  | publishes hb hs => cases hb <;> rfl
  | closes hb hc => cases hb <;> rfl
  | fails hh =>
    cases stage with
    | opening topic purpose readers w => cases hh; rfl
    | _ => rfl
  | tailFails hl => simp only [Stage.enrolled, hl]
  | knows hl hn hk hs =>
    have hknown : ¬ Broker.Enrollment.known = .enrolled := by decide
    simp only [Stage.enrolled, hl, Broker.enroll_of_mem hk, hknown, and_false, if_false]
  | delays | expires | createFails | produceFails | drains => rfl

theorem Change.admits_or {a : Action} (h : r.Valid retention hist) (hc : Change r a s) :
    (r.enrollments a = [] ∧ r.Rests s) ∨
    ∃ id b topic purpose opened last stage,
      r.Admits a s id b topic purpose opened last stage ∧ r.enrollments a = [(b, topic)] := by
  cases hc with
  | aside ha => exact .inl ⟨r.enrollments_aside ha, rests_of_eq rfl rfl rfl⟩
  | @opensBroker config registry hf =>
    refine .inl ⟨rfl, fun b => ?_, rfl, fun i l hi => ⟨l, hi, .refl l⟩⟩
    simp only [broker, Array.getElem?_push]
    split
    · rename_i hb
      rw [hb, Array.getElem?_eq_none (Nat.le_refl _)]
      rfl
    · rfl
  | @calls id b stage _ sig hc hs =>
    cases hs with
    | moves hσ hm =>
      refine .inl ⟨?_, rests_of_eq rfl rfl rfl⟩
      cases sig with
      | proceed => exact (enrollments_call hc).trans hm.enrolled
      | expire | stop => rfl
    | closes hb ho =>
      have hnone : stage.enrolled r b = [] := by cases hb <;> rfl
      have hset := r.rests_setBroker (b := b)
        (v := { r.broker b with closed := true, crews := .empty }) rfl
      exact .inl ⟨(enrollments_call hc).trans hnone, hset.topics, hset.nextLane, hset.lanes⟩
    | creates | closesLog => exact .inl ⟨enrollments_call hc, rests_of_eq rfl rfl rfl⟩
    | opens script hσ hw hl hn =>
      refine .inl ⟨?_, rests_of_eq rfl rfl rfl⟩
      have hmore : ¬ (r.broker b).config.partitions.toNat ≤ _ := Nat.not_le.2 hn
      simp only [enrollments_call hc, Stage.enrolled, hl, hmore, false_and, if_false]
    | rejects hσ hl hn hk hf =>
      refine .inl ⟨?_, rests_of_eq rfl rfl rfl⟩
      have hfull : ¬ Broker.Enrollment.full = .enrolled := by decide
      simp only [enrollments_call hc, Stage.enrolled, hl, Broker.enroll_of_full hk hf, hfull,
        and_false, if_false]
    | @produces _ _ _ _ _ log _ _ hσ hl hs =>
      have hset := ({ r with log } : Relay).rests_setBroker (b := b)
        (v := { r.broker b with published := (r.broker b).published + 1 }) rfl
      exact .inl ⟨enrollments_call hc, hset.topics, hset.nextLane, hset.lanes⟩
    | enrolls script hσ hl hn hk hf hs =>
      refine .inr ⟨_, _, _, _, _, _, _, ⟨rfl, ⟨_, hc⟩, hl, hk, hf,
        h.length_readers hc hn ⟨_, script⟩, hs, h.enrolls hc hk ⟨_, script⟩ _ _ _⟩, ?_⟩
      simp only [enrollments_call hc, Stage.enrolled, hl, Broker.enroll_of_room hk hf, hn,
        and_self, if_true]
  | lanes hi hs =>
    have hold := (hs.lanes h hi).2
    refine .inl ⟨?_, ?_⟩
    · rfl
    · cases hs <;> exact ⟨fun _ => rfl, rfl, hold⟩
  | scripts | submits | waits | collects | deletes | deletionFails | deleted | createsTopic
  | deletesTopic | produces | closesLog => exact .inl ⟨rfl, rests_of_eq rfl rfl rfl⟩

end

theorem enrolled_topics {retention : Nat} {acts : List Action} {r : Relay}
    (h : (new retention).after acts = some r) (b : Nat) :
    (((new retention).observe enrollments acts).filter fun e => e.1 = b).map Prod.snd =
      (r.broker b).topics := by
  induction h using after_induct with
  | start => rfl
  | next acts q a s hq ha ih =>
    have hv := valid_of_after hq
    rw [observe_concat enrollments hq, List.filter_append, List.map_append, ih]
    obtain ⟨hnone, hrest⟩ | ⟨id, b', topic, purpose, opened, last, stage, hadmits, hone⟩ :=
      (hv.change ha).admits_or hv
    · rw [hnone, hrest.topics b]
      exact List.append_nil _
    · rw [hone, hadmits.effect.broker b]
      by_cases hb : b = b'
      · subst hb
        simp
      · have hne : b' ≠ b := Ne.symm hb
        simp [hb, hne]

theorem count_enrollments {retention : Nat} {acts : List Action} {r : Relay}
    (h : (new retention).after acts = some r) (b : Nat) (t : String) :
    ((new retention).observe enrollments acts).count (b, t) =
      if t ∈ (r.broker b).topics then 1 else 0 := by
  have hcount : ∀ es : List (Nat × String),
      es.count (b, t) = ((es.filter fun e => e.1 = b).map Prod.snd).count t := by
    intro es
    induction es with
    | nil => rfl
    | cons e es ih =>
      obtain ⟨b', t'⟩ := e
      rw [List.count_cons, ih]
      by_cases hb : b' = b
      · subst hb
        simp [List.count_cons]
      · simp [hb]
  rw [hcount, enrolled_topics h b]
  exact ((valid_of_after h).brokers b).nodup.count

/-! ### The readers -/

section
variable {topic : String} {purpose : Purpose} {readers : List Reader} {w : Hindrance}

theorem ready_opening {p : Purpose} {e : Bool} :
    ¬ Ready p e (.opening topic purpose readers w) := by
  intro h
  cases h

theorem asks_opening {k : Broker} {t : String} {p : Purpose} :
    ¬ Asks k t p (.opening topic purpose readers w) := by
  intro h
  cases h with
  | known hk hs => exact ready_opening hs

theorem publishes_opening {k : Broker} {items : List Publication} {acks : List Ack} :
    ¬ Publishes k items acks (.opening topic purpose readers w) := by
  intro h
  cases h with
  | asks item rest _ hc hv hs => exact asks_opening hs

theorem moves_opening {r : Relay} {b : Nat} {sig : Signal} {stage : Stage} :
    ¬ Moves r b sig stage (.opening topic purpose readers w) := by
  intro h
  cases h with
  | ensures hb hs => exact asks_opening hs
  | publishes hb hs => exact publishes_opening hs
  | knows hl hn hk hs => exact ready_opening hs

end

theorem CallStep.opening {r s : Relay} {retention : Nat} {hist : List (Nat × Record)} {id b : Nat}
    {sig : Signal} {stage : Stage} (h : r.Valid retention hist)
    (hc : r.calls.find? id = some ⟨b, stage⟩) (hstep : CallStep r id b sig stage s)
    {topic : String} {purpose : Purpose} {readers : List Reader} {w : Hindrance}
    (hs : s.calls.find? id = some ⟨b, .opening topic purpose readers w⟩) :
    (readers = [] ∧ (∃ w', stage = .creating topic purpose w') ∧
      r.log.create topic (r.broker b).config.partitions.toNat = .ok s.log) ∨
      ∃ opened c script d, stage = .opening topic purpose opened ⟨d, none⟩ ∧
      r.log.tail topic opened.length = .ok c ∧ readers = opened ++ [⟨c, script⟩] := by
  cases hstep with
  | moves hσ hm => rw [find?_goes] at hs; cases hs; exact absurd hm moves_opening
  | creates hσ hw hl => rw [find?_goes] at hs; cases hs; exact .inl ⟨rfl, ⟨_, rfl⟩, hl⟩
  | opens script hσ hw hl hn =>
    rw [find?_goes] at hs
    cases hs
    exact .inr ⟨_, _, _, _, rfl, hl, rfl⟩
  | @enrolls _ _ _ _ c stage script σ σ' hσ hl hn hk hf hready =>
    rw [(h.enrolls hc hk ⟨c, script⟩ σ σ' stage).calls, Table.find?_insert, if_pos rfl] at hs
    cases hs
    exact absurd hready ready_opening
  | produces hσ hl hpub => rw [find?_goes] at hs; cases hs; exact absurd hpub publishes_opening
  | closes | rejects | closesLog => rw [find?_goes] at hs; cases hs

theorem opened_before {retention : Nat} {acts : List Action} {r : Relay}
    (h : (new retention).after acts = some r) :
    ∀ id b topic purpose readers w,
      r.calls.find? id = some ⟨b, .opening topic purpose readers w⟩ →
      ∀ (j : Nat) (rd : Reader), readers[j]? = some rd →
        (new retention).Passes acts fun q => q.log.tail topic j = .ok rd.cursor := by
  induction h using after_induct with
  | start =>
    intro id b topic purpose readers w hc
    cases hc
  | next acts q a s hq ha ih =>
    intro id b topic purpose readers w hc j rd hj
    rw [passes_concat (after_concat.2 ⟨q, hq, ha⟩)]
    refine .inl ?_
    have hv := valid_of_after hq
    obtain hold | ⟨_, _, hqueued⟩ | ⟨sig, stage₀, -, hold, hstep⟩ := (hv.change ha).call_cases hv hc
    · exact ih id b topic purpose readers w hold j rd hj
    · cases hqueued
    obtain ⟨rfl, -, -⟩ | ⟨opened, c, script, d, rfl, htail, rfl⟩ := hstep.opening hv hold hc
    · cases hj
    · obtain hopened | ⟨rfl, rfl⟩ := getElem?_concat_cases hj
      · exact ih id b topic purpose opened _ hold j rd hopened
      · exact .now hq htail

/-- When a topic is enrolled, each of its lanes gets a reader that was opened on the lane's
partition before, at a moment when the topic was not known. -/
theorem Admits.opened_before {retention : Nat} {acts : List Action} {q s : Relay} {a : Action}
    {id b : Nat} {topic : String} {purpose : Purpose} {opened : List Reader} {last : Reader}
    {stage : Stage} (hq : (new retention).after acts = some q)
    (h : q.Admits a s id b topic purpose opened last stage) {j : Nat} {rd : Reader}
    (hj : (opened ++ [last])[j]? = some rd) :
    (new retention).Passes acts fun q' =>
      topic ∉ (q'.broker b).topics ∧ q'.log.tail topic j = .ok rd.cursor := by
  have hpass : (new retention).Passes acts fun q' => q'.log.tail topic j = .ok rd.cursor := by
    obtain hopened | ⟨rfl, rfl⟩ := getElem?_concat_cases hj
    · obtain ⟨d, hcall⟩ := h.call
      exact Relay.opened_before hq id b topic purpose opened _ hcall j rd hopened
    · exact .now hq h.tail
  obtain ⟨pre, q', ⟨post, rfl⟩, hq', htail⟩ := hpass
  -- What is not known now was not known then.
  rw [after_append, hq', Option.bind_some] at hq
  have hlater := ((valid_of_after hq').run hq).2
  exact ⟨pre, q', List.prefix_append _ _, hq',
    fun hk => h.unknown ((hlater.topics b).subset hk), htail⟩

end Relay
end EventRelay
