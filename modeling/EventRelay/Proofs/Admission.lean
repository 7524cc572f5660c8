import EventRelay.Proofs.Admission.Private
/-!
The admission of topics: a broker never knows more topics than its cap, each is enrolled once, and
the enrollment starts all of its lanes. Main statement: `admits_once`.
-/
namespace EventRelay.Relay

/-- The call that enrolls the topic is told so: it answers that it did, or goes on to produce. -/
def Told (r s : Relay) (a : Action) (b : Nat) (topic : String) : Prop :=
  ∃ id purpose opened w stage, a = .step (.call id) .proceed ∧
    r.calls.find? id = some ⟨b, .opening topic purpose opened w⟩ ∧
    s.calls.find? id = some ⟨b, stage⟩ ∧ Ready purpose true stage

/-- On the way from `r` to `s` the lanes of a topic are started, one for each worker, all of them
new. `acts` lead to `r`. -/
structure Launches (retention : Nat) (acts : List Action) (r s : Relay) (b : Nat)
    (topic : String) : Prop where
  uncrewed : (r.broker b).crews.find? topic = none
  idle : ∀ i l, r.lanes.find? i = some l → ¬(l.broker = b ∧ l.topic = topic)
  stay : ∀ i l, r.lanes.find? i = some l → s.lanes.find? i = some l
  crew : (s.broker b).crews.find? topic =
    some (List.range' r.nextLane (r.broker b).config.workers)
  lanes : ∀ p, p < (r.broker b).config.workers → ∃ rd,
    s.lanes.find? (r.nextLane + p) = some { broker := b, topic, partition := p, reader := rd } ∧
    (new retention).Passes acts fun q =>
      topic ∉ (q.broker b).topics ∧ q.log.tail topic p = .ok rd.cursor
  only : ∀ i l, s.lanes.find? i = some l → l.broker = b → l.topic = topic →
    ∃ p, p < (r.broker b).config.workers ∧ i = r.nextLane + p

/-- What can be said of the admissions to broker `b` when `acts` have led to `r`. -/
structure AdmitsOnce (retention : Nat) (acts : List Action) (r : Relay) (b : Nat) : Prop where
  bounded : (r.broker b).topics.length ≤ (r.broker b).config.maxTopics
  lasting : ∀ acts' s, r.after acts' = some s → (r.broker b).topics <+: (s.broker b).topics
  once : ∀ topic, ((new retention).observe enrollments acts).count (b, topic) =
    if topic ∈ (r.broker b).topics then 1 else 0
  enrolls : ∀ a s topic, r.act a = some s → (b, topic) ∈ r.enrollments a →
    Told r s a b topic ∧ Launches retention acts r s b topic
  rests : ∀ a s, r.act a = some s → (∀ topic, (b, topic) ∉ r.enrollments a) →
    (s.broker b).topics = (r.broker b).topics ∧
    ∀ i l, s.lanes.find? i = some l → l.broker = b → ∃ k, r.lanes.find? i = some k ∧ k.Later l
  answers : ∀ a s id, r.act a = some s →
    s.calls.find? id = some ⟨b, .finished (.ensured true)⟩ →
    r.calls.find? id = some ⟨b, .finished (.ensured true)⟩ ∨
      a = .step (.call id) .proceed ∧ ∃ topic, (b, topic) ∈ r.enrollments a
  complete : (r.broker b).closed = false → (∀ a ∈ acts, a.isPrivate b = true) →
    (∀ l ∈ (new retention).observe ended acts, l.broker ≠ b) →
    ∀ topic ∈ (r.broker b).topics,
      r.log.partitionCount topic = some (r.broker b).config.workers ∧
      (∀ p, p < (r.broker b).config.workers → ∃! i, r.Runs b topic p i) ∧
      ∀ key, ∃! i, r.Runs b topic (partitionFor key (r.broker b).config.workers) i

section
variable {r s : Relay} {retention : Nat} {hist : List (Nat × Record)} {a : Action}

theorem Admits.told {id b : Nat} {topic : String} {purpose : Purpose} {opened : List Reader}
    {last : Reader} {stage : Stage}
    (h : r.Admits a s id b topic purpose opened last stage) : Told r s a b topic := by
  obtain ⟨d, hcall⟩ := h.call
  refine ⟨id, purpose, opened, _, stage, h.action, hcall, ?_, h.ready⟩
  rw [h.effect.calls, Table.find?_insert, if_pos rfl]

theorem Admits.launches {acts : List Action} {id b : Nat} {topic : String} {purpose : Purpose}
    {opened : List Reader} {last : Reader} {stage : Stage}
    (hr : (new retention).after acts = some r)
    (h : r.Admits a s id b topic purpose opened last stage) :
    Launches retention acts r s b topic := by
  have hv := valid_of_after hr
  have hidle : ∀ i l, r.lanes.find? i = some l → ¬(l.broker = b ∧ l.topic = topic) := by
    intro i l hi hall
    obtain ⟨rfl, rfl⟩ := hall
    exact h.unknown (hv.lanes i l hi).topic
  refine ⟨?_, hidle, fun i l hi => ?_, ?_, fun p hp => ?_, fun i l hi hb ht => ?_⟩
  · cases hf : (r.broker b).crews.find? topic with
    | none => rfl
    | some ids => exact absurd ((hv.brokers b).crews topic ids hf) h.unknown
  · exact (h.effect.old i (.inl (hv.lanes i l hi).number)).trans hi
  · rw [h.effect.broker b, if_pos rfl, ← h.length]
    simp only [Table.find?_insert, if_pos]
  · obtain ⟨rd, hget, hlane⟩ := h.lane hp
    exact ⟨rd, hlane, h.opened_before hr hget⟩
  · obtain ⟨p, rd, hget, hip, -⟩ | hold := h.effect.lane_cases hi
    · have hp := (List.getElem?_eq_some_iff.1 hget).1
      exact ⟨p, h.length ▸ hp, hip⟩
    · exact absurd ⟨hb, ht⟩ (hidle i l hold)

theorem ready_told {p : Purpose} {e : Bool} (h : Ready p e (.finished (.ensured true))) :
    e = true := by
  cases h
  rfl

theorem asks_told {k : Broker} {t : String} {p : Purpose} :
    ¬ Asks k t p (.finished (.ensured true)) := by
  intro h
  cases h with
  | known hk hs => exact Bool.noConfusion (ready_told hs)

theorem publishes_told {k : Broker} {items : List Publication} {acks : List Ack} :
    ¬ Publishes k items acks (.finished (.ensured true)) := by
  intro h
  cases h with
  | asks item rest _ hc hv hs => exact asks_told hs

theorem CallStep.told {id b : Nat} {sig : Signal} {stage : Stage}
    (hstep : CallStep r id b sig stage s)
    (hs : s.calls.find? id = some ⟨b, .finished (.ensured true)⟩) :
    sig = .proceed ∧ ∃ topic, (b, topic) ∈ stage.enrolled r b := by
  cases hstep with
  | moves hσ hm =>
    rw [find?_goes] at hs
    cases hs
    cases hm with
    | ensures hb hs => exact absurd hs asks_told
    | publishes hb hs => exact absurd hs publishes_told
    | knows hl hn hk hs => exact Bool.noConfusion (ready_told hs)
  | @enrolls topic _ _ _ _ _ script σ σ' hσ hl hn hk hf hready =>
    refine ⟨rfl, topic, ?_⟩
    simp only [Stage.enrolled, hl, Broker.enroll_of_room hk hf, hn, and_self, if_true,
      List.mem_singleton]
  | produces hσ hl hpub => rw [find?_goes] at hs; cases hs; exact absurd hpub publishes_told
  | creates | opens | closes | rejects | closesLog => rw [find?_goes] at hs; cases hs

end

/-- In whatever order the calls on a broker take their steps, and whatever its log calls meet: the
topics of the broker stay within its cap and are never forgotten, each is enrolled by exactly one
call, and its lanes are started then, once, on readers opened before. While the broker is open and
has its log to itself, each topic it knows is on the log with a running lane for every partition. -/
theorem admits_once {retention : Nat} {acts : List Action} {r : Relay}
    (h : (new retention).after acts = some r) (b : Nat) : AdmitsOnce retention acts r b := by
  have hv := valid_of_after h
  refine ⟨(hv.brokers b).bounded, fun acts' s hs => (hv.run hs).2.topics b, count_enrollments h b,
    fun a s topic ha hm => ?_, fun a s ha hm => ?_, fun a s id ha hs => ?_, ?_⟩
  · obtain ⟨hnone, -⟩ | ⟨id, b', topic', purpose, opened, last, stage, hadmits, hone⟩ :=
      (hv.change ha).admits_or hv
    · rw [hnone] at hm
      cases hm
    · rw [hone, List.mem_singleton] at hm
      cases hm
      exact ⟨hadmits.told, hadmits.launches h⟩
  · obtain ⟨-, hrest⟩ | ⟨id, b', topic', purpose, opened, last, stage, hadmits, hone⟩ :=
      (hv.change ha).admits_or hv
    · exact ⟨hrest.topics b, fun i l hi _ => hrest.lanes i l hi⟩
    · have hb : b ≠ b' := by
        intro heq
        subst heq
        exact hm topic' (by rw [hone]; exact List.mem_singleton_self _)
      refine ⟨by rw [hadmits.effect.broker b, if_neg hb], fun i l hi hl => ?_⟩
      obtain ⟨p, rd, -, -, rfl⟩ | hold := hadmits.effect.lane_cases hi
      · exact absurd hl.symm hb
      · exact ⟨l, hold, .refl l⟩
  · obtain hold | ⟨_, _, hnew⟩ | ⟨sig, stage, rfl, hc, hstep⟩ := (hv.change ha).call_cases hv hs
    · exact .inl hold
    · cases hnew
    · obtain ⟨rfl, topic, hm⟩ := hstep.told hs
      exact .inr ⟨rfl, topic, by rw [enrollments_call hc]; exact hm⟩
  · intro ho hp hend topic ht
    have hown := ownsLog_of_after h hp fun _ => ho
    have hcrew := fun p hp => manned (p := p) h ho (fun l hl hx => hend l hl hx.1) ht hp
    have hpos := hv.workers_pos b
    rw [hv.workers b] at hpos
    exact ⟨hown.known topic ht, hcrew, fun key => hcrew _ (Nat.mod_lt _ hpos)⟩

/-- Two calls ensure the same topic and take turns up to its enrollment. -/
def twoEnsures : List Action :=
  [.addRegistry 2, .addBroker { workers := 2, maxTopics := 1 } 0,
    .submit 0 (.ensure "a") 0, .submit 0 (.ensure "a") 0,
    .step (.call 0) .proceed, .step (.call 1) .proceed,
    .step (.call 0) .proceed, .step (.call 1) .proceed,
    .step (.call 0) .proceed, .step (.call 1) .proceed,
    .step (.call 0) .proceed, .step (.call 1) .proceed]

theorem admits_once_of_race : ∃ r, (new 4).after twoEnsures = some r ∧
    r.response? 0 = some (.ensured true) ∧ r.response? 1 = some (.ensured false) ∧
    AdmitsOnce 4 twoEnsures r 0 ∧ ∀ p, p < 2 → ∃! i, r.Runs 0 "a" p i := by
  have hrun : ((new 4).after twoEnsures).map (fun r => (r.response? 0, r.response? 1,
      (r.broker 0).closed, (r.broker 0).topics, (r.broker 0).config.workers)) =
      some (some (.ensured true), some (.ensured false), false, ["a"], 2) := by decide +kernel
  obtain ⟨r, hr, heq⟩ := Option.map_eq_some_iff.1 hrun
  simp only [Prod.mk.injEq] at heq
  obtain ⟨hfirst, hsecond, hopen, htopics, hworkers⟩ := heq
  have hends : ((new 4).observe ended twoEnsures).length = 0 := by decide +kernel
  have hcomplete := (admits_once hr 0).complete hopen (by decide)
    (by rw [List.length_eq_zero_iff.1 hends]; simp) "a" (by rw [htopics]; decide)
  rw [hworkers] at hcomplete
  exact ⟨r, hr, hfirst, hsecond, admits_once hr 0, hcomplete.2.1⟩

end EventRelay.Relay
