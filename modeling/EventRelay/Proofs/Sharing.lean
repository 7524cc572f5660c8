import EventRelay.Proofs.Delivery.Undeleted
/-!
Brokers that share a log. A topic is deleted only after some broker was too full for it. Main
statement: `kept_unless_rejected`; a rejection may hit a topic that another broker uses,
`rejection_deletes_known`.
-/
namespace EventRelay

/-- Whether the topics of the log are left to the brokers. -/
def Action.leavesTopics : Action → Bool
  | .delete _ | .closeLog => false
  | _ => true

/-- The topic that a call of broker `b` creates, opens and then finds no slot for. -/
def Stage.rejected (r : Relay) (b : Nat) : Stage → List (Nat × String)
  | .opening topic _ readers ⟨_, none⟩ =>
    match r.log.tail topic readers.length with
    | .ok _ =>
      if (r.broker b).config.partitions.toNat ≤ readers.length + 1 ∧
        ((r.broker b).enroll topic).1 = .full then [(b, topic)] else []
    | .error _ => []
  | _ => []

theorem Broker.full_of_enroll {k : Broker} {topic : String} (h : (k.enroll topic).1 = .full) :
    topic ∉ k.topics ∧ k.config.maxTopics ≤ k.topics.length := by
  by_cases hk : topic ∈ k.topics
  · rw [Broker.enroll_of_mem hk] at h
    cases h
  · by_cases hf : k.config.maxTopics ≤ k.topics.length
    · exact ⟨hk, hf⟩
    · rw [Broker.enroll_of_room hk (Nat.lt_of_not_le hf)] at h
      cases h

theorem Stage.mem_rejected {r : Relay} {b b' : Nat} {t : String} {stage : Stage}
    (h : (b', t) ∈ stage.rejected r b) : b' = b ∧ ((r.broker b).enroll t).1 = .full ∧
      ∃ purpose readers w, stage = .opening t purpose readers w := by
  unfold rejected at h
  split at h
  · split at h
    · split at h
      · rename_i hfull
        cases List.mem_singleton.1 h
        exact ⟨rfl, hfull.2, _, _, _, rfl⟩
      · cases h
    · cases h
  · cases h

namespace Relay

def rejections (r : Relay) : Action → List (Nat × String)
  | .step (.call id) .proceed => (r.calls.find? id).elim [] fun c => c.stage.rejected r c.broker
  | _ => []

/-- Broker `b` does not know the topic and never will. -/
structure Spurns (r : Relay) (b : Nat) (t : String) : Prop where
  opened : b < r.brokers.size
  unknown : t ∉ (r.broker b).topics
  full : (r.broker b).config.maxTopics ≤ (r.broker b).topics.length

section
variable {r s : Relay} {retention : Nat} {hist : List (Nat × Record)} {a : Action}

theorem Spurns.later {b : Nat} {t : String} (h : r.Spurns b t) (hl : r.Later s)
    (hv : s.Valid retention hist) : s.Spurns b t := by
  have hconfig := hl.config b h.opened
  -- A full broker enrolls nothing.
  have hbounded : (s.broker b).topics.length ≤ (r.broker b).topics.length :=
    Nat.le_trans (hv.brokers b).bounded (by rw [hconfig]; exact h.full)
  have hsame : (r.broker b).topics = (s.broker b).topics :=
    (hl.topics b).eq_of_length_le hbounded
  refine ⟨Nat.lt_of_lt_of_le h.opened hl.size, ?_, ?_⟩
  · rw [← hsame]
    exact h.unknown
  · rw [hconfig, ← hsame]
    exact h.full

theorem Valid.spurns (hv : r.Valid retention hist) {b : Nat} {t : String}
    (h : (b, t) ∈ r.rejections a) : r.Spurns b t := by
  unfold rejections at h
  split at h
  · rename_i id
    cases hc : r.calls.find? id with
    | none => rw [hc] at h; cases h
    | some c =>
      obtain ⟨b', stage⟩ := c
      rw [hc, Option.elim_some] at h
      obtain ⟨rfl, hfull, purpose, readers, w, rfl⟩ := Stage.mem_rejected h
      obtain ⟨hunknown, hfull⟩ := Broker.full_of_enroll hfull
      exact ⟨(hv.calls id _ _ hc).1, hunknown, hfull⟩
  · cases h

theorem Change.removal_or (hv : r.Valid retention hist) (hc : Change r a s) {id : Nat}
    {m : Removal} (hs : s.removals.find? id = some m) :
    (∃ id' w, r.removals.find? id' = some ⟨m.topic, w⟩) ∨ ∃ b, (b, m.topic) ∈ r.rejections a := by
  cases hc with
  | @calls id' b stage _ sig hc hstep =>
    cases hstep with
    | @enrolls _ _ _ _ c stage script σ σ' hσ hl hn hk hf hready =>
      rw [(hv.enrolls hc hk ⟨c, script⟩ σ σ' stage).removals] at hs
      exact .inl ⟨id, _, hs⟩
    | rejects hσ hl hn hk hf =>
      obtain ⟨-, rfl⟩ | ⟨-, hs⟩ := Table.find?_insert_eq_some.1 hs
      · refine .inr ⟨b, ?_⟩
        simp only [rejections, hc, Option.elim_some, Stage.rejected, hl, hn,
          Broker.enroll_of_full hk hf, and_self, if_true, List.mem_singleton]
      · exact .inl ⟨id, _, hs⟩
    | _ => exact .inl ⟨id, _, hs⟩
  | deletes hr hσ hh =>
    obtain ⟨-, rfl⟩ | ⟨-, hs⟩ := Table.find?_insert_eq_some.1 hs
    · exact .inl ⟨_, _, hr⟩
    · exact .inl ⟨id, _, hs⟩
  | deletionFails | deleted => exact .inl ⟨id, _, (Table.find?_erase_eq_some.1 hs).2⟩
  | lanes hi hl => cases hl <;> exact .inl ⟨id, _, hs⟩
  | _ => exact .inl ⟨id, _, hs⟩

theorem Change.closes_log_or (hv : r.Valid retention hist) (hc : Change r a s) :
    s.log.closed = r.log.closed ∨ a = .closeLog ∨
      ∃ b, b < r.brokers.size ∧ (r.broker b).closed = true := by
  cases hc with
  | calls hc hstep =>
    cases hstep with
    | closesLog => exact .inr (.inr ⟨_, hv.calls _ _ _ hc⟩)
    | creates hσ hw hl => exact .inl (Log.closed_create hl)
    | enrolls script hσ hl hn hk hf hready =>
      exact .inl (congrArg Log.closed (hv.enrolls hc hk ⟨_, script⟩ _ _ _).log)
    | produces hσ hl hpub => exact .inl (Log.closed_produce hl)
    | _ => exact .inl rfl
  | deleted hr hl | deletesTopic hl => exact .inl (Log.closed_delete hl)
  | createsTopic hl => exact .inl (Log.closed_create hl)
  | produces hl => exact .inl (Log.closed_produce hl)
  | lanes hi hl => cases hl <;> exact .inl rfl
  | closesLog => exact .inr (.inl rfl)
  | _ => exact .inl rfl

end

section
variable {retention : Nat} {acts : List Action} {r : Relay}

theorem logOpen_of_after (h : (new retention).after acts = some r)
    (hp : ∀ a ∈ acts, a.leavesTopics = true)
    (ho : ∀ b, b < r.brokers.size → (r.broker b).closed = false) : r.log.closed = false := by
  induction h using after_induct with
  | start => rfl
  | next acts q a s hq ha ih =>
    have hv := valid_of_after hq
    have hlater := hv.later (hv.change ha)
    have hopen : ∀ b, b < q.brokers.size → (q.broker b).closed = false := fun b hb =>
      hlater.open_before hb (ho b (Nat.lt_of_lt_of_le hb hlater.size))
    have hlog := ih (fun x hx => hp x (List.mem_append_left _ hx)) hopen
    obtain hsame | rfl | ⟨b, hb, hc⟩ := (hv.change ha).closes_log_or hv
    · exact hsame.trans hlog
    · cases hp _ (List.mem_append_right _ (List.mem_singleton_self _))
    · rw [hopen b hb] at hc
      cases hc

theorem spurns_of_after (h : (new retention).after acts = some r) :
    ∀ b t, (b, t) ∈ (new retention).observe rejections acts → r.Spurns b t := by
  induction h using after_induct with
  | start =>
    intro b t hm
    cases hm
  | next acts q a s hq ha ih =>
    intro b t hm
    have hv := valid_of_after hq
    have hlater := hv.later (hv.change ha)
    rw [observe_concat rejections hq] at hm
    obtain hm | hm := List.mem_append.1 hm
    · exact (ih b t hm).later hlater (hv.next ha)
    · exact (hv.spurns hm).later hlater (hv.next ha)

theorem rejected_of_removal (h : (new retention).after acts = some r) :
    ∀ id m, r.removals.find? id = some m →
      ∃ b, (b, m.topic) ∈ (new retention).observe rejections acts := by
  induction h using after_induct with
  | start =>
    intro id m hm
    cases hm
  | next acts q a s hq ha ih =>
    intro id m hm
    have hv := valid_of_after hq
    rw [observe_concat rejections hq]
    obtain ⟨id', w, hold⟩ | ⟨b, hb⟩ := (hv.change ha).removal_or hv hm
    · obtain ⟨b, hb⟩ := ih id' _ hold
      exact ⟨b, List.mem_append_left _ hb⟩
    · exact ⟨b, List.mem_append_right _ hb⟩

theorem rejected_of_deleted (h : (new retention).after acts = some r)
    (hp : ∀ a ∈ acts, a.leavesTopics = true) {t : String}
    (hd : t ∈ (new retention).observe deleted acts) :
    ∃ b, (b, t) ∈ (new retention).observe rejections acts := by
  induction h using after_induct with
  | start => cases hd
  | next acts q a s hq ha ih =>
    rw [observe_concat deleted hq] at hd
    rw [observe_concat rejections hq]
    obtain hd | hd := List.mem_append.1 hd
    · obtain ⟨b, hb⟩ := ih (fun x hx => hp x (List.mem_append_left _ hx)) hd
      exact ⟨b, List.mem_append_left _ hb⟩
    · have hlast := hp a (List.mem_append_right _ (List.mem_singleton_self a))
      unfold deleted at hd
      split at hd
      · cases hlast
      · split at hd
        · rename_i hr
          split at hd
          · rw [List.mem_singleton] at hd
            subst hd
            obtain ⟨b, hb⟩ := rejected_of_removal hq _ _ hr
            exact ⟨b, List.mem_append_left _ hb⟩
          · cases hd
        · cases hd
      · cases hd

/-- Broker `b` can use the topic: it is on the log with a partition for each worker, takes every
record, and no reader of a lane finds its partition over. -/
structure Usable (r : Relay) (b : Nat) (t : String) : Prop where
  count : r.log.partitionCount t = some (r.broker b).config.workers
  produce : ∀ key value, ∃ ack log, r.log.produce t key value = .ok (ack, log)
  lanes : ∀ i l, r.lanes.find? i = some l → l.broker = b → l.topic = t →
    r.log.read l.reader.cursor ≠ .ended

/-- Any number of brokers over one log, none of them closed, and nobody else deletes topics: what a
broker knows it can use, unless another broker has rejected that topic for want of a slot. -/
theorem kept_unless_rejected (h : (new retention).after acts = some r)
    (hp : ∀ a ∈ acts, a.leavesTopics = true)
    (ho : ∀ b, b < r.brokers.size → (r.broker b).closed = false) {b : Nat} {t : String}
    (ht : t ∈ (r.broker b).topics) :
    r.Usable b t ∨ ∃ b', b' ≠ b ∧ (b', t) ∈ (new retention).observe rejections acts := by
  by_cases hd : t ∈ (new retention).observe deleted acts
  · -- The broker that rejected the topic does not know it.
    obtain ⟨b', hb'⟩ := rejected_of_deleted h hp hd
    refine .inr ⟨b', ?_, hb'⟩
    intro heq
    subst heq
    exact (spurns_of_after h b' t hb').unknown ht
  · have hv := valid_of_after h
    have hopen := logOpen_of_after h hp ho
    have hrooted := rooted_of_after h hd
    obtain ⟨i, inc, hi, htopic, hsize⟩ := hrooted.sized b (.inl ht)
    have hcurrent := hrooted.current hopen i inc hi htopic
    refine .inl ⟨Log.partitionCount_eq_some.2 ⟨i, inc, hcurrent, hi, hsize⟩, fun key value => ?_,
      fun j l hj hb hl => ?_⟩
    · rw [Log.produce, Log.find_eq_ok.2 ⟨hopen, hcurrent, hi⟩]
      exact ⟨_, _, rfl⟩
    · have hplace := (hv.lanes j l hj).place
      obtain ⟨inc', hi', htopic'⟩ := hplace.topic
      obtain ⟨p, hpart, -⟩ := hplace.offset
      have hreads := hrooted.current hopen _ inc' hi' (htopic'.trans hl)
      have hnow : r.log.isCurrent l.reader.cursor.incarnation = true := by
        simp only [Log.isCurrent, hi', Option.any_some, decide_eq_true_eq]
        rw [htopic', hl]
        exact hreads
      simp only [Log.read, hpart, hnow, if_true]
      split <;> simp

end

/-- Two brokers over one log, of which the first has one slot. -/
def twoBrokers : List Action :=
  [.addRegistry 1, .addRegistry 1, .addBroker { workers := 1, maxTopics := 1 } 0,
    .addBroker { workers := 1, maxTopics := 2 } 1,
    .submit 1 (.ensure "b") 0, .step (.call 0) .proceed, .step (.call 0) .proceed,
    .step (.call 0) .proceed]

/-- Two calls on the first broker race for its slot, and the topic of the second is removed. -/
def raceBeside (topic : String) : List Action :=
  [.submit 0 (.ensure "a") 0, .submit 0 (.ensure topic) 0,
    .step (.call 1) .proceed, .step (.call 2) .proceed,
    .step (.call 1) .proceed, .step (.call 2) .proceed,
    .step (.call 1) .proceed, .step (.call 2) .proceed,
    .step (.removal 0) .proceed, .step (.removal 0) .proceed]

theorem kept_unless_rejected_of_race : ∃ r, (new 4).after (twoBrokers ++ raceBeside "c") = some r ∧
    (r.broker 1).topics = ["b"] ∧ r.log.topics.keys = ["b", "a"] ∧ r.Usable 1 "b" := by
  have hrun : ((new 4).after (twoBrokers ++ raceBeside "c")).map (fun r => (r.brokers.size,
      (r.broker 0).closed, (r.broker 1).closed, (r.broker 1).topics, r.log.topics.keys)) =
      some (2, false, false, ["b"], ["b", "a"]) := by decide +kernel
  have hrejections : (new 4).observe rejections (twoBrokers ++ raceBeside "c") = [(0, "c")] := by
    decide +kernel
  obtain ⟨r, hr, heq⟩ := Option.map_eq_some_iff.1 hrun
  simp only [Prod.mk.injEq] at heq
  obtain ⟨hsize, hfirst, hsecond, htopics, hnames⟩ := heq
  have hopen : ∀ b, b < r.brokers.size → (r.broker b).closed = false := by
    intro b hb
    rw [hsize] at hb
    obtain rfl | rfl : b = 0 ∨ b = 1 := by omega
    · exact hfirst
    · exact hsecond
  have hknown : "b" ∈ (r.broker 1).topics := by rw [htopics]; exact List.mem_singleton_self _
  obtain husable | ⟨b', -, hb'⟩ := kept_unless_rejected hr (by decide) hopen hknown
  · exact ⟨r, hr, htopics, hnames, husable⟩
  · rw [hrejections] at hb'
    simp at hb'

/-- A broker without a slot has a topic deleted that it found on the log, where another broker uses
it: that broker still knows the topic, but its records are refused and its lane is at the end. -/
theorem rejection_deletes_known : ∃ r, (new 4).after (twoBrokers ++ raceBeside "b") = some r ∧
    (∀ a ∈ twoBrokers ++ raceBeside "b", a.leavesTopics = true) ∧
    (r.broker 0).closed = false ∧ (r.broker 1).closed = false ∧
    (r.broker 1).topics = ["b"] ∧ r.log.partitionCount "b" = none ∧
    (∀ key value, r.log.produce "b" key value = .error (.unknownTopic "b")) ∧
    ∃ l, r.lanes.find? 0 = some l ∧ l.broker = 1 ∧ l.topic = "b" ∧
      r.log.read l.reader.cursor = .ended := by
  have hrun : ((new 4).after (twoBrokers ++ raceBeside "b")).map (fun r => ((r.broker 0).closed,
      (r.broker 1).closed, (r.broker 1).topics, r.log.partitionCount "b", r.log.closed)) =
      some (false, false, ["b"], none, false) := by decide +kernel
  have hlane : ((new 4).after (twoBrokers ++ raceBeside "b")).bind (fun r =>
      (r.lanes.find? 0).map fun l => (l.broker, l.topic, r.log.read l.reader.cursor)) =
      some (1, "b", .ended) := by decide +kernel
  obtain ⟨r, hr, heq⟩ := Option.map_eq_some_iff.1 hrun
  rw [hr, Option.bind_some] at hlane
  obtain ⟨l, hl, heq'⟩ := Option.map_eq_some_iff.1 hlane
  simp only [Prod.mk.injEq] at heq heq'
  obtain ⟨hfirst, hsecond, htopics, hcount, hlog⟩ := heq
  obtain ⟨hbroker, htopic, hread⟩ := heq'
  refine ⟨r, hr, by decide, hfirst, hsecond, htopics, hcount, fun key value => ?_, l, hl, hbroker,
    htopic, hread⟩
  have hnone : r.log.current? "b" = none := by simpa [Log.partitionCount] using hcount
  simp only [Log.produce, Log.find, hlog, hnone]
  rfl

end Relay
end EventRelay
