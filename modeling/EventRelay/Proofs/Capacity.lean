import EventRelay.Proofs.Closing
import EventRelay.Proofs.Relay.Calls
import EventRelay.Proofs.Sharing
/-!
A topic for which a broker had no slot never gets one. Main statement: `capacity_is_permanent`;
`CallStep.vain` is the step and `Stands.vain` the run of a call that seeks such a topic.
-/
namespace EventRelay

def Request.sought : Request → Option String
  | .ensure topic => some topic
  | .publish (item :: _) => some item.channel.topic
  | _ => none

/-- The topic that a call has to be ready before it can succeed, of several the next one. -/
def Stage.sought : Stage → Option String
  | .queued _ q | .delayed _ q => q.sought
  | .creating topic .. | .opening topic .. => some topic
  | .producing _ (next :: _) .. => some next.channel.topic
  | _ => none

/-- The call seeks the topic, or it has failed. -/
def Stage.Vain (t : String) (stage : Stage) : Prop :=
  stage.sought = some t ∨ ∃ e, stage = .finished (.failed e)

/-! ### Where the error comes from -/

theorem Topic.validate_error {t : String} {e : Error} (h : Topic.validate t = .error e) :
    ∃ reason, e = .invalidTopic reason := by
  unfold validate at h
  cases hc : check t with
  | error f => rw [hc] at h; cases h; exact ⟨_, rfl⟩
  | ok u => rw [hc] at h; cases h

theorem Channel.validateName_error {name : String} {e : Error}
    (h : Channel.validateName name = .error e) : ∃ reason, e = .invalidChannel reason := by
  unfold validateName at h
  cases hc : checkName name with
  | error f => rw [hc] at h; cases h; exact ⟨_, rfl⟩
  | ok u => rw [hc] at h; cases h

theorem Log.find_error {l : Log} {t : String} {e : Error} (h : l.find t = .error e) :
    e = .closed ∨ e = .unknownTopic t := by
  unfold find at h
  split at h
  · cases h; exact .inl rfl
  · split at h
    · cases h
    · cases h; exact .inr rfl

theorem Log.tail_error_cases {l : Log} {t : String} {p : Nat} {e : Error}
    (h : l.tail t p = .error e) :
    e = .closed ∨ e = .unknownTopic t ∨ e = .unknownPartition t p := by
  unfold tail at h
  cases hf : l.find t with
  | error f =>
    rw [hf] at h
    cases h
    exact (find_error hf).imp_right .inl
  | ok x =>
    rw [hf] at h
    simp only [bind, Except.bind] at h
    split at h
    · cases h
    · cases h
      exact .inr (.inr rfl)

theorem Log.produce_ne_capacity {l : Log} {t key : String} {value : List UInt8} {m : Nat} :
    l.produce t key value ≠ .error (.topicCapacityExceeded m) := by
  intro h
  unfold produce at h
  cases hf : l.find t with
  | error e =>
    rw [hf] at h
    cases h
    obtain he | he := find_error hf <;> cases he
  | ok x => rw [hf] at h; cases h

theorem Log.create_ne_capacity {l : Log} {t : String} {n m : Nat} :
    l.create t n ≠ .error (.topicCapacityExceeded m) := by
  intro h
  unfold create at h
  cases hc : l.closed
  · cases hv : Topic.validate t with
    | error e =>
      obtain ⟨reason, rfl⟩ := Topic.validate_error hv
      simp [hc, hv] at h
      cases h
    | ok u =>
      simp only [hc, hv] at h
      by_cases hn : 0 < n
      · cases hp : l.partitionCount t with
        | none => simp [hn, hp] at h
        | some k =>
          by_cases hk : k = n
          · simp [hn, hp, hk] at h
          · simp [hn, hp, hk] at h; cases h
      · simp [hn] at h; cases h
  · simp [hc] at h; cases h

theorem Asks.capacity {k : Broker} {t : String} {purpose : Purpose} {m : Nat}
    (h : Asks k t purpose (.finished (.failed (.topicCapacityExceeded m)))) :
    k.closed = false ∧ t ∉ k.topics ∧ k.config.maxTopics ≤ k.topics.length ∧
      Topic.validate t = .ok () ∧ m = k.config.maxTopics := by
  cases h with
  | known hk hs => cases hs
  | invalid hk hc hv => obtain ⟨reason, he⟩ := Topic.validate_error hv; cases he
  | full hk hc hv hf => exact ⟨hc, hk, hf, hv, rfl⟩

theorem Publishes.capacity {k : Broker} {items : List Publication} {acks : List Ack} {m : Nat}
    (h : Publishes k items acks (.finished (.failed (.topicCapacityExceeded m)))) :
    ∃ item rest, items = item :: rest ∧ k.closed = false ∧ item.channel.topic ∉ k.topics ∧
      k.config.maxTopics ≤ k.topics.length ∧ Topic.validate item.channel.topic = .ok () ∧
      m = k.config.maxTopics := by
  cases h with
  | invalid item rest _ hc hv =>
    obtain ⟨reason, he⟩ := Channel.validateName_error hv
    cases he
  | asks item rest _ hc hv hs => exact ⟨item, rest, rfl, hs.capacity⟩

theorem Asks.exhausted {k : Broker} {t : String} {purpose : Purpose} {stage : Stage}
    (h : Asks k t purpose stage) (hk : t ∉ k.topics) (hf : k.config.maxTopics ≤ k.topics.length) :
    ∃ e, stage = .finished (.failed e) := by
  cases h with
  | known hknown hs => exact absurd hknown hk
  | closed | invalid | full => exact ⟨_, rfl⟩
  | creates hk hc hv hroom w => omega

theorem Publishes.exhausted {k : Broker} {item : Publication} {rest : List Publication}
    {acks : List Ack} {stage : Stage} (h : Publishes k (item :: rest) acks stage)
    (hk : item.channel.topic ∉ k.topics) (hf : k.config.maxTopics ≤ k.topics.length) :
    ∃ e, stage = .finished (.failed e) := by
  cases h with
  | closed | invalid => exact ⟨_, rfl⟩
  | asks item rest _ hc hv hs => exact hs.exhausted hk hf

namespace Relay

def Named (r : Relay) : Prop :=
  ∀ id b stage t, r.calls.find? id = some ⟨b, stage⟩ → stage.seeks = true →
    stage.sought = some t → Topic.validate t = .ok ()

section
variable {r s : Relay} {retention : Nat} {hist : List (Nat × Record)} {id b : Nat} {t : String}
  {sig : Signal} {stage stage' : Stage}

theorem asks_named {k : Broker} {u : String} {purpose : Purpose}
    (h : Asks k u purpose stage) (hs : stage.seeks = true) (ht : stage.sought = some t) :
    Topic.validate t = .ok () := by
  cases h with
  | known hk hr => cases hr <;> cases hs
  | creates hk hc hv hf w => cases ht; exact hv
  | closed | invalid | full => cases hs

theorem publishes_named {k : Broker} {items : List Publication} {acks : List Ack}
    (h : Publishes k items acks stage) (hs : stage.seeks = true) (ht : stage.sought = some t) :
    Topic.validate t = .ok () := by
  cases h with
  | asks item rest _ hc hv ha => exact asks_named ha hs ht
  | done | closed | invalid => cases hs

theorem CallStep.named (hstep : CallStep r id b sig stage s)
    (hs : s.calls.find? id = some ⟨b, stage'⟩) (hseeks : stage'.seeks = true)
    (ht : stage'.sought = some t) :
    Topic.validate t = .ok () ∨ stage.seeks = true ∧ stage.sought = some t := by
  cases hstep with
  | moves hσ hm =>
    rw [find?_goes] at hs
    cases hs
    cases hm with
    | ensures hb ha => exact .inl (asks_named ha hseeks ht)
    | publishes hb hp => exact .inl (publishes_named hp hseeks ht)
    | knows hl hn hk hr => cases hr <;> cases hseeks
    | delays | closes | fails | expires | createFails | tailFails | produceFails | drains =>
      cases hseeks
  | creates | opens =>
    rw [find?_goes] at hs
    cases hs
    exact .inr ⟨rfl, ht⟩
  | enrolls script hσ hl hn hk hf hr =>
    rw [find?_goes] at hs
    cases hs
    cases hr <;> cases hseeks
  | produces hσ hl hp =>
    rw [find?_goes] at hs
    cases hs
    exact .inl (publishes_named hp hseeks ht)
  | closes | rejects | closesLog =>
    rw [find?_goes] at hs
    cases hs
    cases hseeks

theorem CallStep.capacity {m : Nat} (hv : r.Valid retention hist) (hn : r.Named)
    (hc : r.calls.find? id = some ⟨b, stage⟩) (ht : stage.sought = some t)
    (hstep : CallStep r id b sig stage s)
    (hs : s.calls.find? id = some ⟨b, .finished (.failed (.topicCapacityExceeded m))⟩) :
    r.Spurns b t ∧ Topic.validate t = .ok () ∧ m = (r.broker b).config.maxTopics := by
  have hready {e : Bool} {purpose : Purpose} {x : Error} :
      ¬ Ready purpose e (.finished (.failed x)) := by
    intro hr
    cases hr
  cases hstep with
  | moves hσ hm =>
    rw [find?_goes] at hs
    cases hs
    cases hm with
    | ensures hb ha =>
      obtain ⟨ho, hk, hf, hval⟩ := ha.capacity
      cases hb <;> cases ht <;> exact ⟨⟨size_of_open ho, hk, hf⟩, hval⟩
    | publishes hb hp =>
      obtain ⟨item, rest, rfl, ho, hk, hf, hval⟩ := hp.capacity
      cases hb <;> cases ht <;> exact ⟨⟨size_of_open ho, hk, hf⟩, hval⟩
    | createFails hl => exact absurd hl Log.create_ne_capacity
    | tailFails hl => obtain he | he | he := Log.tail_error_cases hl <;> cases he
    | produceFails hl => exact absurd hl Log.produce_ne_capacity
    | knows hl hn hk hr => exact absurd hr hready
  | enrolls script hσ hl hn hk hf hr =>
    rw [find?_goes] at hs
    cases hs
    exact absurd hr hready
  | rejects hσ hl hlen hk hf =>
    rw [find?_goes] at hs
    cases hs
    cases ht
    exact ⟨⟨(hv.calls id b _ hc).1, hk, hf⟩, hn id b _ _ hc rfl rfl, rfl⟩
  | produces hσ hl hp =>
    rw [find?_goes] at hs
    cases hs
    obtain ⟨item, rest, rfl, ho, hk, hf, hval⟩ := hp.capacity
    cases ht
    exact ⟨⟨size_of_open ho, hk, hf⟩, hval⟩
  | creates | opens | closes | closesLog => rw [find?_goes] at hs; cases hs

theorem CallStep.vain (hsp : r.Spurns b t) (h : stage.Vain t)
    (hstep : CallStep r id b sig stage s) (hs : s.calls.find? id = some ⟨b, stage'⟩) :
    stage'.Vain t := by
  obtain ht | ⟨e, rfl⟩ := h
  swap
  · exact absurd hstep CallStep.unfinished
  cases hstep with
  | moves hσ hm =>
    rw [find?_goes] at hs
    cases hs
    cases hm with
    | delays => exact .inl ht
    | ensures hb ha => cases hb <;> cases ht <;> exact .inr (ha.exhausted hsp.unknown hsp.full)
    | @publishes _ _ items hb hp =>
      cases items with
      | nil => cases hb <;> cases ht
      | cons item rest =>
        cases hb <;> cases ht <;> exact .inr (hp.exhausted hsp.unknown hsp.full)
    | closes hb => cases hb <;> cases ht
    | knows hl hn hk hr => cases ht; exact absurd hk hsp.unknown
    | drains => cases ht
    | fails | expires | createFails | tailFails | produceFails => exact .inr ⟨_, rfl⟩
  | closes hb => cases hb <;> cases ht
  | creates | opens =>
    rw [find?_goes] at hs
    cases hs
    exact .inl ht
  | enrolls script hσ hl hn hk hf hr => exact absurd hf (Nat.not_lt.2 hsp.full)
  | rejects =>
    rw [find?_goes] at hs
    cases hs
    exact .inr ⟨_, rfl⟩
  | @produces item rest _ _ _ _ _ _ hσ hl hp =>
    rw [find?_goes] at hs
    cases hs
    cases rest with
    | nil => cases ht
    | cons next rest => cases ht; exact .inr (hp.exhausted hsp.unknown hsp.full)
  | closesLog => cases ht

theorem Stands.vain (hv : r.Valid retention hist) (hsp : r.Spurns b t)
    (h : r.Stands id b (Stage.Vain t)) {acts : List Action} (hr : r.after acts = some s) :
    s.Stands id b (Stage.Vain t) := by
  refine h.run hv hr fun q sig stage u stage' hocc hc hvain hstep hs => ?_
  obtain ⟨pre, post, -, hq⟩ := hocc
  obtain ⟨hvq, hlater⟩ := hv.run hq
  exact hstep.vain (hsp.later hlater hvq) hvain hs

theorem Spurns.ensureTopic (h : r.Spurns b t) (hval : Topic.validate t = .ok ()) (id : Nat)
    (purpose : Purpose) : r.ensureTopic id b t purpose = r.fail id b
      (if (r.broker b).closed then .closed
        else .topicCapacityExceeded (r.broker b).config.maxTopics) := by
  have hfull : (r.broker b).isFull = true := decide_eq_true h.full
  simp only [Relay.ensureTopic, if_neg h.unknown]
  cases (r.broker b).closed
  · simp [hval, hfull]
  · simp

end

theorem named_of_after {retention : Nat} {acts : List Action} {r : Relay}
    (h : (new retention).after acts = some r) : r.Named := by
  induction h using after_induct with
  | start =>
    intro id b stage t hc
    cases hc
  | next acts q a s hq ha ih =>
    intro id b stage t hc hseeks ht
    have hv := valid_of_after hq
    obtain hold | ⟨n, request, rfl⟩ | ⟨sig, stage₀, -, hold, hstep⟩ :=
      (hv.change ha).call_cases hv hc
    · exact ih id b stage t hold hseeks ht
    · cases hseeks
    · obtain hval | ⟨hseeks₀, ht₀⟩ := hstep.named hc hseeks ht
      · exact hval
      · exact ih id b stage₀ t hold hseeks₀ ht₀

/-- Broker `b` has `m` slots but none for the topic, and none will ever be free. -/
structure Exhausted (r : Relay) (b : Nat) (t : String) (m : Nat) : Prop where
  slots : (r.broker b).config.maxTopics = m
  full : m ≤ (r.broker b).topics.length
  unknown : t ∉ (r.broker b).topics
  /-- A call that seeks the topic seeks it until it fails. -/
  vain : ∀ id stage, r.calls.find? id = some ⟨b, stage⟩ → stage.sought = some t →
    ∀ acts s, r.after acts = some s → ∀ b' stage', s.calls.find? id = some ⟨b', stage'⟩ →
      stage'.Vain t
  /-- No publication gets past the topic. -/
  unused : ∀ id item rest acks w, r.calls.find? id = some ⟨b, .producing item rest acks w⟩ →
    item.channel.topic ≠ t
  /-- A call that asks for the topic is answered at once, and nothing else happens. -/
  starts : ∀ id, r.Starts id b (.ensure t) → r.act (.step (.call id) .proceed) =
    some (r.fail id b (if (r.broker b).closed then .closed else .topicCapacityExceeded m))
  /-- So is a publication when it asks for the topic. -/
  asks : ∀ id purpose, r.ensureTopic id b t purpose =
    r.fail id b (if (r.broker b).closed then .closed else .topicCapacityExceeded m)
  permanent : (Error.topicCapacityExceeded m).isTransient = false

theorem exhausted_of_spurns {retention : Nat} {acts : List Action} {r : Relay} {b : Nat}
    {t : String} (h : (new retention).after acts = some r) (hsp : r.Spurns b t)
    (hval : Topic.validate t = .ok ()) : r.Exhausted b t (r.broker b).config.maxTopics where
  slots := rfl
  full := hsp.full
  unknown := hsp.unknown
  vain id stage hc ht acts' s hs b' stage' hc' := by
    have hvain := (stands_of_find (numbered_of_after h) hc).mono (Q := Stage.Vain t)
      fun _ heq => by rw [heq]; exact .inl ht
    exact ((hvain.vain (valid_of_after h) hsp hs).stage b' stage' hc').2
  unused id item rest acks w hc heq := by
    have hknown := (valid_of_after h).calls id b _ hc
    subst heq
    exact hsp.unknown hknown
  starts id hstart := by
    rw [hstart.act, start, hsp.ensureTopic hval]
  asks id purpose := hsp.ensureTopic hval id purpose
  permanent := rfl

/-- When a call that seeks a topic is told that the broker has no slot left, then at every later
moment the broker is full and does not know the topic. No call that seeks it, already under way or
made later, ever succeeds, and one that starts is turned down at once, without calling the log. -/
theorem capacity_is_permanent {retention : Nat} {acts acts' : List Action} {q r s : Relay}
    (h : (new retention).after acts = some q) {id b m : Nat} {sig : Signal} {stage : Stage}
    {t : String} (hc : q.calls.find? id = some ⟨b, stage⟩) (ht : stage.sought = some t)
    (ha : q.act (.step (.call id) sig) = some r)
    (hr : r.response? id = some (.failed (.topicCapacityExceeded m)))
    (hs : r.after acts' = some s) : s.Exhausted b t m := by
  have hv := valid_of_after h
  have hrun : (new retention).after (acts ++ [.step (.call id) sig]) = some r :=
    after_concat.2 ⟨q, h, ha⟩
  have hall : (new retention).after (acts ++ [.step (.call id) sig] ++ acts') = some s := by
    rw [after_append, hrun]
    exact hs
  have hlater := (hv.later (hv.change ha)).trans ((valid_of_after hrun).run hs).2
  obtain ⟨hsp, hval, rfl⟩ : q.Spurns b t ∧ Topic.validate t = .ok () ∧
      m = (q.broker b).config.maxTopics := by
    cases hv.change ha with
    | aside hside => cases hside
    | calls hcall hstep =>
      rw [hc] at hcall
      cases hcall
      obtain ⟨stage', hcalls, -⟩ := hstep.calls hv hc
      have hnow : r.calls.find? id = some ⟨b, stage'⟩ := by
        rw [hcalls, Table.find?_insert, if_pos rfl]
      obtain ⟨b', hfinished⟩ := finished_of_response hr
      rw [hnow] at hfinished
      cases hfinished
      exact hstep.capacity hv (named_of_after h) hc ht hnow
  have hlast := exhausted_of_spurns hall (hsp.later hlater (valid_of_after hall)) hval
  rw [hlater.config b hsp.opened] at hlast
  exact hlast

/-- Two calls race for the only slot while a third waits to publish to the topic of the second. -/
def raceBesidePublish : List Action :=
  [.addRegistry 1, .addBroker { workers := 1, maxTopics := 1 } 0,
    .submit 0 (.ensure "a") 0, .submit 0 (.ensure "b") 0,
    .submit 0 (.publish [⟨⟨"b", "x"⟩, [1]⟩]) 0,
    .step (.call 0) .proceed, .step (.call 1) .proceed, .step (.call 2) .proceed,
    .step (.call 0) .proceed, .step (.call 1) .proceed,
    .step (.call 0) .proceed]

theorem capacity_is_permanent_of_race : ∃ q r s, (new 4).after raceBesidePublish = some q ∧
    q.act (.step (.call 1) .proceed) = some r ∧
    r.response? 1 = some (.failed (.topicCapacityExceeded 1)) ∧
    r.after [.step (.call 2) .proceed, .submit 0 (.ensure "b") 0] = some s ∧
    s.log.partitionCount "b" = some 1 ∧ s.Exhausted 0 "b" 1 ∧
    s.act (.step (.call 3) .proceed) = some (s.fail 3 0 (.topicCapacityExceeded 1)) := by
  have hrun : ((new 4).after (raceBesidePublish ++ [.step (.call 1) .proceed] ++
      [.step (.call 2) .proceed, .submit 0 (.ensure "b") 0])).map (fun s =>
      (s.log.partitionCount "b", decide (s.Starts 3 0 (.ensure "b")), (s.broker 0).closed)) =
      some (some 1, true, false) := by decide +kernel
  have hfailed : ((new 4).after (raceBesidePublish ++ [.step (.call 1) .proceed])).map
      (fun r => r.response? 1) = some (some (.failed (.topicCapacityExceeded 1))) := by
    decide +kernel
  have hsought : ((new 4).after raceBesidePublish).bind (fun q =>
      (q.calls.find? 1).map fun c => (c.broker, c.stage.sought)) = some (0, some "b") := by
    decide +kernel
  obtain ⟨s, hs, heq⟩ := Option.map_eq_some_iff.1 hrun
  obtain ⟨r, hr, hanswer⟩ := Option.map_eq_some_iff.1 hfailed
  rw [after_append, hr, Option.bind_some] at hs
  obtain ⟨q, hq, hstep⟩ := after_concat.1 hr
  rw [hq, Option.bind_some] at hsought
  obtain ⟨⟨b, stage⟩, hc, hcall⟩ := Option.map_eq_some_iff.1 hsought
  simp only [Prod.mk.injEq, decide_eq_true_eq] at heq hcall
  obtain ⟨hcount, hstart, hopen⟩ := heq
  obtain ⟨rfl, ht⟩ := hcall
  have hexhausted := capacity_is_permanent hq hc ht hstep hanswer hs
  have hlast := hexhausted.starts 3 hstart
  rw [hopen] at hlast
  exact ⟨q, r, s, hq, hstep, hanswer, hs, hcount, hexhausted, hlast⟩

end Relay
end EventRelay
