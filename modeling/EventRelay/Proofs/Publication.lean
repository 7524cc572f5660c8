import EventRelay.Proofs.Publication.Records
import EventRelay.Proofs.Publication.Watermarks
/-!
What a broker counts as published and what stands on the log. Main statement:
`publications_add_up`.
-/
namespace EventRelay.Relay

def Publishing (retention : Nat) (acts : List Action) (id b : Nat) (items : List Publication) :
    Prop :=
  ∃ q n, (new retention).Occurs acts q (.submit b (.publish items) n) ∧ q.nextCall = id

/-- The call `id` has appended the records of the first publications of `items`, one for each of
`acks`, where these say, and nothing else; and it raised the counter of broker `b` by one for
each. -/
structure Published (retention : Nat) (acts : List Action) (id b : Nat)
    (items : List Publication) (acks : List Ack) : Prop where
  records : ((new retention).observe (ofCall id appended) acts).map Prod.snd =
    List.zipWith Publication.record items acks
  raised : ((new retention).observe (ofCall id (raises b)) acts).foldl (· + ·) 0 =
    UInt64.ofNat acks.length

/-- How the counter of broker `b` and the log agree when `acts` have led to `r`. -/
structure AddsUp (retention : Nat) (acts : List Action) (r : Relay) (b : Nat) : Prop where
  /-- The partitions on the log hold what was appended to them, and nothing else. -/
  log : r.log.Keeps retention ((new retention).history acts)
  /-- What an action appends is one record, behind the last one of its partition of its topic. -/
  appends : ∀ a s i rec, r.act a = some s → (i, rec) ∈ r.appended a →
    r.appended a = [(i, rec)] ∧ ∃ inc inc' p, r.log.Appends s.log i rec inc inc' p
  /-- The counter goes up by what an action appends for the broker, and never otherwise. -/
  steps : ∀ a s, r.act a = some s →
    (s.broker b).published = (r.broker b).published + UInt64.ofNat (r.appendedFor b a).length
  counter : (r.broker b).published =
    UInt64.ofNat ((new retention).observe (appendedFor b) acts).length
  answered : ∀ id items acks, Publishing retention acts id b items →
    r.response? id = some (.published acks) →
    acks.length = items.length ∧ Published retention acts id b items acks
  failed : ∀ id items e, Publishing retention acts id b items →
    r.response? id = some (.failed e) →
    ∃ acks : List Ack, acks.length < items.length ∧ Published retention acts id b items acks
  total : (∀ a ∈ acts, a.isPrivate b = true) → (r.broker b).closed = false →
    (r.broker b).published = UInt64.ofNat r.log.total
  /-- A topic that the broker created and had no slot for never held a record. -/
  unused : (∀ a ∈ acts, a.isPrivate b = true) →
    ∀ t, (b, t) ∈ (new retention).observe rejections acts →
    ∀ (i : Nat) inc, r.log.incarnations[i]? = some inc → inc.topic = t →
    ∀ p ∈ inc.partitions.toList, p.next = 0

/-- Whatever calls are made on a broker, in whatever order they take their steps and whatever its
log calls meet: a publication that is acknowledged has appended one record, where its
acknowledgement says, and raised the counter by one; one that fails has done neither. So the
counter of an open broker that has its log to itself is the sum of all high watermarks. -/
theorem publications_add_up {retention : Nat} {acts : List Action} {r : Relay}
    (h : (new retention).after acts = some r) (b : Nat) : AddsUp retention acts r b := by
  have hv := valid_of_after h
  have hcounter := counter_of_after h b
  refine ⟨hv.log, fun a s i rec ha hrec => hv.appends ha hrec,
    fun a s ha => (hv.change ha).published hv b, hcounter, fun id items acks hp hr => ?_,
    fun id items e hp hr => ?_, fun hp ho => ?_,
    fun hp t ht i inc hi htopic => unused_of_rejected h hp ht hi htopic⟩
  · obtain ⟨q, n, hq, rfl⟩ := hp
    obtain ⟨acks', hcarrying⟩ := carrying_of_after h hq
    obtain ⟨b', hc⟩ := finished_of_response hr
    cases (hcarrying.stage b' _ hc).2 with
    | published hlength => exact ⟨hlength, hcarrying.records, hcarrying.raised⟩
  · obtain ⟨q, n, hq, rfl⟩ := hp
    obtain ⟨acks, hcarrying⟩ := carrying_of_after h hq
    obtain ⟨b', hc⟩ := finished_of_response hr
    cases (hcarrying.stage b' _ hc).2 with
    | failed _ hlength => exact ⟨acks, hlength, hcarrying.records, hcarrying.raised⟩
  · rw [hcounter, history_of_private h hp, total_of_private h hp ho]

/-- A call publishes twice to one topic while another creates a topic for which no slot is left, and
which is deleted then. -/
def publishBeside : List Action :=
  [.addRegistry 1, .addBroker { workers := 1, maxTopics := 1 } 0,
    .submit 0 (.publish [⟨⟨"a", "x"⟩, [1]⟩, ⟨⟨"a", "y"⟩, [2]⟩]) 0,
    .submit 0 (.publish [⟨⟨"b", "x"⟩, [3]⟩]) 0,
    .step (.call 0) .proceed, .step (.call 1) .proceed,
    .step (.call 0) .proceed, .step (.call 1) .proceed,
    .step (.call 0) .proceed, .step (.call 1) .proceed,
    .step (.call 0) .proceed, .step (.call 0) .proceed,
    .step (.removal 0) .proceed, .step (.removal 0) .proceed]

theorem publications_add_up_beside : ∃ r, (new 4).after publishBeside = some r ∧
    r.response? 0 = some (.published [⟨0, 0⟩, ⟨0, 1⟩]) ∧
    r.response? 1 = some (.failed (.topicCapacityExceeded 1)) ∧
    r.log.topicNames = ["a"] ∧ r.log.total = 2 ∧ AddsUp 4 publishBeside r 0 ∧
    (r.broker 0).published = UInt64.ofNat r.log.total := by
  have hrun : ((new 4).after publishBeside).map (fun r => (r.response? 0, r.response? 1,
      r.log.topicNames, r.log.total, (r.broker 0).closed)) =
      some (some (.published [⟨0, 0⟩, ⟨0, 1⟩]), some (.failed (.topicCapacityExceeded 1)),
        ["a"], 2, false) := by decide +kernel
  obtain ⟨r, hr, heq⟩ := Option.map_eq_some_iff.1 hrun
  simp only [Prod.mk.injEq] at heq
  obtain ⟨hfirst, hsecond, hnames, htotal, hopen⟩ := heq
  have haddsUp := publications_add_up hr 0
  exact ⟨r, hr, hfirst, hsecond, hnames, htotal, haddsUp, haddsUp.total (by decide) hopen⟩

end EventRelay.Relay
