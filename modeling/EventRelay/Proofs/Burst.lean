import EventRelay.Proofs.Burst.Settling
/-!
The exact outcome of a burst: the log keeps the newest records of each partition, the mailboxes keep
the oldest of what gets past it. Main statement: `burst_outcome`.
-/
namespace EventRelay
namespace Relay

def burst (b id : Nat) (items : List Publication) (n : Nat) (is : List Nat) : List Action :=
  .submit b (.publish items) 0 :: (turns id n ++ (readings is ++ [.collect id]))

section
variable {r q s : Relay} {b n : Nat} {items : List Publication} {acks : List Ack} {is : List Nat}

theorem after_burst (hq : (r.submit b (.publish items) 0).2.after (turns r.nextCall n) = some q)
    (hs : q.after (readings is) = some s) :
    r.after (burst b r.nextCall items n is) = some (s.collect r.nextCall).2 := by
  rw [burst, after, act, Option.bind_some, after_append, hq, Option.bind_some, after_append, hs]
  rfl

theorem observe_burst {α : Type} {f : Relay → Action → List α}
    (hq : (r.submit b (.publish items) 0).2.after (turns r.nextCall n) = some q)
    (hs : q.after (readings is) = some s) (hsubmit : f r (.submit b (.publish items) 0) = [])
    (hcollect : f s (.collect r.nextCall) = []) : r.observe f (burst b r.nextCall items n is) =
      (r.submit b (.publish items) 0).2.observe f (turns r.nextCall n) ++
        q.observe f (readings is) := by
  have hlast : s.observe f [.collect r.nextCall] = [] := by
    rw [observe, hcollect]
    rfl
  rw [burst, observe, hsubmit, List.nil_append, act, Option.elim_some, observe_append f hq,
    observe_append f hs, hlast, List.append_nil]

theorem handed_burst (hq : (r.submit b (.publish items) 0).2.after (turns r.nextCall n) = some q)
    (hs : q.after (readings is) = some s) :
    r.observe handed (burst b r.nextCall items n is) = q.observe handed (readings is) := by
  have hnone : (r.submit b (.publish items) 0).2.observe handed (turns r.nextCall n) = [] :=
    observe_eq_nil fun v a ha => by rw [List.eq_of_mem_replicate ha]; rfl
  rw [observe_burst hq hs rfl rfl, hnone, List.nil_append]

theorem history_burst (hq : (r.submit b (.publish items) 0).2.after (turns r.nextCall n) = some q)
    (hs : q.after (readings is) = some s) : r.history (burst b r.nextCall items n is) =
      (r.submit b (.publish items) 0).2.history (turns r.nextCall n) := by
  have hnone : q.observe appended (readings is) = [] := observe_eq_nil fun v a ha => by
    obtain ⟨i, -, rfl⟩ := List.mem_map.1 ha
    rfl
  rw [history, observe_burst hq hs rfl rfl, hnone, List.append_nil]

theorem collect_calls (s : Relay) (id : Nat) : ∃ calls, (s.collect id).2 = { s with calls } ∧
    ∀ j c, calls.find? j = some c → s.calls.find? j = some c := by
  unfold Relay.collect
  split
  · exact ⟨_, rfl, fun j c hc => (Table.find?_erase_eq_some.1 hc).2⟩
  · exact ⟨s.calls, rfl, fun j c hc => hc⟩

theorem response_of_collect {id : Nat} {answer : Response}
    (h : (s.collect id).1 = some answer) : s.response? id = some answer := by
  unfold Relay.collect at h
  split at h
  · rename_i hresponse
    rw [hresponse]
    exact h
  · cases h

theorem Idle.collect (h : s.Idle) (id : Nat) : (s.collect id).2.Idle := by
  obtain ⟨calls, heq, hsub⟩ := s.collect_calls id
  rw [heq]
  intro j
  cases j with
  | call j =>
    have hj := h (.call j)
    rw [readiness] at hj ⊢
    cases hc : calls.find? j with
    | none => rfl
    | some c =>
      rw [hsub j c hc] at hj
      exact hj
  | removal j => exact h (.removal j)
  | lane j => exact h (.lane j)
  | feed j => exact h (.feed j)

/-- `acts` lead from `r` to `s` and spread a batch that is published on broker `b` and answered with
`acks`. -/
structure Spreads (r s : Relay) (b retention : Nat) (batch : List (Channel × Event))
    (acks : List Ack) (acts : List Action) : Prop where
  run : r.after acts = some s
  /-- The log takes the records of the batch, and no others. -/
  appended : (r.history acts).map Prod.snd =
    List.zipWith Publication.record (publications batch) acks
  /-- Of those in one partition the last are handed over, as many as its window holds. -/
  windowed : Windowed (windowSize retention)
    (List.zipWith Publication.record (publications batch) acks) (r.observe handed acts)
  target : ∀ e ∈ r.observe handed acts, e.broker = b ∧ e.registry = (r.broker b).registry
  arrives : ∀ c, eventsFor ((r.observe handed acts).map fun e => (e.channel, e.payload)) c =
    arriving (r.broker b).config.workers (windowSize retention) batch c

section
variable {retention : Nat} {acts : List Action}

theorem Filled.routed (h : Filled retention acts r b items acks n q) :
    Routed (r.broker b).config.workers items acks := by
  intro rec hrec
  rw [← (h.poised.published h.run h.answered).2] at hrec
  obtain ⟨⟨i, rec'⟩, hmem, rfl⟩ := List.mem_map.1 hrec
  exact (h.poised.routed h.run hmem).2.2

theorem Filled.windowed (h : Filled retention acts r b items acks n q)
    (hs : q.after (readings is) = some s) (hidle : s.Idle) : Windowed (windowSize retention)
      (List.zipWith Publication.record items acks) (q.observe handed (readings is)) := by
  rw [← (h.poised.published h.run h.answered).2]
  exact h.poised.window h.run (h.poised.reading h.run) hs hidle

theorem Filled.arrives {batch : List (Channel × Event)}
    (h : Filled retention acts r b (publications batch) acks n q)
    (hfits : ∀ x ∈ batch, x.2.Fits) (hs : q.after (readings is) = some s) (hidle : s.Idle)
    (c : Channel) :
    eventsFor ((q.observe handed (readings is)).map fun e => (e.channel, e.payload)) c =
      arriving (r.broker b).config.workers (windowSize retention) batch c := by
  have hlength := (h.poised.published h.run h.answered).1
  rw [publications, List.length_map] at hlength
  exact eventsFor_of_window hfits hlength h.routed (h.windowed hs hidle) c

theorem Filled.spreads {batch : List (Channel × Event)}
    (h : Filled retention acts r b (publications batch) acks n q)
    (hfits : ∀ x ∈ batch, x.2.Fits) (hs : q.after (readings is) = some s) (hidle : s.Idle) :
    r.Spreads (s.collect r.nextCall).2 b retention batch acks
      (burst b r.nextCall (publications batch) n is) where
  run := after_burst h.run hs
  appended := by
    rw [history_burst h.run hs]
    exact (h.poised.published h.run h.answered).2
  windowed := by
    rw [handed_burst h.run hs]
    exact h.windowed hs hidle
  target := by
    rw [handed_burst h.run hs, ← h.registry]
    exact (h.readOn hs).2.1.target
  arrives := by
    rw [handed_burst h.run hs]
    exact h.arrives hfits hs hidle

end
end
end Relay

namespace Timeline
open Relay

/-- What comes of a batch that is published on broker `b` and answered with `acks`: `t` has become
`u`. -/
structure Bursts (t u : Timeline) (b retention : Nat) (batch : List (Channel × Event))
    (acks : List Ack) : Prop where
  idle : u.relay.Idle
  rests : u.ready = []
  acked : acks.length = batch.length
  routed : Routed (t.relay.broker b).config.workers (publications batch) acks
  /-- The call takes its steps, and then lanes take theirs. -/
  run : ∃ n is, t.relay.Spreads u.relay b retention batch acks
    (burst b t.relay.nextCall (publications batch) n is)
  /-- A subscriber gets the first of what arrives for its channel, as many as it has room for. -/
  received : ∀ c id k, t.relay.attached? (t.relay.broker b).registry c id = some k →
    u.relay.attached? (t.relay.broker b).registry c id = some k ∧
    ∃ m, t.relay.mailboxes.get? k = some m ∧ u.relay.mailboxes.get? k = some { m with
      buffer := m.buffer ++ (arriving (t.relay.broker b).config.workers (windowSize retention)
        batch c).take m.room }
  delivered : (u.relay.stats b).delivered = (t.relay.stats b).delivered + UInt64.ofNat
    ((t.relay.registry (t.relay.broker b).registry).attached.map fun e =>
      min ((t.relay.exchange (t.relay.broker b).registry).room e)
        (arriving (t.relay.broker b).config.workers (windowSize retention) batch e.1).length).sum
  /-- What arrives for those who have no room left is refused. -/
  refused : (u.relay.stats b).refused = (t.relay.stats b).refused + UInt64.ofNat
    ((t.relay.registry (t.relay.broker b).registry).attached.map fun e =>
      (arriving (t.relay.broker b).config.workers (windowSize retention) batch e.1).length -
        (t.relay.exchange (t.relay.broker b).registry).room e).sum
  published : (u.relay.stats b).published =
    (t.relay.stats b).published + UInt64.ofNat batch.length

section
variable {retention : Nat} {acts : List Action} {b : Nat} {items : List Publication}
  {acks : List Ack} {t u : Timeline}

theorem Steps.answer {id : Nat} {answer answer' : Response} {hist : List (Nat × Record)}
    (h : t.Steps u) (hv : t.relay.Valid retention hist) (hn : t.relay.Numbered)
    (hc : t.relay.calls.find? id = some ⟨b, .finished answer⟩)
    (hu : u.relay.response? id = some answer') : answer = answer' := by
  obtain ⟨steps, hsteps⟩ := h
  obtain ⟨b', hend⟩ := finished_of_response hu
  have hsame := ((stands_answer hv hn hc hsteps).stage b' _ hend).2
  cases hsame
  rfl

theorem filled_of_perform (h : Poised retention acts t.relay b) (hready : t.ready = [])
    (hp : t.perform b (.publish items) = (some (.published acks), u)) :
    ∃ n is q s, Filled retention acts t.relay b items acks n q ∧ q.after (readings is) = some s ∧
      s.Idle ∧ u.ready = [] ∧ u.relay = (s.collect t.relay.nextCall).2 := by
  let t₁ := t.change (t.relay.submit b (.publish items) 0).2
  let total := t₁.relay.stepBound + t₁.ready.length
  have hbound := enough t.relay (size_of_open h.isOpen) items
  obtain ⟨haligned, hgoes⟩ := starts h hready items
  obtain ⟨k, n, answer, hk, hka, hq, hc⟩ := finish (t := t₁) (n := 0) h _ haligned rfl
    (Table.find?_insert_eq_some.2 (.inl ⟨rfl, rfl⟩)) hgoes (Nat.le_refl _)
  have hroom : k + (items.length + 1) ≤ total :=
    Nat.le_trans (Nat.le_trans (Nat.add_le_add_right hk _) hbound) (Nat.le_add_right _ _)
  have hsettle : t₁.settle = (t₁.run k).run (total - k) := by
    rw [← run_add, Nat.add_sub_cancel' (by omega)]
    rfl
  -- The answer that is taken in the end is the one that the call got.
  have hsteps : (t₁.run k).Steps (t₁.await [t.relay.nextCall]) := by
    rw [await, hsettle]
    exact (steps_run _ _).trans (steps_passUntilDone _ _ _)
  have hanswer : answer = .published acks :=
    hsteps.answer (valid_of_after (h.after hq)) (numbered_of_after (h.after hq)) hc
      (response_of_collect (congrArg Prod.fst hp))
  subst hanswer
  have hfilled : Filled retention acts t.relay b items acks n (t₁.run k).relay := ⟨h, hq, hc⟩
  obtain ⟨is, hs, hrests, hidle⟩ := settles_of_filled hfilled hka rfl (m := total - k) (by omega)
  rw [← hsettle] at hs hrests hidle
  have hdone : t₁.await [t.relay.nextCall] = t₁.settle := by
    refine await_of_settled ?_
    have hcalls := (hfilled.readOn hs).2.1.calls
    rw [response?, hcalls, hc]
    rfl
  have hu : u = { t₁.settle with relay := (t₁.settle.relay.collect t.relay.nextCall).2 } := by
    rw [← hdone]
    exact (congrArg Prod.snd hp).symm
  subst hu
  exact ⟨n, is, _, _, hfilled, hs, hidle, hrests, rfl⟩

end

/-- A batch is published on an idle broker that has its log to itself, on an executor that runs the
call to its end before a lane reads, and every publication succeeds. Then of the records that the
batch put into a partition the newest are handed over, as many as the log keeps; of those for its
channel each subscriber that nobody reads gets the oldest, as many as it has room for; and the
counters tell how many that were, how many were refused, and how many were published. -/
theorem burst_outcome {retention : Nat} {acts : List Action} {b : Nat} {t u : Timeline}
    {batch : List (Channel × Event)} {acks : List Ack} (h : Poised retention acts t.relay b)
    (hready : t.ready = []) (hfits : ∀ x ∈ batch, x.2.Fits)
    (hp : t.perform b (.publish (publications batch)) = (some (.published acks), u)) :
    t.Bursts u b retention batch acks := by
  obtain ⟨n, is, q, s, hfilled, hs, hidle, hrests, hu⟩ := filled_of_perform h hready hp
  have hlength := (h.published hfilled.run hfilled.answered).1
  rw [publications, List.length_map] at hlength
  have hserves := hfilled.serves hs
  rw [funext (hfilled.arrives hfits hs hidle)] at hserves
  obtain ⟨calls, hcalls, -⟩ := s.collect_calls t.relay.nextCall
  have hstats : u.relay.stats b = s.stats b := by rw [hu, hcalls]; rfl
  have hbroker : s.broker b = q.broker b := by rw [broker, broker, (hfilled.readOn hs).2.1.brokers]
  have hregistry : (s.broker b).registry = (t.relay.broker b).registry := by
    rw [hbroker, hfilled.registry]
  refine ⟨hu ▸ hidle.collect _, hrests, hlength, hfilled.routed,
    ⟨n, is, hu ▸ hfilled.spreads hfits hs hidle⟩, fun c id k hk => ⟨?_, ?_⟩, ?_, ?_, ?_⟩
  · rw [hu, hcalls]
    exact (Exchange.attached?_of_shards hserves.shards c id).trans hk
  · have hsupplied := supplied_of_after h.run
    obtain ⟨m, hm⟩ : ∃ m, t.relay.mailboxes.get? k = some m :=
      ⟨_, Array.getElem?_eq_getElem (hsupplied.numbered _ (hsupplied.attached _ c id k hk))⟩
    refine ⟨m, hm, ?_⟩
    have hbox := hserves.boxes c id k hk
    rw [show (t.relay.exchange (t.relay.broker b).registry).boxes.get? k = some m from hm] at hbox
    rw [hu, hcalls]
    exact hbox
  · rw [hstats]
    simp only [Relay.stats, Registry.stats, hregistry]
    exact hserves.delivered
  · rw [hstats]
    simp only [Relay.stats, Registry.stats, hregistry]
    exact hserves.refused
  · rw [hstats]
    simp only [Relay.stats, hbroker, hfilled.counter, publications, List.length_map]

/-- Two subscribers on channels that share a partition, each with room for one message. -/
def twoSubscribers : List Action :=
  [.addRegistry 1, .addBroker { workers := 1, maxTopics := 1, subscriberBuffer := 1 } 0,
    .subscribe 0 ⟨"a", "k"⟩, .subscribe 0 ⟨"a", "x"⟩]

def threeEvents : List (Channel × Event) :=
  [(⟨"a", "x"⟩, .object .create 1), (⟨"a", "k"⟩, .object .create 2),
    (⟨"a", "k"⟩, .object .create 3)]

/-- The log keeps two records: the first event is lost there, the last one for want of room. -/
theorem burst_outcome_of_twoSubscribers : ∃ r acks u, (new 2).after twoSubscribers = some r ∧
    ({ relay := r } : Timeline).perform 0 (.publish (publications threeEvents)) =
      (some (.published acks), u) ∧
    ({ relay := r } : Timeline).Bursts u 0 2 threeEvents acks ∧
    u.relay.mailboxes.buffer 0 = [.object .create 2] ∧ u.relay.mailboxes.buffer 1 = [] ∧
    (u.relay.stats 0).delivered = 1 ∧ (u.relay.stats 0).refused = 1 ∧
    (u.relay.stats 0).published = 3 := by
  have hstart : ((new 2).after twoSubscribers).map (fun r => (decide r.Idle, (r.broker 0).closed,
      r.lanes.size, r.feeds.size, r.script.calls.size, r.script.reads.size)) =
      some (true, false, 0, 0, 0, 0) := by decide +kernel
  obtain ⟨r, hr, heq⟩ := Option.map_eq_some_iff.1 hstart
  simp only [Prod.mk.injEq, decide_eq_true_eq] at heq
  obtain ⟨hidle, hopen, hlanes, hfeeds, hcalls, hreads⟩ := heq
  have hrun : ((new 2).after twoSubscribers).map (fun r =>
      let p := ({ relay := r } : Timeline).perform 0 (.publish (publications threeEvents))
      (p.1, p.2.relay.mailboxes.buffer 0, p.2.relay.mailboxes.buffer 1, p.2.relay.stats 0)) =
      some (some (.published [⟨0, 0⟩, ⟨0, 1⟩, ⟨0, 2⟩]), [.object .create 2], [],
        ⟨1, 1, 2, 2, 3, 1, 1, 0⟩) := by decide +kernel
  obtain ⟨⟨answer, u⟩, hp⟩ : ∃ p, ({ relay := r } : Timeline).perform 0
      (.publish (publications threeEvents)) = p := ⟨_, rfl⟩
  simp only [hr, Option.map_some, hp, Option.some.injEq, Prod.mk.injEq] at hrun
  obtain ⟨rfl, hfirst, hsecond, hstats⟩ := hrun
  have hnone {α β : Type} [DecidableEq α] {t : Table α β} (ht : t.size = 0) (k : α) :
      t.find? k = none := by
    rw [Table.find?, List.length_eq_zero_iff.1 ht]
    rfl
  have hended : ((new 2).observe ended twoSubscribers).length = 0 := by decide +kernel
  have hpoised : Poised 2 twoSubscribers r 0 := by
    refine ⟨hr, by decide, hopen, hidle, ⟨fun c h hh => ?_, fun k xs hk => ?_⟩, fun i l hi => ?_,
      by rw [List.length_eq_zero_iff.1 hended]; simp, fun c id k _ i f sub hf => ?_⟩
    · rw [Script.waiting, hnone hcalls] at hh
      cases hh
    · rw [hnone hreads] at hk
      cases hk
    · rw [hnone hlanes] at hi
      cases hi
    · rw [hnone hfeeds] at hf
      cases hf
  have hfits : ∀ x ∈ threeEvents, x.2.Fits := by
    intro x hx
    simp only [threeEvents, List.mem_cons, List.not_mem_nil, or_false] at hx
    obtain rfl | rfl | rfl := hx <;>
      exact ⟨by decide, by simp [Event.entries], by simp [Event.entries]⟩
  refine ⟨r, _, u, hr, hp, burst_outcome hpoised rfl hfits hp, hfirst, hsecond, ?_⟩
  rw [hstats]
  exact ⟨rfl, rfl, rfl⟩

end Timeline
end EventRelay
