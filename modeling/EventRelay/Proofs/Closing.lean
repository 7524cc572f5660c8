import EventRelay.Proofs.Closing.Registered
/-!
Closing a broker is final, whatever was under way when it was told to close. Main statement:
`close_is_final`; `Sealed.next` is the step and `Sealed.run` the run of what remains so for ever.
-/
namespace EventRelay

/-- Whether a call waits for its topic to be created or for readers on it. -/
def Stage.seeks : Stage → Bool
  | .creating .. | .opening .. => true
  | _ => false

instance (stage : Stage) (q : Request) : Decidable (stage.Begins q) :=
  match stage with
  | .queued 0 q' => decidable_of_iff (q' = q)
      ⟨fun h => h ▸ .queued q', fun h => by cases h; rfl⟩
  | .delayed n q' => decidable_of_iff (q' = q)
      ⟨fun h => h ▸ .delayed n q', fun h => by cases h; rfl⟩
  | .queued (_ + 1) _ | .creating .. | .opening .. | .producing .. | .draining _ | .closing _
  | .finished _ => isFalse nofun

namespace Relay

def Starts (r : Relay) (id b : Nat) (q : Request) : Prop :=
  ∃ c, r.calls.find? id = some c ∧ c.broker = b ∧ c.stage.Begins q

instance (r : Relay) (id b : Nat) (q : Request) : Decidable (r.Starts id b q) :=
  decidable_of_iff ((r.calls.find? id).any fun c => c.broker = b ∧ c.stage.Begins q)
    (by simp only [Starts, Option.any_eq_true, decide_eq_true_eq])

/-- Broker `b` is closed and has no lanes, and no call on it can still enroll a topic. -/
structure Sealed (r : Relay) (b : Nat) : Prop where
  opened : b < r.brokers.size
  closed : (r.broker b).closed = true
  unmanned : ∀ i l, r.lanes.find? i = some l → l.broker ≠ b
  settled : ∀ id stage, r.calls.find? id = some ⟨b, stage⟩ → stage.seeks = false

/-- What can be said of broker `b` at any moment after it was told to close. -/
structure Final (r : Relay) (b : Nat) : Prop where
  closed : (r.broker b).closed = true
  /-- A publication is turned down, and nothing else happens. -/
  publish : ∀ id item rest, r.Starts id b (.publish (item :: rest)) →
    r.act (.step (.call id) .proceed) = some (r.fail id b .closed)
  /-- So is the next one of a batch, when the log has taken the one before. -/
  batch : ∀ id item next rest acks d ack log,
    r.calls.find? id = some ⟨b, .producing item (next :: rest) acks ⟨d, none⟩⟩ →
    r.log.produce item.channel.topic item.channel.name item.payload = .ok (ack, log) →
    let taken := r.setBroker b { r.broker b with published := (r.broker b).published + 1 }
    r.act (.step (.call id) .proceed) = some ({ taken with log }.fail id b .closed)
  /-- A topic is known or it is turned down, and nothing else happens. -/
  ensure : ∀ id topic, r.Starts id b (.ensure topic) →
    r.act (.step (.call id) .proceed) = some (r.answer id b
      (if topic ∈ (r.broker b).topics then .ensured false else .failed .closed))
  /-- A lane that is left stops at once, also one that waits before it reads again. -/
  lanes : ∀ i l, r.lanes.find? i = some l → l.broker = b → r.readiness (.lane i) = .now .stop ∧
    r.act (.step (.lane i) .stop) = some { r with lanes := r.lanes.erase i }
  /-- There is none when no job can go on before some timer is over. -/
  unmanned : r.enabled = [] →
    (∀ i l, r.lanes.find? i = some l → l.broker ≠ b) ∧ (r.stats b).lanes = 0
  /-- If then no call seeks a topic, there never is one again. -/
  forever : r.enabled = [] →
    (∀ id stage, r.calls.find? id = some ⟨b, stage⟩ → stage.seeks = false) →
    ∀ acts s, r.after acts = some s → s.Sealed b ∧ (s.stats b).lanes = 0

section
variable {r s : Relay} {retention : Nat} {hist : List (Nat × Record)} {b : Nat}

/-! ### What a closed broker answers -/

theorem Starts.act {id : Nat} {q : Request} (h : r.Starts id b q) :
    r.act (.step (.call id) .proceed) = some (r.start id b q) := by
  obtain ⟨⟨_, stage⟩, hc, rfl, hbegins⟩ := h
  rw [act_call hc]
  cases hbegins <;> rfl

theorem publishNext_of_closed (hc : (r.broker b).closed = true) (id : Nat) (item : Publication)
    (rest : List Publication) (acks : List Ack) :
    r.publishNext id b (item :: rest) acks = r.fail id b .closed := by
  simp only [publishNext, hc, if_true]

theorem ensureTopic_of_closed (hc : (r.broker b).closed = true) (id : Nat) (topic : String) :
    r.ensureTopic id b topic .answer = r.answer id b
      (if topic ∈ (r.broker b).topics then .ensured false else .failed .closed) := by
  simp only [ensureTopic, hc, if_true]
  by_cases hk : topic ∈ (r.broker b).topics
  · simp only [if_pos hk, topicReady]
  · simp only [if_neg hk, fail]

theorem start_close (hb : b < r.brokers.size) (id : Nat) :
    b < (r.start id b .close).brokers.size ∧ ((r.start id b .close).broker b).closed = true := by
  rw [start, closeBroker]
  by_cases ho : (r.broker b).closed = true
  · simp only [if_pos ho]
    exact ⟨hb, ho⟩
  · simp only [if_neg ho]
    have hset := r.broker_setBroker hb { r.broker b with closed := true, crews := .empty } b
    rw [if_pos rfl] at hset
    exact ⟨by rw [setStage, size_setBroker]; exact hb, congrArg Broker.closed hset⟩

/-! ### What a closed broker takes up -/

theorem asks_seeks {k : Broker} {t : String} {p : Purpose} {stage : Stage}
    (h : Asks k t p stage) (hs : stage.seeks = true) : k.closed = false := by
  cases h with
  | known hk hr => cases hr <;> cases hs
  | creates hk hc hv hf w => exact hc
  | closed | invalid | full => cases hs

theorem publishes_seeks {k : Broker} {items : List Publication} {acks : List Ack} {stage : Stage}
    (h : Publishes k items acks stage) (hs : stage.seeks = true) : k.closed = false := by
  cases h with
  | asks item rest _ hc hv ha => exact hc
  | done | closed | invalid => cases hs

theorem CallStep.seeks {id : Nat} {sig : Signal} {stage stage' : Stage}
    (hstep : CallStep r id b sig stage s) (hs : s.calls.find? id = some ⟨b, stage'⟩)
    (hseeks : stage'.seeks = true) : stage.seeks = true ∨ (r.broker b).closed = false := by
  cases hstep with
  | moves hσ hm =>
    rw [find?_goes] at hs
    cases hs
    cases hm with
    | ensures hb ha => exact .inr (asks_seeks ha hseeks)
    | publishes hb hp => exact .inr (publishes_seeks hp hseeks)
    | knows => exact .inl rfl
    | delays | closes | fails | expires | createFails | tailFails | produceFails | drains =>
      cases hseeks
  | closes hb ho => exact .inr ho
  | produces hσ hl hp =>
    rw [find?_goes] at hs
    cases hs
    exact .inr (publishes_seeks hp hseeks)
  | creates | opens | enrolls | rejects => exact .inl rfl
  | closesLog => rw [find?_goes] at hs; cases hs; cases hseeks

theorem Sealed.next (hv : r.Valid retention hist) (h : r.Sealed b) {a : Action}
    (hc : Change r a s) : s.Sealed b := by
  have hlater := hv.later hc
  refine ⟨Nat.lt_of_lt_of_le h.opened hlater.size, hlater.closed b h.opened h.closed,
    fun i l hi => ?_, fun id stage hid => ?_⟩
  · obtain ⟨-, hold⟩ | ⟨id, b', topic, purpose, opened, last, stage, hadmits⟩ := hc.lanes_or hv
    · obtain ⟨k, hk, hkl⟩ := hold i l hi
      rw [hkl.broker]
      exact h.unmanned i k hk
    · obtain ⟨d, hcall⟩ := hadmits.call
      obtain ⟨j, rd, -, -, rfl⟩ | hr := hadmits.effect.lane_cases hi
      · intro hb
        subst hb
        exact Bool.noConfusion (h.settled id _ hcall)
      · exact h.unmanned i l hr
  · obtain hold | ⟨n, q, rfl⟩ | ⟨sig, stage₀, -, hold, hstep⟩ := hc.call_cases hv hid
    · exact h.settled id stage hold
    · rfl
    · by_contra hseeks
      obtain hbefore | hopen := hstep.seeks hid (by simpa using hseeks)
      · rw [h.settled id stage₀ hold] at hbefore
        cases hbefore
      · rw [h.closed] at hopen
        cases hopen

theorem Sealed.run (hv : r.Valid retention hist) (h : r.Sealed b) {acts : List Action}
    (hr : r.after acts = some s) : s.Sealed b := by
  induction hr using after_induct with
  | start => exact h
  | next acts q a s hq ha ih =>
    have hvq := (hv.run hq).1
    exact ih.next hvq (hvq.change ha)

theorem unmanned_of_enabled (h : r.enabled = []) (hclosed : (r.broker b).closed = true) (i : Nat)
    (l : Lane) (hi : r.lanes.find? i = some l) : l.broker ≠ b := by
  intro hb
  have hstop : (.lane i, .stop) ∈ r.enabled := by
    refine List.mem_filterMap.2 ⟨.lane i, ?_, ?_⟩
    · simp only [jobs, List.mem_append, List.mem_map]
      exact .inl (.inr ⟨i, Table.mem_keys.2 ⟨l, hi⟩, rfl⟩)
    · simp only [readiness, hi, Option.elim_some, laneReadiness, isCancelled, hb, hclosed,
        Bool.or_true, if_true]
  rw [h] at hstop
  cases hstop

end

theorem final_of_closed {retention : Nat} {acts : List Action} {r : Relay} {b : Nat}
    (h : (new retention).after acts = some r) (hb : b < r.brokers.size)
    (hclosed : (r.broker b).closed = true) : r.Final b where
  closed := hclosed
  publish id item rest hstart := by
    rw [hstart.act]
    exact congrArg some (publishNext_of_closed hclosed id item rest [])
  batch id item next rest acks d ack log hc hl := by
    have hstill : ({ r.setBroker b { r.broker b with
        published := (r.broker b).published + 1 } with log } : Relay).broker b =
        { r.broker b with published := (r.broker b).published + 1 } :=
      (r.broker_setBroker hb _ b).trans (if_pos rfl)
    simp only [act_call hc, proceedCall, reach, hl, bind, Except.bind, pure, Except.pure]
    rw [publishNext_of_closed (by rw [hstill]; exact hclosed)]
  ensure id topic hstart := by
    rw [hstart.act]
    exact congrArg some (ensureTopic_of_closed hclosed id topic)
  lanes i l hi hl := by
    have hcancelled : r.isCancelled l = true := by
      rw [isCancelled, hl, hclosed, Bool.or_true]
    constructor
    · simp only [readiness, hi, Option.elim_some, laneReadiness, hcancelled, if_true]
    · simp only [act, step, stepLane, stepLaneOver, hi, Option.bind_eq_bind, Option.bind_some,
        hcancelled, if_true]
      rfl
  unmanned hnone :=
    have hlanes := unmanned_of_enabled hnone hclosed
    ⟨hlanes, stats_lanes (crewed_of_after h) hlanes⟩
  forever hnone hsettled acts' s hs := by
    have hsealed : r.Sealed b := ⟨hb, hclosed, unmanned_of_enabled hnone hclosed, hsettled⟩
    have hlast := hsealed.run (valid_of_after h) hs
    have hall : (new retention).after (acts ++ acts') = some s := by
      rw [after_append, h]
      exact hs
    exact ⟨hlast, stats_lanes (crewed_of_after hall) hlast.unmanned⟩

/-- Whatever was under way when a broker was told to close, at every moment from then on: it takes
up no publication and no topic any more, lanes that are left or started late stop at once, so that
none is there when no job can go on, and if no call seeks a topic then, none is started again. -/
theorem close_is_final {retention : Nat} {acts acts' : List Action} {r s t : Relay}
    (h : (new retention).after acts = some r) {id b : Nat} (hb : b < r.brokers.size)
    (hstart : r.Starts id b .close) (hs : r.act (.step (.call id) .proceed) = some s)
    (ht : s.after acts' = some t) : t.Final b := by
  have hclosed : b < s.brokers.size ∧ (s.broker b).closed = true := by
    rw [hstart.act, Option.some.injEq] at hs
    rw [← hs]
    exact start_close hb id
  have hrun : (new retention).after (acts ++ [.step (.call id) .proceed]) = some s :=
    after_concat.2 ⟨r, h, hs⟩
  have hall : (new retention).after (acts ++ [.step (.call id) .proceed] ++ acts') = some t := by
    rw [after_append, hrun]
    exact ht
  have hlater := ((valid_of_after hrun).run ht).2
  exact final_of_closed hall (Nat.lt_of_lt_of_le hclosed.1 hlater.size)
    (hlater.closed b hclosed.1 hclosed.2)

/-- A broker is told to close while one call waits for its reader and a lane waits to read again. -/
def lateEnsure : List Action :=
  [.addRegistry 1, .addBroker { workers := 1, maxTopics := 2 } 0,
    .script (({} : Script).addReads "a" 0 [.failure "unreachable"]),
    .submit 0 (.ensure "a") 0, .submit 0 (.ensure "b") 0, .submit 0 .close 0,
    .step (.call 0) .proceed, .step (.call 0) .proceed, .step (.call 0) .proceed,
    .step (.lane 0) .proceed, .step (.call 1) .proceed, .step (.call 1) .proceed]

def lateStop : List Action :=
  [.step (.lane 0) .stop, .step (.lane 1) .stop, .step (.call 2) .proceed,
    .step (.call 2) .proceed]

theorem close_is_final_of_lateEnsure : ∃ r s t u, (new 4).after lateEnsure = some r ∧
    r.act (.step (.call 2) .proceed) = some s ∧ s.after [.step (.call 1) .proceed] = some t ∧
    t.response? 1 = some (.ensured true) ∧ t.lanes.keys = [0, 1] ∧ t.Final 0 ∧
    t.after lateStop = some u ∧ u.enabled = [] ∧ (u.stats 0).lanes = 0 := by
  have hstart : ((new 4).after lateEnsure).map (fun r =>
      (r.brokers.size, decide (r.Starts 2 0 .close))) = some (1, true) := by decide +kernel
  have hresumed : ((new 4).after (lateEnsure ++ [.step (.call 2) .proceed] ++
      [.step (.call 1) .proceed])).map (fun t => (t.response? 1, t.lanes.keys)) =
      some (some (.ensured true), [0, 1]) := by decide +kernel
  have hend : ((new 4).after (lateEnsure ++ [.step (.call 2) .proceed] ++
      [.step (.call 1) .proceed] ++ lateStop)).map (fun u => u.enabled) = some [] := by
    decide +kernel
  obtain ⟨t, ht, heq⟩ := Option.map_eq_some_iff.1 hresumed
  obtain ⟨u, hu, henabled⟩ := Option.map_eq_some_iff.1 hend
  obtain ⟨s, hs, hlast⟩ := after_concat.1 ht
  obtain ⟨r, hr, hclose⟩ := after_concat.1 hs
  rw [after_append, ht, Option.bind_some] at hu
  rw [hr, Option.map_some, Option.some.injEq, Prod.mk.injEq, decide_eq_true_eq] at hstart
  have hsize : 0 < r.brokers.size := by rw [hstart.1]; decide
  have hafter : s.after [.step (.call 1) .proceed] = some t := by rw [after, hlast]; rfl
  have hall : s.after ([.step (.call 1) .proceed] ++ lateStop) = some u := by
    rw [after_append, hafter]
    exact hu
  have hfinal := close_is_final hr hsize hstart.2 hclose hall
  simp only [Prod.mk.injEq] at heq
  exact ⟨r, s, t, u, hr, hclose, hafter, heq.1, heq.2,
    close_is_final hr hsize hstart.2 hclose hafter, hu, henabled,
    (hfinal.unmanned henabled).2⟩

end Relay
end EventRelay
