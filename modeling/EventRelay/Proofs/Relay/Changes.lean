import EventRelay.Proofs.Relay.Asides
/-!
What one action does to the brokers, the log and the work under way, said once. Main statement:
`act_change`. Invariants are proved by cases on `Change`, and then on `CallStep`, `LaneStep` or
`Aside`.
-/
namespace EventRelay

theorem Reader.read_record {rd next : Reader} {log : Log} {rec : Record}
    (h : rd.read log = .record rec next) :
    log.read rd.cursor = .record rec ∧ next.cursor = rd.cursor.past rec := by
  unfold read at h
  split at h
  · cases h
  · cases h
  · split at h
    · rename_i hr
      cases h
      exact ⟨hr, rfl⟩
    · cases h
    · cases h

theorem Reader.read_failed {rd next : Reader} {log : Log} {reason : String}
    (h : rd.read log = .failed reason next) : next.cursor = rd.cursor := by
  unfold read at h
  split at h
  · cases h; rfl
  · cases h
  · split at h <;> cases h

namespace Relay

inductive LaneStep (r : Relay) (i : Nat) (l : Lane) : Signal → Relay → Prop
  | hands {rec : Record} {next : Reader} (hs : l.stage = .reading)
      (hr : l.reader.read r.log = .record rec next) :
      LaneStep r i l .proceed
        { (r.dispatch (r.broker l.broker).registry ⟨l.topic, rec.key⟩ rec.value).2 with
          lanes := r.lanes.insert i { l with reader := next } }
  | fails {reason : String} {next : Reader} (hs : l.stage = .reading)
      (hr : l.reader.read r.log = .failed reason next) :
      LaneStep r i l .proceed
        { r with lanes := r.lanes.insert i { l with reader := next, stage := .retrying } }
  | ends (hs : l.stage = .reading) (hr : l.reader.read r.log = .ended) :
      LaneStep r i l .proceed { r with lanes := r.lanes.erase i }
  | stops (hc : r.isCancelled l = true) :
      LaneStep r i l .stop { r with lanes := r.lanes.erase i }
  | resumes (hs : l.stage = .retrying) :
      LaneStep r i l .proceed { r with lanes := r.lanes.insert i { l with stage := .reading } }

inductive Change (r : Relay) : Action → Relay → Prop
  | aside {a : Action} (ha : a.isAside = true) (registries : Array Registry)
      (mailboxes : Mailboxes) (feeds : Table Nat Feed) (nextFeed nextSubscriber : Nat) :
      Change r a { r with registries, mailboxes, feeds, nextFeed, nextSubscriber }
  | scripts (script : Script) : Change r (.script script) { r with script }
  | opensBroker {config : Config} {registry : Nat} (hf : config.fault? = none) :
      Change r (.addBroker config registry)
        { r with brokers := r.brokers.push { config, registry } }
  | submits (b : Nat) (q : Request) (n : Nat) :
      Change r (.submit b q n) { r with
        calls := r.calls.insert r.nextCall ⟨b, .queued n q⟩
        nextCall := r.nextCall + 1 }
  | waits (id : Nat) : Change r (.collect id) r
  | collects {id b : Nat} {answer : Response}
      (hc : r.calls.find? id = some ⟨b, .finished answer⟩) :
      Change r (.collect id) { r with calls := r.calls.erase id }
  | calls {id b : Nat} {stage : Stage} {s : Relay} {sig : Signal}
      (hc : r.calls.find? id = some ⟨b, stage⟩) (hs : CallStep r id b sig stage s) :
      Change r (.step (.call id) sig) s
  | deletes {id : Nat} {topic : String} (hr : r.removals.find? id = some ⟨topic, none⟩)
      {script : Script} {h : Hindrance} (hσ : r.script.Leaves script)
      (hh : r.script.Meets .delete h) :
      Change r (.step (.removal id) .proceed)
        { r with script, removals := r.removals.insert id ⟨topic, some h⟩ }
  | deletionFails {id : Nat} {topic : String} {h : Hindrance}
      (hr : r.removals.find? id = some ⟨topic, some h⟩)
      (hf : h.failure ≠ none ∨ ∃ e, r.log.delete topic = .error e) :
      Change r (.step (.removal id) .proceed) { r with removals := r.removals.erase id }
  | deleted {id : Nat} {topic : String} {d : Nat} {log : Log}
      (hr : r.removals.find? id = some ⟨topic, some ⟨d, none⟩⟩)
      (hl : r.log.delete topic = .ok log) :
      Change r (.step (.removal id) .proceed) { r with log, removals := r.removals.erase id }
  | lanes {i : Nat} {l : Lane} {s : Relay} {sig : Signal} (hi : r.lanes.find? i = some l)
      (hs : LaneStep r i l sig s) : Change r (.step (.lane i) sig) s
  | createsTopic {t : String} {n : Nat} {log : Log} (hl : r.log.create t n = .ok log) :
      Change r (.create t n) { r with log }
  | deletesTopic {t : String} {log : Log} (hl : r.log.delete t = .ok log) :
      Change r (.delete t) { r with log }
  | produces {t key : String} {value : List UInt8} {ack : Ack} {log : Log}
      (hl : r.log.produce t key value = .ok (ack, log)) :
      Change r (.produce t key value) { r with log }
  | closesLog : Change r .closeLog { r with log := r.log.close }

theorem stepRemoval_change {r s : Relay} {id : Nat} {sig : Signal}
    (h : r.stepRemoval id sig = some s) : Change r (.step (.removal id) sig) s := by
  unfold stepRemoval at h
  cases hr : r.removals.find? id with
  | none => simp [hr] at h
  | some removal =>
    obtain ⟨topic, hindrance⟩ := removal
    simp only [hr, Option.bind_eq_bind, Option.bind_some] at h
    cases sig with
    | proceed =>
      cases hindrance with
      | none =>
        cases h
        exact .deletes hr (r.script.meet_spec .delete).2 (r.script.meet_spec .delete).1
      | some m =>
        obtain ⟨d, _ | reason⟩ := m
        · cases hl : r.log.delete topic with
          | error e =>
            simp only [hl] at h
            cases h
            exact .deletionFails hr (.inr ⟨e, hl⟩)
          | ok log =>
            simp only [hl] at h
            cases h
            exact .deleted hr hl
        · cases h
          exact .deletionFails hr (.inl (by simp))
    | expire => cases h
    | stop => cases h

theorem stepLane_change {r s : Relay} {i : Nat} {sig : Signal} (h : r.stepLane i sig = some s) :
    ∃ l, r.lanes.find? i = some l ∧ LaneStep r i l sig s := by
  unfold stepLane stepLaneOver at h
  cases hi : r.lanes.find? i with
  | none => simp [hi] at h
  | some l =>
    refine ⟨l, rfl, ?_⟩
    simp only [hi, Option.bind_eq_bind, Option.bind_some] at h
    cases sig with
    | stop =>
      simp only at h
      split at h
      · rename_i hc
        cases h
        exact .stops hc
      · cases h
    | proceed =>
      cases hs : l.stage with
      | retrying =>
        simp only [hs] at h
        cases h
        exact .resumes hs
      | reading =>
        simp only [hs] at h
        cases hr : l.reader.read r.log with
        | pending => simp only [hr, react] at h; cases h
        | record rec next => simp only [hr, react] at h; cases h; exact .hands hs hr
        | failed reason next => simp only [hr, react] at h; cases h; exact .fails hs hr
        | ended => simp only [hr, react] at h; cases h; exact .ends hs hr
    | expire => cases h

theorem addBroker_ok {r s : Relay} {config : Config} {registry b : Nat}
    (h : r.addBroker config registry = .ok (b, s)) :
    config.fault? = none ∧ (r.registry registry).workers = config.workers ∧
      b = r.brokers.size ∧ s = { r with brokers := r.brokers.push { config, registry } } := by
  unfold addBroker Config.validate at h
  cases hf : config.fault? with
  | some f => simp only [hf] at h; cases h
  | none =>
    simp only [hf] at h
    by_cases hw : (r.registry registry).workers = config.workers
    · simp only [hw, ne_eq, not_true_eq_false, if_false] at h
      cases h
      exact ⟨rfl, hw, rfl, rfl⟩
    · simp only [ne_eq, hw, not_false_eq_true, if_true] at h
      cases h

theorem Aside.change {r s : Relay} {a : Action} (h : Aside r a s) : Change r a s := by
  cases h with
  | feeds hf hsub hopen hs =>
    cases hs with
    | stops | ends | takes | fails => exact .aside rfl _ _ _ _ _
  | subscribes hs =>
    obtain ⟨registries, mailboxes, -, rfl⟩ := subscribe_ok hs
    exact .aside rfl _ _ _ _ _
  | serves hs =>
    obtain ⟨registries, mailboxes, -, rfl⟩ := subscribe_ok hs
    exact .aside rfl _ _ _ _ _
  | _ => exact .aside rfl _ _ _ _ _

theorem act_change {r s : Relay} {a : Action} (hw : ∀ b, 0 < (r.broker b).config.partitions.toNat)
    (h : r.act a = some s) : Change r a s := by
  cases ha : a.isAside with
  | true => exact (act_aside h ha).change
  | false =>
    cases a with
    | step j sig =>
      cases j with
      | call id =>
        obtain ⟨b, stage, hc, hs⟩ := stepCall_step hw h
        exact .calls hc hs
      | removal id => exact stepRemoval_change h
      | lane i =>
        obtain ⟨l, hi, hs⟩ := stepLane_change h
        exact .lanes hi hs
      | feed id => cases ha
    | addBroker config registry =>
      simp only [act, Option.map_eq_some_iff] at h
      obtain ⟨⟨b, q⟩, hq, rfl⟩ := h
      cases hb : r.addBroker config registry with
      | error e => simp [hb, Except.toOption] at hq
      | ok x =>
        rw [hb] at hq
        cases hq
        obtain ⟨hf, -, -, rfl⟩ := addBroker_ok hb
        exact .opensBroker hf
    | submit b q n => cases h; exact .submits b q n
    | collect id =>
      cases h
      unfold collect response?
      split
      · rename_i a ha
        split at ha
        · rename_i hc
          exact .collects hc
        · cases ha
      · exact .waits id
    | script σ => cases h; exact .scripts σ
    | create t n =>
      simp only [act, Option.map_eq_some_iff] at h
      obtain ⟨log, hlog, rfl⟩ := h
      cases hl : r.log.create t n with
      | error e => simp [hl, Except.toOption] at hlog
      | ok l => rw [hl] at hlog; cases hlog; exact .createsTopic hl
    | delete t =>
      simp only [act, Option.map_eq_some_iff] at h
      obtain ⟨log, hlog, rfl⟩ := h
      cases hl : r.log.delete t with
      | error e => simp [hl, Except.toOption] at hlog
      | ok l => rw [hl] at hlog; cases hlog; exact .deletesTopic hl
    | produce t key value =>
      simp only [act, Option.map_eq_some_iff] at h
      obtain ⟨⟨ack, log⟩, hlog, rfl⟩ := h
      cases hl : r.log.produce t key value with
      | error e => simp [hl, Except.toOption] at hlog
      | ok l => rw [hl] at hlog; cases hlog; exact .produces hl
    | closeLog => cases h; exact .closesLog
    | addRegistry | subscribe | unsubscribe | detach | take | takeMany | serve | cancel
    | dispatch => cases ha

end Relay
end EventRelay
