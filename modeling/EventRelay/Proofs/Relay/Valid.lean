import EventRelay.Proofs.Log.History
import EventRelay.Proofs.Relay.Later
/-!
What holds of a relay at every moment, with `hist` the records that were ever appended to its log.
Main statements: `Valid.next`, the step, and `valid_of_after`, the run.
-/
namespace EventRelay

/-- What a call asks the topic for belongs to the topic. -/
def Purpose.Fits (topic : String) : Purpose → Prop
  | .answer => True
  | .publish item _ _ => item.channel.topic = topic

/-- What the log call that a call waits for appends. -/
def Stage.appended (log : Log) : Stage → List (Nat × Record)
  | .producing item _ _ ⟨_, none⟩ =>
    (log.record? item.channel.topic item.channel.name item.payload).toList
  | _ => []

structure Broker.Valid (k : Broker) : Prop where
  config : k.config.fault? = none
  bounded : k.topics.length ≤ k.config.maxTopics
  nodup : k.topics.Nodup
  crews : ∀ t ids, k.crews.find? t = some ids → t ∈ k.topics

theorem Broker.valid_new {config : Config} (h : config.fault? = none) (registry : Nat) :
    Broker.Valid { config, registry } where
  config := h
  bounded := Nat.zero_le _
  nodup := .nil
  crews t ids ht := by simp at ht

theorem Broker.valid_default : (default : Broker).Valid where
  config := by decide
  bounded := Nat.zero_le _
  nodup := .nil
  crews t ids ht := by cases ht

namespace Relay

/-- What an action appends to the log, with the incarnation that takes it. -/
def appended (r : Relay) : Action → List (Nat × Record)
  | .produce t key value => (r.log.record? t key value).toList
  | .step (.call id) .proceed =>
    (r.calls.find? id).elim [] fun c => c.stage.appended r.log
  | _ => []

def deleted (r : Relay) : Action → List String
  | .delete t => [t]
  | .step (.removal id) .proceed =>
    match r.removals.find? id with
    | some ⟨t, some ⟨_, none⟩⟩ =>
      match r.log.delete t with
      | .ok _ => [t]
      | .error _ => []
    | _ => []
  | _ => []

structure LaneValid (r : Relay) (i : Nat) (l : Lane) : Prop where
  number : i < r.nextLane
  broker : l.broker < r.brokers.size
  topic : l.topic ∈ (r.broker l.broker).topics
  kept : l.dismissed = false
  partition : l.partition < (r.broker l.broker).config.workers
  place : r.log.At l.topic l.partition l.reader.cursor

/-- A call that is under way, by where it stands. -/
def StageValid (r : Relay) (b : Nat) : Stage → Prop
  | .creating topic purpose _ => b < r.brokers.size ∧ purpose.Fits topic
  | .opening topic purpose readers _ =>
    b < r.brokers.size ∧ purpose.Fits topic ∧
      readers.length < (r.broker b).config.workers ∧
      ∀ (j : Nat) rd, readers[j]? = some rd → r.log.At topic j rd.cursor
  | .producing item _ _ _ => item.channel.topic ∈ (r.broker b).topics
  | .draining _ | .closing _ => b < r.brokers.size ∧ (r.broker b).closed = true
  | _ => True

structure Valid (r : Relay) (retention : Nat) (hist : List (Nat × Record)) : Prop where
  log : r.log.Keeps retention hist
  brokers : ∀ b, (r.broker b).Valid
  lanes : ∀ i l, r.lanes.find? i = some l → r.LaneValid i l
  /-- No two lanes read the same partition of a topic for one broker. -/
  apart : ∀ i j l m, r.lanes.find? i = some l → r.lanes.find? j = some m →
    l.broker = m.broker → l.topic = m.topic → l.partition = m.partition → i = j
  calls : ∀ id b stage, r.calls.find? id = some ⟨b, stage⟩ → r.StageValid b stage

theorem size_of_mem {r : Relay} {b : Nat} {t : String} (h : t ∈ (r.broker b).topics) :
    b < r.brokers.size := by
  by_contra hb
  rw [broker, Array.getElem?_eq_none (Nat.le_of_not_lt hb)] at h
  cases h

theorem size_of_open {r : Relay} {b : Nat} (h : (r.broker b).closed = false) :
    b < r.brokers.size := by
  by_contra hb
  rw [broker, Array.getElem?_eq_none (Nat.le_of_not_lt hb)] at h
  cases h

section
variable {r s : Relay} {retention : Nat} {hist : List (Nat × Record)}

theorem Valid.workers (h : r.Valid retention hist) (b : Nat) :
    (r.broker b).config.partitions.toNat = (r.broker b).config.workers :=
  Config.partitions_toNat (h.brokers b).config

theorem Valid.workers_pos (h : r.Valid retention hist) (b : Nat) :
    0 < (r.broker b).config.partitions.toNat := by
  rw [h.workers b, Nat.pos_iff_ne_zero]
  intro hw
  have hf := (h.brokers b).config
  simp only [Config.fault?, if_pos hw] at hf
  split at hf
  · cases hf
  · cases hf

theorem Valid.change (h : r.Valid retention hist) {a : Action} (ha : r.act a = some s) :
    Change r a s :=
  act_change h.workers_pos ha

theorem LaneValid.later {i : Nat} {l l' : Lane} (h : r.LaneValid i l) (hl : r.Later s)
    (hlane : l.Later l') (hk : l'.dismissed = l.dismissed)
    (hp : s.log.At l'.topic l'.partition l'.reader.cursor) : s.LaneValid i l' where
  number := Nat.lt_of_lt_of_le h.number hl.nextLane
  broker := by rw [hlane.broker]; exact Nat.lt_of_lt_of_le h.broker hl.size
  topic := by rw [hlane.broker, hlane.topic]; exact (hl.topics _).subset h.topic
  kept := hk.trans h.kept
  partition := by
    rw [hlane.broker, hlane.partition, hl.config _ h.broker]
    exact h.partition
  place := hp

theorem StageValid.later {b : Nat} {stage : Stage} (h : r.StageValid b stage) (hl : r.Later s) :
    s.StageValid b stage := by
  cases stage with
  | creating topic purpose w => exact ⟨Nat.lt_of_lt_of_le h.1 hl.size, h.2⟩
  | opening topic purpose readers w =>
    obtain ⟨hb, hp, hn, hr⟩ := h
    refine ⟨Nat.lt_of_lt_of_le hb hl.size, hp, ?_, fun j rd hj => (hr j rd hj).grows hl.log⟩
    rw [hl.config b hb]
    exact hn
  | producing item rest acks w => exact (hl.topics b).subset h
  | draining lanes => exact ⟨Nat.lt_of_lt_of_le h.1 hl.size, hl.closed b h.1 h.2⟩
  | closing w => exact ⟨Nat.lt_of_lt_of_le h.1 hl.size, hl.closed b h.1 h.2⟩
  | queued | delayed | finished => trivial

end

end Relay

/-! ### Where a call goes -/

theorem Ready.valid {r : Relay} {b : Nat} {topic : String} {purpose : Purpose} {e : Bool}
    {stage : Stage} (h : Ready purpose e stage) (hp : purpose.Fits topic)
    (ht : topic ∈ (r.broker b).topics) : r.StageValid b stage := by
  cases h with
  | answer => trivial
  | publish item rest acks _ w => rw [← show item.channel.topic = topic from hp] at ht; exact ht

theorem Asks.valid {r : Relay} {b : Nat} {topic : String} {purpose : Purpose} {stage : Stage}
    (h : Asks (r.broker b) topic purpose stage) (hp : purpose.Fits topic) :
    r.StageValid b stage := by
  cases h with
  | known hk hs => exact hs.valid hp hk
  | creates hk hc hv hf w => exact ⟨Relay.size_of_open hc, hp⟩
  | closed | invalid | full => trivial

theorem Publishes.valid {r : Relay} {b : Nat} {items : List Publication} {acks : List Ack}
    {stage : Stage} (h : Publishes (r.broker b) items acks stage) : r.StageValid b stage := by
  cases h with
  | asks item rest acks hc hv hs => exact hs.valid rfl
  | done | closed | invalid => trivial

namespace Relay

theorem Moves.valid {r : Relay} {b : Nat} {sig : Signal} {stage stage' : Stage}
    (h : Moves r b sig stage stage') (hv : r.StageValid b stage) : r.StageValid b stage' := by
  cases h with
  | ensures hb hs => exact hs.valid trivial
  | publishes hb hs => exact hs.valid
  | knows hl hn hk hs => exact hs.valid hv.2.1 hk
  | drains hl w => exact hv
  | delays | closes | fails | expires | createFails | tailFails | produceFails => trivial

theorem Moves.appended {r : Relay} {b : Nat} {sig : Signal} {stage stage' : Stage}
    (h : Moves r b sig stage stage') : stage.appended r.log = [] := by
  cases h with
  | ensures hb hs => cases hb <;> rfl
  | publishes hb hs => cases hb <;> rfl
  | closes hb hc => cases hb <;> rfl
  | fails hh =>
    cases stage with
    | producing item rest acks w => cases hh; rfl
    | _ => rfl
  | produceFails hl => rw [Stage.appended, Log.record?_of_error hl]; rfl
  | delays | expires | createFails | tailFails | knows | drains => rfl

section
variable {r s : Relay} {retention : Nat} {hist : List (Nat × Record)}

theorem Valid.enrolls (h : r.Valid retention hist) {id b : Nat} {topic : String}
    {purpose : Purpose} {readers : List Reader} {w : Hindrance}
    (hc : r.calls.find? id = some ⟨b, .opening topic purpose readers w⟩)
    (hk : topic ∉ (r.broker b).topics) (rd : Reader) (σ σ' : Script) (stage : Stage) :
    r.Enrolls (((({ r with script := σ } : Relay).setBroker b
      { r.broker b with topics := (r.broker b).topics ++ [topic] }).startLanes b topic
        (readers ++ [rd])).goes id b σ' stage) id b topic (readers ++ [rd]) stage := by
  have hcrew : (r.broker b).crews.find? topic = none := by
    cases hf : (r.broker b).crews.find? topic with
    | none => rfl
    | some ids => exact absurd ((h.brokers b).crews topic ids hf) hk
  exact enrolls_spec (h.calls id b _ hc).1 hcrew _ σ σ' id stage

/-- The call `id` opens its last reader and enrolls its topic, for which it finds a free slot. -/
structure Admits (r : Relay) (a : Action) (s : Relay) (id b : Nat) (topic : String)
    (purpose : Purpose) (opened : List Reader) (last : Reader) (stage : Stage) : Prop where
  action : a = .step (.call id) .proceed
  call : ∃ d, r.calls.find? id = some ⟨b, .opening topic purpose opened ⟨d, none⟩⟩
  tail : r.log.tail topic opened.length = .ok last.cursor
  unknown : topic ∉ (r.broker b).topics
  room : (r.broker b).topics.length < (r.broker b).config.maxTopics
  length : (opened ++ [last]).length = (r.broker b).config.workers
  ready : Ready purpose true stage
  effect : r.Enrolls s id b topic (opened ++ [last]) stage

theorem Valid.length_readers (h : r.Valid retention hist) {id b : Nat} {topic : String}
    {purpose : Purpose} {readers : List Reader} {w : Hindrance}
    (hc : r.calls.find? id = some ⟨b, .opening topic purpose readers w⟩)
    (hn : (r.broker b).config.partitions.toNat ≤ readers.length + 1) (rd : Reader) :
    (readers ++ [rd]).length = (r.broker b).config.workers := by
  have hlt := (h.calls id b _ hc).2.2.1
  rw [h.workers b] at hn
  rw [List.length_append, List.length_singleton]
  omega

theorem Valid.at_reader (h : r.Valid retention hist) {id b : Nat} {topic : String}
    {purpose : Purpose} {readers : List Reader} {w : Hindrance}
    (hc : r.calls.find? id = some ⟨b, .opening topic purpose readers w⟩) {c : Cursor}
    (hl : r.log.tail topic readers.length = .ok c) (script : List ReadHindrance) {j : Nat}
    {rd : Reader} (hj : (readers ++ [⟨c, script⟩])[j]? = some rd) : r.log.At topic j rd.cursor := by
  obtain hold | ⟨rfl, rfl⟩ := getElem?_concat_cases hj
  · exact (h.calls id b _ hc).2.2.2 j rd hold
  · exact h.log.sound.at_tail hl

theorem CallStep.later {id b : Nat} {sig : Signal} {stage : Stage} (h : r.Valid retention hist)
    (hc : r.calls.find? id = some ⟨b, stage⟩) (hs : CallStep r id b sig stage s) : r.Later s := by
  cases hs with
  | moves hσ hm => exact later_of_eq (.refl _) rfl rfl rfl
  | closes hb ho =>
    have hset := r.later_setBroker (v := { r.broker b with closed := true, crews := .empty })
      List.prefix_rfl rfl rfl fun _ => rfl
    exact hset.trans (later_of_eq (.refl _) rfl rfl rfl)
  | creates hσ hw hl => exact later_of_eq (Log.grows_create hl) rfl rfl rfl
  | opens script hσ hw hl hn => exact later_of_eq (.refl _) rfl rfl rfl
  | enrolls script hσ hl hn hk hf hs => exact (h.enrolls hc hk _ _ _ _).later
  | rejects hσ hl hn hk hf => exact later_of_eq (.refl _) rfl rfl rfl
  | @produces _ _ _ _ _ log _ _ hσ hl hs =>
    obtain ⟨i, rec, inc, inc', p, -, ha, -⟩ := Log.produce_appends hl h.log.sound
    have hlog : r.Later { r with log } := later_of_eq ha.grows rfl rfl rfl
    have hset := ({ r with log } : Relay).later_setBroker
      (v := { r.broker b with published := (r.broker b).published + 1 })
      List.prefix_rfl rfl rfl fun ho => ho
    exact (hlog.trans hset).trans (later_of_eq (.refl _) rfl rfl rfl)
  | closesLog => exact later_of_eq (Log.grows_close _) rfl rfl rfl

theorem LaneStep.later {i : Nat} {l : Lane} {sig : Signal} (h : r.Valid retention hist)
    (hi : r.lanes.find? i = some l) (hs : LaneStep r i l sig s) : r.Later s := by
  cases hs with
  | @hands rec next hs hr =>
    obtain ⟨hrec, hnext⟩ := Reader.read_record hr
    obtain ⟨p, -, -, ho, -, -⟩ := h.log.read hrec
    refine later_lane (o := some { l with reader := next }) hi ?_ rfl rfl rfl
      fun j => Table.find?_insert ..
    intro _ heq
    cases heq
    refine ⟨rfl, rfl, rfl, by rw [hnext]; rfl, by rw [hnext]; rfl, ?_⟩
    rw [hnext, Cursor.past]
    simp only
    omega
  | @fails reason next hs hr =>
    have hnext := Reader.read_failed hr
    refine later_lane (o := some { l with reader := next, stage := .retrying }) hi ?_ rfl rfl rfl
      fun j => Table.find?_insert ..
    intro _ heq
    cases heq
    exact ⟨rfl, rfl, rfl, by rw [hnext], by rw [hnext], Nat.le_of_eq (by rw [hnext])⟩
  | ends hs hr =>
    exact later_lane (o := none) hi (by simp) rfl rfl rfl fun j => Table.find?_erase ..
  | stops hc =>
    exact later_lane (o := none) hi (by simp) rfl rfl rfl fun j => Table.find?_erase ..
  | resumes hs =>
    refine later_lane (o := some { l with stage := .reading }) hi ?_ rfl rfl rfl
      fun j => Table.find?_insert ..
    intro _ heq
    cases heq
    exact ⟨rfl, rfl, rfl, rfl, rfl, Nat.le_refl _⟩

theorem Valid.later (h : r.Valid retention hist) {a : Action} (hc : Change r a s) :
    r.Later s := by
  cases hc with
  | aside | scripts | submits | waits | collects | deletes | deletionFails =>
    exact later_of_eq (.refl _) rfl rfl rfl
  | opensBroker hf => exact r.later_push _
  | calls hc hs => exact hs.later h hc
  | deleted hr hl => exact later_of_eq (Log.grows_delete hl) rfl rfl rfl
  | lanes hi hs => exact hs.later h hi
  | createsTopic hl => exact later_of_eq (Log.grows_create hl) rfl rfl rfl
  | deletesTopic hl => exact later_of_eq (Log.grows_delete hl) rfl rfl rfl
  | produces hl =>
    obtain ⟨i, rec, inc, inc', p, -, ha, -⟩ := Log.produce_appends hl h.log.sound
    exact later_of_eq ha.grows rfl rfl rfl
  | closesLog => exact later_of_eq (Log.grows_close _) rfl rfl rfl

/-! ### The log -/

theorem appended_aside (r : Relay) {a : Action} (ha : a.isAside = true) : r.appended a = [] := by
  cases a with
  | step j sig =>
    cases j with
    | feed id => rfl
    | call | removal | lane => cases ha
  | produce => cases ha
  | _ => rfl

theorem act_call {id b : Nat} {stage : Stage} (hc : r.calls.find? id = some ⟨b, stage⟩) :
    r.act (.step (.call id) .proceed) = r.proceedCall id b stage := by
  simp only [act, step, stepCall, hc, Option.bind_eq_bind, Option.bind_some]

theorem appended_call {id b : Nat} {stage : Stage} (hc : r.calls.find? id = some ⟨b, stage⟩) :
    r.appended (.step (.call id) .proceed) = stage.appended r.log := by
  rw [appended, hc, Option.elim_some]

inductive LogChange (r : Relay) (a : Action) (l : Log) : Prop
  | same (h : l = r.log) (ha : r.appended a = [])
  | creates {t : String} {n : Nat} (h : r.log.create t n = .ok l) (ha : r.appended a = [])
      (hn : a = .create t n ∨ ∃ b, b < r.brokers.size ∧ n = (r.broker b).config.workers)
  | deletes {t : String} (h : r.log.delete t = .ok l) (hd : t ∈ r.deleted a)
      (ha : r.appended a = [])
  | appends {i : Nat} {rec : Record} {inc inc' : Incarnation} {p : Partition}
      (h : r.log.Appends l i rec inc inc' p) (ha : r.appended a = [(i, rec)])
  | closes (h : l = r.log.close) (ha : r.appended a = [])

theorem CallStep.logChange {id b : Nat} {sig : Signal} {stage : Stage} (h : r.Valid retention hist)
    (hc : r.calls.find? id = some ⟨b, stage⟩) (hs : CallStep r id b sig stage s) :
    LogChange r (.step (.call id) sig) s.log := by
  cases hs with
  | moves hσ hm =>
    cases sig with
    | proceed => exact .same rfl ((appended_call hc).trans hm.appended)
    | expire | stop => exact .same rfl rfl
  | closes hb ho =>
    have hnone : stage.appended r.log = [] := by cases hb <;> rfl
    exact .same rfl ((appended_call hc).trans hnone)
  | creates hσ hw hl =>
    exact .creates hl (appended_call hc) (.inr ⟨b, (h.calls id b _ hc).1, h.workers b⟩)
  | opens | rejects => exact .same rfl (appended_call hc)
  | enrolls script hσ hl hn hk hf hs => exact .same (h.enrolls hc hk _ _ _ _).log (appended_call hc)
  | produces hσ hl hs =>
    obtain ⟨i, rec, inc, inc', p, hrec, ha, -⟩ := Log.produce_appends hl h.log.sound
    exact .appends ha (by rw [appended_call hc, Stage.appended, hrec]; rfl)
  | closesLog => exact .closes rfl (appended_call hc)

theorem Change.logChange {a : Action} (h : r.Valid retention hist) (hc : Change r a s) :
    LogChange r a s.log := by
  cases hc with
  | aside ha => exact .same rfl (r.appended_aside ha)
  | scripts | opensBroker | submits | waits | collects | deletes | deletionFails =>
    exact .same rfl rfl
  | calls hc hs => exact hs.logChange h hc
  | deleted hr hl => exact .deletes hl (by simp [Relay.deleted, hr, hl]) rfl
  | lanes hi hs => cases hs <;> exact .same rfl rfl
  | createsTopic hl => exact .creates hl rfl (.inl rfl)
  | deletesTopic hl => exact .deletes hl (List.mem_singleton_self _) rfl
  | produces hl =>
    obtain ⟨i, rec, inc, inc', p, hrec, ha, -⟩ := Log.produce_appends hl h.log.sound
    exact .appends ha (by rw [appended, hrec]; rfl)
  | closesLog => exact .closes rfl rfl

theorem Change.log {a : Action} (h : r.Valid retention hist) (hc : Change r a s) :
    s.log.Keeps retention (hist ++ r.appended a) := by
  cases hc.logChange h with
  | same hl ha => rw [ha, List.append_nil, hl]; exact h.log
  | creates hl ha hn => rw [ha, List.append_nil]; exact h.log.create hl
  | deletes hl hd ha => rw [ha, List.append_nil]; exact h.log.delete hl
  | appends hl ha => rw [ha]; exact h.log.appends hl
  | closes hl ha => rw [ha, List.append_nil, hl]; exact h.log.close

theorem Valid.appends (h : r.Valid retention hist) {a : Action} (ha : r.act a = some s) {i : Nat}
    {rec : Record} (hrec : (i, rec) ∈ r.appended a) :
    r.appended a = [(i, rec)] ∧ ∃ inc inc' p, r.log.Appends s.log i rec inc inc' p := by
  cases (h.change ha).logChange h with
  | appends hl hone =>
    rw [hone, List.mem_singleton] at hrec
    cases hrec
    exact ⟨hone, _, _, _, hl⟩
  | same _ hnone | creates _ hnone _ | deletes _ _ hnone | closes _ hnone =>
    rw [hnone] at hrec
    cases hrec

/-! ### The brokers -/

theorem brokers_setBroker (h : ∀ b, (r.broker b).Valid) (b : Nat) {v : Broker} (hv : v.Valid)
    (b' : Nat) : ((r.setBroker b v).broker b').Valid := by
  by_cases hb : b < r.brokers.size
  · rw [r.broker_setBroker hb]
    split
    · exact hv
    · exact h b'
  · rw [r.setBroker_of_le (Nat.le_of_not_lt hb)]
    exact h b'

theorem CallStep.brokers {id b : Nat} {sig : Signal} {stage : Stage} (h : r.Valid retention hist)
    (hc : r.calls.find? id = some ⟨b, stage⟩) (hs : CallStep r id b sig stage s) (b' : Nat) :
    (s.broker b').Valid := by
  have hb := h.brokers b
  cases hs with
  | moves | creates | opens | rejects | closesLog => exact h.brokers b'
  | closes =>
    have hv : Broker.Valid { r.broker b with closed := true, crews := .empty } :=
      ⟨hb.config, hb.bounded, hb.nodup, fun t ids ht => by simp at ht⟩
    exact brokers_setBroker h.brokers b hv b'
  | @enrolls topic _ readers _ c _ script σ σ' hσ hl hn hk hf hs =>
    rw [(h.enrolls hc hk _ _ _ _).broker b']
    split
    · refine ⟨hb.config, ?_, ?_, fun t ids ht => ?_⟩
      · rw [List.length_append, List.length_singleton]
        exact hf
      · refine List.nodup_append.2 ⟨hb.nodup, by simp, ?_⟩
        intro x hx y hy heq
        subst heq
        exact hk (List.mem_singleton.1 hy ▸ hx)
      · rw [Table.find?_insert] at ht
        split at ht
        · rename_i h
          rw [← h]
          exact List.mem_append_right _ (List.mem_singleton_self _)
        · exact List.mem_append_left _ (hb.crews t ids ht)
    · exact h.brokers b'
  | @produces _ _ _ _ _ log _ _ hσ hl hs =>
    have hv : Broker.Valid { r.broker b with published := (r.broker b).published + 1 } :=
      ⟨hb.config, hb.bounded, hb.nodup, hb.crews⟩
    exact brokers_setBroker (r := { r with log }) h.brokers b hv b'

theorem Change.brokers {a : Action} (h : r.Valid retention hist) (hc : Change r a s) (b : Nat) :
    (s.broker b).Valid := by
  cases hc with
  | @opensBroker config registry hf =>
    simp only [broker, Array.getElem?_push]
    split
    · exact Broker.valid_new hf registry
    · exact h.brokers b
  | calls hc hs => exact hs.brokers h hc b
  | lanes hi hs => cases hs <;> exact h.brokers b
  | _ => exact h.brokers b

/-! ### The lanes -/

theorem Valid.lanes_of_eq (h : r.Valid retention hist) (hl : r.Later s) (he : s.lanes = r.lanes) :
    ∀ i l, s.lanes.find? i = some l → s.LaneValid i l := by
  intro i l hi
  rw [he] at hi
  exact (h.lanes i l hi).later hl (.refl l) rfl ((h.lanes i l hi).place.grows hl.log)

theorem LaneStep.lanes {i : Nat} {l : Lane} {sig : Signal} (h : r.Valid retention hist)
    (hi : r.lanes.find? i = some l) (hs : LaneStep r i l sig s) :
    (∀ j m, s.lanes.find? j = some m → s.LaneValid j m) ∧
      ∀ j m, s.lanes.find? j = some m → ∃ k, r.lanes.find? j = some k ∧ k.Later m := by
  have hlater := hs.later h hi
  have hold : ∀ j m, r.lanes.find? j = some m → s.LaneValid j m := by
    intro j m hj
    have hm := h.lanes j m hj
    exact hm.later hlater (.refl m) rfl (hm.place.grows hlater.log)
  have hkeep : ∀ j m, s.lanes.find? j = some m → ∃ k, r.lanes.find? j = some k ∧ k.Later m := by
    intro j m hj
    refine hlater.lane j m ?_ hj
    by_contra hge
    have hnone : r.lanes.find? j = none := by
      cases hf : r.lanes.find? j with
      | none => rfl
      | some k => exact absurd (h.lanes j k hf).number hge
    have hne : i ≠ j := by
      intro heq
      subst heq
      rw [hi] at hnone
      cases hnone
    cases hs <;>
      first
      | (rw [Table.find?_insert, if_neg hne, hnone] at hj; cases hj)
      | (rw [Table.find?_erase, if_neg hne, hnone] at hj; cases hj)
  refine ⟨fun j m hj => ?_, hkeep⟩
  obtain ⟨k, hk, hkm⟩ := hkeep j m hj
  by_cases hij : i = j
  · subst hij
    rw [hi] at hk
    cases hk
    have hl := h.lanes i l hi
    cases hs with
    | @hands rec next hs hr =>
      obtain ⟨hrec, hnext⟩ := Reader.read_record hr
      rw [Table.find?_insert, if_pos rfl] at hj
      cases hj
      refine hl.later hlater hkm rfl ?_
      simp only [hnext]
      exact h.log.at_past hl.place hrec
    | @fails reason next hs hr =>
      have hnext := Reader.read_failed hr
      rw [Table.find?_insert, if_pos rfl] at hj
      cases hj
      refine hl.later hlater hkm rfl ?_
      simp only [hnext]
      exact hl.place
    | resumes hs =>
      rw [Table.find?_insert, if_pos rfl] at hj
      cases hj
      exact hl.later hlater hkm rfl hl.place
    | ends | stops =>
      rw [Table.find?_erase, if_pos rfl] at hj
      cases hj
  · refine hold j m ?_
    cases hs <;>
      first
      | (rw [Table.find?_insert, if_neg hij] at hj; exact hj)
      | (rw [Table.find?_erase, if_neg hij] at hj; exact hj)

theorem Enrolls.lane_cases {id b : Nat} {topic : String} {readers : List Reader} {stage : Stage}
    (h : r.Enrolls s id b topic readers stage) {i : Nat} {l : Lane}
    (hi : s.lanes.find? i = some l) :
    (∃ (j : Nat) (rd : Reader), readers[j]? = some rd ∧ i = r.nextLane + j ∧
      l = { broker := b, topic, partition := j, reader := rd }) ∨ r.lanes.find? i = some l := by
  by_cases hr : i < r.nextLane ∨ r.nextLane + readers.length ≤ i
  · rw [h.old i hr] at hi
    exact .inr hi
  · have hlt : i - r.nextLane < readers.length := by omega
    have hfresh := h.fresh (i - r.nextLane) _ (List.getElem?_eq_getElem hlt)
    have heq : r.nextLane + (i - r.nextLane) = i := by omega
    rw [heq, hi] at hfresh
    exact .inl ⟨i - r.nextLane, _, List.getElem?_eq_getElem hlt, heq.symm, Option.some.inj hfresh⟩

theorem Enrolls.lanes {id b : Nat} {topic : String} {readers : List Reader} {stage : Stage}
    (h : r.Valid retention hist) (he : r.Enrolls s id b topic readers stage)
    (hb : b < r.brokers.size)
    (hn : readers.length = (r.broker b).config.workers)
    (hat : ∀ (j : Nat) rd, readers[j]? = some rd → r.log.At topic j rd.cursor) :
    ∀ i l, s.lanes.find? i = some l → s.LaneValid i l := by
  intro i l hi
  obtain ⟨j, rd, hj, rfl, rfl⟩ | hold := he.lane_cases hi
  · have hlt := (List.getElem?_eq_some_iff.1 hj).1
    have hbroker := he.broker b
    rw [if_pos rfl] at hbroker
    refine ⟨?_, ?_, ?_, rfl, ?_, ?_⟩
    · rw [he.nextLane]
      exact Nat.add_lt_add_left hlt _
    · rw [he.size]
      exact hb
    · simp only [hbroker]
      exact List.mem_append_right _ (List.mem_singleton_self _)
    · simp only [hbroker]
      exact hn ▸ hlt
    · rw [he.log]
      exact hat j rd hj
  · have hl := h.lanes i l hold
    exact hl.later he.later (.refl l) rfl (hl.place.grows he.later.log)

theorem Enrolls.apart {id b : Nat} {topic : String} {readers : List Reader} {stage : Stage}
    (h : r.Valid retention hist) (he : r.Enrolls s id b topic readers stage)
    (hk : topic ∉ (r.broker b).topics) (i j : Nat) (l m : Lane) (hi : s.lanes.find? i = some l)
    (hj : s.lanes.find? j = some m) (hb : l.broker = m.broker) (ht : l.topic = m.topic)
    (hp : l.partition = m.partition) : i = j := by
  -- The topic was not known, so no lane read it before.
  have hfree : ∀ k n, r.lanes.find? k = some n → ¬(n.broker = b ∧ n.topic = topic) := by
    intro k n hn hall
    obtain ⟨rfl, rfl⟩ := hall
    exact hk (h.lanes k n hn).topic
  obtain ⟨x, _, -, rfl, rfl⟩ | hi := he.lane_cases hi
  · obtain ⟨y, _, -, rfl, rfl⟩ | hj := he.lane_cases hj
    · rw [show x = y from hp]
    · exact absurd ⟨hb.symm, ht.symm⟩ (hfree j m hj)
  · obtain ⟨y, _, -, rfl, rfl⟩ | hj := he.lane_cases hj
    · exact absurd ⟨hb, ht⟩ (hfree i l hi)
    · exact h.apart i j l m hi hj hb ht hp

theorem Valid.apart_of_later (h : r.Valid retention hist)
    (hs : ∀ i l, s.lanes.find? i = some l → ∃ k, r.lanes.find? i = some k ∧ k.Later l)
    (i j : Nat) (l m : Lane) (hi : s.lanes.find? i = some l) (hj : s.lanes.find? j = some m)
    (hb : l.broker = m.broker) (ht : l.topic = m.topic) (hp : l.partition = m.partition) :
    i = j := by
  obtain ⟨k, hk, hkl⟩ := hs i l hi
  obtain ⟨n, hn, hnm⟩ := hs j m hj
  refine h.apart i j k n hk hn ?_ ?_ ?_
  · rw [← hkl.broker, ← hnm.broker, hb]
  · rw [← hkl.topic, ← hnm.topic, ht]
  · rw [← hkl.partition, ← hnm.partition, hp]

theorem Change.lanes_or {a : Action} (h : r.Valid retention hist) (hc : Change r a s) :
    ((∀ i l, s.lanes.find? i = some l → s.LaneValid i l) ∧
      ∀ i l, s.lanes.find? i = some l → ∃ k, r.lanes.find? i = some k ∧ k.Later l) ∨
    ∃ id b topic purpose opened last stage, r.Admits a s id b topic purpose opened last stage := by
  have hlater := h.later hc
  have heq (he : s.lanes = r.lanes) : (∀ i l, s.lanes.find? i = some l → s.LaneValid i l) ∧
      ∀ i l, s.lanes.find? i = some l → ∃ k, r.lanes.find? i = some k ∧ k.Later l :=
    ⟨h.lanes_of_eq hlater he, fun i l hi => ⟨l, by rw [← he]; exact hi, .refl l⟩⟩
  cases hc with
  | calls hc hs =>
    cases hs with
    | enrolls script hσ hl hn hk hf hs =>
      exact .inr ⟨_, _, _, _, _, _, _, rfl, ⟨_, hc⟩, hl, hk, hf,
        h.length_readers hc hn ⟨_, script⟩, hs, h.enrolls hc hk ⟨_, script⟩ _ _ _⟩
    | _ => exact .inl (heq rfl)
  | lanes hi hs => exact .inl (hs.lanes h hi)
  | _ => exact .inl (heq rfl)

/-! ### The calls -/

theorem CallStep.calls {id b : Nat} {sig : Signal} {stage : Stage} (h : r.Valid retention hist)
    (hc : r.calls.find? id = some ⟨b, stage⟩) (hs : CallStep r id b sig stage s) :
    ∃ stage', s.calls = r.calls.insert id ⟨b, stage'⟩ ∧ s.StageValid b stage' := by
  have hlater := hs.later h hc
  have hv := h.calls id b stage hc
  cases hs with
  | moves hσ hm => exact ⟨_, rfl, (hm.valid hv).later hlater⟩
  | closes hb ho =>
    refine ⟨_, rfl, Nat.lt_of_lt_of_le (size_of_open ho) hlater.size, ?_⟩
    have hset := r.broker_setBroker (size_of_open ho)
      { r.broker b with closed := true, crews := .empty } b
    rw [if_pos rfl] at hset
    exact congrArg Broker.closed hset
  | creates hσ hw hl =>
    refine ⟨_, rfl, hv.1, hv.2, ?_, by simp⟩
    exact (h.workers b).subst (h.workers_pos b)
  | opens script hσ hw hl hn =>
    refine ⟨_, rfl, hv.1, hv.2.1, ?_, fun j rd hj => h.at_reader hc hl script hj⟩
    rw [h.workers b] at hn
    rw [List.length_append, List.length_singleton]
    exact hn
  | @enrolls topic _ readers _ c stage script σ σ' hσ hl hn hk hf hs =>
    have he := h.enrolls hc hk ⟨c, script⟩ σ σ' stage
    refine ⟨stage, he.calls, hs.valid hv.2.1 ?_⟩
    rw [he.broker b, if_pos rfl]
    exact List.mem_append_right _ (List.mem_singleton_self _)
  | rejects hσ hl hn hk hf => exact ⟨_, rfl, trivial⟩
  | produces hσ hl hs => exact ⟨_, rfl, hs.valid.later hlater⟩
  | closesLog => exact ⟨_, rfl, trivial⟩

theorem Change.call_or {a : Action} (h : r.Valid retention hist) (hc : Change r a s) {id b : Nat}
    {stage : Stage} (hs : s.calls.find? id = some ⟨b, stage⟩) :
    r.calls.find? id = some ⟨b, stage⟩ ∨ (id = r.nextCall ∧ ∃ n q, stage = .queued n q) ∨
      ∃ sig stage₀, a = .step (.call id) sig ∧ r.calls.find? id = some ⟨b, stage₀⟩ ∧
        CallStep r id b sig stage₀ s := by
  cases hc with
  | submits b' q n =>
    rw [Table.find?_insert] at hs
    split at hs
    · rename_i hid
      cases hs
      exact .inr (.inl ⟨hid.symm, n, q, rfl⟩)
    · exact .inl hs
  | collects hc =>
    obtain ⟨-, hs⟩ := Table.find?_erase_eq_some.1 hs
    exact .inl hs
  | @calls id' b' stage₀ _ sig hc hstep =>
    obtain ⟨stage', hcalls, -⟩ := hstep.calls h hc
    rw [hcalls, Table.find?_insert] at hs
    split at hs
    · rename_i hid
      subst hid
      cases hs
      exact .inr (.inr ⟨sig, stage₀, rfl, hc, hstep⟩)
    · exact .inl hs
  | lanes hi hl => cases hl <;> exact .inl hs
  | _ => exact .inl hs

theorem Change.call_cases {a : Action} (h : r.Valid retention hist) (hc : Change r a s) {id b : Nat}
    {stage : Stage} (hs : s.calls.find? id = some ⟨b, stage⟩) :
    r.calls.find? id = some ⟨b, stage⟩ ∨ (∃ n q, stage = .queued n q) ∨
      ∃ sig stage₀, a = .step (.call id) sig ∧ r.calls.find? id = some ⟨b, stage₀⟩ ∧
        CallStep r id b sig stage₀ s :=
  (hc.call_or h hs).imp_right fun hnew => hnew.imp_left And.right

theorem Change.calls_valid {a : Action} (h : r.Valid retention hist) (hc : Change r a s) :
    ∀ id b stage, s.calls.find? id = some ⟨b, stage⟩ → s.StageValid b stage := by
  intro id b stage hs
  obtain hold | ⟨n, q, rfl⟩ | ⟨sig, stage₀, -, hold, hstep⟩ := hc.call_cases h hs
  · exact (h.calls id b stage hold).later (h.later hc)
  · trivial
  · obtain ⟨stage', hcalls, hv⟩ := hstep.calls h hold
    rw [hcalls, Table.find?_insert, if_pos rfl] at hs
    cases hs
    exact hv

theorem Valid.next (h : r.Valid retention hist) {a : Action} (ha : r.act a = some s) :
    s.Valid retention (hist ++ r.appended a) := by
  have hc := h.change ha
  have hlog := hc.log h
  have hbrokers := hc.brokers h
  have hcalls := hc.calls_valid h
  obtain ⟨hlanes, hold⟩ | ⟨id, b, topic, purpose, opened, last, stage, hadmits⟩ := hc.lanes_or h
  · exact ⟨hlog, hbrokers, hlanes, h.apart_of_later hold, hcalls⟩
  · obtain ⟨d, hcall⟩ := hadmits.call
    have hlanes := hadmits.effect.lanes h (h.calls id b _ hcall).1 hadmits.length
      fun j rd hj => h.at_reader hcall hadmits.tail last.script hj
    exact ⟨hlog, hbrokers, hlanes, hadmits.effect.apart h hadmits.unknown, hcalls⟩

end

theorem valid_new (retention : Nat) : (new retention).Valid retention [] where
  log := Log.keeps_new retention
  brokers _ := Broker.valid_default
  lanes i l hi := by cases hi
  apart i j l m hi := by cases hi
  calls id b stage hc := by cases hc

abbrev history (r : Relay) (acts : List Action) : List (Nat × Record) := r.observe appended acts

/-- A run keeps a relay valid, and nothing goes back in it. -/
theorem Valid.run {r s : Relay} {retention : Nat} {hist : List (Nat × Record)}
    (h : r.Valid retention hist) {acts : List Action} (hr : r.after acts = some s) :
    s.Valid retention (hist ++ r.history acts) ∧ r.Later s := by
  induction hr using after_induct with
  | start =>
    rw [history, observe, List.append_nil]
    exact ⟨h, .refl r⟩
  | next acts q a s hq ha ih =>
    obtain ⟨hv, hlater⟩ := ih
    rw [history, observe_concat appended hq, ← List.append_assoc]
    exact ⟨hv.next ha, hlater.trans (hv.later (hv.change ha))⟩

theorem valid_of_after {retention : Nat} {acts : List Action} {r : Relay}
    (h : (new retention).after acts = some r) :
    r.Valid retention ((new retention).history acts) := by
  have hv := ((valid_new retention).run h).1
  rw [List.nil_append] at hv
  exact hv

end Relay
end EventRelay
