import EventRelay.Proofs.Relay.Run
/-!
What a step of a call can do to a relay, said once: `Moves` for the stages it goes through and
`CallStep` for all it comes to. Main statement: `stepCall_step`. Invariants are proved by cases on
these relations.
-/
namespace EventRelay

namespace Script

def waiting (σ : Script) (c : LogCall) : List Hindrance := (σ.calls.find? c).getD []

/-- What `σ` holds for log calls is all that `σ'` does. -/
def Leaves (σ σ' : Script) : Prop := ∀ c, ∀ h ∈ σ'.waiting c, h ∈ σ.waiting c

/-- Whether a log call can meet `h`: it goes through at once, or the script says so. -/
def Meets (σ : Script) (c : LogCall) (h : Hindrance) : Prop := h = {} ∨ h ∈ σ.waiting c

theorem Leaves.refl (σ : Script) : σ.Leaves σ := fun _ _ => id

theorem Leaves.trans {σ σ' σ'' : Script} (h : σ.Leaves σ') (h' : σ'.Leaves σ'') :
    σ.Leaves σ'' :=
  fun c x hx => h c x (h' c x hx)

theorem Leaves.meets {σ σ' : Script} (h : σ.Leaves σ') {c : LogCall} {x : Hindrance}
    (hx : σ'.Meets c x) : σ.Meets c x :=
  hx.imp_right (h c x)

theorem meet_spec (σ : Script) (c : LogCall) :
    σ.Meets c (σ.meet c).1 ∧ σ.Leaves (σ.meet c).2 := by
  unfold meet
  cases hw : (σ.calls.find? c).getD [] with
  | nil => exact ⟨.inl rfl, .refl σ⟩
  | cons h hs =>
    refine ⟨.inr (by rw [waiting, hw]; exact List.mem_cons_self), fun d x hx => ?_⟩
    simp only [waiting, Table.find?_insert] at hx
    split at hx
    · rename_i hcd
      subst hcd
      rw [waiting, hw]
      exact List.mem_cons_of_mem h hx
    · exact hx

theorem leaves_takeReads (σ : Script) (topic : String) (p : Nat) :
    σ.Leaves (σ.takeReads topic p).2 := fun _ _ => id

end Script

/-- What a call goes on to when its topic is ready. -/
inductive Ready : Purpose → Bool → Stage → Prop
  | answer (enrolled : Bool) : Ready .answer enrolled (.finished (.ensured enrolled))
  | publish (item : Publication) (rest : List Publication) (acks : List Ack) (enrolled : Bool)
      (h : Hindrance) : Ready (.publish item rest acks) enrolled (.producing item rest acks h)

/-- What a call that needs `topic` goes on to at once. -/
inductive Asks (k : Broker) (topic : String) (purpose : Purpose) : Stage → Prop
  | known {s} (hk : topic ∈ k.topics) (hs : Ready purpose false s) : Asks k topic purpose s
  | closed (hk : topic ∉ k.topics) (hc : k.closed = true) :
      Asks k topic purpose (.finished (.failed .closed))
  | invalid (hk : topic ∉ k.topics) (hc : k.closed = false) {e}
      (hv : Topic.validate topic = .error e) : Asks k topic purpose (.finished (.failed e))
  | full (hk : topic ∉ k.topics) (hc : k.closed = false) (hv : Topic.validate topic = .ok ())
      (hf : k.config.maxTopics ≤ k.topics.length) :
      Asks k topic purpose (.finished (.failed (.topicCapacityExceeded k.config.maxTopics)))
  | creates (hk : topic ∉ k.topics) (hc : k.closed = false) (hv : Topic.validate topic = .ok ())
      (hf : k.topics.length < k.config.maxTopics) (h : Hindrance) :
      Asks k topic purpose (.creating topic purpose h)

/-- What a batch with some items left goes on to at once. -/
inductive Publishes (k : Broker) : List Publication → List Ack → Stage → Prop
  | done (acks : List Ack) : Publishes k [] acks (.finished (.published acks))
  | closed (item : Publication) (rest : List Publication) (acks : List Ack)
      (hc : k.closed = true) : Publishes k (item :: rest) acks (.finished (.failed .closed))
  | invalid (item : Publication) (rest : List Publication) (acks : List Ack)
      (hc : k.closed = false) {e} (hv : Channel.validateName item.channel.name = .error e) :
      Publishes k (item :: rest) acks (.finished (.failed e))
  | asks (item : Publication) (rest : List Publication) (acks : List Ack) (hc : k.closed = false)
      (hv : Channel.validateName item.channel.name = .ok ()) {s}
      (hs : Asks k item.channel.topic (.publish item rest acks) s) :
      Publishes k (item :: rest) acks s

theorem Asks.congr {k k' : Broker} {topic : String} {purpose : Purpose} {s : Stage}
    (h : Asks k topic purpose s) (ht : k'.topics = k.topics) (hc : k'.closed = k.closed)
    (hcfg : k'.config = k.config) : Asks k' topic purpose s := by
  cases h with
  | known hk hs => exact .known (ht ▸ hk) hs
  | closed hk hcl => exact .closed (ht ▸ hk) (hc.trans hcl)
  | invalid hk hcl hv => exact .invalid (ht ▸ hk) (hc.trans hcl) hv
  | full hk hcl hv hf =>
    rw [← hcfg]
    exact .full (ht ▸ hk) (hc.trans hcl) hv (by rw [ht, hcfg]; exact hf)
  | creates hk hcl hv hf h =>
    exact .creates (ht ▸ hk) (hc.trans hcl) hv (by rw [ht, hcfg]; exact hf) h

theorem Publishes.congr {k k' : Broker} {items : List Publication} {acks : List Ack} {s : Stage}
    (h : Publishes k items acks s) (ht : k'.topics = k.topics) (hc : k'.closed = k.closed)
    (hcfg : k'.config = k.config) : Publishes k' items acks s := by
  cases h with
  | done => exact .done acks
  | closed item rest _ hcl => exact .closed item rest acks (hc.trans hcl)
  | invalid item rest _ hcl hv => exact .invalid item rest acks (hc.trans hcl) hv
  | asks item rest _ hcl hv hs =>
    exact .asks item rest acks (hc.trans hcl) hv (hs.congr ht hc hcfg)

inductive Stage.Begins : Stage → Request → Prop
  | queued (q : Request) : Begins (.queued 0 q) q
  | delayed (n : Nat) (q : Request) : Begins (.delayed n q) q

def Stage.hindrance? : Stage → Option Hindrance
  | .creating _ _ h | .opening _ _ _ h | .producing _ _ _ h | .closing h => some h
  | _ => none

namespace Relay

/-- The call `id` goes on to stage `s`, and later log calls will meet `σ`. -/
def goes (r : Relay) (id b : Nat) (σ : Script) (s : Stage) : Relay :=
  { r with script := σ, calls := r.calls.insert id ⟨b, s⟩ }

@[simp] theorem find?_goes (r : Relay) (id b : Nat) (σ : Script) (s : Stage) :
    (r.goes id b σ s).calls.find? id = some ⟨b, s⟩ := by
  rw [goes, Table.find?_insert, if_pos rfl]

theorem broker_setBroker (r : Relay) {b : Nat} (hb : b < r.brokers.size) (v : Broker) (b' : Nat) :
    (r.setBroker b v).broker b' = if b' = b then v else r.broker b' := by
  unfold broker setBroker
  by_cases h : b' = b
  · subst h
    rw [if_pos rfl, Array.getElem?_setIfInBounds_self_of_lt hb, Option.getD_some]
  · rw [if_neg h, Array.getElem?_setIfInBounds_ne (Ne.symm h)]

theorem broker_push (r : Relay) (v : Broker) (b : Nat) :
    ({ r with brokers := r.brokers.push v } : Relay).broker b =
      if b = r.brokers.size then v else r.broker b := by
  simp only [broker, Array.getElem?_push]
  split <;> rfl

theorem setBroker_of_le (r : Relay) {b : Nat} (hb : r.brokers.size ≤ b) (v : Broker) :
    r.setBroker b v = r := by
  rw [setBroker, Array.setIfInBounds, dif_neg (by omega)]

@[simp] theorem size_setBroker (r : Relay) (b : Nat) (v : Broker) :
    (r.setBroker b v).brokers.size = r.brokers.size :=
  Array.size_setIfInBounds

/-- How a call of broker `b` goes on by itself. -/
inductive Moves (r : Relay) (b : Nat) : Signal → Stage → Stage → Prop
  | delays (n : Nat) (q : Request) : Moves r b .proceed (.queued (n + 1) q) (.delayed (n + 1) q)
  | ensures {stage s} {topic : String} (hb : stage.Begins (.ensure topic))
      (hs : Asks (r.broker b) topic .answer s) : Moves r b .proceed stage s
  | publishes {stage s} {items : List Publication} (hb : stage.Begins (.publish items))
      (hs : Publishes (r.broker b) items [] s) : Moves r b .proceed stage s
  | closes {stage} (hb : stage.Begins .close) (hc : (r.broker b).closed = true) :
      Moves r b .proceed stage (.finished .closed)
  | fails {stage : Stage} {d : Nat} {reason : String}
      (hh : stage.hindrance? = some ⟨d, some reason⟩) :
      Moves r b .proceed stage (.finished (.failed (.log reason)))
  | expires (topic : String) (purpose : Purpose) (h : Hindrance) :
      Moves r b .expire (.creating topic purpose h)
        (.finished (.failed (.topicCreateTimeout topic)))
  | createFails {topic : String} {purpose : Purpose} {d : Nat} {e : Error}
      (hl : r.log.create topic (r.broker b).config.partitions.toNat = .error e) :
      Moves r b .proceed (.creating topic purpose ⟨d, none⟩) (.finished (.failed e))
  | tailFails {topic : String} {purpose : Purpose} {readers : List Reader} {d : Nat} {e : Error}
      (hl : r.log.tail topic readers.length = .error e) :
      Moves r b .proceed (.opening topic purpose readers ⟨d, none⟩) (.finished (.failed e))
  | knows {topic : String} {purpose : Purpose} {readers : List Reader} {d : Nat} {c : Cursor} {s}
      (hl : r.log.tail topic readers.length = .ok c)
      (hn : (r.broker b).config.partitions.toNat ≤ readers.length + 1)
      (hk : topic ∈ (r.broker b).topics) (hs : Ready purpose false s) :
      Moves r b .proceed (.opening topic purpose readers ⟨d, none⟩) s
  | produceFails {item : Publication} {rest : List Publication} {acks : List Ack} {d : Nat}
      {e : Error}
      (hl : r.log.produce item.channel.topic item.channel.name item.payload = .error e) :
      Moves r b .proceed (.producing item rest acks ⟨d, none⟩) (.finished (.failed e))
  | drains {lanes : List Nat} (hl : ∀ i ∈ lanes, r.lanes.find? i = none) (h : Hindrance) :
      Moves r b .proceed (.draining lanes) (.closing h)

/-- What a step of the call `id` of broker `b` at some stage comes to. -/
inductive CallStep (r : Relay) (id b : Nat) : Signal → Stage → Relay → Prop
  | moves {sig stage s} {σ : Script} (hσ : r.script.Leaves σ) (hm : Moves r b sig stage s) :
      CallStep r id b sig stage (r.goes id b σ s)
  | closes {stage} (hb : stage.Begins .close) (hc : (r.broker b).closed = false) :
      CallStep r id b .proceed stage
        ((r.setBroker b { r.broker b with closed := true, crews := .empty }).goes id b r.script
          (.draining (r.broker b).crews.values.flatten))
  | creates {topic : String} {purpose : Purpose} {d : Nat} {log : Log} {σ : Script} {h : Hindrance}
      (hσ : r.script.Leaves σ) (hh : r.script.Meets .tail h)
      (hl : r.log.create topic (r.broker b).config.partitions.toNat = .ok log) :
      CallStep r id b .proceed (.creating topic purpose ⟨d, none⟩)
        ({ r with log }.goes id b σ (.opening topic purpose [] h))
  | opens {topic : String} {purpose : Purpose} {readers : List Reader} {d : Nat} {c : Cursor}
      (script : List ReadHindrance) {σ : Script} {h : Hindrance}
      (hσ : r.script.Leaves σ) (hh : r.script.Meets .tail h)
      (hl : r.log.tail topic readers.length = .ok c)
      (hn : readers.length + 1 < (r.broker b).config.partitions.toNat) :
      CallStep r id b .proceed (.opening topic purpose readers ⟨d, none⟩)
        (r.goes id b σ (.opening topic purpose (readers ++ [⟨c, script⟩]) h))
  | enrolls {topic : String} {purpose : Purpose} {readers : List Reader} {d : Nat} {c : Cursor} {s}
      (script : List ReadHindrance) {σ σ' : Script} (hσ : r.script.Leaves σ')
      (hl : r.log.tail topic readers.length = .ok c)
      (hn : (r.broker b).config.partitions.toNat ≤ readers.length + 1)
      (hk : topic ∉ (r.broker b).topics)
      (hf : (r.broker b).topics.length < (r.broker b).config.maxTopics)
      (hs : Ready purpose true s) :
      CallStep r id b .proceed (.opening topic purpose readers ⟨d, none⟩)
        (((({ r with script := σ } : Relay).setBroker b
          { r.broker b with topics := (r.broker b).topics ++ [topic] }).startLanes b topic
            (readers ++ [⟨c, script⟩])).goes id b σ' s)
  | rejects {topic : String} {purpose : Purpose} {readers : List Reader} {d : Nat} {c : Cursor}
      {σ : Script} (hσ : r.script.Leaves σ) (hl : r.log.tail topic readers.length = .ok c)
      (hn : (r.broker b).config.partitions.toNat ≤ readers.length + 1)
      (hk : topic ∉ (r.broker b).topics)
      (hf : (r.broker b).config.maxTopics ≤ (r.broker b).topics.length) :
      CallStep r id b .proceed (.opening topic purpose readers ⟨d, none⟩)
        ((r.remove topic).goes id b σ
          (.finished (.failed (.topicCapacityExceeded (r.broker b).config.maxTopics))))
  | produces {item : Publication} {rest : List Publication} {acks : List Ack} {d : Nat} {ack : Ack}
      {log : Log} {s} {σ : Script} (hσ : r.script.Leaves σ)
      (hl : r.log.produce item.channel.topic item.channel.name item.payload = .ok (ack, log))
      (hs : Publishes (r.broker b) rest (acks ++ [ack]) s) :
      CallStep r id b .proceed (.producing item rest acks ⟨d, none⟩)
        (({ r with log }.setBroker b
          { r.broker b with published := (r.broker b).published + 1 }).goes id b σ s)
  | closesLog {d : Nat} : CallStep r id b .proceed (.closing ⟨d, none⟩)
      ({ r with log := r.log.close }.goes id b r.script (.finished .closed))

theorem topicReady_goes (r : Relay) (id b : Nat) (purpose : Purpose) (enrolled : Bool) :
    ∃ σ s, r.topicReady id b purpose enrolled = r.goes id b σ s ∧ r.script.Leaves σ ∧
      Ready purpose enrolled s := by
  cases purpose with
  | answer => exact ⟨r.script, _, rfl, .refl _, .answer enrolled⟩
  | publish item rest acks =>
    exact ⟨_, _, rfl, (r.script.meet_spec .produce).2, .publish item rest acks enrolled _⟩

theorem ensureTopic_goes (r : Relay) (id b : Nat) (topic : String) (purpose : Purpose) :
    ∃ σ s, r.ensureTopic id b topic purpose = r.goes id b σ s ∧ r.script.Leaves σ ∧
      Asks (r.broker b) topic purpose s := by
  unfold ensureTopic
  by_cases hk : topic ∈ (r.broker b).topics
  · obtain ⟨σ, s, heq, hσ, hs⟩ := r.topicReady_goes id b purpose false
    exact ⟨σ, s, by simp only [if_pos hk, heq], hσ, .known hk hs⟩
  · simp only [if_neg hk]
    cases hc : (r.broker b).closed
    · cases hv : Topic.validate topic with
      | error e => exact ⟨r.script, _, rfl, .refl _, .invalid hk hc hv⟩
      | ok u =>
        by_cases hf : (r.broker b).config.maxTopics ≤ (r.broker b).topics.length
        · have hfull : (r.broker b).isFull = true := by simpa [Broker.isFull] using hf
          exact ⟨r.script, _, by simp only [hfull]; rfl, .refl _, .full hk hc hv hf⟩
        · have hroom : (r.broker b).isFull = false := by simpa [Broker.isFull] using hf
          exact ⟨_, _, by simp only [hroom]; rfl, (r.script.meet_spec .create).2,
            .creates hk hc hv (by omega) _⟩
    · exact ⟨r.script, _, rfl, .refl _, .closed hk hc⟩

theorem publishNext_goes (r : Relay) (id b : Nat) (items : List Publication) (acks : List Ack) :
    ∃ σ s, r.publishNext id b items acks = r.goes id b σ s ∧ r.script.Leaves σ ∧
      Publishes (r.broker b) items acks s := by
  unfold publishNext
  cases items with
  | nil => exact ⟨r.script, _, rfl, .refl _, .done acks⟩
  | cons item rest =>
    cases hc : (r.broker b).closed
    · cases hv : Channel.validateName item.channel.name with
      | error e =>
        exact ⟨r.script, _, by simp only [hv]; rfl, .refl _, .invalid item rest acks hc hv⟩
      | ok u =>
        obtain ⟨σ, s, heq, hσ, hs⟩ :=
          r.ensureTopic_goes id b item.channel.topic (.publish item rest acks)
        exact ⟨σ, s, by simp only [hv]; exact heq, hσ, .asks item rest acks hc hv hs⟩
    · exact ⟨r.script, _, rfl, .refl _, .closed item rest acks hc⟩

theorem start_step (r : Relay) (id b : Nat) {stage : Stage} {q : Request} (hb : stage.Begins q) :
    CallStep r id b .proceed stage (r.start id b q) := by
  cases q with
  | ensure topic =>
    obtain ⟨σ, s, heq, hσ, hs⟩ := r.ensureTopic_goes id b topic .answer
    rw [start, heq]
    exact .moves hσ (.ensures hb hs)
  | publish items =>
    obtain ⟨σ, s, heq, hσ, hs⟩ := r.publishNext_goes id b items []
    rw [start, heq]
    exact .moves hσ (.publishes hb hs)
  | close =>
    by_cases hc : (r.broker b).closed = true
    · simp only [start, closeBroker, if_pos hc]
      exact .moves (.refl _) (.closes hb hc)
    · simp only [start, closeBroker, if_neg hc]
      exact .closes hb (by simpa using hc)

theorem script_dismiss (ids : List Nat) (r : Relay) : (dismiss ids r).script = r.script := by
  induction ids generalizing r with
  | nil => rfl
  | cons i ids ih => exact ih _

theorem script_addLanes (b : Nat) (topic : String) (p : Nat) (readers : List Reader) (r : Relay) :
    (addLanes b topic p readers r).2.script = r.script := by
  induction readers generalizing p r with
  | nil => rfl
  | cons reader readers ih => exact ih _ _

theorem script_startLanes (r : Relay) (b : Nat) (topic : String) (readers : List Reader) :
    (r.startLanes b topic readers).script = r.script :=
  (script_addLanes ..).trans (script_dismiss ..)

theorem enroll_step {r : Relay} {id b : Nat} {topic : String} {purpose : Purpose}
    {readers : List Reader} {d : Nat} {c : Cursor} (script : List ReadHindrance) {σ : Script}
    (hσ : r.script.Leaves σ) (hl : r.log.tail topic readers.length = .ok c)
    (hn : (r.broker b).config.partitions.toNat ≤ readers.length + 1) :
    CallStep r id b .proceed (.opening topic purpose readers ⟨d, none⟩)
      (({ r with script := σ } : Relay).enroll id b topic purpose (readers ++ [⟨c, script⟩])) := by
  have hbroker : ({ r with script := σ } : Relay).broker b = r.broker b := rfl
  unfold enroll
  by_cases hk : topic ∈ (r.broker b).topics
  · obtain ⟨σ', s, heq, hσ', hs⟩ :=
      ({ r with script := σ } : Relay).topicReady_goes id b purpose false
    simp only [hbroker, Broker.enroll_of_mem hk, heq]
    exact .moves (hσ.trans hσ') (.knows hl hn hk hs)
  · by_cases hf : (r.broker b).config.maxTopics ≤ (r.broker b).topics.length
    · simp only [hbroker, Broker.enroll_of_full hk hf]
      exact .rejects hσ hl hn hk hf
    · have hroom : (r.broker b).topics.length < (r.broker b).config.maxTopics := by omega
      obtain ⟨σ', s, heq, hσ', hs⟩ := ((({ r with script := σ } : Relay).setBroker b
        { r.broker b with topics := (r.broker b).topics ++ [topic] }).startLanes b topic
          (readers ++ [⟨c, script⟩])).topicReady_goes id b purpose true
      rw [script_startLanes] at hσ'
      simp only [hbroker, Broker.enroll_of_room hk hroom, heq]
      exact .enrolls script (hσ.trans hσ') hl hn hk hroom hs

theorem proceedCall_step {r s : Relay} {id b : Nat} {stage : Stage}
    (hw : 0 < (r.broker b).config.partitions.toNat) (h : r.proceedCall id b stage = some s) :
    CallStep r id b .proceed stage s := by
  cases stage with
  | queued n q =>
    cases n with
    | zero => cases h; exact r.start_step id b (.queued q)
    | succ n => cases h; exact .moves (.refl _) (.delays n q)
  | delayed n q => cases h; exact r.start_step id b (.delayed n q)
  | creating topic purpose h' =>
    obtain ⟨d, _ | reason⟩ := h'
    · cases hl : r.log.create topic (r.broker b).config.partitions.toNat with
      | error e =>
        simp only [proceedCall, reach, hl] at h
        cases h
        exact .moves (.refl _) (.createFails hl)
      | ok log =>
        have hopen : ¬ (({ r with log } : Relay).broker b).config.partitions.toNat ≤
            ([] : List Reader).length := Nat.not_le.2 hw
        simp only [proceedCall, reach, hl, bind, Except.bind, pure, Except.pure, openNext,
          if_neg hopen] at h
        cases h
        exact .creates (r.script.meet_spec .tail).2 (r.script.meet_spec .tail).1 hl
    · cases h
      exact .moves (.refl _) (.fails rfl)
  | opening topic purpose readers h' =>
    obtain ⟨d, _ | reason⟩ := h'
    · cases hl : r.log.tail topic readers.length with
      | error e =>
        simp only [proceedCall, reach, hl] at h
        cases h
        exact .moves (.refl _) (.tailFails hl)
      | ok c =>
        simp only [proceedCall, reach, hl, bind, Except.bind, pure, Except.pure, openNext,
          List.length_append, List.length_singleton] at h
        split at h
        · rename_i hn
          cases h
          exact enroll_step _ (r.script.leaves_takeReads _ _) hl hn
        · rename_i hn
          cases h
          have hreads := r.script.leaves_takeReads topic readers.length
          have hmeet := (r.script.takeReads topic readers.length).2.meet_spec .tail
          exact .opens _ (hreads.trans hmeet.2) (hreads.meets hmeet.1) hl (Nat.lt_of_not_le hn)
    · cases h
      exact .moves (.refl _) (.fails rfl)
  | producing item rest acks h' =>
    obtain ⟨d, _ | reason⟩ := h'
    · cases hl : r.log.produce item.channel.topic item.channel.name item.payload with
      | error e =>
        simp only [proceedCall, reach, hl] at h
        cases h
        exact .moves (.refl _) (.produceFails hl)
      | ok x =>
        obtain ⟨ack, log⟩ := x
        obtain ⟨σ, s, heq, hσ, hs⟩ := ({ r.setBroker b { r.broker b with
          published := (r.broker b).published + 1 } with log } : Relay).publishNext_goes id b rest
            (acks ++ [ack])
        simp only [proceedCall, reach, hl, bind, Except.bind, pure, Except.pure, heq] at h
        cases h
        refine .produces hσ hl ?_
        by_cases hb : b < r.brokers.size
        · have hk := r.broker_setBroker hb
            { r.broker b with published := (r.broker b).published + 1 } b
          rw [if_pos rfl] at hk
          exact hs.congr (by rw [← congrArg Broker.topics hk]; rfl)
            (by rw [← congrArg Broker.closed hk]; rfl) (by rw [← congrArg Broker.config hk]; rfl)
        · rw [r.setBroker_of_le (Nat.le_of_not_lt hb)] at hs
          exact hs
    · cases h
      exact .moves (.refl _) (.fails rfl)
  | draining lanes =>
    simp only [proceedCall] at h
    split at h
    · cases h
    · rename_i hl
      cases h
      refine .moves (r.script.meet_spec .close).2 (.drains (fun i hi => ?_) _)
      simpa [Table.contains] using fun hc => hl (List.any_eq_true.2 ⟨i, hi, hc⟩)
  | closing h' =>
    obtain ⟨d, _ | reason⟩ := h'
    · cases h
      exact .closesLog
    · cases h
      exact .moves (.refl _) (.fails rfl)
  | finished a => cases h

theorem stepCall_step {r s : Relay} {id : Nat} {sig : Signal}
    (hw : ∀ b, 0 < (r.broker b).config.partitions.toNat) (h : r.stepCall id sig = some s) :
    ∃ b stage, r.calls.find? id = some ⟨b, stage⟩ ∧ CallStep r id b sig stage s := by
  unfold stepCall at h
  cases hc : r.calls.find? id with
  | none => simp [hc] at h
  | some call =>
    obtain ⟨b, stage⟩ := call
    refine ⟨b, stage, rfl, ?_⟩
    simp only [hc, Option.bind_eq_bind, Option.bind_some] at h
    cases sig with
    | proceed => exact proceedCall_step (hw b) h
    | expire =>
      cases stage with
      | creating topic purpose h' => cases h; exact .moves (.refl _) (.expires topic purpose h')
      | _ => cases h
    | stop => cases h

end Relay
end EventRelay
