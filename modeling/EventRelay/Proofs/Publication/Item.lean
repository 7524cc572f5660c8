import EventRelay.Proofs.Relay.Steps
/-!
The work of a call on one item of its batch. It depends neither on the items before and after it nor
on what other calls there are. Main statements: `act_withCalls`, what is no call's does not see the
calls, `itemStep` and `itemRun`.
-/
namespace EventRelay

def Action.isCallFree : Action → Bool
  | .step (.call _) _ | .submit .. | .collect _ => false
  | _ => true

namespace Relay

/-- `r` with other calls; the next one gets the number `n`. -/
def withCalls (r : Relay) (calls : Table Nat Call) (n : Nat) : Relay :=
  { r with calls, nextCall := n }

section
variable (r : Relay) (c : Table Nat Call) (n : Nat)

theorem stepRemoval_withCalls (id : Nat) (sig : Signal) :
    (r.withCalls c n).stepRemoval id sig = (r.stepRemoval id sig).map (·.withCalls c n) := by
  simp only [stepRemoval, withCalls]
  cases r.removals.find? id with
  | none => rfl
  | some removal =>
    obtain ⟨topic, _ | h⟩ := removal <;> cases sig <;> rfl

theorem stepLane_withCalls (i : Nat) (sig : Signal) :
    (r.withCalls c n).stepLane i sig = (r.stepLane i sig).map (·.withCalls c n) := by
  simp only [stepLane, stepLaneOver, withCalls]
  cases r.lanes.find? i with
  | none => rfl
  | some lane =>
    cases sig with
    | stop =>
      have hsame : isCancelled { r with calls := c, nextCall := n } lane = r.isCancelled lane := rfl
      simp only [Option.bind_eq_bind, Option.bind_some, hsame]
      cases r.isCancelled lane <;> rfl
    | expire => rfl
    | proceed =>
      simp only [Option.bind_eq_bind, Option.bind_some]
      cases lane.stage with
      | retrying => rfl
      | reading => cases lane.reader.read r.log <;> simp only [react] <;> rfl

theorem stepFeed_withCalls (i : Nat) (sig : Signal) :
    (r.withCalls c n).stepFeed i sig = (r.stepFeed i sig).map (·.withCalls c n) := by
  simp only [stepFeed, withCalls]
  cases r.feeds.find? i with
  | none => rfl
  | some f =>
    obtain ⟨_ | sub, sink, seen, cancelled, _ | result⟩ := f
    · rfl
    · rfl
    · cases sig with
      | stop => cases cancelled <;> rfl
      | expire => rfl
      | proceed =>
        have hsame : take { r with calls := c, nextCall := n } sub =
            ((r.take sub).1, (r.take sub).2.withCalls c n) := rfl
        simp only [Option.bind_eq_bind, Option.bind_some, hsame]
        obtain ⟨taken, q⟩ := r.take sub
        cases taken with
        | empty | disconnected => rfl
        | message m =>
          simp only
          cases sink seen m <;> rfl
    · rfl

theorem act_withCalls {a : Action} (ha : a.isCallFree = true) :
    (r.withCalls c n).act a = (r.act a).map (·.withCalls c n) := by
  cases a with
  | step j sig =>
    cases j with
    | call => cases ha
    | removal id => exact r.stepRemoval_withCalls c n id sig
    | lane i => exact r.stepLane_withCalls c n i sig
    | feed i => exact r.stepFeed_withCalls c n i sig
  | submit | collect => cases ha
  | addBroker config g =>
    simp only [act, addBroker]
    cases config.validate with
    | error e => rfl
    | ok =>
      have hsame : (r.withCalls c n).registry g = r.registry g := rfl
      simp only [hsame]
      by_cases hw : (r.registry g).workers = config.workers
      · simp only [hw, ne_eq, not_true_eq_false, if_false]
        rfl
      · simp only [hw, ne_eq, not_false_eq_true, if_true]
        rfl
  | subscribe b ch =>
    simp only [act, subscribe]
    cases Channel.validateName ch.name <;> rfl
  | serve b ch sink cancelled =>
    simp only [act, serve, subscribe]
    cases Channel.validateName ch.name <;> rfl
  | create t m =>
    simp only [act, withCalls]
    cases r.log.create t m <;> rfl
  | delete t =>
    simp only [act, withCalls]
    cases r.log.delete t <;> rfl
  | produce t key value =>
    simp only [act, withCalls]
    cases r.log.produce t key value <;> rfl
  | addRegistry | unsubscribe | detach | take | takeMany | cancel | dispatch | script | closeLog =>
    rfl

theorem after_withCalls {acts : List Action} (h : ∀ a ∈ acts, a.isCallFree = true) :
    (r.withCalls c n).after acts = (r.after acts).map (·.withCalls c n) := by
  induction acts generalizing r with
  | nil => rfl
  | cons a acts ih =>
    rw [after, after, r.act_withCalls c n (h a List.mem_cons_self)]
    cases r.act a with
    | none => rfl
    | some s => exact ih s fun a ha => h a (List.mem_cons_of_mem _ ha)

end
end Relay

/-! ### One item -/

/-- How far an item has come that is not acknowledged yet. -/
inductive Progress where
  | creating (topic : String) (h : Hindrance)
  | opening (topic : String) (readers : List Reader) (h : Hindrance)
  | producing (h : Hindrance)
  | failed (e : Error)

/-- Where the call stands that publishes `rest` after the item and got `acks` before it. -/
def Progress.stage (item : Publication) (rest : List Publication) (acks : List Ack) :
    Progress → Stage
  | .creating topic h => .creating topic (.publish item rest acks) h
  | .opening topic readers h => .opening topic (.publish item rest acks) readers h
  | .producing h => .producing item rest acks h
  | .failed e => .finished (.failed e)

namespace Relay

/-- `r` with the calls `c` and besides them the call `id`, which stands at `x`. -/
def holding (r : Relay) (c : Table Nat Call) (n id b : Nat) (x : Stage) : Relay :=
  r.withCalls (c.insert id ⟨b, x⟩) n

/-- `f` gets the item to where it does not depend on other calls, on the number of its own, or on
what this one publishes before and after it. -/
def Settles (b : Nat) (item : Publication)
    (f : Table Nat Call → Nat → Nat → List Publication → List Ack → Relay) : Prop :=
  ∃ (q : Relay) (p : Progress), ∀ c n id rest acks,
    f c n id rest acks = q.holding c n id b (p.stage item rest acks)

section
variable (r : Relay) (b : Nat) (item : Publication)

theorem settles_fail (e : Error) :
    Settles b item fun c n id _ _ => (r.withCalls c n).fail id b e :=
  ⟨r, .failed e, fun _ _ _ _ _ => rfl⟩

theorem settles_topicReady (enrolled : Bool) : Settles b item fun c n id rest acks =>
    (r.withCalls c n).topicReady id b (.publish item rest acks) enrolled :=
  ⟨(r.meet .produce).2, .producing (r.meet .produce).1, fun _ _ _ _ _ => rfl⟩

theorem settles_ensureTopic (topic : String) : Settles b item fun c n id rest acks =>
    (r.withCalls c n).ensureTopic id b topic (.publish item rest acks) := by
  have hbroker (c : Table Nat Call) (n : Nat) : (r.withCalls c n).broker b = r.broker b := rfl
  simp only [ensureTopic, hbroker]
  by_cases hk : topic ∈ (r.broker b).topics
  · simp only [if_pos hk]
    exact r.settles_topicReady b item false
  · cases hc : (r.broker b).closed with
    | true =>
      simp only [if_neg hk, if_true]
      exact r.settles_fail b item .closed
    | false =>
      simp only [if_neg hk, Bool.false_eq_true, if_false]
      cases Topic.validate topic with
      | error e => exact r.settles_fail b item e
      | ok =>
        cases hf : (r.broker b).isFull with
        | true => exact r.settles_fail b item (.topicCapacityExceeded _)
        | false =>
          exact ⟨(r.meet .create).2, .creating topic (r.meet .create).1, fun _ _ _ _ _ => rfl⟩

theorem settles_publishNext : Settles b item fun c n id rest acks =>
    (r.withCalls c n).publishNext id b (item :: rest) acks := by
  have hbroker (c : Table Nat Call) (n : Nat) : (r.withCalls c n).broker b = r.broker b := rfl
  simp only [publishNext, hbroker]
  cases hc : (r.broker b).closed with
  | true =>
    simp only [if_true]
    exact r.settles_fail b item .closed
  | false =>
    simp only [Bool.false_eq_true, if_false]
    cases Channel.validateName item.channel.name with
    | error e => exact r.settles_fail b item e
    | ok => exact r.settles_ensureTopic b item item.channel.topic

theorem dismiss_withCalls (ids : List Nat) (c : Table Nat Call) (n : Nat) :
    dismiss ids (r.withCalls c n) = (dismiss ids r).withCalls c n := by
  induction ids generalizing r with
  | nil => rfl
  | cons i ids ih => exact ih { r with lanes := _ }

theorem addLanes_withCalls (topic : String) (p : Nat) (readers : List Reader) (c : Table Nat Call)
    (n : Nat) : addLanes b topic p readers (r.withCalls c n) =
      ((addLanes b topic p readers r).1, (addLanes b topic p readers r).2.withCalls c n) := by
  induction readers generalizing p r with
  | nil => rfl
  | cons reader readers ih =>
    simp only [addLanes]
    exact congrArg (fun x : List Nat × Relay => (r.nextLane :: x.1, x.2)) (ih { r with
      lanes := r.lanes.insert r.nextLane { broker := b, topic, partition := p, reader }
      nextLane := r.nextLane + 1 } (p + 1))

theorem startLanes_withCalls (topic : String) (readers : List Reader) (c : Table Nat Call)
    (n : Nat) : (r.withCalls c n).startLanes b topic readers =
      (r.startLanes b topic readers).withCalls c n := by
  have hbroker : (r.withCalls c n).broker b = r.broker b := rfl
  simp only [startLanes, hbroker, dismiss_withCalls, addLanes_withCalls]
  rfl

theorem settles_enroll (topic : String) (readers : List Reader) :
    Settles b item fun c n id rest acks =>
      (r.withCalls c n).enroll id b topic (.publish item rest acks) readers := by
  have hbroker (c : Table Nat Call) (n : Nat) : (r.withCalls c n).broker b = r.broker b := rfl
  simp only [enroll, hbroker]
  cases (r.broker b).enroll topic with
  | mk enrollment v =>
    cases enrollment with
    | enrolled =>
      have hstart (c : Table Nat Call) (n : Nat) :
          ((r.withCalls c n).setBroker b v).startLanes b topic readers =
            ((r.setBroker b v).startLanes b topic readers).withCalls c n :=
        (r.setBroker b v).startLanes_withCalls b topic readers c n
      simp only [hstart]
      exact settles_topicReady _ b item true
    | known => exact r.settles_topicReady b item false
    | full => exact (r.remove topic).settles_fail b item _

theorem settles_openNext (topic : String) (readers : List Reader) :
    Settles b item fun c n id rest acks =>
      (r.withCalls c n).openNext id b topic (.publish item rest acks) readers := by
  have hbroker (c : Table Nat Call) (n : Nat) : (r.withCalls c n).broker b = r.broker b := rfl
  simp only [openNext, hbroker]
  by_cases hn : (r.broker b).config.partitions.toNat ≤ readers.length
  · simp only [if_pos hn]
    exact r.settles_enroll b item topic readers
  · simp only [if_neg hn]
    exact ⟨(r.meet .tail).2, .opening topic readers (r.meet .tail).1, fun _ _ _ _ _ => rfl⟩

/-- A call does not care for where it stood when it goes on to its next item. -/
theorem publishNext_holding (c : Table Nat Call) (n id : Nat) (x : Stage)
    (items : List Publication) (acks : List Ack) :
    (r.holding c n id b x).publishNext id b items acks =
      (r.withCalls c n).publishNext id b items acks := by
  cases items with
  | nil =>
    simp only [publishNext, answer, setStage, holding, withCalls, Table.insert_insert]
  | cons item rest =>
    obtain ⟨q, p, hp⟩ := r.settles_publishNext b item
    simp only [holding, hp, Table.insert_insert]

/-! ### One step -/

/-- What a step of the call comes to while the item stands at `p`: the same for all calls. -/
inductive ItemStep (p : Progress) (sig : Signal) : Prop
  | waits (h : ∀ c n id rest acks,
      (r.holding c n id b (p.stage item rest acks)).stepCall id sig = none)
  | moves (q : Relay) (p' : Progress) (h : ∀ c n id rest acks,
      (r.holding c n id b (p.stage item rest acks)).stepCall id sig =
        some (q.holding c n id b (p'.stage item rest acks)))
  | acks (q : Relay) (ack : Ack) (h : ∀ c n id rest acks,
      (r.holding c n id b (p.stage item rest acks)).stepCall id sig =
        some ((q.withCalls c n).publishNext id b rest (acks ++ [ack])))

theorem find?_holding (c : Table Nat Call) (n id : Nat) (x : Stage) :
    (r.holding c n id b x).calls.find? id = some ⟨b, x⟩ := by
  rw [holding, withCalls, Table.find?_insert, if_pos rfl]

theorem stepCall_holding (c : Table Nat Call) (n id : Nat) (x : Stage) :
    (r.holding c n id b x).stepCall id .proceed = (r.holding c n id b x).proceedCall id b x := by
  simp only [stepCall, find?_holding, Option.bind_eq_bind, Option.bind_some]

variable {r b item}

theorem Settles.step {p : Progress} {sig : Signal}
    {f : Table Nat Call → Nat → Nat → List Publication → List Ack → Relay}
    (hf : Settles b item f) (h : ∀ c n id rest acks,
      (r.holding c n id b (p.stage item rest acks)).stepCall id sig =
        some (f (c.insert id ⟨b, p.stage item rest acks⟩) n id rest acks)) :
    ItemStep r b item p sig := by
  obtain ⟨q, p', hq⟩ := hf
  refine .moves q p' fun c n id rest acks => ?_
  rw [h, hq, holding, holding, Table.insert_insert]

variable (r b item)

theorem log_holding (c : Table Nat Call) (n id : Nat) (x : Stage) :
    (r.holding c n id b x).log = r.log := rfl

theorem broker_holding (c : Table Nat Call) (n id : Nat) (x : Stage) (b' : Nat) :
    (r.holding c n id b x).broker b' = r.broker b' := rfl

theorem itemStep_of_failure {p : Progress} {h : Hindrance} {reason : String}
    (hp : (p.stage item [] []).hindrance? = some h) (hh : h.failure = some reason) :
    ItemStep r b item p .proceed := by
  refine (r.settles_fail b item (.log reason)).step fun c n id rest acks => ?_
  rw [stepCall_holding]
  cases p with
  | creating | opening | producing =>
    cases hp
    simp only [Progress.stage, proceedCall, reach, hh]
    rfl
  | failed => cases hp

theorem itemStep_creating (topic : String) (h : Hindrance) :
    ItemStep r b item (.creating topic h) .proceed := by
  cases hh : h.failure with
  | some reason => exact r.itemStep_of_failure b item rfl hh
  | none =>
    cases hl : r.log.create topic (r.broker b).config.partitions.toNat with
    | error e =>
      refine (r.settles_fail b item e).step fun c n id rest acks => ?_
      rw [stepCall_holding]
      simp only [Progress.stage, proceedCall, reach, hh, log_holding, broker_holding, hl]
      rfl
    | ok log =>
      have hopens := ({ r with log } : Relay).settles_openNext b item topic []
      refine hopens.step fun c n id rest acks => ?_
      rw [stepCall_holding]
      simp only [Progress.stage, proceedCall, reach, hh, log_holding, broker_holding, hl]
      rfl

theorem itemStep_opening (topic : String) (readers : List Reader) (h : Hindrance) :
    ItemStep r b item (.opening topic readers h) .proceed := by
  cases hh : h.failure with
  | some reason => exact r.itemStep_of_failure b item rfl hh
  | none =>
    cases hl : r.log.tail topic readers.length with
    | error e =>
      refine (r.settles_fail b item e).step fun c n id rest acks => ?_
      rw [stepCall_holding]
      simp only [Progress.stage, proceedCall, reach, hh, log_holding, hl]
      rfl
    | ok cursor =>
      have hopens := ({ r with script := (r.script.takeReads topic readers.length).2 } :
        Relay).settles_openNext b item topic
          (readers ++ [⟨cursor, (r.script.takeReads topic readers.length).1⟩])
      refine hopens.step fun c n id rest acks => ?_
      rw [stepCall_holding]
      simp only [Progress.stage, proceedCall, reach, hh, log_holding, hl]
      rfl

theorem itemStep_producing (h : Hindrance) : ItemStep r b item (.producing h) .proceed := by
  cases hh : h.failure with
  | some reason => exact r.itemStep_of_failure b item rfl hh
  | none =>
    cases hl : r.log.produce item.channel.topic item.channel.name item.payload with
    | error e =>
      refine (r.settles_fail b item e).step fun c n id rest acks => ?_
      rw [stepCall_holding]
      simp only [Progress.stage, proceedCall, reach, hh, log_holding, hl]
      rfl
    | ok x =>
      obtain ⟨ack, log⟩ := x
      let v := { r.broker b with published := (r.broker b).published + 1 }
      refine .acks { r.setBroker b v with log } ack fun c n id rest acks => ?_
      rw [stepCall_holding, ← publishNext_holding _ b c n id (.producing item rest acks h)]
      simp only [Progress.stage, proceedCall, reach, hh, log_holding, broker_holding, hl]
      rfl

theorem itemStep (p : Progress) (sig : Signal) : ItemStep r b item p sig := by
  cases sig with
  | stop =>
    refine .waits fun c n id rest acks => ?_
    simp only [stepCall, find?_holding, Option.bind_eq_bind, Option.bind_some]
  | expire =>
    cases p with
    | creating topic h =>
      refine (r.settles_fail b item (.topicCreateTimeout topic)).step fun c n id rest acks => ?_
      simp only [stepCall, find?_holding, Option.bind_eq_bind, Option.bind_some]
      rfl
    | opening | producing | failed =>
      refine .waits fun c n id rest acks => ?_
      simp only [stepCall, find?_holding, Option.bind_eq_bind, Option.bind_some]
      rfl
  | proceed =>
    cases p with
    | creating topic h => exact r.itemStep_creating b item topic h
    | opening topic readers h => exact r.itemStep_opening b item topic readers h
    | producing h => exact r.itemStep_producing b item h
    | failed e =>
      refine .waits fun c n id rest acks => ?_
      rw [stepCall_holding]
      rfl

end

/-! ### A whole item -/

abbrev Turn := List Action × Signal

def turn (id : Nat) (t : Turn) : List Action := t.1 ++ [.step (.call id) t.2]

/-- What some turns come to while the item stands at `p`: it comes to no end of them, it gets
further, or it is acknowledged in the course of them. -/
inductive ItemRun (r : Relay) (b : Nat) (item : Publication) (p : Progress) (ts : List Turn) : Prop
  | stuck (h : ∀ c n id rest acks,
      (r.holding c n id b (p.stage item rest acks)).after (ts.flatMap (turn id)) = none)
  | goes (q : Relay) (p' : Progress) (h : ∀ c n id rest acks,
      (r.holding c n id b (p.stage item rest acks)).after (ts.flatMap (turn id)) =
        some (q.holding c n id b (p'.stage item rest acks)))
  | acks (before later : List Turn) (q : Relay) (ack : Ack) (hts : ts = before ++ later)
      (h : ∀ c n id rest acks,
        (r.holding c n id b (p.stage item rest acks)).after (before.flatMap (turn id)) =
          some ((q.withCalls c n).publishNext id b rest (acks ++ [ack])))

theorem after_turn (r : Relay) (c : Table Nat Call) (n id b : Nat) (x : Stage) {t : Turn}
    (ht : ∀ a ∈ t.1, a.isCallFree = true) :
    (r.holding c n id b x).after (turn id t) =
      (r.after t.1).bind fun q => (q.holding c n id b x).stepCall id t.2 := by
  rw [turn, after_append, holding, r.after_withCalls _ n ht]
  cases r.after t.1 with
  | none => rfl
  | some q =>
    simp only [Option.map_some, Option.bind_some, after, act, step]
    exact Option.bind_fun_some _

theorem itemRun (r : Relay) (b : Nat) (item : Publication) (p : Progress) {ts : List Turn}
    (hts : ∀ t ∈ ts, ∀ a ∈ t.1, a.isCallFree = true) : ItemRun r b item p ts := by
  induction ts generalizing r p with
  | nil => exact .goes r p fun _ _ _ _ _ => rfl
  | cons t ts ih =>
    have hfree := hts t List.mem_cons_self
    have hturn (c : Table Nat Call) (n id : Nat) (rest : List Publication) (acks : List Ack) :
        (r.holding c n id b (p.stage item rest acks)).after ((t :: ts).flatMap (turn id)) =
          ((r.after t.1).bind fun q =>
            (q.holding c n id b (p.stage item rest acks)).stepCall id t.2).bind fun q =>
              q.after (ts.flatMap (turn id)) := by
      rw [List.flatMap_cons, after_append, after_turn r c n id b _ hfree]
    cases hothers : r.after t.1 with
    | none =>
      refine .stuck fun c n id rest acks => ?_
      rw [hturn, hothers]
      rfl
    | some q =>
      cases q.itemStep b item p t.2 with
      | waits h =>
        refine .stuck fun c n id rest acks => ?_
        rw [hturn, hothers, Option.bind_some, h]
        rfl
      | acks q' ack h =>
        refine .acks [t] ts q' ack rfl fun c n id rest acks => ?_
        rw [List.flatMap_singleton, after_turn r c n id b _ hfree, hothers, Option.bind_some, h]
      | moves q' p' h =>
        have hnext (c : Table Nat Call) (n id : Nat) (rest : List Publication)
            (acks : List Ack) (us : List Turn) :
            (r.holding c n id b (p.stage item rest acks)).after ((t :: us).flatMap (turn id)) =
              (q'.holding c n id b (p'.stage item rest acks)).after (us.flatMap (turn id)) := by
          rw [List.flatMap_cons, after_append, after_turn r c n id b _ hfree, hothers,
            Option.bind_some, h, Option.bind_some]
        cases ih q' p' fun t' ht' => hts t' (List.mem_cons_of_mem _ ht') with
        | stuck hrest => exact .stuck fun c n id rest acks => (hnext ..).trans (hrest ..)
        | goes q'' p'' hrest =>
          exact .goes q'' p'' fun c n id rest acks => (hnext ..).trans (hrest ..)
        | acks before later q'' ack heq hrest =>
          exact .acks (t :: before) later q'' ack (by rw [heq]; rfl)
            fun c n id rest acks => (hnext ..).trans (hrest ..)

end Relay
end EventRelay
