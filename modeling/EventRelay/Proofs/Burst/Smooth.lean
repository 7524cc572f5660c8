import EventRelay.Proofs.Relay.Steps
/-!
A relay whose log calls wait for nothing and whose reads meet nothing. Main statement:
`Smooth.stepCall`, it stays so while calls take steps.
-/
namespace EventRelay

/-- Nothing that log calls meet takes time, and reads meet nothing. -/
structure Script.Smooth (σ : Script) : Prop where
  calls : ∀ c, ∀ h ∈ σ.waiting c, h.delay = 0
  reads : ∀ k xs, σ.reads.find? k = some xs → ∀ x ∈ xs, x = .none

def Reader.Smooth (rd : Reader) : Prop := ∀ x ∈ rd.script, x = .none

def Stage.Smooth : Stage → Prop
  | .queued n _ => n = 0
  | .delayed .. => False
  | .creating _ _ h | .producing _ _ _ h | .closing h => h.delay = 0
  | .opening _ _ readers h => h.delay = 0 ∧ ∀ rd ∈ readers, rd.Smooth
  | .draining _ | .finished _ => True

theorem Script.Smooth.meet {σ : Script} (h : σ.Smooth) (c : LogCall) :
    (σ.meet c).1.delay = 0 ∧ (σ.meet c).2.Smooth := by
  obtain ⟨hmeets, hleaves⟩ := σ.meet_spec c
  have hreads : (σ.meet c).2.reads = σ.reads := by
    unfold Script.meet
    split <;> rfl
  refine ⟨?_, fun d x hx => h.calls d x (hleaves d x hx), by rw [hreads]; exact h.reads⟩
  obtain hnone | hscripted := hmeets
  · rw [hnone]
  · exact h.calls c _ hscripted

theorem Script.Smooth.takeReads {σ : Script} (h : σ.Smooth) (topic : String) (p : Nat) :
    (∀ x ∈ (σ.takeReads topic p).1, x = .none) ∧ (σ.takeReads topic p).2.Smooth := by
  refine ⟨fun x hx => ?_, h.calls, fun k xs hk => ?_⟩
  · rw [Script.takeReads] at hx
    cases hf : σ.reads.find? (topic, p) with
    | none =>
      rw [hf] at hx
      cases hx
    | some xs =>
      rw [hf] at hx
      exact h.reads _ xs hf x hx
  · exact h.reads k xs (Table.find?_erase_eq_some.1 hk).2

namespace Relay

structure Smooth (r : Relay) : Prop where
  script : r.script.Smooth
  calls : ∀ id c, r.calls.find? id = some c → c.stage.Smooth
  lanes : ∀ i l, r.lanes.find? i = some l → l.reader.Smooth

section
variable {r s : Relay} {id b : Nat}

theorem Smooth.setStage (h : r.Smooth) {stage : Stage} (hs : stage.Smooth) :
    (r.setStage id b stage).Smooth := by
  refine ⟨h.script, fun j c hc => ?_, h.lanes⟩
  obtain ⟨-, rfl⟩ | ⟨-, hc⟩ := Table.find?_insert_eq_some.1 hc
  · exact hs
  · exact h.calls j c hc

theorem Smooth.answer (h : r.Smooth) (a : Response) : (r.answer id b a).Smooth := h.setStage trivial

theorem Smooth.fail (h : r.Smooth) (e : Error) : (r.fail id b e).Smooth := h.answer _

theorem Smooth.setLog (h : r.Smooth) (log : Log) : ({ r with log } : Relay).Smooth :=
  ⟨h.script, h.calls, h.lanes⟩

theorem Smooth.setScript (h : r.Smooth) {σ : Script} (hσ : σ.Smooth) :
    ({ r with script := σ } : Relay).Smooth :=
  ⟨hσ, h.calls, h.lanes⟩

theorem Smooth.setBroker (h : r.Smooth) (v : Broker) : (r.setBroker b v).Smooth :=
  ⟨h.script, h.calls, h.lanes⟩

theorem Smooth.remove (h : r.Smooth) (topic : String) : (r.remove topic).Smooth :=
  ⟨h.script, h.calls, h.lanes⟩

theorem Smooth.meet (h : r.Smooth) (c : LogCall) :
    (r.meet c).1.delay = 0 ∧ (r.meet c).2.Smooth :=
  ⟨(h.script.meet c).1, (h.script.meet c).2, h.calls, h.lanes⟩

theorem Smooth.topicReady (h : r.Smooth) (purpose : Purpose) (enrolled : Bool) :
    (r.topicReady id b purpose enrolled).Smooth := by
  cases purpose with
  | answer => exact h.setStage trivial
  | publish item rest acks =>
    obtain ⟨hdelay, hmeet⟩ := h.meet .produce
    exact hmeet.setStage hdelay

theorem Smooth.ensureTopic (h : r.Smooth) (topic : String) (purpose : Purpose) :
    (r.ensureTopic id b topic purpose).Smooth := by
  unfold Relay.ensureTopic
  dsimp only
  split
  · exact h.topicReady purpose false
  · split
    · exact h.fail _
    · split
      · exact h.fail _
      · split
        · exact h.fail _
        · obtain ⟨hdelay, hmeet⟩ := h.meet .create
          exact hmeet.setStage hdelay

theorem Smooth.publishNext (h : r.Smooth) (items : List Publication) (acks : List Ack) :
    (r.publishNext id b items acks).Smooth := by
  unfold Relay.publishNext
  split
  · exact h.answer _
  · split
    · exact h.fail _
    · split
      · exact h.fail _
      · exact h.ensureTopic _ _

theorem Smooth.start (h : r.Smooth) (q : Request) : (r.start id b q).Smooth := by
  cases q with
  | ensure topic => exact h.ensureTopic topic .answer
  | publish items => exact h.publishNext items []
  | close =>
    unfold Relay.start closeBroker
    dsimp only
    split
    · exact h.answer _
    · exact (h.setBroker _).setStage trivial

theorem Smooth.dismiss (h : r.Smooth) (is : List Nat) : (dismiss is r).Smooth := by
  induction is generalizing r with
  | nil => exact h
  | cons i is ih =>
    refine ih ⟨h.script, h.calls, fun j l hl => ?_⟩
    rw [Table.find?_modify] at hl
    split at hl
    · obtain ⟨m, hm, rfl⟩ := Option.map_eq_some_iff.1 hl
      exact h.lanes j m hm
    · exact h.lanes j l hl

theorem Smooth.addLanes (h : r.Smooth) (topic : String) (p : Nat) {readers : List Reader}
    (hrs : ∀ rd ∈ readers, rd.Smooth) : (addLanes b topic p readers r).2.Smooth := by
  induction readers generalizing p r with
  | nil => exact h
  | cons rd readers ih =>
    let lane : Lane := { broker := b, topic, partition := p, reader := rd }
    have hnext : Smooth { r with
        lanes := r.lanes.insert r.nextLane lane, nextLane := r.nextLane + 1 } := by
      refine ⟨h.script, h.calls, fun j l hl => ?_⟩
      obtain ⟨-, rfl⟩ | ⟨-, hl⟩ := Table.find?_insert_eq_some.1 hl
      · exact hrs rd List.mem_cons_self
      · exact h.lanes j l hl
    exact ih hnext (p + 1) fun rd' hrd => hrs rd' (.tail _ hrd)

theorem Smooth.startLanes (h : r.Smooth) (topic : String) {readers : List Reader}
    (hrs : ∀ rd ∈ readers, rd.Smooth) : (r.startLanes b topic readers).Smooth := by
  exact ((h.dismiss _).addLanes topic 0 hrs).setBroker _

theorem Smooth.enroll (h : r.Smooth) (topic : String) (purpose : Purpose) {readers : List Reader}
    (hrs : ∀ rd ∈ readers, rd.Smooth) : (r.enroll id b topic purpose readers).Smooth := by
  unfold Relay.enroll
  dsimp only
  split
  · exact ((h.setBroker _).startLanes topic hrs).topicReady purpose true
  · exact h.topicReady purpose false
  · exact (h.remove topic).fail _

theorem Smooth.openNext (h : r.Smooth) (topic : String) (purpose : Purpose) {readers : List Reader}
    (hrs : ∀ rd ∈ readers, rd.Smooth) : (r.openNext id b topic purpose readers).Smooth := by
  unfold Relay.openNext
  split
  · exact h.enroll topic purpose hrs
  · obtain ⟨hdelay, hmeet⟩ := h.meet .tail
    exact hmeet.setStage ⟨hdelay, hrs⟩

theorem Smooth.reach (h : r.Smooth) (w : Hindrance) {f : Except Error Relay}
    (hf : ∀ s, f = .ok s → s.Smooth) : (r.reach id b w f).Smooth := by
  unfold Relay.reach
  split
  · exact h.fail _
  · split
    · exact hf _ rfl
    · exact h.fail _

theorem Smooth.proceedCall (h : r.Smooth) {stage : Stage} (hstage : stage.Smooth)
    (hs : r.proceedCall id b stage = some s) : s.Smooth := by
  cases stage with
  | queued n q =>
    cases hstage
    cases hs
    exact h.start q
  | delayed n q => cases hstage
  | creating topic purpose w =>
    cases hs
    refine h.reach w fun q hq => ?_
    cases hl : r.log.create topic (r.broker b).config.partitions.toNat with
    | error e => rw [hl] at hq; cases hq
    | ok log =>
      rw [hl] at hq
      cases hq
      exact (h.setLog log).openNext topic purpose nofun
  | opening topic purpose readers w =>
    cases hs
    refine h.reach w fun q hq => ?_
    cases hl : r.log.tail topic readers.length with
    | error e => rw [hl] at hq; cases hq
    | ok c =>
      rw [hl] at hq
      cases hq
      obtain ⟨hreads, hscript⟩ := h.script.takeReads topic readers.length
      refine (h.setScript hscript).openNext topic purpose fun rd hrd => ?_
      obtain hrd | hrd := List.mem_append.1 hrd
      · exact hstage.2 rd hrd
      · rw [List.mem_singleton.1 hrd]
        exact hreads
  | producing item rest acks w =>
    cases hs
    refine h.reach w fun q hq => ?_
    cases hl : r.log.produce item.channel.topic item.channel.name item.payload with
    | error e => rw [hl] at hq; cases hq
    | ok x =>
      rw [hl] at hq
      cases hq
      exact ((h.setBroker _).setLog x.2).publishNext rest _
  | draining lanes =>
    rw [Relay.proceedCall] at hs
    split at hs
    · cases hs
    · cases hs
      obtain ⟨hdelay, hmeet⟩ := h.meet .close
      exact hmeet.setStage hdelay
  | closing w =>
    cases hs
    refine h.reach w fun q hq => ?_
    cases hq
    exact (h.setLog _).answer _
  | finished answer => cases hs

theorem Smooth.stepCall (h : r.Smooth) {sig : Signal} (hs : r.stepCall id sig = some s) :
    s.Smooth := by
  unfold Relay.stepCall at hs
  cases hc : r.calls.find? id with
  | none => simp [hc] at hs
  | some c =>
    simp only [hc, Option.bind_eq_bind, Option.bind_some] at hs
    cases sig with
    | proceed => exact h.proceedCall (h.calls id c hc) hs
    | expire =>
      obtain ⟨b, stage⟩ := c
      cases stage with
      | creating topic purpose w =>
        cases hs
        exact h.fail _
      | _ => cases hs
    | stop => cases hs

end

end Relay
end EventRelay
