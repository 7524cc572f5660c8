import EventRelay.Proofs.Burst.Lanes
import EventRelay.Proofs.Delivery.Waiting
import EventRelay.Proofs.Publication
/-!
A call that publishes a batch while nothing else happens, on a broker that has its log to itself.
Main statements: `CallStep.toGo`, it takes few steps, and `Poised.filling`, where the lanes stand
meanwhile: each before what the call appends to its partition.
-/
namespace EventRelay

/-! ### The steps of a batch -/

/-- The steps that are left to a call that publishes, with `n` workers to its broker. -/
def Stage.toGo (n : Nat) : Stage → Nat
  | .queued _ (.publish items) | .delayed _ (.publish items) => items.length * (n + 2) + 1
  | .creating _ (.publish _ rest _) _ => (rest.length + 1) * (n + 2)
  | .opening _ (.publish _ rest _) readers _ => rest.length * (n + 2) + (n - readers.length) + 1
  | .producing _ rest _ _ => rest.length * (n + 2) + 1
  | _ => 0

section
variable {items rest : List Publication} {acks : List Ack} {item : Publication}
  {stage : Stage} {k : Broker} {topic : String} (n : Nat)

theorem Ready.toGo {e : Bool} (h : Ready (.publish item rest acks) e stage) :
    stage.toGo n = rest.length * (n + 2) + 1 := by
  cases h
  rfl

theorem Asks.toGo (h : Asks k topic (.publish item rest acks) stage) :
    stage.toGo n ≤ (rest.length + 1) * (n + 2) := by
  cases h with
  | known hk hs =>
    rw [hs.toGo, Nat.succ_mul]
    omega
  | closed | invalid | full => exact Nat.zero_le _
  | creates => exact Nat.le_refl _

theorem Publishes.toGo (h : Publishes k rest acks stage) :
    stage.toGo n ≤ rest.length * (n + 2) := by
  cases h with
  | done | closed | invalid => exact Nat.zero_le _
  | asks item rest _ hc hv hs => exact hs.toGo n

theorem Purpose.Carries.publishes {p : Purpose} (h : p.Carries items acks) :
    ∃ item rest, p = .publish item rest acks := by
  cases p with
  | answer => exact h.elim
  | publish item rest acks' => exact ⟨item, rest, by rw [h.1]⟩

theorem Stage.Carries.purpose_creating {p : Purpose} {w : Hindrance}
    (h : (Stage.creating topic p w).Carries items acks) :
    ∃ item rest, p = .publish item rest acks := by
  cases h with
  | creating topic w h => exact h.publishes

theorem Stage.Carries.purpose_opening {p : Purpose} {readers : List Reader} {w : Hindrance}
    (h : (Stage.opening topic p readers w).Carries items acks) :
    ∃ item rest, p = .publish item rest acks := by
  cases h with
  | opening topic readers w h => exact h.publishes

theorem Stage.Carries.toGo_pos (h : stage.Carries items acks) {w : Hindrance}
    (hw : stage.hindrance? = some w) : 0 < stage.toGo n := by
  cases h with
  | creating topic w h =>
    obtain ⟨item, rest, rfl⟩ := h.publishes
    exact Nat.mul_pos (Nat.succ_pos _) (Nat.succ_pos _)
  | opening topic readers w h =>
    obtain ⟨item, rest, rfl⟩ := h.publishes
    exact Nat.succ_pos _
  | producing w h => exact Nat.succ_pos _
  | queued | delayed | published | failed => cases hw

end

namespace Relay

section
variable {r s : Relay} {retention : Nat} {hist : List (Nat × Record)} {id b : Nat}
  {items : List Publication} {acks : List Ack} {stage stage' : Stage}

theorem CallStep.toGo (hv : r.Valid retention hist) (hc : r.calls.find? id = some ⟨b, stage⟩)
    (hcarries : stage.Carries items acks) (hsmooth : stage.Smooth)
    (hs : CallStep r id b .proceed stage s) (hs' : s.calls.find? id = some ⟨b, stage'⟩) :
    stage'.toGo (r.broker b).config.workers < stage.toGo (r.broker b).config.workers := by
  have hvalid := hv.calls id b stage hc
  cases hs with
  | moves hσ hm =>
    rw [find?_goes] at hs'
    cases hs'
    cases hm with
    | delays n q => cases hsmooth
    | ensures hb hs => cases hb <;> cases hcarries
    | publishes hb hs =>
      have hle := hs.toGo (r.broker b).config.workers
      cases hb <;> exact Nat.lt_succ_of_le hle
    | closes hb hc => cases hb <;> cases hcarries
    | fails hh => exact hcarries.toGo_pos _ hh
    | createFails | tailFails | produceFails => exact hcarries.toGo_pos _ rfl
    | knows hl hn hk hs =>
      obtain ⟨item, rest, rfl⟩ := hcarries.purpose_opening
      have hlt := hvalid.2.2.1
      rw [hs.toGo, Stage.toGo]
      omega
    | drains => cases hcarries
  | closes hb hc => cases hb <;> cases hcarries
  | creates hσ hh hl =>
    rw [find?_goes] at hs'
    cases hs'
    obtain ⟨item, rest, rfl⟩ := hcarries.purpose_creating
    rw [Stage.toGo, Stage.toGo, Nat.succ_mul, List.length_nil]
    omega
  | opens script hσ hh hl hn =>
    rw [find?_goes] at hs'
    cases hs'
    obtain ⟨item, rest, rfl⟩ := hcarries.purpose_opening
    have hlt := hvalid.2.2.1
    rw [Stage.toGo, Stage.toGo, List.length_append, List.length_singleton]
    omega
  | enrolls script hσ hl hn hk hf hs =>
    rw [find?_goes] at hs'
    cases hs'
    obtain ⟨item, rest, rfl⟩ := hcarries.purpose_opening
    have hlt := hvalid.2.2.1
    rw [hs.toGo, Stage.toGo]
    omega
  | rejects hσ hl hn hk hf =>
    rw [find?_goes] at hs'
    cases hs'
    exact hcarries.toGo_pos _ rfl
  | produces hσ hl hs =>
    rw [find?_goes] at hs'
    cases hs'
    exact Nat.lt_succ_of_le (hs.toGo _)
  | closesLog => cases hcarries

/-! ### What a step leaves as it is -/

theorem CallStep.isOpen (hv : r.Valid retention hist) (hc : r.calls.find? id = some ⟨b, stage⟩)
    (hcarries : stage.Carries items acks) {sig : Signal} (hs : CallStep r id b sig stage s)
    (ho : (r.broker b).closed = false) : (s.broker b).closed = false := by
  have hb := size_of_open ho
  cases hs with
  | moves | creates | opens | rejects => exact ho
  | closes hb hc => cases hb <;> cases hcarries
  | @enrolls topic _ readers _ c stage script σ σ' hσ hl hn hk hf hready =>
    rw [(hv.enrolls hc hk ⟨c, script⟩ σ σ' stage).broker b, if_pos rfl]
    exact ho
  | @produces _ _ _ _ _ log _ _ hσ hl hs =>
    have hset := ({ r with log } : Relay).broker_setBroker hb
      { r.broker b with published := (r.broker b).published + 1 } b
    rw [if_pos rfl] at hset
    exact (congrArg Broker.closed hset).trans ho
  | closesLog => cases hcarries

theorem CallStep.removals_or (hv : r.Valid retention hist)
    (hc : r.calls.find? id = some ⟨b, stage⟩) {sig : Signal} (hs : CallStep r id b sig stage s) :
    s.removals = r.removals ∨ ∃ e, s.calls.find? id = some ⟨b, .finished (.failed e)⟩ := by
  cases hs with
  | rejects => exact .inr ⟨_, find?_goes ..⟩
  | @enrolls topic _ readers _ c stage script σ σ' hσ hl hn hk hf hready =>
    exact .inl (hv.enrolls hc hk ⟨c, script⟩ σ σ' stage).removals
  | _ => exact .inl rfl

theorem CallStep.lane_or (hv : r.Valid retention hist) (hc : r.calls.find? id = some ⟨b, stage⟩)
    {sig : Signal} (hs : CallStep r id b sig stage s) {i : Nat} {l : Lane}
    (hi : s.lanes.find? i = some l) :
    r.lanes.find? i = some l ∨ l.topic ∉ (r.broker b).topics ∧ l.stage = .reading := by
  cases hs with
  | @enrolls topic _ readers _ c stage script σ σ' hσ hl hn hk hf hready =>
    obtain ⟨j, rd, -, -, rfl⟩ | hold := (hv.enrolls hc hk ⟨c, script⟩ σ σ' stage).lane_cases hi
    · exact .inr ⟨hk, rfl⟩
    · exact .inl hold
  | _ => exact .inl hi

theorem Valid.start_of_unused (hv : r.Valid retention hist) {i : Nat} {l : Lane}
    (hi : r.lanes.find? i = some l) (h : ∀ j rec, (j, rec) ∈ hist → rec.topic ≠ l.topic) :
    l.reader.cursor.offset = 0 ∧ ∀ hist', hist' ⊆ hist →
      recordsAt hist' l.reader.cursor.incarnation l.partition = [] := by
  have hplace := (hv.lanes i l hi).place
  obtain ⟨inc, hinc, htopic⟩ := hplace.topic
  have hnone : ∀ hist', hist' ⊆ hist →
      recordsAt hist' l.reader.cursor.incarnation l.partition = [] := by
    intro hist' hsub
    rw [List.eq_nil_iff_forall_not_mem]
    intro rec hrec
    have hmem := hsub (mem_recordsAt.1 hrec).1
    obtain ⟨inc', hinc', htopic', -⟩ := hv.log.source _ rec hmem
    rw [hinc, Option.some.injEq] at hinc'
    exact h _ rec hmem (htopic'.trans (hinc' ▸ htopic))
  refine ⟨?_, hnone⟩
  obtain ⟨p, hp, hle⟩ := hplace.offset
  have hlength := (hv.log.holds _ p hp).length
  rw [hplace.partition, hnone hist (List.Subset.refl _), List.length_nil] at hlength
  omega

end

/-! ### Only this call -/

/-- An idle relay with an open broker that has its log to itself. Log calls wait for nothing, reads
meet nothing, and none has ever found a partition over. Nobody reads the mailboxes that are attached
to the broker's registry. -/
structure Poised (retention : Nat) (acts : List Action) (r : Relay) (b : Nat) : Prop where
  run : (new retention).after acts = some r
  alone : ∀ a ∈ acts, a.isPrivate b = true
  isOpen : (r.broker b).closed = false
  idle : r.Idle
  script : r.script.Smooth
  readers : ∀ i l, r.lanes.find? i = some l → l.reader.Smooth
  unended : ∀ l ∈ (new retention).observe ended acts, l.broker ≠ b
  unfed : ∀ c id k, r.attached? (r.broker b).registry c id = some k → r.Unfed k

def turns (id n : Nat) : List Action := List.replicate n (.step (.call id) .proceed)

theorem turns_succ (id n : Nat) : turns id (n + 1) = turns id n ++ [.step (.call id) .proceed] :=
  List.replicate_succ'

/-- `q` is what `r` has become while the call `id` on broker `b` took steps, and nothing else: each
lane stands behind the records `hist` that were there before. -/
structure Filling (r q : Relay) (id b : Nat) (hist : List (Nat × Record)) : Prop where
  call : ∃ stage, q.calls.find? id = some ⟨b, stage⟩
  isOpen : (q.broker b).closed = false
  smooth : q.Smooth
  spares : r.Spares q
  others : ∀ j, j ≠ id → q.calls.find? j = r.calls.find? j
  removals : (∀ j, q.removals.find? j = none) ∨
    ∃ e, q.calls.find? id = some ⟨b, .finished (.failed e)⟩
  lanes : ∀ i l, q.lanes.find? i = some l → l.stage = .reading ∧ l.reader.cursor.offset =
    (recordsAt hist l.reader.cursor.incarnation l.partition).length

section
variable {retention : Nat} {acts : List Action} {r : Relay} {b : Nat}

theorem Poised.finished (h : Poised retention acts r b) {id : Nat} {c : Call}
    (hc : r.calls.find? id = some c) : ∃ answer, c.stage = .finished answer := by
  have hready := h.idle (.call id)
  have hb := calls_of_private h.run h.alone id c hc
  have hnever {w : Hindrance} {others : List (Nat × Signal)} :
      w.readiness others ≠ .later [] := by
    unfold Hindrance.readiness
    split <;> simp
  obtain ⟨b', stage⟩ := c
  subst hb
  rw [readiness, hc, Option.elim_some] at hready
  cases stage with
  | queued | delayed => cases hready
  | creating | opening | producing | closing => exact absurd hready hnever
  | draining lanes =>
    have hclosed := ((valid_of_after h.run).calls id _ _ hc).2
    rw [h.isOpen] at hclosed
    cases hclosed
  | finished answer => exact ⟨answer, rfl⟩

theorem Poised.removals (h : Poised retention acts r b) (j : Nat) :
    r.removals.find? j = none := by
  cases hm : r.removals.find? j with
  | none => rfl
  | some m =>
    have hready := h.idle (.removal j)
    rw [readiness, hm, Option.elim_some] at hready
    cases hw : m.hindrance with
    | none => rw [hw] at hready; cases hready
    | some w =>
      rw [hw, Option.elim_some, Hindrance.readiness] at hready
      split at hready <;> cases hready

theorem lanes_of_private (h : (new retention).after acts = some r)
    (hp : ∀ a ∈ acts, a.isPrivate b = true) :
    ∀ i l, r.lanes.find? i = some l → l.broker = b := by
  induction h using after_induct with
  | start =>
    intro i l hi
    cases hi
  | next acts q a s hq ha ih =>
    intro i l hi
    have hv := valid_of_after hq
    have hbefore : ∀ x ∈ acts, x.isPrivate b = true := fun x hx => hp x (List.mem_append_left _ hx)
    obtain ⟨-, hkeep⟩ | ⟨id, b', topic, purpose, opened, last, stage, hadmits⟩ :=
      (hv.change ha).lanes_or hv
    · obtain ⟨k, hk, hlater⟩ := hkeep i l hi
      exact hlater.broker.trans (ih hbefore i k hk)
    · obtain ⟨d, hcall⟩ := hadmits.call
      obtain ⟨j, rd, -, -, rfl⟩ | hold := hadmits.effect.lane_cases hi
      · exact calls_of_private hq hbefore id _ hcall
      · exact ih hbefore i l hold

theorem Poised.lane (h : Poised retention acts r b) {i : Nat} {l : Lane}
    (hi : r.lanes.find? i = some l) :
    l.stage = .reading ∧ l.reader.cursor.offset = (recordsAt ((new retention).history acts)
      l.reader.cursor.incarnation l.partition).length := by
  have hv := valid_of_after h.run
  have hopen : (r.broker l.broker).closed = false := by
    rw [lanes_of_private h.run h.alone i l hi]
    exact h.isOpen
  constructor
  · have hready := h.idle (.lane i)
    rw [readiness, hi, Option.elim_some, laneReadiness, hv.isCancelled hi, hopen] at hready
    cases hs : l.stage with
    | reading => rfl
    | retrying => simp [hs] at hready
  · obtain ⟨p, hp, hend, -⟩ := h.idle.waits hv hi hopen
    have hplace := (hv.lanes i l hi).place
    obtain ⟨q, hq, hle⟩ := hplace.offset
    rw [hp, Option.some.injEq] at hq
    subst hq
    have hlength := (hv.log.holds _ p hp).length
    rw [hplace.partition] at hlength
    omega

theorem Filling.next {q s : Relay} {id : Nat} {hist hist' : List (Nat × Record)}
    {items : List Publication} {acks : List Ack} {stage : Stage}
    (h : r.Filling q id b hist) (hv : q.Valid retention hist') (hsub : hist ⊆ hist')
    (hknown : ∀ i rec, (i, rec) ∈ hist' → rec.topic ∈ (q.broker b).topics)
    (hcalls : ∀ id c, q.calls.find? id = some c → c.broker = b)
    (hc : q.calls.find? id = some ⟨b, stage⟩) (hcarries : stage.Carries items acks)
    (ha : q.act (.step (.call id) .proceed) = some s) : r.Filling s id b hist := by
  have hstep : q.stepCall id .proceed = some s := ha
  obtain ⟨b', stage', hc', hs⟩ := stepCall_step hv.workers_pos hstep
  rw [hc] at hc'
  cases hc'
  obtain ⟨stage', hinsert, -⟩ := hs.calls hv hc
  refine ⟨⟨stage', by rw [hinsert, Table.find?_insert, if_pos rfl]⟩,
    hs.isOpen hv hc hcarries h.isOpen, h.smooth.stepCall hstep,
    h.spares.trans hs.spares, fun j hj => ?_, ?_, fun i l hi => ?_⟩
  · rw [hinsert, Table.find?_insert, if_neg hj.symm]
    exact h.others j hj
  · obtain hnone | ⟨e, hfailed⟩ := h.removals
    · obtain hsame | hfailed := hs.removals_or hv hc
      · exact .inl fun j => by rw [hsame]; exact hnone j
      · exact .inr hfailed
    · rw [hc] at hfailed
      cases hfailed
      exact absurd hs CallStep.unfinished
  · obtain hold | ⟨hunknown, hreading⟩ := hs.lane_or hv hc hi
    · exact h.lanes i l hold
    · -- Whatever was appended so far, or is in this step, belongs to topics that were known.
      have hunused : ∀ j rec, (j, rec) ∈ hist' ++ q.appended (.step (.call id) .proceed) →
          rec.topic ≠ l.topic := by
        intro j rec hrec heq
        rw [← heq] at hunknown
        obtain hrec | hrec := List.mem_append.1 hrec
        · exact hunknown (hknown j rec hrec)
        · exact hunknown (known_of_appended hv hcalls rfl hrec)
      obtain ⟨hstart, hnone⟩ := (hv.next ha).start_of_unused hi hunused
      rw [hstart, hnone hist (List.subset_append_of_subset_left _ hsub)]
      exact ⟨hreading, rfl⟩

def untilTurn (acts : List Action) (r : Relay) (b : Nat) (items : List Publication) (n : Nat) :
    List Action :=
  acts ++ .submit b (.publish items) 0 :: turns r.nextCall n

section
variable {items : List Publication} {n : Nat} {q : Relay}

theorem Poised.after (h : Poised retention acts r b)
    (hq : (r.submit b (.publish items) 0).2.after (turns r.nextCall n) = some q) :
    (new retention).after (untilTurn acts r b items n) = some q := by
  rw [untilTurn, after_append, h.run]
  exact hq

theorem Poised.later (h : Poised retention acts r b)
    (hq : (r.submit b (.publish items) 0).2.after (turns r.nextCall n) = some q) : r.Later q :=
  ((valid_of_after h.run).run
    (show r.after (.submit b (.publish items) 0 :: turns r.nextCall n) = some q from hq)).2

theorem Poised.alone_untilTurn (h : Poised retention acts r b) (items : List Publication)
    (n : Nat) : ∀ a ∈ untilTurn acts r b items n, a.isPrivate b = true := by
  intro a ha
  obtain ha | ha := List.mem_append.1 ha
  · exact h.alone a ha
  · obtain rfl | ha := List.mem_cons.1 ha
    · exact beq_self_eq_true b
    · rw [List.eq_of_mem_replicate ha]
      rfl

theorem Poised.history (h : Poised retention acts r b) (items : List Publication) (n : Nat) :
    (new retention).history (untilTurn acts r b items n) = (new retention).history acts ++
      (r.submit b (.publish items) 0).2.history (turns r.nextCall n) := by
  rw [untilTurn, Relay.history, observe_append _ h.run]
  rfl

theorem Poised.carrying (h : Poised retention acts r b)
    (hq : (r.submit b (.publish items) 0).2.after (turns r.nextCall n) = some q) :
    ∃ ups acks, q.Carrying r.nextCall b items
      ((r.submit b (.publish items) 0).2.history (turns r.nextCall n)) ups acks := by
  have hsubmitted : (new retention).after (acts ++ [.submit b (.publish items) 0]) =
      some (r.submit b (.publish items) 0).2 := after_concat.2 ⟨r, h.run, rfl⟩
  obtain ⟨acks, hcarrying⟩ :=
    (carrying_submit r b 0 items).run (valid_of_after hsubmitted) hq
  have hown : (r.submit b (.publish items) 0).2.observe (ofCall r.nextCall appended)
      (turns r.nextCall n) = (r.submit b (.publish items) 0).2.history (turns r.nextCall n) := by
    refine observe_congr fun s a ha => ?_
    rw [List.eq_of_mem_replicate ha]
    exact ofCall_self ..
  rw [hown] at hcarrying
  exact ⟨_, acks, hcarrying⟩

theorem Poised.filling (h : Poised retention acts r b)
    (hq : (r.submit b (.publish items) 0).2.after (turns r.nextCall n) = some q) :
    r.Filling q r.nextCall b ((new retention).history acts) := by
  induction n generalizing q with
  | zero =>
    cases hq
    refine ⟨⟨_, by rw [submit, Table.find?_insert, if_pos rfl]⟩, h.isOpen,
      ⟨h.script, fun j c hc => ?_, h.readers⟩, ⟨rfl, rfl, rfl, rfl⟩, fun j hj => ?_,
      .inl h.removals, fun i l hi => h.lane hi⟩
    · obtain ⟨-, rfl⟩ | ⟨-, hc⟩ := Table.find?_insert_eq_some.1 hc
      · rfl
      · obtain ⟨answer, hanswer⟩ := h.finished hc
        rw [hanswer]
        trivial
    · rw [submit, Table.find?_insert, if_neg hj.symm]
  | succ n ih =>
    rw [turns_succ] at hq
    obtain ⟨u, hu, ha⟩ := after_concat.1 hq
    have hrun := h.after hu
    have hp := h.alone_untilTurn items n
    have hfilling := ih hu
    obtain ⟨stage, hc⟩ := hfilling.call
    obtain ⟨ups, acks, hcarrying⟩ := h.carrying hu
    have hsub : (new retention).history acts ⊆
        (new retention).history (untilTurn acts r b items n) := by
      rw [h.history]
      exact List.subset_append_left ..
    exact hfilling.next (valid_of_after hrun) hsub (known_of_private hrun hp)
      (calls_of_private hrun hp) hc (hcarrying.stage b stage hc).2 ha

end
end
end Relay
end EventRelay
