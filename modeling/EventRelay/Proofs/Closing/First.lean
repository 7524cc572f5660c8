import EventRelay.Proofs.Closing
import EventRelay.Proofs.Relay.Calls
/-!
What the first close of a broker has done when it answers. Main statement: `first_close_closes`; a
later close answers at once, `second_close_answers_early`.
-/
namespace EventRelay

/-- Where the first close of a broker stands. It found `lanes` registered. -/
inductive Stage.Closes (r : Relay) (lanes : List Nat) : Stage → Prop
  | draining : Closes r lanes (.draining lanes)
  | closing (w : Hindrance) (hl : ∀ i ∈ lanes, r.lanes.find? i = none) :
      Closes r lanes (.closing w)
  | closed (hl : ∀ i ∈ lanes, r.lanes.find? i = none) (hc : r.log.closed = true) :
      Closes r lanes (.finished .closed)
  | failed (e : Error) : Closes r lanes (.finished (.failed e))

namespace Relay

/-- The call `id` is the first close of its broker, if it is still there. -/
structure Closing (r : Relay) (id : Nat) (lanes : List Nat) : Prop where
  number : id < r.nextCall
  old : ∀ i ∈ lanes, i < r.nextLane
  stage : ∀ b stage, r.calls.find? id = some ⟨b, stage⟩ → stage.Closes r lanes

section
variable {r s : Relay} {retention : Nat} {hist : List (Nat × Record)} {lanes : List Nat}

theorem Later.gone (h : r.Later s) {i : Nat} (hi : i < r.nextLane)
    (hnone : r.lanes.find? i = none) : s.lanes.find? i = none := by
  cases hs : s.lanes.find? i with
  | none => rfl
  | some l' =>
    obtain ⟨l, hl, -⟩ := h.lane i l' hi hs
    rw [hnone] at hl
    cases hl

theorem closes_later {stage : Stage} (h : stage.Closes r lanes) (hl : r.Later s)
    (hn : ∀ i ∈ lanes, i < r.nextLane) : stage.Closes s lanes := by
  cases h with
  | draining => exact .draining
  | closing w hgone => exact .closing w fun i hi => hl.gone (hn i hi) (hgone i hi)
  | closed hgone hc =>
    exact .closed (fun i hi => hl.gone (hn i hi) (hgone i hi)) (hl.log.closed hc)
  | failed e => exact .failed e

theorem CallStep.closing {id b : Nat} {sig : Signal} {stage stage' : Stage}
    (h : stage.Closes r lanes) (hstep : CallStep r id b sig stage s)
    (hs : s.calls.find? id = some ⟨b, stage'⟩) : stage'.Closes s lanes := by
  cases h with
  | draining =>
    cases hstep with
    | moves hσ hm =>
      rw [find?_goes] at hs
      cases hs
      cases hm with
      | drains hl w => exact .closing w hl
      | ensures hb | publishes hb | closes hb => cases hb
      | fails hh => cases hh
    | closes hb => cases hb
  | closing w hgone =>
    cases hstep with
    | moves hσ hm =>
      rw [find?_goes] at hs
      cases hs
      cases hm with
      | fails hh => exact .failed _
      | ensures hb | publishes hb | closes hb => cases hb
    | closes hb => cases hb
    | closesLog =>
      rw [find?_goes] at hs
      cases hs
      exact .closed hgone rfl
  | closed | failed =>
    cases hstep with
    | moves hσ hm =>
      cases hm with
      | ensures hb | publishes hb | closes hb => cases hb
      | fails hh => cases hh
    | closes hb => cases hb

theorem Closing.next (hv : r.Valid retention hist) {id : Nat} (h : r.Closing id lanes)
    {a : Action} (hc : Change r a s) : s.Closing id lanes := by
  have hlater := hv.later hc
  refine ⟨Nat.lt_of_lt_of_le h.number (hc.nextCall_le hv),
    fun i hi => Nat.lt_of_lt_of_le (h.old i hi) hlater.nextLane, fun b stage hs => ?_⟩
  obtain hold | ⟨hnew, -⟩ | ⟨sig, stage₀, -, hold, hstep⟩ := hc.call_or hv hs
  · exact closes_later (h.stage b stage hold) hlater h.old
  · exact absurd hnew (Nat.ne_of_lt h.number)
  · exact hstep.closing (h.stage b stage₀ hold) hs

theorem Closing.run (hv : r.Valid retention hist) {id : Nat} (h : r.Closing id lanes)
    {acts : List Action} (hr : r.after acts = some s) : s.Closing id lanes := by
  induction hr using after_induct with
  | start => exact h
  | next acts q a s hq ha ih =>
    have hvq := (hv.run hq).1
    exact ih.next hvq (hvq.change ha)

end

/-- When the first close of a broker answers that it is closed, every lane that was registered when
it began has exited and the log is closed; so they stay, and the answers of later closes are true
from then on. -/
theorem first_close_closes {retention : Nat} {acts acts' acts'' : List Action} {r s t u : Relay}
    (h : (new retention).after acts = some r) {id b : Nat} (hstart : r.Starts id b .close)
    (ho : (r.broker b).closed = false) (hs : r.act (.step (.call id) .proceed) = some s)
    (ht : s.after acts' = some t) (ha : t.response? id = some .closed)
    (hu : t.after acts'' = some u) :
    u.log.closed = true ∧ ∀ i ∈ r.registered b, u.lanes.find? i = none := by
  have hv := valid_of_after h
  have hrun : (new retention).after (acts ++ [.step (.call id) .proceed]) = some s :=
    after_concat.2 ⟨r, h, hs⟩
  have hvs := valid_of_after hrun
  have hdraining : s = (r.setBroker b { r.broker b with closed := true, crews := .empty }).setStage
      id b (.draining (r.registered b)) := by
    rw [hstart.act, start, closeBroker, Option.some.injEq] at hs
    rw [← hs, if_neg (by rw [ho]; decide)]
    rfl
  have hfirst : s.Closing id (r.registered b) := by
    refine ⟨?_, fun i hi => ?_, fun b' stage' hstage => ?_⟩
    · obtain ⟨c, hc, -⟩ := hstart
      rw [hdraining]
      exact (numbered_of_after h).calls id c hc
    · rw [hdraining]
      exact (crewed_of_after h).number b i hi
    · rw [hdraining, setStage, Table.find?_insert, if_pos rfl] at hstage
      cases hstage
      exact .draining
  have hclosing := hfirst.run hvs ht
  have hvt := (hvs.run ht).1
  have hlater := (hvt.run hu).2
  obtain ⟨b', hanswer⟩ := finished_of_response ha
  cases hclosing.stage b' _ hanswer with
  | closed hgone hlog =>
    exact ⟨hlater.log.closed hlog, fun i hi => hlater.gone (hclosing.old i hi) (hgone i hi)⟩

/-- A broker with one lane is about to be told to close by two calls. -/
def oneLane : List Action :=
  [.addRegistry 1, .addBroker { workers := 1, maxTopics := 1 } 0,
    .submit 0 (.ensure "a") 0, .submit 0 .close 0, .submit 0 .close 0,
    .step (.call 0) .proceed, .step (.call 0) .proceed, .step (.call 0) .proceed]

def finishClose : List Action :=
  [.step (.lane 0) .stop, .step (.call 1) .proceed, .step (.call 1) .proceed]

theorem first_close_closes_of_oneLane : ∃ r s t, (new 4).after oneLane = some r ∧
    r.registered 0 = [0] ∧ r.act (.step (.call 1) .proceed) = some s ∧
    s.after finishClose = some t ∧ t.log.closed = true ∧ t.lanes.find? 0 = none := by
  have hrun : ((new 4).after (oneLane ++ [.step (.call 1) .proceed] ++ finishClose)).map
      (fun t => t.response? 1) = some (some .closed) := by decide +kernel
  obtain ⟨t, ht, hanswer⟩ := Option.map_eq_some_iff.1 hrun
  rw [after_append, Option.bind_eq_some_iff] at ht
  obtain ⟨s, hs, hlast⟩ := ht
  obtain ⟨r, hr, hclose⟩ := after_concat.1 hs
  have hstart : ((new 4).after oneLane).map (fun r => (r.registered 0, (r.broker 0).closed,
      decide (r.Starts 1 0 .close))) = some ([0], false, true) := by decide +kernel
  rw [hr, Option.map_some, Option.some.injEq, Prod.mk.injEq, Prod.mk.injEq,
    decide_eq_true_eq] at hstart
  obtain ⟨hregistered, hopen, hstart⟩ := hstart
  have hnow : t.after [] = some t := rfl
  obtain ⟨hlog, hgone⟩ := first_close_closes hr hstart hopen hclose hlast hanswer hnow
  exact ⟨r, s, t, hr, hregistered, hclose, hlast, hlog,
    hgone 0 (by rw [hregistered]; exact List.mem_singleton_self 0)⟩

/-- Both calls start to close the broker, and the log will fail to close. -/
def closeTwice : List Action :=
  [.script (({} : Script).addCalls .close [⟨0, some "flush"⟩]),
    .step (.call 1) .proceed, .step (.call 2) .proceed]

/-- The second of two closes answers while the lane still runs and the log is open, and when
closing the log fails afterwards, only the first close is told. -/
theorem second_close_answers_early : ∃ q r s, (new 4).after oneLane = some q ∧
    q.registered 0 = [0] ∧ q.after closeTwice = some r ∧
    r.response? 2 = some .closed ∧ r.lanes.contains 0 = true ∧ r.log.closed = false ∧
    r.after finishClose = some s ∧
    s.response? 1 = some (.failed (.log "flush")) ∧ s.log.closed = false := by
  have hstart : ((new 4).after oneLane).map (fun q => q.registered 0) = some [0] := by
    decide +kernel
  have hmiddle : ((new 4).after (oneLane ++ closeTwice)).map
      (fun r => (r.response? 2, r.lanes.contains 0, r.log.closed)) =
      some (some .closed, true, false) := by decide +kernel
  have hend : ((new 4).after (oneLane ++ closeTwice ++ finishClose)).map
      (fun s => (s.response? 1, s.log.closed)) = some (some (.failed (.log "flush")), false) := by
    decide +kernel
  obtain ⟨q, hq, hregistered⟩ := Option.map_eq_some_iff.1 hstart
  obtain ⟨r, hr, heq⟩ := Option.map_eq_some_iff.1 hmiddle
  obtain ⟨s, hs, heq'⟩ := Option.map_eq_some_iff.1 hend
  rw [after_append, hr, Option.bind_some] at hs
  rw [after_append, hq, Option.bind_some] at hr
  simp only [Prod.mk.injEq] at heq heq'
  exact ⟨q, r, s, hq, hregistered, hr, heq.1, heq.2.1, heq.2.2, hs, heq'.1, heq'.2⟩

end Relay
end EventRelay
