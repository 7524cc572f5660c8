import EventRelay.Proofs.Failure.Retry
/-!
A call that fails to have a topic ready leaves no trace in its broker, and a later call can do
better. Main statement: `failures_leave_no_trace`.
-/
namespace EventRelay

/-- The call wants the topic, or it is over. -/
def Stage.Wanted (t : String) (stage : Stage) : Prop :=
  stage.Wants t .answer ∨ ∃ answer, stage = .finished answer

/-- The topic is created, so the call will not fail for want of time. -/
def Stage.Created (t : String) (stage : Stage) : Prop :=
  (∃ readers w, stage = .opening t .answer readers w) ∨
    ∃ answer, stage = .finished answer ∧ ∀ u, answer ≠ .failed (.topicCreateTimeout u)

namespace Relay

/-- The call `id`, which was to have a topic ready, has failed with `e` without a trace. `acts` lead
to `r`. -/
structure FailedCleanly (retention : Nat) (acts : List Action) (r : Relay) (id b : Nat) (t : String)
    (e : Error) : Prop where
  /-- Nothing it did shows, unless in the log. Only for want of a slot it starts to delete the
  topic, which the broker does not know and never will. -/
  steps : ∀ q sig s, (new retention).Occurs acts q (.step (.call id) sig) →
    q.act (.step (.call id) sig) = some s → q.Untouched s ∧
    (s.removals = q.removals ∨
      q.Spurns b t ∧ e = .topicCapacityExceeded (q.broker b).config.maxTopics)
  /-- It does nothing any more. -/
  still : ∀ acts' s sig, r.after acts' = some s → s.act (.step (.call id) sig) = none
  /-- A creation that took too long has not reached the log. -/
  abandoned : ∀ u, e = .topicCreateTimeout u → ∀ q sig s,
    (new retention).Occurs acts q (.step (.call id) sig) →
    q.act (.step (.call id) sig) = some s → s.log = q.log
  /-- If it got as far as the log, a later call whose log calls all go through gets the topic, as
  long as the broker is open and has a slot for it. -/
  retry : ∀ p sig stage, (new retention).Occurs acts p (.step (.call id) sig) →
    p.calls.find? id = some ⟨b, stage⟩ → stage.seeks = true →
    ∀ acts' s q n, r.after acts' = some s → r.Occurs acts' q (.submit b (.ensure t) n) →
    (s.broker b).closed = false → ¬ s.Spurns b t →
    (new retention).observe (ofCall q.nextCall thwarted) (acts ++ acts') = [] →
    Served retention (acts ++ acts') s q.nextCall b t

/-- What failures for want of a topic leave behind when `acts` have led to `r`. -/
structure NoTrace (retention : Nat) (acts : List Action) (r : Relay) : Prop where
  ensure : ∀ q b t n e, (new retention).Occurs acts q (.submit b (.ensure t) n) →
    r.response? q.nextCall = some (.failed e) → FailedCleanly retention acts r q.nextCall b t e
  /-- Nor does a publication touch anything while it waits for its topic, up to its failure. -/
  publish : ∀ q id sig s b stage stage', (new retention).Occurs acts q (.step (.call id) sig) →
    q.act (.step (.call id) sig) = some s → q.calls.find? id = some ⟨b, stage⟩ →
    stage.seeks = true → s.calls.find? id = some ⟨b, stage'⟩ →
    stage'.seeks = true ∨ (∃ e, stage' = .finished (.failed e)) → q.Untouched s
  /-- Nor when it asks for its topic. -/
  asks : ∀ id b t purpose, r.Untouched (r.ensureTopic id b t purpose)

section
variable {r s : Relay} {retention : Nat} {hist : List (Nat × Record)} {id b : Nat} {t : String}
  {sig : Signal} {stage stage' : Stage}

theorem CallStep.wanted (hv : r.Valid retention hist) (hc : r.calls.find? id = some ⟨b, stage⟩)
    (hw : stage.Wanted t) (hstep : CallStep r id b sig stage s)
    (hs : s.calls.find? id = some ⟨b, stage'⟩) : stage'.Wanted t := by
  obtain hw | ⟨answer, rfl⟩ := hw
  swap
  · exact absurd hstep CallStep.unfinished
  cases hstep.attempt hv hc hw hs with
  | goes hw' => exact .inl hw'
  | fails => exact .inr ⟨_, rfl⟩
  | knows _ _ _ _ hready => cases hready; exact .inr ⟨_, rfl⟩
  | admits ha =>
    have hready := ha.ready
    cases hready
    exact .inr ⟨_, rfl⟩

theorem CallStep.created (hv : r.Valid retention hist) (hc : r.calls.find? id = some ⟨b, stage⟩)
    (hcr : stage.Created t) (hstep : CallStep r id b sig stage s)
    (hs : s.calls.find? id = some ⟨b, stage'⟩) : stage'.Created t := by
  obtain ⟨readers, w, rfl⟩ | ⟨answer, rfl, -⟩ := hcr
  swap
  · exact absurd hstep CallStep.unfinished
  have hbelow := (hv.calls id b _ hc).2.2.1
  cases hstep.attempt hv hc (.opening .answer readers w) hs with
  | goes hw' _ _ _ hleft =>
    -- Only a later reader has fewer steps left.
    cases hw' with
    | opening => exact .inl ⟨_, _, rfl⟩
    | queued | delayed | creating => simp only [Stage.left] at hleft; omega
  | fails _ _ _ hlate =>
    refine .inr ⟨_, rfl, fun u hu => ?_⟩
    cases hu
    obtain ⟨w', hw'⟩ := hlate u rfl
    cases hw'
  | knows _ _ _ _ hready => cases hready; exact .inr ⟨_, rfl, by intro u hu; cases hu⟩
  | admits ha =>
    have hready := ha.ready
    cases hready
    exact .inr ⟨_, rfl, by intro u hu; cases hu⟩

theorem Stands.still (hv : r.Valid retention hist) {answer : Response}
    (h : r.Stands id b (· = .finished answer)) (sig : Signal) :
    r.act (.step (.call id) sig) = none := by
  cases ha : r.act (.step (.call id) sig) with
  | none => rfl
  | some s =>
    cases hv.change ha with
    | aside hside => cases hside
    | calls hc hstep =>
      obtain ⟨rfl, rfl⟩ := h.stage _ _ hc
      exact absurd hstep CallStep.unfinished

theorem wants_of_seeks (h : stage.seeks = true) : ∃ t purpose, stage.Wants t purpose := by
  cases stage with
  | creating t purpose w => exact ⟨t, purpose, .creating purpose w⟩
  | opening t purpose readers w => exact ⟨t, purpose, .opening purpose readers w⟩
  | queued | delayed | producing | draining | closing | finished => cases h

end

section
variable {retention : Nat} {acts : List Action} {q r : Relay} {b n : Nat} {t : String} {e : Error}

theorem attempt_of_submit (h : (new retention).after acts = some r)
    (hask : (new retention).Occurs acts q (.submit b (.ensure t) n)) {p s : Relay} {sig : Signal}
    (hocc : (new retention).Occurs acts p (.step (.call q.nextCall) sig))
    (hs : p.act (.step (.call q.nextCall) sig) = some s) :
    ∃ stage stage', p.calls.find? q.nextCall = some ⟨b, stage⟩ ∧ stage.Wants t .answer ∧
      s.calls.find? q.nextCall = some ⟨b, stage'⟩ ∧
      Attempt p s q.nextCall b t .answer sig stage stage' := by
  obtain ⟨pre, post, -, hq, -, hown⟩ := occurs_submit h hask
  obtain ⟨pre', post', -, hp⟩ := hown p sig hocc
  have hvu := (valid_of_after hq).next (a := .submit b (.ensure t) n) rfl
  have hv := (hvu.run hp).1
  have hstart := (q.stands_submit b (.ensure t) n).mono (Q := Stage.Wanted t)
    fun stage hs => .inl (by rw [hs]; exact .queued n)
  have hwanted := hstart.run hvu hp fun q' sig stage u stage' hocc hc hw hstep hu => by
    obtain ⟨pre'', post'', -, hq'⟩ := hocc
    exact hstep.wanted (hvu.run hq').1 hc hw hu
  cases hv.change hs with
  | aside hside => cases hside
  | @calls _ b' stage _ _ hc hstep =>
    obtain ⟨rfl, hw | ⟨answer, rfl⟩⟩ := hwanted.stage _ _ hc
    · obtain ⟨stage', hcalls, -⟩ := hstep.calls hv hc
      have hnow : s.calls.find? q.nextCall = some ⟨b', stage'⟩ := by
        rw [hcalls, Table.find?_insert, if_pos rfl]
      exact ⟨stage, stage', hc, hw, hnow, hstep.attempt hv hc hw hnow⟩
    · exact absurd hstep CallStep.unfinished

theorem answer_of_step (h : (new retention).after acts = some r) {id : Nat} {p s : Relay}
    {a : Action} (hocc : (new retention).Occurs acts p a) (hs : p.act a = some s)
    {answer answer' : Response} (hnow : s.calls.find? id = some ⟨b, .finished answer⟩)
    (hr : r.response? id = some answer') : answer' = answer := by
  obtain ⟨pre, u, post, -, hp, hu, hpost⟩ := hocc.act h
  rw [hs] at hu
  cases hu
  have hafter : (new retention).after (pre ++ [a]) = some s := after_concat.2 ⟨p, hp, hs⟩
  have hstands := stands_answer (valid_of_after hafter) (numbered_of_after hafter) hnow hpost
  obtain ⟨b', hfinished⟩ := finished_of_response hr
  cases (hstands.stage b' _ hfinished).2
  rfl

theorem failedCleanly (h : (new retention).after acts = some r)
    (hask : (new retention).Occurs acts q (.submit b (.ensure t) n))
    (hr : r.response? q.nextCall = some (.failed e)) :
    FailedCleanly retention acts r q.nextCall b t e where
  steps p sig s hocc hs := by
    obtain ⟨stage, stage', -, hw, hnow, hattempt⟩ := attempt_of_submit h hask hocc hs
    cases hattempt with
    | goes _ hquiet hrem => exact ⟨hquiet, .inl hrem⟩
    | fails hquiet _ hrem =>
      cases answer_of_step h hocc hs hnow hr
      exact ⟨hquiet, hrem⟩
    | knows hquiet _ hrem => exact ⟨hquiet, .inl hrem⟩
    | admits ha =>
      have hready := ha.ready
      cases hready
      cases answer_of_step h hocc hs hnow hr
  still acts' s sig hs := by
    obtain ⟨b', hfinished⟩ := finished_of_response hr
    have hv := valid_of_after h
    exact (stands_answer hv (numbered_of_after h) hfinished hs).still (hv.run hs).1 sig
  abandoned u he p sig s hocc hs := by
    subst he
    obtain ⟨stage, stage', -, hw, hnow, hattempt⟩ := attempt_of_submit h hask hocc hs
    cases hattempt with
    | goes _ _ _ hlog =>
      obtain hlog | ⟨readers, w, rfl⟩ := hlog
      · exact hlog
      · -- A call whose topic was created does not fail for want of time.
        obtain ⟨pre, s', post, -, hp, hs', hpost⟩ := hocc.act h
        rw [hs] at hs'
        cases hs'
        have hafter : (new retention).after (pre ++ [_]) = some s := after_concat.2 ⟨p, hp, hs⟩
        have hv := valid_of_after hafter
        have hcreated := ((stands_of_find (numbered_of_after hafter) hnow).mono
          (Q := Stage.Created t) fun _ heq => by rw [heq]; exact .inl ⟨_, _, rfl⟩).run hv hpost
          fun q' sig stage u stage' hocc hc hcr hstep hu => by
            obtain ⟨pre', post', -, hq'⟩ := hocc
            exact hstep.created (hv.run hq').1 hc hcr hu
        obtain ⟨b', hfinished⟩ := finished_of_response hr
        obtain ⟨readers, w, hopening⟩ | ⟨answer, hanswer, hnot⟩ :=
          (hcreated.stage b' _ hfinished).2
        · cases hopening
        · cases hanswer
          exact absurd rfl (hnot u)
    | fails _ hlog => exact hlog
    | knows _ hlog => exact hlog
    | admits ha => exact ha.effect.log
  retry p sig stage hocc hc hseeks acts' s q' n' hs hask' ho hsp hth := by
    have hall : (new retention).after (acts ++ acts') = some s := by
      rw [after_append, h]
      exact hs
    obtain ⟨pre, u, post, -, hp, hu, hpost⟩ := hocc.act h
    have hvp := valid_of_after hp
    obtain ⟨stage', -, hc', hw, -, -⟩ := attempt_of_submit h hask hocc hu
    rw [hc] at hc'
    cases hc'
    -- The broker was there, and the name of the topic is valid.
    obtain ⟨hsize, hsought⟩ : b < p.brokers.size ∧ stage.sought = some t := by
      cases hw with
      | creating => exact ⟨(hvp.calls _ b _ hc).1, rfl⟩
      | opening => exact ⟨(hvp.calls _ b _ hc).1, rfl⟩
      | queued | delayed => cases hseeks
    have hval := named_of_after hp _ b stage t hc hseeks hsought
    have hask'' := hask'
    obtain ⟨pre', post', -, hq'⟩ := hask'
    have hlater := (hvp.later (hvp.change hu)).trans ((hvp.next hu).run hpost).2
    have hsize' := Nat.lt_of_lt_of_le hsize (hlater.trans ((valid_of_after h).run hq').2).size
    exact served hall (occurs_append.2 (.inr ⟨r, h, hask''⟩)) hsize' hval ho hsp hth

theorem failures_leave_no_trace (h : (new retention).after acts = some r) :
    NoTrace retention acts r where
  ensure q b t n e hask hr := failedCleanly h hask hr
  publish q id sig s b stage stage' hocc hs hc hseeks hnow hend := by
    obtain ⟨pre, post, -, hq⟩ := hocc
    have hv := valid_of_after hq
    obtain ⟨t, purpose, hw⟩ := wants_of_seeks hseeks
    cases hv.change hs with
    | aside hside => cases hside
    | calls hcall hstep =>
      rw [hc] at hcall
      cases hcall
      cases hstep.attempt hv hc hw hnow with
      | goes _ hquiet | fails hquiet | knows hquiet => exact hquiet
      | admits ha =>
        -- The topic is ready, so the call neither waits for it nor has failed.
        have hready := ha.ready
        obtain hmore | ⟨e, rfl⟩ := hend
        · cases hready <;> cases hmore
        · cases hready
  asks id b t purpose := by
    obtain ⟨σ, stage, heq, -⟩ := r.ensureTopic_goes id b t purpose
    rw [heq]
    exact r.untouched_goes id b σ stage

end

/-- The creation of a topic takes too long for a first call, and a second one cannot open its second
partition. -/
def failTwice : List Action :=
  [.addRegistry 2, .addBroker { workers := 2, maxTopics := 1 } 0,
    .script ((({} : Script).addCalls .create [⟨5000, none⟩]).addCalls .tail
      [{}, ⟨0, some "no leader"⟩]),
    .submit 0 (.ensure "a") 0, .step (.call 0) .proceed, .step (.call 0) .expire,
    .submit 0 (.ensure "a") 0, .step (.call 1) .proceed, .step (.call 1) .proceed,
    .step (.call 1) .proceed, .step (.call 1) .proceed]

def tryAgain : List Action :=
  [.submit 0 (.ensure "a") 0, .step (.call 2) .proceed, .step (.call 2) .proceed,
    .step (.call 2) .proceed, .step (.call 2) .proceed]

/-- The third call enrolls the topic, in four steps, and both of its partitions have a lane. -/
theorem failures_leave_no_trace_of_failTwice : ∃ r s, (new 4).after failTwice = some r ∧
    r.response? 0 = some (.failed (.topicCreateTimeout "a")) ∧
    r.response? 1 = some (.failed (.log "no leader")) ∧ NoTrace 4 failTwice r ∧
    r.after tryAgain = some s ∧ s.response? 2 = some (.ensured true) ∧
    Served 4 (failTwice ++ tryAgain) s 2 0 "a" := by
  have hfirst : ((new 4).after failTwice).map (fun r => (r.response? 0, r.response? 1,
      r.nextCall)) = some (some (.failed (.topicCreateTimeout "a")),
      some (.failed (.log "no leader")), 2) := by decide +kernel
  have hsecond : ((new 4).after (failTwice ++ tryAgain)).map (fun s => (s.response? 2,
      (s.broker 0).closed, (s.broker 0).topics)) = some (some (.ensured true), false, ["a"]) := by
    decide +kernel
  have hasked : ((new 4).after (failTwice.take 6)).map nextCall = some 1 := by decide +kernel
  have hopening : ((new 4).after (failTwice.take 10)).bind (fun p =>
      (p.calls.find? 1).map fun c => (c.broker, c.stage.seeks)) = some (0, true) := by
    decide +kernel
  have hgranted : (new 4).observe (ofCall 2 thwarted) (failTwice ++ tryAgain) = [] := by
    decide +kernel
  obtain ⟨r, hr, heq⟩ := Option.map_eq_some_iff.1 hfirst
  simp only [Prod.mk.injEq] at heq
  obtain ⟨hlate, hfailed, hnext⟩ := heq
  obtain ⟨s, hs, heq⟩ := Option.map_eq_some_iff.1 hsecond
  simp only [Prod.mk.injEq] at heq
  obtain ⟨hanswer, hopen, htopics⟩ := heq
  rw [after_append, hr, Option.bind_some] at hs
  obtain ⟨q, hq, hcall⟩ := Option.map_eq_some_iff.1 hasked
  obtain ⟨p, hp, hstage⟩ := Option.bind_eq_some_iff.1 hopening
  obtain ⟨⟨b, stage⟩, hc, heq⟩ := Option.map_eq_some_iff.1 hstage
  simp only [Prod.mk.injEq] at heq
  obtain ⟨rfl, hseeks⟩ := heq
  have hno := failures_leave_no_trace hr
  have hclean := hno.ensure q 0 "a" 0 (.log "no leader") ⟨_, _, rfl, hq⟩
    (by rw [hcall]; exact hfailed)
  have hserved := hclean.retry p .proceed stage (by rw [hcall]; exact ⟨_, _, rfl, hp⟩)
    (by rw [hcall]; exact hc) hseeks tryAgain s r 0 hs ⟨[], _, rfl, rfl⟩ hopen
    (fun hsp => hsp.unknown (by rw [htopics]; decide)) (by rw [hnext]; exact hgranted)
  rw [hnext] at hserved
  exact ⟨r, s, hr, hlate, hfailed, hno, hs, hanswer, hserved⟩

end Relay
end EventRelay
