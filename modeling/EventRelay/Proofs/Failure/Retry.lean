import EventRelay.Proofs.Failure.Attempts
/-!
A call whose log calls all go through gets its topic. Main statement: `served`; `CallStep.granted`
is the step.
-/
namespace EventRelay

/-- The call wants the topic, or it has it. -/
def Stage.Served (t : String) (stage : Stage) : Prop :=
  stage.Wants t .answer ∨ ∃ enrolled, stage = .finished (.ensured enrolled)

namespace Relay

/-- What becomes of the call `id`, which is to have a topic ready. `acts` lead to `r`. -/
structure Served (retention : Nat) (acts : List Action) (r : Relay) (id b : Nat) (t : String) :
    Prop where
  /-- It takes few steps. -/
  steps : ((new retention).observe (ofCall id fun _ a => [a]) acts).length ≤
    (r.broker b).config.workers + 3
  /-- As long as it has no answer it can take the next one, at once or after some time. -/
  goes : ∀ stage, r.calls.find? id = some ⟨b, stage⟩ → (∀ answer, stage ≠ .finished answer) →
    (∃ s, r.act (.step (.call id) .proceed) = some s) ∧
    (r.readiness (.call id) = .now .proceed ∨
      ∃ d others, r.readiness (.call id) = .later ((d, .proceed) :: others))
  /-- It answers that it enrolled the topic, which then has a lane for each partition, or that the
  topic was known. -/
  answers : ∀ answer, r.calls.find? id = some ⟨b, .finished answer⟩ →
    (answer = .ensured true ∧ ∃ q s, (new retention).Occurs acts q (.step (.call id) .proceed) ∧
      q.act (.step (.call id) .proceed) = some s ∧ t ∉ (q.broker b).topics ∧
      ∀ p, p < (r.broker b).config.workers → ∃! i, s.Runs b t p i) ∨
    (answer = .ensured false ∧ ∃ q, (new retention).Occurs acts q (.step (.call id) .proceed) ∧
      t ∈ (q.broker b).topics)
  /-- From then on the lanes run, unless a read tells one that its partition is over. -/
  manned : ∀ answer, r.calls.find? id = some ⟨b, .finished answer⟩ →
    (∀ l ∈ (new retention).observe ended acts, ¬(l.broker = b ∧ l.topic = t)) →
    t ∈ (r.broker b).topics ∧ ∀ p, p < (r.broker b).config.workers → ∃! i, r.Runs b t p i

section
variable {r s : Relay} {retention : Nat} {hist : List (Nat × Record)} {id b : Nat} {t : String}
  {purpose : Purpose} {sig : Signal} {stage stage' : Stage}

theorem Valid.left_pos (hv : r.Valid retention hist) (hc : r.calls.find? id = some ⟨b, stage⟩)
    (hw : stage.Wants t purpose) : 0 < stage.left (r.broker b).config.workers := by
  cases hw with
  | opening _ readers w => exact Nat.sub_pos_of_lt (hv.calls id b _ hc).2.2.1
  | queued | delayed | creating => exact Nat.succ_pos _

theorem CallStep.granted (hv : r.Valid retention hist) (hc : r.calls.find? id = some ⟨b, stage⟩)
    (hw : stage.Wants t .answer) (hnot : ¬ Thwarts r b t sig stage)
    (hstep : CallStep r id b sig stage s) (hs : s.calls.find? id = some ⟨b, stage'⟩) :
    stage'.Served t ∧
      stage'.left (r.broker b).config.workers < stage.left (r.broker b).config.workers := by
  have hpos := hv.left_pos hc hw
  cases hstep.attempt hv hc hw hs with
  | goes hw' _ _ _ hleft => exact ⟨.inl hw', hleft⟩
  | fails _ _ _ _ hwhy => exact absurd hwhy hnot
  | knows _ _ _ _ hready =>
    cases hready
    exact ⟨.inr ⟨_, rfl⟩, hpos⟩
  | admits ha =>
    have hready := ha.ready
    cases hready
    exact ⟨.inr ⟨_, rfl⟩, hpos⟩

theorem Admits.manned {a : Action} {opened : List Reader} {last : Reader}
    (h : r.Admits a s id b t purpose opened last stage) (hv : s.Valid retention hist)
    (ho : (s.broker b).closed = false) {p : Nat} (hp : p < (r.broker b).config.workers) :
    ∃! i, s.Runs b t p i := by
  obtain ⟨rd, -, hlane⟩ := h.lane hp
  refine ⟨r.nextLane + p, ⟨_, hlane, rfl, rfl, rfl, (hv.isCancelled hlane).trans ho⟩, ?_⟩
  intro j hall
  obtain ⟨m, hj, hb, ht, hpart, -⟩ := hall
  exact hv.apart j _ m _ hj hlane hb ht hpart

theorem Wants.goes (hc : r.calls.find? id = some ⟨b, stage⟩) (hw : stage.Wants t purpose) :
    (∃ s, r.act (.step (.call id) .proceed) = some s) ∧
    (r.readiness (.call id) = .now .proceed ∨
      ∃ d others, r.readiness (.call id) = .later ((d, .proceed) :: others)) := by
  have hlog (w : Hindrance) (others : List (Nat × Signal)) : w.readiness others = .now .proceed ∨
      ∃ d rest, w.readiness others = .later ((d, .proceed) :: rest) := by
    unfold Hindrance.readiness
    split
    · exact .inl rfl
    · exact .inr ⟨w.delay, others, rfl⟩
  rw [act_call hc, readiness, hc, Option.elim_some]
  cases hw with
  | queued n => cases n <;> exact ⟨⟨_, rfl⟩, .inl rfl⟩
  | delayed n => exact ⟨⟨_, rfl⟩, .inr ⟨_, _, rfl⟩⟩
  | creating _ w => exact ⟨⟨_, rfl⟩, hlog w [((r.broker b).createTimeout, .expire)]⟩
  | opening _ readers w => exact ⟨⟨_, rfl⟩, hlog w []⟩

theorem granted_of_thwarted (hc : r.calls.find? id = some ⟨b, stage⟩)
    (h : ∀ x, x ∉ r.thwarted (.step (.call id) sig)) :
    sig = .proceed ∧ stage.granted r b = true := by
  by_contra hnot
  refine h sig ?_
  rw [thwarted, hc, Option.elim_some, if_neg hnot]
  exact List.mem_singleton_self _

/-- The steps that a call has taken and those that are left. -/
structure Counted (r : Relay) (id b : Nat) (t : String) (n taken : Nat) : Prop where
  stands : r.Stands id b (Stage.Served t)
  bound : taken ≤ n
  left : ∀ stage, r.calls.find? id = some ⟨b, stage⟩ →
    taken + stage.left (r.broker b).config.workers ≤ n

theorem Counted.next {a : Action} {n taken : Nat} (hv : r.Valid retention hist)
    (h : r.Counted id b t n taken) (hsize : b < r.brokers.size) (ha : r.act a = some s)
    (hnot : ∀ sig stage, a = .step (.call id) sig → r.calls.find? id = some ⟨b, stage⟩ →
      ¬ Thwarts r b t sig stage) :
    s.Counted id b t n (taken + (ofCall id (fun _ a => [a]) r a).length) := by
  have hc := hv.change ha
  have hcfg := (hv.later hc).config b hsize
  by_cases hown : ∃ sig, a = .step (.call id) sig
  · obtain ⟨sig, rfl⟩ := hown
    rw [ofCall_self, List.length_singleton]
    cases hc with
    | aside hside => cases hside
    | @calls _ b' stage _ _ hcall hstep =>
      obtain ⟨rfl, hserved⟩ := h.stands.stage _ _ hcall
      obtain hw | ⟨e, rfl⟩ := hserved
      swap
      · exact absurd hstep CallStep.unfinished
      obtain ⟨stage', hcalls, -⟩ := hstep.calls hv hcall
      have hnow : s.calls.find? id = some ⟨b', stage'⟩ := by
        rw [hcalls, Table.find?_insert, if_pos rfl]
      obtain ⟨hserved', hleft⟩ := hstep.granted hv hcall hw (hnot sig _ rfl hcall) hnow
      have hbefore := h.left _ hcall
      refine ⟨⟨Nat.lt_of_lt_of_le h.stands.number ((hv.change ha).nextCall_le hv), ?_⟩,
        by omega, ?_⟩
      · intro b' stage hs
        rw [hnow] at hs
        cases hs
        exact ⟨rfl, hserved'⟩
      · intro stage hs
        rw [hnow] at hs
        cases hs
        rw [hcfg]
        omega
  · have hother : ∀ sig, a ≠ .step (.call id) sig := fun sig heq => hown ⟨sig, heq⟩
    rw [ofCall_of_ne hother, List.length_nil, Nat.add_zero]
    refine ⟨h.stands.next hv hc fun sig _ _ heq => absurd heq (hother sig), h.bound, ?_⟩
    intro stage hs
    obtain hold | ⟨hnew, -⟩ | ⟨sig, stage₀, heq, -⟩ := hc.call_or hv hs
    · rw [hcfg]
      exact h.left stage hold
    · exact absurd hnew (Nat.ne_of_lt h.stands.number)
    · exact absurd heq (hother sig)

theorem Counted.run {n taken : Nat} (hv : r.Valid retention hist)
    (h : r.Counted id b t n taken) (hsize : b < r.brokers.size) {acts : List Action}
    (hr : r.after acts = some s)
    (hnot : ∀ q sig stage, r.Occurs acts q (.step (.call id) sig) →
      q.calls.find? id = some ⟨b, stage⟩ → ¬ Thwarts q b t sig stage) :
    s.Counted id b t n (taken + (r.observe (ofCall id fun _ a => [a]) acts).length) := by
  induction hr using after_induct with
  | start => exact h
  | next acts q a s hq ha ih =>
    obtain ⟨hvq, hlater⟩ := hv.run hq
    have hbefore := ih fun q' sig stage ho => hnot q' sig stage (ho.append [a])
    rw [observe_concat _ hq, List.length_append, ← Nat.add_assoc]
    refine hbefore.next hvq (Nat.lt_of_lt_of_le hsize hlater.size) ha fun sig stage heq => ?_
    subst heq
    exact hnot q sig stage (.last hq _)

end

section
variable {retention : Nat} {acts : List Action} {q r : Relay} {b n : Nat} {t : String}

/-- Nothing thwarts a call whose log calls all go through, on a broker that stays open and has a
slot. -/
theorem not_thwarts (h : (new retention).after acts = some r) {id : Nat} {sig : Signal}
    {stage : Stage} (hval : Topic.validate t = .ok ()) (ho : (r.broker b).closed = false)
    (hsp : ¬ r.Spurns b t) (hth : (new retention).observe (ofCall id thwarted) acts = [])
    (hsize : b < q.brokers.size) (hocc : (new retention).Occurs acts q (.step (.call id) sig))
    (hc : q.calls.find? id = some ⟨b, stage⟩) : ¬ Thwarts q b t sig stage := by
  obtain ⟨pre, u, post, -, hq, hu, hpost⟩ := hocc.act h
  have hv := valid_of_after hq
  have hlater := (hv.later (hv.change hu)).trans ((hv.next hu).run hpost).2
  have hnone : ∀ x, x ∉ q.thwarted (.step (.call id) sig) := by
    intro x hx
    have hmem := hocc.mem_observe (f := ofCall id thwarted) (x := x) (by rw [ofCall_self]; exact hx)
    rw [hth] at hmem
    cases hmem
  obtain ⟨hsig, hgranted⟩ := granted_of_thwarted hc hnone
  intro hwhy
  cases hwhy with
  | closed hclosed =>
    rw [hlater.open_before hsize ho] at hclosed
    cases hclosed
  | invalid he => rw [hval] at he; cases he
  | full hfull => exact hsp (hfull.later hlater (valid_of_after h))
  | expires hexp => exact hexp hsig
  | refused href => rw [hgranted] at href; cases href

theorem Counted.exists_ready {id k taken : Nat} {hist : List (Nat × Record)} {answer : Response}
    (hv : q.Valid retention hist) (h : q.Counted id b t k taken) (hsize : b < q.brokers.size)
    (hr : q.after acts = some r)
    (hnot : ∀ q' sig stage, q.Occurs acts q' (.step (.call id) sig) →
      q'.calls.find? id = some ⟨b, stage⟩ → ¬ Thwarts q' b t sig stage)
    (hs : r.calls.find? id = some ⟨b, .finished answer⟩)
    (hne : q.calls.find? id ≠ some ⟨b, .finished answer⟩) :
    ∃ q' s post, q.Occurs acts q' (.step (.call id) .proceed) ∧
      q'.act (.step (.call id) .proceed) = some s ∧ s.after post = some r ∧
      (answer = .ensured true ∧ (∃ opened last, q'.Admits (.step (.call id) .proceed) s id b t
        .answer opened last (.finished answer)) ∨
      answer = .ensured false ∧ t ∈ (q'.broker b).topics) := by
  obtain ⟨q', sig, s, post, stage, hocc, hact, hpost, hc, hstep, hfinished⟩ :=
    exists_answer hv hr hs hne
  have hfree := hnot q' sig stage hocc hc
  obtain rfl : sig = .proceed := by
    by_contra hsig
    exact hfree (.expires hsig)
  have hocc' := hocc
  obtain ⟨pre', post', hacts, hq'⟩ := hocc
  have hthere := h.run hv hsize hq' fun p sig stage ho =>
    hnot p sig stage (by rw [hacts]; exact ho.append _)
  obtain hw | ⟨e, rfl⟩ := (hthere.stands.stage b stage hc).2
  swap
  · exact absurd hstep CallStep.unfinished
  refine ⟨q', s, post, hocc', hact, hpost, ?_⟩
  cases hstep.attempt (hv.run hq').1 hc hw hfinished with
  | goes hw' => cases hw'
  | fails _ _ _ _ hwhy => exact absurd hwhy hfree
  | knows _ _ _ hk hready =>
    cases hready
    exact .inr ⟨rfl, hk⟩
  | admits ha =>
    refine .inl ⟨?_, _, _, ha⟩
    have hready := ha.ready
    cases hready
    rfl

theorem served (h : (new retention).after acts = some r)
    (hask : (new retention).Occurs acts q (.submit b (.ensure t) n)) (hsize : b < q.brokers.size)
    (hval : Topic.validate t = .ok ()) (ho : (r.broker b).closed = false)
    (hsp : ¬ r.Spurns b t)
    (hth : (new retention).observe (ofCall q.nextCall thwarted) acts = []) :
    Served retention acts r q.nextCall b t := by
  obtain ⟨pre, post, heq, hq, hpost, -⟩ := occurs_submit h hask
  have hv := valid_of_after hq
  have hsubmit : q.act (.submit b (.ensure t) n) = some (q.submit b (.ensure t) n).2 := rfl
  have hvu := hv.next hsubmit
  have hlater := (hv.later (hv.change hsubmit)).trans (hvu.run hpost).2
  have hcfg := hlater.config b hsize
  have hall : ∀ q' a, (q.submit b (.ensure t) n).2.Occurs post q' a →
      (new retention).Occurs acts q' a := by
    intro q' a hocc
    obtain ⟨pre', post', hpost', hq'⟩ := hocc
    refine ⟨pre ++ .submit b (.ensure t) n :: pre', post', by rw [heq, hpost']; simp, ?_⟩
    rw [after_append, hq]
    exact hq'
  have hnot : ∀ q' sig stage,
      (q.submit b (.ensure t) n).2.Occurs post q' (.step (.call q.nextCall) sig) →
      q'.calls.find? q.nextCall = some ⟨b, stage⟩ → ¬ Thwarts q' b t sig stage := by
    intro q' sig stage hocc hc
    have hocc' := hall q' _ hocc
    obtain ⟨pre', post', -, hq'⟩ := hocc
    have hsize' : b < q'.brokers.size := Nat.lt_of_lt_of_le hsize (hvu.run hq').2.size
    exact not_thwarts h hval ho hsp hth hsize' hocc' hc
  have hstart := q.stands_submit b (.ensure t) n
  have hcounted : (q.submit b (.ensure t) n).2.Counted q.nextCall b t
      ((q.broker b).config.workers + 3) 0 := by
    refine ⟨hstart.mono fun stage hs => .inl (by rw [hs]; exact .queued n), Nat.zero_le _, ?_⟩
    intro stage hs
    obtain ⟨-, rfl⟩ := hstart.stage b stage hs
    exact Nat.le_of_eq (Nat.zero_add _)
  have hlast := hcounted.run hvu hsize hpost hnot
  have hready := fun answer (hs : r.calls.find? q.nextCall = some ⟨b, .finished answer⟩) =>
    hcounted.exists_ready hvu hsize hpost hnot hs fun hold => by
      cases (hstart.stage b _ hold).2
  refine ⟨?_, fun stage hs hne => ?_, fun answer hs => ?_, fun answer hs hend => ?_⟩
  · rw [hcfg, heq, observe_append _ hq, ofCall_before _ hq (Nat.le_refl _), List.nil_append]
    have hbound := hlast.bound
    rw [Nat.zero_add] at hbound
    exact hbound
  · obtain hw | ⟨e, rfl⟩ := (hlast.stands.stage b stage hs).2
    · exact Wants.goes hs hw
    · exact absurd rfl (hne _)
  · obtain ⟨q', s, post', hocc, hact, hpost', hcase⟩ := hready answer hs
    obtain ⟨hbefore, hstep, hafter, _, hvs⟩ := hocc.later hvu hact hpost'
    obtain ⟨rfl, opened, last, ha⟩ | ⟨rfl, hk⟩ := hcase
    · refine .inl ⟨rfl, q', s, hall q' _ hocc, hact, ha.unknown, fun p hp => ?_⟩
      have hsize' := Nat.lt_of_lt_of_le hsize hbefore.size
      rw [(hstep.trans hafter).config b hsize'] at hp
      have hopen := hafter.open_before (Nat.lt_of_lt_of_le hsize' hstep.size) ho
      exact ha.manned hvs hopen hp
    · exact .inr ⟨rfl, q', hall q' _ hocc, hk⟩
  · obtain ⟨q', s, post', hocc, hact, hpost', hcase⟩ := hready answer hs
    obtain ⟨hbefore, hstep, hafter, _, hvs⟩ := hocc.later hvu hact hpost'
    have hknown : t ∈ (s.broker b).topics := by
      obtain ⟨-, opened, last, ha⟩ | ⟨-, hk⟩ := hcase
      · rw [ha.effect.broker b, if_pos rfl]
        exact List.mem_append_right _ (List.mem_singleton_self t)
      · exact (hstep.topics b).subset hk
    have hstill := (hafter.topics b).subset hknown
    exact ⟨hstill, fun p hp => Relay.manned h ho hend hstill hp⟩

end

end Relay
end EventRelay
