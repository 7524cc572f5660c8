import EventRelay.Proofs.Relay.Valid
/-!
One call in the middle of others. Main statement: `Stands.run`, what holds of the stage of a call
holds throughout a run if the call's own steps keep it.
-/
namespace EventRelay.Relay

/-- A new call and a new removal take the place of no other. -/
structure Numbered (r : Relay) : Prop where
  calls : ∀ id c, r.calls.find? id = some c → id < r.nextCall
  removals : ∀ id m, r.removals.find? id = some m → id < r.nextRemoval

/-- The call `id`, if it is still there, is one of broker `b` and at a stage with `P`. -/
structure Stands (r : Relay) (id b : Nat) (P : Stage → Prop) : Prop where
  number : id < r.nextCall
  stage : ∀ b' stage, r.calls.find? id = some ⟨b', stage⟩ → b' = b ∧ P stage

/-- `a` is what happens in the state `q` of a run of `r`. -/
def Occurs (r : Relay) (acts : List Action) (q : Relay) (a : Action) : Prop :=
  ∃ pre post, acts = pre ++ a :: post ∧ r.after pre = some q

/-- What shows in the steps of the call `id`, if `f` tells what shows in one action. -/
def ofCall {α : Type} (id : Nat) (f : Relay → Action → List α) (r : Relay) : Action → List α
  | .step (.call j) sig => if j = id then f r (.step (.call j) sig) else []
  | _ => []

section
variable {r s : Relay} {retention : Nat} {hist : List (Nat × Record)} {b : Nat}

theorem Numbered.insert_call (h : r.Numbered) {id : Nat} {c : Call} (hid : id < r.nextCall)
    (hc : s.calls = r.calls.insert id c) (hn : s.nextCall = r.nextCall) (j : Nat) (d : Call)
    (hj : s.calls.find? j = some d) : j < s.nextCall := by
  rw [hn]
  rw [hc, Table.find?_insert] at hj
  split at hj
  · rename_i hij
    rw [← hij]
    exact hid
  · exact h.calls j d hj

theorem CallStep.numbered {id b' : Nat} {sig : Signal} {stage : Stage}
    (hv : r.Valid retention hist) (h : r.Numbered) (hc : r.calls.find? id = some ⟨b', stage⟩)
    (hs : CallStep r id b' sig stage s) : s.Numbered := by
  obtain ⟨stage', hcalls, -⟩ := hs.calls hv hc
  have hnew := h.insert_call (s := s) (h.calls id _ hc) hcalls
  cases hs with
  | rejects hσ hl hn hk hf =>
    refine ⟨hnew rfl, fun j m hj => ?_⟩
    simp only [goes, remove, Table.find?_insert] at hj ⊢
    split at hj
    · omega
    · exact Nat.lt_succ_of_lt (h.removals j m hj)
  | @enrolls _ _ _ _ c stage script σ σ' hσ hl hn hk hf hready =>
    have he := hv.enrolls hc hk ⟨c, script⟩ σ σ' stage
    refine ⟨hnew he.nextCall, fun j m hj => ?_⟩
    rw [he.removals] at hj
    rw [he.nextRemoval]
    exact h.removals j m hj
  | _ => exact ⟨hnew rfl, h.removals⟩

theorem Change.numbered {a : Action} (hv : r.Valid retention hist) (h : r.Numbered)
    (hc : Change r a s) : s.Numbered := by
  cases hc with
  | submits b q n =>
    refine ⟨fun j d hj => ?_, h.removals⟩
    rw [Table.find?_insert] at hj
    split at hj
    · rename_i hid
      rw [← hid]
      exact Nat.lt_succ_self _
    · exact Nat.lt_succ_of_lt (h.calls j d hj)
  | collects hc =>
    refine ⟨fun j d hj => ?_, h.removals⟩
    obtain ⟨-, hj⟩ := Table.find?_erase_eq_some.1 hj
    exact h.calls j d hj
  | calls hc hs => exact hs.numbered hv h hc
  | deletes hr hσ hh =>
    refine ⟨h.calls, fun j m hj => ?_⟩
    rw [Table.find?_insert] at hj
    split at hj
    · rename_i hid
      rw [← hid]
      exact h.removals _ _ hr
    · exact h.removals j m hj
  | deletionFails | deleted =>
    refine ⟨h.calls, fun j m hj => ?_⟩
    obtain ⟨-, hj⟩ := Table.find?_erase_eq_some.1 hj
    exact h.removals j m hj
  | lanes hi hs => cases hs <;> exact ⟨h.calls, h.removals⟩
  | _ => exact ⟨h.calls, h.removals⟩

theorem Change.nextCall_le {a : Action} (h : r.Valid retention hist) (hc : Change r a s) :
    r.nextCall ≤ s.nextCall := by
  cases hc with
  | submits => exact Nat.le_succ _
  | calls hc hs =>
    cases hs with
    | enrolls script hσ hl hn hk hf hs =>
      exact Nat.le_of_eq (h.enrolls hc hk ⟨_, script⟩ _ _ _).nextCall.symm
    | _ => exact Nat.le_refl _
  | lanes hi hs => cases hs <;> exact Nat.le_refl _
  | _ => exact Nat.le_refl _

theorem CallStep.unfinished {id : Nat} {sig : Signal} {answer : Response} :
    ¬ CallStep r id b sig (.finished answer) s := by
  intro h
  cases h with
  | moves hσ hm =>
    cases hm with
    | ensures hb | publishes hb | closes hb => cases hb
    | fails hh => cases hh
  | closes hb => cases hb

theorem nextCall_le_of_after (hv : r.Valid retention hist) {acts : List Action}
    (hr : r.after acts = some s) : r.nextCall ≤ s.nextCall := by
  induction hr using after_induct with
  | start => exact Nat.le_refl _
  | next acts q a s hq ha ih =>
    have hvq := (hv.run hq).1
    exact Nat.le_trans ih ((hvq.change ha).nextCall_le hvq)

theorem ofCall_self {α : Type} (f : Relay → Action → List α) (id : Nat) (sig : Signal) :
    r.ofCall id f (.step (.call id) sig) = f r (.step (.call id) sig) :=
  if_pos rfl

theorem ofCall_of_ne {α : Type} {f : Relay → Action → List α} {id : Nat} {a : Action}
    (h : ∀ sig, a ≠ .step (.call id) sig) : ofCall id f r a = [] := by
  unfold ofCall
  split
  · rename_i j sig
    exact if_neg fun hid => h sig (by rw [hid])
  · rfl

theorem occurs_append {acts acts' : List Action} {q : Relay} {a : Action} :
    r.Occurs (acts ++ acts') q a ↔
      r.Occurs acts q a ∨ ∃ s, r.after acts = some s ∧ s.Occurs acts' q a := by
  constructor
  · intro hall
    obtain ⟨pre, post, heq, hq⟩ := hall
    obtain ⟨as, rfl, rfl⟩ | ⟨bs, rfl, hbs⟩ := List.append_eq_append_iff.1 heq
    · rw [after_append] at hq
      obtain ⟨s, hs, hq⟩ := Option.bind_eq_some_iff.1 hq
      exact .inr ⟨s, hs, as, post, rfl, hq⟩
    · cases bs with
      | nil =>
        rw [List.append_nil]
        rw [List.nil_append] at hbs
        exact .inr ⟨q, hq, [], post, hbs.symm, rfl⟩
      | cons x bs =>
        cases hbs
        exact .inl ⟨pre, bs, rfl, hq⟩
  · intro hall
    obtain ⟨pre, post, rfl, hq⟩ | ⟨s, hs, pre, post, rfl, hq⟩ := hall
    · exact ⟨pre, post ++ acts', List.append_assoc .., hq⟩
    · exact ⟨acts ++ pre, post, (List.append_assoc ..).symm, by rw [after_append, hs]; exact hq⟩

theorem Occurs.append {acts : List Action} {q : Relay} {a : Action} (h : r.Occurs acts q a)
    (acts' : List Action) : r.Occurs (acts ++ acts') q a :=
  occurs_append.2 (.inl h)

theorem Occurs.last {acts : List Action} (h : r.after acts = some s) (a : Action) :
    r.Occurs (acts ++ [a]) s a :=
  ⟨acts, [], rfl, h⟩

theorem Occurs.mem_observe {α : Type} {f : Relay → Action → List α} {acts : List Action}
    {q : Relay} {a : Action} (h : r.Occurs acts q a) {x : α} (hx : x ∈ f q a) :
    x ∈ r.observe f acts := by
  obtain ⟨pre, post, rfl, hq⟩ := h
  rw [observe_append f hq]
  exact List.mem_append_right _ (List.mem_append_left _ hx)

theorem Stands.mono {id : Nat} {P Q : Stage → Prop} (h : r.Stands id b P)
    (hPQ : ∀ stage, P stage → Q stage) : r.Stands id b Q :=
  ⟨h.number, fun b' stage hc => (h.stage b' stage hc).imp_right (hPQ stage)⟩

theorem stands_submit (r : Relay) (b : Nat) (q : Request) (n : Nat) :
    (r.submit b q n).2.Stands r.nextCall b (· = .queued n q) := by
  refine ⟨Nat.lt_succ_self _, fun b' stage hc => ?_⟩
  rw [submit, Table.find?_insert, if_pos rfl] at hc
  cases hc
  exact ⟨rfl, rfl⟩

theorem Stands.next (hv : r.Valid retention hist) {id : Nat} {P : Stage → Prop}
    (h : r.Stands id b P) {a : Action} (hc : Change r a s)
    (hstep : ∀ sig stage stage', a = .step (.call id) sig →
      r.calls.find? id = some ⟨b, stage⟩ → P stage → CallStep r id b sig stage s →
      s.calls.find? id = some ⟨b, stage'⟩ → P stage') : s.Stands id b P := by
  refine ⟨Nat.lt_of_lt_of_le h.number (hc.nextCall_le hv), fun b' stage hs => ?_⟩
  obtain hold | ⟨hnew, -⟩ | ⟨sig, stage₀, hact, hold, hcall⟩ := hc.call_or hv hs
  · exact h.stage b' stage hold
  · exact absurd hnew (Nat.ne_of_lt h.number)
  · obtain ⟨rfl, hP⟩ := h.stage b' stage₀ hold
    exact ⟨rfl, hstep sig stage₀ stage hact hold hP hcall hs⟩

theorem Stands.run (hv : r.Valid retention hist) {id : Nat} {P : Stage → Prop}
    (h : r.Stands id b P) {acts : List Action} (hr : r.after acts = some s)
    (hstep : ∀ q sig stage u stage', r.Occurs acts q (.step (.call id) sig) →
      q.calls.find? id = some ⟨b, stage⟩ → P stage → CallStep q id b sig stage u →
      u.calls.find? id = some ⟨b, stage'⟩ → P stage') : s.Stands id b P := by
  induction hr using after_induct with
  | start => exact h
  | next acts q a s hq ha ih =>
    have hvq := (hv.run hq).1
    have hbefore := ih fun q' sig stage u stage' ho => hstep q' sig stage u stage' (ho.append [a])
    refine hbefore.next hvq (hvq.change ha) fun sig stage stage' heq => ?_
    subst heq
    exact hstep q sig stage s stage' (.last hq _)

theorem stands_of_find (hn : r.Numbered) {id : Nat} {stage : Stage}
    (h : r.calls.find? id = some ⟨b, stage⟩) : r.Stands id b (· = stage) := by
  refine ⟨hn.calls id _ h, fun b' stage' hc => ?_⟩
  rw [h] at hc
  cases hc
  exact ⟨rfl, rfl⟩

theorem Occurs.act {acts : List Action} {q : Relay} {a : Action} (h : r.Occurs acts q a)
    (hr : r.after acts = some s) :
    ∃ pre u post, acts = pre ++ a :: post ∧ r.after pre = some q ∧ q.act a = some u ∧
      u.after post = some s := by
  obtain ⟨pre, post, rfl, hq⟩ := h
  rw [after_append, hq, Option.bind_some] at hr
  obtain ⟨u, hu, hpost⟩ := Option.bind_eq_some_iff.1 hr
  exact ⟨pre, u, post, rfl, hq, hu, hpost⟩

theorem Occurs.later (hv : r.Valid retention hist) {acts post : List Action} {q u : Relay}
    {a : Action} (h : r.Occurs acts q a) (hu : q.act a = some u) (hpost : u.after post = some s) :
    r.Later q ∧ q.Later u ∧ u.Later s ∧ ∃ hist', u.Valid retention hist' := by
  obtain ⟨pre, _, -, hq⟩ := h
  obtain ⟨hvq, hlater⟩ := hv.run hq
  have hvu := hvq.next hu
  exact ⟨hlater, hvq.later (hvq.change hu), (hvu.run hpost).2, _, hvu⟩

theorem exists_answer (hv : r.Valid retention hist) {id : Nat} {answer : Response}
    {acts : List Action} (hr : r.after acts = some s)
    (hs : s.calls.find? id = some ⟨b, .finished answer⟩)
    (hnot : r.calls.find? id ≠ some ⟨b, .finished answer⟩) :
    ∃ q sig u post stage, r.Occurs acts q (.step (.call id) sig) ∧
      q.act (.step (.call id) sig) = some u ∧ u.after post = some s ∧
      q.calls.find? id = some ⟨b, stage⟩ ∧ CallStep q id b sig stage u ∧
      u.calls.find? id = some ⟨b, .finished answer⟩ := by
  induction hr using after_induct with
  | start => exact absurd hs hnot
  | next acts q a s hq ha ih =>
    have hvq := (hv.run hq).1
    obtain hold | ⟨-, n, request, hnew⟩ | ⟨sig, stage, rfl, hold, hstep⟩ :=
      (hvq.change ha).call_or hvq hs
    · obtain ⟨q', sig, u, post, stage, hocc, hact, hpost, hrest⟩ := ih hold
      refine ⟨q', sig, u, post ++ [a], stage, hocc.append [a], hact, ?_, hrest⟩
      exact after_concat.2 ⟨q, hpost, ha⟩
    · cases hnew
    · exact ⟨q, sig, s, [], stage, .last hq _, ha, rfl, hold, hstep, hs⟩

theorem stands_answer (hv : r.Valid retention hist) (hn : r.Numbered) {id : Nat}
    {answer : Response} (h : r.calls.find? id = some ⟨b, .finished answer⟩) {acts : List Action}
    (hr : r.after acts = some s) : s.Stands id b (· = .finished answer) := by
  refine (stands_of_find hn h).run hv hr fun q sig stage u stage' _ _ hP hcall _ => ?_
  subst hP
  exact absurd hcall CallStep.unfinished

end

theorem numbered_of_after {retention : Nat} {acts : List Action} {r : Relay}
    (h : (new retention).after acts = some r) : r.Numbered := by
  induction h using after_induct with
  | start =>
    constructor
    · intro id c hc
      cases hc
    · intro id m hm
      cases hm
  | next acts q a s hq ha ih =>
    have hv := valid_of_after hq
    exact (hv.change ha).numbered hv ih

theorem occurs_submit {retention : Nat} {acts : List Action} {q₀ r : Relay} {b n : Nat}
    {request : Request} (h : (new retention).after acts = some r)
    (hs : (new retention).Occurs acts q₀ (.submit b request n)) :
    ∃ pre post, acts = pre ++ .submit b request n :: post ∧ (new retention).after pre = some q₀ ∧
      (q₀.submit b request n).2.after post = some r ∧ ∀ q sig,
        (new retention).Occurs acts q (.step (.call q₀.nextCall) sig) →
          (q₀.submit b request n).2.Occurs post q (.step (.call q₀.nextCall) sig) := by
  obtain ⟨pre, u, post, rfl, hq₀, hu, hpost⟩ := hs.act h
  cases hu
  refine ⟨pre, post, rfl, hq₀, hpost, fun q sig hocc => ?_⟩
  obtain hocc | ⟨u, hu, hocc⟩ := occurs_append.1 hocc
  · -- The call was not there before, so it took no step.
    obtain ⟨pre', s, post', -, hq, hact, hrest⟩ := hocc.act hq₀
    have hv := valid_of_after hq
    have hle := Nat.le_trans ((hv.change hact).nextCall_le hv)
      (nextCall_le_of_after (hv.next hact) hrest)
    cases hv.change hact with
    | aside hside => cases hside
    | calls hc hstep => exact absurd hle (Nat.not_le.2 ((numbered_of_after hq).calls _ _ hc))
  · rw [hq₀] at hu
    cases hu
    have hlast : q₀.Occurs ([.submit b request n] ++ post) q (.step (.call q₀.nextCall) sig) := hocc
    obtain hocc | ⟨u, hu, hocc⟩ := occurs_append.1 hlast
    · obtain ⟨as, bs, heq, -⟩ := hocc
      cases as <;> simp at heq
    · cases hu
      exact hocc

theorem ofCall_before {α : Type} (f : Relay → Action → List α) {retention : Nat}
    {acts : List Action} {r : Relay} (h : (new retention).after acts = some r) {id : Nat}
    (hid : r.nextCall ≤ id) : (new retention).observe (ofCall id f) acts = [] := by
  induction h using after_induct with
  | start => rfl
  | next acts q a s hq ha ih =>
    have hv := valid_of_after hq
    have hle := Nat.le_trans ((hv.change ha).nextCall_le hv) hid
    have hother : ∀ sig, a ≠ .step (.call id) sig := by
      intro sig heq
      subst heq
      cases hc : q.calls.find? id with
      | none =>
        simp only [act, step, stepCall, hc, Option.bind_eq_bind, Option.bind_none] at ha
        cases ha
      | some c => exact absurd ((numbered_of_after hq).calls id c hc) (Nat.not_lt.2 hle)
    rw [observe_concat _ hq, ih hle, ofCall_of_ne hother, List.append_nil]

theorem finished_of_response {r : Relay} {id : Nat} {answer : Response}
    (h : r.response? id = some answer) : ∃ b, r.calls.find? id = some ⟨b, .finished answer⟩ := by
  unfold response? at h
  split at h
  · rename_i hc
    cases h
    exact ⟨_, hc⟩
  · cases h

end EventRelay.Relay
