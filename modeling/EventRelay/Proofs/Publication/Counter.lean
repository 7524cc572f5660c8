import EventRelay.Proofs.Relay.Valid
/-!
The counter of published records. Main statement: `counter_of_after`, the counter of a broker is
the number of records that its calls appended.
-/
namespace EventRelay.Relay

def appendedFor (b : Nat) (r : Relay) : Action → List (Nat × Record)
  | .step (.call id) sig => (r.calls.find? id).elim [] fun c =>
      if c.broker = b then r.appended (.step (.call id) sig) else []
  | _ => []

section
variable {r s : Relay} {retention : Nat} {hist : List (Nat × Record)}

theorem published_setBroker (r : Relay) {b : Nat} {v : Broker}
    (hv : v.published = (r.broker b).published) (b' : Nat) :
    ((r.setBroker b v).broker b').published = (r.broker b').published := by
  by_cases hb : b < r.brokers.size
  · rw [r.broker_setBroker hb]
    split
    · rename_i h
      rw [hv, h]
    · rfl
  · rw [r.setBroker_of_le (Nat.le_of_not_lt hb)]

theorem CallStep.published {id b' : Nat} {sig : Signal} {stage : Stage}
    (hv : r.Valid retention hist) (hc : r.calls.find? id = some ⟨b', stage⟩)
    (hs : CallStep r id b' sig stage s) (b : Nat) :
    (s.broker b).published = (r.broker b).published +
      UInt64.ofNat (if b' = b then r.appended (.step (.call id) sig) else []).length := by
  have hrest (hnone : r.appended (.step (.call id) sig) = [])
      (h : (s.broker b).published = (r.broker b).published) :
      (s.broker b).published = (r.broker b).published +
        UInt64.ofNat (if b' = b then r.appended (.step (.call id) sig) else []).length := by
    rw [hnone, ite_self, h]
    exact (UInt64.add_zero _).symm
  have happended := hs.logChange hv hc
  cases hs with
  | moves hσ hm =>
    refine hrest ?_ rfl
    cases sig with
    | proceed => exact (appended_call hc).trans hm.appended
    | expire | stop => rfl
  | closes hb ho =>
    refine hrest ?_ (published_setBroker r (b := b') (v := { r.broker b' with
      closed := true, crews := .empty }) rfl b)
    rw [appended_call hc]
    cases hb <;> rfl
  | creates | opens | rejects | closesLog => exact hrest (appended_call hc) rfl
  | enrolls script hσ hl hn hk hf hready =>
    refine hrest (appended_call hc) ?_
    rw [(hv.enrolls hc hk ⟨_, script⟩ _ _ _).broker b]
    split
    · rename_i h
      rw [h]
    · rfl
  | @produces item rest acks d ack log _ _ hσ hl hpub =>
    obtain ⟨i, rec, inc, inc', p, hrec, -⟩ := Log.produce_appends hl hv.log.sound
    have hset := ({ r with log } : Relay).broker_setBroker (size_of_mem (hv.calls id b' _ hc))
      { r.broker b' with published := (r.broker b').published + 1 } b
    refine (congrArg Broker.published hset).trans ?_
    rw [appended_call hc, Stage.appended, hrec]
    by_cases hb : b = b'
    · subst hb
      rw [if_pos rfl, if_pos rfl]
      rfl
    · rw [if_neg hb, if_neg (Ne.symm hb)]
      exact (UInt64.add_zero _).symm

/-- An action raises the counter of a broker by the number of records that it appends for it. -/
theorem Change.published {a : Action} (hv : r.Valid retention hist) (hc : Change r a s) (b : Nat) :
    (s.broker b).published = (r.broker b).published + UInt64.ofNat (r.appendedFor b a).length := by
  have hrest {x : UInt64} : x = x + UInt64.ofNat ([] : List (Nat × Record)).length :=
    (UInt64.add_zero x).symm
  cases hc with
  | @calls id b' stage _ sig hc hs =>
    rw [appendedFor, hc, Option.elim_some]
    exact hs.published hv hc b
  | aside ha =>
    cases a with
    | step j sig =>
      cases j with
      | feed id => exact hrest
      | call | removal | lane => cases ha
    | _ => exact hrest
  | @opensBroker config registry hf =>
    rw [broker_push]
    split
    · rename_i hb
      rw [hb, broker, Array.getElem?_eq_none (Nat.le_refl _)]
      exact hrest
    · exact hrest
  | lanes hi hs => cases hs <;> exact hrest
  | _ => exact hrest

end

theorem counter_of_after {retention : Nat} {acts : List Action} {r : Relay}
    (h : (new retention).after acts = some r) (b : Nat) : (r.broker b).published =
      UInt64.ofNat ((new retention).observe (appendedFor b) acts).length := by
  induction h using after_induct with
  | start => rfl
  | next acts q a s hq ha ih =>
    have hv := valid_of_after hq
    rw [(hv.change ha).published hv b, ih, observe_concat (appendedFor b) hq, List.length_append,
      UInt64.ofNat_add]

end EventRelay.Relay
