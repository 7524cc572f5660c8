import EventRelay.Proofs.Publication.Counter
import EventRelay.Proofs.Relay.Calls
/-!
The records of one publishing call. Main statement: `carrying_of_after`, a call has appended the
records of the publications that it has acknowledgements for, in order, and no others.
-/
namespace EventRelay

def Publication.record (item : Publication) (ack : Ack) : Record :=
  ⟨item.channel.topic, ack.partition, ack.offset, item.channel.name, item.payload⟩

/-- The publication under way is the first of `items` without an acknowledgement. -/
def Purpose.Carries (items : List Publication) (acks : List Ack) : Purpose → Prop
  | .answer => False
  | .publish item rest acks' => acks' = acks ∧ items.drop acks.length = item :: rest

/-- Where a call stands that publishes `items` and got `acks` for the first of them. -/
inductive Stage.Carries (items : List Publication) (acks : List Ack) : Stage → Prop
  | queued (n : Nat) (h : acks = []) : Carries items acks (.queued n (.publish items))
  | delayed (n : Nat) (h : acks = []) : Carries items acks (.delayed n (.publish items))
  | creating (topic : String) {purpose : Purpose} (w : Hindrance) (h : purpose.Carries items acks) :
      Carries items acks (.creating topic purpose w)
  | opening (topic : String) {purpose : Purpose} (readers : List Reader) (w : Hindrance)
      (h : purpose.Carries items acks) : Carries items acks (.opening topic purpose readers w)
  | producing {item : Publication} {rest : List Publication} (w : Hindrance)
      (h : (Purpose.publish item rest acks).Carries items acks) :
      Carries items acks (.producing item rest acks w)
  | published (h : acks.length = items.length) : Carries items acks (.finished (.published acks))
  | failed (e : Error) (h : acks.length < items.length) :
      Carries items acks (.finished (.failed e))

section
variable {items : List Publication} {acks : List Ack} {k : Broker} {topic : String}
  {purpose : Purpose} {stage : Stage}

theorem lt_of_drop {item : Publication} {rest : List Publication}
    (h : items.drop acks.length = item :: rest) : acks.length < items.length := by
  by_contra hle
  rw [List.drop_eq_nil_of_le (Nat.le_of_not_lt hle)] at h
  cases h

theorem Purpose.Carries.lt (h : purpose.Carries items acks) : acks.length < items.length := by
  cases purpose with
  | answer => exact h.elim
  | publish item rest acks' => exact lt_of_drop h.2

theorem Stage.Carries.lt {w : Hindrance} (h : stage.Carries items acks)
    (hw : stage.hindrance? = some w) : acks.length < items.length := by
  cases h with
  | creating topic w h | opening topic readers w h | producing w h => exact Purpose.Carries.lt h
  | queued | delayed | published | failed => cases hw

theorem Ready.carries {e : Bool} (h : Ready purpose e stage) (hp : purpose.Carries items acks) :
    stage.Carries items acks := by
  cases h with
  | answer => exact hp.elim
  | publish item rest acks' _ w =>
    obtain ⟨rfl, hd⟩ := hp
    exact .producing w ⟨rfl, hd⟩

theorem Asks.carries (h : Asks k topic purpose stage) (hp : purpose.Carries items acks) :
    stage.Carries items acks := by
  cases h with
  | known hk hs => exact hs.carries hp
  | closed | invalid | full => exact .failed _ hp.lt
  | creates hk hc hv hf w => exact .creating topic w hp

theorem Publishes.carries {rest : List Publication} (h : Publishes k rest acks stage)
    (hd : items.drop acks.length = rest) (hl : acks.length ≤ items.length) :
    stage.Carries items acks := by
  cases h with
  | done => exact .published (Nat.le_antisymm hl (List.drop_eq_nil_iff.1 hd))
  | closed | invalid => exact .failed _ (lt_of_drop hd)
  | asks item rest _ hc hv hs => exact hs.carries ⟨rfl, hd⟩

end

namespace Relay

def raises (b : Nat) (r : Relay) (a : Action) : List UInt64 :=
  (r.act a).toList.map fun s => (s.broker b).published - (r.broker b).published

/-- The call `id` publishes `items` on broker `b` and got `acks` so far. It has appended `recs` and
raised the counter by all of `ups`. -/
structure Carrying (r : Relay) (id b : Nat) (items : List Publication)
    (recs : List (Nat × Record)) (ups : List UInt64) (acks : List Ack) : Prop where
  number : id < r.nextCall
  records : recs.map Prod.snd = List.zipWith Publication.record items acks
  raised : ups.foldl (· + ·) 0 = UInt64.ofNat acks.length
  stage : ∀ b' stage, r.calls.find? id = some ⟨b', stage⟩ → b' = b ∧ stage.Carries items acks

section
variable {r s : Relay} {retention : Nat} {hist : List (Nat × Record)} {items : List Publication}
  {acks : List Ack}

theorem Moves.carries {b : Nat} {sig : Signal} {stage stage' : Stage}
    (h : Moves r b sig stage stage') (hc : stage.Carries items acks) :
    stage'.Carries items acks := by
  cases h with
  | delays n q => cases hc with | queued _ h => exact .delayed _ h
  | ensures hb hs => cases hb <;> cases hc
  | publishes hb hs =>
    have hstart {q : Request} (hb : stage.Begins q) : q = .publish items ∧ acks = [] := by
      cases hb <;> cases hc <;> exact ⟨rfl, by assumption⟩
    obtain ⟨hq, rfl⟩ := hstart hb
    cases hq
    exact hs.carries rfl (Nat.zero_le _)
  | closes hb => cases hb <;> cases hc
  | fails hh => exact .failed _ (hc.lt hh)
  | expires | createFails | tailFails | produceFails => exact .failed _ (hc.lt rfl)
  | knows hl hn hk hs => cases hc with | opening topic readers w h => exact hs.carries h
  | drains => cases hc

theorem CallStep.carries {id b : Nat} {sig : Signal} {stage stage' : Stage}
    (hv : r.Valid retention hist) (hc : r.calls.find? id = some ⟨b, stage⟩)
    (hcarries : stage.Carries items acks) (hs : CallStep r id b sig stage s)
    (hs' : s.calls.find? id = some ⟨b, stage'⟩) :
    (r.appended (.step (.call id) sig) = [] ∧ stage'.Carries items acks) ∨
    ∃ i item ack, items[acks.length]? = some item ∧
      r.appended (.step (.call id) sig) = [(i, item.record ack)] ∧
      stage'.Carries items (acks ++ [ack]) := by
  cases hs with
  | moves hσ hm =>
    rw [find?_goes] at hs'
    cases hs'
    refine .inl ⟨?_, hm.carries hcarries⟩
    cases sig with
    | proceed => exact (appended_call hc).trans hm.appended
    | expire | stop => rfl
  | closes hb ho => cases hb <;> cases hcarries
  | creates hσ hw hl =>
    rw [find?_goes] at hs'
    cases hs'
    cases hcarries with
    | creating topic w h => exact .inl ⟨appended_call hc, .opening _ _ _ h⟩
  | opens script hσ hw hl hn =>
    rw [find?_goes] at hs'
    cases hs'
    cases hcarries with
    | opening topic readers w h => exact .inl ⟨appended_call hc, .opening _ _ _ h⟩
  | enrolls script hσ hl hn hk hf hready =>
    rw [find?_goes] at hs'
    cases hs'
    cases hcarries with
    | opening topic readers w h => exact .inl ⟨appended_call hc, hready.carries h⟩
  | rejects hσ hl hn hk hf =>
    rw [find?_goes] at hs'
    cases hs'
    cases hcarries with
    | opening topic readers w h => exact .inl ⟨appended_call hc, .failed _ (Purpose.Carries.lt h)⟩
  | @produces item rest _ _ ack _ _ _ hσ hl hpub =>
    rw [find?_goes] at hs'
    cases hs'
    cases hcarries with
    | producing w h =>
      obtain ⟨i, rec, inc, inc', p, hrec, -, htopic, hkey, hvalue, hack⟩ :=
        Log.produce_appends hl hv.log.sound
      have hitem : items[acks.length]? = some item := by
        have hhead := congrArg List.head? h.2
        rwa [List.head?_drop] at hhead
      have hrecord : rec = item.record ack := by
        rw [Publication.record, hack, ← htopic, ← hkey, ← hvalue]
      have hrest : items.drop (acks ++ [ack]).length = rest := by
        rw [List.length_append, List.length_singleton, ← List.drop_drop, h.2]
        rfl
      refine .inr ⟨i, item, ack, hitem, ?_, hpub.carries hrest ?_⟩
      · rw [appended_call hc, Stage.appended, hrec, hrecord]
        rfl
      · rw [List.length_append, List.length_singleton]
        exact Purpose.Carries.lt h
  | closesLog => cases hcarries

theorem zipWith_record_concat {item : Publication} (h : items[acks.length]? = some item)
    (ack : Ack) : List.zipWith Publication.record items (acks ++ [ack]) =
      List.zipWith Publication.record items acks ++ [item.record ack] := by
  induction acks generalizing items with
  | nil =>
    cases items with
    | nil => cases h
    | cons x items =>
      cases h
      rw [List.nil_append, List.zipWith_cons_cons, List.zipWith_nil_right, List.zipWith_nil_right]
      rfl
  | cons _ acks ih =>
    cases items with
    | nil => cases h
    | cons x items =>
      rw [List.cons_append, List.zipWith_cons_cons, ih h]
      rfl

theorem raises_call (hv : r.Valid retention hist) {id b : Nat} {stage : Stage}
    (hc : r.calls.find? id = some ⟨b, stage⟩) {sig : Signal}
    (ha : r.act (.step (.call id) sig) = some s) :
    r.raises b (.step (.call id) sig) =
      [UInt64.ofNat (r.appended (.step (.call id) sig)).length] := by
  have hpublished := (hv.change ha).published hv b
  rw [appendedFor, hc, Option.elim_some, if_pos rfl] at hpublished
  rw [raises, ha, Option.toList_some, List.map_singleton, hpublished, UInt64.add_comm,
    UInt64.add_sub_cancel]

theorem Carrying.next (hv : r.Valid retention hist) {id b : Nat} {recs : List (Nat × Record)}
    {ups : List UInt64} (h : r.Carrying id b items recs ups acks) {a : Action}
    (ha : r.act a = some s) : ∃ acks', s.Carrying id b items (recs ++ r.ofCall id appended a)
      (ups ++ r.ofCall id (raises b) a) acks' := by
  have hc := hv.change ha
  have hnumber := Nat.lt_of_lt_of_le h.number (hc.nextCall_le hv)
  by_cases hown : ∃ sig, a = .step (.call id) sig
  · obtain ⟨sig, rfl⟩ := hown
    rw [ofCall_self, ofCall_self]
    cases hc with
    | aside hside => cases hside
    | @calls _ b' stage _ _ hcall hstep =>
      obtain ⟨rfl, hcarries⟩ := h.stage b' stage hcall
      obtain ⟨stage', hcalls, -⟩ := hstep.calls hv hcall
      have hnow : s.calls.find? id = some ⟨b', stage'⟩ := by
        rw [hcalls, Table.find?_insert, if_pos rfl]
      have hlast {acks' : List Ack} (hcarries' : stage'.Carries items acks') :
          ∀ b₂ stage₂, s.calls.find? id = some ⟨b₂, stage₂⟩ →
            b₂ = b' ∧ stage₂.Carries items acks' := by
        intro b₂ stage₂ hs
        rw [hnow] at hs
        cases hs
        exact ⟨rfl, hcarries'⟩
      rw [raises_call hv hcall ha]
      obtain ⟨hnone, hcarries'⟩ | ⟨i, item, ack, hitem, hone, hcarries'⟩ :=
        hstep.carries hv hcall hcarries hnow
      · refine ⟨acks, hnumber, ?_, ?_, hlast hcarries'⟩
        · rw [hnone, List.append_nil]
          exact h.records
        · rw [hnone, List.foldl_append, List.foldl_cons, List.foldl_nil, h.raised]
          exact UInt64.add_zero _
      · refine ⟨acks ++ [ack], hnumber, ?_, ?_, hlast hcarries'⟩
        · rw [hone, List.map_append, h.records, zipWith_record_concat hitem ack]
          rfl
        · rw [hone, List.foldl_append, List.foldl_cons, List.foldl_nil, h.raised,
            List.length_append, UInt64.ofNat_add]
          rfl
  · have hother : ∀ sig, a ≠ .step (.call id) sig := fun sig heq => hown ⟨sig, heq⟩
    rw [ofCall_of_ne hother, ofCall_of_ne hother, List.append_nil, List.append_nil]
    refine ⟨acks, hnumber, h.records, h.raised, fun b' stage hs => ?_⟩
    obtain hold | ⟨hnew, -⟩ | ⟨sig, stage₀, hact, -⟩ := hc.call_or hv hs
    · exact h.stage b' stage hold
    · exact absurd hnew (Nat.ne_of_lt h.number)
    · exact absurd hact (hother sig)

theorem Carrying.run (hv : r.Valid retention hist) {id b : Nat} {recs : List (Nat × Record)}
    {ups : List UInt64} (h : r.Carrying id b items recs ups acks) {acts : List Action}
    (hr : r.after acts = some s) :
    ∃ acks', s.Carrying id b items (recs ++ r.observe (ofCall id appended) acts)
      (ups ++ r.observe (ofCall id (raises b)) acts) acks' := by
  induction hr using after_induct with
  | start => exact ⟨acks, by rw [observe, observe, List.append_nil, List.append_nil]; exact h⟩
  | next acts q a s hq ha ih =>
    obtain ⟨acks', hcarrying⟩ := ih
    rw [observe_concat _ hq, observe_concat _ hq, ← List.append_assoc, ← List.append_assoc]
    exact hcarrying.next (hv.run hq).1 ha

theorem carrying_submit (q : Relay) (b n : Nat) (items : List Publication) :
    (q.submit b (.publish items) n).2.Carrying q.nextCall b items [] [] [] := by
  refine ⟨Nat.lt_succ_self _, by rw [List.zipWith_nil_right]; rfl, rfl, fun b' stage hc => ?_⟩
  rw [submit, Table.find?_insert, if_pos rfl] at hc
  cases hc
  exact ⟨rfl, .queued n rfl⟩

end

/-- At any moment after a call was made to publish `items`, it has appended the records of the
first of them, each where its acknowledgement says, and stands at the next one. -/
theorem carrying_of_after {retention : Nat} {acts : List Action} {q r : Relay} {b n : Nat}
    {items : List Publication} (h : (new retention).after acts = some r)
    (hs : (new retention).Occurs acts q (.submit b (.publish items) n)) :
    ∃ acks, r.Carrying q.nextCall b items
      ((new retention).observe (ofCall q.nextCall appended) acts)
      ((new retention).observe (ofCall q.nextCall (raises b)) acts) acks := by
  obtain ⟨pre, post, rfl, hq⟩ := hs
  have hsubmitted : (new retention).after (pre ++ [.submit b (.publish items) n]) =
      some (q.submit b (.publish items) n).2 := after_concat.2 ⟨q, hq, rfl⟩
  have hpost : (q.submit b (.publish items) n).2.after post = some r := by
    rw [after_append, hq] at h
    exact h
  obtain ⟨acks, hlast⟩ := (carrying_submit q b n items).run (valid_of_after hsubmitted) hpost
  refine ⟨acks, ?_⟩
  rw [← List.singleton_append, ← List.append_assoc, observe_append _ hsubmitted,
    observe_append _ hsubmitted, observe_concat _ hq, observe_concat _ hq,
    ofCall_before appended hq (Nat.le_refl _), ofCall_before (raises b) hq (Nat.le_refl _)]
  exact hlast

end Relay
end EventRelay
