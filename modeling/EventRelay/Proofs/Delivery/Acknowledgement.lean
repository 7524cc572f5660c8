import EventRelay.Proofs.Relay.Valid
/-!
Where the acknowledgements of a call come from. Main statement: `acknowledged`, each of them stands
for a record that the call appended to a topic that its broker knew.
-/
namespace EventRelay

def Purpose.acks : Purpose → List Ack
  | .answer => []
  | .publish _ _ acks => acks

def Stage.acks : Stage → List Ack
  | .creating _ purpose _ | .opening _ purpose _ _ => purpose.acks
  | .producing _ _ acks _ | .finished (.published acks) => acks
  | _ => []

section
variable {k : Broker} {topic : String} {purpose : Purpose} {stage : Stage}

theorem Ready.acks {e : Bool} (h : Ready purpose e stage) : stage.acks = purpose.acks := by
  cases h with
  | answer => rfl
  | publish => rfl

theorem Asks.acks (h : Asks k topic purpose stage) : stage.acks ⊆ purpose.acks := by
  cases h with
  | known hk hs => rw [hs.acks]; exact List.Subset.refl _
  | creates => exact List.Subset.refl _
  | closed | invalid | full => exact List.nil_subset _

theorem Publishes.acks {items : List Publication} {acks : List Ack}
    (h : Publishes k items acks stage) : stage.acks ⊆ acks := by
  cases h with
  | done => exact List.Subset.refl _
  | asks item rest acks hc hv hs => exact hs.acks
  | closed | invalid => exact List.nil_subset _

end

namespace Relay

/-- The call `id` on broker `b` appends the record and gets `ack` for it. -/
structure Acknowledges (r : Relay) (a : Action) (id b : Nat) (ack : Ack) (i : Nat)
    (rec : Record) : Prop where
  action : a = .step (.call id) .proceed
  call : ∃ item rest acks w, r.calls.find? id = some ⟨b, .producing item rest acks w⟩ ∧
    rec.topic = item.channel.topic ∧ rec.key = item.channel.name ∧ rec.value = item.payload
  appended : (i, rec) ∈ r.appended a
  ack : ack = ⟨rec.partition, rec.offset⟩
  known : rec.topic ∈ (r.broker b).topics

section
variable {r s : Relay} {retention : Nat} {hist : List (Nat × Record)}

theorem Moves.acks {b : Nat} {sig : Signal} {stage stage' : Stage}
    (h : Moves r b sig stage stage') : stage'.acks ⊆ stage.acks := by
  cases h with
  | ensures hb hs => exact List.Subset.trans hs.acks (List.nil_subset _)
  | publishes hb hs => exact List.Subset.trans hs.acks (List.nil_subset _)
  | knows hl hn hk hs => rw [hs.acks]; exact List.Subset.refl _
  | delays | closes | fails | expires | createFails | tailFails | produceFails | drains =>
    exact List.nil_subset _

theorem CallStep.acks {id b : Nat} {sig : Signal} {stage stage' : Stage} {ack : Ack}
    (h : r.Valid retention hist) (hc : r.calls.find? id = some ⟨b, stage⟩)
    (hs : CallStep r id b sig stage s) (hs' : s.calls.find? id = some ⟨b, stage'⟩)
    (ha : ack ∈ stage'.acks) :
    ack ∈ stage.acks ∨ ∃ i rec, r.Acknowledges (.step (.call id) sig) id b ack i rec := by
  cases hs with
  | moves hσ hm =>
    rw [find?_goes] at hs'
    cases hs'
    exact .inl (hm.acks ha)
  | enrolls script hσ hl hn hk hf hs =>
    rw [find?_goes] at hs'
    cases hs'
    rw [hs.acks] at ha
    exact .inl ha
  | produces hσ hl hs =>
    rw [find?_goes] at hs'
    cases hs'
    obtain hold | hnew := List.mem_append.1 (hs.acks ha)
    · exact .inl hold
    · rw [List.mem_singleton] at hnew
      subst hnew
      obtain ⟨i, rec, inc, inc', p, hrec, -, htopic, hkey, hvalue, hack⟩ :=
        Log.produce_appends hl h.log.sound
      refine .inr ⟨i, rec, rfl, ⟨_, _, _, _, hc, htopic, hkey, hvalue⟩, ?_, hack, ?_⟩
      · rw [appended_call hc, Stage.appended, hrec]
        exact List.mem_singleton_self _
      · rw [htopic]
        exact h.calls id b _ hc
  | creates | opens =>
    rw [find?_goes] at hs'
    cases hs'
    exact .inl ha
  | closes | rejects | closesLog =>
    rw [find?_goes] at hs'
    cases hs'
    cases ha

end

/-- The run leads to `q`, and `a` is what happens then. -/
def Happens (retention : Nat) (acts : List Action) (q : Relay) (a : Action) : Prop :=
  ∃ pre post, acts = pre ++ a :: post ∧ (new retention).after pre = some q

theorem Happens.append {retention : Nat} {acts : List Action} {q : Relay} {a : Action}
    (h : Happens retention acts q a) (acts' : List Action) :
    Happens retention (acts ++ acts') q a := by
  obtain ⟨pre, post, rfl, hq⟩ := h
  exact ⟨pre, post ++ acts', List.append_assoc .., hq⟩

theorem acknowledged {retention : Nat} {acts : List Action} {r : Relay}
    (h : (new retention).after acts = some r) {id b : Nat} {stage : Stage} {ack : Ack}
    (hc : r.calls.find? id = some ⟨b, stage⟩) (ha : ack ∈ stage.acks) :
    ∃ q a i rec, Happens retention acts q a ∧ q.Acknowledges a id b ack i rec := by
  induction h using after_induct generalizing stage with
  | start => cases hc
  | next acts q a s hq hstep ih =>
    have hv := valid_of_after hq
    have hold {stage₀ : Stage} (hbefore : q.calls.find? id = some ⟨b, stage₀⟩)
        (hack : ack ∈ stage₀.acks) : ∃ q' a' i rec,
        Happens retention (acts ++ [a]) q' a' ∧ q'.Acknowledges a' id b ack i rec := by
      obtain ⟨q', a', i, rec, hq', hrec⟩ := ih hbefore hack
      exact ⟨q', a', i, rec, hq'.append [a], hrec⟩
    obtain hsame | ⟨n, request, hqueued⟩ | ⟨sig, stage₀, hact, hbefore, hs⟩ :=
      (hv.change hstep).call_cases hv hc
    · exact hold hsame ha
    · subst hqueued
      cases ha
    · obtain hack | ⟨i, rec, hrec⟩ := hs.acks hv hbefore hc ha
      · exact hold hbefore hack
      · subst hact
        exact ⟨q, _, i, rec, ⟨acts, [], rfl, hq⟩, hrec⟩

end Relay
end EventRelay
