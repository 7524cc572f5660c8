import EventRelay.Proofs.Registry.Mailboxes
import EventRelay.Proofs.Relay.Steps
/-!
What an action comes to that leaves the brokers, their log, their lanes and their calls alone. Main
statement: `act_aside`.
-/
namespace EventRelay

/-- Actions that leave the brokers, their log, their lanes and their calls alone. -/
def Action.isAside : Action → Bool
  | .step (.feed _) _ | .addRegistry _ | .subscribe .. | .unsubscribe _ | .detach .. | .take _
  | .takeMany .. | .serve .. | .cancel _ | .dispatch .. => true
  | _ => false

namespace Relay
variable {r s : Relay}

inductive FeedStep (r : Relay) (i : Nat) (f : Feed) (sub : Subscription) : Signal → Relay → Prop
  | stops (hc : f.cancelled = true) : FeedStep r i f sub .stop (r.endFeed i f sub (.ok ()))
  | ends (ht : (r.take sub).1 = .disconnected) :
      FeedStep r i f sub .proceed (r.endFeed i f sub (.ok ()))
  | takes {m : Event} (ht : (r.take sub).1 = .message m) (hs : f.sink f.taken m = .ok ()) :
      FeedStep r i f sub .proceed
        { (r.take sub).2 with feeds := r.feeds.insert i { f with taken := f.taken ++ [m] } }
  | fails {m : Event} {e : Error} (ht : (r.take sub).1 = .message m)
      (hs : f.sink f.taken m = .error e) :
      FeedStep r i f sub .proceed ((r.take sub).2.endFeed i f sub (.error e))

/-- What an action comes to that leaves the brokers and their work alone. -/
inductive Aside (r : Relay) : Action → Relay → Prop
  | feeds {i : Nat} {f : Feed} {sub : Subscription} {sig : Signal} {s : Relay}
      (hf : r.feeds.find? i = some f) (hsub : f.subscription = some sub) (hopen : f.result = none)
      (hs : FeedStep r i f sub sig s) : Aside r (.step (.feed i) sig) s
  | addsRegistry (workers : Nat) : Aside r (.addRegistry workers) (r.addRegistry workers).2
  | subscribes {b : Nat} {c : Channel} {sub : Subscription} {s : Relay}
      (hs : r.subscribe b c = .ok (sub, s)) : Aside r (.subscribe b c) s
  | serves {b : Nat} {c : Channel} {sink : Sink} {cancelled : Bool} {sub : Subscription}
      {s : Relay} (hs : r.subscribe b c = .ok (sub, s)) :
      Aside r (.serve b c sink cancelled) { s with
        feeds := s.feeds.insert s.nextFeed { subscription := some sub, sink, cancelled }
        nextFeed := s.nextFeed + 1 }
  | rejects {b : Nat} {c : Channel} {sink : Sink} {cancelled : Bool} {e : Error}
      (hs : r.subscribe b c = .error e) :
      Aside r (.serve b c sink cancelled) { r with
        feeds := r.feeds.insert r.nextFeed
          { subscription := none, sink, cancelled, result := some (.error e) }
        nextFeed := r.nextFeed + 1 }
  | unsubscribes (sub : Subscription) : Aside r (.unsubscribe sub) (r.unsubscribe sub)
  | detaches (g : Nat) (c : Channel) (id : SubscriberId) :
      Aside r (.detach g c id) (r.detach g c id).2
  | takes (sub : Subscription) : Aside r (.take sub) (r.take sub).2
  | takesMany (sub : Subscription) (n : Nat) : Aside r (.takeMany sub n) (r.takeMany sub n).2
  | cancels (i : Nat) : Aside r (.cancel i) (r.cancel i)
  | dispatches (g : Nat) (c : Channel) (payload : List UInt8) :
      Aside r (.dispatch g c payload) (r.dispatch g c payload).2

theorem stepFeed_step {i : Nat} {sig : Signal} (h : r.stepFeed i sig = some s) :
    ∃ f sub, r.feeds.find? i = some f ∧ f.subscription = some sub ∧ f.result = none ∧
      FeedStep r i f sub sig s := by
  unfold stepFeed at h
  cases hf : r.feeds.find? i with
  | none => simp [hf] at h
  | some f =>
    obtain ⟨_ | sub, sink, seen, cancelled, _ | result⟩ := f
    · simp [hf] at h
    · simp [hf] at h
    · refine ⟨_, sub, rfl, rfl, rfl, ?_⟩
      simp only [hf, Option.bind_eq_bind, Option.bind_some, Option.isSome_none,
        Bool.false_eq_true, if_false] at h
      cases sig with
      | stop =>
        simp only at h
        split at h
        · rename_i hc
          cases h
          exact .stops hc
        · cases h
      | expire => cases h
      | proceed =>
        simp only at h
        split at h
        · cases h
        · rename_i ht
          cases h
          exact .ends (by rw [ht])
        · rename_i m q ht
          have hq : q = (r.take sub).2 := by rw [ht]
          subst hq
          split at h
          · rename_i hs
            cases h
            exact .takes (by rw [ht]) hs
          · rename_i hs
            cases h
            exact .fails (by rw [ht]) hs
    · simp [hf] at h

theorem stepFeed_of_step {i : Nat} {f : Feed} {sub : Subscription} {sig : Signal}
    (hf : r.feeds.find? i = some f) (hsub : f.subscription = some sub) (hopen : f.result = none)
    (h : FeedStep r i f sub sig s) : r.stepFeed i sig = some s := by
  obtain ⟨_, sink, seen, cancelled, _⟩ := f
  cases hsub
  cases hopen
  have htake {taken : Taken} (ht : (r.take sub).1 = taken) : r.take sub = (taken, (r.take sub).2) :=
    Prod.ext ht rfl
  unfold stepFeed
  simp only [hf, Option.bind_eq_bind, Option.bind_some, Option.isSome_none, Bool.false_eq_true,
    if_false]
  cases h with
  | stops hc => exact if_pos hc
  | ends ht =>
    rw [htake ht]
    rfl
  | takes ht hs =>
    dsimp only at hs
    rw [htake ht]
    simp only [hs]
    rfl
  | fails ht hs =>
    dsimp only at hs
    rw [htake ht]
    simp only [hs]
    rfl

theorem subscribe_ok {b : Nat} {c : Channel} {sub : Subscription}
    (h : r.subscribe b c = .ok (sub, s)) : ∃ registries mailboxes,
      sub = ⟨(r.broker b).registry, c, .fresh r.nextSubscriber, r.mailboxes.size⟩ ∧
      s = { r with registries, mailboxes, nextSubscriber := r.nextSubscriber + 1 } := by
  unfold subscribe at h
  cases hv : Channel.validateName c.name with
  | error e => simp only [hv] at h; cases h
  | ok u => simp only [hv] at h; cases h; exact ⟨_, _, rfl, rfl⟩

theorem act_aside {a : Action} (h : r.act a = some s) (ha : a.isAside = true) : Aside r a s := by
  cases a with
  | step j sig =>
    cases j with
    | feed i =>
      obtain ⟨f, sub, hf, hsub, hopen, hs⟩ := stepFeed_step h
      exact .feeds hf hsub hopen hs
    | call | removal | lane => cases ha
  | addRegistry workers => cases h; exact .addsRegistry workers
  | subscribe b c =>
    simp only [act, Option.map_eq_some_iff] at h
    obtain ⟨⟨sub, q⟩, hq, rfl⟩ := h
    cases hs : r.subscribe b c with
    | error e => rw [hs] at hq; cases hq
    | ok x => rw [hs] at hq; cases hq; exact .subscribes hs
  | unsubscribe sub => cases h; exact .unsubscribes sub
  | detach g c id => cases h; exact .detaches g c id
  | take sub => cases h; exact .takes sub
  | takeMany sub n => cases h; exact .takesMany sub n
  | serve b c sink cancelled =>
    cases h
    unfold serve
    cases hs : r.subscribe b c with
    | error e => exact .rejects hs
    | ok x => exact .serves hs
  | cancel i => cases h; exact .cancels i
  | dispatch g c payload => cases h; exact .dispatches g c payload
  | addBroker | submit | collect | script | create | delete | produce | closeLog => cases ha

end Relay
end EventRelay
