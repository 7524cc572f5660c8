import EventRelay.Proofs.Delivery.Traffic
import EventRelay.Proofs.Registry.Touches
/-!
Each registry of a relay is an exchange with the mailboxes of all, and what an action does to them
is some deeds. Main statements: `Valid.act_deeds`, and `mailboxes_after`, a whole run as touches.
-/
namespace EventRelay

def Subscription.ending (sub : Subscription) : List (Nat × Deed) :=
  [(sub.registry, .detach sub.channel sub.id), (sub.registry, .handle sub.mailbox .discard)]

/-- What is done to open a subscription: its mailbox comes with a sending end, of which the registry
gets a copy. -/
def Subscription.opening (sub : Subscription) (capacity : Nat) : List (Nat × Deed) :=
  [(sub.registry, .add capacity), (sub.registry, .attach sub.channel sub.id sub.mailbox),
    (sub.registry, .handle sub.mailbox .release)]

namespace Relay

def exchange (r : Relay) (g : Nat) : Exchange := ⟨r.registry g, r.mailboxes⟩

def deed (r : Relay) (e : Nat × Deed) : Outcome × Relay :=
  let (outcome, x) := (r.exchange e.1).step e.2
  (outcome, { r.setRegistry e.1 x.registry with mailboxes := x.boxes })

def feedDeeds (r : Relay) (f : Feed) (sub : Subscription) : Signal → List (Nat × Deed)
  | .proceed =>
    match (r.take sub).1 with
    | .message m => (sub.registry, .handle sub.mailbox .take) ::
      match f.sink f.taken m with
      | .ok () => []
      | .error _ => sub.ending
    | _ => sub.ending
  | _ => sub.ending

def deeds (r : Relay) : Action → List (Nat × Deed)
  | .step (.feed i) sig =>
    match r.feeds.find? i with
    | some f => f.subscription.toList.flatMap fun sub => r.feedDeeds f sub sig
    | none => []
  | .subscribe b c =>
    (r.opened (.subscribe b c)).flatMap (·.opening (r.broker b).config.subscriberBuffer)
  | .serve b c _ _ =>
    (r.opened (.subscribe b c)).flatMap (·.opening (r.broker b).config.subscriberBuffer)
  | .unsubscribe sub => sub.ending
  | .detach g c id => [(g, .detach c id)]
  | .take sub => [(sub.registry, .handle sub.mailbox .take)]
  | .takeMany sub n => [(sub.registry, .handle sub.mailbox (.takeMany n))]
  | a => (r.dispatched a).map fun d => (d.registry, .dispatch d.channel d.payload)

variable {r s : Relay} {a : Action}

/-! ### Actions as deeds -/

theorem setRegistry_self (r : Relay) (g : Nat) : r.setRegistry g (r.registry g) = r := by
  have hsame : r.registries.setIfInBounds g (r.registry g) = r.registries := by
    refine Array.ext_getElem? fun j => ?_
    rw [Array.getElem?_setIfInBounds]
    split
    · rename_i hj
      subst hj
      split
      · rename_i hlt
        rw [registry, Array.getElem?_eq_getElem hlt, Option.getD_some]
      · rename_i hge
        rw [Array.getElem?_eq_none (Nat.le_of_not_lt hge)]
    · rfl
  rw [setRegistry, hsame]

theorem deed_handle (r : Relay) (g box : Nat) (w : Handling) :
    (r.deed (g, .handle box w)).2 = { r with mailboxes := (r.mailboxes.handle box w).2 } := by
  simp only [deed, exchange, Exchange.step, setRegistry_self]

theorem deed_add (r : Relay) (g capacity : Nat) :
    (r.deed (g, .add capacity)).2 =
      { r with mailboxes := (r.mailboxes.add (.new capacity)).2 } := by
  simp only [deed, exchange, Exchange.step, setRegistry_self]

theorem deed_detach (r : Relay) (g : Nat) (c : Channel) (id : SubscriberId) :
    (r.deed (g, .detach c id)).2 = (r.detach g c id).2 :=
  rfl

structure Matches (q s : Relay) : Prop where
  registries : s.registries = q.registries
  mailboxes : s.mailboxes = q.mailboxes

theorem take_eq (r : Relay) (sub : Subscription) :
    (r.take sub).2 = (r.deed (sub.registry, .handle sub.mailbox .take)).2 := by
  rw [deed_handle]
  rfl

theorem unsubscribe_eq (r : Relay) (sub : Subscription) :
    r.unsubscribe sub = History.after deed r sub.ending := by
  simp only [Subscription.ending, History.after, deed_handle, deed_detach]
  rfl

theorem subscribe_eq {b : Nat} {c : Channel} {sub : Subscription}
    (h : r.subscribe b c = .ok (sub, s)) :
    Matches (History.after deed r (sub.opening (r.broker b).config.subscriberBuffer)) s := by
  unfold subscribe at h
  cases hv : Channel.validateName c.name with
  | error e => simp only [hv] at h; cases h
  | ok u =>
    simp only [hv] at h
    cases h
    simp only [Subscription.opening, History.after, deed_handle, deed_add]
    exact ⟨rfl, rfl⟩

theorem FeedStep.deeds {i : Nat} {f : Feed} {sub : Subscription} {sig : Signal}
    (h : FeedStep r i f sub sig s) : Matches (History.after deed r (r.feedDeeds f sub sig)) s := by
  have hend (q : Relay) (result : Except Error Unit) :
      Matches (History.after deed q sub.ending) (q.endFeed i f sub result) := by
    rw [← unsubscribe_eq]
    exact ⟨rfl, rfl⟩
  cases h with
  | stops hc => exact hend r _
  | ends ht =>
    simp only [feedDeeds, ht]
    exact hend r _
  | takes ht hs =>
    simp only [feedDeeds, ht]
    simp only [hs, History.after, ← take_eq]
    exact ⟨rfl, rfl⟩
  | fails ht hs =>
    simp only [feedDeeds, ht]
    simp only [hs, History.after, ← take_eq]
    exact hend _ _

theorem deeds_of_not_aside (ha : a.isAside = false) :
    r.deeds a = (r.dispatched a).map fun d => (d.registry, .dispatch d.channel d.payload) := by
  cases a with
  | step j sig =>
    cases j with
    | feed i => cases ha
    | call | removal | lane => rfl
  | addRegistry | subscribe | unsubscribe | detach | take | takeMany | serve | cancel | dispatch =>
    cases ha
  | addBroker | submit | collect | script | create | delete | produce | closeLog => rfl

/-- What an action comes to for registries and mailboxes; a new registry is none that is used. -/
theorem Valid.act_deeds {retention : Nat} {hist : List (Nat × Record)}
    (hv : r.Valid retention hist) (h : r.act a = some s) :
    (∃ workers, a = .addRegistry workers) ∨ Matches (History.after deed r (r.deeds a)) s := by
  cases ha : a.isAside with
  | false =>
    rw [deeds_of_not_aside ha, r.dispatched_of_not_aside ha]
    obtain ⟨he, hs⟩ | ⟨e, he, hs⟩ := (hv.change h).spares ha <;> rw [he]
    · exact .inr ⟨hs.registries, hs.mailboxes⟩
    · exact .inr ⟨hs.registries, hs.mailboxes⟩
  | true =>
    cases act_aside h ha with
    | addsRegistry workers => exact .inl ⟨workers, rfl⟩
    | feeds hf hsub hopen hs =>
      simp only [Relay.deeds, hf, hsub, Option.toList_some, List.flatMap_singleton]
      exact .inr hs.deeds
    | subscribes hs =>
      simp only [Relay.deeds, opened_subscribe hs, List.flatMap_singleton]
      exact .inr (subscribe_eq hs)
    | serves hs =>
      have hsame := subscribe_eq hs
      simp only [Relay.deeds, opened_subscribe hs, List.flatMap_singleton]
      exact .inr ⟨hsame.registries, hsame.mailboxes⟩
    | rejects hs =>
      simp only [Relay.deeds, opened_of_error hs]
      exact .inr ⟨rfl, rfl⟩
    | unsubscribes sub =>
      rw [unsubscribe_eq]
      exact .inr ⟨rfl, rfl⟩
    | takes sub =>
      rw [take_eq]
      exact .inr ⟨rfl, rfl⟩
    | takesMany sub n =>
      simp only [Relay.deeds, History.after, deed_handle]
      exact .inr ⟨rfl, rfl⟩
    | detaches | cancels | dispatches => exact .inr ⟨rfl, rfl⟩

/-! ### Actions as touches -/

def touches (r : Relay) (a : Action) : List Touch :=
  History.along deed (fun r e => (r.exchange e.1).touches e.2) r (r.deeds a)

theorem mailboxes_deeds (r : Relay) (es : List (Nat × Deed)) :
    (History.after deed r es).mailboxes = History.after Mailboxes.touch r.mailboxes
      (History.along deed (fun r e => (r.exchange e.1).touches e.2) r es) :=
  History.after_along (fun r e => (r.exchange e.1).boxes_step e.2) r es

theorem Valid.act_touches {retention : Nat} {hist : List (Nat × Record)}
    (hv : r.Valid retention hist) (h : r.act a = some s) :
    s.mailboxes = History.after Mailboxes.touch r.mailboxes (r.touches a) := by
  obtain ⟨workers, rfl⟩ | hsame := hv.act_deeds h
  · cases h
    rfl
  · rw [hsame.mailboxes, mailboxes_deeds, touches]

theorem mailboxes_after {retention : Nat} {acts : List Action}
    (h : (new retention).after acts = some s) :
    s.mailboxes = History.after Mailboxes.touch {} ((new retention).observe touches acts) := by
  induction h using after_induct with
  | start => rfl
  | next acts q a s hq ha ih =>
    rw [observe_concat touches hq, History.after_append, ← ih, (valid_of_after hq).act_touches ha]

end Relay
end EventRelay
