import EventRelay.Proofs.Delivery.Handover
import EventRelay.Proofs.Registry.Mailboxes
/-!
What an action does to registries and mailboxes: it dispatches one payload, attaches one
subscriber, or puts nothing into any mailbox. Main statement: `act_traffic`.
-/
namespace EventRelay

structure Dispatch where
  registry : Nat
  channel : Channel
  payload : List UInt8
  deriving DecidableEq, Repr

def Handover.dispatch (e : Handover) : Dispatch := ⟨e.registry, e.channel, e.payload⟩

namespace Relay

def dispatched (r : Relay) : Action → List Dispatch
  | .dispatch registry c payload => [⟨registry, c, payload⟩]
  | a => (r.handed a).map Handover.dispatch

def opened (r : Relay) : Action → List Subscription
  | .subscribe b c | .serve b c _ _ => ((r.subscribe b c).toOption.map Prod.fst).toList
  | _ => []

def attached? (r : Relay) (g : Nat) (c : Channel) (id : SubscriberId) : Option Nat :=
  ((r.registry g).members c).find? id

/-- Nobody is attached and no mailbox gets a message. -/
structure Quiet (r s : Relay) : Prop where
  attached : ∀ g c id k, s.attached? g c id = some k → r.attached? g c id = some k
  drains : r.mailboxes.Drains s.mailboxes

/-- A subscriber is attached, with a new mailbox. -/
structure Opens (r s : Relay) (sub : Subscription) : Prop where
  mailbox : sub.mailbox = r.mailboxes.size
  size : s.mailboxes.size = r.mailboxes.size + 1
  attached : ∀ g c id k, s.attached? g c id = some k →
    r.attached? g c id = some k ∨ sub = ⟨g, c, id, k⟩
  buffer : ∀ k, s.mailboxes.buffer k <:+ r.mailboxes.buffer k

/-- A payload goes to those that are attached to its channel. -/
structure Dispatches (r s : Relay) (d : Dispatch) : Prop where
  attached : ∀ g c id, s.attached? g c id = r.attached? g c id
  mailboxes : s.mailboxes =
    ((r.registry d.registry).dispatch r.mailboxes d.channel d.payload).2.2

inductive Traffic (r : Relay) (a : Action) (s : Relay) : Prop
  | quiet (hd : r.dispatched a = []) (ho : r.opened a = []) (h : r.Quiet s)
  | opens {sub : Subscription} (hd : r.dispatched a = []) (ho : r.opened a = [sub])
      (h : r.Opens s sub)
  | dispatches {d : Dispatch} (hd : r.dispatched a = [d]) (ho : r.opened a = [])
      (h : r.Dispatches s d)

section
variable {r s q : Relay}

theorem quiet_of_eq (hr : s.registries = r.registries) (hm : s.mailboxes = r.mailboxes) :
    r.Quiet s := by
  constructor
  · intro g c id k h
    rw [attached?, registry, hr] at h
    exact h
  · rw [hm]
    exact .refl _

theorem Quiet.trans (h : r.Quiet s) (h' : s.Quiet q) : r.Quiet q where
  attached g c id k hk := h.attached g c id k (h'.attached g c id k hk)
  drains := h.drains.trans h'.drains

theorem registry_setRegistry (r : Relay) (g g' : Nat) (v : Registry) :
    (r.setRegistry g v).registry g' = v ∧ g' = g ∨
      (r.setRegistry g v).registry g' = r.registry g' := by
  unfold registry setRegistry
  by_cases hg : g = g'
  · subst hg
    by_cases hlt : g < r.registries.size
    · exact .inl ⟨by simp [hlt], rfl⟩
    · exact .inr (by simp [hlt])
  · exact .inr (by rw [Array.getElem?_setIfInBounds_ne hg])

theorem attached?_setRegistry {g g' : Nat} {v : Registry} {c : Channel} {id : SubscriberId}
    {k : Nat} (h : (r.setRegistry g v).attached? g' c id = some k) :
    g' = g ∧ (v.members c).find? id = some k ∨ r.attached? g' c id = some k := by
  rw [attached?] at h
  cases r.registry_setRegistry g g' v with
  | inl hv =>
    rw [hv.1] at h
    exact .inl ⟨hv.2, h⟩
  | inr hv =>
    rw [hv] at h
    exact .inr h

theorem quiet_detach (r : Relay) (g : Nat) (c : Channel) (id : SubscriberId) :
    r.Quiet (r.detach g c id).2 := by
  constructor
  · intro g' d id' k h
    obtain ⟨rfl, hk⟩ | hk := attached?_setRegistry h
    · exact Registry.find?_detach _ _ _ _ _ _ hk
    · exact hk
  · exact (r.registry g).drains_detach r.mailboxes c id

theorem quiet_unsubscribe (r : Relay) (sub : Subscription) : r.Quiet (r.unsubscribe sub) := by
  refine (r.quiet_detach sub.registry sub.channel sub.id).trans ⟨fun g c id k h => h, ?_⟩
  exact Mailboxes.drains_discard _ sub.mailbox

theorem quiet_take (r : Relay) (sub : Subscription) : r.Quiet (r.take sub).2 :=
  ⟨fun _ _ _ _ h => h, r.mailboxes.drains_take sub.mailbox⟩

theorem quiet_takeMany (r : Relay) (sub : Subscription) (n : Nat) :
    r.Quiet (r.takeMany sub n).2 :=
  ⟨fun _ _ _ _ h => h, r.mailboxes.drains_takeMany sub.mailbox n⟩

theorem quiet_addRegistry (r : Relay) (workers : Nat) : r.Quiet (r.addRegistry workers).2 := by
  refine ⟨fun g c id k h => ?_, .refl _⟩
  simp only [attached?, registry, addRegistry, Array.getElem?_push] at h
  split at h
  · simp at h
  · exact h

theorem quiet_endFeed (r : Relay) (id : Nat) (f : Feed) (sub : Subscription)
    (result : Except Error Unit) : r.Quiet (r.endFeed id f sub result) :=
  (r.quiet_unsubscribe sub).trans (quiet_of_eq rfl rfl)

theorem FeedStep.quiet {i : Nat} {f : Feed} {sub : Subscription} {sig : Signal}
    (h : FeedStep r i f sub sig s) : r.Quiet s := by
  cases h with
  | stops | ends => exact r.quiet_endFeed ..
  | takes => exact (r.quiet_take sub).trans (quiet_of_eq rfl rfl)
  | fails => exact (r.quiet_take sub).trans (Relay.quiet_endFeed ..)

theorem subscribe_opens {b : Nat} {c : Channel} {sub : Subscription}
    (h : r.subscribe b c = .ok (sub, s)) : r.Opens s sub := by
  unfold subscribe at h
  cases hv : Channel.validateName c.name with
  | error e => simp only [hv] at h; cases h
  | ok u =>
    simp only [hv] at h
    cases h
    let t := (r.mailboxes.add (.new (r.broker b).config.subscriberBuffer)).2
    have hattach := ((r.registry (r.broker b).registry).drains_attach t c
      (.fresh r.nextSubscriber) r.mailboxes.size).trans
        (Mailboxes.drains_dropSender _ r.mailboxes.size)
    let v := ((r.registry (r.broker b).registry).attach t c (.fresh r.nextSubscriber)
      r.mailboxes.size).1
    refine ⟨rfl, ?_, fun g d id k hk => ?_, fun k => ?_⟩
    · have hadd : t.size = r.mailboxes.size + 1 := Array.size_push ..
      rw [← hadd]
      exact hattach.size
    · replace hk : (r.setRegistry (r.broker b).registry v).attached? g d id = some k := hk
      obtain ⟨rfl, hnow⟩ | hold := attached?_setRegistry hk
      · rw [Registry.find?_attach] at hnow
        split at hnow
        · rename_i hsame
          obtain ⟨rfl, rfl⟩ := hsame
          cases hnow
          exact .inr rfl
        · exact .inl hnow
      · exact .inl hold
    · rw [← r.mailboxes.buffer_add (r.broker b).config.subscriberBuffer k]
      exact hattach.buffer k

theorem dispatch_dispatches (r : Relay) (g : Nat) (c : Channel) (payload : List UInt8) :
    r.Dispatches (r.dispatch g c payload).2 ⟨g, c, payload⟩ := by
  refine ⟨fun g' d id => ?_, rfl⟩
  have hmembers := (r.registry g).members_dispatch r.mailboxes c d payload
  cases r.registry_setRegistry g g' ((r.registry g).dispatch r.mailboxes c payload).2.1 with
  | inl hv =>
    obtain ⟨hv, rfl⟩ := hv
    exact congrArg (fun m => m.find? id) ((congrArg (·.members d) hv).trans hmembers)
  | inr hv => exact congrArg (fun v => (v.members d).find? id) hv

/-! ### What is done to brokers and their work -/

/-- Registries, mailboxes and feeds stay as they are. -/
structure Spares (r s : Relay) : Prop where
  registries : s.registries = r.registries
  mailboxes : s.mailboxes = r.mailboxes
  feeds : s.feeds = r.feeds
  nextFeed : s.nextFeed = r.nextFeed

theorem Spares.trans (h : r.Spares s) (h' : s.Spares q) : r.Spares q where
  registries := h'.registries.trans h.registries
  mailboxes := h'.mailboxes.trans h.mailboxes
  feeds := h'.feeds.trans h.feeds
  nextFeed := h'.nextFeed.trans h.nextFeed

theorem dismiss_eq (ids : List Nat) (r : Relay) : ∃ lanes, dismiss ids r = { r with lanes } := by
  induction ids generalizing r with
  | nil => exact ⟨r.lanes, rfl⟩
  | cons i ids ih => exact ih _

theorem startLanes_spares (r : Relay) (b : Nat) (topic : String) (readers : List Reader) :
    r.Spares (r.startLanes b topic readers) := by
  obtain ⟨lanes, hdismiss⟩ := dismiss_eq (((r.broker b).crews.find? topic).getD []) r
  obtain ⟨lanes', hadd, -, -⟩ := addLanes_spec b topic 0 readers { r with lanes }
  simp only [startLanes, hdismiss, hadd]
  exact ⟨rfl, rfl, rfl, rfl⟩

theorem CallStep.spares {id b : Nat} {sig : Signal} {stage : Stage}
    (h : CallStep r id b sig stage s) : r.Spares s := by
  cases h with
  | @enrolls topic _ readers _ c _ script σ σ' hσ hl hn hk hf hs =>
    have hstart := startLanes_spares (({ r with script := σ } : Relay).setBroker b
      { r.broker b with topics := (r.broker b).topics ++ [topic] }) b topic
        (readers ++ [⟨c, script⟩])
    exact ⟨hstart.registries, hstart.mailboxes, hstart.feeds, hstart.nextFeed⟩
  | _ => exact ⟨rfl, rfl, rfl, rfl⟩

/-- Of all that is not done from aside, only a lane that hands over a record does anything here, and
that is to dispatch it. -/
theorem Change.spares {a : Action} (h : Change r a s) (ha : a.isAside = false) :
    r.handed a = [] ∧ r.Spares s ∨
      ∃ e, r.handed a = [e] ∧ (r.dispatch e.registry e.channel e.payload).2.Spares s := by
  cases h with
  | aside h => rw [ha] at h; cases h
  | calls hc hs => exact .inl ⟨rfl, hs.spares⟩
  | @lanes i l _ sig hi hs =>
    cases hs with
    | @hands rec next hs hr =>
      refine .inr ⟨⟨i, l.broker, (r.broker l.broker).registry, ⟨l.topic, rec.key⟩, rec.value,
        { l.reader.cursor with offset := rec.offset }⟩, ?_, rfl, rfl, rfl, rfl⟩
      simp only [handed, hi, hs, hr]
    | fails hs hr => exact .inl ⟨by simp only [handed, hi, hs, hr], rfl, rfl, rfl, rfl⟩
    | ends hs hr => exact .inl ⟨by simp only [handed, hi, hs, hr], rfl, rfl, rfl, rfl⟩
    | stops => exact .inl ⟨rfl, rfl, rfl, rfl, rfl⟩
    | resumes hs => exact .inl ⟨by simp only [handed, hi, hs], rfl, rfl, rfl, rfl⟩
  | _ => exact .inl ⟨rfl, rfl, rfl, rfl, rfl⟩

theorem dispatched_of_not_aside (r : Relay) {a : Action} (ha : a.isAside = false) :
    r.dispatched a = (r.handed a).map Handover.dispatch := by
  cases a with
  | dispatch => cases ha
  | _ => rfl

theorem opened_of_not_aside (r : Relay) {a : Action} (ha : a.isAside = false) :
    r.opened a = [] := by
  cases a with
  | subscribe | serve => cases ha
  | _ => rfl

theorem opened_subscribe {b : Nat} {c : Channel} {sub : Subscription}
    (h : r.subscribe b c = .ok (sub, s)) : r.opened (.subscribe b c) = [sub] := by
  rw [opened, h]
  rfl

theorem opened_serve (r : Relay) (b : Nat) (c : Channel) (sink : Sink) (cancelled : Bool) :
    r.opened (.serve b c sink cancelled) = r.opened (.subscribe b c) :=
  rfl

theorem opened_of_error {b : Nat} {c : Channel} {e : Error} (h : r.subscribe b c = .error e) :
    r.opened (.subscribe b c) = [] := by
  rw [opened, h]
  rfl

theorem act_traffic {retention : Nat} {hist : List (Nat × Record)} {a : Action}
    (hv : r.Valid retention hist) (h : r.act a = some s) : Traffic r a s := by
  cases ha : a.isAside with
  | false =>
    have hnone := r.opened_of_not_aside ha
    have hd := r.dispatched_of_not_aside ha
    obtain ⟨he, hs⟩ | ⟨e, he, hs⟩ := (hv.change h).spares ha <;> rw [he] at hd
    · exact .quiet hd hnone (quiet_of_eq hs.registries hs.mailboxes)
    · refine .dispatches hd hnone ⟨fun g c id => ?_, ?_⟩
      · rw [attached?, registry, hs.registries]
        exact (r.dispatch_dispatches ..).attached g c id
      · rw [hs.mailboxes]
        exact (r.dispatch_dispatches ..).mailboxes
  | true =>
    cases act_aside h ha with
    | feeds hf hsub hopen hs => exact .quiet rfl rfl hs.quiet
    | addsRegistry workers => exact .quiet rfl rfl (r.quiet_addRegistry workers)
    | subscribes hs => exact .opens rfl (opened_subscribe hs) (subscribe_opens hs)
    | serves hs =>
      have hopens := subscribe_opens hs
      exact .opens rfl (opened_subscribe hs)
        ⟨hopens.mailbox, hopens.size, hopens.attached, hopens.buffer⟩
    | rejects hs => exact .quiet rfl (opened_of_error hs) (quiet_of_eq rfl rfl)
    | unsubscribes sub => exact .quiet rfl rfl (r.quiet_unsubscribe sub)
    | detaches g c id => exact .quiet rfl rfl (r.quiet_detach g c id)
    | takes sub => exact .quiet rfl rfl (r.quiet_take sub)
    | takesMany sub n => exact .quiet rfl rfl (r.quiet_takeMany sub n)
    | cancels => exact .quiet rfl rfl (quiet_of_eq rfl rfl)
    | dispatches g c payload => exact .dispatches rfl rfl (r.dispatch_dispatches g c payload)

end

end Relay
end EventRelay
