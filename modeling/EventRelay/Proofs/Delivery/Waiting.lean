import EventRelay.Proofs.Delivery.Deeds
import EventRelay.Proofs.Registry.Queue
/-!
A subscriber's buffer is a bounded queue in every run of a relay, and to wait for a message with a
limit takes one message or none. Main statements: `Timeline.receives` and
`Mailboxes.is_bounded_fifo`.
-/
namespace EventRelay
open History

/-! ### Who reads a mailbox -/

/-- Whether messages leave mailbox `k` by a touch. -/
def Touch.reads (k : Nat) : Touch → Bool
  | .handle box .take | .handle box (.takeMany _) | .handle box .discard => box = k
  | _ => false

theorem Mailbox.Passes.appends {b b' : Mailbox} {hs : List (Handling × Outcome)}
    (h : b.Passes b' hs) (hkept : isDiscarded hs = false) (htaken : taken hs = []) :
    b.buffer <+: b'.buffer := by
  have horder := h.order hkept
  rw [htaken, List.nil_append] at horder
  exact ⟨delivered hs, horder⟩

namespace Mailboxes

theorem buffer_touch_of_not_reads {t : Mailboxes} {k : Nat} {e : Touch} (h : e.reads k = false) :
    t.buffer k <+: (t.touch e).2.buffer k := by
  cases hb : t.get? k with
  | none =>
    rw [buffer, hb]
    exact List.nil_prefix
  | some b =>
    obtain ⟨b', hb', hpass⟩ := passes_touch hb e
    rw [buffer_of_get? hb, buffer_of_get? hb']
    cases e with
    | add capacity => exact hpass.appends rfl rfl
    | handle box w =>
      by_cases hbox : box = k
      · subst hbox
        simp only [touch, handlings, List.flatMap_singleton, if_true, outcome_handle hb] at hpass
        cases w with
        | deliver id m =>
          refine hpass.appends rfl ?_
          simp only [Mailbox.outcome]
          split
          · split <;> rfl
          · rfl
        | share | release | close => exact hpass.appends rfl rfl
        | take | takeMany | discard => simp [Touch.reads] at h
      · simp only [touch, handlings, List.flatMap_singleton, if_neg hbox] at hpass
        exact hpass.appends rfl rfl

theorem buffer_after_of_not_reads {k : Nat} {es : List Touch}
    (h : ∀ e ∈ es, e.reads k = false) (t : Mailboxes) :
    t.buffer k <+: (after touch t es).buffer k := by
  induction es generalizing t with
  | nil => exact List.prefix_rfl
  | cons e es ih =>
    have hfirst := buffer_touch_of_not_reads (t := t) (h e List.mem_cons_self)
    exact hfirst.trans (ih (fun e' he' => h e' (List.mem_cons_of_mem e he')) _)

end Mailboxes

theorem Exchange.handles_of_reads {x : Exchange} {d : Deed} {e : Touch} {k : Nat}
    (he : e ∈ x.touches d) (h : e.reads k = true) : ∃ w, d = .handle k w := by
  cases d with
  | add capacity =>
    rw [List.mem_singleton.1 he] at h
    cases h
  | attach c id box =>
    cases List.mem_cons.1 he with
    | inl hshare => rw [hshare] at h; cases h
    | inr hrelease =>
      obtain ⟨old, -, rfl⟩ := List.mem_map.1 hrelease
      cases h
  | detach c id =>
    obtain ⟨old, -, rfl⟩ := List.mem_map.1 he
    cases h
  | dispatch c payload =>
    simp only [touches, Registry.deliveries] at he
    split at he
    · obtain ⟨member, -, rfl⟩ := List.mem_map.1 he
      cases h
    · cases he
  | handle box w =>
    rw [List.mem_singleton.1 he] at h
    have hbox : box = k := by
      cases w <;> simp_all [Touch.reads]
    exact ⟨w, by rw [hbox]⟩

namespace Relay

def Unfed (r : Relay) (k : Nat) : Prop :=
  ∀ i f sub, r.feeds.find? i = some f → f.result = none → f.subscription = some sub →
    sub.mailbox ≠ k

section
variable {r s : Relay} {retention : Nat} {hist : List (Nat × Record)} {k : Nat} {j : Job}
  {sig : Signal}

theorem Unfed.insert (h : r.Unfed k) {i : Nat} {f f' : Feed} (hf : r.feeds.find? i = some f)
    (hs : s.feeds = r.feeds.insert i f') (hsub : f'.subscription = f.subscription)
    (hopen : f'.result = none → f.result = none) : s.Unfed k := by
  intro i' f'' sub hf'' hr hsub'
  rw [hs, Table.find?_insert_eq_some] at hf''
  obtain ⟨rfl, rfl⟩ | ⟨-, hold⟩ := hf''
  · exact h i f sub hf (hopen hr) (hsub ▸ hsub')
  · exact h i' f'' sub hold hr hsub'

theorem FeedStep.unfed {i : Nat} {f : Feed} {sub : Subscription} (h : FeedStep r i f sub sig s)
    (hf : r.feeds.find? i = some f) (hk : r.Unfed k) : s.Unfed k := by
  cases h with
  | stops | ends | fails => exact hk.insert hf rfl rfl nofun
  | takes ht hs => exact hk.insert hf rfl rfl fun hr => hr

/-- A job that is no feed handles no mailbox but by deliveries, and a feed handles its own. -/
theorem not_handled {d : Nat × Deed} (h : r.step j sig = some s) (hk : r.Unfed k)
    (hd : d ∈ r.deeds (.step j sig)) (w : Handling) : d.2 ≠ .handle k w := by
  intro heq
  cases j with
  | feed i =>
    obtain ⟨f, sub, hf, hsub, hopen, -⟩ := stepFeed_step h
    have hbox := hk i f sub hf hopen hsub
    have hend : d ∉ sub.ending := by
      intro hin
      simp only [Subscription.ending, List.mem_cons, List.not_mem_nil, or_false] at hin
      obtain rfl | rfl := hin <;> cases heq
      exact hbox rfl
    simp only [deeds, hf, hsub, Option.toList_some, List.flatMap_singleton] at hd
    unfold feedDeeds at hd
    split at hd
    · split at hd
      · cases List.mem_cons.1 hd with
        | inl htake =>
          subst htake
          cases heq
          exact hbox rfl
        | inr hrest =>
          split at hrest
          · cases hrest
          · exact hend hrest
      · exact hend hd
    · exact hend hd
  | call | removal | lane =>
    obtain ⟨d', -, rfl⟩ := List.mem_map.1 hd
    cases heq

theorem Valid.step_unfed (hv : r.Valid retention hist) (h : r.step j sig = some s)
    (hk : r.Unfed k) : s.Unfed k ∧ r.mailboxes.buffer k <+: s.mailboxes.buffer k := by
  have hact : r.act (.step j sig) = some s := h
  have hfeeds (ha : (Action.step j sig).isAside = false) : s.feeds = r.feeds := by
    obtain ⟨-, hs⟩ | ⟨d, -, hs⟩ := (hv.change hact).spares ha <;> exact hs.feeds
  constructor
  · cases j with
    | feed i =>
      obtain ⟨f, sub, hf, -, -, hstep⟩ := stepFeed_step h
      exact hstep.unfed hf hk
    | call | removal | lane =>
      rw [Unfed, hfeeds rfl]
      exact hk
  · rw [hv.act_touches hact]
    refine Mailboxes.buffer_after_of_not_reads (fun e he => ?_) _
    obtain ⟨q, d, hd, he⟩ := mem_along he
    rw [← Bool.not_eq_true]
    intro hreads
    obtain ⟨w, hw⟩ := Exchange.handles_of_reads he hreads
    exact not_handled h hk hd w hw

theorem Valid.steps_unfed (hv : r.Valid retention hist) {steps : List (Job × Signal)}
    (h : r.after (steps.map fun (j, sig) => .step j sig) = some s) (hk : r.Unfed k) :
    r.mailboxes.buffer k <+: s.mailboxes.buffer k := by
  induction steps generalizing r hist with
  | nil => cases h; exact List.prefix_rfl
  | cons e steps ih =>
    obtain ⟨q, hq, h⟩ := Option.bind_eq_some_iff.1 h
    obtain ⟨hunfed, hfirst⟩ := hv.step_unfed hq hk
    exact hfirst.trans (ih (hv.next hq) h hunfed)

end

/-- What comes of a wait for a message that ends in `q`. -/
inductive Received (q : Relay) (s : Subscription) : Except Error Event → Relay → Prop
  | message {m : Event} {r : Relay} (h : q.take s = (.message m, r)) : Received q s (.ok m) r
  | closed {r : Relay} (h : q.take s = (.disconnected, r)) : Received q s (.error .closed) r
  | timeout : Received q s (.error .timeout) q

end Relay

/-! ### A wait with a limit -/

namespace Timeline

/-- Jobs take steps until a message is taken, the stream is at its end, or the time is over.
Meanwhile the mailbox gets messages but loses none, unless a feed reads it too. -/
def Receives (t : Timeline) (s : Subscription) (ms : Nat) : Prop :=
  ∃ u : Timeline, t.Steps u ∧
    (t.relay.Unfed s.mailbox →
      t.relay.mailboxes.buffer s.mailbox <+: u.relay.mailboxes.buffer s.mailbox) ∧
    u.relay.Received s (t.receive s ms).1 (t.receive s ms).2.relay

/-- Jobs take steps, if nothing is there yet, and then a message is taken. -/
def TakesWithin (t : Timeline) (s : Subscription) (ms : Nat) : Prop :=
  ∃ u : Timeline, t.Steps u ∧
    (t.relay.Unfed s.mailbox →
      t.relay.mailboxes.buffer s.mailbox <+: u.relay.mailboxes.buffer s.mailbox) ∧
    u.relay.take s = ((t.takeWithin s ms).1, (t.takeWithin s ms).2.relay)

theorem receiveUntil_steps (deadline : Nat) (s : Subscription) (fuel : Nat) (t : Timeline) :
    ∃ u : Timeline, t.Steps u ∧
      let result := t.receiveUntil deadline s fuel
      (result.1 = .empty ∧ result.2.relay = u.relay ∨
        result.1 ≠ .empty ∧ u.relay.take s = (result.1, result.2.relay)) := by
  induction fuel generalizing t with
  | zero => exact ⟨t, .refl t, .inl ⟨rfl, rfl⟩⟩
  | succ fuel ih =>
    unfold receiveUntil
    split
    · split
      · split
        · obtain ⟨u, hu, hresult⟩ := ih (t.moveTo _).settle
          exact ⟨u, (steps_run _ (t.moveTo _)).trans hu, hresult⟩
        · exact ⟨t, .refl t, .inl ⟨rfl, rfl⟩⟩
      · exact ⟨t, .refl t, .inl ⟨rfl, rfl⟩⟩
    · rename_i taken relay hne ht
      exact ⟨t, .refl t, .inr ⟨fun he => hne he, ht⟩⟩

theorem receives {retention : Nat} {hist : List (Nat × Record)} {t : Timeline}
    (hv : t.relay.Valid retention hist) (s : Subscription) (ms : Nat) : t.Receives s ms := by
  obtain ⟨u, hu, hresult⟩ := receiveUntil_steps (t.now + ms) s (ms + 1) t.settle
  obtain ⟨steps, hrun⟩ : t.Steps u := (steps_run _ t).trans hu
  refine ⟨u, ⟨steps, hrun⟩, hv.steps_unfed hrun, ?_⟩
  unfold receive
  split
  · rename_i m v hr
    rw [hr] at hresult
    obtain ⟨he, -⟩ | ⟨-, ht⟩ := hresult
    · cases he
    · exact .message ht
  · rename_i v hr
    rw [hr] at hresult
    obtain ⟨he, -⟩ | ⟨-, ht⟩ := hresult
    · cases he
    · exact .closed ht
  · rename_i v hr
    rw [hr] at hresult
    obtain ⟨-, hrelay⟩ | ⟨hne, -⟩ := hresult
    · rw [hrelay]
      exact .timeout
    · exact absurd rfl hne

theorem takesWithin {retention : Nat} {hist : List (Nat × Record)} {t : Timeline}
    (hv : t.relay.Valid retention hist) (s : Subscription) (ms : Nat) : t.TakesWithin s ms := by
  unfold TakesWithin takeWithin
  cases (t.relay.take s).1 with
  | empty =>
    obtain ⟨steps, hrun⟩ := t.steps_wait ms
    exact ⟨t.wait ms, ⟨steps, hrun⟩, hv.steps_unfed hrun, rfl⟩
  | message | disconnected => exact ⟨t, .refl t, fun _ => List.prefix_rfl, rfl⟩

end Timeline

/-! ### The buffer of a subscriber -/

namespace Mailboxes

/-- A mailbox is a bounded queue under all that can be done to it, in any order and with anything
done to others in between; deeds on an exchange and actions on a relay do nothing else to it, a
dispatch being a delivery to each subscriber; and a wait for a message takes one or none, whether it
is given up at a limit or is a pause before a read. -/
theorem is_bounded_fifo {retention : Nat} {acts : List Action} {l : Timeline}
    (h : (Relay.new retention).after acts = some l.relay) (sub : Subscription) (ms : Nat)
    (x : Exchange) (deeds : List Deed) (t : Mailboxes) (capacity : Nat) (es : List Touch) :
    let u := (t.touch (.add capacity)).2
    let y := after Exchange.step x deeds
    IsQueue capacity t.size (handlings t.size (trace touch u es)) (after touch u es) ∧
      y.boxes = after touch x.boxes (along Exchange.step Exchange.touches x deeds) ∧
      (∀ c payload, (y.step (.dispatch c payload)).1 =
        .count (countDone (trace touch y.boxes (y.registry.deliveries c payload)))) ∧
      l.relay.mailboxes = after touch {} ((Relay.new retention).observe Relay.touches acts) ∧
      l.Receives sub ms ∧ l.TakesWithin sub ms := by
  intro u y
  have hv := Relay.valid_of_after h
  exact ⟨t.isQueue_after capacity es, x.boxes_after deeds, y.outcome_dispatch,
    Relay.mailboxes_after h, Timeline.receives hv sub ms, Timeline.takesWithin hv sub ms⟩

/-- A subscriber with room for one message, and two messages for it. -/
def oneTooMany : List Action :=
  [.addRegistry 1, .addBroker { workers := 1, subscriberBuffer := 1 } 0,
    .subscribe 0 ⟨"a", "k"⟩, .dispatch 0 ⟨"a", "k"⟩ (Binary.encode (.object .create 1)),
    .dispatch 0 ⟨"a", "k"⟩ (Binary.encode (.object .create 2))]

theorem is_bounded_fifo_of_oneTooMany : ∃ r, (Relay.new 1).after oneTooMany = some r ∧
    r.mailboxes = after touch {} [.add 1, .handle 0 .share, .handle 0 .release,
      .handle 0 (.deliver (.fresh 0) (.object .create 1)),
      .handle 0 (.deliver (.fresh 0) (.object .create 2))] ∧
    (∃ u, ({ relay := r } : Timeline).Steps u ∧ u.relay.Received ⟨0, ⟨"a", "k"⟩, .fresh 0, 0⟩
      (.ok (.object .create 1)) (({ relay := r } : Timeline).receive
        ⟨0, ⟨"a", "k"⟩, .fresh 0, 0⟩ 3).2.relay) ∧
    IsQueue 0 0 [(.deliver (.fresh 0) (.object .create 1), .done),
        (.deliver (.fresh 0) (.object .create 2),
          .refused (.subscriberLagging (SubscriberId.fresh 0).text)),
        (.take, .taken (.message (.object .create 1)))]
      { boxes := #[{ capacity := 1, senders := 1 }] } := by
  have hrun : ((Relay.new 1).after oneTooMany).map (fun r =>
      (({ relay := r } : Timeline).receive ⟨0, ⟨"a", "k"⟩, .fresh 0, 0⟩ 3).1.toOption) =
        some (some (.object .create 1)) := by
    decide +kernel
  obtain ⟨r, hr, htaken⟩ := Option.map_eq_some_iff.1 hrun
  obtain ⟨hqueue, -, -, hboxes, ⟨u, hu, -, hreceived⟩, -⟩ := is_bounded_fifo
    (l := { relay := r }) hr ⟨0, ⟨"a", "k"⟩, .fresh 0, 0⟩ 3 (Exchange.new 1) [] {} 0
    [.handle 0 (.deliver (.fresh 0) (.object .create 1)),
      .handle 0 (.deliver (.fresh 0) (.object .create 2)), .handle 0 .take]
  have htouches : (Relay.new 1).observe Relay.touches oneTooMany = [.add 1, .handle 0 .share,
      .handle 0 .release, .handle 0 (.deliver (.fresh 0) (.object .create 1)),
      .handle 0 (.deliver (.fresh 0) (.object .create 2))] := by
    decide +kernel
  rw [htouches] at hboxes
  refine ⟨r, hr, hboxes, ⟨u, hu, ?_⟩, ?_⟩
  · cases hm : (({ relay := r } : Timeline).receive ⟨0, ⟨"a", "k"⟩, .fresh 0, 0⟩ 3).1 with
    | error e => rw [hm] at htaken; cases htaken
    | ok m =>
      rw [hm] at htaken hreceived
      cases htaken
      exact hreceived
  · exact hqueue

end Mailboxes
end EventRelay
