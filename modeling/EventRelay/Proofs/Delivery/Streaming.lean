import EventRelay.Proofs.Delivery.Alive
import EventRelay.Proofs.Delivery.Senders
import EventRelay.Proofs.Delivery.Waiting
/-!
The stream of one subscription among all that is done to others. Main statements: `Streaming.deed`,
what a deed leaves of it, `deeds_spare`, what others do spares it, and `Streaming.act`.
-/
namespace EventRelay
open History

def Action.holder? : Action → Option Subscription
  | .unsubscribe sub | .take sub | .takeMany sub _ => some sub
  | _ => none

/-- Whether a deed leaves the handles of mailbox `k` alone, and what is in it but for a dispatch. -/
def Deed.Spares (k : Nat) (d : Deed) : Prop :=
  (∀ w, d ≠ .handle k w) ∧ ∀ c id, d ≠ .attach c id k

namespace Relay

/-- The mailbox of a subscription is open, and only the place of the subscription may hold it. It
has `extra` sending ends besides. -/
structure Streaming (r : Relay) (sub : Subscription) (extra : Nat) : Prop where
  there : sub.mailbox < r.mailboxes.size
  place : ∀ g c id, r.attached? g c id = some sub.mailbox → (g, c, id) = sub.key
  accepts : r.mailboxes.accepts sub.mailbox = true
  senders : r.mailboxes.senders sub.mailbox = extra +
    if r.attached? sub.registry sub.channel sub.id = some sub.mailbox then 1 else 0

section
variable {r s : Relay} {sub : Subscription} {extra : Nat}

theorem Streaming.same (h : r.Streaming sub extra) (hsize : r.mailboxes.size ≤ s.mailboxes.size)
    (hattached : ∀ g c id, s.attached? g c id = r.attached? g c id)
    (haccepts : s.mailboxes.accepts sub.mailbox = true)
    (hsenders : s.mailboxes.senders sub.mailbox = r.mailboxes.senders sub.mailbox) :
    s.Streaming sub extra := by
  refine ⟨Nat.lt_of_lt_of_le h.there hsize, fun g c id hk => h.place g c id ?_, haccepts, ?_⟩
  · rw [← hattached]
    exact hk
  · rw [hsenders, hattached]
    exact h.senders

theorem Streaming.congr (h : r.Streaming sub extra) (hs : Matches r s) : s.Streaming sub extra :=
  h.same (by rw [hs.mailboxes]) (attached?_congr hs.registries)
    (by rw [hs.mailboxes]; exact h.accepts) (by rw [hs.mailboxes])

theorem Streaming.displaced (h : r.Streaming sub extra) {g : Nat} {c : Channel} {id : SubscriberId}
    {v : Option Nat} (hsize : s.mailboxes.size = r.mailboxes.size) (hv : v ≠ some sub.mailbox)
    (hattached : ∀ g' c' id', s.attached? g' c' id' =
      if g < r.registries.size ∧ g = g' ∧ c = c' ∧ id = id' then v else r.attached? g' c' id')
    (haccepts : s.mailboxes.accepts sub.mailbox = true)
    (hsenders : s.mailboxes.senders sub.mailbox = r.mailboxes.senders sub.mailbox -
      if r.attached? g c id = some sub.mailbox then 1 else 0) : s.Streaming sub extra := by
  refine ⟨hsize ▸ h.there, fun g' c' id' hk => ?_, haccepts, ?_⟩
  · rw [hattached] at hk
    split at hk
    · exact absurd hk hv
    · exact h.place g' c' id' hk
  · by_cases hthis : r.attached? g c id = some sub.mailbox
    · have hg : g < r.registries.size := by
        by_contra hle
        rw [attached?_of_le (Nat.le_of_not_lt hle)] at hthis
        cases hthis
      have hkey := h.place g c id hthis
      simp only [Subscription.key, Prod.mk.injEq] at hkey
      obtain ⟨rfl, rfl, rfl⟩ := hkey
      have hgone : s.attached? sub.registry sub.channel sub.id ≠ some sub.mailbox := by
        rw [hattached, if_pos ⟨hg, rfl, rfl, rfl⟩]
        exact hv
      rw [hsenders, h.senders, if_pos hthis, if_neg hgone]
      rfl
    · have hsame : s.attached? sub.registry sub.channel sub.id = some sub.mailbox ↔
          r.attached? sub.registry sub.channel sub.id = some sub.mailbox := by
        rw [hattached]
        split
        · rename_i hp
          obtain ⟨-, hg, hc, hid⟩ := hp
          rw [hg, hc, hid] at hthis
          exact iff_of_false hv hthis
        · rfl
      rw [hsenders, h.senders, if_neg hthis, Nat.sub_zero]
      simp only [hsame]

theorem Streaming.deed (h : r.Streaming sub extra) (e : Nat × Deed) (he : e.2.Spares sub.mailbox) :
    (r.deed e).2.Streaming sub extra := by
  obtain ⟨g, d⟩ := e
  have haccepts : (r.deed (g, d)).2.mailboxes.accepts sub.mailbox = true :=
    (r.exchange g).accepts_step (fun w hw => absurd hw (he.1 w)) h.accepts
  cases d with
  | add capacity =>
    refine h.same ?_ (fun g' c id => by rw [deed_add]; rfl) haccepts ?_
    · rw [deed_add]
      exact Nat.le_of_lt (by simp [Mailboxes.add, Mailboxes.size])
    · have hsenders := (r.exchange g).senders_add (k := sub.mailbox) capacity
      have hold : (r.exchange g).boxes.size ≠ sub.mailbox := Nat.ne_of_gt h.there
      rw [if_neg hold, Nat.add_zero] at hsenders
      exact hsenders
  | attach c id j =>
    have hj : j ≠ sub.mailbox := fun hj => he.2 c id (hj ▸ rfl)
    refine h.displaced ?_ (mt Option.some.inj hj) (attached?_attach r g c id j) haccepts ?_
    · exact ((r.registry g).drains_attach r.mailboxes c id j).size
    · have hsenders := (r.exchange g).senders_attach c id fun hj' => absurd hj' hj
      rw [if_neg hj, Nat.add_zero] at hsenders
      exact hsenders
  | detach c id =>
    refine h.displaced (v := none) (r.size_detach g c id) (Option.some_ne_none _).symm
      (fun g' c' id' => ?_) haccepts ((r.exchange g).senders_detach c id)
    have hle (hg : ¬ g < r.registries.size) : r.attached? g c id = none :=
      attached?_of_le (Nat.le_of_not_lt hg) c id
    rw [deed_detach, attached?_detach]
    by_cases hg : g < r.registries.size
    · simp only [hg, true_and]
    · simp only [hg, false_and, if_false]
      split
      · rename_i hp
        obtain ⟨rfl, rfl, rfl⟩ := hp
        exact (hle hg).symm
      · rfl
  | dispatch c payload =>
    have hends := Mailboxes.sameEnds_dispatch (r.registry g) r.mailboxes c payload
    exact h.same (Nat.le_of_eq hends.size.symm) (r.dispatch_dispatches g c payload).attached
      haccepts (hends.same sub.mailbox).1
  | handle j w =>
    have hj : j ≠ sub.mailbox := fun hj => he.1 w (hj ▸ rfl)
    have hsenders := (r.exchange g).senders_handle (w := w) fun hj' => absurd hj' hj
    simp only [hj, false_and, if_false, Nat.add_zero, Nat.sub_zero] at hsenders
    refine h.same ?_ (fun g' c id => by rw [deed_handle]; rfl) haccepts hsenders
    rw [deed_handle, Mailboxes.handle_boxes, Mailboxes.size_modify]

theorem Streaming.deeds (h : r.Streaming sub extra) {es : List (Nat × Deed)}
    (hes : ∀ e ∈ es, e.2.Spares sub.mailbox) :
    (History.after Relay.deed r es).Streaming sub extra := by
  induction es generalizing r with
  | nil => exact h
  | cons e es ih =>
    exact ih (h.deed e (hes e List.mem_cons_self)) fun e' he' => hes e' (List.mem_cons_of_mem e he')

variable {retention : Nat} {hist : List (Nat × Record)} {a : Action}

theorem Streaming.act (h : r.Streaming sub extra) (hv : r.Valid retention hist)
    (ha : r.act a = some s) (hes : ∀ e ∈ r.deeds a, e.2.Spares sub.mailbox) :
    s.Streaming sub extra := by
  obtain ⟨workers, rfl⟩ | hs := hv.act_deeds ha
  · cases ha
    exact h.same (Nat.le_refl _) (fun g c id => r.attached?_addRegistry g c id workers) h.accepts
      rfl
  · exact (h.deeds hes).congr hs

theorem Valid.buffer_of_spared (hv : r.Valid retention hist) (ha : r.act a = some s) {k : Nat}
    (hes : ∀ e ∈ r.deeds a, e.2.Spares k) :
    s.mailboxes.buffer k = r.mailboxes.buffer k ++ r.accepted k a := by
  have hprefix : r.mailboxes.buffer k <+: s.mailboxes.buffer k := by
    rw [hv.act_touches ha]
    refine Mailboxes.buffer_after_of_not_reads (fun e he => ?_) _
    obtain ⟨q, d, hd, he⟩ := mem_along he
    rw [← Bool.not_eq_true]
    intro hreads
    obtain ⟨w, hw⟩ := Exchange.handles_of_reads he hreads
    exact (hes d hd).1 w hw
  rw [accepted, ha, Option.elim_some]
  exact List.prefix_iff_eq_append.1 hprefix |>.symm

theorem spares_add (capacity k : Nat) : (Deed.add capacity).Spares k := ⟨nofun, nofun⟩

theorem spares_detach (c : Channel) (id : SubscriberId) (k : Nat) : (Deed.detach c id).Spares k :=
  ⟨nofun, nofun⟩

theorem spares_dispatch (c : Channel) (payload : List UInt8) (k : Nat) :
    (Deed.dispatch c payload).Spares k := ⟨nofun, nofun⟩

theorem spares_attach {j k : Nat} (h : j ≠ k) (c : Channel) (id : SubscriberId) :
    (Deed.attach c id j).Spares k :=
  ⟨nofun, fun _ _ heq => h (Deed.attach.inj heq).2.2⟩

theorem spares_handle {j k : Nat} (h : j ≠ k) (w : Handling) : (Deed.handle j w).Spares k :=
  ⟨fun _ heq => h (Deed.handle.inj heq).1, nofun⟩

theorem spares_ending {o : Subscription} {k : Nat} (h : o.mailbox ≠ k) :
    ∀ e ∈ o.ending, e.2.Spares k := by
  intro e he
  simp only [Subscription.ending, List.mem_cons, List.not_mem_nil, or_false] at he
  obtain rfl | rfl := he
  · exact spares_detach _ _ k
  · exact spares_handle h .discard

theorem spares_opening {o : Subscription} {k : Nat} (h : o.mailbox ≠ k) (capacity : Nat) :
    ∀ e ∈ o.opening capacity, e.2.Spares k := by
  intro e he
  simp only [Subscription.opening, List.mem_cons, List.not_mem_nil, or_false] at he
  obtain rfl | rfl | rfl := he
  · exact spares_add capacity k
  · exact spares_attach h _ _
  · exact spares_handle h .release

theorem spares_feedDeeds {o : Subscription} {k : Nat} (h : o.mailbox ≠ k) (r : Relay) (f : Feed)
    (sig : Signal) : ∀ e ∈ r.feedDeeds f o sig, e.2.Spares k := by
  intro e he
  unfold feedDeeds at he
  split at he
  · split at he
    · cases List.mem_cons.1 he with
      | inl htake =>
        rw [htake]
        exact spares_handle h .take
      | inr hrest =>
        split at hrest
        · cases hrest
        · exact spares_ending h e hrest
    · exact spares_ending h e he
  · exact spares_ending h e he

theorem opened_mailbox {o : Subscription} (h : o ∈ r.opened a) : o.mailbox = r.mailboxes.size := by
  have hopened {b : Nat} {c : Channel} (h : o ∈ r.opened (.subscribe b c)) :
      o.mailbox = r.mailboxes.size := by
    cases hs : r.subscribe b c with
    | error fault =>
      rw [opened_of_error hs] at h
      cases h
    | ok x =>
      rw [opened_subscribe hs, List.mem_singleton] at h
      obtain ⟨-, -, hsub, -⟩ := subscribe_ok hs
      rw [h, hsub]
  cases a with
  | subscribe | serve => exact hopened h
  | _ => cases h

theorem spares_opened {b : Nat} {c : Channel} {k : Nat} (hk : k < r.mailboxes.size) :
    ∀ e ∈ (r.opened (.subscribe b c)).flatMap (·.opening (r.broker b).config.subscriberBuffer),
      e.2.Spares k := by
  intro e he
  obtain ⟨o, ho, he⟩ := List.mem_flatMap.1 he
  exact spares_opening (opened_mailbox ho ▸ Nat.ne_of_gt hk) _ e he

theorem deeds_spare {k i : Nat} (hk : k < r.mailboxes.size)
    (hfeeds : ∀ j f o, r.feeds.find? j = some f → f.subscription = some o → o.mailbox = k → j = i)
    (howned : ∀ o ∈ a.holder?, o.mailbox ≠ k) (hi : ∀ sig, a ≠ .step (.feed i) sig) :
    ∀ e ∈ r.deeds a, e.2.Spares k := by
  have hdispatches (ds : List Dispatch) : ∀ e ∈ ds.map fun d => (d.registry,
      Deed.dispatch d.channel d.payload), e.2.Spares k := by
    intro e he
    obtain ⟨d, -, rfl⟩ := List.mem_map.1 he
    exact spares_dispatch d.channel d.payload k
  cases a with
  | step j sig =>
    cases j with
    | feed j =>
      intro e he
      simp only [deeds] at he
      split at he
      · rename_i f hf
        obtain ⟨o, ho, he⟩ := List.mem_flatMap.1 he
        refine spares_feedDeeds (fun hbox => ?_) r f sig e he
        have hj := hfeeds j f o hf (Option.mem_toList.1 ho) hbox
        exact hi sig (by rw [hj])
      · cases he
    | call | removal | lane => exact hdispatches _
  | subscribe b c | serve b c => exact spares_opened hk
  | unsubscribe o => exact spares_ending (howned o rfl)
  | take o =>
    intro e he
    rw [List.mem_singleton.1 he]
    exact spares_handle (howned o rfl) .take
  | takeMany o n =>
    intro e he
    rw [List.mem_singleton.1 he]
    exact spares_handle (howned o rfl) (.takeMany n)
  | detach g c id =>
    intro e he
    rw [List.mem_singleton.1 he]
    exact spares_detach c id k
  | _ => exact hdispatches _

theorem ends_opening (hnew : sub.mailbox = r.mailboxes.size)
    (hfree : r.attached? sub.registry sub.channel sub.id ≠ some sub.mailbox) (capacity : Nat) :
    let s := History.after Relay.deed r (sub.opening capacity)
    s.mailboxes.accepts sub.mailbox = true ∧ s.mailboxes.senders sub.mailbox = 1 := by
  let q : Relay := { r with mailboxes := (r.mailboxes.add (.new capacity)).2 }
  let q' := (q.deed (sub.registry, .attach sub.channel sub.id sub.mailbox)).2
  have hopening : History.after Relay.deed r (sub.opening capacity) =
      (q'.deed (sub.registry, .handle sub.mailbox .release)).2 := by
    simp only [Subscription.opening, History.after, deed_add]
    rfl
  have hnone : r.mailboxes.get? sub.mailbox = none :=
    Array.getElem?_eq_none (Nat.le_of_eq hnew.symm)
  rw [hopening, deed_handle]
  constructor
  · have haccepts : r.mailboxes.accepts sub.mailbox = true := by
      rw [Mailboxes.accepts, hnone]
      rfl
    have hq : q.mailboxes.accepts sub.mailbox = true :=
      (r.exchange sub.registry).accepts_step
        (fun w hw => absurd hw ((spares_add capacity sub.mailbox).1 w)) haccepts
    have hq' : q'.mailboxes.accepts sub.mailbox = true :=
      (q.exchange sub.registry).accepts_step (d := .attach sub.channel sub.id sub.mailbox)
        (fun w hw => by cases hw) hq
    exact (Mailboxes.accepts_dropSender q'.mailboxes sub.mailbox sub.mailbox).trans hq'
  · -- The mailbox comes with a handle, which is cloned for the place and dropped.
    have hone : q.mailboxes.senders sub.mailbox = 1 := by
      refine ((r.exchange sub.registry).senders_add (k := sub.mailbox) capacity).trans ?_
      have hsize : (r.exchange sub.registry).boxes.size = sub.mailbox := hnew.symm
      have hzero : (r.exchange sub.registry).boxes.senders sub.mailbox = 0 := by
        rw [Mailboxes.senders, exchange, hnone]
        rfl
      rw [if_pos hsize, hzero]
    have hshared := (q.exchange sub.registry).senders_attach (j := sub.mailbox) sub.channel sub.id
      (fun _ => Nat.lt_of_lt_of_eq Nat.one_pos hone.symm)
    have hplace : (q.exchange sub.registry).places (sub.channel, sub.id) ≠ some sub.mailbox := hfree
    rw [if_pos rfl, if_neg hplace, Nat.sub_zero] at hshared
    have htwo : q'.mailboxes.senders sub.mailbox = 2 := hshared.trans (congrArg (· + 1) hone)
    have hdropped := Mailboxes.senders_dropSender (k := sub.mailbox) (t := q'.mailboxes) sub.mailbox
    rw [htwo, if_pos rfl] at hdropped
    exact hdropped

/-- A subscription just opened. Its sending end is lost if there is no registry to keep it. -/
theorem Streaming.opening {b : Nat} {c : Channel} {acts : List Action}
    (hr : (new retention).after acts = some r) (h : r.subscribe b c = .ok (sub, s)) :
    s.Streaming sub (if sub.registry < r.registries.size then 0 else 1) := by
  have hsupplied := supplied_of_after hr
  have hnew : sub.mailbox = r.mailboxes.size := by
    obtain ⟨-, -, hsub, -⟩ := subscribe_ok h
    rw [hsub]
  have hfree (g : Nat) (c : Channel) (id : SubscriberId) :
      r.attached? g c id ≠ some sub.mailbox := by
    intro hk
    have hlt := hsupplied.numbered _ (hsupplied.attached g c id _ hk)
    exact Nat.lt_irrefl _ (hnew ▸ hlt)
  refine Streaming.congr ?_ (subscribe_eq h)
  let capacity := (r.broker b).config.subscriberBuffer
  have hattached := attached?_opening r sub capacity
  obtain ⟨haccepts, hends⟩ := ends_opening hnew (hfree _ _ _) capacity
  refine ⟨?_, fun g c id hk => ?_, haccepts, ?_⟩
  · rw [size_opening, hnew]
    exact Nat.lt_succ_self _
  · rw [hattached] at hk
    split at hk
    · rename_i hkey
      obtain ⟨-, rfl, rfl, rfl⟩ := hkey
      rfl
    · exact absurd hk (hfree g c id)
  · rw [hends, hattached]
    by_cases hg : sub.registry < r.registries.size
    · simp [hg]
    · simp [hg, hfree]

end
end Relay
end EventRelay
