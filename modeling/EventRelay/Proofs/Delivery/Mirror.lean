import EventRelay.Proofs.Delivery.Alive
import Mathlib.Data.List.Dedup
/-!
A registry that is changed only for subscriptions mirrors those that are alive. Main statement:
`mirrors_the_living`.
-/
namespace EventRelay

theorem Exchange.placed_step {x : Exchange} (h : x.registry.Placed) (d : Deed) :
    (x.step d).2.registry.Placed := by
  cases d with
  | add | handle => exact h
  | attach c id box => exact h.setMembers c _
  | detach c id =>
    simp only [step, Registry.detach]
    cases (x.registry.members c).find? id with
    | none => exact h
    | some box => exact h.setMembers c _
  | dispatch c payload =>
    simp only [step]
    cases hd : Binary.decode payload with
    | error e => rw [Registry.dispatch_of_error hd]; exact h
    | ok m => rw [Registry.dispatch_of_ok hd]; exact h

namespace Relay

theorem placed_deeds {r : Relay} (h : ∀ g, (r.registry g).Placed) (es : List (Nat × Deed))
    (g : Nat) : ((History.after deed r es).registry g).Placed := by
  induction es generalizing r with
  | nil => exact h g
  | cons e es ih =>
    refine ih fun g' => ?_
    cases r.registry_setRegistry e.1 g' ((r.exchange e.1).step e.2).2.registry with
    | inl hnew =>
      have hplaced := Exchange.placed_step (x := r.exchange e.1) (h e.1) e.2
      exact Eq.mpr (congrArg Registry.Placed hnew.1) hplaced
    | inr hold => exact Eq.mpr (congrArg Registry.Placed hold) (h g')

theorem placed_of_after {retention : Nat} {acts : List Action} {r : Relay}
    (h : (new retention).after acts = some r) (g : Nat) : (r.registry g).Placed := by
  induction h using after_induct generalizing g with
  | start => exact Registry.placed_new 1
  | next acts q a s hq ha ih =>
    obtain ⟨workers, rfl⟩ | hs := (valid_of_after hq).act_deeds ha
    · cases ha
      simp only [registry, addRegistry, Array.getElem?_push]
      split
      · exact Registry.placed_new workers
      · exact ih g
    · have hplaced := placed_deeds ih (q.deeds a) g
      rwa [registry, ← hs.registries] at hplaced

def present (g : Nat) (alive : List Subscription) (gone : List (Nat × Channel × SubscriberId)) :
    List Subscription :=
  alive.filter fun sub => sub.registry = g ∧ sub.key ∉ gone

/-- What registry `g` and the subscriptions alive have of each other. -/
structure Reflects (r : Relay) (g : Nat) (alive : List Subscription)
    (gone : List (Nat × Channel × SubscriberId)) : Prop where
  attached : (r.registry g).attached.Perm
    ((present g alive gone).map fun sub => (sub.channel, sub.id))
  stats : ∀ b, (r.broker b).registry = g →
    (r.stats b).subscribers = (present g alive gone).length ∧
      (r.stats b).channels = ((present g alive gone).map Subscription.channel).dedup.length
  /-- A name that is no channel's opens no subscription, and its feed is over at once. -/
  rejected : ∀ b c e, Channel.validateName c.name = .error e → r.subscribe b c = .error e ∧
    ∀ sink cancelled, let (i, s) := r.serve b c sink cancelled
      Matches r s ∧ s.feeds.find? i =
        some { subscription := none, sink, cancelled, result := some (.error e) }
  ended : ∀ sub ∈ alive, sub.registry = g → ((r.take sub).1 = .disconnected ↔
    sub.key ∈ gone ∧ r.mailboxes.buffer sub.mailbox = [])

section
variable {r : Relay} {g : Nat} {subs ended : List Subscription}
  {gone : List (Nat × Channel × SubscriberId)}

theorem rejected_of_error {b : Nat} {c : Channel} {e : Error}
    (h : Channel.validateName c.name = .error e) : r.subscribe b c = .error e ∧
      ∀ sink cancelled, let (i, s) := r.serve b c sink cancelled
        Matches r s ∧ s.feeds.find? i =
          some { subscription := none, sink, cancelled, result := some (.error e) } := by
  have hs : r.subscribe b c = .error e := by
    unfold subscribe
    rw [h]
    rfl
  refine ⟨hs, fun sink cancelled => ?_⟩
  simp only [serve, hs]
  exact ⟨⟨rfl, rfl⟩, by rw [Table.find?_insert, if_pos rfl]⟩

theorem Mirrors.attached_iff (h : r.Mirrors g subs ended gone) {c : Channel} {id : SubscriberId} :
    (∃ k, r.attached? g c id = some k) ↔
      ∃ sub ∈ present g (subs.filter fun sub => sub ∉ ended) gone,
        sub.channel = c ∧ sub.id = id := by
  simp only [present, List.mem_filter, decide_eq_true_eq]
  constructor
  · intro hk
    obtain ⟨k, hk⟩ := hk
    have hs := h.known g c id k hk
    obtain ⟨hlive, hkept⟩ := (h.attached _ hs rfl).1 hk
    exact ⟨_, ⟨⟨hs, hlive⟩, rfl, hkept⟩, rfl, rfl⟩
  · intro hsub
    obtain ⟨sub, ⟨⟨hs, hlive⟩, hg, hkept⟩, rfl, rfl⟩ := hsub
    exact ⟨sub.mailbox, (h.attached sub hs hg).2 ⟨hlive, hkept⟩⟩

theorem Mirrors.ended_iff (h : r.Mirrors g subs ended gone) {sub : Subscription}
    (hs : sub ∈ subs) (hlive : sub ∉ ended) (hg : sub.registry = g) :
    (r.take sub).1 = .disconnected ↔ sub.key ∈ gone ∧ r.mailboxes.buffer sub.mailbox = [] := by
  obtain ⟨b, hb, haccepting, hsenders⟩ := h.mailbox sub hs hg hlive
  have htake : (r.take sub).1 = b.take.1 := by
    simp only [Relay.take, Mailboxes.take, hb]
  rw [htake, Mailboxes.buffer, hb, Option.elim_some, Mailbox.take]
  cases hbuffer : b.buffer with
  | cons m rest => simp
  | nil =>
    simp only [haccepting, Bool.true_and, hsenders, and_true]
    by_cases hk : sub.key ∈ gone <;> simp [hk]

end

/-- While registry `g` is changed only by opening and ending subscriptions and by detaching them,
whatever else happens, those attached to it are the subscriptions alive that were not detached.
Identifiers have 128 bits, so it is assumed that none is given out twice. -/
theorem mirrors_the_living {retention : Nat} {acts : List Action} {r : Relay} {g : Nat}
    (h : (new retention).after acts = some r)
    (hid : (((new retention).observe opened acts).map Subscription.id).Nodup)
    (ht : Tends g (new retention) [] acts) :
    r.Reflects g ((new retention).alive acts) (acts.flatMap detached) := by
  have hmirrors := mirrors_of_after h hid ht
  have hplaced := placed_of_after h g
  let here := present g ((new retention).alive acts) (acts.flatMap detached)
  have hids : (here.map Subscription.id).Nodup :=
    hid.sublist ((List.filter_sublist.trans List.filter_sublist).map _)
  have hpairs : (here.map fun sub => (sub.channel, sub.id)).Nodup := by
    refine List.Nodup.of_map Prod.snd ?_
    rw [List.map_map]
    exact hids
  have hattached : (r.registry g).attached.Perm (here.map fun sub => (sub.channel, sub.id)) := by
    refine (List.perm_ext_iff_of_nodup hplaced.nodup_attached hpairs).2 fun (c, id) => ?_
    rw [hplaced.mem_attached, List.mem_map]
    simp only [Prod.mk.injEq]
    exact hmirrors.attached_iff
  have hchannels : (r.registry g).channels.Perm (here.map Subscription.channel).dedup := by
    refine (List.perm_ext_iff_of_nodup hplaced.nodup_channels (List.nodup_dedup _)).2 fun c => ?_
    rw [hplaced.mem_channels, List.mem_dedup, List.mem_map]
    constructor
    · intro hc
      obtain ⟨id, hk⟩ := hc
      obtain ⟨sub, hs, rfl, -⟩ := hmirrors.attached_iff.1 hk
      exact ⟨sub, hs, rfl⟩
    · intro hc
      obtain ⟨sub, hs, rfl⟩ := hc
      exact ⟨sub.id, hmirrors.attached_iff.2 ⟨sub, hs, rfl, rfl⟩⟩
  refine ⟨hattached, fun b hb => ?_, fun b c e => rejected_of_error, fun sub hs hg => ?_⟩
  · simp only [stats, Registry.stats, hb]
    exact ⟨hattached.length_eq.trans (List.length_map _), hchannels.length_eq⟩
  · rw [alive, List.mem_filter, decide_eq_true_eq] at hs
    exact hmirrors.ended_iff hs.1 hs.2 hg

/-- Of two subscribers of a channel one is detached explicitly, a feed of another channel fails, and
the broker closes. -/
def oneStays : List Action :=
  [.addRegistry 1, .addBroker { workers := 1 } 0, .subscribe 0 ⟨"a", "k"⟩,
    .serve 0 ⟨"a", "j"⟩ (.upTo 0 .closed) false, .subscribe 0 ⟨"a", "k"⟩,
    .dispatch 0 ⟨"a", "j"⟩ (Binary.encode (.object .create 1)), .step (.feed 0) .proceed,
    .detach 0 ⟨"a", "k"⟩ (.fresh 0), .submit 0 .close 0, .step (.call 0) .proceed]

theorem mirrors_the_living_of_oneStays : ∃ r, (new 1).after oneStays = some r ∧
    (((new 1).observe opened oneStays).map Subscription.id).Nodup ∧ Tends 0 (new 1) [] oneStays ∧
    (r.registry 0).attached.Perm [(⟨"a", "k"⟩, .fresh 2)] ∧
    (r.stats 0).subscribers = 1 ∧ (r.stats 0).channels = 1 ∧
    (r.take ⟨0, ⟨"a", "k"⟩, .fresh 0, 0⟩).1 = .disconnected ∧
    (r.take ⟨0, ⟨"a", "k"⟩, .fresh 2, 2⟩).1 ≠ .disconnected := by
  have hrun : ((new 1).after oneStays).map (fun r => ((r.broker 0).registry, (r.broker 0).closed,
      r.mailboxes.buffer 0)) = some (0, true, []) := by
    decide +kernel
  obtain ⟨r, hr, heq⟩ := Option.map_eq_some_iff.1 hrun
  simp only [Prod.mk.injEq] at heq
  obtain ⟨hregistry, -, hbuffer⟩ := heq
  have hid : (((new 1).observe opened oneStays).map Subscription.id).Nodup := by decide +kernel
  have htends : Tends 0 (new 1) [] oneStays := by decide +kernel
  have halive : (new 1).alive oneStays =
      [⟨0, ⟨"a", "k"⟩, .fresh 0, 0⟩, ⟨0, ⟨"a", "k"⟩, .fresh 2, 2⟩] := by
    decide +kernel
  have hgone : oneStays.flatMap detached = [(0, ⟨"a", "k"⟩, .fresh 0)] := by decide +kernel
  have hmirrors := mirrors_the_living hr hid htends
  rw [halive, hgone] at hmirrors
  obtain ⟨hsubscribers, hchannels⟩ := hmirrors.stats 0 hregistry
  refine ⟨r, hr, hid, htends, hmirrors.attached, hsubscribers, hchannels, ?_, fun hend => ?_⟩
  · exact (hmirrors.ended _ List.mem_cons_self rfl).2 ⟨by decide, hbuffer⟩
  · have hin := ((hmirrors.ended _ (List.mem_cons_of_mem _ List.mem_cons_self) rfl).1 hend).1
    revert hin
    decide

end Relay
end EventRelay
