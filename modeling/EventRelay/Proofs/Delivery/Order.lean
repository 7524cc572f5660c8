import EventRelay.Proofs.Delivery.Subscribers
import Mathlib.Data.List.Sort
/-!
The order in which the subscribers of a channel get its records. Main statement:
`delivers_in_order`, for a registry that is fed by the lanes of one broker.
-/
namespace EventRelay

/-- The records of a channel that one incarnation of its topic took, in the order of the log. -/
def channelRecords (hist : List (Nat × Record)) (i : Nat) (c : Channel) : List Record :=
  (hist.filter fun x => x.1 = i ∧ x.2.topic = c.topic ∧ x.2.key = c.name).map Prod.snd

theorem mem_channelRecords {hist : List (Nat × Record)} {i : Nat} {c : Channel} {rec : Record} :
    rec ∈ channelRecords hist i c ↔
      (i, rec) ∈ hist ∧ rec.topic = c.topic ∧ rec.key = c.name := by
  simp [channelRecords]

def Handover.record (e : Handover) : Nat × Record :=
  (e.place.incarnation,
    ⟨e.channel.topic, e.place.partition, e.place.offset, e.channel.name, e.payload⟩)

namespace Log

/-- The topic was created with the same number of partitions every time. -/
def Even (l : Log) (t : String) : Prop :=
  ∀ (i j : Nat) (inc inc' : Incarnation), l.incarnations[i]? = some inc →
    l.incarnations[j]? = some inc' → inc.topic = t → inc'.topic = t →
    inc.partitions.size = inc'.partitions.size

section
variable {l : Log} {retention : Nat} {hist : List (Nat × Record)} {c : Channel}

theorem Keeps.same_partition (h : l.Keeps retention hist) {i : Nat} {rec rec' : Record}
    (hrec : (i, rec) ∈ hist) (hrec' : (i, rec') ∈ hist) (hk : rec.key = rec'.key) :
    rec.partition = rec'.partition := by
  obtain ⟨inc, hinc, -, hp⟩ := h.source i rec hrec
  obtain ⟨inc', hinc', -, hp'⟩ := h.source i rec' hrec'
  rw [hinc, Option.some.injEq] at hinc'
  rw [hp, hp', hk, hinc']

theorem Keeps.same_partition_of_even (h : l.Keeps retention hist) {i j : Nat} {rec rec' : Record}
    (hrec : (i, rec) ∈ hist) (hrec' : (j, rec') ∈ hist) (hk : rec.key = rec'.key)
    (ht : rec.topic = rec'.topic) (he : l.Even rec.topic) : rec.partition = rec'.partition := by
  obtain ⟨inc, hinc, htopic, hp⟩ := h.source i rec hrec
  obtain ⟨inc', hinc', htopic', hp'⟩ := h.source j rec' hrec'
  rw [hp, hp', hk, he i j inc inc' hinc hinc' htopic.symm (ht.trans htopic').symm]

theorem Keeps.channelRecords_ordered (h : l.Keeps retention hist) (i : Nat) (c : Channel) :
    (channelRecords hist i c).Pairwise fun x y => x.offset < y.offset := by
  cases hfirst : channelRecords hist i c with
  | nil => exact .nil
  | cons rec rest =>
    rw [← hfirst]
    have hrec : rec ∈ channelRecords hist i c := by
      rw [hfirst]
      exact List.mem_cons_self
    obtain ⟨hmem, -, hkey⟩ := mem_channelRecords.1 hrec
    -- They are some of the records of the partition that took the first one.
    have hsub : (channelRecords hist i c).Sublist (recordsAt hist i rec.partition) := by
      refine List.Sublist.map _ ?_
      have hboth : (hist.filter fun x => x.1 = i ∧ x.2.topic = c.topic ∧ x.2.key = c.name) =
          (hist.filter fun x => x.1 = i ∧ x.2.partition = rec.partition).filter fun x =>
            x.2.topic = c.topic ∧ x.2.key = c.name := by
        rw [List.filter_filter]
        refine List.filter_congr fun x hx => ?_
        obtain ⟨j, y⟩ := x
        simp only [← Bool.decide_and, decide_eq_decide]
        constructor
        · intro hall
          obtain ⟨rfl, htopic, hk⟩ := hall
          exact ⟨⟨htopic, hk⟩, rfl, h.same_partition hx hmem (hk.trans hkey.symm)⟩
        · intro hall
          obtain ⟨hchannel, hi, -⟩ := hall
          exact ⟨hi, hchannel⟩
      rw [hboth]
      exact List.filter_sublist
    exact (h.pairwise_offset i rec.partition).sublist hsub

theorem Keeps.sublist_channelRecords (h : l.Keeps retention hist) {i : Nat} {recs : List Record}
    (hs : recs ⊆ channelRecords hist i c)
    (ho : recs.Pairwise fun x y => x.offset < y.offset) :
    recs.Sublist (channelRecords hist i c) := by
  have hantisymm : Std.Antisymm fun x y : Record => x.offset < y.offset :=
    ⟨fun x y hxy hyx => absurd hxy (Nat.lt_asymm hyx)⟩
  have hn : recs.Nodup := ho.imp fun hlt heq => Nat.ne_of_lt hlt (congrArg Record.offset heq)
  exact List.sublist_of_subperm_of_pairwise (List.subperm_of_subset hn hs) ho
    (h.channelRecords_ordered i c)

/-- Records of the channel, in the order of the log as far as it orders them. -/
structure Sent (hist : List (Nat × Record)) (c : Channel) (sent : List (Nat × Record)) :
    Prop where
  mem : ∀ x ∈ sent, x.2 ∈ channelRecords hist x.1 c
  ordered : sent.Pairwise fun x y =>
    x.2.partition = y.2.partition → x.1 = y.1 ∧ x.2.offset < y.2.offset

theorem Sent.nodup {sent : List (Nat × Record)} (hs : Sent hist c sent) : sent.Nodup := by
  refine hs.ordered.imp fun hxy heq => ?_
  subst heq
  exact Nat.lt_irrefl _ (hxy rfl).2

theorem Sent.source (h : l.Keeps retention hist) {sent : List (Nat × Record)}
    (hs : Sent hist c sent) (i : Nat) :
    ((sent.filter fun x => x.1 = i).map Prod.snd).Sublist (channelRecords hist i c) := by
  have hmem : ∀ x ∈ sent.filter fun x => x.1 = i, x.2 ∈ channelRecords hist i c := by
    intro x hx
    obtain ⟨hx, hi⟩ := List.mem_filter.1 hx
    rw [← of_decide_eq_true hi]
    exact hs.mem x hx
  apply h.sublist_channelRecords
  · intro rec hrec
    obtain ⟨x, hx, rfl⟩ := List.mem_map.1 hrec
    exact hmem x hx
  · apply List.pairwise_map.2
    refine (hs.ordered.filter _).imp_of_mem fun hx hy hxy => ?_
    obtain ⟨hx, -, hk⟩ := mem_channelRecords.1 (hmem _ hx)
    obtain ⟨hy, -, hk'⟩ := mem_channelRecords.1 (hmem _ hy)
    exact (hxy (h.same_partition hx hy (hk.trans hk'.symm))).2

theorem Sent.single (h : l.Keeps retention hist) {sent : List (Nat × Record)}
    (hs : Sent hist c sent) (he : l.Even c.topic) :
    ∃ i, (sent.map Prod.snd).Sublist (channelRecords hist i c) := by
  cases sent with
  | nil => exact ⟨0, List.nil_sublist _⟩
  | cons x rest =>
    obtain ⟨hx, ht, hk⟩ := mem_channelRecords.1 (hs.mem x List.mem_cons_self)
    -- All of them are in the partition, and so in the incarnation, of the first one.
    have hall : ∀ y ∈ x :: rest, y.1 = x.1 := by
      intro y hy
      cases List.mem_cons.1 hy with
      | inl heq => rw [heq]
      | inr hrest =>
        obtain ⟨hy, ht', hk'⟩ := mem_channelRecords.1 (hs.mem y hy)
        have hp := h.same_partition_of_even hx hy (hk.trans hk'.symm) (ht.trans ht'.symm)
          (ht ▸ he)
        exact (List.rel_of_pairwise_cons hs.ordered hrest hp).1.symm
    have hsource := hs.source h x.1
    rw [List.filter_eq_self.2 fun y hy => decide_eq_true (hall y hy)] at hsource
    exact ⟨x.1, hsource⟩

end
end Log

namespace Relay

section
variable (retention : Nat) (acts : List Action) (g : Nat) (c : Channel)

def handoversTo : List Handover :=
  ((new retention).observe handed acts).filter fun e => e.registry = g ∧ e.channel = c

def subscriptionsTo : List Subscription :=
  ((new retention).observe opened acts).filter fun sub => sub.registry = g ∧ sub.channel = c

end

/-- Registry `g` is fed by the lanes of broker `b` alone when `acts` have led to `r`. -/
structure FedBy (acts : List Action) (r : Relay) (g b : Nat) : Prop where
  indirect : ∀ c payload, .dispatch g c payload ∉ acts
  alone : ∀ b', b' < r.brokers.size → (r.broker b').registry = g → b' = b

/-- The brokers have `n` workers, and others create topics with `n` partitions. -/
structure CreatesWith (acts : List Action) (r : Relay) (n : Nat) : Prop where
  others : ∀ t m, .create t m ∈ acts → m = n
  brokers : ∀ b, b < r.brokers.size → (r.broker b).config.workers = n

/-- The subscriptions on channel `c` of registry `g` accept parts of `sent`, which lists records of
the channel in the order of the log. -/
structure InOrder (retention : Nat) (acts : List Action) (r : Relay) (g : Nat) (c : Channel)
    (sent : List (Nat × Record)) (took : Subscription → List (Nat × Record)) : Prop where
  offsets : ∀ i, (channelRecords ((new retention).history acts) i c).Pairwise
    fun x y => x.offset < y.offset
  /-- Of each incarnation of the topic some records are sent, in the order of their offsets. -/
  source : ∀ i, ((sent.filter fun x => x.1 = i).map Prod.snd).Sublist
    (channelRecords ((new retention).history acts) i c)
  /-- It is one incarnation, if its topic always has the same number of partitions. -/
  single : r.log.Even c.topic → ∃ i, (sent.map Prod.snd).Sublist
    (channelRecords ((new retention).history acts) i c)
  even : ∀ n, CreatesWith acts r n → r.log.Even c.topic
  once : sent.Nodup
  part : ∀ sub ∈ subscriptionsTo retention acts g c, (took sub).Sublist sent
  decoded : ∀ sub ∈ subscriptionsTo retention acts g c,
    (took sub).map (fun x => Binary.decode x.2.value) =
      ((new retention).observe (accepted sub.mailbox) acts).map .ok
  /-- Two subscribers get what both get in the same order. -/
  common : ∀ sub ∈ subscriptionsTo retention acts g c,
    ∀ sub' ∈ subscriptionsTo retention acts g c,
      (took sub).filter (· ∈ took sub') = (took sub').filter (· ∈ took sub)
  /-- What waits in a mailbox is the end of what it accepted. -/
  held : ∀ sub ∈ subscriptionsTo retention acts g c, r.mailboxes.buffer sub.mailbox <:+
    (new retention).observe (accepted sub.mailbox) acts

section
variable {retention : Nat} {acts : List Action} {r : Relay} {g b : Nat} {c : Channel}

theorem filter_mem_comm {α : Type} [BEq α] [LawfulBEq α] {xs ys zs : List α} (hn : zs.Nodup)
    (hx : xs.Sublist zs) (hy : ys.Sublist zs) : xs.filter (· ∈ ys) = ys.filter (· ∈ xs) := by
  have hxs : (xs.filter (· ∈ ys)).Sublist zs := List.filter_sublist.trans hx
  have hys : (ys.filter (· ∈ xs)).Sublist zs := List.filter_sublist.trans hy
  refine (hn.perm_iff_eq_of_sublist hxs hys).1 ?_
  refine (List.perm_ext_iff_of_nodup (hn.sublist hxs) (hn.sublist hys)).2 fun x => ?_
  simp [and_comm]

theorem dispatchesTo_handed (hd : ∀ c payload, .dispatch g c payload ∉ acts)
    {sub : Subscription} (hg : sub.registry = g) (hc : sub.channel = c) :
    dispatchesTo ((new retention).observe dispatched acts) sub =
      (handoversTo retention acts g c).map Handover.dispatch := by
  have hhanded (es : List Handover) : dispatchesTo (es.map Handover.dispatch) sub =
      (es.filter fun e => e.registry = g ∧ e.channel = c).map Handover.dispatch := by
    rw [dispatchesTo, List.filter_map, hg, hc]
    rfl
  rw [handoversTo, ← hhanded,
    observe_map dispatched (g := fun ds => dispatchesTo ds sub) rfl
      fun ds ds' => dispatchesTo_append ds ds' sub,
    observe_map handed (g := fun es => dispatchesTo (es.map Handover.dispatch) sub) rfl
      fun es es' => by rw [List.map_append, dispatchesTo_append]]
  refine observe_congr fun s a ha => ?_
  cases a with
  | dispatch g' d payload =>
    have hne : ¬g' = g := by
      intro heq
      exact hd d payload (heq ▸ ha)
    simp [dispatched, handed, dispatchesTo, hg, hne]
  | _ => rfl

theorem handovers_of_subscription (h : (new retention).after acts = some r)
    (hd : ∀ c payload, .dispatch g c payload ∉ acts) {sub : Subscription}
    (hs : sub ∈ subscriptionsTo retention acts g c) :
    ∃ es : List Handover, es.Sublist (handoversTo retention acts g c) ∧
      es.map (fun e => Binary.decode e.payload) =
        ((new retention).observe (accepted sub.mailbox) acts).map .ok := by
  obtain ⟨hopened, hsub⟩ := List.mem_filter.1 hs
  obtain ⟨hg, hc⟩ := of_decide_eq_true hsub
  obtain ⟨ds, hds, hdecoded⟩ := (supplied_of_after h).part sub hopened
  rw [dispatchesTo_handed hd hg hc] at hds
  obtain ⟨es, hes, rfl⟩ := List.sublist_map_iff.1 hds
  rw [List.map_map] at hdecoded
  exact ⟨es, hes, hdecoded⟩

theorem sent_handovers (h : (new retention).after acts = some r) (hf : FedBy acts r g b) :
    Log.Sent ((new retention).history acts) c
      ((handoversTo retention acts g c).map Handover.record) := by
  have htrace := handedTo_of_after h
  have hto : ∀ e ∈ handoversTo retention acts g c,
      e ∈ (new retention).observe handed acts ∧ e.registry = g ∧ e.channel = c := by
    intro e he
    simpa only [handoversTo, List.mem_filter, decide_eq_true_eq] using he
  constructor
  · intro x hx
    obtain ⟨e, he, rfl⟩ := List.mem_map.1 hx
    obtain ⟨hmem, -, hc⟩ := hto e he
    obtain ⟨rec, hrec, hchannel, hpayload⟩ := htrace.source e hmem
    obtain ⟨hhist, hp⟩ := mem_recordsAt.1 (List.mem_of_getElem? hrec)
    have ho := (valid_of_after h).log.offset hrec
    have hsame : e.record = (e.place.incarnation, rec) := by
      simp only [Handover.record, hchannel, hpayload, ← ho, ← hp]
    rw [hsame, ← hc, hchannel]
    exact mem_channelRecords.2 ⟨hhist, rfl, rfl⟩
  · have hbroker : ∀ e ∈ handoversTo retention acts g c, e.broker = b := by
      intro e he
      obtain ⟨hmem, hg, -⟩ := hto e he
      refine hf.alone e.broker (size_of_mem (htrace.known e hmem)) ?_
      rw [← htrace.registry e hmem, hg]
    apply List.pairwise_map.2
    refine (htrace.ordered.filter _).imp_of_mem fun he he' hbefore hp => ?_
    have hchannel := (hto _ he).2.2.trans (hto _ he').2.2.symm
    exact hbefore ((hbroker _ he).trans (hbroker _ he').symm) (by rw [hchannel]) hp

end

theorem size_of_createsWith {retention : Nat} {acts : List Action} {r : Relay} {n : Nat}
    (h : (new retention).after acts = some r) (hc : CreatesWith acts r n) (i : Nat)
    (inc : Incarnation) (hi : r.log.incarnations[i]? = some inc) : inc.partitions.size = n := by
  induction h using after_induct generalizing i inc with
  | start => cases hi
  | next acts q a s hq ha ih =>
    have hv := valid_of_after hq
    have hlater := hv.later (hv.change ha)
    have hbefore : CreatesWith acts q n := by
      refine ⟨fun t m hm => hc.others t m (List.mem_append_left _ hm), fun b hb => ?_⟩
      rw [← hlater.config b hb]
      exact hc.brokers b (Nat.lt_of_lt_of_le hb hlater.size)
    have hold := ih hbefore
    cases (hv.change ha).logChange hv with
    | same hl _ =>
      rw [hl] at hi
      exact hold i inc hi
    | @creates t m hl _ hm =>
      obtain ⟨-, -, ⟨-, heq⟩ | ⟨hpos, -, heq⟩⟩ := Log.create_ok hl
      · rw [heq] at hi
        exact hold i inc hi
      · rw [heq] at hi
        simp only [Array.getElem?_push] at hi
        split at hi
        · have hsize : inc.partitions.size = m := by
            cases hi
            exact Array.size_replicate
          rw [hsize]
          obtain rfl | ⟨b, hb, rfl⟩ := hm
          · exact hc.others t m (List.mem_append_right _ (List.mem_singleton_self _))
          · exact hbefore.brokers b hb
        · exact hold i inc hi
    | deletes hl _ _ =>
      obtain ⟨-, heq⟩ := Log.delete_ok hl
      rw [heq] at hi
      exact hold i inc hi
    | appends hl _ =>
      rw [hl.incarnations] at hi
      split at hi
      · obtain ⟨-, -, hj⟩ := Log.find_eq_ok.1 hl.find
        cases hi
        rw [hl.partitions, Array.size_setIfInBounds]
        exact hold _ _ hj
      · exact hold i inc hi
    | closes hl _ =>
      rw [hl] at hi
      exact hold i inc hi

theorem even_of_createsWith {retention : Nat} {acts : List Action} {r : Relay} {n : Nat}
    (h : (new retention).after acts = some r) (hc : CreatesWith acts r n) (t : String) :
    r.log.Even t := by
  intro i j inc inc' hi hj _ _
  rw [size_of_createsWith h hc i inc hi, size_of_createsWith h hc j inc' hj]

theorem delivers_in_order {retention : Nat} {acts : List Action} {r : Relay} {g b : Nat}
    (h : (new retention).after acts = some r) (hf : FedBy acts r g b) (c : Channel) :
    ∃ sent took, InOrder retention acts r g c sent took := by
  have hv := valid_of_after h
  have hsent := sent_handovers (c := c) h hf
  have hparts : ∀ sub, ∃ es : List Handover, sub ∈ subscriptionsTo retention acts g c →
      es.Sublist (handoversTo retention acts g c) ∧
      es.map (fun e => Binary.decode e.payload) =
        ((new retention).observe (accepted sub.mailbox) acts).map .ok := by
    intro sub
    by_cases hs : sub ∈ subscriptionsTo retention acts g c
    · obtain ⟨es, hes⟩ := handovers_of_subscription h hf.indirect hs
      exact ⟨es, fun _ => hes⟩
    · exact ⟨[], fun hin => absurd hin hs⟩
  choose es hes using hparts
  have hpart : ∀ sub ∈ subscriptionsTo retention acts g c,
      ((es sub).map Handover.record).Sublist
        ((handoversTo retention acts g c).map Handover.record) :=
    fun sub hs => (hes sub hs).1.map _
  exact ⟨_, fun sub => (es sub).map Handover.record, {
    offsets := fun i => hv.log.channelRecords_ordered i c
    source := hsent.source hv.log
    single := hsent.single hv.log
    even := fun n hn => even_of_createsWith h hn c.topic
    once := hsent.nodup
    part := hpart
    decoded := fun sub hs => by rw [List.map_map]; exact (hes sub hs).2
    common := fun sub hs sub' hs' => filter_mem_comm hsent.nodup (hpart sub hs) (hpart sub' hs')
    held := fun sub _ => (supplied_of_after h).held sub.mailbox }⟩

/-- Two subscribers of one channel, and room for one message in the mailbox of each. The first one
takes its message before the next comes. -/
def twoSubscribers : List Action :=
  let payload := fun id => Binary.encode (.object .create id)
  [.addRegistry 1, .addBroker { workers := 1, maxTopics := 1, subscriberBuffer := 1 } 0,
    .subscribe 0 ⟨"a", "k"⟩, .subscribe 0 ⟨"a", "k"⟩,
    .submit 0 (.publish [⟨⟨"a", "k"⟩, payload 1⟩, ⟨⟨"a", "x"⟩, payload 2⟩,
      ⟨⟨"a", "k"⟩, payload 3⟩]) 0,
    .step (.call 0) .proceed, .step (.call 0) .proceed, .step (.call 0) .proceed,
    .step (.call 0) .proceed, .step (.call 0) .proceed, .step (.call 0) .proceed,
    .step (.lane 0) .proceed, .take ⟨0, ⟨"a", "k"⟩, .fresh 0, 0⟩,
    .step (.lane 0) .proceed, .step (.lane 0) .proceed]

/-- The second subscriber misses a message for which it has no room; the order stays. -/
theorem delivers_in_order_of_lag : ∃ r sent took, (new 4).after twoSubscribers = some r ∧
    InOrder 4 twoSubscribers r 0 ⟨"a", "k"⟩ sent took ∧ r.log.Even "a" ∧
    (subscriptionsTo 4 twoSubscribers 0 ⟨"a", "k"⟩).map (·.mailbox) = [0, 1] ∧
    (new 4).observe (accepted 0) twoSubscribers = [.object .create 1, .object .create 3] ∧
    (new 4).observe (accepted 1) twoSubscribers = [.object .create 1] := by
  have hrun : ((new 4).after twoSubscribers).map (fun r =>
      (r.brokers.size, (r.broker 0).config.workers)) = some (1, 1) := by decide +kernel
  obtain ⟨r, hr, heq⟩ := Option.map_eq_some_iff.1 hrun
  simp only [Prod.mk.injEq] at heq
  obtain ⟨hsize, hworkers⟩ := heq
  have hbroker : ∀ b, b < r.brokers.size → b = 0 := by
    intro b hb
    omega
  have hnone : ∀ a ∈ twoSubscribers, (match a with
      | .dispatch .. | .create .. => false
      | _ => true) = true := by decide +kernel
  obtain ⟨sent, took, hin⟩ := delivers_in_order (g := 0) (b := 0) hr
    ⟨fun c payload hm => by simpa using hnone _ hm, fun b hb _ => hbroker b hb⟩ ⟨"a", "k"⟩
  have heven := hin.even 1 ⟨fun t m hm => by simpa using hnone _ hm, fun b hb => by
    rw [hbroker b hb, hworkers]⟩
  exact ⟨r, sent, took, hr, hin, heven, by decide +kernel, by decide +kernel, by decide +kernel⟩

end Relay
end EventRelay
