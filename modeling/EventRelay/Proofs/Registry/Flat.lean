import EventRelay.Proofs.Registry.Offers
import EventRelay.Proofs.Registry.Shards
import EventRelay.Relay.Basic
import Mathlib.Data.List.Dedup
import Mathlib.Data.List.Perm.Basic
/-!
A registry acts as one flat table of channels with their subscribers: neither the number of shards
nor the order of subscribers within a channel shows. Main statement: `acts_as_one_table`.
-/
namespace EventRelay

namespace Mailboxes

theorem modify_comm (t : Mailboxes) {j k : Nat} (hjk : j ≠ k) (f g : Mailbox → Mailbox) :
    (t.modify j f).modify k g = (t.modify k g).modify j f := by
  refine congrArg Mailboxes.mk (Array.ext_getElem? fun i => ?_)
  simp only [modify, Array.getElem?_modify]
  by_cases hj : j = i
  · have hk : k ≠ i := fun hk => hjk (hj.trans hk.symm)
    simp only [if_pos hj, if_neg hk]
  · simp only [if_neg hj]

theorem deliver_modify (t : Mailboxes) {j k : Nat} (hjk : j ≠ k) (f : Mailbox → Mailbox)
    (m : Event) :
    (t.modify j f).deliver k m = (t.deliver k m).map fun t => t.modify j f := by
  unfold deliver
  rw [get?_modify, if_neg hjk]
  cases t.get? k with
  | none => rfl
  | some b =>
    dsimp only
    cases b.deliver m with
    | error e => rfl
    | ok b' => exact congrArg Except.ok (t.modify_comm hjk f _)

theorem deliver_eq_modify {t t' : Mailboxes} {k : Nat} {m : Event} (h : t.deliver k m = .ok t') :
    ∃ b, t' = t.modify k fun _ => b := by
  unfold deliver at h
  cases hb : t.get? k with
  | none => rw [hb] at h; cases h
  | some b =>
    simp only [hb] at h
    cases hd : b.deliver m with
    | error e => rw [hd] at h; cases h
    | ok b' => rw [hd] at h; cases h; exact ⟨b', rfl⟩

end Mailboxes

namespace Registry

theorem offer_swap (m : Event) (j k : Nat) (ks : List Nat) (t : Mailboxes) :
    offer m (j :: k :: ks) t = offer m (k :: j :: ks) t := by
  by_cases hjk : j = k
  · rw [hjk]
  · cases hj : t.deliver j m with
    | error e =>
      cases hk : t.deliver k m with
      | error e' => simp only [offer, hj, hk]
      | ok t' =>
        obtain ⟨b, rfl⟩ := Mailboxes.deliver_eq_modify hk
        have hj' := t.deliver_modify (Ne.symm hjk) (fun _ => b) m
        rw [hj] at hj'
        simp only [offer, hj, hk, hj', Except.map]
    | ok t' =>
      obtain ⟨b, rfl⟩ := Mailboxes.deliver_eq_modify hj
      have hk' := t.deliver_modify hjk (fun _ => b) m
      cases hk : t.deliver k m with
      | error e =>
        rw [hk] at hk'
        simp only [offer, hj, hk, hk', Except.map]
      | ok t'' =>
        obtain ⟨b', rfl⟩ := Mailboxes.deliver_eq_modify hk
        have hj' := t.deliver_modify (Ne.symm hjk) (fun _ => b') m
        rw [hj] at hj'
        rw [hk] at hk'
        simp only [offer, hj, hk, hj', hk', Except.map, t.modify_comm hjk]

theorem offer_perm (m : Event) {ks ks' : List Nat} (h : ks.Perm ks') (t : Mailboxes) :
    offer m ks t = offer m ks' t := by
  induction h generalizing t with
  | nil => rfl
  | cons k _ ih => simp only [offer, ih]
  | swap j k ks => exact offer_swap m k j ks t
  | trans _ _ ih ih' => exact (ih t).trans (ih' t)

end Registry

/-- A registry without shards: one table of channels, each with one of its subscribers, and their
mailboxes. -/
structure Flat where
  table : Table (Channel × SubscriberId) Nat := .empty
  delivered : UInt64 := 0
  refused : UInt64 := 0
  undecodable : UInt64 := 0

namespace Flat

def members (f : Flat) (c : Channel) : List (SubscriberId × Nat) :=
  (f.table.entries.filter fun e => e.1.1 = c).map fun e => (e.1.2, e.2)

def channels (f : Flat) : List Channel := (f.table.keys.map Prod.fst).dedup

def attach (f : Flat) (boxes : Mailboxes) (c : Channel) (id : SubscriberId) (box : Nat) :
    Flat × Mailboxes :=
  let boxes := boxes.addSender box
  let boxes := match f.table.find? (c, id) with
    | some old => boxes.dropSender old
    | none => boxes
  ({ f with table := f.table.insert (c, id) box }, boxes)

def detach (f : Flat) (boxes : Mailboxes) (c : Channel) (id : SubscriberId) :
    Bool × Flat × Mailboxes :=
  match f.table.find? (c, id) with
  | some box => (true, { f with table := f.table.erase (c, id) }, boxes.dropSender box)
  | none => (false, f, boxes)

def dispatch (f : Flat) (boxes : Mailboxes) (c : Channel) (payload : List UInt8) :
    Nat × Flat × Mailboxes :=
  if (f.members c).isEmpty then (0, f, boxes)
  else match Binary.decode payload with
    | .error _ => (0, { f with undecodable := f.undecodable + 1 }, boxes)
    | .ok event =>
      let (n, k, boxes) := Registry.offer event ((f.members c).map Prod.snd) boxes
      let f := { f with
        delivered := f.delivered + n.toUInt64
        refused := f.refused + k.toUInt64 }
      (n, f, boxes)

/-- A message went to channel `c`: each mailbox was offered it as often as it is attached there, and
the others stay as they are. All who were offered the message are counted, by whether they took
it; where no mailbox is attached twice, those with room did. -/
structure Delivers (f : Flat) (t : Mailboxes) (c : Channel) (m : Event)
    (result : Nat × Flat × Mailboxes) : Prop where
  offered : ∀ box, result.2.2.get? box =
    (t.get? box).map (Mailbox.offered m)^[((f.members c).map Prod.snd).count box]
  taken : ((f.members c).map Prod.snd).Nodup →
    result.1 = ((f.members c).map Prod.snd).countP t.takes
  counted : ∃ k, result.1 + k = (f.members c).length ∧ result.2.1 = { f with
    delivered := f.delivered + result.1.toUInt64
    refused := f.refused + k.toUInt64 }

theorem delivers_dispatch {payload : List UInt8} {m : Event} (h : Binary.decode payload = .ok m)
    (f : Flat) (t : Mailboxes) (c : Channel) : f.Delivers t c m (f.dispatch t c payload) := by
  unfold dispatch
  by_cases hm : (f.members c).isEmpty
  · have hnil := List.isEmpty_iff.1 hm
    have hzero : Nat.toUInt64 0 = 0 := rfl
    rw [if_pos hm]
    refine ⟨fun box => ?_, fun _ => ?_, 0, by rw [hnil]; rfl, ?_⟩
    · rw [hnil]
      exact Option.map_id_apply.symm
    · rw [hnil]
      rfl
    · simp only [hzero, UInt64.add_zero]
  · simp only [if_neg hm, h]
    refine ⟨fun box => Registry.get?_offer_count m _ box t,
      fun hdistinct => Registry.offer_taken m hdistinct t, _, ?_, rfl⟩
    rw [Registry.offer_all, List.length_map]

def subscriberCount (f : Flat) (c : Channel) : Nat := (f.members c).length
def channelCount (f : Flat) : Nat := f.channels.length

def stats (f : Flat) : Stats where
  topics := 0
  lanes := 0
  channels := f.channelCount
  subscribers := f.table.size
  published := 0
  delivered := f.delivered
  refused := f.refused
  undecodable := f.undecodable

theorem mem_members {f : Flat} {c : Channel} {id : SubscriberId} {box : Nat} :
    (id, box) ∈ f.members c ↔ f.table.find? (c, id) = some box := by
  rw [← Table.mem_entries]
  simp only [members, List.mem_map, List.mem_filter, decide_eq_true_eq, Prod.exists, Prod.mk.injEq]
  constructor
  · intro h
    obtain ⟨d, id', box', ⟨he, rfl⟩, rfl, rfl⟩ := h
    exact he
  · exact fun he => ⟨c, id, box, ⟨he, rfl⟩, rfl, rfl⟩

theorem nodup_members (f : Flat) (c : Channel) : (f.members c).Nodup := by
  refine ((List.Nodup.of_map _ f.table.nodup).filter _).map_on fun x hx y hy h => ?_
  obtain ⟨⟨d, id⟩, box⟩ := x
  obtain ⟨⟨d', id'⟩, box'⟩ := y
  obtain rfl : d = c := by simpa using (List.mem_filter.1 hx).2
  obtain rfl : d' = d := by simpa using (List.mem_filter.1 hy).2
  obtain ⟨rfl, rfl⟩ := Prod.mk.inj h
  rfl

end Flat

/-- An operation of a registry, or something that happens to the mailboxes meanwhile. -/
inductive Use where
  | attach (c : Channel) (id : SubscriberId) (box : Nat)
  | detach (c : Channel) (id : SubscriberId)
  | dispatch (c : Channel) (payload : List UInt8)
  | subscriberCount (c : Channel)
  | channelCount
  | stats
  | take (box : Nat)
  | elsewhere (f : Mailboxes → Mailboxes)

inductive Answer where
  | done
  | found (b : Bool)
  | count (n : Nat)
  | stats (s : Stats)
  | taken (m : Taken)

def Registry.use (r : Registry) (t : Mailboxes) : Use → Answer × Registry × Mailboxes
  | .attach c id box => (.done, r.attach t c id box)
  | .detach c id => let (found, rest) := r.detach t c id; (.found found, rest)
  | .dispatch c payload => let (n, rest) := r.dispatch t c payload; (.count n, rest)
  | .subscriberCount c => (.count (r.subscriberCount c), r, t)
  | .channelCount => (.count r.channelCount, r, t)
  | .stats => (.stats r.stats, r, t)
  | .take box => let (m, t) := t.take box; (.taken m, r, t)
  | .elsewhere f => (.done, r, f t)

def Flat.use (f : Flat) (t : Mailboxes) : Use → Answer × Flat × Mailboxes
  | .attach c id box => (.done, f.attach t c id box)
  | .detach c id => let (found, rest) := f.detach t c id; (.found found, rest)
  | .dispatch c payload => let (n, rest) := f.dispatch t c payload; (.count n, rest)
  | .subscriberCount c => (.count (f.subscriberCount c), f, t)
  | .channelCount => (.count f.channelCount, f, t)
  | .stats => (.stats f.stats, f, t)
  | .take box => let (m, t) := t.take box; (.taken m, f, t)
  | .elsewhere g => (.done, f, g t)

def useAll {σ : Type} (use : σ → Mailboxes → Use → Answer × σ × Mailboxes) :
    List Use → σ → Mailboxes → List Answer × σ × Mailboxes
  | [], s, t => ([], s, t)
  | u :: us, s, t =>
    let (a, s, t) := use s t u
    let (as, s, t) := useAll use us s t
    (a :: as, s, t)

namespace Registry

/-- The registry `r`, with `n` shards, holds what the flat table `f` holds. -/
structure Holds (n : Nat) (r : Registry) (f : Flat) : Prop where
  workers : r.workers = n
  placed : r.Placed
  find? : ∀ c id, (r.members c).find? id = f.table.find? (c, id)
  delivered : r.delivered = f.delivered
  refused : r.refused = f.refused
  undecodable : r.undecodable = f.undecodable

theorem holds_new (workers : Nat) : Holds (max workers 1) (new workers) {} where
  workers := Array.size_replicate
  placed := placed_new workers
  find? c id := by rw [members_new]; rfl
  delivered := rfl
  refused := rfl
  undecodable := rfl

namespace Holds
variable {n : Nat} {r : Registry} {f : Flat}

theorem perm_members (h : Holds n r f) (c : Channel) :
    (r.members c).entries.Perm (f.members c) :=
  (List.perm_ext_iff_of_nodup (List.Nodup.of_map _ (r.members c).nodup) (f.nodup_members c)).2
    fun (id, box) => by rw [Table.mem_entries, Flat.mem_members, h.find?]

theorem channelCount (h : Holds n r f) : r.channelCount = f.channelCount := by
  refine ((List.perm_ext_iff_of_nodup h.placed.nodup_channels (List.nodup_dedup _)).2
    fun c => ?_).length_eq
  rw [h.placed.mem_channels]
  simp only [List.mem_dedup, List.mem_map, Prod.exists, exists_and_right, exists_eq_right,
    Table.mem_keys, h.find?]

theorem attachedCount (h : Holds n r f) : r.attachedCount = f.table.size := by
  have hperm : r.attached.Perm f.table.keys :=
    (List.perm_ext_iff_of_nodup h.placed.nodup_attached f.table.nodup).2 fun (c, id) => by
      rw [h.placed.mem_attached, h.find?]
      exact Table.mem_keys.symm
  exact hperm.length_eq.trans (List.length_map _)

theorem attach (h : Holds n r f) (t : Mailboxes) (c : Channel) (id : SubscriberId) (box : Nat) :
    Holds n (r.attach t c id box).1 (f.attach t c id box).1 ∧
      (r.attach t c id box).2 = (f.attach t c id box).2 := by
  refine ⟨⟨?_, h.placed.setMembers c _, fun d id' => ?_, h.delivered, h.refused, h.undecodable⟩, ?_⟩
  · exact (workers_setMembers ..).trans h.workers
  · rw [find?_attach, h.find?]
    simp only [Flat.attach, Table.find?_insert, Prod.mk.injEq]
  · cases hf : f.table.find? (c, id) with
    | none => simp only [Registry.attach, Flat.attach, h.find?, hf]
    | some old => simp only [Registry.attach, Flat.attach, h.find?, hf]

theorem detach (h : Holds n r f) (t : Mailboxes) (c : Channel) (id : SubscriberId) :
    (r.detach t c id).1 = (f.detach t c id).1 ∧
      Holds n (r.detach t c id).2.1 (f.detach t c id).2.1 ∧
      (r.detach t c id).2.2 = (f.detach t c id).2.2 := by
  cases hf : f.table.find? (c, id) with
  | none =>
    simp only [Registry.detach, Flat.detach, h.find?, hf]
    exact ⟨trivial, h, trivial⟩
  | some box =>
    simp only [Registry.detach, Flat.detach, h.find?, hf]
    refine ⟨trivial, ⟨?_, h.placed.setMembers c _, fun d id' => ?_, h.delivered, h.refused,
      h.undecodable⟩, trivial⟩
    · exact (workers_setMembers ..).trans h.workers
    · simp only [members_setMembers, Table.find?_erase, Prod.mk.injEq]
      by_cases hcd : c = d
      · subst hcd
        simp only [if_true, Table.find?_erase, true_and, h.find?]
      · simp only [hcd, if_false, false_and, h.find?]

theorem dispatch (h : Holds n r f) (t : Mailboxes) (c : Channel) (payload : List UInt8) :
    (r.dispatch t c payload).1 = (f.dispatch t c payload).1 ∧
      Holds n (r.dispatch t c payload).2.1 (f.dispatch t c payload).2.1 ∧
      (r.dispatch t c payload).2.2 = (f.dispatch t c payload).2.2 := by
  have hperm := h.perm_members c
  have hempty : (r.members c).isEmpty = (f.members c).isEmpty := hperm.isEmpty_eq
  simp only [Registry.dispatch, Flat.dispatch, hempty]
  by_cases hm : (f.members c).isEmpty
  · rw [if_pos hm, if_pos hm]
    exact ⟨rfl, h, rfl⟩
  · rw [if_neg hm, if_neg hm]
    cases Binary.decode payload with
    | error e =>
      exact ⟨rfl, ⟨h.workers, h.placed, h.find?, h.delivered, h.refused,
        congrArg (· + 1) h.undecodable⟩, rfl⟩
    | ok m =>
      dsimp only
      rw [Table.values, offer_perm m (hperm.map Prod.snd) t, h.delivered, h.refused]
      exact ⟨rfl, ⟨h.workers, h.placed, h.find?, rfl, rfl, h.undecodable⟩, rfl⟩

/-- Registry and table answer alike and do the same to mailboxes, and what the one holds the other
still holds. -/
theorem use (h : Holds n r f) (t : Mailboxes) (u : Use) :
    (r.use t u).1 = (f.use t u).1 ∧ Holds n (r.use t u).2.1 (f.use t u).2.1 ∧
      (r.use t u).2.2 = (f.use t u).2.2 := by
  cases u with
  | attach c id box => exact ⟨rfl, h.attach t c id box⟩
  | detach c id => exact (h.detach t c id).imp_left (congrArg Answer.found)
  | dispatch c payload => exact (h.dispatch t c payload).imp_left (congrArg Answer.count)
  | subscriberCount c => exact ⟨congrArg Answer.count (h.perm_members c).length_eq, h, rfl⟩
  | channelCount => exact ⟨congrArg Answer.count h.channelCount, h, rfl⟩
  | stats =>
    refine ⟨congrArg Answer.stats ?_, h, rfl⟩
    simp only [Registry.stats, Flat.stats, h.channelCount, h.attachedCount, h.delivered, h.refused,
      h.undecodable]
  | take box => exact ⟨rfl, h, rfl⟩
  | elsewhere g => exact ⟨rfl, h, rfl⟩

theorem useAll (h : Holds n r f) (t : Mailboxes) (us : List Use) :
    (useAll Registry.use us r t).1 = (useAll Flat.use us f t).1 ∧
      Holds n (useAll Registry.use us r t).2.1 (useAll Flat.use us f t).2.1 ∧
      (useAll Registry.use us r t).2.2 = (useAll Flat.use us f t).2.2 := by
  induction us generalizing r f t with
  | nil => exact ⟨rfl, h, rfl⟩
  | cons u us ih =>
    obtain ⟨hanswer, hholds, hboxes⟩ := h.use t u
    obtain ⟨hanswers, hrest⟩ := ih hholds (r.use t u).2.2
    simp only [EventRelay.useAll, ← hboxes, hanswer, hanswers]
    exact ⟨trivial, hrest⟩

end Holds

/-- A fresh registry with any number of shards and one flat table give the same answers to the same
uses and do the same to the mailboxes, message for message. So does a registry with another number
of shards, and however a registry is used, each channel it stores lies in the shard of its name
and has a subscriber. What the table delivers next goes to each subscriber of the channel. -/
theorem acts_as_one_table (workers : Nat) (boxes : Mailboxes) (uses : List Use) :
    let (answers, r, t) := useAll Registry.use uses (new workers) boxes
    let (answers', f, t') := useAll Flat.use uses {} boxes
    answers = answers' ∧ t = t' ∧ Holds (max workers 1) r f ∧
      (∀ c payload m, Binary.decode payload = .ok m →
        f.Delivers t' c m (f.dispatch t' c payload)) ∧
      ∀ workers', let (answers'', _, t'') := useAll Registry.use uses (new workers') boxes
        answers'' = answers ∧ t'' = t := by
  obtain ⟨hanswers, hholds, hboxes⟩ := (holds_new workers).useAll boxes uses
  refine ⟨hanswers, hboxes, hholds, fun c _ _ hm => Flat.delivers_dispatch hm _ _ c,
    fun workers' => ?_⟩
  obtain ⟨hanswers', -, hboxes'⟩ := (holds_new workers').useAll boxes uses
  exact ⟨hanswers'.trans hanswers.symm, hboxes'.trans hboxes.symm⟩

end Registry
end EventRelay
