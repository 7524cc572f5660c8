import EventRelay.Proofs.Burst.Filling
import EventRelay.Proofs.Event.Canonical
/-!
What of a batch gets past the windows of the log. Main statements: `Poised.window`, the lanes of a
broker hand over the last records of each partition, and `eventsFor_of_window`, what comes of them
for a channel.
-/
namespace EventRelay

theorem Binary.decode_encode {m : Event} (h : m.Fits) : decode (encode m) = .ok m := by
  rw [decode, (reads_event _ m []).2 ⟨encode m, ⟨_, isEvent_encode h⟩, (List.append_nil _).symm⟩]
  rfl

def publications (batch : List (Channel × Event)) : List Publication :=
  batch.map fun x => ⟨x.1, Binary.encode x.2⟩

/-- The events of a batch that reach a channel, if a log with windows of size `w` is read by as many
lanes as there are workers and only when the batch is complete: of the events that share the
channel's partition, the last `w` are left. -/
def arriving (workers w : Nat) (batch : List (Channel × Event)) (c : Channel) : List Event :=
  ((lastOf w (batch.filter fun x => x.1.topic = c.topic ∧
    partitionFor x.1.name workers = partitionFor c.name workers)).filter fun x => x.1 = c).map
      Prod.snd

def Routed (workers : Nat) (items : List Publication) (acks : List Ack) : Prop :=
  ∀ rec ∈ List.zipWith Publication.record items acks, rec.partition = partitionFor rec.key workers

/-- Of the records of each partition, the last `w` are handed over, in order. -/
def Windowed (w : Nat) (recs : List Record) (es : List Handover) : Prop :=
  ∀ t p, (es.filter fun e => e.channel.topic = t ∧ e.place.partition = p).map
    (fun e => e.record.2) = lastOf w (recs.filter fun rec => rec.topic = t ∧ rec.partition = p)

section
variable {workers w : Nat} {batch : List (Channel × Event)} {acks : List Ack} {es : List Handover}

def Record.sent (rec : Record) : Channel × List UInt8 := (⟨rec.topic, rec.key⟩, rec.value)

theorem map_sent {items : List Publication} (h : acks.length = items.length) :
    (List.zipWith Publication.record items acks).map Record.sent =
      items.map fun item => (item.channel, item.payload) := by
  induction items generalizing acks with
  | nil => rfl
  | cons item items ih =>
    cases acks with
    | nil => cases h
    | cons ack acks =>
      rw [List.zipWith_cons_cons, List.map_cons, List.map_cons, ih (Nat.succ.inj h)]
      rfl

theorem map_sent_filter (hlength : acks.length = batch.length)
    (hrouted : Routed workers (publications batch) acks) (t : String) (p : Nat) :
    ((List.zipWith Publication.record (publications batch) acks).filter fun rec =>
      rec.topic = t ∧ rec.partition = p).map Record.sent =
    (batch.filter fun x => x.1.topic = t ∧ partitionFor x.1.name workers = p).map
      fun x => (x.1, Binary.encode x.2) := by
  have hkey : (List.zipWith Publication.record (publications batch) acks).filter (fun rec =>
      rec.topic = t ∧ rec.partition = p) =
      (List.zipWith Publication.record (publications batch) acks).filter
        ((fun d : Channel × List UInt8 => decide (d.1.topic = t ∧
          partitionFor d.1.name workers = p)) ∘ Record.sent) :=
    List.filter_congr fun rec hrec => by rw [hrouted rec hrec]; rfl
  have hsame : acks.length = (publications batch).length := by
    rw [publications, List.length_map, hlength]
  have hall := map_sent hsame
  rw [publications, List.map_map] at hall
  rw [hkey, ← List.filter_map, publications, hall, List.filter_map]
  rfl

theorem eventsFor_of_window (hfits : ∀ x ∈ batch, x.2.Fits) (hlength : acks.length = batch.length)
    (hrouted : Routed workers (publications batch) acks)
    (hwindow : Windowed w (List.zipWith Publication.record (publications batch) acks) es)
    (c : Channel) :
    eventsFor (es.map fun e => (e.channel, e.payload)) c = arriving workers w batch c := by
  let P (e : Handover) : Bool :=
    e.channel.topic = c.topic ∧ e.place.partition = partitionFor c.name workers
  let decoded (d : Channel × List UInt8) : Option Event :=
    if d.1 = c then (Binary.decode d.2).toOption else none
  -- What is handed over for the channel comes from its partition.
  have hplace : ∀ e ∈ es, e.channel = c → P e = true := by
    intro e he hc
    subst hc
    have hin : e.record.2 ∈ (es.filter fun e' => e'.channel.topic = e.channel.topic ∧
        e'.place.partition = e.place.partition).map fun e => e.record.2 :=
      List.mem_map.2 ⟨e, List.mem_filter.2 ⟨he, decide_eq_true ⟨rfl, rfl⟩⟩, rfl⟩
    rw [hwindow] at hin
    have hrec := (List.mem_filter.1 (List.mem_of_mem_drop hin)).1
    exact decide_eq_true ⟨rfl, hrouted _ hrec⟩
  have hpart : (es.map fun e => (e.channel, e.payload)).filterMap decoded =
      ((es.filter P).map fun e => e.record.2.sent).filterMap decoded := by
    rw [List.filterMap_map, List.filterMap_map, List.filterMap_filter]
    refine List.filterMap_congr fun e he => ?_
    by_cases hc : e.channel = c
    · rw [if_pos (hplace e he hc)]
      rfl
    · have hnone : decoded (e.channel, e.payload) = none := if_neg hc
      rw [Function.comp_apply, hnone]
      split
      · exact hnone.symm
      · rfl
  have hsent : ((es.filter P).map fun e => e.record.2.sent) =
      (lastOf w (batch.filter fun x => x.1.topic = c.topic ∧
        partitionFor x.1.name workers = partitionFor c.name workers)).map
          fun x => (x.1, Binary.encode x.2) := by
    rw [← lastOf_map, ← map_sent_filter hlength hrouted, lastOf_map, ← hwindow, List.map_map]
    rfl
  have hdecoded : ∀ x ∈ batch, decoded (x.1, Binary.encode x.2) = if x.1 = c then some x.2
      else none := by
    intro x hx
    simp only [decoded, Binary.decode_encode (hfits x hx)]
    rfl
  calc eventsFor (es.map fun e => (e.channel, e.payload)) c
      = ((es.filter P).map fun e => e.record.2.sent).filterMap decoded := hpart
    _ = (lastOf w (batch.filter fun x => x.1.topic = c.topic ∧
          partitionFor x.1.name workers = partitionFor c.name workers)).filterMap
            fun x => if x.1 = c then some x.2 else none := by
        rw [hsent, List.filterMap_map]
        refine List.filterMap_congr fun x hx => hdecoded x ?_
        exact (List.mem_filter.1 (List.mem_of_mem_drop hx)).1
    _ = arriving workers w batch c := by
        rw [arriving, ← List.filterMap_eq_map, List.filterMap_filter]
        refine List.filterMap_congr fun x _ => ?_
        by_cases hc : x.1 = c <;> simp [hc]

end

namespace Relay

section
variable {retention : Nat} {acts : List Action} {r q s : Relay} {b n : Nat}
  {items : List Publication} {acks : List Ack}

theorem Poised.published (h : Poised retention acts r b)
    (hq : (r.submit b (.publish items) 0).2.after (turns r.nextCall n) = some q)
    (hc : q.calls.find? r.nextCall = some ⟨b, .finished (.published acks)⟩) :
    acks.length = items.length ∧ ((r.submit b (.publish items) 0).2.history
      (turns r.nextCall n)).map Prod.snd = List.zipWith Publication.record items acks := by
  obtain ⟨ups, acks', hcarrying⟩ := h.carrying hq
  cases (hcarrying.stage b _ hc).2 with
  | published hlength => exact ⟨hlength, hcarrying.records⟩

theorem Poised.routed (h : Poised retention acts r b)
    (hq : (r.submit b (.publish items) 0).2.after (turns r.nextCall n) = some q)
    {i : Nat} {rec : Record}
    (hrec : (i, rec) ∈ (r.submit b (.publish items) 0).2.history (turns r.nextCall n)) :
    q.log.topics.find? rec.topic = some i ∧ rec.topic ∈ (q.broker b).topics ∧
      rec.partition = partitionFor rec.key (r.broker b).config.workers := by
  have hrun := h.after hq
  have hp := h.alone_untilTurn items n
  have hall : (i, rec) ∈ (new retention).history (untilTurn acts r b items n) := by
    rw [h.history]
    exact List.mem_append_right _ hrec
  have hopen := (h.filling hq).isOpen
  have hcurrent := current_of_private hrun hp hopen hall
  have hknown := known_of_private hrun hp i rec hall
  have hv := valid_of_after hrun
  obtain ⟨inc, hinc, htopic, hpartition⟩ := hv.log.source i rec hall
  have hconfig : (q.broker b).config = (r.broker b).config :=
    (h.later hq).config b (size_of_open h.isOpen)
  have howns := ownsLog_of_after hrun hp fun _ => hopen
  have hcount := howns.known rec.topic hknown
  have hfind : q.log.find rec.topic = .ok (i, inc) :=
    Log.find_eq_ok.2 ⟨howns.logOpen, hcurrent, hinc⟩
  rw [Log.partitionCount_of_find hfind, Option.some.injEq, hconfig] at hcount
  exact ⟨hcurrent, hknown, by rw [hpartition, hcount]⟩

theorem Poised.unread (h : Poised retention acts r b)
    (hq : (r.submit b (.publish items) 0).2.after (turns r.nextCall n) = some q)
    (hreading : q.Reading b) {i : Nat} {l : Lane} (hi : q.lanes.find? i = some l) :
    (recordsAt ((new retention).history (untilTurn acts r b items n))
      l.reader.cursor.incarnation l.partition).drop l.reader.cursor.offset =
    (((r.submit b (.publish items) 0).2.history (turns r.nextCall n)).map Prod.snd).filter
      fun rec => rec.topic = l.topic ∧ rec.partition = l.partition := by
  rw [h.history, recordsAt_append, ((h.filling hq).lanes i l hi).2, List.drop_left, recordsAt,
    List.filter_map]
  refine congrArg (List.map Prod.snd) (List.filter_congr fun x hx => ?_)
  obtain ⟨j, rec⟩ := x
  have hcurrent := (h.routed hq hx).1
  have hlane := hreading.current i l hi
  rw [Function.comp_apply, decide_eq_decide]
  refine and_congr_left fun _ => ⟨fun hj => ?_, fun ht => ?_⟩
  · obtain ⟨inc, hinc, htopic⟩ := ((valid_of_after (h.after hq)).lanes i l hi).place.topic
    have hmem : (j, rec) ∈ (new retention).history (untilTurn acts r b items n) := by
      rw [h.history]
      exact List.mem_append_right _ hx
    obtain ⟨inc', hinc', htopic', -⟩ := (valid_of_after (h.after hq)).log.source j rec hmem
    rw [show j = l.reader.cursor.incarnation from hj, hinc, Option.some.injEq] at hinc'
    rw [htopic', ← hinc', htopic]
  · rw [show rec.topic = l.topic from ht, hlane, Option.some.injEq] at hcurrent
    exact hcurrent.symm

theorem Poised.manned (h : Poised retention acts r b)
    (hq : (r.submit b (.publish items) 0).2.after (turns r.nextCall n) = some q)
    {i : Nat} {rec : Record}
    (hrec : (i, rec) ∈ (r.submit b (.publish items) 0).2.history (turns r.nextCall n)) :
    ∃ j l, q.lanes.find? j = some l ∧ l.topic = rec.topic ∧ l.partition = rec.partition := by
  obtain ⟨-, hknown, hpartition⟩ := h.routed hq hrec
  have hv := valid_of_after h.run
  have hlt : rec.partition < (q.broker b).config.workers := by
    have hpos := hv.workers_pos b
    rw [hv.workers b] at hpos
    rw [(h.later hq).config b (size_of_open h.isOpen), hpartition]
    exact Nat.mod_lt _ hpos
  have hended : (new retention).observe ended (untilTurn acts r b items n) =
      (new retention).observe ended acts := by
    have hnone : (r.submit b (.publish items) 0).2.observe ended (turns r.nextCall n) = [] :=
      observe_eq_nil fun s a ha => by rw [List.eq_of_mem_replicate ha]; rfl
    rw [untilTurn, observe_append _ h.run]
    exact (congrArg _ hnone).trans (List.append_nil _)
  obtain ⟨j, l, hj, -, hlane⟩ := exists_lane (h.after hq) (h.filling hq).isOpen
    (fun l hl hall => h.unended l (hended ▸ hl) hall.1) hknown hlt
  exact ⟨j, l, hj, hlane⟩

theorem Poised.window (h : Poised retention acts r b)
    (hq : (r.submit b (.publish items) 0).2.after (turns r.nextCall n) = some q)
    (hreading : q.Reading b) {is : List Nat} (hs : q.after (readings is) = some s)
    (hidle : s.Idle) : Windowed (windowSize retention)
      (((r.submit b (.publish items) 0).2.history (turns r.nextCall n)).map Prod.snd)
      (q.observe handed (readings is)) := by
  intro t p
  have hrun := h.after hq
  have hv := valid_of_after hrun
  obtain ⟨hvs, hon, -⟩ := ReadOn.run hv hreading hs
  by_cases hlane : ∃ i l, q.lanes.find? i = some l ∧ l.topic = t ∧ l.partition = p
  · obtain ⟨i, l, hi, rfl, rfl⟩ := hlane
    have hwindow := hon.window hvs hidle hi
    rw [h.unread hq hreading hi] at hwindow
    rw [hon.filter_place hv hreading hi]
    have hrecords := congrArg (List.map Prod.snd) hwindow
    rw [List.map_map, List.map_map] at hrecords
    refine hrecords.trans ?_
    exact List.map_id _
  · -- Without a lane the partition is not one of a known topic, so nothing goes there.
    have hnone : (q.observe handed (readings is)).filter (fun e =>
        e.channel.topic = t ∧ e.place.partition = p) = [] := by
      rw [List.filter_eq_nil_iff]
      intro e he hall
      obtain ⟨l, hl, htopic, hpartition⟩ := hon.source e he
      rw [decide_eq_true_eq] at hall
      exact hlane ⟨_, l, hl, htopic.trans hall.1, hpartition.trans hall.2⟩
    have hempty : (((r.submit b (.publish items) 0).2.history (turns r.nextCall n)).map
        Prod.snd).filter (fun rec => rec.topic = t ∧ rec.partition = p) = [] := by
      rw [List.filter_eq_nil_iff]
      intro rec hrec hall
      obtain ⟨⟨i, rec'⟩, hmem, rfl⟩ := List.mem_map.1 hrec
      rw [decide_eq_true_eq] at hall
      obtain ⟨j, l, hj, htopic, hpartition⟩ := h.manned hq hmem
      exact hlane ⟨j, l, hj, htopic.trans hall.1, hpartition.trans hall.2⟩
    rw [hnone, hempty, lastOf, List.map_nil, List.drop_nil]

end
end Relay
end EventRelay
