import EventRelay.Proofs.Delivery.Acknowledgement
import EventRelay.Proofs.Delivery.Fate
import EventRelay.Proofs.Delivery.Traffic
import EventRelay.Proofs.Delivery.Undeleted
/-!
No record is lost between the log and a registry, and none is handed over twice. Main statement:
`hands_each_once`.
-/
namespace EventRelay.Relay

/-- No job can go on, and none waits for a timer. -/
def Idle (r : Relay) : Prop := ∀ j, r.readiness j = .later []

theorem idle_iff {r : Relay} : r.Idle ↔ ∀ j ∈ r.jobs, r.readiness j = .later [] := by
  constructor
  · exact fun h j _ => h j
  · intro h j
    by_cases hj : j ∈ r.jobs
    · exact h j hj
    · simp only [jobs, List.mem_append, List.mem_map, not_or, not_exists, not_and] at hj
      obtain ⟨⟨⟨hcalls, hremovals⟩, hlanes⟩, hfeeds⟩ := hj
      have hnone {β : Type} {t : Table Nat β} {k : Nat} (hk : k ∉ t.keys) : t.find? k = none := by
        cases hf : t.find? k with
        | none => rfl
        | some v => exact absurd (Table.mem_keys.2 ⟨v, hf⟩) hk
      cases j with
      | call id => rw [readiness, hnone fun hk => hcalls id hk rfl, Option.elim_none]
      | removal id => rw [readiness, hnone fun hk => hremovals id hk rfl, Option.elim_none]
      | lane id => rw [readiness, hnone fun hk => hlanes id hk rfl, Option.elim_none]
      | feed id => rw [readiness, hnone fun hk => hfeeds id hk rfl, Option.elim_none]

instance (r : Relay) : Decidable r.Idle := decidable_of_iff _ idle_iff.symm

section
variable (retention : Nat) (acts : List Action) (r : Relay) (b i : Nat) (rec : Record)

def handovers : List Handover :=
  ((new retention).observe handed acts).filter fun e =>
    e.broker = b ∧ e.place = ⟨i, rec.partition, rec.offset⟩

/-- The record is handed to the registry of broker `b` once, under its channel and with its
payload; if it was overtaken, it is never handed over. -/
structure HandedOnce : Prop where
  content : ∀ e ∈ handovers retention acts b i rec, e.registry = (r.broker b).registry ∧
    e.channel = ⟨rec.topic, rec.key⟩ ∧ e.payload = rec.value
  once : (handovers retention acts b i rec).length = 1 ∧ ¬ WasOvertaken retention acts b i rec ∨
    (handovers retention acts b i rec).length = 0 ∧ WasOvertaken retention acts b i rec

/-- What lets the lanes of broker `b` read the record: none of those of its topic finds its
partition over, and the topic is not deleted. (If others deleted it and created it anew with more
partitions, some have no lane; the record must not lie there.) -/
def Reached : Prop :=
  (∀ l ∈ (new retention).observe ended acts, ¬(l.broker = b ∧ l.topic = rec.topic)) ∧
    (rec.topic ∉ (new retention).observe deleted acts ∨
      rec.partition < (r.broker b).config.workers)

end

section
variable {r s : Relay} {retention : Nat} {hist : List (Nat × Record)} {acts : List Action}
  {b i : Nat} {rec : Record}

theorem Idle.waits (h : r.Idle) (hv : r.Valid retention hist) {j : Nat} {l : Lane}
    (hj : r.lanes.find? j = some l) (ho : (r.broker l.broker).closed = false) :
    ∃ p, r.log.partition? l.reader.cursor = some p ∧ p.next ≤ l.reader.cursor.offset ∧
      r.log.isCurrent l.reader.cursor.incarnation = true := by
  have hready := h (.lane j)
  have hgoes : r.isCancelled l = false := by rw [hv.isCancelled hj, ho]
  simp only [readiness, hj, Option.elim_some, laneReadiness, hgoes, Bool.false_eq_true,
    if_false] at hready
  cases hs : l.stage with
  | retrying => simp [hs] at hready
  | reading =>
    have hread : l.reader.read r.log = .pending := by
      cases hr : l.reader.read r.log with
      | pending => rfl
      | record | failed | ended => simp [hs, hr] at hready
    have hlog : r.log.read l.reader.cursor = .pending := by
      unfold Reader.read at hread
      split at hread
      · cases hread
      · cases hread
      · split at hread
        · cases hread
        · assumption
        · cases hread
    unfold Log.read at hlog
    split at hlog
    · cases hlog
    · rename_i p hp
      split at hlog
      · cases hlog
      · rename_i hlt
        split at hlog
        · rename_i hcurrent
          exact ⟨p, hp, Nat.le_of_not_lt hlt, hcurrent⟩
        · cases hlog

theorem content_of_handover (hr : (new retention).after acts = some r)
    (hrec : (i, rec) ∈ (new retention).history acts) {e : Handover}
    (he : e ∈ handovers retention acts b i rec) : e.registry = (r.broker b).registry ∧
      e.channel = ⟨rec.topic, rec.key⟩ ∧ e.payload = rec.value := by
  simp only [handovers, List.mem_filter, decide_eq_true_eq] at he
  obtain ⟨he, hb, hplace⟩ := he
  have htrace := handedTo_of_after hr
  obtain ⟨rec', hsource, hchannel, hpayload⟩ := htrace.source e he
  have hstands := (valid_of_after hr).log.getElem?_offset hrec
  simp only [hplace, hstands, Option.some.injEq] at hsource
  subst hsource
  exact ⟨hb ▸ htrace.registry e he, hchannel, hpayload⟩

theorem length_handovers_le (hr : (new retention).after acts = some r)
    (hrec : (i, rec) ∈ (new retention).history acts) :
    (handovers retention acts b i rec).length ≤ 1 := by
  have hordered : (handovers retention acts b i rec).Pairwise Handover.Before :=
    (handedTo_of_after hr).ordered.filter _
  have hcontent := fun e => content_of_handover (b := b) (e := e) hr hrec
  have hplace : ∀ e ∈ handovers retention acts b i rec,
      e.broker = b ∧ e.place = ⟨i, rec.partition, rec.offset⟩ := by
    intro e he
    simpa only [handovers, List.mem_filter, decide_eq_true_eq] using (List.mem_filter.1 he).2
  cases hlist : handovers retention acts b i rec with
  | nil => exact Nat.zero_le _
  | cons e es =>
    cases es with
    | nil => exact Nat.le_refl _
    | cons e' es =>
      rw [hlist] at hordered hcontent hplace
      have hfirst : e ∈ e :: e' :: es := List.mem_cons_self
      have hsecond : e' ∈ e :: e' :: es := List.mem_cons_of_mem _ List.mem_cons_self
      have hbefore := List.rel_of_pairwise_cons hordered (List.mem_cons_self (a := e') (l := es))
      have hlt := (hbefore ((hplace e hfirst).1.trans (hplace e' hsecond).1.symm)
        (by rw [(hcontent e hfirst).2.1, (hcontent e' hsecond).2.1])
        (by rw [(hplace e hfirst).2, (hplace e' hsecond).2])).2
      rw [(hplace e hfirst).2, (hplace e' hsecond).2] at hlt
      exact absurd hlt (Nat.lt_irrefl _)

theorem wasHanded_iff : WasHanded retention acts b i rec ↔
    0 < (handovers retention acts b i rec).length := by
  rw [List.length_pos_iff_exists_mem]
  simp only [WasHanded, handovers, List.mem_filter, decide_eq_true_eq]

theorem incarnation_of_current {a : Action} {j : Nat} {l : Lane} {t : Relay}
    (hv : r.Valid retention hist) (hj : r.lanes.find? j = some l) (hlater : r.Later t)
    (hcurrent : t.log.topics.find? l.topic = some l.reader.cursor.incarnation)
    (ha : r.act a = some s) (hrec : (i, rec) ∈ r.appended a) (ht : l.topic = rec.topic) :
    l.reader.cursor.incarnation = i := by
  obtain ⟨inc, hinc, -⟩ := (hv.lanes j l hj).place.topic
  have hthen := hlater.log.retired _ _ hcurrent (Array.getElem?_eq_some_iff.1 hinc).1
  obtain ⟨-, inc₀, inc₁, p, happ⟩ := hv.appends ha hrec
  obtain ⟨-, hfind, -⟩ := Log.find_eq_ok.1 happ.find
  rw [← ht, hthen, Option.some.injEq] at hfind
  exact hfind

theorem Fate.handedOnce {j : Nat} {l : Lane} {p : Partition}
    (hr : (new retention).after acts = some r) (hrec : (i, rec) ∈ (new retention).history acts)
    (h : Fate retention acts b i rec r j l p) (hend : p.next ≤ l.reader.cursor.offset) :
    HandedOnce retention acts r b i rec := by
  refine ⟨fun e he => content_of_handover hr hrec he, ?_⟩
  have hle := length_handovers_le (b := b) hr hrec
  have hreached := h.appended
  cases h.standing with
  | ahead hc hh hover => omega
  | handed hc hh hover =>
    rw [wasHanded_iff] at hh
    exact .inl ⟨by omega, hover⟩
  | lost hc hh hover =>
    rw [wasHanded_iff] at hh
    exact .inr ⟨by omega, hover⟩

theorem handedOnce_of_lane {pre post : List Action} {a : Action} {q : Relay}
    (hr : (new retention).after (pre ++ a :: post) = some r) (hidle : r.Idle)
    (ho : (r.broker b).closed = false)
    (hend : ∀ l ∈ (new retention).observe ended (pre ++ a :: post),
      ¬(l.broker = b ∧ l.topic = rec.topic))
    (hq : (new retention).after pre = some q) (hrec : (i, rec) ∈ q.appended a)
    (hk : rec.topic ∈ (q.broker b).topics)
    (hp : rec.partition < (q.broker b).config.workers) :
    HandedOnce retention (pre ++ a :: post) r b i rec := by
  have hall := hr
  have hvr := valid_of_after hr
  rw [after_append, hq, Option.bind_some] at hr
  have hv := valid_of_after hq
  have hlater := (hv.run hr).2
  rw [observe_append ended hq] at hend
  -- The lane of the partition at the time of the append is there at the end.
  obtain ⟨j, l, hj, hb, ht, hpart⟩ := exists_lane hq (hlater.open_before (size_of_mem hk) ho)
    (fun l hl => hend l (List.mem_append_left _ hl)) hk hp
  obtain ⟨m, hm, hlm⟩ := hv.lane_stays hr hj (by rw [hb]; exact ho) fun k hk => by
    rw [hb, ht]
    exact hend k (List.mem_append_right _ hk)
  obtain ⟨p, hpm, hnext, hcurrent⟩ := hidle.waits hvr hm (by rw [hlm.broker, hb]; exact ho)
  have htopic : r.log.topics.find? l.topic = some l.reader.cursor.incarnation := by
    obtain ⟨inc, hinc, htopic⟩ := (hvr.lanes j m hm).place.topic
    simp only [Log.isCurrent, hinc, Option.any_some, decide_eq_true_eq] at hcurrent
    rw [htopic, hlm.topic, hlm.incarnation] at hcurrent
    exact hcurrent
  -- From the append on, the lane carries the record's fate to the end.
  obtain ⟨s, hs, hpost⟩ := Option.bind_eq_some_iff.1 hr
  have hs' : (new retention).after (pre ++ [a]) = some s := after_concat.2 ⟨q, hq, hs⟩
  have hincarnation := incarnation_of_current hv hj hlater htopic hs hrec ht
  have hnumber := Nat.lt_of_lt_of_le (hv.lanes j l hj).number
    (hv.later (hv.change hs)).nextLane
  obtain ⟨k, hk', -⟩ := ((valid_of_after hs').run hpost).2.lane j m hnumber hm
  obtain ⟨p', hfate⟩ := fate_of_appended hq hs hrec hj hb ht hpart hincarnation hk'
  obtain ⟨p'', hfate⟩ := hfate.run hs' hpost hm
  rw [List.append_assoc, List.singleton_append] at hfate
  have hholds := hfate.holds
  rw [hpm, Option.some.injEq] at hholds
  subst hholds
  refine hfate.handedOnce hall ?_ hnext
  rw [history, observe_append appended hq]
  exact List.mem_append_right _ (List.mem_append_left _ hrec)

end

/-- What holds between the log and the registry of broker `b` when `acts` have led to `r`. -/
structure HandsOver (retention : Nat) (acts : List Action) (r : Relay) (b : Nat) : Prop where
  /-- Every record that is appended once the broker knows its topic is handed over once. -/
  appended : ∀ q a i rec, Happens retention acts q a → (i, rec) ∈ q.appended a →
    rec.topic ∈ (q.broker b).topics → Reached retention acts r b rec →
    HandedOnce retention acts r b i rec
  /-- So is every record that a publication on the broker was answered with. -/
  acknowledged : ∀ pre q id acks ack, pre <+: acts → (new retention).after pre = some q →
    q.calls.find? id = some ⟨b, .finished (.published acks)⟩ → ack ∈ acks →
    ∃ q' a i rec, Happens retention pre q' a ∧ q'.Acknowledges a id b ack i rec ∧
      (Reached retention acts r b rec → HandedOnce retention acts r b i rec)
  /-- What is handed over is dispatched in the same step, and without a handover no step of the
  relay's own touches a registry or a mailbox. -/
  dispatched : ∀ q a s, Happens retention acts q a → q.act a = some s → a.isAside = false →
    q.handed a = [] ∧ q.Spares s ∨
      ∃ e, q.handed a = [e] ∧ (q.dispatch e.registry e.channel e.payload).2.Spares s

theorem handedOnce_of_reached {retention : Nat} {acts : List Action} {r : Relay}
    (hr : (new retention).after acts = some r) (hidle : r.Idle) {b i : Nat} {rec : Record}
    (ho : (r.broker b).closed = false) {q : Relay} {a : Action}
    (hq : Happens retention acts q a) (hrec : (i, rec) ∈ q.appended a)
    (hk : rec.topic ∈ (q.broker b).topics) (hreached : Reached retention acts r b rec) :
    HandedOnce retention acts r b i rec := by
  obtain ⟨pre, post, rfl, hpre⟩ := hq
  obtain ⟨hend, hplace⟩ := hreached
  refine handedOnce_of_lane hr hidle ho hend hpre hrec hk ?_
  have hv := valid_of_after hpre
  rw [after_append, hpre, Option.bind_some] at hr
  obtain ⟨s, hs, -⟩ := Option.bind_eq_some_iff.1 hr
  obtain ⟨-, inc, inc', p, happ⟩ := hv.appends hs hrec
  cases hplace with
  | inl hkept =>
    rw [observe_append deleted hpre, List.mem_append, not_or] at hkept
    rw [← size_of_undeleted hpre hkept.1 hk happ.find]
    exact (Array.getElem?_eq_some_iff.1 happ.partition).1
  | inr hlt =>
    rw [(hv.run hr).2.config b (size_of_mem hk)] at hlt
    exact hlt

theorem hands_each_once {retention : Nat} {acts : List Action} {r : Relay}
    (h : (new retention).after acts = some r) (hidle : r.Idle) {b : Nat}
    (ho : (r.broker b).closed = false) : HandsOver retention acts r b := by
  constructor
  · intro q a i rec hq hrec hk hreached
    exact handedOnce_of_reached h hidle ho hq hrec hk hreached
  · intro pre q id acks ack hpre hq hc hack
    obtain ⟨q', a, i, rec, hhappens, hrec⟩ := Relay.acknowledged hq hc hack
    refine ⟨q', a, i, rec, hhappens, hrec, fun hreached => ?_⟩
    obtain ⟨post, rfl⟩ := hpre
    exact handedOnce_of_reached h hidle ho (hhappens.append post) hrec.appended hrec.known hreached
  · intro q a s hq hstep hside
    obtain ⟨pre, post, rfl, hpre⟩ := hq
    exact ((valid_of_after hpre).change hstep).spares hside

/-- A publication admits its topic, and a later record is there before the lane reads. -/
def publishThenProduce : List Action :=
  [.addRegistry 1, .addBroker { workers := 1, maxTopics := 1 } 0,
    .submit 0 (.publish [⟨⟨"a", "k"⟩, [1]⟩]) 0,
    .step (.call 0) .proceed, .step (.call 0) .proceed, .step (.call 0) .proceed,
    .step (.call 0) .proceed, .produce "a" "k" [2], .step (.lane 0) .proceed]

/-- The log keeps one record: the acknowledged one is overtaken, the one behind it handed over. -/
theorem hands_each_once_of_lag : ∃ r, (new 1).after publishThenProduce = some r ∧ r.Idle ∧
    HandsOver 1 publishThenProduce r 0 ∧
    WasOvertaken 1 publishThenProduce 0 0 ⟨"a", 0, 0, "k", [1]⟩ ∧
    (handovers 1 publishThenProduce 0 0 ⟨"a", 0, 1, "k", [2]⟩).length = 1 := by
  have hrun : ((new 1).after publishThenProduce).map (fun r =>
      (decide r.Idle, (r.broker 0).closed)) = some (true, false) := by decide +kernel
  obtain ⟨r, hr, heq⟩ := Option.map_eq_some_iff.1 hrun
  simp only [Prod.mk.injEq, decide_eq_true_eq] at heq
  obtain ⟨hidle, hopen⟩ := heq
  have hands := hands_each_once hr hidle hopen
  have hbefore : ((new 1).after (publishThenProduce.take 6)).map (fun q =>
      (q.appended (.step (.call 0) .proceed), (q.broker 0).topics)) =
      some ([(0, ⟨"a", 0, 0, "k", [1]⟩)], ["a"]) := by decide +kernel
  obtain ⟨q, hq, heq⟩ := Option.map_eq_some_iff.1 hbefore
  simp only [Prod.mk.injEq] at heq
  obtain ⟨happ, htopics⟩ := heq
  have hends : ((new 1).observe ended publishThenProduce).length = 0 := by decide +kernel
  have hdeletes : (new 1).observe deleted publishThenProduce = [] := by decide +kernel
  have honce := hands.appended q (.step (.call 0) .proceed) 0 ⟨"a", 0, 0, "k", [1]⟩
    ⟨publishThenProduce.take 6, _, rfl, hq⟩ (by rw [happ]; exact List.mem_singleton_self _)
    (by rw [htopics]; exact List.mem_singleton_self _)
    ⟨by rw [List.length_eq_zero_iff.1 hends]; simp, .inl (by rw [hdeletes]; simp)⟩
  have hnever : (handovers 1 publishThenProduce 0 0 ⟨"a", 0, 0, "k", [1]⟩).length = 0 := by
    decide +kernel
  refine ⟨r, hr, hidle, hands, ?_, by decide +kernel⟩
  cases honce.once with
  | inl hx => rw [hnever] at hx; cases hx.1
  | inr hx => exact hx.2

end EventRelay.Relay
