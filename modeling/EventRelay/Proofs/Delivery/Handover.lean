import EventRelay.Proofs.Admission.Enrollment
/-!
The records that lanes hand to registries. Main statement: `handedTo_of_after`, each of them was
appended to the lane's partition, and for one broker they come in the order of their offsets.
-/
namespace EventRelay

/-- A record that a lane hands to a registry, and the place of the record in the log. -/
structure Handover where
  lane : Nat
  broker : Nat
  registry : Nat
  channel : Channel
  payload : List UInt8
  place : Cursor
  deriving DecidableEq, Repr

/-- Of two handovers from the same partition of a topic by one broker, the earlier one has the lower
offset. -/
def Handover.Before (e e' : Handover) : Prop :=
  e.broker = e'.broker → e.channel.topic = e'.channel.topic →
    e.place.partition = e'.place.partition →
    e.place.incarnation = e'.place.incarnation ∧ e.place.offset < e'.place.offset

namespace Relay

/-- The record that an action hands to a registry. -/
def handed (r : Relay) : Action → List Handover
  | .step (.lane i) .proceed =>
    match r.lanes.find? i with
    | some l =>
      match l.stage, l.reader.read r.log with
      | .reading, .record rec _ =>
        [⟨i, l.broker, (r.broker l.broker).registry, ⟨l.topic, rec.key⟩, rec.value,
          { l.reader.cursor with offset := rec.offset }⟩]
      | _, _ => []
    | none => []
  | _ => []

/-- On the way from `r` to `s` lane `i` reads `rec` and hands it over. -/
structure Hands (r : Relay) (a : Action) (s : Relay) (i : Nat) (l : Lane) (rec : Record) :
    Prop where
  lane : r.lanes.find? i = some l
  read : r.log.read l.reader.cursor = .record rec
  handed : r.handed a = [⟨i, l.broker, (r.broker l.broker).registry, ⟨l.topic, rec.key⟩, rec.value,
    { l.reader.cursor with offset := rec.offset }⟩]
  next : ∃ m, s.lanes.find? i = some m ∧ l.Later m ∧
    m.reader.cursor = l.reader.cursor.past rec
  others : ∀ j, j ≠ i → s.lanes.find? j = r.lanes.find? j
  log : s.log = r.log
  nothing : r.appended a = []

section
variable {r s : Relay} {retention : Nat} {hist : List (Nat × Record)}

theorem handed_aside (r : Relay) {a : Action} (ha : a.isAside = true) : r.handed a = [] := by
  cases a with
  | step j sig =>
    cases j with
    | feed id => rfl
    | call | removal | lane => cases ha
  | _ => rfl

theorem Change.hands_or {a : Action} (h : r.Valid retention hist) (hc : Change r a s) :
    (r.handed a = [] ∧ ∀ i l m, r.lanes.find? i = some l → s.lanes.find? i = some m →
      m.reader.cursor = l.reader.cursor) ∨ ∃ i l rec, r.Hands a s i l rec := by
  have hsame (hl : s.lanes = r.lanes) (i : Nat) (l m : Lane) (hi : r.lanes.find? i = some l)
      (hm : s.lanes.find? i = some m) : m.reader.cursor = l.reader.cursor := by
    rw [hl, hi] at hm
    cases hm
    rfl
  cases hc with
  | aside ha => exact .inl ⟨r.handed_aside ha, hsame rfl⟩
  | calls hc hs =>
    refine .inl ⟨rfl, ?_⟩
    cases hs with
    | @enrolls _ _ _ _ c stage script σ σ' hσ hl hn hk hf hready =>
      intro i l m hi hm
      have hold := (h.enrolls hc hk ⟨c, script⟩ σ σ' stage).old i (.inl (h.lanes i l hi).number)
      rw [hold, hi] at hm
      cases hm
      rfl
    | _ => exact hsame rfl
  | @lanes i l _ sig hi hs =>
    have hlater := hs.later h hi
    have hothers : ∀ {t : Table Nat Lane} {o : Option Lane},
        (∀ j, t.find? j = if i = j then o else r.lanes.find? j) →
        (∀ m, o = some m → m.reader.cursor = l.reader.cursor) →
        ∀ j k m, r.lanes.find? j = some k → t.find? j = some m →
          m.reader.cursor = k.reader.cursor := by
      intro t o ht ho j k m hk hm
      rw [ht j] at hm
      split at hm
      · rename_i hij
        subst hij
        rw [hi] at hk
        cases hk
        exact ho m hm
      · rw [hk] at hm
        cases hm
        rfl
    cases hs with
    | @hands rec next hs hr =>
      obtain ⟨hrec, hnext⟩ := Reader.read_record hr
      have hget : (r.lanes.insert i { l with reader := next }).find? i =
          some { l with reader := next } := by rw [Table.find?_insert, if_pos rfl]
      obtain ⟨k, hk, hkm⟩ := hlater.lane i _ (h.lanes i l hi).number hget
      rw [hi] at hk
      cases hk
      refine .inr ⟨i, l, rec, hi, hrec, ?_, ⟨_, hget, hkm, hnext⟩, fun j hj => ?_, rfl, rfl⟩
      · simp only [handed, hi, hs, hr]
      · rw [Table.find?_insert, if_neg (Ne.symm hj)]
    | @fails reason next hs hr =>
      refine .inl ⟨by simp only [handed, hi, hs, hr], ?_⟩
      refine hothers (fun j => Table.find?_insert ..) ?_
      intro m heq
      cases heq
      exact Reader.read_failed hr
    | ends hs hr =>
      refine .inl ⟨by simp only [handed, hi, hs, hr], ?_⟩
      refine hothers (fun j => Table.find?_erase ..) ?_
      intro m heq
      cases heq
    | stops hc =>
      refine .inl ⟨rfl, ?_⟩
      refine hothers (fun j => Table.find?_erase ..) ?_
      intro m heq
      cases heq
    | resumes hs =>
      refine .inl ⟨by simp only [handed, hi, hs], ?_⟩
      refine hothers (fun j => Table.find?_insert ..) ?_
      intro m heq
      cases heq
      rfl
  | _ => exact .inl ⟨rfl, hsame rfl⟩

theorem Valid.read (h : r.Valid retention hist) {i : Nat} {l : Lane} {rec : Record}
    (hi : r.lanes.find? i = some l) (hr : r.log.read l.reader.cursor = .record rec) :
    rec.topic = l.topic ∧ l.reader.cursor.offset ≤ rec.offset ∧
      (recordsAt hist l.reader.cursor.incarnation l.partition)[rec.offset]? = some rec ∧
      ∃ p, r.log.partition? l.reader.cursor = some p ∧ rec.offset < p.next := by
  have hplace := (h.lanes i l hi).place
  obtain ⟨p, hp, -, ho, hlt, hmem⟩ := h.log.read hr
  rw [hplace.partition] at hmem
  obtain ⟨inc, hinc, htopic, -⟩ :=
    h.log.source _ rec (mem_recordsAt.1 (List.mem_of_getElem? hmem)).1
  obtain ⟨inc', hinc', htopic'⟩ := hplace.topic
  rw [hinc] at hinc'
  cases hinc'
  exact ⟨htopic.trans htopic', by omega, hmem, p, hp, hlt⟩

structure HandedTo (r : Relay) (hist : List (Nat × Record)) (es : List Handover) : Prop where
  source : ∀ e ∈ es, ∃ rec,
    (recordsAt hist e.place.incarnation e.place.partition)[e.place.offset]? = some rec ∧
      e.channel = ⟨rec.topic, rec.key⟩ ∧ e.payload = rec.value
  known : ∀ e ∈ es, e.channel.topic ∈ (r.broker e.broker).topics
  registry : ∀ e ∈ es, e.registry = (r.broker e.broker).registry
  passed : ∀ e ∈ es, ∃ p, r.log.partition? e.place = some p ∧ e.place.offset < p.next
  behind : ∀ e ∈ es, ∀ i l, r.lanes.find? i = some l → l.broker = e.broker →
    l.topic = e.channel.topic → l.partition = e.place.partition →
    e.place.incarnation = l.reader.cursor.incarnation ∧ e.place.offset < l.reader.cursor.offset
  ordered : es.Pairwise Handover.Before

theorem handedTo_nil (r : Relay) (hist : List (Nat × Record)) : r.HandedTo hist [] := by
  refine ⟨?_, ?_, ?_, ?_, ?_, .nil⟩ <;> intro e he <;> cases he

theorem HandedTo.later {es : List Handover} (hv : r.Valid retention hist)
    (h : r.HandedTo hist es) {a : Action} (ha : r.act a = some s) :
    s.HandedTo (hist ++ r.appended a) es := by
  have hlater := hv.later (hv.change ha)
  refine ⟨fun e he => ?_, fun e he => ?_, fun e he => ?_, fun e he => ?_, fun e he => ?_,
    h.ordered⟩
  · obtain ⟨rec, hrec, hc, hp⟩ := h.source e he
    refine ⟨rec, ?_, hc, hp⟩
    have hlt := (List.getElem?_eq_some_iff.1 hrec).1
    rw [recordsAt_append, List.getElem?_append_left hlt, hrec]
  · exact (hlater.topics _).subset (h.known e he)
  · rw [hlater.registry _ (size_of_mem (h.known e he))]
    exact h.registry e he
  · obtain ⟨p, hp, hlt⟩ := h.passed e he
    obtain ⟨p', hp', hle⟩ := hlater.log.next _ p hp
    exact ⟨p', hp', Nat.lt_of_lt_of_le hlt hle⟩
  · intro i m hm hb ht hp
    have hold : ∃ l, r.lanes.find? i = some l ∧ l.Later m := by
      obtain ⟨-, hrest⟩ | ⟨id, b, topic, purpose, opened, last, stage, hadmits, -⟩ :=
        (hv.change ha).admits_or hv
      · exact hrest.lanes i m hm
      · obtain ⟨j, rd, -, -, rfl⟩ | hold := hadmits.effect.lane_cases hm
        · -- The lane is new, but the topic was known before.
          have hknown := h.known e he
          rw [← hb, ← ht] at hknown
          exact absurd hknown hadmits.unknown
        · exact ⟨m, hold, .refl m⟩
    obtain ⟨l, hl, hlm⟩ := hold
    obtain ⟨hi, ho⟩ := h.behind e he i l hl (hlm.broker ▸ hb) (hlm.topic ▸ ht)
      (hlm.partition ▸ hp)
    exact ⟨hi.trans hlm.incarnation.symm, Nat.lt_of_lt_of_le ho hlm.offset⟩

theorem HandedTo.next {es : List Handover} (hv : r.Valid retention hist)
    (h : r.HandedTo hist es) {a : Action} (ha : r.act a = some s) :
    s.HandedTo (hist ++ r.appended a) (es ++ r.handed a) := by
  have hold := h.later hv ha
  obtain ⟨hnone, -⟩ | ⟨i, l, rec, hands⟩ := (hv.change ha).hands_or hv
  · rw [hnone, List.append_nil]
    exact hold
  · have hlane := hv.lanes i l hands.lane
    obtain ⟨htopic, hle, hmem, p, hp, hlt⟩ := hv.read hands.lane hands.read
    have hlater := hv.later (hv.change ha)
    obtain ⟨m, hm, hlm, hcursor⟩ := hands.next
    rw [hands.handed, hands.nothing, List.append_nil] at *
    refine ⟨?_, ?_, ?_, ?_, ?_, ?_⟩
    · intro e he
      obtain he | he := List.mem_append.1 he
      · exact hold.source e he
      · cases List.mem_singleton.1 he
        refine ⟨rec, ?_, by rw [htopic], rfl⟩
        rw [hlane.place.partition]
        exact hmem
    · intro e he
      obtain he | he := List.mem_append.1 he
      · exact hold.known e he
      · cases List.mem_singleton.1 he
        exact (hlater.topics _).subset hlane.topic
    · intro e he
      obtain he | he := List.mem_append.1 he
      · exact hold.registry e he
      · cases List.mem_singleton.1 he
        exact (hlater.registry _ hlane.broker).symm
    · intro e he
      obtain he | he := List.mem_append.1 he
      · exact hold.passed e he
      · cases List.mem_singleton.1 he
        rw [hands.log]
        exact ⟨p, hp, hlt⟩
    · intro e he
      obtain he | he := List.mem_append.1 he
      · exact hold.behind e he
      · cases List.mem_singleton.1 he
        intro j n hn hb ht hpart
        -- No other lane reads this partition.
        have hij : j = i := by
          refine (hv.next ha).apart j i n m hn hm (hb.trans hlm.broker.symm)
            (ht.trans hlm.topic.symm) ?_
          rw [hpart, hlm.partition]
          exact hlane.place.partition
        subst hij
        rw [hm] at hn
        cases hn
        rw [hcursor]
        exact ⟨rfl, Nat.lt_succ_self _⟩
    · refine List.pairwise_append.2 ⟨h.ordered, List.pairwise_singleton .., ?_⟩
      intro e he e' he' hb ht hpart
      cases List.mem_singleton.1 he'
      have hbehind := h.behind e he i l hands.lane hb.symm ht.symm
        (hlane.place.partition.symm.trans hpart.symm)
      exact ⟨hbehind.1, Nat.lt_of_lt_of_le hbehind.2 hle⟩

end

theorem handedTo_of_after {retention : Nat} {acts : List Action} {r : Relay}
    (h : (new retention).after acts = some r) :
    r.HandedTo ((new retention).history acts) ((new retention).observe handed acts) := by
  induction h using after_induct with
  | start => exact handedTo_nil _ _
  | next acts q a s hq ha ih =>
    rw [history, observe_concat appended hq, observe_concat handed hq]
    exact ih.next (valid_of_after hq) ha

end Relay
end EventRelay
