import EventRelay.Proofs.Admission.Crews
import EventRelay.Proofs.Delivery.Handover
/-!
What becomes of one record that is appended while a lane reads its partition. Main statements:
`Fate.next`, the step, and `fate_of_appended`, the run from the append on.
-/
namespace EventRelay.Relay

section
variable (retention : Nat) (acts : List Action) (b i : Nat) (rec : Record)

def WasHanded : Prop :=
  ∃ e ∈ (new retention).observe handed acts,
    e.broker = b ∧ e.place = ⟨i, rec.partition, rec.offset⟩

/-- The record is out of the window and a lane of broker `b` has yet to reach it: a whole window
of later records stands behind it. -/
def IsOvertaken (r : Relay) : Prop :=
  ∃ j l p, r.lanes.find? j = some l ∧ l.broker = b ∧ l.reader.cursor.incarnation = i ∧
    l.partition = rec.partition ∧ l.reader.cursor.offset ≤ rec.offset ∧
    r.log.partition? l.reader.cursor = some p ∧ rec.offset + windowSize retention < p.next

def WasOvertaken : Prop := (new retention).Passes acts (IsOvertaken retention b i rec)

inductive Standing (c : Nat) (next : Nat) : Prop
  | ahead (hc : c ≤ rec.offset) (hh : ¬ WasHanded retention acts b i rec)
      (ho : ¬ WasOvertaken retention acts b i rec)
  | handed (hc : rec.offset < c) (hh : WasHanded retention acts b i rec)
      (ho : ¬ WasOvertaken retention acts b i rec)
  | lost (hc : rec.offset < c ∨ rec.offset + windowSize retention < next)
      (hh : ¬ WasHanded retention acts b i rec) (ho : WasOvertaken retention acts b i rec)

/-- Lane `j` reads the partition of the record in the incarnation that took it. -/
structure Fate (r : Relay) (j : Nat) (l : Lane) (p : Partition) : Prop where
  lane : r.lanes.find? j = some l
  broker : l.broker = b
  topic : l.topic = rec.topic
  partition : l.partition = rec.partition
  incarnation : l.reader.cursor.incarnation = i
  holds : r.log.partition? l.reader.cursor = some p
  appended : rec.offset < p.next
  standing : Standing retention acts b i rec l.reader.cursor.offset p.next

end

section
variable {r s : Relay} {retention : Nat} {acts : List Action} {b i j : Nat} {rec : Record}
  {l : Lane} {p : Partition}

theorem wasHanded_concat (h : (new retention).after acts = some r) (a : Action) :
    WasHanded retention (acts ++ [a]) b i rec ↔ WasHanded retention acts b i rec ∨
      ∃ e ∈ r.handed a, e.broker = b ∧ e.place = ⟨i, rec.partition, rec.offset⟩ := by
  simp only [WasHanded, observe_concat handed h, List.mem_append, or_and_right, exists_or]

theorem Valid.same_lane {hist : List (Nat × Record)} (h : r.Valid retention hist) {k : Nat}
    {m : Lane} (hj : r.lanes.find? j = some l) (hk : r.lanes.find? k = some m)
    (hb : m.broker = l.broker) (hi : m.reader.cursor.incarnation = l.reader.cursor.incarnation)
    (hp : m.partition = l.partition) : k = j ∧ m = l := by
  have htopic : m.topic = l.topic := by
    obtain ⟨inc, hinc, ht⟩ := (h.lanes j l hj).place.topic
    obtain ⟨inc', hinc', ht'⟩ := (h.lanes k m hk).place.topic
    rw [hi, hinc, Option.some.injEq] at hinc'
    rw [← ht, ← ht', hinc']
  have hkj := h.apart k j m l hk hj hb htopic hp
  subst hkj
  rw [hj, Option.some.injEq] at hk
  exact ⟨rfl, hk.symm⟩

theorem isOvertaken_iff {hist : List (Nat × Record)} (h : r.Valid retention hist)
    (hj : r.lanes.find? j = some l) (hb : l.broker = b) (hi : l.reader.cursor.incarnation = i)
    (hp : l.partition = rec.partition) (hq : r.log.partition? l.reader.cursor = some p) :
    IsOvertaken retention b i rec r ↔ l.reader.cursor.offset ≤ rec.offset ∧
      rec.offset + windowSize retention < p.next := by
  constructor
  · intro hall
    obtain ⟨k, m, q, hk, hb', hi', hp', hle, hq', hlt⟩ := hall
    obtain ⟨-, rfl⟩ := h.same_lane hj hk (hb'.trans hb.symm) (hi'.trans hi.symm)
      (hp'.trans hp.symm)
    rw [hq, Option.some.injEq] at hq'
    exact ⟨hle, hq' ▸ hlt⟩
  · intro hall
    obtain ⟨hle, hlt⟩ := hall
    exact ⟨j, l, p, hj, hb, hi, hp, hle, hq, hlt⟩

theorem Hands.of_place {hist : List (Nat × Record)} (hv : r.Valid retention hist) {a : Action}
    {k : Nat} {m : Lane} {rec' : Record} (h : r.Hands a s k m rec')
    (hj : r.lanes.find? j = some l) (hb : l.broker = b) (hi : l.reader.cursor.incarnation = i)
    (hp : l.partition = rec.partition) :
    (∃ e ∈ r.handed a, e.broker = b ∧ e.place = ⟨i, rec.partition, rec.offset⟩) ↔
      k = j ∧ rec'.offset = rec.offset := by
  have hcolumn := (hv.lanes k m h.lane).place.partition
  rw [h.handed]
  constructor
  · intro hall
    obtain ⟨e, he, hb', hplace⟩ := hall
    rw [List.mem_singleton] at he
    subst he
    simp only [Cursor.mk.injEq] at hplace
    obtain ⟨hi', hp', ho⟩ := hplace
    have hsame := hv.same_lane hj h.lane (hb'.trans hb.symm) (hi'.trans hi.symm)
      ((hcolumn.symm.trans hp').trans hp.symm)
    exact ⟨hsame.1, ho⟩
  · intro hall
    obtain ⟨rfl, ho⟩ := hall
    have hlane := h.lane
    rw [hj, Option.some.injEq] at hlane
    subst hlane
    refine ⟨_, List.mem_singleton_self _, hb, ?_⟩
    rw [← hi, ← hp, ← hcolumn, ← ho]

theorem Standing.stay {acts' : List Action} {c n n' : Nat}
    (h : Standing retention acts b i rec c n) (hn : n ≤ n')
    (hh : WasHanded retention acts' b i rec ↔ WasHanded retention acts b i rec)
    (ho : WasOvertaken retention acts' b i rec ↔ WasOvertaken retention acts b i rec ∨
      c ≤ rec.offset ∧ rec.offset + windowSize retention < n') :
    Standing retention acts' b i rec c n' := by
  cases h with
  | ahead hc hnot hfree =>
    by_cases hlt : rec.offset + windowSize retention < n'
    · exact .lost (.inr hlt) (by rw [hh]; exact hnot) (ho.2 (.inr ⟨hc, hlt⟩))
    · refine .ahead hc (by rw [hh]; exact hnot) ?_
      rw [ho]
      exact fun hover => hover.elim hfree fun hx => hlt hx.2
  | handed hc hdone hfree =>
    refine .handed hc (hh.2 hdone) ?_
    rw [ho]
    exact fun hover => hover.elim hfree fun hx => Nat.not_le.2 hc hx.1
  | lost hc hnot hover =>
    exact .lost (hc.imp_right fun hlt => Nat.lt_of_lt_of_le hlt hn) (by rw [hh]; exact hnot)
      (ho.2 (.inl hover))

theorem Standing.read {acts' : List Action} {c n o : Nat}
    (h : Standing retention acts b i rec c n) (hread : o = max c (n - windowSize retention))
    (hnow : c ≤ rec.offset → rec.offset + windowSize retention < n →
      WasOvertaken retention acts b i rec)
    (hh : WasHanded retention acts' b i rec ↔
      WasHanded retention acts b i rec ∨ o = rec.offset)
    (ho : WasOvertaken retention acts' b i rec ↔ WasOvertaken retention acts b i rec ∨
      o + 1 ≤ rec.offset ∧ rec.offset + windowSize retention < n) :
    Standing retention acts' b i rec (o + 1) n := by
  cases h with
  | ahead hc hnot hfree =>
    have hin : ¬ rec.offset + windowSize retention < n := fun hlt => hfree (hnow hc hlt)
    have hstill : ¬ WasOvertaken retention acts' b i rec := by
      rw [ho]
      exact fun hover => hover.elim hfree fun hx => hin hx.2
    by_cases heq : o = rec.offset
    · exact .handed (by omega) (hh.2 (.inr heq)) hstill
    · refine .ahead (by omega) ?_ hstill
      rw [hh]
      exact fun hx => hx.elim hnot heq
  | handed hc hdone hfree =>
    refine .handed (by omega) (hh.2 (.inl hdone)) ?_
    rw [ho]
    exact fun hover => hover.elim hfree fun hx => by omega
  | lost hc hnot hover =>
    have hpast : rec.offset < o := by omega
    refine .lost (.inl (by omega)) ?_ (ho.2 (.inl hover))
    rw [hh]
    exact fun hx => hx.elim hnot fun heq => by omega

theorem Fate.next (hr : (new retention).after acts = some r) {a : Action} (ha : r.act a = some s)
    (h : Fate retention acts b i rec r j l p) {m : Lane} (hm : s.lanes.find? j = some m) :
    ∃ p', Fate retention (acts ++ [a]) b i rec s j m p' := by
  have hv := valid_of_after hr
  have hv' := hv.next ha
  have hlater := hv.later (hv.change ha)
  obtain ⟨k, hk, hlm⟩ := hlater.lane j m (hv.lanes j l h.lane).number hm
  rw [h.lane, Option.some.injEq] at hk
  subst hk
  have hb := hlm.broker.trans h.broker
  have hi := hlm.incarnation.trans h.incarnation
  have hp := hlm.partition.trans h.partition
  -- The partition is the same one, with more records perhaps.
  obtain ⟨p', hp', hnext⟩ := hlater.log.next _ p h.holds
  have hq : s.log.partition? m.reader.cursor = some p' := by
    rw [← hp', Log.partition?, Log.partition?, hlm.incarnation, hlm.column]
  have hover : IsOvertaken retention b i rec s ↔ _ := isOvertaken_iff hv' hm hb hi hp hq
  have hhanded : WasHanded retention (acts ++ [a]) b i rec ↔ _ := wasHanded_concat hr a
  have hovertaken : WasOvertaken retention (acts ++ [a]) b i rec ↔
      WasOvertaken retention acts b i rec ∨ m.reader.cursor.offset ≤ rec.offset ∧
        rec.offset + windowSize retention < p'.next := by
    rw [← hover]
    exact passes_concat (after_concat.2 ⟨r, hr, ha⟩)
  refine ⟨p', hm, hb, hlm.topic.trans h.topic, hp, hi, hq, Nat.lt_of_lt_of_le h.appended hnext, ?_⟩
  obtain ⟨hnone, hcursor⟩ | ⟨k, n, rec', hands⟩ := (hv.change ha).hands_or hv
  · have hsame := congrArg Cursor.offset (hcursor j l m h.lane hm)
    rw [hsame] at hovertaken ⊢
    refine h.standing.stay hnext ?_ hovertaken
    rw [hhanded, hnone]
    simp
  · have hplace := hands.of_place hv h.lane h.broker h.incarnation h.partition
    rw [hplace] at hhanded
    by_cases hkj : k = j
    · subst hkj
      have hlane := hands.lane
      rw [h.lane, Option.some.injEq] at hlane
      subst hlane
      obtain ⟨m', hm', -, hcursor⟩ := hands.next
      rw [hm, Option.some.injEq] at hm'
      subst hm'
      obtain ⟨q, hread, -, hmax, -⟩ := hv.log.read hands.read
      rw [h.holds, Option.some.injEq] at hread
      subst hread
      have hsame : p' = p := by
        rw [hands.log, h.holds, Option.some.injEq] at hp'
        exact hp'.symm
      subst hsame
      rw [hcursor] at hovertaken ⊢
      refine h.standing.read hmax (fun hle hlt => ?_) (by simpa using hhanded) hovertaken
      have hnow : IsOvertaken retention b i rec r ↔ _ :=
        isOvertaken_iff hv h.lane h.broker h.incarnation h.partition h.holds
      exact Passes.now hr (hnow.2 ⟨hle, hlt⟩)
    · have hsame : m = l := by
        rw [hands.others j (Ne.symm hkj), h.lane, Option.some.injEq] at hm
        exact hm.symm
      rw [hsame] at hovertaken ⊢
      refine h.standing.stay hnext ?_ hovertaken
      rw [hhanded]
      simp [hkj]

theorem not_handed_of_appends (hr : (new retention).after acts = some r) {l' : Log}
    {inc inc' : Incarnation} (h : r.log.Appends l' i rec inc inc' p) :
    ¬ WasHanded retention acts b i rec := by
  intro hhanded
  obtain ⟨e, he, -, heq⟩ := hhanded
  obtain ⟨q, hq, hlt⟩ := (handedTo_of_after hr).passed e he
  rw [(h.partition_self (c := e.place) (by rw [heq]) (by rw [heq])).1, Option.some.injEq] at hq
  rw [heq, ← hq, ← h.offset] at hlt
  exact Nat.lt_irrefl _ hlt

theorem not_overtaken_of_appends (hr : (new retention).after acts = some r) {l' : Log}
    {inc inc' : Incarnation} (h : r.log.Appends l' i rec inc inc' p) :
    ¬ WasOvertaken retention acts b i rec := by
  intro hover
  obtain ⟨pre, q, ⟨post, rfl⟩, hq, k, n, p', hk, -, hin, hpn, -, hp', hlt⟩ := hover
  rw [after_append, hq, Option.bind_some] at hr
  have hcolumn := ((valid_of_after hq).lanes k n hk).place.partition
  obtain ⟨p'', hp'', hle⟩ := ((valid_of_after hq).run hr).2.log.next _ p' hp'
  rw [(h.partition_self hin (hcolumn.trans hpn)).1, Option.some.injEq] at hp''
  rw [← hp'', ← h.offset] at hle
  omega

theorem fate_of_appended (hr : (new retention).after acts = some r) {a : Action}
    (ha : r.act a = some s) (hrec : (i, rec) ∈ r.appended a) (hj : r.lanes.find? j = some l)
    (hb : l.broker = b) (ht : l.topic = rec.topic) (hp : l.partition = rec.partition)
    (hi : l.reader.cursor.incarnation = i) {m : Lane} (hm : s.lanes.find? j = some m) :
    ∃ p, Fate retention (acts ++ [a]) b i rec s j m p := by
  have hv := valid_of_after hr
  have hlater := hv.later (hv.change ha)
  obtain ⟨hone, inc, inc', p, happ⟩ := hv.appends ha hrec
  obtain ⟨k, hk, hlm⟩ := hlater.lane j m (hv.lanes j l hj).number hm
  rw [hj, Option.some.injEq] at hk
  subst hk
  -- The action appends, so it hands nothing over.
  have hquiet : r.handed a = [] ∧ m.reader.cursor = l.reader.cursor := by
    obtain ⟨hnone, hcursor⟩ | ⟨k, n, rec', hands⟩ := (hv.change ha).hands_or hv
    · exact ⟨hnone, hcursor j l m hj hm⟩
    · rw [hands.nothing] at hone
      cases hone
  obtain ⟨hnone, hcursor⟩ := hquiet
  have hplace := (hv.lanes j l hj).place
  obtain ⟨hold, hnew⟩ := happ.partition_self (c := l.reader.cursor) hi
    (hplace.partition.trans hp)
  have hoffset : l.reader.cursor.offset ≤ rec.offset := by
    obtain ⟨q, hq, hle⟩ := hplace.offset
    rw [hold, Option.some.injEq] at hq
    rw [happ.offset, hq]
    exact hle
  rw [← hcursor] at hnew hoffset
  have hnext : (p.append fun _ => rec).next = rec.offset + 1 := by
    rw [Partition.next_append, happ.offset]
  refine ⟨_, hm, hlm.broker.trans hb, hlm.topic.trans ht, hlm.partition.trans hp,
    hlm.incarnation.trans hi, hnew, by rw [hnext]; exact Nat.lt_succ_self _,
    .ahead hoffset ?_ ?_⟩
  · rw [wasHanded_concat hr, hnone]
    have hnot := not_handed_of_appends (b := b) hr happ
    simpa using hnot
  · rw [WasOvertaken, passes_concat (after_concat.2 ⟨r, hr, ha⟩), not_or]
    refine ⟨not_overtaken_of_appends hr happ, ?_⟩
    rw [isOvertaken_iff (hv.next ha) hm (hlm.broker.trans hb) (hlm.incarnation.trans hi)
      (hlm.partition.trans hp) hnew, hnext]
    have := windowSize_pos retention
    omega

/-- From the append on, the record has a fate for as long as the lane is there. -/
theorem Fate.run {post : List Action} (hr : (new retention).after acts = some r)
    (h : Fate retention acts b i rec r j l p) (hs : r.after post = some s) {m : Lane}
    (hm : s.lanes.find? j = some m) : ∃ q, Fate retention (acts ++ post) b i rec s j m q := by
  induction hs using after_induct generalizing m with
  | start =>
    have hl := h.lane
    rw [hm, Option.some.injEq] at hl
    subst hl
    exact ⟨p, by rw [List.append_nil]; exact h⟩
  | next post q a s hq ha ih =>
    have hall : (new retention).after (acts ++ post) = some q := by
      rw [after_append, hr, Option.bind_some, hq]
    have hv := valid_of_after hall
    have hnumber := Nat.lt_of_lt_of_le ((valid_of_after hr).lanes j l h.lane).number
      ((valid_of_after hr).run hq).2.nextLane
    obtain ⟨k, hk, -⟩ := (hv.later (hv.change ha)).lane j m hnumber hm
    obtain ⟨p', hfate⟩ := ih hk
    rw [← List.append_assoc]
    exact hfate.next hall ha hm

end
end EventRelay.Relay
