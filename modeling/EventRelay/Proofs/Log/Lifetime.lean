import EventRelay.Proofs.Log.Session
/-!
An incarnation of a topic over the rest of a history. Main statement: `Lasts.after`, it stands for
its topic until that is gone, and holds the records that the topic took until then.
-/
namespace EventRelay.Log
open History

def mark? (l : Log) (t : String) (p : Nat) : Option Nat :=
  (l.highWatermarks t).toOption.bind (·[p]?)

theorem mark?_eq (l : Log) (t : String) (p : Nat) : l.mark? t p =
    if l.closed then none
    else (l.topics.find? t).bind fun i => (l.partition? ⟨i, p, 0⟩).map Partition.next := by
  unfold mark? highWatermarks find current? partition?
  cases hc : l.closed with
  | true => rfl
  | false =>
    cases ht : l.topics.find? t with
    | none => rfl
    | some i =>
      cases hi : l.incarnations[i]? <;>
        simp [hi, bind, Except.bind, Except.toOption, pure, Except.pure]

theorem Appends.mark? {l l' : Log} {i : Nat} {rec : Record} {inc inc' : Incarnation} {q : Partition}
    (h : l.Appends l' i rec inc inc' q) (hs : l.Sound) (u : String) (p : Nat) :
    l'.mark? u p = if u = rec.topic ∧ p = rec.partition then (l.mark? u p).map (· + 1)
      else l.mark? u p := by
  obtain ⟨hopen, ht, hinc⟩ := find_eq_ok.1 h.find
  have hsame : l'.closed = l.closed ∧ l'.topics = l.topics := by rw [h.log]; exact ⟨rfl, rfl⟩
  rw [mark?_eq, mark?_eq, hsame.1, hsame.2, hopen]
  by_cases hu : u = rec.topic
  · by_cases hp : p = rec.partition
    · obtain ⟨hold, hnew⟩ := h.partition_self (c := ⟨i, p, 0⟩) rfl hp
      simp [hu, ht, ← hp, hold, hnew]
    · have hne := h.partition_of_ne (c := ⟨i, p, 0⟩) fun hc => hp hc.2
      simp [hu, ht, hp, hne]
  · cases hf : l.topics.find? u with
    | none => simp
    | some j =>
      -- Another topic stands for another incarnation.
      have hji : j ≠ i := by
        rintro rfl
        exact hu ((hs.topic_eq hf hinc).symm.trans (hs.topic_eq ht hinc))
      have hne := h.partition_of_ne (c := ⟨j, p, 0⟩) fun hc => hji hc.1
      simp [hu, hne]

namespace Session

/-- Since `tr` began, with `base` in the partitions, the incarnation `i` stands for its topic and
takes its records until this is gone. -/
structure Lasts (retention : Nat) (t : String) (i n : Nat) (base : Nat → List Record)
    (tr : List (Op × Reply)) (hist : List (Nat × Record)) (s : Session) : Prop where
  keeps : s.log.Keeps retention hist
  incarnation : ∃ inc : Incarnation, s.log.incarnations[i]? = some inc ∧ inc.topic = t ∧
    inc.partitions.size = n
  current : s.log.topics.find? t = some i ↔ isGone t tr = false
  records : ∀ p, recordsAt hist i p = base p ++ appendedTo t p tr

section
variable {retention i n : Nat} {t : String} {base : Nat → List Record} {tr : List (Op × Reply)}
  {hist : List (Nat × Record)} {s s' : Session} {op : Op} {r : Reply}

theorem Lasts.lt (h : s.Lasts retention t i n base tr hist) : i < s.log.incarnations.size := by
  obtain ⟨inc, hinc, -⟩ := h.incarnation
  exact (Array.getElem?_eq_some_iff.1 hinc).1

theorem Lasts.keep (h : s.Lasts retention t i n base tr hist)
    (hkeeps : s'.log.Keeps retention hist) (hgrows : s.log.Grows s'.log)
    (hnone : appendedBy t (op, r) = none)
    (hcurrent : s.log.topics.find? t = some i →
      (s'.log.topics.find? t = some i ↔ endsTopic t (op, r) = false)) :
    s'.Lasts retention t i n base (tr ++ [(op, r)]) hist where
  keeps := hkeeps
  incarnation := by
    obtain ⟨inc, hinc, ht, hn⟩ := h.incarnation
    obtain ⟨inc', hinc', ht', hn'⟩ := hgrows.incarnation i inc hinc
    exact ⟨inc', hinc', ht'.trans ht, hn'.trans hn⟩
  current := by
    rw [isGone_concat, Bool.or_eq_false_iff, ← h.current]
    constructor
    · intro hnow
      have hbefore := hgrows.retired t i hnow h.lt
      exact ⟨hbefore, (hcurrent hbefore).1 hnow⟩
    · intro hall
      exact (hcurrent hall.1).2 hall.2
  records p := by rw [appendedTo_concat_of_none fun _ => hnone, h.records]

theorem Lasts.same (h : s.Lasts retention t i n base tr hist) (hlog : s'.log = s.log)
    (hnone : appendedBy t (op, r) = none) (hends : endsTopic t (op, r) = false) :
    s'.Lasts retention t i n base (tr ++ [(op, r)]) hist := by
  refine h.keep (hlog ▸ h.keeps) (hlog ▸ .refl _) hnone fun hnow => ?_
  rw [hlog]
  exact ⟨fun _ => hends, fun _ => hnow⟩

theorem Lasts.creates (h : s.Lasts retention t i n base tr hist) {u : String} {m : Nat} {log : Log}
    (hl : s.log.create u m = .ok log) :
    ({ s with log } : Session).Lasts retention t i n base (tr ++ [(.create u m, .done)]) hist := by
  refine h.keep (h.keeps.create hl) (grows_create hl) rfl fun hnow => ?_
  have hfind : log.topics.find? t = some i := by
    obtain ⟨-, -, ⟨-, rfl⟩ | ⟨hm, hnone, rfl⟩⟩ := create_ok hl
    · exact hnow
    · have hne : u ≠ t := by
        rintro rfl
        rw [h.keeps.sound.partitionCount_eq_none.1 hnone] at hnow
        cases hnow
      rw [Table.find?_insert, if_neg hne, hnow]
  exact ⟨fun _ => rfl, fun _ => hfind⟩

theorem Lasts.deletes (h : s.Lasts retention t i n base tr hist) {u : String} {log : Log}
    (hl : s.log.delete u = .ok log) :
    ({ s with log } : Session).Lasts retention t i n base (tr ++ [(.delete u, .done)]) hist := by
  refine h.keep (h.keeps.delete hl) (grows_delete hl) rfl fun hnow => ?_
  obtain ⟨-, rfl⟩ := delete_ok hl
  rw [Table.find?_erase, hnow]
  by_cases hu : u = t <;> simp [endsTopic, hu]

theorem Lasts.closes (h : s.Lasts retention t i n base tr hist) :
    ({ s with log := s.log.close } : Session).Lasts retention t i n base
      (tr ++ [(.close, .done)]) hist := by
  refine h.keep h.keeps.close (grows_close _) rfl fun _ => ?_
  exact ⟨nofun, nofun⟩

theorem Lasts.takes (h : s.Lasts retention t i n base tr hist) {j : Nat} {inc : Incarnation}
    {u : String} (hf : s.log.find u = .ok (j, inc)) : j = i ↔ u = t ∧ isGone t tr = false := by
  obtain ⟨-, hu, -⟩ := find_eq_ok.1 hf
  rw [← h.current]
  constructor
  · rintro rfl
    obtain ⟨inc', hinc', rfl, -⟩ := h.incarnation
    obtain rfl := h.keeps.sound.topic_eq hu hinc'
    exact ⟨rfl, hu⟩
  · rintro ⟨rfl, hnow⟩
    exact Option.some.inj (hu.symm.trans hnow)

theorem Lasts.produces (h : s.Lasts retention t i n base tr hist) {u key : String}
    {value : List UInt8} {ack : Ack} {log : Log}
    (hl : s.log.produce u key value = .ok (ack, log)) :
    ∃ hist', ({ s with log } : Session).Lasts retention t i n base
      (tr ++ [(.produce u key value, .acked ack)]) hist' := by
  obtain ⟨j, rec, inc, inc', q, -, ha, rfl, rfl, rfl, rfl⟩ := produce_appends hl h.keeps.sound
  have htakes := h.takes ha.find
  obtain ⟨inc₀, hinc₀, ht₀, hn₀⟩ := h.incarnation
  obtain ⟨inc₁, hinc₁, ht₁, hn₁⟩ := ha.grows.incarnation i inc₀ hinc₀
  refine ⟨hist ++ [(j, rec)], h.keeps.appends ha, ⟨inc₁, hinc₁, ht₁.trans ht₀, hn₁.trans hn₀⟩,
    ?_, fun p => ?_⟩
  · rw [isGone_concat, show endsTopic t _ = false from rfl, Bool.or_false, ← h.current, ha.log]
  · rw [recordsAt_append, h.records]
    by_cases hj : j = i
    · obtain ⟨rfl, hg⟩ := htakes.1 hj
      have hsome : appendedBy rec.topic (.produce rec.topic rec.key rec.value,
          .acked ⟨rec.partition, rec.offset⟩) = some rec := if_pos rfl
      rw [appendedTo_concat_of_some hg hsome, List.append_assoc]
      by_cases hp : rec.partition = p <;> simp [recordsAt, hj, hp]
    · have hnone : isGone t tr = false → appendedBy t (.produce rec.topic rec.key rec.value,
          .acked ⟨rec.partition, rec.offset⟩) = none :=
        fun hg => if_neg fun hu => hj (htakes.2 ⟨hu, hg⟩)
      rw [appendedTo_concat_of_none hnone]
      simp [recordsAt, hj]

theorem Lasts.step (h : s.Lasts retention t i n base tr hist) (hd : s.Does op r s') :
    ∃ hist', s'.Lasts retention t i n base (tr ++ [(op, r)]) hist' := by
  cases hd with
  | creates hl => exact ⟨hist, h.creates hl⟩
  | deletes hl => exact ⟨hist, h.deletes hl⟩
  | produces hl => exact h.produces hl
  | fails => exact ⟨hist, h.same rfl (by cases op <;> rfl) (by cases op <;> rfl)⟩
  | closes => exact ⟨hist, h.closes⟩
  | opens | counts | returns | waits | ends | lacks | drops =>
    exact ⟨hist, h.same rfl rfl rfl⟩

theorem Lasts.after (h : s.Lasts retention t i n base tr hist) (ops : List Op) :
    ∃ hist', (after Session.step s ops).Lasts retention t i n base
      (tr ++ trace Session.step s ops) hist' := by
  induction ops generalizing s tr hist with
  | nil => exact ⟨hist, by rwa [trace, List.append_nil]⟩
  | cons op ops ih =>
    obtain ⟨hist', h'⟩ := h.step (s.step_does op)
    rw [trace, List.append_cons]
    exact ih h'

theorem Lasts.offset (h : s.Lasts retention t i n base tr hist) {p j : Nat} {rec : Record}
    (hj : (appendedTo t p tr)[j]? = some rec) : rec.offset = (base p).length + j := by
  refine h.keeps.offset (i := i) (p := p) ?_
  rw [h.records, List.getElem?_append_right (Nat.le_add_right ..), Nat.add_sub_cancel_left, hj]

theorem Lasts.next (h : s.Lasts retention t i n base tr hist) {c : Cursor} {q : Partition}
    (hc : c.incarnation = i) (hq : s.log.partition? c = some q) :
    q.next = (base c.partition).length + (appendedTo t c.partition tr).length := by
  rw [← (h.keeps.holds c q hq).length, hc, h.records, List.length_append]

theorem Lasts.partition (h : s.Lasts retention t i n base tr hist) {p : Nat} (hp : p < n)
    (o : Nat) : ∃ q, s.log.partition? ⟨i, p, o⟩ = some q ∧
      q.next = (base p).length + (appendedTo t p tr).length := by
  obtain ⟨inc, hinc, -, rfl⟩ := h.incarnation
  have hq : s.log.partition? ⟨i, p, o⟩ = some inc.partitions[p] :=
    partition?_eq_some.2 ⟨inc, hinc, Array.getElem?_eq_getElem hp⟩
  exact ⟨_, hq, h.next rfl hq⟩

theorem Lasts.read_of_lt (h : s.Lasts retention t i n base tr hist) {p o : Nat} (hp : p < n)
    (ho : o < (base p).length + (appendedTo t p tr).length) :
    ∃ rec, s.log.read ⟨i, p, o⟩ = .record rec := by
  obtain ⟨q, hq, hnext⟩ := h.partition hp o
  exact ⟨q.record o (by omega), by simp only [read, hq]; exact dif_pos (by omega)⟩

theorem Lasts.read_end (h : s.Lasts retention t i n base tr hist) {p : Nat} (hp : p < n) :
    s.log.read ⟨i, p, (base p).length + (appendedTo t p tr).length⟩ =
      if isGone t tr then .ended else .pending := by
  obtain ⟨q, hq, hnext⟩ := h.partition hp ((base p).length + (appendedTo t p tr).length)
  obtain ⟨inc, hinc, rfl, -⟩ := h.incarnation
  have hcurrent : s.log.isCurrent i = !isGone inc.topic tr := by
    rw [isCurrent, hinc, Option.any_some, Bool.eq_iff_iff, decide_eq_true_iff, h.current,
      Bool.not_eq_true']
  simp only [read, hq, hnext, Nat.lt_irrefl, dif_neg, not_false_eq_true, hcurrent]
  cases isGone inc.topic tr <;> rfl

theorem Lasts.find (h : s.Lasts retention t i n base tr hist) (hg : isGone t tr = false) :
    ∃ inc : Incarnation, s.log.find t = .ok (i, inc) ∧ inc.partitions.size = n := by
  obtain ⟨inc, hinc, -, hn⟩ := h.incarnation
  obtain ⟨inc', hf, -⟩ := h.keeps.sound.find (h.current.2 hg)
  obtain ⟨-, -, hinc'⟩ := find_eq_ok.1 hf
  rw [hinc] at hinc'
  cases hinc'
  exact ⟨inc, hf, hn⟩

theorem Lasts.highWatermarks (h : s.Lasts retention t i n base tr hist)
    (hg : isGone t tr = false) : s.log.highWatermarks t =
      .ok ((List.range n).map fun p => (base p).length + (appendedTo t p tr).length) := by
  obtain ⟨inc, hf, rfl⟩ := h.find hg
  obtain ⟨-, -, hinc⟩ := find_eq_ok.1 hf
  have hmarks : inc.partitions.toList.map Partition.next =
      (List.range inc.partitions.size).map fun p =>
        (base p).length + (appendedTo t p tr).length := by
    refine List.ext_getElem (by simp) fun p hp _ => ?_
    have hlt : p < inc.partitions.size := by simpa using hp
    have hq : s.log.partition? ⟨i, p, 0⟩ = some inc.partitions[p] :=
      partition?_eq_some.2 ⟨inc, hinc, Array.getElem?_eq_getElem hlt⟩
    simpa using h.next rfl hq
  rw [Log.highWatermarks, hf, ← hmarks]
  rfl

end

theorem keeps_step {retention : Nat} {hist : List (Nat × Record)} {s s' : Session} {op : Op}
    {r : Reply} (h : s.log.Keeps retention hist) (hd : s.Does op r s') :
    ∃ hist', s'.log.Keeps retention hist' := by
  cases hd with
  | creates hl => exact ⟨hist, h.create hl⟩
  | deletes hl => exact ⟨hist, h.delete hl⟩
  | produces hl =>
    obtain ⟨i, rec, inc, inc', q, -, ha, -⟩ := produce_appends hl h.sound
    exact ⟨hist ++ [(i, rec)], h.appends ha⟩
  | closes => exact ⟨hist, h.close⟩
  | fails | opens | counts | returns | waits | ends | lacks | drops => exact ⟨hist, h⟩

theorem keeps_after (retention : Nat) (ops : List Op) :
    ∃ hist, (after step (new retention) ops).log.Keeps retention hist := by
  induction ops using List.reverseRecOn with
  | nil => exact ⟨[], keeps_new retention⟩
  | append_singleton ops op ih =>
    obtain ⟨hist, h⟩ := ih
    rw [after_concat]
    exact keeps_step h (step_does _ op)

theorem lasts_of_find {retention i : Nat} {t : String} {inc : Incarnation}
    {hist : List (Nat × Record)} {s : Session} (h : s.log.Keeps retention hist)
    (hf : s.log.find t = .ok (i, inc)) :
    s.Lasts retention t i inc.partitions.size (recordsAt hist i) [] hist := by
  obtain ⟨-, ht, hinc⟩ := find_eq_ok.1 hf
  exact ⟨h, ⟨inc, hinc, h.sound.topic_eq ht hinc, rfl⟩, ⟨fun _ => rfl, fun _ => ht⟩,
    fun p => (List.append_nil _).symm⟩

theorem lasts_of_create {retention n : Nat} {t : String} {hist : List (Nat × Record)} {s : Session}
    {log : Log} (h : s.log.Keeps retention hist) (hl : s.log.create t n = .ok log)
    (hnone : s.log.partitionCount t = none) :
    ({ s with log } : Session).Lasts retention t s.log.incarnations.size n (fun _ => []) []
      hist := by
  have hk := h.create hl
  obtain ⟨hopen, -, ⟨hsome, -⟩ | ⟨hn, -, rfl⟩⟩ := create_ok hl
  · rw [hnone] at hsome
    cases hsome
  · refine ⟨hk, ⟨_, Array.getElem?_push_size, rfl, by simp [Incarnation.new]⟩,
      ⟨fun _ => rfl, fun _ => ?_⟩, fun p => h.recordsAt_size p⟩
    rw [Table.find?_insert, if_pos rfl]

end Session
end EventRelay.Log
