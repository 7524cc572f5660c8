import EventRelay.Proofs.Log.Readers
/-!
The offsets, the routing and the high watermarks of a topic, from its creation until it is gone.
Main statement: `numbers_of_created`.
-/
namespace EventRelay.Log
open History

namespace Session

/-- What holds of a topic with `n` partitions that was created anew before `tr`. -/
structure Numbers (t : String) (n : Nat) (tr : List (Op × Reply)) (s : Session) : Prop where
  routed : ∀ rec ∈ appended t tr, rec.partition = partitionFor rec.key n ∧ rec.partition < n
  /-- The records of a partition are acknowledged with 0, 1, 2 and so on. -/
  dense : ∀ (p j : Nat) rec, (appendedTo t p tr)[j]? = some rec → rec.offset = j
  distinct : ((appended t tr).map fun rec => (⟨rec.partition, rec.offset⟩ : Ack)).Nodup
  watermarks : isGone t tr = false →
    s.log.highWatermarks t = .ok ((List.range n).map fun p => (appendedTo t p tr).length)
  /-- A produce is acknowledged with the next offset and raises one high watermark of the log. -/
  produce : isGone t tr = false → ∀ key value,
    (s.step (.produce t key value)).1 =
      .acked ⟨partitionFor key n, (appendedTo t (partitionFor key n) tr).length⟩ ∧
    ∀ u p, (s.step (.produce t key value)).2.log.mark? u p =
      if u = t ∧ p = partitionFor key n then (s.log.mark? u p).map (· + 1) else s.log.mark? u p
  /-- A reader is given what its partition takes until the topic is gone, and nothing that one of
  the same name takes after that. -/
  readers : isGone t tr = false → ∀ p k, (s.step (.tail t p)).1 = .opened k →
    ∀ ops, let later := trace step (s.step (.tail t p)).2 ops
      (returned k later).Sublist (appendedTo t p later)

section
variable {retention i n : Nat} {t : String} {base : Nat → List Record} {tr : List (Op × Reply)}
  {hist : List (Nat × Record)} {s : Session}

theorem Lasts.mem_hist (h : s.Lasts retention t i n base tr hist) {rec : Record}
    (hrec : rec ∈ appended t tr) : (i, rec) ∈ hist := by
  have hmem : rec ∈ recordsAt hist i rec.partition := by
    rw [h.records, List.mem_append]
    exact .inr (List.mem_filter.2 ⟨hrec, decide_eq_true rfl⟩)
  exact (mem_recordsAt.1 hmem).1

theorem Lasts.routed (h : s.Lasts retention t i n base tr hist) {rec : Record}
    (hrec : rec ∈ appended t tr) :
    rec.partition = partitionFor rec.key n ∧ rec.partition < n := by
  obtain ⟨inc, hinc, -, hn⟩ := h.incarnation
  obtain ⟨inc', hinc', -, hp⟩ := h.keeps.source i rec (h.mem_hist hrec)
  rw [hinc] at hinc'
  cases hinc'
  have hlt := inc.partitionFor_lt rec.key
  rw [hn] at hp hlt
  exact ⟨hp, hp ▸ hlt⟩

theorem Lasts.distinct (h : s.Lasts retention t i n base tr hist) :
    ((appended t tr).map fun rec => (⟨rec.partition, rec.offset⟩ : Ack)).Nodup := by
  refine List.pairwise_map.2 (List.pairwise_iff_forall_sublist.2 fun {x y} hxy heq => ?_)
  obtain ⟨hp, ho⟩ := Ack.mk.inj heq
  have hsub : [x, y].Sublist (appendedTo t x.partition tr) := by
    have hfilter := hxy.filter fun rec => decide (rec.partition = x.partition)
    rwa [List.filter_eq_self.2 (by simp [hp])] at hfilter
  have hlt := List.pairwise_iff_forall_sublist.1 (h.numbered rfl).pairwise hsub
  exact Nat.ne_of_lt hlt ho

theorem Lasts.produce (h : s.Lasts retention t i n base tr hist) (hg : isGone t tr = false)
    (key : String) (value : List UInt8) :
    (s.step (.produce t key value)).1 = .acked ⟨partitionFor key n,
      (base (partitionFor key n)).length + (appendedTo t (partitionFor key n) tr).length⟩ ∧
    ∀ u p, (s.step (.produce t key value)).2.log.mark? u p =
      if u = t ∧ p = partitionFor key n then (s.log.mark? u p).map (· + 1)
      else s.log.mark? u p := by
  obtain ⟨inc, hf, rfl⟩ := h.find hg
  obtain ⟨-, -, hinc⟩ := find_eq_ok.1 hf
  cases hl : s.log.produce t key value with
  | error e => simp [Log.produce, hf, bind, Except.bind, pure, Except.pure] at hl
  | ok x =>
    obtain ⟨ack, log⟩ := x
    obtain ⟨j, rec, inc', inc'', q, -, ha, rfl, rfl, -, rfl⟩ :=
      produce_appends hl h.keeps.sound
    obtain ⟨rfl, rfl⟩ := Prod.mk.inj (Except.ok.inj (ha.find.symm.trans hf))
    have hq : s.log.partition? ⟨j, rec.partition, 0⟩ = some q :=
      partition?_eq_some.2 ⟨inc', hinc, ha.partition⟩
    have hnext : rec.offset = _ := ha.offset.trans (h.next rfl hq)
    simp only [Session.step, hl, ← ha.routed, hnext, true_and]
    exact ha.mark? h.keeps.sound

theorem Lasts.numbers (h : s.Lasts retention t i n (fun _ => []) tr hist) : s.Numbers t n tr where
  routed _ := h.routed
  dense p j rec hj := by rw [h.offset hj, List.length_nil, Nat.zero_add]
  distinct := h.distinct
  watermarks hg := by simpa using h.highWatermarks hg
  produce hg key value := by simpa using h.produce hg key value
  readers _ p k hk ops := by
    obtain ⟨i, n, w, -, -, hw, hl, hreads⟩ := reads_of_tail h.keeps hk
    exact (hreads.after hl hw ops).sublist

end

theorem numbers_of_created {retention n : Nat} {t : String} {before : List Op}
    (hnone : (after step (new retention) before).log.partitionCount t = none)
    (hdone : ((after step (new retention) before).step (.create t n)).1 = .done) :
    let s := ((after step (new retention) before).step (.create t n)).2
    s.log.highWatermarks t = .ok (List.replicate n 0) ∧
      ∀ ops, (after step s ops).Numbers t n (trace step s ops) := by
  obtain ⟨hist, hkeeps⟩ := keeps_after retention before
  cases hl : (after step (new retention) before).log.create t n with
  | error e => simp [step, change, hl] at hdone
  | ok log =>
    have hlasts := lasts_of_create hkeeps hl hnone
    simp only [step, change, hl]
    refine ⟨?_, fun ops => ?_⟩
    · simpa [appendedTo, appended] using hlasts.highWatermarks rfl
    · obtain ⟨hist', h⟩ := hlasts.after ops
      exact h.numbers

/-- A topic that took two records, one of them for a reader, and is gone. -/
def lostTopic : List Op :=
  [.create "t" 2, .produce "t" "a" [1], .tail "t" 0, .produce "t" "a" [2], .delete "t"]

/-- Three records for the topic that comes after it, while both have a reader. -/
def newRecords : List Op :=
  [.produce "t" "a" [3], .tail "t" 0, .produce "t" "b" [4], .produce "t" "a" [5], .next 0, .next 0,
    .next 1]

/-- The offsets begin anew, and each reader is given the records of its own incarnation. -/
theorem numbers_of_created_of_lost :
    (after step (new 4) lostTopic).log.partitionCount "t" = none ∧
    ((after step (new 4) lostTopic).step (.create "t" 2)).1 = .done ∧
    let s := ((after step (new 4) lostTopic).step (.create "t" 2)).2
    (after step s newRecords).Numbers "t" 2 (trace step s newRecords) ∧
      (after step s newRecords).log.highWatermarks "t" = .ok [2, 1] ∧
      returned 0 (trace step s newRecords) = [⟨"t", 0, 1, "a", [2]⟩] ∧
      returned 1 (trace step s newRecords) = [⟨"t", 0, 1, "a", [5]⟩] := by
  have hnone : (after step (new 4) lostTopic).log.partitionCount "t" = none := by decide +kernel
  have hdone : ((after step (new 4) lostTopic).step (.create "t" 2)).1 = .done := by
    decide +kernel
  have hall := (numbers_of_created hnone hdone).2 newRecords
  have hmarks := hall.watermarks (by decide +kernel)
  refine ⟨hnone, hdone, hall, hmarks.trans (congrArg _ ?_), by decide +kernel, by decide +kernel⟩
  decide +kernel

end Session
end EventRelay.Log
