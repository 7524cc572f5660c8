import EventRelay.Proofs.Admission.Private
import EventRelay.Proofs.Publication.Counter
import EventRelay.Proofs.Sharing
import Mathlib.Algebra.BigOperators.Group.List.Basic
import Mathlib.Algebra.GroupWithZero.Nat
/-!
The high watermarks of a log that one broker has to itself. Main statements: `total_of_private`,
they add up to all that was appended, and `unused_of_rejected`, the topics that the broker rejected
have no part in it.
-/
namespace EventRelay

def Log.total (l : Log) : Nat :=
  (l.topicNames.map fun t => ((l.highWatermarks t).toOption.getD []).sum).sum

/-! ### Counting by kinds -/

theorem sum_map_indicator {α : Type} [DecidableEq α] {ks : List α} (hn : ks.Nodup) {x : α}
    (hx : x ∈ ks) (n : Nat) : (ks.map fun k => if x = k then n else 0).sum = n := by
  induction ks with
  | nil => cases hx
  | cons k ks ih =>
    obtain ⟨hk, hn⟩ := List.nodup_cons.1 hn
    rw [List.map_cons, List.sum_cons]
    by_cases h : x = k
    · have hnone : (ks.map fun j => if x = j then n else 0) = ks.map fun _ => 0 := by
        refine List.map_congr_left fun j hj => if_neg fun heq => ?_
        rw [← heq, h] at hj
        exact hk hj
      rw [if_pos h, hnone]
      simp
    · rw [if_neg h, ih hn ((List.mem_cons.1 hx).resolve_left h), Nat.zero_add]

/-- Things that are each of one of the kinds `ks` can be counted kind by kind. -/
theorem sum_countP {α β : Type} [DecidableEq β] {ks : List β} (hn : ks.Nodup) {xs : List α}
    {P : α → Bool} {f : α → β} (h : ∀ x ∈ xs, P x = true → f x ∈ ks) :
    (ks.map fun k => xs.countP fun x => P x && (f x = k)).sum = xs.countP P := by
  induction xs with
  | nil => simp
  | cons x xs ih =>
    have hone : ∀ k, (if (P x && decide (f x = k)) = true then 1 else 0) =
        if f x = k then (if P x = true then 1 else 0) else 0 := by
      intro k
      by_cases hk : f x = k <;> simp [hk]
    simp only [List.countP_cons, hone, List.sum_map_add, ih fun y hy => h y (.tail _ hy)]
    by_cases hP : P x = true
    · rw [sum_map_indicator hn (h x List.mem_cons_self hP)]
    · simp [hP]

theorem Log.Keeps.sum_next {l : Log} {retention : Nat} {hist : List (Nat × Record)}
    (h : l.Keeps retention hist) {i : Nat} {inc : Incarnation}
    (hi : l.incarnations[i]? = some inc) :
    (inc.partitions.toList.map Partition.next).sum = hist.countP fun e => e.1 = i := by
  have hnext : inc.partitions.toList.map Partition.next =
      (List.range inc.partitions.size).map fun p =>
        hist.countP fun e => decide (e.1 = i) && decide (e.2.partition = p) := by
    apply List.ext_getElem
    · simp
    · intro p hp hp'
      have hlt : p < inc.partitions.size := by simpa using hp
      have hpart : l.partition? ⟨i, p, 0⟩ = some inc.partitions[p] :=
        partition?_eq_some.2 ⟨inc, hi, Array.getElem?_eq_getElem hlt⟩
      have hlength := (h.holds _ _ hpart).length
      simp only [List.getElem_map, List.getElem_range, Array.getElem_toList]
      rw [← hlength, recordsAt, List.length_map, List.countP_eq_length_filter]
      simp only [Bool.decide_and]
  rw [hnext, sum_countP List.nodup_range]
  intro e he hei
  obtain ⟨inc', hi', -, hpart⟩ := h.source e.1 e.2 he
  rw [of_decide_eq_true hei, hi, Option.some.injEq] at hi'
  subst hi'
  rw [List.mem_range, hpart]
  exact inc.partitionFor_lt e.2.key

theorem Log.topic_record? {l : Log} {t key : String} {value : List UInt8} {i : Nat} {rec : Record}
    (h : l.record? t key value = some (i, rec)) : rec.topic = t := by
  unfold record? at h
  split at h
  · cases h
    rfl
  · cases h

namespace Relay

/-! ### A log of one's own -/

section
variable {retention : Nat} {acts : List Action} {r : Relay} {b : Nat}

theorem calls_of_private (h : (new retention).after acts = some r)
    (hp : ∀ a ∈ acts, a.isPrivate b = true) :
    ∀ id c, r.calls.find? id = some c → c.broker = b := by
  induction h using after_induct with
  | start =>
    intro id c hc
    cases hc
  | next acts q a s hq ha ih =>
    intro id c hc
    have hv := valid_of_after hq
    have hold := ih fun x hx => hp x (List.mem_append_left _ hx)
    have hlast := hp a (List.mem_append_right _ (List.mem_singleton_self a))
    cases hv.change ha with
    | submits b' q n =>
      have hb : b' = b := by simpa [Action.isPrivate] using hlast
      obtain ⟨-, rfl⟩ | ⟨-, hc⟩ := Table.find?_insert_eq_some.1 hc
      · exact hb
      · exact hold id c hc
    | collects => exact hold id c (Table.find?_erase_eq_some.1 hc).2
    | @calls id' b' stage _ sig hcall hs =>
      obtain ⟨stage', hcalls, -⟩ := hs.calls hv hcall
      rw [hcalls] at hc
      obtain ⟨-, rfl⟩ | ⟨-, hc⟩ := Table.find?_insert_eq_some.1 hc
      · exact hold id' ⟨b', stage⟩ hcall
      · exact hold id c hc
    | lanes hi hs => cases hs <;> exact hold id c hc
    | _ => exact hold id c hc

theorem known_of_appended {hist : List (Nat × Record)} (hv : r.Valid retention hist)
    (hcalls : ∀ id c, r.calls.find? id = some c → c.broker = b) {a : Action}
    (hp : a.isPrivate b = true) {i : Nat} {rec : Record} (h : (i, rec) ∈ r.appended a) :
    rec.topic ∈ (r.broker b).topics := by
  unfold appended at h
  split at h
  · cases hp
  · rename_i id
    cases hc : r.calls.find? id with
    | none => rw [hc] at h; cases h
    | some c =>
      obtain ⟨b', stage⟩ := c
      obtain rfl : b' = b := hcalls id _ hc
      rw [hc, Option.elim_some] at h
      cases stage with
      | producing item rest acks w =>
        obtain ⟨d, _ | reason⟩ := w
        · rw [Log.topic_record? (Option.mem_toList.1 h)]
          exact hv.calls id b' _ hc
        · cases h
      | _ => cases h
  · cases h

theorem known_of_private (h : (new retention).after acts = some r)
    (hp : ∀ a ∈ acts, a.isPrivate b = true) :
    ∀ i rec, (i, rec) ∈ (new retention).history acts → rec.topic ∈ (r.broker b).topics := by
  induction h using after_induct with
  | start =>
    intro i rec hrec
    cases hrec
  | next acts q a s hq ha ih =>
    intro i rec hrec
    have hv := valid_of_after hq
    have hbefore : ∀ x ∈ acts, x.isPrivate b = true := fun x hx => hp x (List.mem_append_left _ hx)
    have hlast := hp a (List.mem_append_right _ (List.mem_singleton_self a))
    have htopics := ((hv.later (hv.change ha)).topics b).subset
    rw [history, observe_concat appended hq] at hrec
    obtain hrec | hrec := List.mem_append.1 hrec
    · exact htopics (ih hbefore i rec hrec)
    · exact htopics (known_of_appended hv (calls_of_private hq hbefore) hlast hrec)

theorem unused_of_rejected (h : (new retention).after acts = some r)
    (hp : ∀ a ∈ acts, a.isPrivate b = true) {t : String}
    (ht : (b, t) ∈ (new retention).observe rejections acts) {i : Nat} {inc : Incarnation}
    (hi : r.log.incarnations[i]? = some inc) (htopic : inc.topic = t) :
    ∀ p ∈ inc.partitions.toList, p.next = 0 := by
  intro p hpart
  obtain ⟨j, hj, rfl⟩ := List.mem_iff_getElem.1 hpart
  have hv := valid_of_after h
  have hkeeps := hv.log.holds ⟨i, j, 0⟩ _
    (Log.partition?_eq_some.2 ⟨inc, hi, Array.getElem?_eq_getElem (by simpa using hj)⟩)
  have hnone : recordsAt ((new retention).history acts) i j = [] := by
    rw [List.eq_nil_iff_forall_not_mem]
    intro rec hrec
    obtain ⟨hmem, -⟩ := mem_recordsAt.1 hrec
    obtain ⟨inc', hi', hrectopic, -⟩ := hv.log.source i rec hmem
    rw [hi, Option.some.injEq] at hi'
    rw [← hi', htopic] at hrectopic
    have hknown := known_of_private h hp i rec hmem
    rw [hrectopic] at hknown
    exact (spurns_of_after h b t ht).unknown hknown
  rw [Array.getElem_toList, ← hkeeps.length, hnone]
  rfl

theorem rejections_of_private (h : (new retention).after acts = some r)
    (hp : ∀ a ∈ acts, a.isPrivate b = true) :
    ∀ b' t, (b', t) ∈ (new retention).observe rejections acts → b' = b := by
  induction h using after_induct with
  | start =>
    intro b' t ht
    cases ht
  | next acts q a s hq ha ih =>
    intro b' t ht
    have hbefore : ∀ x ∈ acts, x.isPrivate b = true := fun x hx => hp x (List.mem_append_left _ hx)
    rw [observe_concat rejections hq, List.mem_append] at ht
    obtain ht | ht := ht
    · exact ih hbefore b' t ht
    · unfold rejections at ht
      split at ht
      · rename_i id
        cases hc : q.calls.find? id with
        | none => rw [hc] at ht; cases ht
        | some c =>
          rw [hc, Option.elim_some] at ht
          rw [(Stage.mem_rejected ht).1]
          exact calls_of_private hq hbefore id c hc
      · cases ht

theorem leavesTopics_of_private {a : Action} (h : a.isPrivate b = true) :
    a.leavesTopics = true := by
  cases a with
  | delete | closeLog => cases h
  | _ => rfl

theorem rooted_of_private (h : (new retention).after acts = some r)
    (hp : ∀ a ∈ acts, a.isPrivate b = true) {t : String} (ht : t ∈ (r.broker b).topics) :
    r.Rooted t := by
  refine rooted_of_after h fun hd => ?_
  obtain ⟨b', hb'⟩ := rejected_of_deleted h (fun a ha => leavesTopics_of_private (hp a ha)) hd
  rw [rejections_of_private h hp b' _ hb'] at hb'
  exact (spurns_of_after h b _ hb').unknown ht

theorem current_of_private (h : (new retention).after acts = some r)
    (hp : ∀ a ∈ acts, a.isPrivate b = true) (ho : (r.broker b).closed = false) {i : Nat}
    {rec : Record} (hrec : (i, rec) ∈ (new retention).history acts) :
    r.log.topics.find? rec.topic = some i := by
  obtain ⟨inc, hi, htopic, -⟩ := (valid_of_after h).log.source i rec hrec
  exact (rooted_of_private h hp (known_of_private h hp i rec hrec)).current
    (ownsLog_of_after h hp fun _ => ho).logOpen i inc hi htopic.symm

theorem total_of_private (h : (new retention).after acts = some r)
    (hp : ∀ a ∈ acts, a.isPrivate b = true) (ho : (r.broker b).closed = false) :
    r.log.total = ((new retention).history acts).length := by
  have hv := valid_of_after h
  have hperm := List.mergeSort_perm r.log.topics.keys fun x y => decide (x ≤ y)
  have hnodup : r.log.topicNames.Nodup := hperm.nodup_iff.2 r.log.topics.nodup
  have hcount : (r.log.topicNames.map fun t => ((r.log.highWatermarks t).toOption.getD []).sum) =
      r.log.topicNames.map fun t => ((new retention).history acts).countP fun e =>
        true && decide (e.2.topic = t) := by
    refine List.map_congr_left fun t ht => ?_
    obtain ⟨i, hfind⟩ := Table.mem_keys.1 (hperm.mem_iff.1 ht)
    obtain ⟨inc, hf, htopic⟩ := hv.log.sound.find hfind
    obtain ⟨-, -, hi⟩ := Log.find_eq_ok.1 hf
    have hmarks : r.log.highWatermarks t = .ok (inc.partitions.toList.map Partition.next) := by
      simp only [Log.highWatermarks, hf]
      rfl
    rw [hmarks]
    refine (hv.log.sum_next hi).trans (List.countP_congr fun e he => ?_)
    simp only [decide_eq_true_eq, Bool.true_and]
    have hcurrent := current_of_private h hp ho he
    constructor
    · intro hei
      obtain ⟨inc', hi', hrec, -⟩ := hv.log.source e.1 e.2 he
      rw [hei, hi, Option.some.injEq] at hi'
      rw [hrec, ← hi', htopic]
    · intro het
      rw [het, hfind, Option.some.injEq] at hcurrent
      exact hcurrent.symm
  rw [Log.total, hcount, sum_countP hnodup, List.countP_true]
  intro e he _
  refine hperm.mem_iff.2 (Table.mem_keys.2 ⟨e.1, ?_⟩)
  exact current_of_private h hp ho he

theorem history_of_private (h : (new retention).after acts = some r)
    (hp : ∀ a ∈ acts, a.isPrivate b = true) :
    (new retention).observe (appendedFor b) acts = (new retention).history acts := by
  induction h using after_induct with
  | start => rfl
  | next acts q a s hq ha ih =>
    have hbefore : ∀ x ∈ acts, x.isPrivate b = true := fun x hx => hp x (List.mem_append_left _ hx)
    have hlast := hp a (List.mem_append_right _ (List.mem_singleton_self a))
    rw [observe_concat _ hq, history, observe_concat appended hq, ih hbefore]
    congr 1
    unfold appendedFor
    split
    · rename_i id sig
      cases hc : q.calls.find? id with
      | none => cases sig <;> simp [appended, hc]
      | some c => rw [Option.elim_some, if_pos (calls_of_private hq hbefore id c hc)]
    · rename_i hnot
      unfold appended
      split
      · cases hlast
      · exact absurd rfl (hnot _ _)
      · rfl

end

end Relay
end EventRelay
