import EventRelay.Proofs.Log.Lifetime
/-!
Which topics a history leaves and with how many partitions, and what the next call comes to. Main
statements: `Tells.step`, and `orderly_after`, a call that fails leaves everything as it was.
-/
namespace EventRelay.Log
open History

/-- The partitions of a topic after an operation, if it had `m` of them before. -/
def partitionsAfter (t : String) (m : Option Nat) : Op × Reply → Option Nat
  | (.create u n, .done) => if u = t then m.or (some n) else m
  | (.delete u, .done) => if u = t then none else m
  | (.close, .done) => none
  | _ => m

def created (t : String) (tr : List (Op × Reply)) : Option Nat :=
  tr.foldl (partitionsAfter t) none

def isClosed (tr : List (Op × Reply)) : Bool := tr.any fun e => e = (.close, .done)

theorem created_concat (t : String) (tr : List (Op × Reply)) (e : Op × Reply) :
    created t (tr ++ [e]) = partitionsAfter t (created t tr) e := by
  simp [created]

theorem isClosed_concat (tr : List (Op × Reply)) (e : Op × Reply) :
    isClosed (tr ++ [e]) = (isClosed tr || decide (e = (.close, .done))) := by
  simp [isClosed]

theorem partitionsAfter_of_failed (t : String) (m : Option Nat) (op : Op) (e : Error) :
    partitionsAfter t m (op, .failed e) = m := by
  cases op <;> rfl

theorem mem_topicNames {l : Log} (h : l.Sound) {t : String} :
    t ∈ l.topicNames ↔ ∃ n, l.partitionCount t = some n := by
  rw [topicNames, List.mem_mergeSort, Table.mem_keys, ← Option.ne_none_iff_exists',
    ← Option.ne_none_iff_exists', ne_eq, ne_eq, h.partitionCount_eq_none]

namespace Session

structure Tells (tr : List (Op × Reply)) (s : Session) : Prop where
  sound : s.log.Sound
  closed : s.log.closed = isClosed tr
  count : ∀ t, s.log.partitionCount t = created t tr
  valid : ∀ t n, created t tr = some n → Topic.validate t = .ok () ∧ 0 < n
  creation : ∀ t n, created t tr = some n → (.create t n, .done) ∈ tr

section
variable {tr : List (Op × Reply)} {s s' : Session} {op : Op} {r : Reply}

theorem tells_new (retention : Nat) : (new retention).Tells [] where
  sound := sound_new retention
  closed := rfl
  count _ := rfl
  valid _ _ h := by cases h
  creation _ _ h := by cases h

theorem Tells.keep (h : s.Tells tr) (hsound : s'.log.Sound)
    (hclosed : s'.log.closed = (s.log.closed || decide ((op, r) = (.close, .done))))
    (hcount : ∀ t, s'.log.partitionCount t = partitionsAfter t (s.log.partitionCount t) (op, r))
    (hfewer : ∀ t m n, partitionsAfter t m (op, r) = some n → m = some n) :
    s'.Tells (tr ++ [(op, r)]) where
  sound := hsound
  closed := by rw [hclosed, isClosed_concat, h.closed]
  count t := by rw [hcount, created_concat, h.count]
  valid t n hn := by
    rw [created_concat] at hn
    exact h.valid t n (hfewer t _ n hn)
  creation t n hn := by
    rw [created_concat] at hn
    exact List.mem_append_left _ (h.creation t n (hfewer t _ n hn))

theorem Tells.same (h : s.Tells tr) (hsound : s'.log.Sound)
    (hclosed : s'.log.closed = s.log.closed)
    (hcount : ∀ t, s'.log.partitionCount t = s.log.partitionCount t)
    (hnone : ∀ t m, partitionsAfter t m (op, r) = m) (hop : (op, r) ≠ (.close, .done)) :
    s'.Tells (tr ++ [(op, r)]) := by
  refine h.keep hsound ?_ (fun t => ?_) fun t m n hn => ?_
  · rw [hclosed, decide_eq_false hop, Bool.or_false]
  · rw [hcount, hnone]
  · rwa [hnone] at hn

theorem Tells.creates (h : s.Tells tr) {u : String} {k : Nat} {log : Log}
    (hl : s.log.create u k = .ok log) :
    ({ s with log } : Session).Tells (tr ++ [(.create u k, .done)]) := by
  obtain ⟨-, hvalid, hcases⟩ := create_ok hl
  have hpos : 0 < k := by
    obtain ⟨hk, -⟩ | ⟨hk, -⟩ := hcases
    · exact (h.valid u k (by rw [← h.count, hk])).2
    · exact hk
  -- A topic that there was before was created with this number of partitions.
  have hcount (t : String) : log.partitionCount t =
      partitionsAfter t (s.log.partitionCount t) (.create u k, .done) := by
    rw [h.sound.partitionCount_create hl, partitionsAfter]
    by_cases ht : t = u
    · subst ht
      obtain ⟨hk, -⟩ | ⟨-, hk, -⟩ := hcases <;> simp [hk]
    · rw [if_neg ht, if_neg (Ne.symm ht)]
  have hnew (t : String) (n : Nat) (hn : created t (tr ++ [(.create u k, .done)]) = some n) :
      created t tr = some n ∨ t = u ∧ n = k := by
    rw [created_concat, partitionsAfter] at hn
    split at hn
    · rename_i ht
      cases hm : created t tr with
      | none =>
        rw [hm] at hn
        exact .inr ⟨ht.symm, (Option.some.inj hn).symm⟩
      | some m =>
        rw [hm] at hn
        exact .inl hn
    · exact .inl hn
  refine ⟨h.sound.create hl, ?_, fun t => ?_, fun t n hn => ?_, fun t n hn => ?_⟩
  · rw [isClosed_concat, ← h.closed]
    simp [closed_create hl]
  · rw [hcount, created_concat, h.count]
  · obtain hold | ⟨rfl, rfl⟩ := hnew t n hn
    · exact h.valid t n hold
    · exact ⟨hvalid, hpos⟩
  · obtain hold | ⟨rfl, rfl⟩ := hnew t n hn
    · exact List.mem_append_left _ (h.creation t n hold)
    · exact List.mem_append_right _ List.mem_cons_self

theorem Tells.deletes (h : s.Tells tr) {u : String} {log : Log} (hl : s.log.delete u = .ok log) :
    ({ s with log } : Session).Tells (tr ++ [(.delete u, .done)]) := by
  refine h.keep (h.sound.delete hl) ?_ (fun t => ?_) fun t m n hn => ?_
  · simp [closed_delete hl]
  · rw [h.sound.partitionCount_delete hl, partitionsAfter]
    simp only [eq_comm]
  · rw [partitionsAfter] at hn
    split at hn
    · cases hn
    · exact hn

theorem Tells.closes (h : s.Tells tr) :
    ({ s with log := s.log.close } : Session).Tells (tr ++ [(.close, .done)]) := by
  refine h.keep h.sound.close ?_ (fun t => rfl) fun t m n hn => ?_
  · rw [decide_eq_true rfl, Bool.or_true]
    rfl
  · cases hn

theorem Tells.step (h : s.Tells tr) (hd : s.Does op r s') : s'.Tells (tr ++ [(op, r)]) := by
  cases hd with
  | creates hl => exact h.creates hl
  | deletes hl => exact h.deletes hl
  | closes => exact h.closes
  | produces hl =>
    obtain ⟨i, rec, inc, inc', q, -, ha, -⟩ := produce_appends hl h.sound
    exact h.same (h.sound.appends ha) (closed_produce hl) (ha.partitionCount h.sound)
      (fun _ _ => rfl) (by simp)
  | fails =>
    exact h.same h.sound rfl (fun _ => rfl) (fun t m => partitionsAfter_of_failed t m _ _)
      (by simp)
  | opens | counts | returns | waits | ends | lacks | drops =>
    exact h.same h.sound rfl (fun _ => rfl) (fun _ _ => rfl) (by simp)

theorem Tells.after (h : s.Tells tr) (ops : List Op) :
    (after Session.step s ops).Tells (tr ++ trace Session.step s ops) := by
  induction ops generalizing s tr with
  | nil => rwa [trace, List.append_nil]
  | cons op ops ih =>
    rw [trace, List.append_cons]
    exact ih (h.step (s.step_does op))

/-! ### The next call -/

theorem step_failed {e : Error} (h : (s.step op).1 = .failed e) : (s.step op).2 = s := by
  cases op with
  | create t n =>
    cases hl : s.log.create t n with
    | error e => simp only [Session.step, hl, change]
    | ok log => simp [Session.step, hl, change] at h
  | delete t =>
    cases hl : s.log.delete t with
    | error e => simp only [Session.step, hl, change]
    | ok log => simp [Session.step, hl, change] at h
  | produce t key value =>
    cases hl : s.log.produce t key value with
    | error e => simp only [Session.step, hl]
    | ok x => simp [Session.step, hl] at h
  | tail t p =>
    cases hl : s.log.tail t p with
    | error e => simp only [Session.step, hl]
    | ok c => simp [Session.step, hl] at h
  | highWatermarks t =>
    cases hl : s.log.highWatermarks t with
    | error e => simp only [Session.step, hl]
    | ok os => simp [Session.step, hl] at h
  | next k =>
    cases hk : s.readers.find? k with
    | none => simp only [Session.step, hk]
    | some c => cases hr : s.log.read c <;> simp [Session.step, hk, hr] at h
  | drop k => cases h
  | close => cases h

theorem Tells.isOpen (h : s.Tells tr) {t : String} {n : Nat} (hn : created t tr = some n) :
    s.log.closed = false := by
  rw [← h.count] at hn
  obtain ⟨i, -, ht, -⟩ := partitionCount_eq_some.1 hn
  obtain ⟨inc, hf, -⟩ := h.sound.find ht
  exact (find_eq_ok.1 hf).1

theorem Tells.again (h : s.Tells tr) {t : String} {n : Nat} (hn : created t tr = some n) :
    s.step (.create t n) = (.done, s) := by
  obtain ⟨hvalid, hpos⟩ := h.valid t n hn
  have hl : s.log.create t n = .ok s.log := by
    simp [create, h.isOpen hn, hvalid, hpos, h.count, hn, pure, Except.pure, bind, Except.bind]
  simp only [Session.step, hl, change]

theorem Tells.refused (h : s.Tells tr) {t : String} {n m : Nat} (hn : created t tr = some n)
    (hm : m ≠ n) : ∃ reason, s.step (.create t m) = (.failed (.log reason), s) := by
  have hvalid := (h.valid t n hn).1
  have hl : ∃ reason, s.log.create t m = .error (.log reason) := by
    by_cases hpos : 0 < m
    · refine ⟨s!"topic {t} exists with {n} partitions, requested {m}", ?_⟩
      simp [create, h.isOpen hn, hvalid, hpos, h.count, hn, Ne.symm hm]
      rfl
    · refine ⟨s!"topic {t} needs at least one partition", ?_⟩
      simp [create, h.isOpen hn, hvalid, hpos]
      rfl
  obtain ⟨reason, hl⟩ := hl
  exact ⟨reason, by simp only [Session.step, hl, change]⟩

theorem Tells.produced (h : s.Tells tr) {t : String} {n : Nat} (hn : created t tr = some n)
    (key : String) (value : List UInt8) : ∃ offset,
      (s.step (.produce t key value)).1 = .acked ⟨partitionFor key n, offset⟩ := by
  rw [← h.count] at hn
  obtain ⟨i, inc, ht, hinc, rfl⟩ := partitionCount_eq_some.1 hn
  obtain ⟨inc', hf, -⟩ := h.sound.find ht
  cases hinc.symm.trans (find_eq_ok.1 hf).2.2
  have hl : ∃ log, s.log.produce t key value = .ok ((inc.produce key value).1, log) := by
    rw [Log.produce, hf]
    exact ⟨_, rfl⟩
  obtain ⟨log, hl⟩ := hl
  refine ⟨(inc.produce key value).1.offset, ?_⟩
  simp only [Session.step, hl]
  rfl

end

/-- What holds of the topics after the history `tr`, and of the next call. -/
structure Orderly (tr : List (Op × Reply)) (s : Session) : Prop where
  /-- A call that fails leaves the log and the places of all readers as they are: all that it could
  fail on is looked at before anything is written. -/
  atomic : ∀ op e, (s.step op).1 = .failed e → (s.step op).2 = s
  topics : ∀ t, t ∈ s.log.topicNames ↔ ∃ n, created t tr = some n
  /-- A topic keeps the partitions that it was created with until it is gone. -/
  count : ∀ t, s.log.partitionCount t = created t tr
  creation : ∀ t n, created t tr = some n → (.create t n, .done) ∈ tr
  valid : ∀ t n, created t tr = some n → Topic.validate t = .ok () ∧ 0 < n
  again : ∀ t n, created t tr = some n → s.step (.create t n) = (.done, s)
  refused : ∀ t n m, created t tr = some n → m ≠ n →
    ∃ reason, s.step (.create t m) = (.failed (.log reason), s)
  /-- There is a partition for every key, and it takes the record. -/
  produced : ∀ t n, created t tr = some n → ∀ key value, partitionFor key n < n ∧
    ∃ offset, (s.step (.produce t key value)).1 = .acked ⟨partitionFor key n, offset⟩
  closed : isClosed tr = true → s.log.topicNames = [] ∧
    (∀ t n, (s.step (.create t n)).1 = .failed .closed) ∧
    (∀ t, (s.step (.delete t)).1 = .failed .closed) ∧
    (∀ t key value, (s.step (.produce t key value)).1 = .failed .closed) ∧
    (∀ t p, (s.step (.tail t p)).1 = .failed .closed) ∧
    ∀ t, (s.step (.highWatermarks t)).1 = .failed .closed
  closes : (s.step .close).1 = .done

theorem Tells.orderly {tr : List (Op × Reply)} {s : Session} (h : s.Tells tr) : s.Orderly tr where
  atomic _ _ := step_failed
  topics t := by simp only [mem_topicNames h.sound, h.count]
  count := h.count
  creation := h.creation
  valid := h.valid
  again _ _ := h.again
  refused _ _ _ := h.refused
  produced t n hn key value := ⟨Nat.mod_lt _ (h.valid t n hn).2, h.produced hn key value⟩
  closed hc := by
    rw [← h.closed] at hc
    have hfind (t : String) : s.log.find t = .error .closed := by rw [find, if_pos hc]
    refine ⟨?_, fun t n => ?_, fun t => ?_, fun t key value => ?_, fun t p => ?_, fun t => ?_⟩
    · rw [List.eq_nil_iff_forall_not_mem]
      intro t ht
      obtain ⟨n, hn⟩ := (mem_topicNames h.sound).1 ht
      rw [h.sound.partitionCount_eq_none.2 (h.sound.closed hc t)] at hn
      cases hn
    · have hl : s.log.create t n = .error .closed := by
        rw [create, hc]
        rfl
      simp only [Session.step, hl, change]
    · have hl : s.log.delete t = .error .closed := by
        rw [delete, hfind]
        rfl
      simp only [Session.step, hl, change]
    · have hl : s.log.produce t key value = .error .closed := by
        rw [Log.produce, hfind]
        rfl
      simp only [Session.step, hl]
    · have hl : s.log.tail t p = .error .closed := by
        rw [tail, hfind]
        rfl
      simp only [Session.step, hl]
    · have hl : s.log.highWatermarks t = .error .closed := by
        rw [highWatermarks, hfind]
        rfl
      simp only [Session.step, hl]
  closes := rfl

theorem orderly_after (retention : Nat) (ops : List Op) :
    (after step (new retention) ops).Orderly (trace step (new retention) ops) :=
  ((tells_new retention).after ops).orderly

end Session
end EventRelay.Log
