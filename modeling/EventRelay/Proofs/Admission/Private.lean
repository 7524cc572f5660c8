import EventRelay.Proofs.Admission.Crews
/-!
A broker that has its log to itself. Main statement: `ownsLog_of_after`, as long as the broker is
open, what it knows is on the log and no removal under way names a topic it knows.
-/
namespace EventRelay

/-- Whether only calls on broker `b` and what they start use the log. -/
def Action.isPrivate (b : Nat) : Action → Bool
  | .create .. | .delete .. | .produce .. | .closeLog => false
  | .submit b' _ _ => b' == b
  | _ => true

namespace Relay

structure OwnsLog (r : Relay) (b : Nat) : Prop where
  calls : ∀ id c, r.calls.find? id = some c → c.broker = b
  logOpen : r.log.closed = false
  counts : ∀ t n, r.log.partitionCount t = some n →
    b < r.brokers.size ∧ n = (r.broker b).config.workers
  known : ∀ t ∈ (r.broker b).topics, r.log.partitionCount t = some (r.broker b).config.workers
  removals : ∀ id m, r.removals.find? id = some m →
    m.topic ∉ (r.broker b).topics ∧ (r.broker b).isFull = true

section
variable {r s : Relay} {retention : Nat} {hist : List (Nat × Record)} {b : Nat}

theorem ownsLog_new (retention b : Nat) : (new retention).OwnsLog b where
  calls id c hc := by cases hc
  logOpen := rfl
  counts t n ht := by cases ht
  known t ht := by cases ht
  removals id m hm := by cases hm

theorem OwnsLog.keep (h : r.OwnsLog b) (hsize : r.brokers.size ≤ s.brokers.size)
    (ht : (s.broker b).topics = (r.broker b).topics)
    (hcfg : (s.broker b).config = (r.broker b).config) (hlog : s.log.closed = r.log.closed)
    (hcount : ∀ t, s.log.partitionCount t = r.log.partitionCount t)
    (hcalls : ∀ id c, s.calls.find? id = some c → c.broker = b)
    (hrem : ∀ id m, s.removals.find? id = some m →
      ∃ id' m', r.removals.find? id' = some m' ∧ m.topic = m'.topic) : s.OwnsLog b where
  calls := hcalls
  logOpen := hlog.trans h.logOpen
  counts t n hn := by
    rw [hcount] at hn
    rw [hcfg]
    exact ⟨Nat.lt_of_lt_of_le (h.counts t n hn).1 hsize, (h.counts t n hn).2⟩
  known t hk := by
    rw [ht] at hk
    rw [hcount, hcfg]
    exact h.known t hk
  removals id m hm := by
    obtain ⟨id', m', hm', htop⟩ := hrem id m hm
    rw [htop, ht, Broker.isFull, ht, hcfg]
    exact h.removals id' m' hm'

theorem OwnsLog.insert_calls (h : r.OwnsLog b) {id : Nat} {c : Call} (hc : c.broker = b)
    (hs : s.calls = r.calls.insert id c) (j : Nat) (d : Call) (hj : s.calls.find? j = some d) :
    d.broker = b := by
  rw [hs, Table.find?_insert] at hj
  split at hj
  · cases hj
    exact hc
  · exact h.calls j d hj

theorem OwnsLog.count_of_tail (h : r.OwnsLog b) {t : String} {p : Nat} {c : Cursor}
    (hl : r.log.tail t p = .ok c) : r.log.partitionCount t = some (r.broker b).config.workers := by
  obtain ⟨i, inc, q, hf, -, -⟩ := Log.tail_ok hl
  have hcount := Log.partitionCount_of_find hf
  rw [hcount, (h.counts t _ hcount).2]

theorem CallStep.ownsLog (hv : r.Valid retention hist) (h : r.OwnsLog b) {id : Nat} {sig : Signal}
    {stage : Stage} (hc : r.calls.find? id = some ⟨b, stage⟩) (hs : CallStep r id b sig stage s)
    (hopen : b < s.brokers.size → (s.broker b).closed = false) : s.OwnsLog b := by
  obtain ⟨stage', hcalls, hstage⟩ := hs.calls hv hc
  have hnew := h.insert_calls (s := s) (c := ⟨b, stage'⟩) rfl hcalls
  have hsame (id : Nat) (m : Removal) (hm : r.removals.find? id = some m) :
      ∃ id' m', r.removals.find? id' = some m' ∧ m.topic = m'.topic := ⟨id, m, hm, rfl⟩
  cases hs with
  | moves hσ hm => exact h.keep (Nat.le_refl _) rfl rfl rfl (fun _ => rfl) hnew hsame
  | closes hb ho =>
    have hsize := size_of_open ho
    have hclosed := r.broker_setBroker hsize
      { r.broker b with closed := true, crews := .empty } b
    rw [if_pos rfl] at hclosed
    have hstill := hopen (by rw [goes, size_setBroker]; exact hsize)
    exact Bool.noConfusion (hstill.symm.trans (congrArg Broker.closed hclosed))
  | @creates topic _ _ log _ _ hσ hw hl =>
    have hcount := hv.log.sound.partitionCount_create hl
    rw [hv.workers b] at hcount
    have hb := (hv.calls id b _ hc).1
    refine ⟨hnew, ?_, fun t n hn => ?_, fun t hk => ?_, h.removals⟩
    · obtain ⟨hlog, -, ⟨-, rfl⟩ | ⟨_, -, rfl⟩⟩ := Log.create_ok hl
      · exact hlog
      · exact hlog
    · have hn' := (hcount t).symm.trans hn
      split at hn'
      · cases hn'
        exact ⟨hb, rfl⟩
      · exact h.counts t n hn'
    · refine (hcount t).trans ?_
      split
      · rfl
      · exact h.known t hk
  | opens script hσ hw hl hn => exact h.keep (Nat.le_refl _) rfl rfl rfl (fun _ => rfl) hnew hsame
  | @enrolls topic _ readers _ c stage script σ σ' hσ hl hn hk hf hready =>
    have he := hv.enrolls hc hk ⟨c, script⟩ σ σ' stage
    have hbroker := he.broker b
    rw [if_pos rfl] at hbroker
    refine ⟨hnew, ?_, fun t n hn => ?_, fun t ht => ?_, fun i m hm => ?_⟩
    · rw [he.log]
      exact h.logOpen
    · rw [he.log] at hn
      rw [he.size, hbroker]
      exact h.counts t n hn
    · rw [hbroker] at ht ⊢
      rw [he.log]
      obtain ht | ht := List.mem_append.1 ht
      · exact h.known t ht
      · rw [List.mem_singleton.1 ht]
        exact h.count_of_tail hl
    · -- There was room for one more topic, so there is no removal.
      rw [he.removals] at hm
      have hfull := (h.removals i m hm).2
      simp only [Broker.isFull, decide_eq_true_eq] at hfull
      omega
  | rejects hσ hl hn hk hf =>
    refine ⟨hnew, h.logOpen, h.counts, h.known, fun i m hm => ?_⟩
    rw [remove, goes, Table.find?_insert] at hm
    split at hm
    · cases hm
      exact ⟨hk, decide_eq_true hf⟩
    · exact h.removals i m hm
  | @produces _ _ _ _ _ log _ _ hσ hl hs =>
    obtain ⟨i, rec, inc, inc', p, -, ha, -⟩ := Log.produce_appends hl hv.log.sound
    have hb := size_of_mem (hv.calls id b _ hc)
    have hset := ({ r with log } : Relay).broker_setBroker hb
      { r.broker b with published := (r.broker b).published + 1 } b
    rw [if_pos rfl] at hset
    have htopics := congrArg Broker.topics hset
    have hconfig := congrArg Broker.config hset
    refine h.keep (Nat.le_of_eq (size_setBroker ..).symm) htopics hconfig ?_
      (ha.partitionCount hv.log.sound) hnew hsame
    rw [goes, setBroker, ha.log]
  | closesLog =>
    have hcl := hv.calls id b _ hc
    exact Bool.noConfusion ((hopen hcl.1).symm.trans hcl.2)

theorem Change.ownsLog {a : Action} (hv : r.Valid retention hist) (h : r.OwnsLog b)
    (hc : Change r a s) (ha : a.isPrivate b = true)
    (hopen : b < s.brokers.size → (s.broker b).closed = false) : s.OwnsLog b := by
  have hsame (id : Nat) (m : Removal) (hm : r.removals.find? id = some m) :
      ∃ id' m', r.removals.find? id' = some m' ∧ m.topic = m'.topic := ⟨id, m, hm, rfl⟩
  cases hc with
  | aside | scripts | waits => exact h.keep (Nat.le_refl _) rfl rfl rfl (fun _ => rfl) h.calls hsame
  | @opensBroker config registry hf =>
    by_cases hb : b = r.brokers.size
    · -- Nothing has happened to the log before there is a broker.
      have hdef : r.broker b = default := by
        rw [broker, hb, Array.getElem?_eq_none (Nat.le_refl _)]; rfl
      have hnew : ({ r with brokers := r.brokers.push { config, registry } } : Relay).broker b =
          { config, registry } := by
        rw [broker, hb, Array.getElem?_push_size]; rfl
      refine ⟨h.calls, h.logOpen, fun t n hn => ?_, fun t ht => ?_, fun id m hm => ?_⟩
      · have hlt := (h.counts t n hn).1
        omega
      · rw [hnew] at ht
        cases ht
      · have hfull := (h.removals id m hm).2
        rw [hdef] at hfull
        cases hfull
    · have hold : ({ r with brokers := r.brokers.push { config, registry } } : Relay).broker b =
          r.broker b := by
        simp only [broker, Array.getElem?_push, if_neg hb]
      exact h.keep (by simp) (by rw [hold]) (by rw [hold]) rfl (fun _ => rfl) h.calls hsame
  | submits b' q n =>
    have hb : b' = b := by simpa [Action.isPrivate] using ha
    exact h.keep (Nat.le_refl _) rfl rfl rfl (fun _ => rfl)
      (h.insert_calls (c := ⟨b', .queued n q⟩) hb rfl) hsame
  | collects hc =>
    refine h.keep (Nat.le_refl _) rfl rfl rfl (fun _ => rfl) (fun j d hj => ?_) hsame
    obtain ⟨-, hj⟩ := Table.find?_erase_eq_some.1 hj
    exact h.calls j d hj
  | @calls id b' stage _ sig hc hs =>
    have hb : b' = b := h.calls id _ hc
    subst hb
    exact hs.ownsLog hv h hc hopen
  | @deletes id topic hr script w hσ hh =>
    refine h.keep (Nat.le_refl _) rfl rfl rfl (fun _ => rfl) h.calls fun j m hm => ?_
    rw [Table.find?_insert] at hm
    split at hm
    · cases hm
      exact ⟨id, _, hr, rfl⟩
    · exact ⟨j, m, hm, rfl⟩
  | deletionFails hr hf =>
    refine h.keep (Nat.le_refl _) rfl rfl rfl (fun _ => rfl) h.calls fun j m hm => ?_
    obtain ⟨-, hm⟩ := Table.find?_erase_eq_some.1 hm
    exact ⟨j, m, hm, rfl⟩
  | @deleted id topic w log hr hl =>
    have hcount := hv.log.sound.partitionCount_delete hl
    have hunknown : topic ∉ (r.broker b).topics := (h.removals id _ hr).1
    refine ⟨h.calls, ?_, fun t n hn => ?_, fun t hk => ?_, fun j m hm => ?_⟩
    · obtain ⟨-, rfl⟩ := Log.delete_ok hl
      exact h.logOpen
    · have hn' := (hcount t).symm.trans hn
      split at hn'
      · cases hn'
      · exact h.counts t n hn'
    · refine (hcount t).trans ?_
      have hne : t ≠ topic := by
        intro heq
        subst heq
        exact hunknown hk
      rw [if_neg hne]
      exact h.known t hk
    · obtain ⟨-, hm⟩ := Table.find?_erase_eq_some.1 hm
      exact h.removals j m hm
  | lanes hi hs =>
    cases hs <;> exact h.keep (Nat.le_refl _) rfl rfl rfl (fun _ => rfl) h.calls hsame
  | createsTopic | deletesTopic | produces | closesLog => cases ha

end

theorem ownsLog_of_after {retention : Nat} {acts : List Action} {r : Relay} {b : Nat}
    (h : (new retention).after acts = some r) (hp : ∀ a ∈ acts, a.isPrivate b = true)
    (ho : b < r.brokers.size → (r.broker b).closed = false) : r.OwnsLog b := by
  induction h using after_induct with
  | start => exact ownsLog_new retention b
  | next acts q a s hq ha ih =>
    have hv := valid_of_after hq
    have hc := hv.change ha
    have hlater := hv.later hc
    have hopen : b < q.brokers.size → (q.broker b).closed = false := fun hb =>
      hlater.open_before hb (ho (Nat.lt_of_lt_of_le hb hlater.size))
    have hq := ih (fun x hx => hp x (List.mem_append_left _ hx)) hopen
    exact hc.ownsLog hv hq (hp a (List.mem_append_right _ (List.mem_singleton_self a))) ho

end Relay
end EventRelay
