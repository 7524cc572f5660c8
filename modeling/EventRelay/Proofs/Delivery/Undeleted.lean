import EventRelay.Proofs.Admission.Enrollment
/-!
Topics that are never deleted. Main statement: `size_of_undeleted`, such a topic has as many
partitions as the workers of every broker that knows it.
-/
namespace EventRelay.Relay

/-- A broker knows the topic, or a call on it opens readers on the topic. -/
def Wants (r : Relay) (b : Nat) (t : String) : Prop :=
  t ∈ (r.broker b).topics ∨
    ∃ id purpose readers w, r.calls.find? id = some ⟨b, .opening t purpose readers w⟩

/-- A topic that was never deleted has one incarnation at most. -/
structure Rooted (r : Relay) (t : String) : Prop where
  current : r.log.closed = false → ∀ (i : Nat) inc, r.log.incarnations[i]? = some inc →
    inc.topic = t → r.log.topics.find? t = some i
  sized : ∀ b, r.Wants b t → ∃ (i : Nat) (inc : Incarnation), r.log.incarnations[i]? = some inc ∧
    inc.topic = t ∧ inc.partitions.size = (r.broker b).config.workers

section
variable {r s : Relay} {retention : Nat} {hist : List (Nat × Record)} {t : String} {a : Action}

theorem Rooted.current_next (hv : r.Valid retention hist) (h : r.Rooted t) (hc : Change r a s)
    (hd : t ∉ r.deleted a) (ho : s.log.closed = false) (i : Nat) (inc : Incarnation)
    (hi : s.log.incarnations[i]? = some inc) (ht : inc.topic = t) :
    s.log.topics.find? t = some i := by
  cases hc.logChange hv with
  | same hl _ =>
    rw [hl] at ho hi ⊢
    exact h.current ho i inc hi ht
  | @creates u n hl _ _ =>
    obtain ⟨hopen, -, ⟨-, heq⟩ | ⟨hn, hnone, heq⟩⟩ := Log.create_ok hl
    · rw [heq] at hi ⊢
      exact h.current hopen i inc hi ht
    · rw [heq] at hi ⊢
      simp only [Array.getElem?_push] at hi
      simp only [Table.find?_insert]
      split at hi
      · rename_i hsize
        cases hi
        have hu : u = t := ht
        rw [if_pos hu, hsize]
      · have hold := h.current hopen i inc hi ht
        have hne : u ≠ t := by
          intro heq
          subst heq
          rw [hv.log.sound.partitionCount_eq_none, hold] at hnone
          cases hnone
        rw [if_neg hne, hold]
  | @deletes u hl hu _ =>
    obtain ⟨-, heq⟩ := Log.delete_ok hl
    have hne : u ≠ t := by
      intro heq
      subst heq
      exact hd hu
    rw [heq] at hi ho ⊢
    simp only [Table.find?_erase, if_neg hne]
    exact h.current ho i inc hi ht
  | @appends j rec inc₀ inc' p hl _ =>
    obtain ⟨hopen, -, hj⟩ := Log.find_eq_ok.1 hl.find
    have htopics : s.log.topics = r.log.topics := by rw [hl.log]
    rw [hl.incarnations] at hi
    rw [htopics]
    split at hi
    · rename_i hij
      cases hi
      rw [hij]
      exact h.current hopen j inc₀ hj (hl.topic ▸ ht)
    · exact h.current hopen i inc hi ht
  | closes hl _ =>
    rw [hl] at ho
    cases ho

theorem Rooted.sized_next (hv : r.Valid retention hist) (h : r.Rooted t) (ha : r.act a = some s)
    (b : Nat) (hw : s.Wants b t) : ∃ (i : Nat) (inc : Incarnation),
      s.log.incarnations[i]? = some inc ∧ inc.topic = t ∧
      inc.partitions.size = (s.broker b).config.workers := by
  have hc := hv.change ha
  have hlater := hv.later hc
  -- What was wanted before has its size still.
  have hold : r.Wants b t → ∃ (i : Nat) (inc : Incarnation),
      s.log.incarnations[i]? = some inc ∧ inc.topic = t ∧
      inc.partitions.size = (s.broker b).config.workers := by
    intro hwants
    have hb : b < r.brokers.size := by
      obtain hk | ⟨id, purpose, readers, w, hcall⟩ := hwants
      · exact size_of_mem hk
      · exact (hv.calls id b _ hcall).1
    obtain ⟨i, inc, hi, ht, hsize⟩ := h.sized b hwants
    obtain ⟨inc', hi', ht', hsize'⟩ := hlater.log.incarnation i inc hi
    refine ⟨i, inc', hi', ht'.trans ht, ?_⟩
    rw [hsize', hsize, hlater.config b hb]
  obtain hk | ⟨id, purpose, readers, w, hcall⟩ := hw
  · obtain ⟨-, hrest⟩ | ⟨id, b', topic, purpose, opened, last, stage, hadmits, -⟩ := hc.admits_or hv
    · exact hold (.inl (hrest.topics b ▸ hk))
    · rw [hadmits.effect.broker b] at hk
      split at hk
      · rename_i hb
        subst hb
        obtain hk | hk := List.mem_append.1 hk
        · exact hold (.inl hk)
        · rw [List.mem_singleton] at hk
          subst hk
          obtain ⟨d, hcall⟩ := hadmits.call
          exact hold (.inr ⟨id, purpose, opened, _, hcall⟩)
      · exact hold (.inl hk)
  · obtain hsame | ⟨_, _, hqueued⟩ | ⟨sig, stage, -, hbefore, hstep⟩ := hc.call_cases hv hcall
    · exact hold (.inr ⟨id, purpose, readers, w, hsame⟩)
    · cases hqueued
    · obtain ⟨-, ⟨w', rfl⟩, hcreate⟩ | ⟨opened, c, script, d, rfl, -, -⟩ :=
        hstep.opening hv hbefore hcall
      · have hcount := hv.log.sound.partitionCount_create hcreate t
        rw [if_pos rfl, Log.partitionCount_eq_some] at hcount
        obtain ⟨i, inc, hfind, hi, hsize⟩ := hcount
        obtain ⟨inc', hi', ht'⟩ := (hv.next ha).log.sound.topic t i hfind
        rw [hi] at hi'
        cases hi'
        have hb := (hv.calls id b _ hbefore).1
        refine ⟨i, inc, hi, ht', ?_⟩
        rw [hsize, hv.workers b, hlater.config b hb]
      · exact hold (.inr ⟨id, purpose, opened, _, hbefore⟩)

end

theorem rooted_of_after {retention : Nat} {acts : List Action} {r : Relay} {t : String}
    (h : (new retention).after acts = some r)
    (hd : t ∉ (new retention).observe deleted acts) : r.Rooted t := by
  induction h using after_induct with
  | start =>
    constructor
    · intro _ i inc hi
      cases hi
    · intro b hall
      obtain hk | ⟨id, purpose, readers, w, hc⟩ := hall
      · cases hk
      · cases hc
  | next acts q a s hq ha ih =>
    have hv := valid_of_after hq
    rw [observe_concat deleted hq, List.mem_append, not_or] at hd
    have hrooted := ih hd.1
    exact ⟨hrooted.current_next hv (hv.change ha) hd.2, hrooted.sized_next hv ha⟩

theorem size_of_undeleted {retention : Nat} {acts : List Action} {r : Relay} {t : String} {b : Nat}
    (h : (new retention).after acts = some r) (hd : t ∉ (new retention).observe deleted acts)
    (ht : t ∈ (r.broker b).topics) {i : Nat} {inc : Incarnation}
    (hf : r.log.find t = .ok (i, inc)) :
    inc.partitions.size = (r.broker b).config.workers := by
  have hrooted := rooted_of_after h hd
  obtain ⟨hopen, hfind, hi⟩ := Log.find_eq_ok.1 hf
  obtain ⟨j, inc', hj, ht', hsize⟩ := hrooted.sized b (.inl ht)
  have hcurrent := hrooted.current hopen j inc' hj ht'
  rw [hfind, Option.some.injEq] at hcurrent
  rw [← hcurrent, hi, Option.some.injEq] at hj
  rw [hj, hsize]

end EventRelay.Relay
