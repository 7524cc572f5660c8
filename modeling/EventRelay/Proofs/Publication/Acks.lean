import EventRelay.Proofs.Publication.Records
/-!
Where the records of one channel stand while no topic is deleted. Main statements:
`ordered_of_undeleted`, they are in one partition at increasing offsets, and `Carrying.ordered`.
-/
namespace EventRelay

/-- Of two publications to one channel, the first comes before in the same partition. -/
def Publication.Precedes (x y : Publication × Ack) : Prop :=
  x.1.channel = y.1.channel → x.2.partition = y.2.partition ∧ x.2.offset < y.2.offset

namespace Log

theorem Sound.current_create {l l' : Log} (hs : l.Sound) {t u : String} {n i : Nat}
    (h : l.create t n = .ok l') (hu : l.topics.find? u = some i) : l'.topics.find? u = some i := by
  obtain ⟨-, -, ⟨-, rfl⟩ | ⟨-, hnone, rfl⟩⟩ := create_ok h
  · exact hu
  · have hne : t ≠ u := by
      intro heq
      rw [hs.partitionCount_eq_none, heq, hu] at hnone
      cases hnone
    rw [Table.find?_insert, if_neg hne, hu]

theorem Keeps.ordered {l : Log} {retention i : Nat} {hist : List (Nat × Record)} {x y : Record}
    (h : l.Keeps retention hist) (hxy : [(i, x), (i, y)].Sublist hist) (hkey : x.key = y.key) :
    x.partition = y.partition ∧ x.offset < y.offset := by
  obtain ⟨inc, hinc, -, hx⟩ := h.source i x (hxy.subset (by simp))
  obtain ⟨inc', hinc', -, hy⟩ := h.source i y (hxy.subset (by simp))
  rw [hinc] at hinc'
  cases hinc'
  have hpartition : x.partition = y.partition := by rw [hx, hy, hkey]
  have hsub : [x, y].Sublist (recordsAt hist i x.partition) := by
    have hfilter := hxy.filter fun e => decide (e.1 = i ∧ e.2.partition = x.partition)
    simpa [recordsAt, hpartition] using hfilter.map Prod.snd
  exact ⟨hpartition, List.pairwise_iff_forall_sublist.1 (h.pairwise_offset i x.partition) hsub⟩

end Log

namespace Relay
variable {q r : Relay} {retention : Nat} {hist : List (Nat × Record)} {acts : List Action}

/-- What was appended is in the current incarnation of its topic, so in the same as what is appended
to the topic later. -/
theorem current_of_undeleted (hq : q.Valid retention hist) (hr : q.after acts = some r)
    (hd : q.observe deleted acts = []) :
    (r.log.closed = false → ∀ x ∈ q.history acts, r.log.topics.find? x.2.topic = some x.1) ∧
    (q.history acts).Pairwise fun x y => x.2.topic = y.2.topic → x.1 = y.1 := by
  induction hr using after_induct with
  | start => exact ⟨fun _ => nofun, .nil⟩
  | next acts r a s hr ha ih =>
    rw [observe_concat _ hr, List.append_eq_nil_iff] at hd
    obtain ⟨hcurrent, hsame⟩ := ih hd.1
    have hv := (hq.run hr).1
    simp only [history, observe_concat appended hr]
    cases (hv.change ha).logChange hv with
    | same hl hnone =>
      rw [hnone, List.append_nil, hl]
      exact ⟨hcurrent, hsame⟩
    | creates hl hnone =>
      rw [hnone, List.append_nil]
      obtain ⟨hopen, -⟩ := Log.create_ok hl
      exact ⟨fun _ x hx => hv.log.sound.current_create hl (hcurrent hopen x hx), hsame⟩
    | deletes hl hdeleted =>
      rw [hd.2] at hdeleted
      cases hdeleted
    | @appends i rec inc inc' p hl hone =>
      obtain ⟨hopen, hi, -⟩ := Log.find_eq_ok.1 hl.find
      have htopics : s.log.topics = r.log.topics := by rw [hl.log]
      rw [hone, htopics]
      refine ⟨fun _ x hx => ?_, List.pairwise_append.2 ⟨hsame, List.pairwise_singleton .., ?_⟩⟩
      · cases List.mem_append.1 hx with
        | inl hx => exact hcurrent hopen x hx
        | inr hx => rw [List.mem_singleton.1 hx, hi]
      · intro x hx y hy htopic
        rw [List.mem_singleton.1 hy] at htopic ⊢
        have hold := hcurrent hopen x hx
        rw [htopic, hi] at hold
        exact (Option.some.inj hold).symm
    | closes hl hnone =>
      rw [hnone, List.append_nil, hl]
      exact ⟨nofun, hsame⟩

theorem ordered_of_undeleted (hq : q.Valid retention hist) (hr : q.after acts = some r)
    (hd : q.observe deleted acts = []) : (q.history acts).Pairwise fun x y =>
      x.2.topic = y.2.topic → x.2.key = y.2.key →
        x.2.partition = y.2.partition ∧ x.2.offset < y.2.offset := by
  have hkeeps := (hq.run hr).1.log
  refine List.pairwise_iff_forall_sublist.2 fun {x y} hxy htopic hkey => ?_
  have hsame := List.pairwise_iff_forall_sublist.1 (current_of_undeleted hq hr hd).2 hxy htopic
  obtain ⟨i, x⟩ := x
  obtain ⟨j, y⟩ := y
  cases hsame
  exact hkeeps.ordered (hxy.trans (List.sublist_append_right ..)) hkey

theorem ofCall_sublist (q : Relay) (id : Nat) (acts : List Action) :
    (q.observe (ofCall id appended) acts).Sublist (q.history acts) := by
  induction acts generalizing q with
  | nil => exact .slnil
  | cons a acts ih =>
    simp only [history, observe]
    refine List.Sublist.append ?_ ?_
    · unfold ofCall
      split
      · split
        · exact .refl _
        · exact List.nil_sublist _
      · exact List.nil_sublist _
    · cases q.act a with
      | none => exact .slnil
      | some s => exact ih s

theorem Carrying.ordered {id b : Nat} {items : List Publication} {ups : List UInt64}
    {acks : List Ack} (hq : q.Valid retention hist) (hr : q.after acts = some r)
    (h : r.Carrying id b items (q.observe (ofCall id appended) acts) ups acks)
    (hd : q.observe deleted acts = []) : (items.zip acks).Pairwise Publication.Precedes := by
  have hordered := (ordered_of_undeleted hq hr hd).sublist (ofCall_sublist q id acts)
  have hrecords : (List.zipWith Publication.record items acks).Pairwise fun x y =>
      x.topic = y.topic → x.key = y.key → x.partition = y.partition ∧ x.offset < y.offset := by
    rw [← h.records]
    exact List.pairwise_map.2 hordered
  rw [← List.map_uncurry_zip_eq_zipWith, List.pairwise_map] at hrecords
  refine hrecords.imp fun {x y} hxy hchannel => ?_
  exact hxy (congrArg Channel.topic hchannel) (congrArg Channel.name hchannel)

end Relay
end EventRelay
