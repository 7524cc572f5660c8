import EventRelay.Proofs.Admission.Private
import EventRelay.Proofs.Relay.Calls
/-!
Calls that lose the race for the last slot have their topics deleted again. Main statement:
`compensates`, on a log of its own a broker leaves no topic behind and loses none it knows.
-/
namespace EventRelay

/-- Whether neither readers nor deletions fail by themselves. -/
def Script.Spares (σ : Script) : Prop :=
  ∀ h, h ∈ σ.waiting .tail ∨ h ∈ σ.waiting .delete → h.failure = none

namespace Script

theorem Spares.leaves {σ σ' : Script} (h : σ.Spares) (hl : σ.Leaves σ') : σ'.Spares :=
  fun x hx => h x (hx.imp (hl .tail x) (hl .delete x))

theorem Spares.tail {σ : Script} (h : σ.Spares) {w : Hindrance} (hw : σ.Meets .tail w) :
    w.failure = none := by
  obtain rfl | hw := hw
  · rfl
  · exact h w (.inl hw)

theorem Spares.delete {σ : Script} (h : σ.Spares) {w : Hindrance} (hw : σ.Meets .delete w) :
    w.failure = none := by
  obtain rfl | hw := hw
  · rfl
  · exact h w (.inr hw)

end Script

namespace Relay

/-- Somebody answers for the topic: the broker knows it, a call opens readers on it, or a removal
of it is under way. -/
inductive Claimed (r : Relay) (b : Nat) (topic : String) : Prop
  | known (hk : topic ∈ (r.broker b).topics)
  | opening (id : Nat) (purpose : Purpose) (readers : List Reader) (w : Hindrance)
      (hc : r.calls.find? id = some ⟨b, .opening topic purpose readers w⟩)
  | removed (id : Nat) (w : Option Hindrance) (hr : r.removals.find? id = some ⟨topic, w⟩)

structure Clears (r : Relay) (b : Nat) : Prop where
  script : r.script.Spares
  opening : ∀ id b' topic purpose readers w,
    r.calls.find? id = some ⟨b', .opening topic purpose readers w⟩ → w.failure = none
  removing : ∀ id topic w, r.removals.find? id = some ⟨topic, some w⟩ → w.failure = none
  claimed : ∀ topic, r.log.partitionCount topic ≠ none → r.Claimed b topic

section
variable {r s : Relay} {retention : Nat} {hist : List (Nat × Record)} {b : Nat}

/-! ### Claims -/

theorem Claimed.later {topic : String} (h : r.Claimed b topic) (hl : r.Later s)
    (hcalls : ∀ id p rs w, r.calls.find? id = some ⟨b, .opening topic p rs w⟩ →
      s.Claimed b topic)
    (hrem : ∀ id w, r.removals.find? id = some ⟨topic, w⟩ → s.Claimed b topic) :
    s.Claimed b topic := by
  cases h with
  | known hk => exact .known ((hl.topics b).subset hk)
  | opening id p rs w hc => exact hcalls id p rs w hc
  | removed id w hr => exact hrem id w hr

/-- A step of the call `id` keeps the claims of others. Its own it may give up when the topic is
not on the log any more or somebody else claims it. -/
theorem Clears.call {id : Nat} {stage stage' : Stage} (h : r.Clears b)
    (hc : r.calls.find? id = some ⟨b, stage⟩) (hl : r.Later s) (hσ : r.script.Leaves s.script)
    (hcalls : s.calls = r.calls.insert id ⟨b, stage'⟩)
    (hw : ∀ t p rs w, stage' = .opening t p rs w → w.failure = none)
    (hrem : ∀ j m, r.removals.find? j = some m → s.removals.find? j = some m)
    (hrem' : ∀ j t w, s.removals.find? j = some ⟨t, some w⟩ → w.failure = none)
    (hcount : ∀ t, s.log.partitionCount t ≠ none → r.log.partitionCount t ≠ none ∨ s.Claimed b t)
    (hself : ∀ t p rs w, stage = .opening t p rs w → s.log.partitionCount t ≠ none →
      s.Claimed b t) : s.Clears b where
  script := h.script.leaves hσ
  opening j b' t p rs w hj := by
    rw [hcalls, Table.find?_insert] at hj
    split at hj
    · cases hj
      exact hw t p rs w rfl
    · exact h.opening j b' t p rs w hj
  removing := hrem'
  claimed t ht := by
    obtain hold | hclaimed := hcount t ht
    · refine (h.claimed t hold).later hl (fun j p rs w hj => ?_) fun j w hj =>
        .removed j w (hrem j _ hj)
      by_cases hid : id = j
      · subst hid
        rw [hc] at hj
        cases hj
        exact hself t p rs w rfl ht
      · refine .opening j p rs w ?_
        rw [hcalls, Table.find?_insert, if_neg hid, hj]
    · exact hclaimed

theorem Moves.claimed {id : Nat} {sig : Signal} {stage stage' : Stage} {σ : Script}
    (hv : r.Valid retention hist) (ho : r.OwnsLog b) (h : r.Clears b)
    (hc : r.calls.find? id = some ⟨b, stage⟩) (hm : Moves r b sig stage stage') {t : String}
    {p : Purpose} {rs : List Reader} {w : Hindrance} (hs : stage = .opening t p rs w)
    (ht : r.log.partitionCount t ≠ none) : (r.goes id b σ stage').Claimed b t := by
  cases hm with
  | ensures hb | publishes hb | closes hb => cases hb <;> cases hs
  | fails hh =>
    subst hs
    cases hh
    cases h.opening id b t p rs _ hc
  | tailFails hl =>
    cases hs
    obtain ⟨n, hn⟩ := Option.ne_none_iff_exists'.1 ht
    have hlt := (hv.calls id b _ hc).2.2.1
    rw [← (ho.counts t n hn).2] at hlt
    exact absurd hn (Log.tail_error hl ho.logOpen hlt)
  | knows hl hn hk hready =>
    cases hs
    exact .known hk
  | delays | expires | createFails | produceFails | drains => cases hs

theorem CallStep.clears {id : Nat} {sig : Signal} {stage : Stage} (hv : r.Valid retention hist)
    (ho : r.OwnsLog b) (hn : r.Numbered) (h : r.Clears b)
    (hc : r.calls.find? id = some ⟨b, stage⟩) (hs : CallStep r id b sig stage s) : s.Clears b := by
  have hlater := hs.later hv hc
  cases hs with
  | moves hσ hm =>
    refine h.call hc hlater hσ rfl ?_ (fun _ _ hj => hj) h.removing (fun _ => .inl)
      fun t p rs w hst ht => hm.claimed hv ho h hc hst ht
    intro t p rs w heq
    subst heq
    exact absurd hm moves_opening
  | closes hb hopen =>
    refine h.call hc hlater (.refl _) rfl (fun _ _ _ _ heq => by cases heq) (fun _ _ hj => hj) h.removing
      (fun _ => .inl) ?_
    intro t p rs w heq
    subst heq
    cases hb
  | @creates topic purpose _ log _ w hσ hw hl =>
    refine h.call hc hlater hσ rfl ?_ (fun _ _ hj => hj) h.removing (fun t ht => ?_)
      (fun _ _ _ _ heq => by cases heq)
    · intro t p rs w heq
      cases heq
      exact h.script.tail hw
    · have hcount := hv.log.sound.partitionCount_create hl t
      by_cases htopic : t = topic
      · subst htopic
        exact .inr (.opening id purpose [] w (find?_goes ..))
      · rw [if_neg htopic] at hcount
        exact .inl (hcount ▸ ht)
  | opens script hσ hw hl hlt =>
    refine h.call hc hlater hσ rfl ?_ (fun _ _ hj => hj) h.removing (fun _ => .inl) ?_
    · intro t p rs w heq
      cases heq
      exact h.script.tail hw
    · intro t p rs w heq _
      cases heq
      exact .opening id _ _ _ (find?_goes ..)
  | @enrolls topic _ readers _ c stage script σ σ' hσ hl hlt hk hf hready =>
    have he := hv.enrolls hc hk ⟨c, script⟩ σ σ' stage
    refine h.call hc hlater hσ he.calls ?_ (fun j m hj => by rw [he.removals]; exact hj)
      (fun j t w hj => h.removing j t w (by rw [← he.removals]; exact hj))
      (fun t ht => .inl (by rw [← he.log]; exact ht)) ?_
    · intro t p rs w heq
      subst heq
      exact absurd hready ready_opening
    · intro t p rs w heq _
      cases heq
      refine .known ?_
      rw [he.broker b, if_pos rfl]
      exact List.mem_append_right _ (List.mem_singleton_self _)
  | @rejects topic _ _ _ _ _ hσ hl hlt hk hf =>
    refine h.call hc hlater hσ rfl (fun _ _ _ _ heq => by cases heq) (fun j m hj => ?_) (fun j t w hj => ?_)
      (fun _ => .inl) ?_
    · have hne : r.nextRemoval ≠ j := Nat.ne_of_gt (hn.removals j m hj)
      rw [goes, remove, Table.find?_insert, if_neg hne]
      exact hj
    · rw [goes, remove, Table.find?_insert] at hj
      split at hj
      · cases hj
      · exact h.removing j t w hj
    · intro t p rs w heq _
      cases heq
      exact .removed r.nextRemoval none (by rw [goes, remove, Table.find?_insert, if_pos rfl])
  | @produces _ _ _ _ _ log _ _ hσ hl hpub =>
    obtain ⟨i, rec, inc, inc', p, -, ha, -⟩ := Log.produce_appends hl hv.log.sound
    refine h.call hc hlater hσ rfl ?_ (fun _ _ hj => hj) h.removing (fun t ht => .inl ?_)
      (fun _ _ _ _ heq => by cases heq)
    · intro t p rs w heq
      subst heq
      exact absurd hpub publishes_opening
    · rw [← ha.partitionCount hv.log.sound t]
      exact ht
  | closesLog =>
    refine h.call hc hlater (.refl _) rfl (fun _ _ _ _ heq => by cases heq) (fun _ _ hj => hj) h.removing
      (fun t ht => ?_) (fun _ _ _ _ heq => by cases heq)
    exact absurd rfl ht

theorem Clears.keep (h : r.Clears b) (hl : r.Later s) (hσ : s.script.Spares)
    (hlog : s.log = r.log) (hcalls : ∀ j b' t p rs w,
      s.calls.find? j = some ⟨b', .opening t p rs w⟩ ↔
        r.calls.find? j = some ⟨b', .opening t p rs w⟩)
    (hrem : s.removals = r.removals) : s.Clears b where
  script := hσ
  opening j b' t p rs w hj := h.opening j b' t p rs w ((hcalls ..).1 hj)
  removing j t w hj := h.removing j t w (hrem ▸ hj)
  claimed t ht := by
    rw [hlog] at ht
    refine (h.claimed t ht).later hl (fun j p rs w hj => ?_) (fun j w hj => ?_)
    · exact .opening j p rs w ((hcalls ..).2 hj)
    · exact .removed j w (hrem.symm ▸ hj)

theorem Clears.removal {id : Nat} {topic : String} {w : Option Hindrance} {o : Option Removal}
    (h : r.Clears b) (hr : r.removals.find? id = some ⟨topic, w⟩) (hl : r.Later s)
    (hσ : r.script.Leaves s.script) (hcalls : s.calls = r.calls)
    (hrem : ∀ j, s.removals.find? j = if id = j then o else r.removals.find? j)
    (ho : ∀ t w, o = some ⟨t, some w⟩ → w.failure = none)
    (hcount : ∀ t, s.log.partitionCount t ≠ none → r.log.partitionCount t ≠ none)
    (hself : s.log.partitionCount topic ≠ none → s.Claimed b topic) : s.Clears b where
  script := h.script.leaves hσ
  opening j b' t p rs w hj := h.opening j b' t p rs w (hcalls ▸ hj)
  removing j t w hj := by
    rw [hrem j] at hj
    split at hj
    · exact ho t w hj
    · exact h.removing j t w hj
  claimed t ht := by
    refine (h.claimed t (hcount t ht)).later hl (fun j p rs w hj => ?_) (fun j w' hj => ?_)
    · exact .opening j p rs w (hcalls.symm ▸ hj)
    · by_cases hid : id = j
      · subst hid
        rw [hr] at hj
        cases hj
        exact hself ht
      · exact .removed j w' (by rw [hrem j, if_neg hid, hj])

theorem Change.clears {a : Action} (hv : r.Valid retention hist) (ho : r.OwnsLog b)
    (hn : r.Numbered) (h : r.Clears b) (hc : Change r a s) (ha : a.isPrivate b = true)
    (hσ : ∀ σ, a = .script σ → σ.Spares) : s.Clears b := by
  have hlater := hv.later hc
  cases hc with
  | scripts σ => exact h.keep hlater (hσ σ rfl) rfl (fun _ _ _ _ _ _ => Iff.rfl) rfl
  | submits b' q n =>
    refine h.keep hlater h.script rfl (fun j b' t p rs w => ?_) rfl
    rw [Table.find?_insert_eq_some]
    constructor
    · intro hj
      obtain ⟨-, heq⟩ | ⟨-, hold⟩ := hj
      · cases heq
      · exact hold
    · exact fun hj => .inr ⟨Nat.ne_of_gt (hn.calls j _ hj), hj⟩
  | @collects id b' answer hc =>
    refine h.keep hlater h.script rfl (fun j b' t p rs w => ?_) rfl
    rw [Table.find?_erase_eq_some]
    constructor
    · exact fun hj => hj.2
    · intro hj
      refine ⟨fun heq => ?_, hj⟩
      subst heq
      rw [hc] at hj
      cases hj
  | @calls id b' stage _ sig hc hs =>
    have hb : b' = b := ho.calls id _ hc
    subst hb
    exact hs.clears hv ho hn h hc
  | @deletes id topic hr script w hleaves hh =>
    refine h.removal hr hlater hleaves rfl (fun j => Table.find?_insert ..) (fun t w heq => ?_)
      (fun _ ht => ht) fun _ => ?_
    · cases heq
      exact h.script.delete hh
    · exact .removed id (some w) (by rw [Table.find?_insert, if_pos rfl])
  | @deletionFails id topic w hr hf =>
    -- The deletion does not fail by itself, so the topic is not there.
    have hgone : r.log.partitionCount topic = none := by
      obtain hf | ⟨e, he⟩ := hf
      · exact absurd (h.removing id topic w hr) hf
      · exact Log.delete_error he ho.logOpen
    exact h.removal hr hlater (.refl _) rfl (fun j => Table.find?_erase ..)
      (fun _ _ heq => by cases heq) (fun _ ht => ht) fun ht => absurd hgone ht
  | @deleted id topic w log hr hl =>
    have hcount := hv.log.sound.partitionCount_delete hl
    refine h.removal hr hlater (.refl _) rfl (fun j => Table.find?_erase ..)
      (fun _ _ heq => by cases heq) (fun t ht hnone => ht ?_) fun ht => ?_
    · rw [hcount t, hnone, ite_self]
    · exact absurd ((hcount topic).trans (if_pos rfl)) ht
  | aside | opensBroker | waits =>
    exact h.keep hlater h.script rfl (fun _ _ _ _ _ _ => Iff.rfl) rfl
  | lanes hi hs =>
    cases hs <;> exact h.keep hlater h.script rfl (fun _ _ _ _ _ _ => Iff.rfl) rfl
  | createsTopic | deletesTopic | produces | closesLog => cases ha

end

theorem clears_of_after {retention : Nat} {acts : List Action} {r : Relay} {b : Nat}
    (h : (new retention).after acts = some r) (hp : ∀ a ∈ acts, a.isPrivate b = true)
    (hσ : ∀ σ, .script σ ∈ acts → σ.Spares)
    (ho : b < r.brokers.size → (r.broker b).closed = false) : r.Clears b := by
  induction h using after_induct with
  | start =>
    refine ⟨?_, ?_, ?_, fun t ht => absurd rfl ht⟩
    · rintro w (hw | hw) <;> cases hw
    · intro id b' t p rs w hc
      cases hc
    · intro id t w hr
      cases hr
  | next acts q a s hq ha ih =>
    have hv := valid_of_after hq
    have hc := hv.change ha
    have hlater := hv.later hc
    have hopen : b < q.brokers.size → (q.broker b).closed = false := fun hb =>
      hlater.open_before hb (ho (Nat.lt_of_lt_of_le hb hlater.size))
    have hp' : ∀ x ∈ acts, x.isPrivate b = true := fun x hx => hp x (List.mem_append_left _ hx)
    have hlast : a ∈ acts ++ [a] := List.mem_append_right _ (List.mem_singleton_self a)
    have hclears := ih hp' (fun σ hx => hσ σ (List.mem_append_left _ hx)) hopen
    exact hc.clears hv (ownsLog_of_after hq hp' hopen) (numbered_of_after hq) hclears (hp a hlast)
      fun σ hx => hσ σ (hx ▸ hlast)

theorem topicNames_eq {l : Log} {k : Broker} (hn : k.topics.Nodup)
    (h : ∀ t, (∃ i, l.topics.find? t = some i) ↔ t ∈ k.topics) :
    l.topicNames = k.topicNames := by
  have hsorted : ∀ ts : List String,
      (ts.mergeSort fun x y => decide (x ≤ y)).Pairwise fun x y => decide (x ≤ y) = true := by
    intro ts
    refine List.pairwise_mergeSort (fun x y z hxy hyz => ?_) (fun x y => ?_) ts
    · exact decide_eq_true (String.le_trans (of_decide_eq_true hxy) (of_decide_eq_true hyz))
    · simpa using String.le_total x y
  have hperm : l.topics.keys.Perm k.topics :=
    (List.perm_ext_iff_of_nodup l.topics.nodup hn).2 fun t => Table.mem_keys.trans (h t)
  refine List.Perm.eq_of_pairwise ?_ (hsorted _) (hsorted _)
    ((List.mergeSort_perm _ _).trans (hperm.trans (List.mergeSort_perm _ _).symm))
  intro x y _ _ hxy hyx
  exact String.le_antisymm (of_decide_eq_true hxy) (of_decide_eq_true hyx)

/-- A broker that is never closed and has its log to itself, where creations may fail or take too
long but readers and deletions do not fail by themselves: at every moment the topics it knows are
on the log and no removal names one of them, and when every call has answered and no removal is
left, the log has exactly the topics the broker knows. -/
theorem compensates {retention : Nat} {acts : List Action} {r : Relay} {b : Nat}
    (h : (new retention).after acts = some r) (ho : (r.broker b).closed = false)
    (hp : ∀ a ∈ acts, a.isPrivate b = true) (hσ : ∀ σ, .script σ ∈ acts → σ.Spares) :
    (∀ pre q, pre <+: acts → (new retention).after pre = some q →
      (∀ t ∈ (q.broker b).topics, q.log.partitionCount t = some (q.broker b).config.workers) ∧
      ∀ id m, q.removals.find? id = some m → m.topic ∉ (q.broker b).topics) ∧
    ((∀ id c, r.calls.find? id = some c → ∃ answer, c.stage = .finished answer) →
      (∀ id, r.removals.find? id = none) → r.log.topicNames = (r.broker b).topicNames) := by
  have hv := valid_of_after h
  constructor
  · intro pre q hall hq
    obtain ⟨post, rfl⟩ := hall
    rw [after_append, hq, Option.bind_some] at h
    have hlater := ((valid_of_after hq).run h).2
    have hown := ownsLog_of_after hq (fun a ha => hp a (List.mem_append_left _ ha))
      fun hb => hlater.open_before hb ho
    exact ⟨hown.known, fun id m hm => (hown.removals id m hm).1⟩
  · intro hcalls hrem
    have hown := ownsLog_of_after h hp fun _ => ho
    have hclears := clears_of_after h hp hσ fun _ => ho
    refine topicNames_eq (hv.brokers b).nodup fun t => ?_
    have hcount : (∃ i, r.log.topics.find? t = some i) ↔ r.log.partitionCount t ≠ none := by
      rw [ne_eq, hv.log.sound.partitionCount_eq_none, ← ne_eq, Option.ne_none_iff_exists']
    rw [hcount]
    constructor
    · intro ht
      cases hclears.claimed t ht with
      | known hk => exact hk
      | opening id p rs w hc =>
        obtain ⟨answer, hfin⟩ := hcalls id _ hc
        cases hfin
      | removed id w hr =>
        rw [hrem id] at hr
        cases hr
    · intro ht
      rw [hown.known t ht]
      exact Option.some_ne_none _

/-- Two calls race for the only slot, and the topic of the one that comes too late is removed. A
third call fails to create its topic. -/
def raceForSlot : List Action :=
  [.addRegistry 1, .addBroker { workers := 1, maxTopics := 1 } 0,
    .script (({} : Script).addCalls .create [{}, {}, ⟨5, some "unreachable"⟩]),
    .submit 0 (.ensure "a") 0, .submit 0 (.ensure "b") 0, .submit 0 (.ensure "c") 0,
    .step (.call 0) .proceed, .step (.call 1) .proceed, .step (.call 2) .proceed,
    .step (.call 0) .proceed, .step (.call 1) .proceed, .step (.call 2) .proceed,
    .step (.call 0) .proceed, .step (.call 1) .proceed,
    .step (.removal 0) .proceed, .step (.removal 0) .proceed,
    .collect 0, .collect 1, .collect 2]

theorem compensates_race : ∃ r, (new 4).after raceForSlot = some r ∧
    (r.broker 0).topicNames = ["a"] ∧ r.log.topicNames = (r.broker 0).topicNames := by
  have hrun : ((new 4).after raceForSlot).map (fun r => ((r.broker 0).closed,
      (r.broker 0).topicNames, r.calls.isEmpty, r.removals.isEmpty)) =
      some (false, ["a"], true, true) := by decide +kernel
  obtain ⟨r, hr, heq⟩ := Option.map_eq_some_iff.1 hrun
  simp only [Prod.mk.injEq] at heq
  obtain ⟨hopen, htopics, hcalls, hremovals⟩ := heq
  have hspares : ∀ σ, .script σ ∈ raceForSlot → σ.Spares := by
    intro σ hσ
    simp only [raceForSlot, List.mem_cons, Action.script.injEq, reduceCtorEq, List.not_mem_nil,
      or_false, false_or] at hσ
    subst hσ
    rintro w (hw | hw) <;> cases hw
  refine ⟨r, hr, htopics, (compensates hr hopen (by decide) hspares).2 ?_ ?_⟩
  · intro id c hc
    rw [Table.eq_empty_of_isEmpty hcalls] at hc
    cases hc
  · intro id
    rw [Table.eq_empty_of_isEmpty hremovals]
    rfl

end Relay
end EventRelay
