import EventRelay.Proofs.Registry.Exchange
/-!
A subscriber among others is told what it would be told alone. Main statements: `Alike.own` and
`Alike.other`, one deed seen by a subscriber, and `told_alike`, two histories that differ in what
the others do.
-/
namespace EventRelay.Exchange
open History

/-- The subscriber `id` with mailbox `k`: no other has that mailbox, and it has no other. -/
def Sole (id : SubscriberId) (k : Nat) (deeds : List Deed) : Prop :=
  ∀ c id' j, .attach c id' j ∈ deeds → (id' = id ↔ j = k)

/-- What a deed is to the subscriber `id` with mailbox `k` when there are `n` mailboxes: nothing if
it is a deed of others. A dispatch is everyone's. Its own mailbox it calls `0`. -/
def ownDeed (id : SubscriberId) (k n : Nat) : Deed → Option Deed
  | .add capacity => if n = k then some (.add capacity) else none
  | .attach c id' j => if j = k then some (.attach c id' 0) else none
  | .detach c id' => if id' = id then some (.detach c id') else none
  | .dispatch c payload => some (.dispatch c payload)
  | .handle j w => if j = k then some (.handle 0 w) else none

def mailboxesAdded : Deed → Nat
  | .add _ => 1
  | _ => 0

def ownDeeds (id : SubscriberId) (k n : Nat) : List Deed → List Deed
  | [] => []
  | d :: deeds => (ownDeed id k n d).toList ++ ownDeeds id k (n + mailboxesAdded d) deeds

/-- Whether a subscriber is told what came of a deed: of what it does with its mailbox, and of
letting go. -/
def isToldTo (id : SubscriberId) (k : Nat) : Deed → Bool
  | .handle j _ => j = k
  | .detach _ id' => id' = id
  | _ => false

def told (id : SubscriberId) (k : Nat) (tr : List (Deed × Outcome)) : List Outcome :=
  (tr.filter fun e => isToldTo id k e.1).map Prod.snd

/-- Among those who are attached, mailbox `k` is that of `id` and no other's. -/
def IsSole (x : Exchange) (id : SubscriberId) (k : Nat) : Prop :=
  ∀ c id' j, x.attached? c id' = some j → (id' = id ↔ j = k)

def heard (payload : List UInt8) (b : Mailbox) : Mailbox :=
  match Binary.decode payload with
  | .ok m => b.offered m
  | .error _ => b

section
variable {x : Exchange} {id : SubscriberId} {k : Nat}

theorem IsSole.attached (h : x.IsSole id k) (c : Channel) :
    x.attached? c id = none ∨ x.attached? c id = some k := by
  cases hc : x.attached? c id with
  | none => exact .inl rfl
  | some j => exact .inr (congrArg some ((h c id j hc).1 rfl))

theorem IsSole.next (h : x.IsSole id k) {d : Deed}
    (hd : ∀ c id' j, d = .attach c id' j → (id' = id ↔ j = k)) : (x.step d).2.IsSole id k := by
  intro c id' j hj
  cases x.attached_step d hj with
  | inl hold => exact h c id' j hold
  | inr hnew => exact hd c id' j hnew

theorem IsSole.get?_dispatch (h : x.IsSole id k) (c : Channel) (payload : List UInt8) :
    (x.step (.dispatch c payload)).2.boxes.get? k =
      if (x.attached? c id).isSome then (x.boxes.get? k).map (heard payload)
      else x.boxes.get? k := by
  have hmem : k ∈ (x.registry.members c).values ↔ (x.attached? c id).isSome := by
    rw [Table.mem_values, Option.isSome_iff_exists]
    constructor
    · intro hk
      obtain ⟨id', hk⟩ := hk
      obtain rfl := (h c id' k hk).2 rfl
      exact ⟨k, hk⟩
    · intro hk
      obtain ⟨j, hj⟩ := hk
      obtain rfl := (h c id j hj).1 rfl
      exact ⟨id, hj⟩
  simp only [step]
  split
  · rename_i hk
    cases hd : Binary.decode payload with
    | error e =>
      have hsame : heard payload = fun b => b := by
        funext b
        rw [heard, hd]
      rw [Registry.dispatch_of_error hd, hsame, Option.map_id']
    | ok m =>
      have hsame : heard payload = .offered m := by
        funext b
        rw [heard, hd]
      have hone : (x.registry.members c).values.count k = 1 := by
        have hle := Table.count_values_le_one (t := x.registry.members c) (v := k)
          fun i j hi hj => ((h c i k hi).2 rfl).trans ((h c j k hj).2 rfl).symm
        have hpos := List.count_pos_iff.2 (hmem.2 hk)
        omega
      rw [Registry.dispatch_of_ok hd, hsame]
      exact Registry.get?_offer m hone x.boxes
  · rename_i hk
    exact Registry.get?_dispatch_of_not_mem _ _ _ _ fun hin => hk (hmem.1 hin)

theorem IsSole.get?_attach (h : x.IsSole id k) (c : Channel) :
    (x.step (.attach c id k)).2.boxes.get? k =
      if (x.attached? c id).isSome then
        ((x.boxes.get? k).map (.handled .share)).map (.handled .release)
      else (x.boxes.get? k).map (.handled .share) := by
  cases h.attached c with
  | inl hnone =>
    rw [hnone]
    rw [attached?] at hnone
    simp only [step, Registry.attach, hnone]
    exact (x.boxes.get?_modify k k _).trans (if_pos rfl)
  | inr hsome =>
    rw [hsome]
    rw [attached?] at hsome
    simp only [step, Registry.attach, hsome]
    rw [Mailboxes.dropSender, Mailboxes.get?_modify, if_pos rfl, Mailboxes.addSender,
      Mailboxes.get?_modify, if_pos rfl]
    rfl

theorem IsSole.get?_attach_other (h : x.IsSole id k) (c : Channel) {id' : SubscriberId} {j : Nat}
    (hid : id' ≠ id) (hj : j ≠ k) :
    (x.step (.attach c id' j)).2.boxes.get? k = x.boxes.get? k := by
  have hshare : (x.boxes.addSender j).get? k = x.boxes.get? k := x.boxes.get?_modify_of_ne hj _
  simp only [step, Registry.attach]
  cases hold : (x.registry.members c).find? id' with
  | none => exact hshare
  | some i =>
    have hi : i ≠ k := fun hi => hid ((h c id' i hold).2 hi)
    exact (Mailboxes.get?_modify_of_ne _ hi _).trans hshare

theorem IsSole.get?_detach (h : x.IsSole id k) (c : Channel) :
    (x.step (.detach c id)).2.boxes.get? k =
      if (x.attached? c id).isSome then (x.boxes.get? k).map (.handled .release)
      else x.boxes.get? k := by
  cases h.attached c with
  | inl hnone =>
    rw [hnone]
    rw [attached?] at hnone
    simp only [step, Registry.detach, hnone]
    rfl
  | inr hsome =>
    rw [hsome]
    rw [attached?] at hsome
    simp only [step, Registry.detach, hsome]
    exact (x.boxes.get?_modify k k _).trans (if_pos rfl)

theorem IsSole.get?_detach_other (h : x.IsSole id k) (c : Channel) {id' : SubscriberId}
    (hid : id' ≠ id) : (x.step (.detach c id')).2.boxes.get? k = x.boxes.get? k := by
  simp only [step, Registry.detach]
  cases hold : (x.registry.members c).find? id' with
  | none => rfl
  | some i =>
    exact x.boxes.get?_modify_of_ne (fun hi => hid ((h c id' i hold).2 hi)) _

theorem outcome_detach (x : Exchange) (c : Channel) (id : SubscriberId) :
    (x.step (.detach c id)).1 = .found (x.attached? c id).isSome := by
  simp only [step, Registry.detach, attached?]
  cases (x.registry.members c).find? id <;> rfl

end

/-- The subscriber `id` finds the same in `x`, with mailbox `k`, as in `y`, where it is alone. -/
structure Alike (id : SubscriberId) (k : Nat) (x y : Exchange) : Prop where
  sole : x.IsSole id k
  alone : y.IsSole id 0
  attached : ∀ c, (x.attached? c id).isSome = (y.attached? c id).isSome
  box : x.boxes.get? k = y.boxes.get? 0
  fresh : x.boxes.size ≤ k → y.boxes.size = 0

section
variable {id : SubscriberId} {k : Nat} {x y : Exchange} {d d' : Deed}

theorem size_step (x : Exchange) (d : Deed) :
    (x.step d).2.boxes.size = x.boxes.size + mailboxesAdded d := by
  cases d with
  | add capacity => exact Array.size_push _
  | attach c id k => exact (x.registry.drains_attach x.boxes c id k).size
  | detach c id => exact (x.registry.drains_detach x.boxes c id).size
  | dispatch c payload => exact x.registry.size_dispatch x.boxes c payload
  | handle k w =>
    simp only [step, Mailboxes.handle_boxes, Mailboxes.size_modify]
    rfl

theorem get?_add (x : Exchange) (capacity j : Nat) :
    (x.step (.add capacity)).2.boxes.get? j =
      if j = x.boxes.size then some (.new capacity) else x.boxes.get? j :=
  Array.getElem?_push

theorem get?_handle (x : Exchange) (i j : Nat) (w : Handling) :
    (x.step (.handle i w)).2.boxes.get? j =
      if i = j then (x.boxes.get? j).map (.handled w) else x.boxes.get? j := by
  simp only [step, Mailboxes.handle_boxes, Mailboxes.get?_modify]

theorem Alike.other (h : Alike id k x y)
    (hd : ∀ c id' j, d = .attach c id' j → (id' = id ↔ j = k))
    (hnone : ownDeed id k x.boxes.size d = none) : Alike id k (x.step d).2 y := by
  have hkept : (∀ c, (x.step d).2.attached? c id = x.attached? c id) ∧
      (x.step d).2.boxes.get? k = x.boxes.get? k := by
    cases d with
    | add capacity =>
      have hk : x.boxes.size ≠ k := by simpa [ownDeed] using hnone
      exact ⟨fun _ => rfl, by rw [get?_add, if_neg (Ne.symm hk)]⟩
    | attach c id' j =>
      have hj : j ≠ k := by simpa [ownDeed] using hnone
      have hid : id' ≠ id := fun hid => hj ((hd c id' j rfl).1 hid)
      exact ⟨fun e => by rw [attached_attach, if_neg fun hsame => hid hsame.2],
        h.sole.get?_attach_other c hid hj⟩
    | detach c id' =>
      have hid : id' ≠ id := by simpa [ownDeed] using hnone
      exact ⟨fun e => by rw [attached_detach, if_neg fun hsame => hid hsame.2],
        h.sole.get?_detach_other c hid⟩
    | dispatch c payload => cases hnone
    | handle j w =>
      have hj : j ≠ k := by simpa [ownDeed] using hnone
      exact ⟨fun _ => rfl, by rw [get?_handle, if_neg hj]⟩
  refine ⟨h.sole.next hd, h.alone, fun c => ?_, ?_, fun hle => h.fresh ?_⟩
  · rw [hkept.1, h.attached]
  · rw [hkept.2, h.box]
  · rw [size_step] at hle
    omega

theorem Alike.keep (h : Alike id k x y) (hs : (x.step d).2.IsSole id k)
    (ha : (y.step d').2.IsSole id 0) (hnew : mailboxesAdded d' = 0)
    (hattached : ∀ c, ((x.step d).2.attached? c id).isSome = ((y.step d').2.attached? c id).isSome)
    (hbox : (x.step d).2.boxes.get? k = (y.step d').2.boxes.get? 0) :
    Alike id k (x.step d).2 (y.step d').2 := by
  refine ⟨hs, ha, hattached, hbox, fun hle => ?_⟩
  rw [size_step] at hle
  rw [size_step, hnew, h.fresh (by omega)]

theorem Alike.own (h : Alike id k x y)
    (hd : ∀ c id' j, d = .attach c id' j → (id' = id ↔ j = k))
    (hsome : ownDeed id k x.boxes.size d = some d') : Alike id k (x.step d).2 (y.step d').2 ∧
      isToldTo id 0 d' = isToldTo id k d ∧
      (isToldTo id k d = true → (x.step d).1 = (y.step d').1) := by
  have hsole := h.sole.next hd
  cases d with
  | add capacity =>
    obtain ⟨hk, rfl⟩ : x.boxes.size = k ∧ .add capacity = d' := by simpa [ownDeed] using hsome
    have hy : y.boxes.size = 0 := h.fresh (Nat.le_of_eq hk)
    refine ⟨⟨hsole, h.alone.next nofun, h.attached, ?_, fun hle => ?_⟩, rfl, nofun⟩
    · rw [get?_add, get?_add, if_pos hk.symm, if_pos hy.symm]
    · rw [size_step, hk] at hle
      exact absurd hle (Nat.not_succ_le_self k)
  | attach c id' j =>
    obtain ⟨rfl, rfl⟩ : j = k ∧ .attach c id' 0 = d' := by simpa [ownDeed] using hsome
    obtain rfl := (hd c id' j rfl).2 rfl
    have halone : (y.step (.attach c id' 0)).2.IsSole id' 0 := by
      refine h.alone.next fun c' i j' hij => ?_
      cases hij
      exact ⟨fun _ => rfl, fun _ => rfl⟩
    refine ⟨h.keep hsole halone rfl (fun e => ?_) ?_, rfl, nofun⟩
    · rw [attached_attach, attached_attach]
      split
      · rfl
      · exact h.attached e
    · rw [h.sole.get?_attach, h.alone.get?_attach, h.attached, h.box]
  | detach c id' =>
    obtain ⟨rfl, rfl⟩ : id' = id ∧ .detach c id' = d' := by simpa [ownDeed] using hsome
    refine ⟨h.keep hsole (h.alone.next nofun) rfl (fun e => ?_) ?_, rfl, fun _ => ?_⟩
    · rw [attached_detach, attached_detach]
      split
      · rfl
      · exact h.attached e
    · rw [h.sole.get?_detach, h.alone.get?_detach, h.attached, h.box]
    · rw [outcome_detach, outcome_detach, h.attached]
  | dispatch c payload =>
    cases hsome
    refine ⟨h.keep hsole (h.alone.next nofun) rfl (fun e => ?_) ?_, rfl, nofun⟩
    · rw [attached_dispatch, attached_dispatch, h.attached]
    · rw [h.sole.get?_dispatch, h.alone.get?_dispatch, h.attached, h.box]
  | handle j w =>
    obtain ⟨rfl, rfl⟩ : j = k ∧ .handle 0 w = d' := by simpa [ownDeed] using hsome
    refine ⟨h.keep hsole (h.alone.next nofun) rfl h.attached ?_, ?_, fun _ => ?_⟩
    · rw [get?_handle, get?_handle, if_pos rfl, if_pos rfl, h.box]
    · simp [isToldTo]
    · exact Mailboxes.handle_outcome h.box w

theorem isToldTo_of_other {n : Nat} (h : ownDeed id k n d = none) : isToldTo id k d = false := by
  cases d with
  | detach c id' => simpa [isToldTo, ownDeed] using h
  | handle j w => simpa [isToldTo, ownDeed] using h
  | _ => rfl

theorem told_cons (id : SubscriberId) (k : Nat) (d : Deed) (o : Outcome)
    (tr : List (Deed × Outcome)) : told id k ((d, o) :: tr) =
      (if isToldTo id k d then [o] else []) ++ told id k tr := by
  cases h : isToldTo id k d <;> simp [told, h]

theorem Alike.told_eq {deeds : List Deed} (h : Alike id k x y) (hs : Sole id k deeds) :
    told id k (trace step x deeds) =
      told id 0 (trace step y (ownDeeds id k x.boxes.size deeds)) := by
  induction deeds generalizing x y with
  | nil => rfl
  | cons d deeds ih =>
    have hd : ∀ c id' j, d = .attach c id' j → (id' = id ↔ j = k) :=
      fun c id' j hd => hs c id' j (hd ▸ List.mem_cons_self)
    have hrest : Sole id k deeds := fun c id' j hj => hs c id' j (List.mem_cons_of_mem d hj)
    rw [trace, told_cons, ownDeeds, ← size_step]
    cases hown : ownDeed id k x.boxes.size d with
    | none =>
      rw [isToldTo_of_other hown]
      exact ih (h.other hd hown) hrest
    | some d' =>
      obtain ⟨halike, htold, hsame⟩ := h.own hd hown
      rw [Option.toList_some, List.singleton_append, trace, told_cons, htold, ih halike hrest]
      cases hme : isToldTo id k d with
      | false => rfl
      | true => rw [hsame hme]

end

theorem alike_new (id : SubscriberId) (k workers : Nat) : Alike id k (new workers) (new 1) := by
  have hnone (n : Nat) (c : Channel) (id' : SubscriberId) : (new n).attached? c id' = none := by
    rw [attached?, new, Registry.members_new]
    rfl
  refine ⟨fun c id' j hj => ?_, fun c id' j hj => ?_, fun c => ?_, rfl, fun _ => rfl⟩
  · rw [hnone] at hj
    cases hj
  · rw [hnone] at hj
    cases hj
  · rw [hnone, hnone]

/-- A subscriber that does the same, among the same dispatches, is told the same, whatever others do
and however many shards there are. -/
theorem told_alike {id : SubscriberId} {k k' : Nat} (workers workers' : Nat)
    {deeds deeds' : List Deed} (hs : Sole id k deeds) (hs' : Sole id k' deeds')
    (h : ownDeeds id k 0 deeds = ownDeeds id k' 0 deeds') :
    told id k (trace step (new workers) deeds) = told id k' (trace step (new workers') deeds') :=
  calc
    told id k (trace step (new workers) deeds)
        = told id 0 (trace step (new 1) (ownDeeds id k 0 deeds)) :=
          (alike_new id k workers).told_eq hs
    _ = told id 0 (trace step (new 1) (ownDeeds id k' 0 deeds')) := by rw [h]
    _ = told id k' (trace step (new workers') deeds') :=
          ((alike_new id k' workers').told_eq hs').symm

/-- One subscriber: it reads one event, lets go and finds its stream at an end. -/
def oneReader : List Deed :=
  [.add 2, .attach ⟨"a", "k"⟩ (.fresh 0) 0,
    .dispatch ⟨"a", "k"⟩ (Binary.encode (.object .create 1)), .handle 0 .take,
    .detach ⟨"a", "k"⟩ (.fresh 0), .handle 0 .release, .handle 0 .take]

def oneOfTwoReaders : List Deed :=
  [.add 1, .add 2, .attach ⟨"a", "k"⟩ (.fresh 1) 0,
    .handle 0 (.deliver (.fresh 1) (.object .delete 9)), .attach ⟨"a", "k"⟩ (.fresh 0) 1,
    .dispatch ⟨"a", "k"⟩ (Binary.encode (.object .create 1)), .handle 0 .close, .handle 1 .take,
    .detach ⟨"a", "k"⟩ (.fresh 0), .handle 1 .release, .handle 1 .take]

theorem told_alike_of_company : Sole (.fresh 0) 0 oneReader ∧ Sole (.fresh 0) 1 oneOfTwoReaders ∧
    ownDeeds (.fresh 0) 0 0 oneReader = ownDeeds (.fresh 0) 1 0 oneOfTwoReaders ∧
    told (.fresh 0) 0 (trace step (new 1) oneReader) =
      told (.fresh 0) 1 (trace step (new 3) oneOfTwoReaders) ∧
    told (.fresh 0) 0 (trace step (new 1) oneReader) =
      [.taken (.message (.object .create 1)), .found true, .done, .taken .disconnected] := by
  have hs : Sole (.fresh 0) 0 oneReader := by
    intro c id j hj
    simp only [oneReader, List.mem_cons, Deed.attach.injEq, reduceCtorEq, false_or,
      List.not_mem_nil, or_false] at hj
    obtain ⟨-, rfl, rfl⟩ := hj
    decide
  have hs' : Sole (.fresh 0) 1 oneOfTwoReaders := by
    intro c id j hj
    simp only [oneOfTwoReaders, List.mem_cons, Deed.attach.injEq, reduceCtorEq, false_or,
      List.not_mem_nil, or_false] at hj
    obtain ⟨-, rfl, rfl⟩ | ⟨-, rfl, rfl⟩ := hj <;> decide
  have hsame : ownDeeds (.fresh 0) 0 0 oneReader = ownDeeds (.fresh 0) 1 0 oneOfTwoReaders := by
    decide +kernel
  exact ⟨hs, hs', hsame, told_alike 1 3 hs hs' hsame, by decide +kernel⟩

end EventRelay.Exchange
