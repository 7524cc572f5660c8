import EventRelay.Proofs.Delivery.Senders
import EventRelay.Proofs.Delivery.Waiting
/-!
When a receiver finds its stream at an end: when its buffer is empty, no handle is held outside the
registry and the registry has no clone of one. Main statements: `attached_iff`, how long a place of
the registry is held, `order_after`, no message is lost, and `streams_until_let_go`.
-/
namespace EventRelay
open History

/-! ### What is in a buffer -/

namespace Mailbox
variable {b : Mailbox}

theorem take_disconnected (h : b.accepting = true) :
    b.take.1 = .disconnected ↔ b.buffer = [] ∧ b.senders = 0 := by
  unfold take
  cases b.buffer with
  | nil => simp [h]
  | cons m rest => simp

theorem take_empty (h : b.accepting = true) :
    b.take.1 = .empty ↔ b.buffer = [] ∧ b.senders ≠ 0 := by
  unfold take
  cases b.buffer with
  | nil => simp [h]
  | cons m rest => simp

end Mailbox

namespace Mailboxes
variable {k : Nat}

theorem buffer_modify (t : Mailboxes) (j : Nat) {f : Mailbox → Mailbox}
    (hf : ∀ b, (f b).buffer = b.buffer) : (t.modify j f).buffer k = t.buffer k := by
  rw [buffer, buffer, get?_modify]
  cases t.get? k with
  | none => split <;> rfl
  | some b =>
    split
    · exact hf b
    · rfl

@[simp] theorem buffer_addSender (t : Mailboxes) (j : Nat) :
    (t.addSender j).buffer k = t.buffer k :=
  t.buffer_modify j fun _ => rfl

@[simp] theorem buffer_dropSender (t : Mailboxes) (j : Nat) :
    (t.dropSender j).buffer k = t.buffer k :=
  t.buffer_modify j fun _ => rfl

theorem order_touch (t : Mailboxes) (e : Touch)
    (h : isDiscarded (handlings k [(e, (t.touch e).1)]) = false) :
    t.buffer k ++ delivered (handlings k [(e, (t.touch e).1)]) =
      taken (handlings k [(e, (t.touch e).1)]) ++ (t.touch e).2.buffer k := by
  cases hb : t.get? k with
  | some b =>
    obtain ⟨b', hb', hpass⟩ := passes_touch hb e
    rw [buffer_of_get? hb, buffer_of_get? hb']
    exact hpass.order h
  | none =>
    -- nothing is delivered to a mailbox that is not there, and nothing taken from it
    have hnone : t.buffer k = [] := by rw [buffer, hb]; rfl
    cases e with
    | add capacity => exact (List.append_nil _).trans (t.buffer_add capacity k).symm
    | handle box w =>
      have hafter : (t.touch (.handle box w)).2.buffer k = [] := by
        rw [touch, handle_boxes, buffer, get?_modify, hb]
        split <;> rfl
      rw [hnone, hafter]
      by_cases hbox : box = k
      · subst hbox
        cases w <;>
          simp [handlings, delivered, taken, touch, handle, Mailboxes.deliver, take, takeMany, hb]
      · simp [handlings, delivered, taken, hbox]

theorem order_after {es : List Touch} (h : ∀ e ∈ es, e ≠ .handle k .discard) (t : Mailboxes) :
    let hs := handlings k (trace touch t es)
    t.buffer k ++ delivered hs = taken hs ++ (after touch t es).buffer k := by
  induction es generalizing t with
  | nil => exact List.append_nil _
  | cons e es ih =>
    have hkept : isDiscarded (handlings k [(e, (t.touch e).1)]) = false := by
      have he := h e List.mem_cons_self
      cases e with
      | add => rfl
      | handle box w =>
        by_cases hbox : box = k
        · subst hbox
          cases w <;> simp_all [handlings, isDiscarded, Handling.isDiscard]
        · simp [handlings, isDiscarded, hbox]
    have hrest := ih (fun e' he' => h e' (List.mem_cons_of_mem e he')) (t.touch e).2
    dsimp only at hrest ⊢
    rw [trace, ← List.singleton_append, handlings_append, delivered_append, taken_append,
      ← List.append_assoc, order_touch t e hkept, List.append_assoc, hrest, List.append_assoc,
      after]

end Mailboxes

namespace Exchange

/-! ### What a receiver finds -/

/-- Whether a deed takes the place of a subscriber, be it for another. -/
def displaces (c : Channel) (id : SubscriberId) : Deed → Bool
  | .attach c' id' _ | .detach c' id' => c' = c ∧ id' = id
  | _ => false

def handled (workers k : Nat) (deeds : List Deed) : List (Handling × Outcome) :=
  handlings k (trace Mailboxes.touch {} (along step touches (new workers) deeds))

/-- What the receiver of mailbox `k` finds after a history: its stream goes on while a handle is
held outside the registry or in one of its places. -/
structure Streams (workers k : Nat) (deeds : List Deed) (x : Exchange) : Prop where
  disconnected : (x.step (.handle k .take)).1 = .taken .disconnected ↔
    x.boxes.buffer k = [] ∧ held k deeds = 0 ∧ ∀ c id, x.attached? c id ≠ some k
  empty : (x.step (.handle k .take)).1 = .taken .empty ↔
    x.boxes.buffer k = [] ∧ (0 < held k deeds ∨ ∃ c id, x.attached? c id = some k)
  message : ∀ m, (x.step (.handle k .take)).1 = .taken (.message m) ↔
    (x.boxes.buffer k).head? = some m
  /-- A place is held from the last time that a clone was put there, until something else is done to
  this very place. -/
  attached : ∀ c id, x.attached? c id = some k ↔ ∃ before later,
    deeds = before ++ .attach c id k :: later ∧ ∀ d ∈ later, displaces c id d = false
  /-- What was delivered is read or still there, in order. -/
  order : delivered (handled workers k deeds) =
    taken (handled workers k deeds) ++ x.boxes.buffer k
  /-- To lose a place loses no message. -/
  keeps : ∀ d c id, displaces c id d = true → (x.step d).2.boxes.buffer k = x.boxes.buffer k

section
variable {x : Exchange} {k : Nat} {d : Deed} {c : Channel} {id : SubscriberId}

theorem discards_of_touches (h : .handle k .discard ∈ x.touches d) : d = .handle k .discard := by
  have hreads : (Touch.handle k .discard).reads k = true := by simp [Touch.reads]
  obtain ⟨w, rfl⟩ := handles_of_reads h hreads
  rw [touches, List.mem_singleton] at h
  cases h
  rfl

/-! ### The places of the registry -/

theorem displaces_iff : displaces c id d = true ↔ d = .detach c id ∨ ∃ j, d = .attach c id j := by
  cases d <;> simp [displaces]

theorem attached_step_of_not_displaces (h : displaces c id d = false) :
    (x.step d).2.attached? c id = x.attached? c id := by
  cases d with
  | attach c' id' j => rw [attached_attach, if_neg (by simpa [displaces] using h)]
  | detach c' id' => rw [attached_detach, if_neg (by simpa [displaces] using h)]
  | dispatch c' payload => exact x.attached_dispatch c' c payload id
  | add | handle => rfl

theorem attached_iff (workers : Nat) (deeds : List Deed) (c : Channel) (id : SubscriberId)
    (j : Nat) : (after step (new workers) deeds).attached? c id = some j ↔ ∃ before later,
      deeds = before ++ .attach c id j :: later ∧ ∀ d ∈ later, displaces c id d = false := by
  induction deeds using List.reverseRecOn with
  | nil =>
    rw [after, attached?, new, Registry.members_new]
    simp
  | append_singleton deeds d ih =>
    rw [after_concat]
    constructor
    · intro h
      cases hd : displaces c id d with
      | false =>
        rw [attached_step_of_not_displaces hd] at h
        obtain ⟨before, later, rfl, hlater⟩ := ih.1 h
        refine ⟨before, later ++ [d], by simp, fun e he => ?_⟩
        exact (List.mem_append.1 he).elim (hlater e) fun hlast => List.mem_singleton.1 hlast ▸ hd
      | true =>
        obtain rfl | ⟨i, rfl⟩ := displaces_iff.1 hd
        · rw [attached_detach, if_pos ⟨rfl, rfl⟩] at h
          cases h
        · rw [attached_attach, if_pos ⟨rfl, rfl⟩] at h
          cases h
          exact ⟨deeds, [], rfl, List.forall_mem_nil _⟩
    · intro h
      obtain ⟨before, later, heq, hlater⟩ := h
      obtain rfl | ⟨later', e, rfl⟩ := later.eq_nil_or_concat'
      · obtain ⟨rfl, hd⟩ := List.append_inj' heq rfl
        cases hd
        rw [attached_attach, if_pos ⟨rfl, rfl⟩]
      · rw [← List.cons_append, ← List.append_assoc] at heq
        obtain ⟨rfl, hd⟩ := List.append_inj' heq rfl
        cases hd
        rw [attached_step_of_not_displaces (hlater d (by simp))]
        exact ih.2 ⟨before, later', rfl, fun e he => hlater e (List.mem_append_left _ he)⟩

theorem buffer_of_displaces (h : displaces c id d = true) (k : Nat) :
    (x.step d).2.boxes.buffer k = x.boxes.buffer k := by
  obtain rfl | ⟨j, rfl⟩ := displaces_iff.1 h
  · rw [boxes_detach]
    cases x.attached? c id <;> simp
  · rw [boxes_attach]
    cases x.attached? c id <;> simp

end

/-! ### The end of a stream -/

/-- A receiver that is there and not closed finds its stream at an end as soon as its buffer is
empty, all handles outside are dropped and the registry has no clone of them, and not before. -/
theorem streams_until_let_go (workers : Nat) {k : Nat} {deeds : List Deed} (hk : k < created deeds)
    (howned : Owned k deeds) (hopen : ∀ w, .handle k w ∈ deeds → w.closes = false) :
    Streams workers k deeds (after step (new workers) deeds) := by
  have hcounts := counts_after workers howned hopen
  rw [← size_after workers] at hk
  obtain ⟨b, hb⟩ : ∃ b, (after step (new workers) deeds).boxes.get? k = some b :=
    ⟨_, Array.getElem?_eq_getElem hk⟩
  have hread : ((after step (new workers) deeds).step (.handle k .take)).1 = .taken b.take.1 :=
    Mailboxes.outcome_handle hb .take
  have haccepting : b.accepting = true := by
    have haccepts := hcounts.accepts
    rwa [Mailboxes.accepts, hb] at haccepts
  have hgone : b.senders = 0 ↔ held k deeds = 0 ∧
      ∀ c id, (after step (new workers) deeds).attached? c id ≠ some k := by
    rw [← hcounts.senders_eq_zero, Mailboxes.senders, hb, Option.elim_some]
  have hthere : b.senders ≠ 0 ↔ 0 < held k deeds ∨
      ∃ c id, (after step (new workers) deeds).attached? c id = some k := by
    rw [Ne, hgone, not_and_or, Nat.pos_iff_ne_zero]
    simp only [not_forall, not_not]
  refine ⟨?_, ?_, fun m => ?_, fun c id => attached_iff workers deeds c id k, ?_,
    fun d c id hd => buffer_of_displaces hd k⟩
  · rw [hread, Outcome.taken.injEq, Mailbox.take_disconnected haccepting, hgone,
      Mailboxes.buffer_of_get? hb]
  · rw [hread, Outcome.taken.injEq, Mailbox.take_empty haccepting, hthere,
      Mailboxes.buffer_of_get? hb]
  · rw [hread, Outcome.taken.injEq, Mailbox.take_message, Mailboxes.buffer_of_get? hb]
  · have hkept : ∀ e ∈ along step touches (new workers) deeds, e ≠ .handle k .discard := by
      rintro e he rfl
      obtain ⟨x, d, hd, hin⟩ := mem_along he
      rw [discards_of_touches hin] at hd
      cases hopen .discard hd
    rw [boxes_after]
    exact Mailboxes.order_after hkept {}

/-- Two subscribers with one identifier: the second takes the place of the first on one channel, and
the first is detached from the other; its handle is dropped and its message read. -/
def oneReplaced : List Deed :=
  [.add 2, .add 2, .attach ⟨"a", "k"⟩ (.fresh 0) 0, .attach ⟨"b", "k"⟩ (.fresh 0) 0,
    .handle 0 .release, .dispatch ⟨"a", "k"⟩ (Binary.encode (.object .create 1)),
    .attach ⟨"a", "k"⟩ (.fresh 0) 1, .handle 0 .take, .detach ⟨"b", "k"⟩ (.fresh 0)]

theorem streams_until_let_go_of_replaced :
    let x := after step (new 3) oneReplaced
    (0 < created oneReplaced ∧ Owned 0 oneReplaced ∧
      ∀ w, .handle 0 w ∈ oneReplaced → w.closes = false) ∧
    (x.step (.handle 0 .take)).1 = .taken .disconnected ∧
    (x.boxes.buffer 0 = [] ∧ held 0 oneReplaced = 0 ∧ ∀ c id, x.attached? c id ≠ some 0) ∧
    taken (handled 3 0 oneReplaced) ++ x.boxes.buffer 0 = [.object .create 1] := by
  intro x
  have hthere : 0 < created oneReplaced := by decide
  have howned : Owned 0 oneReplaced := by decide
  have hopen : ∀ w, .handle 0 w ∈ oneReplaced → w.closes = false := by
    intro w hw
    simp only [oneReplaced, List.mem_cons, Deed.handle.injEq, reduceCtorEq, false_or, true_and,
      List.not_mem_nil, or_false] at hw
    obtain rfl | rfl := hw <;> rfl
  have hstreams := streams_until_let_go 3 hthere howned hopen
  have hend : (x.step (.handle 0 .take)).1 = .taken .disconnected := by decide +kernel
  have hdelivered : delivered (handled 3 0 oneReplaced) = [.object .create 1] := by decide +kernel
  exact ⟨⟨hthere, howned, hopen⟩, hend, hstreams.disconnected.1 hend,
    hstreams.order.symm.trans hdelivered⟩

end Exchange
end EventRelay
