import EventRelay.Proofs.Registry.Touches
/-!
A mailbox is a bounded queue, whatever is done to it and around it. Main statements: `Passes`, what
one handling and from it any number of them make of a mailbox, and `isQueue_after`.
-/
namespace EventRelay
open History

/-- The handlings of mailbox `k`, each with what came of it. -/
def handlings (k : Nat) (tr : List (Touch × Outcome)) : List (Handling × Outcome) :=
  tr.flatMap fun
    | (.handle box w, o) => if box = k then [(w, o)] else []
    | (.add _, _) => []

def delivered (hs : List (Handling × Outcome)) : List Event :=
  hs.flatMap fun
    | (.deliver _ m, .done) => [m]
    | _ => []

def taken (hs : List (Handling × Outcome)) : List Event :=
  hs.flatMap fun
    | (_, .taken (.message m)) => [m]
    | (_, .batch ms) => ms
    | _ => []

def Handling.isDiscard : Handling → Bool
  | .discard => true
  | _ => false

/-- Whether a mailbox takes no more messages from then on. -/
def Handling.closes : Handling → Bool
  | .close | .discard => true
  | _ => false

def isDiscarded (hs : List (Handling × Outcome)) : Bool := hs.any fun e => e.1.isDiscard
def isClosed (hs : List (Handling × Outcome)) : Bool := hs.any fun e => e.1.closes

section
variable (hs hs' : List (Handling × Outcome))

@[simp] theorem handlings_append (k : Nat) (tr tr' : List (Touch × Outcome)) :
    handlings k (tr ++ tr') = handlings k tr ++ handlings k tr' :=
  List.flatMap_append

@[simp] theorem delivered_append : delivered (hs ++ hs') = delivered hs ++ delivered hs' :=
  List.flatMap_append

@[simp] theorem taken_append : taken (hs ++ hs') = taken hs ++ taken hs' := List.flatMap_append

@[simp] theorem isDiscarded_append :
    isDiscarded (hs ++ hs') = (isDiscarded hs || isDiscarded hs') :=
  List.any_append

@[simp] theorem isClosed_append : isClosed (hs ++ hs') = (isClosed hs || isClosed hs') :=
  List.any_append

end

/-! ### One mailbox -/

namespace Mailbox

def outcome (b : Mailbox) : Handling → Outcome
  | .deliver id _ =>
    if b.accepting then
      if b.buffer.length < b.capacity then .done else .refused (id.refusal .full)
    else .refused (id.refusal .closed)
  | .take => .taken b.take.1
  | .takeMany n => .batch (b.takeMany n).1
  | _ => .done

/-- What the handlings `hs` make of mailbox `b`. -/
structure Passes (b b' : Mailbox) (hs : List (Handling × Outcome)) : Prop where
  capacity : b'.capacity = b.capacity
  bounded : b.buffer.length ≤ b.capacity → b'.buffer.length ≤ b'.capacity
  accepting : b'.accepting = (b.accepting && !isClosed hs)
  order : isDiscarded hs = false → b.buffer ++ delivered hs = taken hs ++ b'.buffer

theorem Passes.refl (b : Mailbox) : Passes b b [] :=
  ⟨rfl, id, (Bool.and_true _).symm, fun _ => List.append_nil _⟩

theorem Passes.trans {b b' b'' : Mailbox} {hs hs' : List (Handling × Outcome)}
    (h : Passes b b' hs) (h' : Passes b' b'' hs') : Passes b b'' (hs ++ hs') where
  capacity := h'.capacity.trans h.capacity
  bounded hb := h'.bounded (h.bounded hb)
  accepting := by rw [h'.accepting, h.accepting, isClosed_append, Bool.not_or, Bool.and_assoc]
  order hd := by
    rw [isDiscarded_append, Bool.or_eq_false_iff] at hd
    rw [delivered_append, taken_append, ← List.append_assoc, h.order hd.1, List.append_assoc,
      h'.order hd.2, List.append_assoc]

theorem passes_deliver (b : Mailbox) (id : SubscriberId) (m : Event) :
    Passes b (b.offered m) [(.deliver id m, b.outcome (.deliver id m))] := by
  have hrefused (f : Refusal) : Passes b b [(.deliver id m, .refused (id.refusal f))] :=
    ⟨rfl, fun hlen => hlen, (Bool.and_true _).symm, fun _ => List.append_nil _⟩
  cases ha : b.accepting with
  | false =>
    have hroom : b.hasRoom = false := by rw [hasRoom, ha, Bool.false_and]
    simp only [offered, hroom, Bool.false_eq_true, if_false, outcome, ha]
    exact hrefused .closed
  | true =>
    by_cases hfree : b.buffer.length < b.capacity
    · have hroom : b.hasRoom = true := by rw [hasRoom, ha, Bool.true_and, decide_eq_true hfree]
      simp only [offered, hroom, if_true, outcome, ha, if_pos hfree]
      refine ⟨rfl, fun _ => ?_, ?_, fun _ => rfl⟩
      · rw [List.length_append, List.length_singleton]
        exact hfree
      · rw [ha]
        rfl
    · have hroom : b.hasRoom = false := by rw [hasRoom, decide_eq_false hfree, Bool.and_false]
      simp only [offered, hroom, Bool.false_eq_true, if_false, outcome, ha, if_true, if_neg hfree]
      exact hrefused .full

theorem passes_take (b : Mailbox) : Passes b b.take.2 [(.take, b.outcome .take)] := by
  unfold outcome take
  cases hb : b.buffer with
  | nil =>
    cases (b.accepting && b.senders != 0) <;>
      exact ⟨rfl, id, (Bool.and_true _).symm, fun _ => List.append_nil _⟩
  | cons m rest =>
    refine ⟨rfl, fun hlen => ?_, (Bool.and_true _).symm, fun _ => ?_⟩
    · rw [hb, List.length_cons] at hlen
      exact Nat.le_of_succ_le hlen
    · rw [hb]
      exact List.append_nil _

theorem passes_takeMany (b : Mailbox) (n : Nat) :
    Passes b (b.takeMany n).2 [(.takeMany n, b.outcome (.takeMany n))] := by
  refine ⟨rfl, fun hlen => ?_, (Bool.and_true _).symm, fun _ => ?_⟩
  · have hdrop : (b.takeMany n).2.buffer.length = b.buffer.length - n := List.length_drop ..
    rw [hdrop]
    exact Nat.le_trans (Nat.sub_le ..) hlen
  · have hall : taken [(.takeMany n, b.outcome (.takeMany n))] ++ (b.takeMany n).2.buffer =
        b.buffer := by
      simp only [taken, outcome, takeMany, List.flatMap_singleton, List.take_append_drop]
    rw [hall]
    exact List.append_nil _

theorem passes_handled (b : Mailbox) (w : Handling) :
    Passes b (b.handled w) [(w, b.outcome w)] := by
  cases w with
  | deliver id m => exact b.passes_deliver id m
  | take => exact b.passes_take
  | takeMany n => exact b.passes_takeMany n
  | discard => exact ⟨rfl, fun _ => Nat.zero_le _, (Bool.and_false _).symm, nofun⟩
  | close => exact ⟨rfl, id, (Bool.and_false _).symm, fun _ => List.append_nil _⟩
  | share | release => exact ⟨rfl, id, (Bool.and_true _).symm, fun _ => List.append_nil _⟩

end Mailbox

/-! ### One mailbox among others -/

namespace Mailboxes

theorem buffer_of_get? {t : Mailboxes} {k : Nat} {b : Mailbox} (h : t.get? k = some b) :
    t.buffer k = b.buffer := by
  rw [buffer, h, Option.elim_some]

theorem outcome_handle {t : Mailboxes} {k : Nat} {b : Mailbox} (h : t.get? k = some b)
    (w : Handling) : (t.handle k w).1 = b.outcome w := by
  cases w with
  | deliver id m =>
    simp only [handle, deliver, h, Mailbox.outcome]
    cases ha : b.accepting with
    | false => rw [b.deliver_of_closed m ha]; rfl
    | true =>
      by_cases hfree : b.buffer.length < b.capacity
      · rw [b.deliver_of_room m ha hfree, if_pos rfl, if_pos hfree]; rfl
      · rw [b.deliver_of_full m ha (Nat.le_of_not_lt hfree), if_pos rfl, if_neg hfree]; rfl
  | take => simp only [handle, take, h, Mailbox.outcome]
  | takeMany n => simp only [handle, takeMany, h, Mailbox.outcome]
  | _ => rfl

theorem handle_of_refused {t : Mailboxes} {k : Nat} {id : SubscriberId} {m : Event}
    (h : (t.handle k (.deliver id m)).1 ≠ .done) : (t.handle k (.deliver id m)).2 = t := by
  unfold handle at h ⊢
  cases hd : t.deliver k m with
  | ok t' => simp only [hd, ne_eq, not_true_eq_false] at h
  | error f => simp only [hd]

theorem passes_touch {t : Mailboxes} {k : Nat} {b : Mailbox} (h : t.get? k = some b)
    (e : Touch) : ∃ b', (t.touch e).2.get? k = some b' ∧
      b.Passes b' (handlings k [(e, (t.touch e).1)]) := by
  cases e with
  | add capacity =>
    have hk : k ≠ t.boxes.size := fun hk => by simp [get?, hk] at h
    exact ⟨b, (Array.getElem?_push.trans (if_neg hk)).trans h, .refl b⟩
  | handle box w =>
    simp only [touch, handlings, List.flatMap_singleton, handle_boxes, get?_modify]
    by_cases hbox : box = k
    · subst hbox
      rw [if_pos rfl, if_pos rfl, h, outcome_handle h]
      exact ⟨_, rfl, b.passes_handled w⟩
    · rw [if_neg hbox, if_neg hbox]
      exact ⟨b, h, .refl b⟩

theorem passes_after {t : Mailboxes} {k : Nat} {b : Mailbox} (h : t.get? k = some b)
    (es : List Touch) : ∃ b', (after touch t es).get? k = some b' ∧
      b.Passes b' (handlings k (trace touch t es)) := by
  induction es generalizing t b with
  | nil => exact ⟨b, h, .refl b⟩
  | cons e es ih =>
    obtain ⟨b', hb', hpass⟩ := passes_touch h e
    obtain ⟨b'', hb'', hrest⟩ := ih hb'
    refine ⟨b'', hb'', ?_⟩
    rw [trace, ← List.singleton_append, handlings_append]
    exact hpass.trans hrest

/-- Mailbox `k` of `t`, made for `capacity` messages, is a bounded queue after the handlings
`hs`. -/
structure IsQueue (capacity k : Nat) (hs : List (Handling × Outcome)) (t : Mailboxes) : Prop where
  order : isDiscarded hs = false → delivered hs = taken hs ++ t.buffer k
  bounded : (t.buffer k).length ≤ max capacity 1
  deliver : ∀ id m, (t.handle k (.deliver id m)).1 =
    if isClosed hs then .refused (.subscriberClosed id.text)
    else if (t.buffer k).length = max capacity 1 then .refused (.subscriberLagging id.text)
    else .done
  unchanged : ∀ id m, (t.handle k (.deliver id m)).1 ≠ .done → (t.handle k (.deliver id m)).2 = t
  read : ∀ m, (t.take k).1 = .message m ↔ (t.buffer k).head? = some m
  rest : (t.take k).2.buffer k = (t.buffer k).tail
  ended : isClosed hs = true → t.buffer k = [] → (t.take k).1 = .disconnected
  batch : ∀ n, (t.takeMany k n).1 = (t.buffer k).take n ∧
    (t.takeMany k n).2.buffer k = (t.buffer k).drop n
  /-- Two batches take what one takes, if between them nothing is delivered, taken or dropped. -/
  batches : ∀ (n n' : Nat) (es : List Touch),
    let u := (t.takeMany k n).2
    let v := after touch u es
    let between := handlings k (trace touch u es)
    delivered between = [] → taken between = [] → isDiscarded between = false →
      (t.takeMany k (n + n')).1 = (t.takeMany k n).1 ++ (v.takeMany k n').1 ∧
      (t.takeMany k (n + n')).2.buffer k = (v.takeMany k n').2.buffer k

section
variable {t : Mailboxes} {k : Nat} {b : Mailbox}

theorem take_of_get? (h : t.get? k = some b) :
    (t.take k).1 = b.take.1 ∧ (t.take k).2.get? k = some b.take.2 := by
  simp only [take, h, get?_modify, if_true, Option.map_some, and_self]

theorem takeMany_of_get? (h : t.get? k = some b) (n : Nat) :
    (t.takeMany k n).1 = (b.takeMany n).1 ∧
      (t.takeMany k n).2.get? k = some (b.takeMany n).2 := by
  simp only [takeMany, h, get?_modify, if_true, Option.map_some, and_self]

theorem batches_of_get? (h : t.get? k = some b) (n n' : Nat) (es : List Touch) :
    let u := (t.takeMany k n).2
    let v := after touch u es
    let between := handlings k (trace touch u es)
    delivered between = [] → taken between = [] → isDiscarded between = false →
      (t.takeMany k (n + n')).1 = (t.takeMany k n).1 ++ (v.takeMany k n').1 ∧
      (t.takeMany k (n + n')).2.buffer k = (v.takeMany k n').2.buffer k := by
  intro u v between hdelivered htaken hkept
  obtain ⟨hfirst, hu⟩ := takeMany_of_get? h n
  obtain ⟨hboth, hrest⟩ := takeMany_of_get? h (n + n')
  obtain ⟨b', hv, hpass⟩ := passes_after hu es
  obtain ⟨hsecond, hlast⟩ := takeMany_of_get? hv n'
  have hsame : (b.takeMany n).2.buffer = b'.buffer := by
    have horder := hpass.order hkept
    rwa [hdelivered, htaken, List.append_nil, List.nil_append] at horder
  -- A batch depends on nothing of a mailbox but its buffer.
  have hbatch : ((b.takeMany n).2.takeMany n').1 = (b'.takeMany n').1 ∧
      ((b.takeMany n).2.takeMany n').2.buffer = (b'.takeMany n').2.buffer := by
    simp only [Mailbox.takeMany] at hsame ⊢
    rw [hsame]
    exact ⟨rfl, rfl⟩
  constructor
  · rw [hboth, hfirst, hsecond, b.takeMany_add, hbatch.1]
  · rw [buffer_of_get? hrest, buffer_of_get? hlast, b.takeMany_add, hbatch.2]

theorem isQueue_of_passes {capacity : Nat} {hs : List (Handling × Outcome)}
    (h : t.get? k = some b) (hpass : (Mailbox.new capacity).Passes b hs) :
    IsQueue capacity k hs t := by
  have hbuffer := buffer_of_get? h
  have hcapacity : b.capacity = max capacity 1 := hpass.capacity
  have hbounded : b.buffer.length ≤ b.capacity := hpass.bounded (Nat.zero_le _)
  have haccepting : b.accepting = !isClosed hs := hpass.accepting.trans (Bool.true_and _)
  obtain ⟨hread, hrest⟩ := take_of_get? h
  refine ⟨fun hkept => ?_, ?_, fun id m => ?_, fun _ _ => handle_of_refused, fun m => ?_, ?_,
    fun hclosed hnone => ?_, fun n => ?_, batches_of_get? h⟩
  · rw [hbuffer]
    exact hpass.order hkept
  · rw [hbuffer, ← hcapacity]
    exact hbounded
  · rw [outcome_handle h, hbuffer, ← hcapacity, Mailbox.outcome, haccepting]
    cases isClosed hs with
    | true => rfl
    | false =>
      simp only [Bool.not_false, if_true, Bool.false_eq_true, if_false]
      by_cases hfull : b.buffer.length = b.capacity
      · rw [if_pos hfull, if_neg (by omega)]; rfl
      · rw [if_neg hfull, if_pos (by omega)]
  · rw [hread, hbuffer]
    exact Mailbox.take_message
  · rw [buffer_of_get? hrest, hbuffer, b.buffer_take]
  · rw [hbuffer] at hnone
    rw [hread, Mailbox.take, hnone, haccepting, hclosed]
    rfl
  · obtain ⟨hfirst, hlast⟩ := takeMany_of_get? h n
    rw [hfirst, buffer_of_get? hlast, hbuffer]
    exact ⟨rfl, rfl⟩

end

/-- A new mailbox is a bounded queue from then on, whatever is done to it and to others. -/
theorem isQueue_after (t : Mailboxes) (capacity : Nat) (es : List Touch) :
    let u := (t.touch (.add capacity)).2
    IsQueue capacity t.size (handlings t.size (trace touch u es)) (after touch u es) := by
  have hnew : (t.touch (.add capacity)).2.get? t.size = some (.new capacity) :=
    Array.getElem?_push_size
  obtain ⟨b, hb, hpass⟩ := passes_after hnew es
  exact isQueue_of_passes hb hpass

end Mailboxes
end EventRelay
