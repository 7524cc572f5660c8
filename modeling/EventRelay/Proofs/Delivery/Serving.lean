import EventRelay.Proofs.Capacity
import EventRelay.Proofs.Delivery.EndOfStream
import EventRelay.Proofs.Delivery.Mirror
import EventRelay.Proofs.Delivery.Streaming
/-!
A feed hands its sink what its subscriber accepts, in order, and lets go of the subscriber as it
returns. Main statements: `Feeding.other` and `Feeding.own`, what an action of others and a step of
the feed come to, `Feeding.run` and `Returned.run`, what a run preserves, and
`forwards_and_releases`.
-/
namespace EventRelay

def Action.cancels (i : Nat) : Action → Bool
  | .cancel j => j = i
  | _ => false

namespace Relay

/-- What the sink of a feed is called with next: the messages it took, and the new one. -/
def nextCall? (r : Relay) (f : Feed) : Option (List Event × Event) :=
  match f.subscription, f.result with
  | some sub, none =>
    match (r.take sub).1 with
    | .message m => some (f.taken, m)
    | _ => none
  | _, _ => none

def sinkCalls (i : Nat) (r : Relay) : Action → List (List Event × Event)
  | .step (.feed j) .proceed =>
    if j = i then ((r.feeds.find? i).bind r.nextCall?).toList else []
  | _ => []

/-- Feed `i` goes on. Its sink was called with the messages of `calls` and took them all; what it
was not called with yet of all that was accepted is in the buffer. -/
structure Forwards (r : Relay) (i : Nat) (sub : Subscription) (sink : Sink) (cancelled : Bool)
    (calls : List (List Event × Event)) (accepted : List Event) : Prop where
  feed : r.feeds.find? i =
    some { subscription := some sub, sink, taken := calls.map Prod.snd, cancelled }
  order : calls.map Prod.snd ++ r.mailboxes.buffer sub.mailbox = accepted
  took : ∀ before call later, calls = before ++ call :: later →
    call.1 = before.map Prod.snd ∧ sink call.1 call.2 = .ok ()

/-- Why a feed returns after the messages `seen`, with what, and the last call of its sink if that
is why. -/
inductive Exit (r : Relay) (sub : Subscription) (sink : Sink) (cancelled : Bool)
    (seen : List Event) : Signal → Except Error Unit → List (List Event × Event) → Prop
  | cancelled (h : cancelled = true) : Exit r sub sink cancelled seen .stop (.ok ()) []
  | ended (hb : r.mailboxes.buffer sub.mailbox = [])
      (ha : r.attached? sub.registry sub.channel sub.id ≠ some sub.mailbox) :
      Exit r sub sink cancelled seen .proceed (.ok ()) []
  | failed {m : Event} {rest : List Event} {e : Error}
      (hb : r.mailboxes.buffer sub.mailbox = m :: rest) (hs : sink seen m = .error e) :
      Exit r sub sink cancelled seen .proceed (.error e) [(seen, m)]

/-- The subscriber of `sub` is let go, and no other; other mailboxes stay as they are. -/
structure Releases (r : Relay) (sub : Subscription) (s : Relay) : Prop where
  attached : ∀ g c id, s.attached? g c id =
    if sub.key = (g, c, id) then none else r.attached? g c id
  gone : ∀ g c id, s.attached? g c id ≠ some sub.mailbox
  boxes : ∀ k, k ≠ sub.mailbox → r.attached? sub.registry sub.channel sub.id ≠ some k →
    s.mailboxes.get? k = r.mailboxes.get? k

def Returned (r : Relay) (i : Nat) (result : Except Error Unit) : Prop :=
  ∃ f, r.feeds.find? i = some f ∧ f.result = some result

/-- Feed `i` goes on, and only it and its sink have to do with its mailbox. -/
structure Feeding (r : Relay) (i : Nat) (sub : Subscription) (sink : Sink) (cancelled : Bool)
    (calls : List (List Event × Event)) (accepted : List Event) (extra : Nat) : Prop
    extends Forwards r i sub sink cancelled calls accepted, Streaming r sub extra where
  numbered : i < r.nextFeed
  alone : ∀ j f o, r.feeds.find? j = some f → f.subscription = some o →
    o.mailbox = sub.mailbox → j = i

section
variable {r s : Relay} {i : Nat} {sub : Subscription} {sink : Sink} {cancelled : Bool}
  {calls : List (List Event × Event)} {arrived : List Event} {extra : Nat} {a : Action}
  {retention : Nat} {hist : List (Nat × Record)}

/-! ### What others do -/

theorem sinkCalls_of_other (r : Relay) (h : ∀ sig, a ≠ .step (.feed i) sig) :
    r.sinkCalls i a = [] := by
  unfold sinkCalls
  split
  · rename_i j
    exact if_neg fun hj => h .proceed (by rw [hj])
  · rfl

theorem cancels_of_not_aside (ha : a.isAside = false) : a.cancels i = false := by
  cases a with
  | cancel => cases ha
  | _ => rfl

theorem Valid.feed_of_other (hv : r.Valid retention hist) (ha : r.act a = some s)
    (hi : i < r.nextFeed) (hother : ∀ sig, a ≠ .step (.feed i) sig) :
    r.nextFeed ≤ s.nextFeed ∧ s.feeds.find? i = (r.feeds.find? i).map fun f =>
      { f with cancelled := f.cancelled || a.cancels i } := by
  have hkept (hc : a.cancels i = false) : r.feeds.find? i = (r.feeds.find? i).map fun f =>
      { f with cancelled := f.cancelled || a.cancels i } := by
    simp [hc]
  have hsame (hc : a.cancels i = false) (hfeeds : s.feeds = r.feeds)
      (hnext : s.nextFeed = r.nextFeed) : r.nextFeed ≤ s.nextFeed ∧
        s.feeds.find? i = (r.feeds.find? i).map fun f =>
          { f with cancelled := f.cancelled || a.cancels i } := by
    rw [hfeeds]
    exact ⟨Nat.le_of_eq hnext.symm, hkept hc⟩
  have hinsert {j : Nat} {f : Feed} (hj : j ≠ i) (hc : a.cancels i = false) :
      (r.feeds.insert j f).find? i = (r.feeds.find? i).map fun f =>
        { f with cancelled := f.cancelled || a.cancels i } := by
    rw [Table.find?_insert, if_neg hj]
    exact hkept hc
  cases haside : a.isAside with
  | false =>
    obtain ⟨-, hs⟩ | ⟨d, -, hs⟩ := (hv.change ha).spares haside <;>
      exact hsame (cancels_of_not_aside haside) hs.feeds hs.nextFeed
  | true =>
    cases act_aside ha haside with
    | @feeds j _ _ sig _ hf hsub hopen hs =>
      have hj : j ≠ i := fun hj => hother sig (by rw [hj])
      cases hs with
      | stops | ends | takes | fails => exact ⟨Nat.le_refl _, hinsert hj rfl⟩
    | subscribes hs =>
      obtain ⟨registries, mailboxes, -, rfl⟩ := subscribe_ok hs
      exact hsame rfl rfl rfl
    | serves hs =>
      obtain ⟨registries, mailboxes, -, rfl⟩ := subscribe_ok hs
      exact ⟨Nat.le_succ _, hinsert (Nat.ne_of_gt hi) rfl⟩
    | rejects => exact ⟨Nat.le_succ _, hinsert (Nat.ne_of_gt hi) rfl⟩
    | cancels j =>
      refine ⟨Nat.le_refl _, ?_⟩
      simp only [cancel, Table.find?_modify, Action.cancels]
      by_cases hj : j = i
      · simp [hj]
      · simp [hj]
    | addsRegistry | unsubscribes | detaches | takes | takesMany | dispatches =>
      exact hsame rfl rfl rfl

theorem Feeding.other (h : r.Feeding i sub sink cancelled calls arrived extra)
    (hv : r.Valid retention hist) (ha : r.act a = some s)
    (hother : ∀ sig, a ≠ .step (.feed i) sig) (howned : ∀ o ∈ a.holder?, o.mailbox ≠ sub.mailbox) :
    s.Feeding i sub sink (cancelled || a.cancels i) calls (arrived ++ r.accepted sub.mailbox a)
      extra := by
  have hspares := deeds_spare h.there h.alone howned hother
  obtain ⟨hnext, hfeed⟩ := hv.feed_of_other ha h.numbered hother
  refine ⟨⟨?_, ?_, h.took⟩, h.toStreaming.act hv ha hspares, Nat.lt_of_lt_of_le h.numbered hnext,
    fun j f o hf ho hbox => ?_⟩
  · rw [hfeed, h.feed]
    rfl
  · rw [hv.buffer_of_spared ha hspares, ← List.append_assoc, h.order]
  · cases hv.act_feeds ha hf ho with
    | inl hnew => exact absurd hbox (Nat.ne_of_gt (opened_mailbox hnew ▸ h.there))
    | inr hold =>
      obtain ⟨f₀, hf₀, ho₀⟩ := hold
      exact h.alone j f₀ o hf₀ ho₀ hbox

/-! ### What the feed does -/

theorem take_message_iff (r : Relay) (sub : Subscription) {m : Event} :
    (r.take sub).1 = .message m ↔ (r.mailboxes.buffer sub.mailbox).head? = some m := by
  simp only [take, Mailboxes.take, Mailboxes.buffer]
  cases r.mailboxes.get? sub.mailbox with
  | none => simp
  | some b => exact Mailbox.take_message

theorem Streaming.take_disconnected_iff (h : r.Streaming sub extra) :
    (r.take sub).1 = .disconnected ↔
      r.mailboxes.buffer sub.mailbox = [] ∧ r.mailboxes.senders sub.mailbox = 0 := by
  obtain ⟨b, hb⟩ : ∃ b, r.mailboxes.get? sub.mailbox = some b :=
    ⟨_, Array.getElem?_eq_getElem h.there⟩
  have haccepts := h.accepts
  simp only [Mailboxes.accepts, hb] at haccepts
  simp only [take, Mailboxes.take, Mailboxes.buffer, Mailboxes.senders, hb, Option.elim_some]
  exact Mailbox.take_disconnected haccepts

theorem buffer_take (r : Relay) (sub : Subscription) : (r.take sub).2.mailboxes.buffer sub.mailbox =
    (r.mailboxes.buffer sub.mailbox).tail := by
  rw [take_eq, deed_handle, Mailboxes.handle_boxes, Mailboxes.buffer, Mailboxes.get?_modify,
    if_pos rfl, Mailboxes.buffer]
  cases r.mailboxes.get? sub.mailbox with
  | none => rfl
  | some b =>
    simp only [Option.map_some, Option.elim_some, Mailbox.handled]
    exact b.buffer_take

theorem get?_take (r : Relay) (sub : Subscription) {k : Nat} (hk : k ≠ sub.mailbox) :
    (r.take sub).2.mailboxes.get? k = r.mailboxes.get? k := by
  rw [take_eq, deed_handle, Mailboxes.handle_boxes]
  exact Mailboxes.get?_modify_of_ne _ (Ne.symm hk) _

theorem Streaming.releases (h : r.Streaming sub extra) {q : Relay}
    (hattached : ∀ g c id, q.attached? g c id = r.attached? g c id)
    (hboxes : ∀ k, k ≠ sub.mailbox → q.mailboxes.get? k = r.mailboxes.get? k)
    (hs : Matches (q.unsubscribe sub) s) : r.Releases sub s := by
  have hends (g : Nat) (c : Channel) (id : SubscriberId) : s.attached? g c id =
      if sub.key = (g, c, id) then none else r.attached? g c id := by
    rw [attached?_congr hs.registries, ← hattached]
    simp only [Subscription.key, Prod.mk.injEq]
    exact q.attached?_detach sub.registry sub.channel sub.id g c id
  refine ⟨hends, fun g c id hk => ?_, fun k hk hplace => ?_⟩
  · rw [hends] at hk
    split at hk
    · cases hk
    · rename_i hother
      exact hother (h.place g c id hk).symm
  · rw [hs.mailboxes, ← hboxes k hk]
    refine (Mailboxes.get?_modify_of_ne _ (Ne.symm hk) _).trans ?_
    exact q.get?_detach sub.registry sub.channel sub.id (by rw [hattached]; exact hplace)

theorem Feeding.nextCall (h : r.Feeding i sub sink cancelled calls arrived extra) :
    r.sinkCalls i (.step (.feed i) .proceed) =
      ((r.mailboxes.buffer sub.mailbox).head?.map (calls.map Prod.snd, ·)).toList := by
  have hcall : (r.feeds.find? i).bind r.nextCall? =
      (r.mailboxes.buffer sub.mailbox).head?.map (calls.map Prod.snd, ·) := by
    rw [h.feed, Option.bind_some]
    simp only [nextCall?]
    cases hhead : (r.mailboxes.buffer sub.mailbox).head? with
    | none =>
      cases ht : (r.take sub).1 with
      | message m =>
        rw [take_message_iff, hhead] at ht
        cases ht
      | empty | disconnected => rfl
    | some m =>
      rw [(r.take_message_iff sub).2 hhead]
      rfl
  rw [sinkCalls, if_pos rfl, hcall]

theorem Feeding.calls_one (h : r.Feeding i sub sink cancelled calls arrived extra) {m : Event}
    {rest : List Event} (hb : r.mailboxes.buffer sub.mailbox = m :: rest) :
    r.sinkCalls i (.step (.feed i) .proceed) = [(calls.map Prod.snd, m)] := by
  rw [h.nextCall, hb]
  rfl

theorem Feeding.calls_none (h : r.Feeding i sub sink cancelled calls arrived extra)
    (hb : r.mailboxes.buffer sub.mailbox = []) :
    r.sinkCalls i (.step (.feed i) .proceed) = [] := by
  rw [h.nextCall, hb]
  rfl

theorem returned_endFeed (q : Relay) (i : Nat) (f : Feed) (sub : Subscription)
    (result : Except Error Unit) : (q.endFeed i f sub result).Returned i result :=
  ⟨_, (Table.find?_insert ..).trans (if_pos rfl), rfl⟩

theorem Feeding.takes (h : r.Feeding i sub sink cancelled calls arrived extra) {m : Event}
    {rest : List Event} (hb : r.mailboxes.buffer sub.mailbox = m :: rest)
    (hsink : sink (calls.map Prod.snd) m = .ok ()) :
    Feeding { (r.take sub).2 with
      feeds := r.feeds.insert i
        { subscription := some sub, sink, taken := calls.map Prod.snd ++ [m], cancelled } }
      i sub sink cancelled (calls ++ [(calls.map Prod.snd, m)]) arrived extra := by
  have hrest := r.buffer_take sub
  rw [hb, List.tail_cons] at hrest
  refine ⟨⟨?_, ?_, fun before call later heq => ?_⟩, ?_, h.numbered, fun j f o hf ho hbox => ?_⟩
  · rw [List.map_append]
    exact (Table.find?_insert ..).trans (if_pos rfl)
  · rw [← h.order, hb, List.map_append, List.append_assoc]
    exact congrArg (fun ms => calls.map Prod.snd ++ ([m] ++ ms)) hrest
  · -- This call is the last one, or it was made before.
    obtain rfl | ⟨later', last, rfl⟩ := later.eq_nil_or_concat'
    · obtain ⟨rfl, hlast⟩ := List.append_inj' heq rfl
      cases hlast
      exact ⟨rfl, hsink⟩
    · rw [← List.cons_append, ← List.append_assoc] at heq
      exact h.took before call later' (List.append_inj' heq rfl).1
  · have hends := r.mailboxes.sameEnds_handle sub.mailbox (w := .take) rfl
    have hsame := hends.same sub.mailbox
    exact h.same (Nat.le_of_eq hends.size.symm) (fun _ _ _ => rfl) (hsame.2 ▸ h.accepts) hsame.1
  · rw [Table.find?_insert_eq_some] at hf
    obtain ⟨rfl, -⟩ | ⟨-, hold⟩ := hf
    · rfl
    · exact h.alone j f o hold ho hbox

theorem Feeding.own (h : r.Feeding i sub sink cancelled calls arrived extra) {sig : Signal}
    (ha : r.act (.step (.feed i) sig) = some s) :
    (∃ call, r.sinkCalls i (.step (.feed i) sig) = [call] ∧
      r.accepted sub.mailbox (.step (.feed i) sig) = [] ∧
      s.Feeding i sub sink cancelled (calls ++ [call]) arrived extra) ∨
    ∃ result, r.Exit sub sink cancelled (calls.map Prod.snd) sig result
      (r.sinkCalls i (.step (.feed i) sig)) ∧ r.Releases sub s ∧ s.Returned i result ∧
        i < s.nextFeed := by
  obtain ⟨f, o, hf, ho, -, hs⟩ := stepFeed_step ha
  rw [h.feed] at hf
  cases hf
  cases ho
  have hends : ∀ f result, r.Releases sub (r.endFeed i f sub result) := fun f result =>
    h.releases (fun _ _ _ => rfl) (fun _ _ => rfl) ⟨rfl, rfl⟩
  cases hs with
  | stops hc => exact .inr ⟨_, .cancelled hc, hends _ _, returned_endFeed .., h.numbered⟩
  | ends ht =>
    obtain ⟨hb, hsenders⟩ := h.take_disconnected_iff.1 ht
    have hgone : r.attached? sub.registry sub.channel sub.id ≠ some sub.mailbox := by
      intro hk
      rw [h.senders, if_pos hk] at hsenders
      cases hsenders
    rw [h.calls_none hb]
    exact .inr ⟨_, .ended hb hgone, hends _ _, returned_endFeed .., h.numbered⟩
  | @takes m ht hsink =>
    obtain ⟨rest, hb⟩ := List.head?_eq_some_iff.1 ((r.take_message_iff sub).1 ht)
    refine .inl ⟨_, h.calls_one hb, accepted_of_suffix ha ?_, h.takes hb hsink⟩
    exact (r.buffer_take sub).symm ▸ List.tail_suffix _
  | @fails m e ht hsink =>
    obtain ⟨rest, hb⟩ := List.head?_eq_some_iff.1 ((r.take_message_iff sub).1 ht)
    rw [h.calls_one hb]
    refine .inr ⟨_, .failed hb hsink, ?_, returned_endFeed .., h.numbered⟩
    exact h.releases (q := (r.take sub).2) (fun _ _ _ => rfl) (fun k hk => r.get?_take sub hk)
      ⟨rfl, rfl⟩

/-! ### What the feed can do next -/

/-- What the next step of a feed that goes on can be. It can return whenever there is a reason to;
at the end of its stream this takes that no sending end is left outside its registry. -/
structure Outlook (r : Relay) (i : Nat) (sub : Subscription) (sink : Sink) (cancelled : Bool)
    (seen : List Event) (extra : Nat) : Prop where
  returns : extra = 0 → ∀ sig result last, r.Exit sub sink cancelled seen sig result last →
    ∃ s, r.act (.step (.feed i) sig) = some s ∧ s.Returned i result ∧
      r.sinkCalls i (.step (.feed i) sig) = last
  forwards : ∀ m rest, r.mailboxes.buffer sub.mailbox = m :: rest →
    (∃ s, r.act (.step (.feed i) .proceed) = some s) ∧
      r.sinkCalls i (.step (.feed i) .proceed) = [(seen, m)]
  /-- One that is cancelled calls its sink no more if nothing is buffered. -/
  idle : cancelled = true → r.mailboxes.buffer sub.mailbox = [] → ∀ sig s,
    r.act (.step (.feed i) sig) = some s →
      s.Returned i (.ok ()) ∧ r.sinkCalls i (.step (.feed i) sig) = []

theorem Feeding.outlook (h : r.Feeding i sub sink cancelled calls arrived extra) :
    r.Outlook i sub sink cancelled (calls.map Prod.snd) extra := by
  have hstep {sig : Signal} {s : Relay} (hs : FeedStep r i _ sub sig s) :
      r.act (.step (.feed i) sig) = some s := stepFeed_of_step h.feed rfl rfl hs
  refine ⟨fun hextra sig result last hexit => ?_, fun m rest hb => ⟨?_, h.calls_one hb⟩,
    fun hc hb sig s hs => ?_⟩
  · cases hexit with
    | cancelled hc => exact ⟨_, hstep (.stops hc), returned_endFeed .., rfl⟩
    | ended hb ha =>
      have hgone : r.mailboxes.senders sub.mailbox = 0 := by rw [h.senders, if_neg ha, hextra]
      have ht := h.take_disconnected_iff.2 ⟨hb, hgone⟩
      exact ⟨_, hstep (.ends ht), returned_endFeed .., h.calls_none hb⟩
    | failed hb hs =>
      have ht := (r.take_message_iff sub).2 (congrArg List.head? hb)
      exact ⟨_, hstep (.fails ht hs), returned_endFeed .., h.calls_one hb⟩
  · have ht := (r.take_message_iff sub).2 (congrArg List.head? hb)
    cases hs : sink (calls.map Prod.snd) m with
    | ok u => exact ⟨_, hstep (.takes ht hs)⟩
    | error e => exact ⟨_, hstep (.fails ht hs)⟩
  · cases h.own hs with
    | inl hgoes =>
      obtain ⟨call, hone, -, -⟩ := hgoes
      cases sig with
      | proceed =>
        rw [h.calls_none hb] at hone
        exact absurd hone (List.cons_ne_nil _ _).symm
      | stop | expire => exact absurd hone (List.cons_ne_nil _ _).symm
    | inr hends =>
      obtain ⟨result, hexit, -, hreturned, -⟩ := hends
      generalize r.sinkCalls i (.step (.feed i) sig) = last at hexit ⊢
      cases hexit with
      | cancelled | ended => exact ⟨hreturned, rfl⟩
      | failed hb' =>
        rw [hb] at hb'
        cases hb'

/-! ### A whole run -/

theorem Valid.returned (hv : r.Valid retention hist) (ha : r.act a = some s)
    {result : Except Error Unit} (hi : i < r.nextFeed) (h : r.Returned i result) :
    s.Returned i result ∧ i < s.nextFeed ∧ r.sinkCalls i a = [] := by
  obtain ⟨f, hf, hresult⟩ := h
  by_cases hother : ∀ sig, a ≠ .step (.feed i) sig
  · obtain ⟨hnext, hfeed⟩ := hv.feed_of_other ha hi hother
    rw [hf] at hfeed
    exact ⟨⟨_, hfeed, hresult⟩, Nat.lt_of_lt_of_le hi hnext, r.sinkCalls_of_other hother⟩
  · push Not at hother
    obtain ⟨sig, rfl⟩ := hother
    obtain ⟨f', -, hf', -, hopen, -⟩ := stepFeed_step ha
    rw [hf] at hf'
    cases hf'
    rw [hresult] at hopen
    cases hopen

/-- Feed `i`, which was to go on at `q`, returned in the course of `acts`. -/
inductive Over (q : Relay) (i : Nat) (sub : Subscription) (sink : Sink) (cancelled : Bool)
    (acts : List Action) (r : Relay) : Prop
  | returned {before later : List Action} {sig : Signal} {t u : Relay}
      {result : Except Error Unit}
      (hacts : acts = before ++ .step (.feed i) sig :: later)
      (ht : q.after before = some t) (hu : t.act (.step (.feed i) sig) = some u)
      (h : t.Forwards i sub sink (cancelled || before.any (·.cancels i))
        (q.observe (sinkCalls i) before) (q.observe (accepted sub.mailbox) before))
      (hexit : t.Exit sub sink (cancelled || before.any (·.cancels i))
        ((q.observe (sinkCalls i) before).map Prod.snd) sig result
          (t.sinkCalls i (.step (.feed i) sig)))
      (hreleases : t.Releases sub u)
      (hcalls : q.observe (sinkCalls i) acts =
        q.observe (sinkCalls i) before ++ t.sinkCalls i (.step (.feed i) sig))
      (hresult : r.Returned i result) (hnumbered : i < r.nextFeed)

inductive Serving (q : Relay) (i : Nat) (sub : Subscription) (sink : Sink) (cancelled : Bool)
    (extra : Nat) (acts : List Action) (r : Relay) : Prop
  | goes
      (h : r.Forwards i sub sink (cancelled || acts.any (·.cancels i))
        (q.observe (sinkCalls i) acts) (q.observe (accepted sub.mailbox) acts))
      (hnext : r.Outlook i sub sink (cancelled || acts.any (·.cancels i))
        ((q.observe (sinkCalls i) acts).map Prod.snd) extra)
  | returned (h : Over q i sub sink cancelled acts r)

variable {q : Relay} {acts : List Action}

theorem Over.next (h : Over q i sub sink cancelled acts r) (hr : q.after acts = some r)
    (hv : r.Valid retention hist) (ha : r.act a = some s) :
    Over q i sub sink cancelled (acts ++ [a]) s := by
  cases h with
  | @returned before later sig t u result hacts ht hu hf hexit hreleases hcalls hresult hnumbered =>
    obtain ⟨hresult', hnumbered', hnone⟩ := hv.returned ha hnumbered hresult
    have hacts' : acts ++ [a] = before ++ .step (.feed i) sig :: (later ++ [a]) := by
      rw [hacts, List.append_assoc, List.cons_append]
    refine .returned hacts' ht hu hf hexit hreleases ?_ hresult' hnumbered'
    rw [observe_concat (sinkCalls i) hr, hnone, List.append_nil, hcalls]

theorem Feeding.run (hq : q.Valid retention hist)
    (h : q.Feeding i sub sink cancelled [] [] extra) (hr : q.after acts = some r)
    (howned : ∀ a ∈ acts, ∀ o ∈ a.holder?, o.mailbox ≠ sub.mailbox) :
    r.Feeding i sub sink (cancelled || acts.any (·.cancels i)) (q.observe (sinkCalls i) acts)
      (q.observe (accepted sub.mailbox) acts) extra ∨ Over q i sub sink cancelled acts r := by
  induction hr using after_induct with
  | start => exact .inl (by simpa [observe] using h)
  | next acts r a s hr ha ih =>
    have hv := (hq.run hr).1
    have hlast := howned a (List.mem_append_right _ (List.mem_singleton_self a))
    cases ih fun a ha => howned a (List.mem_append_left _ ha) with
    | inr hover => exact .inr (hover.next hr hv ha)
    | inl hgoes =>
      by_cases hother : ∀ sig, a ≠ .step (.feed i) sig
      · refine .inl ?_
        rw [observe_concat (sinkCalls i) hr, observe_concat (accepted sub.mailbox) hr,
          List.any_append, ← Bool.or_assoc, r.sinkCalls_of_other hother, List.append_nil]
        simpa using hgoes.other hv ha hother hlast
      · push Not at hother
        obtain ⟨sig, rfl⟩ := hother
        cases hgoes.own ha with
        | inl hnext =>
          obtain ⟨call, hcall, hnone, hs⟩ := hnext
          refine .inl ?_
          rw [observe_concat (sinkCalls i) hr, observe_concat (accepted sub.mailbox) hr, hcall,
            hnone, List.append_nil, List.any_append]
          simpa [Action.cancels] using hs
        | inr hends =>
          obtain ⟨result, hexit, hreleases, hresult, hnumbered⟩ := hends
          exact .inr (.returned rfl hr ha hgoes.toForwards hexit hreleases
            (observe_concat _ hr _) hresult hnumbered)

theorem Feeding.serving (hq : q.Valid retention hist)
    (h : q.Feeding i sub sink cancelled [] [] extra) (hr : q.after acts = some r)
    (howned : ∀ a ∈ acts, ∀ o ∈ a.holder?, o.mailbox ≠ sub.mailbox) :
    Serving q i sub sink cancelled extra acts r := by
  cases h.run hq hr howned with
  | inl hgoes => exact .goes hgoes.toForwards hgoes.outlook
  | inr hover => exact .returned hover

theorem Feeding.opening {b : Nat} {c : Channel} (hr : (new retention).after acts = some r)
    (h : r.subscribe b c = .ok (sub, s)) (sink : Sink) (cancelled : Bool) :
    (r.serve b c sink cancelled).2.Feeding r.nextFeed sub sink cancelled [] []
      (if sub.registry < r.registries.size then 0 else 1) := by
  have hstreaming := Streaming.opening hr h
  have hbuffer := (subscribe_opens h).buffer sub.mailbox
  have hnew := (subscribe_opens h).mailbox
  have hempty : r.mailboxes.buffer sub.mailbox = [] :=
    Mailboxes.buffer_of_size_le (Nat.le_of_eq hnew.symm)
  rw [hempty, List.suffix_nil] at hbuffer
  have hserve : (r.serve b c sink cancelled).2 = { s with
      feeds := s.feeds.insert s.nextFeed { subscription := some sub, sink, cancelled }
      nextFeed := s.nextFeed + 1 } := by
    rw [serve, h]
  obtain ⟨registries, mailboxes, -, hs⟩ := subscribe_ok h
  have hfeeds : s.feeds = r.feeds := by rw [hs]
  have hnext : s.nextFeed = r.nextFeed := by rw [hs]
  rw [hserve]
  refine ⟨⟨?_, hbuffer, by simp⟩, hstreaming.congr ⟨rfl, rfl⟩, ?_, fun j f o hf ho hbox => ?_⟩
  · rw [hnext]
    exact (Table.find?_insert ..).trans (if_pos rfl)
  · rw [hnext]
    exact Nat.lt_succ_self _
  · rw [hnext, hfeeds, Table.find?_insert_eq_some] at hf
    obtain ⟨rfl, -⟩ | ⟨-, hold⟩ := hf
    · rfl
    · have hlt := (supplied_of_after hr).numbered o (feeds_opened hr hold ho)
      exact absurd (hnew ▸ hbox) (Nat.ne_of_lt hlt)

theorem Returned.run {result : Except Error Unit} (hq : q.Valid retention hist)
    (h : q.Returned i result) (hi : i < q.nextFeed) (hr : q.after acts = some r) :
    r.Returned i result ∧ i < r.nextFeed ∧ q.observe (sinkCalls i) acts = [] := by
  induction hr using after_induct with
  | start => exact ⟨h, hi, rfl⟩
  | next acts r a s hr ha ih =>
    obtain ⟨hresult, hnumbered, hcalls⟩ := ih
    obtain ⟨hresult', hnumbered', hnone⟩ := (hq.run hr).1.returned ha hnumbered hresult
    exact ⟨hresult', hnumbered', by rw [observe_concat (sinkCalls i) hr, hcalls, hnone]; rfl⟩

/-- Feed `i` opened no subscription: it is over, and its sink was not called. -/
structure Refused (q : Relay) (i : Nat) (e : Error) (acts : List Action) (r : Relay) : Prop where
  invalid : ∃ why, e = .invalidChannel why
  result : r.Returned i (.error e)
  calls : q.observe (sinkCalls i) acts = []

/-- A feed calls its sink with what its subscriber accepts, in order and each once, up to the first
message that the sink fails on. It returns that failure, or nothing as it is cancelled or as its
subscriber was detached and all is forwarded, and lets the subscriber go. Its subscription is its
own: nobody else takes from it or ends it. -/
theorem forwards_and_releases {pre post : List Action} {b : Nat} {c : Channel}
    (hq : (new retention).after pre = some q)
    (hr : (q.serve b c sink cancelled).2.after post = some r)
    (howned : ∀ a ∈ post, ∀ o ∈ a.holder?, o.mailbox ≠ q.mailboxes.size) :
    let s := (q.serve b c sink cancelled).2
    (∀ e, Channel.validateName c.name = .error e →
      q.Matches s ∧ Refused s q.nextFeed e post r) ∧
    (Channel.validateName c.name = .ok () → ∃ sub t, q.subscribe b c = .ok (sub, t) ∧
      t.Matches s ∧
      Serving s q.nextFeed sub sink cancelled (if sub.registry < q.registries.size then 0 else 1)
        post r) := by
  have hserve : (new retention).after (pre ++ [.serve b c sink cancelled]) =
      some (q.serve b c sink cancelled).2 := after_concat.2 ⟨q, hq, rfl⟩
  have hv := valid_of_after hserve
  refine ⟨fun e he => ?_, fun hname => ?_⟩
  · obtain ⟨hs, hsame⟩ := rejected_of_error (r := q) (b := b) he
    obtain ⟨hmatches, hfeed⟩ := hsame sink cancelled
    have hreturned : (q.serve b c sink cancelled).2.Returned (q.serve b c sink cancelled).1
        (.error e) := ⟨_, hfeed, rfl⟩
    have hnumber : (q.serve b c sink cancelled).1 = q.nextFeed := by rw [serve, hs]
    have hnumbered : q.nextFeed < (q.serve b c sink cancelled).2.nextFeed := by
      rw [serve, hs]
      exact Nat.lt_succ_self _
    rw [hnumber] at hreturned
    obtain ⟨hresult, -, hcalls⟩ := hreturned.run hv hnumbered hr
    exact ⟨hmatches, Channel.validateName_error he, hresult, hcalls⟩
  · obtain ⟨sub, t, hs⟩ : ∃ sub t, q.subscribe b c = .ok (sub, t) := by
      unfold subscribe
      rw [hname]
      exact ⟨_, _, rfl⟩
    have hmatches : t.Matches (q.serve b c sink cancelled).2 := by
      rw [serve, hs]
      exact ⟨rfl, rfl⟩
    refine ⟨sub, t, hs, hmatches, (Feeding.opening hq hs sink cancelled).serving hv hr ?_⟩
    rw [(subscribe_opens hs).mailbox]
    exact howned

/-- One of two subscribers of a channel is fed to a sink that takes one message and fails on the
next. -/
def oneFails : List Action :=
  [.dispatch 0 ⟨"a", "k"⟩ (Binary.encode (.object .create 1)),
    .dispatch 0 ⟨"a", "k"⟩ (Binary.encode (.object .create 2)), .step (.feed 0) .proceed,
    .step (.feed 0) .proceed, .dispatch 0 ⟨"a", "k"⟩ (Binary.encode (.object .create 3))]

def failure? : Except Error Unit → Option Error
  | .error e => some e
  | .ok () => none

set_option synthInstance.maxSize 256 in
theorem forwards_and_releases_of_oneFails : ∃ q r sub,
    (new 1).after [.addRegistry 1, .addBroker { workers := 1 } 0, .subscribe 0 ⟨"a", "k"⟩] =
      some q ∧
    (q.serve 0 ⟨"a", "k"⟩ (.upTo 1 .closed) false).2.after oneFails = some r ∧
    (∀ a ∈ oneFails, ∀ o ∈ a.holder?, o.mailbox ≠ q.mailboxes.size) ∧
    Over (q.serve 0 ⟨"a", "k"⟩ (.upTo 1 .closed) false).2 q.nextFeed sub (.upTo 1 .closed) false
      oneFails r ∧
    (q.serve 0 ⟨"a", "k"⟩ (.upTo 1 .closed) false).2.observe (sinkCalls q.nextFeed) oneFails =
      [([], .object .create 1), ([.object .create 1], .object .create 2)] ∧
    r.Returned q.nextFeed (.error .closed) ∧
    r.attached? 0 ⟨"a", "k"⟩ (.fresh 0) = some 0 := by
  have hrun : ((new 1).after [.addRegistry 1, .addBroker { workers := 1 } 0,
      .subscribe 0 ⟨"a", "k"⟩]).bind (fun q =>
        let s := (q.serve 0 ⟨"a", "k"⟩ (.upTo 1 .closed) false).2
        (s.after oneFails).map fun r => (s.observe (sinkCalls q.nextFeed) oneFails,
          (r.feeds.find? q.nextFeed).bind fun f => f.result.bind failure?,
          r.attached? 0 ⟨"a", "k"⟩ (.fresh 0))) =
      some ([([], .object .create 1), ([.object .create 1], .object .create 2)],
        some .closed, some 0) := by
    decide +kernel
  obtain ⟨q, hq, hrun⟩ := Option.bind_eq_some_iff.1 hrun
  obtain ⟨r, hr, heq⟩ := Option.map_eq_some_iff.1 hrun
  simp only [Prod.mk.injEq] at heq
  obtain ⟨hcalls, hresult, hattached⟩ := heq
  obtain ⟨f, hf, hresult⟩ := Option.bind_eq_some_iff.1 hresult
  obtain ⟨result, hreturned, hresult⟩ := Option.bind_eq_some_iff.1 hresult
  have howned : ∀ a ∈ oneFails, ∀ o ∈ a.holder?, o.mailbox ≠ q.mailboxes.size := by
    intro a ha
    simp only [oneFails, List.mem_cons, List.not_mem_nil, or_false] at ha
    obtain rfl | rfl | rfl | rfl | rfl := ha <;> exact fun o ho => by cases ho
  obtain ⟨-, hopened⟩ := forwards_and_releases hq hr howned
  obtain ⟨sub, t, hs, -, hserving⟩ := hopened (by decide)
  cases hserving with
  | goes h =>
    rw [h.feed] at hf
    cases hf
    cases hreturned
  | returned h =>
    cases result with
    | ok => cases hresult
    | error e =>
      cases hresult
      exact ⟨q, r, sub, hq, hr, howned, h, hcalls, ⟨f, hf, hreturned⟩, hattached⟩

end
end Relay
end EventRelay
