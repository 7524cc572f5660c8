import EventRelay.Proofs.Delivery.Attachment
import EventRelay.Proofs.Delivery.Subscribers
/-!
The subscriptions that are alive, and what the registry and the mailboxes have of them. Main
statements: `Mirrors.opens`, `Mirrors.ends` and `Mirrors.detach`, one lemma for each thing that
happens to a subscription, and `mirrors_of_after`.
-/
namespace EventRelay

def Subscription.key (sub : Subscription) : Nat × Channel × SubscriberId :=
  (sub.registry, sub.channel, sub.id)

namespace Relay

/-- The subscription that an action ends: its holder drops it, or its feed returns. -/
def released (r : Relay) : Action → List Subscription
  | .unsubscribe sub => [sub]
  | .step (.feed i) sig =>
    if (r.step (.feed i) sig).any fun s => (s.feeds.find? i).any (·.result.isSome) then
      ((r.feeds.find? i).bind Feed.subscription).toList
    else []
  | _ => []

def detached : Action → List (Nat × Channel × SubscriberId)
  | .detach g c id => [(g, c, id)]
  | _ => []

/-- The subscriptions alive after a run: those that were opened, less those that ended. -/
def alive (r : Relay) (acts : List Action) : List Subscription :=
  (r.observe opened acts).filter fun sub => sub ∉ r.observe released acts

/-- Whether an action changes registry `g` only for the subscriptions `subs`, or for one that it
opens. -/
def Allows (r : Relay) (g : Nat) (subs : List Subscription) : Action → Prop
  | .subscribe b _ | .serve b _ _ _ => (r.broker b).registry = g → g < r.registries.size
  | .unsubscribe sub => sub ∈ subs
  | .detach g' c id => g' = g → (g', c, id) ∈ subs.map Subscription.key
  | _ => True

instance decidableAllows (r : Relay) (g : Nat) (subs : List Subscription) :
    ∀ a, Decidable (r.Allows g subs a)
  | .subscribe b _ | .serve b _ _ _ =>
    inferInstanceAs (Decidable ((r.broker b).registry = g → g < r.registries.size))
  | .unsubscribe sub => inferInstanceAs (Decidable (sub ∈ subs))
  | .detach g' c id =>
    inferInstanceAs (Decidable (g' = g → (g', c, id) ∈ subs.map Subscription.key))
  | .step .. | .addRegistry _ | .addBroker .. | .submit .. | .collect _ | .take _ | .takeMany ..
  | .cancel _ | .dispatch .. | .script _ | .create .. | .delete _ | .produce .. | .closeLog =>
    .isTrue trivial

/-- In a whole run registry `g` is changed only for subscriptions, those opened before being
`subs`. -/
def Tends (g : Nat) (r : Relay) (subs : List Subscription) : List Action → Prop
  | [] => True
  | a :: acts => r.Allows g subs a ∧ ∀ s, r.act a = some s → Tends g s (subs ++ r.opened a) acts

instance decidableTends (g : Nat) : ∀ r subs acts, Decidable (Tends g r subs acts)
  | _, _, [] => .isTrue trivial
  | r, subs, a :: acts =>
    match h : r.act a with
    | none => decidable_of_iff (r.Allows g subs a) (by simp [Tends, h])
    | some s =>
      have := decidableTends g s (subs ++ r.opened a) acts
      decidable_of_iff (r.Allows g subs a ∧ Tends g s (subs ++ r.opened a) acts)
        (by simp [Tends, h])

structure Distinct (subs : List Subscription) : Prop where
  id : ∀ sub ∈ subs, ∀ sub' ∈ subs, sub.id = sub'.id → sub = sub'
  box : ∀ sub ∈ subs, ∀ sub' ∈ subs, sub.mailbox = sub'.mailbox → sub = sub'

/-- Registry `g` and the mailboxes are those of the subscriptions `subs`, of which the `ended` are
over and the `gone` were detached explicitly. -/
structure Mirrors (r : Relay) (g : Nat) (subs ended : List Subscription)
    (gone : List (Nat × Channel × SubscriberId)) : Prop where
  known : ∀ g' c id k, r.attached? g' c id = some k → ⟨g', c, id, k⟩ ∈ subs
  numbered : ∀ sub ∈ subs, sub.mailbox < r.mailboxes.size
  listed : ∀ sub ∈ ended, sub ∈ subs
  own : ∀ key ∈ gone, key.1 = g → key ∈ subs.map Subscription.key
  attached : ∀ sub ∈ subs, sub.registry = g →
    (r.attached? g sub.channel sub.id = some sub.mailbox ↔ sub ∉ ended ∧ sub.key ∉ gone)
  mailbox : ∀ sub ∈ subs, sub.registry = g → sub ∉ ended →
    ∃ b, r.mailboxes.get? sub.mailbox = some b ∧ b.accepting = true ∧
      b.senders = if sub.key ∈ gone then 0 else 1

theorem Distinct.eq_of_key {subs : List Subscription} (h : Distinct subs) {sub sub' : Subscription}
    (hs : sub ∈ subs) (hs' : sub' ∈ subs) (hkey : sub.key = sub'.key) : sub = sub' :=
  h.id sub hs sub' hs' (congrArg (fun key => key.2.2) hkey)

section
variable {r s : Relay} {g : Nat} {subs ended : List Subscription}
  {gone : List (Nat × Channel × SubscriberId)}

theorem Mirrors.sameEnds (h : r.Mirrors g subs ended gone)
    (ha : ∀ g' c id, s.attached? g' c id = r.attached? g' c id)
    (hm : r.mailboxes.SameEnds s.mailboxes) : s.Mirrors g subs ended gone where
  known g' c id k hk := h.known g' c id k (ha g' c id ▸ hk)
  numbered sub hs := by rw [hm.size]; exact h.numbered sub hs
  listed := h.listed
  own := h.own
  attached sub hs hg := by rw [ha]; exact h.attached sub hs hg
  mailbox sub hs hg hlive := by
    obtain ⟨b, hb, haccepting, hsenders⟩ := h.mailbox sub hs hg hlive
    obtain ⟨b', hb', haccepting', hsenders'⟩ := hm.box sub.mailbox b hb
    exact ⟨b', hb', haccepting'.trans haccepting, hsenders'.trans hsenders⟩

theorem attached?_congr (hr : s.registries = r.registries) (g : Nat) (c : Channel)
    (id : SubscriberId) : s.attached? g c id = r.attached? g c id := by
  rw [attached?, registry, hr, attached?, registry]

theorem Mirrors.congr (h : r.Mirrors g subs ended gone) (hm : Matches r s) :
    s.Mirrors g subs ended gone :=
  h.sameEnds (attached?_congr hm.registries) (by rw [hm.mailboxes]; exact .refl _)

theorem Mirrors.take (h : r.Mirrors g subs ended gone) (sub : Subscription) :
    (r.take sub).2.Mirrors g subs ended gone :=
  h.sameEnds (fun _ _ _ => rfl) (r.mailboxes.sameEnds_handle sub.mailbox (w := .take) rfl)

theorem Mirrors.takeMany (h : r.Mirrors g subs ended gone) (sub : Subscription) (n : Nat) :
    (r.takeMany sub n).2.Mirrors g subs ended gone :=
  h.sameEnds (fun _ _ _ => rfl) (r.mailboxes.sameEnds_handle sub.mailbox (w := .takeMany n) rfl)

theorem Mirrors.dispatch (h : r.Mirrors g subs ended gone) (g' : Nat) (c : Channel)
    (payload : List UInt8) : (r.dispatch g' c payload).2.Mirrors g subs ended gone :=
  h.sameEnds (r.dispatch_dispatches g' c payload).attached
    (Mailboxes.sameEnds_dispatch (r.registry g') r.mailboxes c payload)

theorem Mirrors.get?_detach (h : r.Mirrors g subs ended gone) (hd : Distinct subs)
    {sub : Subscription} (hs : sub ∈ subs) {g' : Nat} {c : Channel} {id : SubscriberId}
    (hne : sub.key ≠ (g', c, id)) :
    (r.detach g' c id).2.mailboxes.get? sub.mailbox = r.mailboxes.get? sub.mailbox := by
  refine r.get?_detach g' c id fun hk => hne ?_
  have hsame := hd.box _ (h.known g' c id _ hk) sub hs rfl
  rw [← hsame]
  rfl

theorem Mirrors.detach (h : r.Mirrors g subs ended gone) (hd : Distinct subs) {g' : Nat}
    {c : Channel} {id : SubscriberId} (hown : g' = g → (g', c, id) ∈ subs.map Subscription.key) :
    (r.detach g' c id).2.Mirrors g subs ended (gone ++ [(g', c, id)]) := by
  have hgone (sub : Subscription) :
      sub.key ∈ gone ++ [(g', c, id)] ↔ sub.key ∈ gone ∨ sub.key = (g', c, id) := by
    rw [List.mem_append, List.mem_singleton]
  have hkey (sub : Subscription) (hg : sub.registry = g) :
      (g' = g ∧ c = sub.channel ∧ id = sub.id) ↔ sub.key = (g', c, id) := by
    rw [← hg, Subscription.key, Prod.mk.injEq, Prod.mk.injEq]
    exact ⟨fun h => ⟨h.1.symm, h.2.1.symm, h.2.2.symm⟩, fun h => ⟨h.1.symm, h.2.1.symm, h.2.2.symm⟩⟩
  refine ⟨fun g'' c' id' k hk => ?_, fun sub hs => ?_, h.listed, fun key hk hg => ?_,
    fun sub hs hg => ?_, fun sub hs hg hlive => ?_⟩
  · rw [attached?_detach] at hk
    split at hk
    · cases hk
    · exact h.known g'' c' id' k hk
  · rw [size_detach]
    exact h.numbered sub hs
  · cases List.mem_append.1 hk with
    | inl hold => exact h.own key hold hg
    | inr hnew =>
      rw [List.mem_singleton.1 hnew] at hg ⊢
      exact hown hg
  · rw [attached?_detach, hgone]
    by_cases hsame : sub.key = (g', c, id)
    · simp [if_pos ((hkey sub hg).2 hsame), hsame]
    · rw [if_neg fun hin => hsame ((hkey sub hg).1 hin), h.attached sub hs hg]
      simp [hsame]
  · obtain ⟨b, hb, haccepting, hsenders⟩ := h.mailbox sub hs hg hlive
    by_cases hsame : sub.key = (g', c, id)
    · have hin := (hgone sub).2 (.inr hsame)
      by_cases hold : sub.key ∈ gone
      · -- It was detached before, and is not attached any more.
        have hnone : r.attached? g' c id ≠ some sub.mailbox := by
          obtain ⟨rfl, rfl, rfl⟩ := (hkey sub hg).2 hsame
          exact fun hk => ((h.attached sub hs hg).1 hk).2 hold
        refine ⟨b, (r.get?_detach g' c id hnone).trans hb, haccepting, ?_⟩
        rw [hsenders, if_pos hold, if_pos hin]
      · have hsome : r.attached? g' c id = some sub.mailbox := by
          obtain ⟨rfl, rfl, rfl⟩ := (hkey sub hg).2 hsame
          exact (h.attached sub hs hg).2 ⟨hlive, hold⟩
        refine ⟨b.handled .release, ?_, haccepting, ?_⟩
        · rw [get?_detach_attached hsome, hb]
          rfl
        · rw [if_pos hin]
          have hone : b.senders = 1 := by rw [hsenders, if_neg hold]
          exact (congrArg (· - 1) hone).trans rfl
    · refine ⟨b, (h.get?_detach hd hs hsame).trans hb, haccepting, hsenders.trans ?_⟩
      simp [hgone, hsame]

theorem Mirrors.ends (h : r.Mirrors g subs ended gone) (hd : Distinct subs) {sub : Subscription}
    (hs : sub ∈ subs) : (r.unsubscribe sub).Mirrors g subs (ended ++ [sub]) gone := by
  have hended (sub' : Subscription) : sub' ∉ ended ++ [sub] ↔ sub' ∉ ended ∧ sub' ≠ sub := by
    rw [List.mem_append, List.mem_singleton, not_or]
  have hattached (g' : Nat) (c : Channel) (id : SubscriberId) :
      (r.unsubscribe sub).attached? g' c id =
        (r.detach sub.registry sub.channel sub.id).2.attached? g' c id := rfl
  have hmailboxes : (r.unsubscribe sub).mailboxes =
      (r.detach sub.registry sub.channel sub.id).2.mailboxes.modify sub.mailbox .discard := rfl
  refine ⟨fun g' c id k hk => ?_, fun sub' hs' => ?_, fun sub' hs' => ?_, h.own,
    fun sub' hs' hg => ?_, fun sub' hs' hg hlive => ?_⟩
  · rw [hattached, attached?_detach] at hk
    split at hk
    · cases hk
    · exact h.known g' c id k hk
  · rw [hmailboxes, Mailboxes.size_modify, size_detach]
    exact h.numbered sub' hs'
  · cases List.mem_append.1 hs' with
    | inl hold => exact h.listed sub' hold
    | inr hnew => rwa [List.mem_singleton.1 hnew]
  · rw [hattached, attached?_detach, hended]
    by_cases hsame : sub' = sub
    · subst hsame
      simp [hg]
    · have hne : ¬(sub.registry = g ∧ sub.channel = sub'.channel ∧ sub.id = sub'.id) :=
        fun hkey => hsame (hd.id _ hs' _ hs hkey.2.2.symm)
      rw [if_neg hne, h.attached sub' hs' hg]
      simp [hsame]
  · obtain ⟨hold, hsame⟩ := (hended sub').1 hlive
    have hkey : sub'.key ≠ sub.key := fun hkey => hsame (hd.eq_of_key hs' hs hkey)
    have hbox : sub.mailbox ≠ sub'.mailbox := fun hbox => hsame (hd.box _ hs' _ hs hbox.symm)
    rw [hmailboxes, Mailboxes.get?_modify_of_ne _ hbox, h.get?_detach hd hs' hkey]
    exact h.mailbox sub' hs' hg hold

theorem Mirrors.opens (h : r.Mirrors g subs ended gone) {sub : Subscription}
    (hd : Distinct (subs ++ [sub])) (hnew : sub.mailbox = r.mailboxes.size)
    (hthere : sub.registry = g → g < r.registries.size) (capacity : Nat) :
    (History.after deed r (sub.opening capacity)).Mirrors g (subs ++ [sub]) ended gone := by
  have hlast : sub ∈ subs ++ [sub] := List.mem_append_right _ (List.mem_singleton_self _)
  have hfirst {sub' : Subscription} (hs : sub' ∈ subs) : sub' ∈ subs ++ [sub] :=
    List.mem_append_left _ hs
  have hnot : sub ∉ subs := by
    intro hs
    have hlt := h.numbered sub hs
    omega
  have hid {sub' : Subscription} (hs : sub' ∈ subs) : sub'.id ≠ sub.id :=
    fun hsame => hnot (hd.id _ (hfirst hs) _ hlast hsame ▸ hs)
  have hfree : r.attached? sub.registry sub.channel sub.id = none := by
    cases hk : r.attached? sub.registry sub.channel sub.id with
    | none => rfl
    | some k => exact (hid (h.known _ _ _ k hk) rfl).elim
  have hover : sub ∉ ended := fun hs => hnot (h.listed sub hs)
  have hkept (hg : sub.registry = g) : sub.key ∉ gone := by
    intro hk
    obtain ⟨sub', hs, hkey⟩ := List.mem_map.1 (h.own _ hk hg)
    exact hid hs (congrArg (fun key => key.2.2) hkey)
  refine ⟨fun g' c id k hk => ?_, fun sub' hs => ?_, fun sub' hs => hfirst (h.listed sub' hs),
    fun key hk hg => ?_, fun sub' hs hg => ?_, fun sub' hs hg hlive => ?_⟩
  · rw [attached?_opening] at hk
    split at hk
    · rename_i hsame
      obtain ⟨-, rfl, rfl, rfl⟩ := hsame
      cases hk
      exact hlast
    · exact hfirst (h.known g' c id k hk)
  · rw [size_opening]
    cases List.mem_append.1 hs with
    | inl hold => exact Nat.lt_succ_of_lt (h.numbered sub' hold)
    | inr hthis =>
      rw [List.mem_singleton.1 hthis, hnew]
      exact Nat.lt_succ_self _
  · rw [List.map_append]
    exact List.mem_append_left _ (h.own key hk hg)
  · rw [attached?_opening]
    cases List.mem_append.1 hs with
    | inl hold =>
      rw [if_neg fun hsame => hid hold hsame.2.2.2.symm]
      exact h.attached sub' hold hg
    | inr hthis =>
      obtain rfl := List.mem_singleton.1 hthis
      have hlt : sub'.registry < r.registries.size := hg ▸ hthere hg
      rw [if_pos ⟨hlt, hg, rfl, rfl⟩]
      exact ⟨fun _ => ⟨hover, hkept hg⟩, fun _ => rfl⟩
  · rw [get?_opening hnew hfree]
    cases List.mem_append.1 hs with
    | inl hold =>
      have hbox : sub'.mailbox ≠ sub.mailbox := by
        have hlt := h.numbered sub' hold
        omega
      rw [if_neg hbox]
      exact h.mailbox sub' hold hg hlive
    | inr hthis =>
      obtain rfl := List.mem_singleton.1 hthis
      rw [if_pos rfl]
      exact ⟨_, rfl, rfl, by rw [if_neg (hkept hg)]; rfl⟩

/-! ### Feeds -/

theorem released_feed {i : Nat} {f : Feed} {sub : Subscription} {sig : Signal}
    (h : r.step (.feed i) sig = some s) (hf : r.feeds.find? i = some f)
    (hsub : f.subscription = some sub) {f' : Feed} (hs : s.feeds = r.feeds.insert i f') :
    r.released (.step (.feed i) sig) = if f'.result.isSome then [sub] else [] := by
  simp only [released, h, hf, hs, Table.find?_insert, if_true, Option.any_some, Option.bind_some,
    hsub, Option.toList_some]

theorem Valid.act_feeds {retention : Nat} {hist : List (Nat × Record)} {a : Action}
    (hv : r.Valid retention hist) (h : r.act a = some s) {i : Nat} {f : Feed}
    {sub : Subscription} (hf : s.feeds.find? i = some f) (hsub : f.subscription = some sub) :
    sub ∈ r.opened a ∨ ∃ f₀, r.feeds.find? i = some f₀ ∧ f₀.subscription = some sub := by
  have hsame (hs : s.feeds = r.feeds) : sub ∈ r.opened a ∨
      ∃ f₀, r.feeds.find? i = some f₀ ∧ f₀.subscription = some sub := .inr ⟨f, hs ▸ hf, hsub⟩
  cases ha : a.isAside with
  | false => obtain ⟨-, hs⟩ | ⟨d, -, hs⟩ := (hv.change h).spares ha <;> exact hsame hs.feeds
  | true =>
    cases act_aside h ha with
    | @feeds j f' _ _ _ hf' hsub' hopen hs =>
      have hinsert : ∃ f'', s.feeds = r.feeds.insert j f'' ∧
          f''.subscription = f'.subscription := by
        cases hs with
        | stops | ends | takes | fails => exact ⟨_, rfl, rfl⟩
      obtain ⟨f'', hs, hkept⟩ := hinsert
      rw [hs, Table.find?_insert_eq_some] at hf
      obtain ⟨rfl, rfl⟩ | ⟨-, hold⟩ := hf
      · exact .inr ⟨f', hf', by rw [← hkept, hsub]⟩
      · exact .inr ⟨f, hold, hsub⟩
    | subscribes hs =>
      obtain ⟨registries, mailboxes, -, rfl⟩ := subscribe_ok hs
      exact hsame rfl
    | serves hs =>
      rw [opened_serve, opened_subscribe hs]
      obtain ⟨registries, mailboxes, -, rfl⟩ := subscribe_ok hs
      rw [Table.find?_insert_eq_some] at hf
      obtain ⟨-, rfl⟩ | ⟨-, hold⟩ := hf
      · cases hsub
        exact .inl (List.mem_singleton_self _)
      · exact .inr ⟨f, hold, hsub⟩
    | rejects hs =>
      rw [Table.find?_insert_eq_some] at hf
      obtain ⟨-, rfl⟩ | ⟨-, hold⟩ := hf
      · cases hsub
      · exact .inr ⟨f, hold, hsub⟩
    | cancels j =>
      simp only [cancel, Table.find?_modify] at hf
      split at hf
      · obtain ⟨f₀, hf₀, rfl⟩ := Option.map_eq_some_iff.1 hf
        exact .inr ⟨f₀, hf₀, hsub⟩
      · exact .inr ⟨f, hf, hsub⟩
    | addsRegistry | unsubscribes | detaches | takes | takesMany | dispatches => exact hsame rfl

theorem feeds_opened {retention : Nat} {acts : List Action}
    (h : (new retention).after acts = some r) {i : Nat} {f : Feed} {sub : Subscription}
    (hf : r.feeds.find? i = some f) (hsub : f.subscription = some sub) :
    sub ∈ (new retention).observe opened acts := by
  induction h using after_induct generalizing i f sub with
  | start => cases hf
  | next acts q a s hq ha ih =>
    rw [observe_concat opened hq, List.mem_append]
    cases (valid_of_after hq).act_feeds ha hf hsub with
    | inl hnew => exact .inr hnew
    | inr hold =>
      obtain ⟨f₀, hf₀, hsub₀⟩ := hold
      exact .inl (ih hf₀ hsub₀)

/-! ### A whole run -/

theorem Mirrors.feedStep (h : r.Mirrors g subs ended gone) (hd : Distinct subs) {i : Nat} {f : Feed}
    {sub : Subscription} {sig : Signal} (hs : sub ∈ subs) (hf : r.feeds.find? i = some f)
    (hsub : f.subscription = some sub) (hopen : f.result = none)
    (hstep : r.step (.feed i) sig = some s) (hfeed : FeedStep r i f sub sig s) :
    s.Mirrors g subs (ended ++ r.released (.step (.feed i) sig)) gone := by
  have hread := h.take sub
  cases hfeed with
  | stops hc =>
    rw [released_feed hstep hf hsub rfl]
    exact (h.ends hd hs).congr ⟨rfl, rfl⟩
  | ends ht =>
    rw [released_feed hstep hf hsub rfl]
    exact (h.ends hd hs).congr ⟨rfl, rfl⟩
  | takes ht hsink =>
    rw [released_feed hstep hf hsub rfl]
    simp only [hopen, Option.isSome_none, Bool.false_eq_true, if_false, List.append_nil]
    exact hread.congr ⟨rfl, rfl⟩
  | fails ht hsink =>
    rw [released_feed hstep hf hsub rfl]
    exact (hread.ends hd hs).congr ⟨rfl, rfl⟩

theorem Mirrors.addRegistry (h : r.Mirrors g subs ended gone) (workers : Nat) :
    (r.addRegistry workers).2.Mirrors g subs ended gone :=
  h.sameEnds (fun g' c id => r.attached?_addRegistry g' c id workers) (.refl _)

theorem Mirrors.subscribe (h : r.Mirrors g subs ended gone) {b : Nat} {c : Channel}
    {sub : Subscription} (hs : r.subscribe b c = .ok (sub, s)) (hd : Distinct (subs ++ [sub]))
    (hallow : (r.broker b).registry = g → g < r.registries.size) :
    s.Mirrors g (subs ++ [sub]) ended gone := by
  obtain ⟨registries, mailboxes, hsub, -⟩ := subscribe_ok hs
  refine (h.opens hd (by rw [hsub]) (fun hg => hallow ?_) _).congr (subscribe_eq hs)
  rw [← hg, hsub]

theorem released_of_not_aside (r : Relay) {a : Action} (ha : a.isAside = false) :
    r.released a = [] := by
  cases a with
  | step j =>
    cases j with
    | feed => cases ha
    | call | removal | lane => rfl
  | unsubscribe => cases ha
  | _ => rfl

theorem detached_of_not_aside {a : Action} (ha : a.isAside = false) : detached a = [] := by
  cases a with
  | detach => cases ha
  | _ => rfl

theorem Mirrors.next {retention : Nat} {hist : List (Nat × Record)} {a : Action}
    (h : r.Mirrors g subs ended gone) (hv : r.Valid retention hist)
    (hd : Distinct (subs ++ r.opened a))
    (hfeeds : ∀ i f sub, r.feeds.find? i = some f → f.subscription = some sub → sub ∈ subs)
    (hallow : r.Allows g subs a) (ha : r.act a = some s) :
    s.Mirrors g (subs ++ r.opened a) (ended ++ r.released a) (gone ++ detached a) := by
  cases hside : a.isAside with
  | false =>
    rw [r.opened_of_not_aside hside, r.released_of_not_aside hside, detached_of_not_aside hside,
      List.append_nil, List.append_nil, List.append_nil]
    obtain ⟨-, hs⟩ | ⟨d, -, hs⟩ := (hv.change ha).spares hside
    · exact h.congr ⟨hs.registries, hs.mailboxes⟩
    · exact (h.dispatch ..).congr ⟨hs.registries, hs.mailboxes⟩
  | true =>
    cases act_aside ha hside with
    | feeds hf hsub hopen hs =>
      simp only [opened, detached, List.append_nil] at hd ⊢
      exact h.feedStep hd (hfeeds _ _ _ hf hsub) hf hsub hopen ha hs
    | addsRegistry workers =>
      simp only [opened, released, detached, List.append_nil]
      exact h.addRegistry workers
    | subscribes hs =>
      rw [opened_subscribe hs] at hd ⊢
      simp only [released, detached, List.append_nil]
      exact h.subscribe hs hd hallow
    | serves hs =>
      rw [opened_serve, opened_subscribe hs] at hd ⊢
      simp only [released, detached, List.append_nil]
      exact (h.subscribe hs hd hallow).congr ⟨rfl, rfl⟩
    | rejects hs =>
      rw [opened_serve, opened_of_error hs]
      simp only [released, detached, List.append_nil]
      exact h.congr ⟨rfl, rfl⟩
    | unsubscribes sub =>
      simp only [opened, released, detached, List.append_nil] at hd ⊢
      exact h.ends hd hallow
    | detaches g' c id =>
      simp only [opened, released, detached, List.append_nil] at hd ⊢
      exact h.detach hd hallow
    | takes sub =>
      simp only [opened, released, detached, List.append_nil]
      exact h.take sub
    | takesMany sub n =>
      simp only [opened, released, detached, List.append_nil]
      exact h.takeMany sub n
    | cancels =>
      simp only [opened, released, detached, List.append_nil]
      exact h.congr ⟨rfl, rfl⟩
    | dispatches g' c payload =>
      simp only [opened, released, detached, List.append_nil]
      exact h.dispatch g' c payload

theorem tends_concat {acts : List Action} {a : Action} : Tends g r subs (acts ++ [a]) ↔
    Tends g r subs acts ∧
      ∀ s, r.after acts = some s → s.Allows g (subs ++ r.observe opened acts) a := by
  induction acts generalizing r subs with
  | nil => simp [Tends, after, observe]
  | cons b acts ih =>
    simp only [List.cons_append, Tends, ih, after, observe, Option.bind_eq_some_iff]
    constructor
    · intro h
      refine ⟨⟨h.1, fun s hs => (h.2 s hs).1⟩, fun s hs => ?_⟩
      obtain ⟨q, hq, hs⟩ := hs
      have hlast := (h.2 q hq).2 s hs
      rw [hq, Option.elim_some, ← List.append_assoc]
      exact hlast
    · intro h
      refine ⟨h.1.1, fun q hq => ⟨h.1.2 q hq, fun s hs => ?_⟩⟩
      have hlast := h.2 s ⟨q, hq, hs⟩
      rwa [hq, Option.elim_some, ← List.append_assoc] at hlast

end

theorem mirrors_of_after {retention : Nat} {acts : List Action} {r : Relay} {g : Nat}
    (h : (new retention).after acts = some r)
    (hid : (((new retention).observe opened acts).map Subscription.id).Nodup)
    (ht : Tends g (new retention) [] acts) :
    r.Mirrors g ((new retention).observe opened acts) ((new retention).observe released acts)
      (acts.flatMap detached) := by
  induction h using after_induct with
  | start =>
    refine ⟨fun g' c id k hk => ?_, ?_, ?_, ?_, ?_, ?_⟩
    · simp [attached?, registry, new] at hk
    all_goals
      intro x hx
      cases hx
  | next acts q a s hq ha ih =>
    have hsupplied := supplied_of_after (after_concat.2 ⟨q, hq, ha⟩)
    rw [observe_concat opened hq] at hid hsupplied
    rw [observe_concat opened hq, observe_concat released hq, List.flatMap_append,
      List.flatMap_singleton]
    obtain ⟨hbefore, hallow⟩ := tends_concat.1 ht
    have hold := ih (by rw [List.map_append] at hid; exact hid.of_append_left) hbefore
    have hdistinct : Distinct ((new retention).observe opened acts ++ q.opened a) :=
      ⟨fun x hx y hy => List.inj_on_of_nodup_map hid hx hy, hsupplied.apart⟩
    exact hold.next (valid_of_after hq) hdistinct (fun i f sub => feeds_opened hq) (hallow q hq) ha

end Relay
end EventRelay
