import EventRelay.Proofs.Delivery.Traffic
/-!
What the subscribers of a registry get: some of the payloads that were dispatched to their channel,
decoded and in order. Main statement: `supplied_of_after`.
-/
namespace EventRelay.Relay

/-- The messages that mailbox `k` accepts: they come behind those that it holds. -/
def accepted (k : Nat) (r : Relay) (a : Action) : List Event :=
  (r.act a).elim [] fun s => (s.mailboxes.buffer k).drop (r.mailboxes.buffer k).length

def dispatchesTo (ds : List Dispatch) (sub : Subscription) : List Dispatch :=
  ds.filter fun d => d.registry = sub.registry ∧ d.channel = sub.channel

/-- What can be said of the subscriptions `subs` that were opened up to `r`, with `ds` all that was
dispatched and `acc` what each mailbox accepted. -/
structure Supplied (r : Relay) (subs : List Subscription) (ds : List Dispatch)
    (acc : Nat → List Event) : Prop where
  attached : ∀ g c id k, r.attached? g c id = some k → ⟨g, c, id, k⟩ ∈ subs
  numbered : ∀ sub ∈ subs, sub.mailbox < r.mailboxes.size
  apart : ∀ sub ∈ subs, ∀ sub' ∈ subs, sub.mailbox = sub'.mailbox → sub = sub'
  fresh : ∀ k, r.mailboxes.size ≤ k → acc k = []
  held : ∀ k, r.mailboxes.buffer k <:+ acc k
  part : ∀ sub ∈ subs, ∃ es : List Dispatch, es.Sublist (dispatchesTo ds sub) ∧
    es.map (fun d => Binary.decode d.payload) = (acc sub.mailbox).map .ok

section
variable {r s : Relay} {subs : List Subscription} {ds : List Dispatch} {acc : Nat → List Event}

theorem dispatchesTo_append (ds ds' : List Dispatch) (sub : Subscription) :
    dispatchesTo (ds ++ ds') sub = dispatchesTo ds sub ++ dispatchesTo ds' sub :=
  List.filter_append ..

theorem accepted_of_suffix {a : Action} (ha : r.act a = some s) {k : Nat}
    (h : s.mailboxes.buffer k <:+ r.mailboxes.buffer k) : r.accepted k a = [] := by
  rw [accepted, ha, Option.elim_some]
  exact List.drop_eq_nil_of_le h.length_le

theorem accepted_of_append {a : Action} (ha : r.act a = some s) {k : Nat} {ms : List Event}
    (h : s.mailboxes.buffer k = r.mailboxes.buffer k ++ ms) : r.accepted k a = ms := by
  rw [accepted, ha, Option.elim_some, h, List.drop_left]

theorem Supplied.nodup_values (h : r.Supplied subs ds acc) (g : Nat) (c : Channel) :
    ((r.registry g).members c).values.Nodup := by
  refine Table.nodup_values fun id id' k hk hk' => ?_
  have hsame := h.apart _ (h.attached g c id k hk) _ (h.attached g c id' k hk') rfl
  injection hsame

theorem Supplied.accepted_cases (h : r.Supplied subs ds acc) {a : Action}
    (ha : r.act a = some s) {d : Dispatch} (hd : r.Dispatches s d) :
    s.mailboxes.size = r.mailboxes.size ∧ ∀ k,
      s.mailboxes.buffer k = r.mailboxes.buffer k ++ r.accepted k a ∧
      (r.accepted k a = [] ∨ ∃ m, r.accepted k a = [m] ∧ Binary.decode d.payload = .ok m ∧
        ∃ id, r.attached? d.registry d.channel id = some k) := by
  have hsame {k : Nat} (hk : s.mailboxes.buffer k = r.mailboxes.buffer k) :
      r.accepted k a = [] := accepted_of_append ha (by rw [hk, List.append_nil])
  have hoffers := (r.registry d.registry).dispatch_offers r.mailboxes d.channel d.payload
    (h.nodup_values d.registry d.channel)
  rw [← hd.mailboxes] at hoffers
  cases hoffers with
  | inl hnone =>
    refine ⟨by rw [hnone], fun k => ?_⟩
    have hk := hsame (k := k) (by rw [hnone])
    exact ⟨by rw [hk, hnone, List.append_nil], .inl hk⟩
  | inr hsome =>
    obtain ⟨m, hm, hoffers⟩ := hsome
    refine ⟨hoffers.size, fun k => ?_⟩
    obtain hk | ⟨hmem, hk⟩ := hoffers.buffer k
    · exact ⟨by rw [hsame hk, hk, List.append_nil], .inl (hsame hk)⟩
    · have hone := accepted_of_append ha hk
      exact ⟨by rw [hone, hk], .inr ⟨m, hone, hm, Table.mem_values.1 hmem⟩⟩

theorem Supplied.quiet (h : r.Supplied subs ds acc) {a : Action} (ha : r.act a = some s)
    (hq : r.Quiet s) : s.Supplied subs ds (fun k => acc k ++ r.accepted k a) := by
  have hnone (k : Nat) : acc k ++ r.accepted k a = acc k := by
    rw [accepted_of_suffix ha (hq.drains.buffer k), List.append_nil]
  simp only [hnone]
  refine ⟨fun g c id k hk => ?_, ?_, h.apart, ?_, fun k => ?_, h.part⟩
  · exact h.attached g c id k (hq.attached g c id k hk)
  · rw [hq.drains.size]
    exact h.numbered
  · rw [hq.drains.size]
    exact h.fresh
  · exact (hq.drains.buffer k).trans (h.held k)

theorem Supplied.opens (h : r.Supplied subs ds acc) {a : Action} (ha : r.act a = some s)
    {sub : Subscription} (ho : r.Opens s sub) :
    s.Supplied (subs ++ [sub]) ds (fun k => acc k ++ r.accepted k a) := by
  have hnone (k : Nat) : acc k ++ r.accepted k a = acc k := by
    rw [accepted_of_suffix ha (ho.buffer k), List.append_nil]
  simp only [hnone]
  -- Nothing was accepted yet by the new mailbox.
  have hnew {sub' : Subscription} (hs : sub' ∈ subs) : sub'.mailbox ≠ sub.mailbox := by
    rw [ho.mailbox]
    exact Nat.ne_of_lt (h.numbered sub' hs)
  refine ⟨fun g c id k hk => ?_, fun sub' hs => ?_, fun x hx y hy hxy => ?_, fun k hk => ?_,
    fun k => (ho.buffer k).trans (h.held k), fun sub' hs => ?_⟩
  · cases ho.attached g c id k hk with
    | inl hold => exact List.mem_append_left _ (h.attached g c id k hold)
    | inr hthis => exact List.mem_append_right _ (by rw [hthis]; exact List.mem_singleton_self _)
  · rw [ho.size]
    cases List.mem_append.1 hs with
    | inl hold => exact Nat.lt_succ_of_lt (h.numbered sub' hold)
    | inr hthis =>
      rw [List.mem_singleton.1 hthis, ho.mailbox]
      exact Nat.lt_succ_self _
  · rw [List.mem_append, List.mem_singleton] at hx hy
    cases hx with
    | inl hx =>
      cases hy with
      | inl hy => exact h.apart x hx y hy hxy
      | inr hy => exact absurd (hy ▸ hxy) (hnew hx)
    | inr hx =>
      cases hy with
      | inl hy => exact absurd (hx ▸ hxy.symm) (hnew hy)
      | inr hy => rw [hx, hy]
  · rw [ho.size] at hk
    exact h.fresh k (Nat.le_of_succ_le hk)
  · cases List.mem_append.1 hs with
    | inl hold => exact h.part sub' hold
    | inr hthis =>
      rw [List.mem_singleton.1 hthis, h.fresh _ (Nat.le_of_eq ho.mailbox.symm)]
      exact ⟨[], List.nil_sublist _, rfl⟩

theorem Supplied.dispatches (h : r.Supplied subs ds acc) {a : Action} (ha : r.act a = some s)
    {d : Dispatch} (hd : r.Dispatches s d) :
    s.Supplied subs (ds ++ [d]) (fun k => acc k ++ r.accepted k a) := by
  obtain ⟨hsize, haccepted⟩ := h.accepted_cases ha hd
  refine ⟨fun g c id k hk => ?_, ?_, h.apart, fun k hk => ?_, fun k => ?_, fun sub hs => ?_⟩
  · rw [hd.attached] at hk
    exact h.attached g c id k hk
  · rw [hsize]
    exact h.numbered
  · rw [hsize] at hk
    obtain ⟨-, hnone | ⟨m, -, -, id, hid⟩⟩ := haccepted k
    · rw [hnone, List.append_nil]
      exact h.fresh k hk
    · exact absurd (h.numbered _ (h.attached _ _ _ _ hid)) (Nat.not_lt.2 hk)
  · rw [(haccepted k).1]
    obtain ⟨pre, hpre⟩ := h.held k
    exact ⟨pre, by rw [← hpre, List.append_assoc]⟩
  · obtain ⟨es, hes, hdecoded⟩ := h.part sub hs
    rw [dispatchesTo_append]
    obtain ⟨-, hnone | ⟨m, hone, hm, id, hid⟩⟩ := haccepted sub.mailbox
    · rw [hnone, List.append_nil]
      exact ⟨es, hes.trans (List.sublist_append_left ..), hdecoded⟩
    · -- The mailbox is that of the subscription, so it is attached to its channel.
      have hsub := h.apart _ (h.attached _ _ _ _ hid) sub hs rfl
      have hd : dispatchesTo [d] sub = [d] := by
        rw [← hsub]
        simp [dispatchesTo]
      rw [hd, hone]
      refine ⟨es ++ [d], hes.append (List.Sublist.refl _), ?_⟩
      rw [List.map_append, List.map_append, hdecoded, List.map_singleton, List.map_singleton, hm]

end

theorem supplied_of_after {retention : Nat} {acts : List Action} {r : Relay}
    (h : (new retention).after acts = some r) :
    r.Supplied ((new retention).observe opened acts) ((new retention).observe dispatched acts)
      (fun k => (new retention).observe (accepted k) acts) := by
  induction h using after_induct with
  | start =>
    refine ⟨fun g c id k hk => ?_, ?_, ?_, fun _ _ => rfl, fun k => ?_, ?_⟩
    · simp [attached?, registry, new] at hk
    · intro sub hs
      cases hs
    · intro sub hs
      cases hs
    · rw [Mailboxes.buffer_of_size_le (Nat.zero_le k)]
      exact List.nil_suffix
    · intro sub hs
      cases hs
  | next acts q a s hq ha ih =>
    simp only [observe_concat _ hq]
    cases act_traffic (valid_of_after hq) ha with
    | quiet hd ho hquiet =>
      rw [hd, ho, List.append_nil, List.append_nil]
      exact ih.quiet ha hquiet
    | opens hd ho hopens =>
      rw [hd, ho, List.append_nil]
      exact ih.opens ha hopens
    | dispatches hd ho hdispatches =>
      rw [hd, ho, List.append_nil]
      exact ih.dispatches ha hdispatches

end EventRelay.Relay
