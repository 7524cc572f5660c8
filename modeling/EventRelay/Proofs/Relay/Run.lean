import EventRelay.Timeline
import Mathlib.Data.List.Induction
/-!
Runs of a relay: jobs take steps in any order, at any time and with any signal, and others act on
the relay and on its log in between. Main statements: `after_induct`, the induction over a run, and
`Timeline.steps_wait`, whatever the clock makes of a relay is one of its runs.
-/
namespace EventRelay

inductive Action where
  | step (j : Job) (s : Signal)
  | addRegistry (workers : Nat)
  | addBroker (config : Config) (registry : Nat)
  | submit (broker : Nat) (request : Request) (after : Nat)
  | collect (call : Nat)
  | subscribe (broker : Nat) (c : Channel)
  | unsubscribe (s : Subscription)
  | detach (registry : Nat) (c : Channel) (id : SubscriberId)
  | take (s : Subscription)
  | takeMany (s : Subscription) (n : Nat)
  | serve (broker : Nat) (c : Channel) (sink : Sink) (cancelled : Bool)
  | cancel (feed : Nat)
  | dispatch (registry : Nat) (c : Channel) (payload : List UInt8)
  /-- Settles what log calls and reads meet from now on. -/
  | script (s : Script)
  /- Operations of others on the log. -/
  | create (topic : String) (partitions : Nat)
  | delete (topic : String)
  | produce (topic key : String) (value : List UInt8)
  | closeLog

namespace Relay

def new (retention : Nat) : Relay := { log := .new retention }

def act (r : Relay) : Action → Option Relay
  | .step j s => r.step j s
  | .addRegistry workers => some (r.addRegistry workers).2
  | .addBroker config registry => (r.addBroker config registry).toOption.map Prod.snd
  | .submit b request after => some (r.submit b request after).2
  | .collect call => some (r.collect call).2
  | .subscribe b c => (r.subscribe b c).toOption.map Prod.snd
  | .unsubscribe s => some (r.unsubscribe s)
  | .detach registry c id => some (r.detach registry c id).2
  | .take s => some (r.take s).2
  | .takeMany s n => some (r.takeMany s n).2
  | .serve b c sink cancelled => some (r.serve b c sink cancelled).2
  | .cancel feed => some (r.cancel feed)
  | .dispatch registry c payload => some (r.dispatch registry c payload).2
  | .script script => some { r with script }
  | .create topic n => (r.log.create topic n).toOption.map fun log => { r with log }
  | .delete topic => (r.log.delete topic).toOption.map fun log => { r with log }
  | .produce topic key value =>
    (r.log.produce topic key value).toOption.map fun (_, log) => { r with log }
  | .closeLog => some { r with log := r.log.close }

/-- The relay after some actions, each of them possible at its time. -/
def after (r : Relay) : List Action → Option Relay
  | [] => some r
  | a :: acts => (r.act a).bind fun s => s.after acts

theorem after_append (r : Relay) (acts acts' : List Action) :
    r.after (acts ++ acts') = (r.after acts).bind fun s => s.after acts' := by
  induction acts generalizing r with
  | nil => rfl
  | cons a acts ih =>
    simp only [List.cons_append, after]
    cases r.act a with
    | none => rfl
    | some s => exact ih s

theorem after_concat {r t : Relay} {acts : List Action} {a : Action} :
    r.after (acts ++ [a]) = some t ↔ ∃ s, r.after acts = some s ∧ s.act a = some t := by
  simp [after_append, after, Option.bind_eq_some_iff]

@[elab_as_elim]
theorem after_induct {r : Relay} {motive : ∀ acts s, r.after acts = some s → Prop}
    (start : motive [] r rfl)
    (next : ∀ acts s a t (h : r.after acts = some s) (ha : s.act a = some t), motive acts s h →
      motive (acts ++ [a]) t (after_concat.2 ⟨s, h, ha⟩))
    {acts : List Action} {s : Relay} (h : r.after acts = some s) : motive acts s h := by
  induction acts using List.reverseRecOn generalizing s with
  | nil => cases h; exact start
  | append_singleton acts a ih =>
    obtain ⟨q, hq, ha⟩ := after_concat.1 h
    exact next acts q a s hq ha (ih hq)

/-- What shows in a run, if `f` tells what shows in one action. -/
def observe {α : Type} (f : Relay → Action → List α) (r : Relay) : List Action → List α
  | [] => []
  | a :: acts => f r a ++ (r.act a).elim [] fun s => s.observe f acts

theorem observe_append {α : Type} (f : Relay → Action → List α) {r s : Relay}
    {acts : List Action} (h : r.after acts = some s) (acts' : List Action) :
    r.observe f (acts ++ acts') = r.observe f acts ++ s.observe f acts' := by
  induction acts generalizing r with
  | nil => cases h; rfl
  | cons b acts ih =>
    obtain ⟨q, hq, h⟩ := Option.bind_eq_some_iff.1 h
    simp only [List.cons_append, observe, hq, Option.elim_some, ih h, List.append_assoc]

theorem observe_concat {α : Type} (f : Relay → Action → List α) {r s : Relay}
    {acts : List Action} (h : r.after acts = some s) (a : Action) :
    r.observe f (acts ++ [a]) = r.observe f acts ++ f s a := by
  rw [observe_append f h]
  cases hs : s.act a <;> simp [observe, hs]

theorem observe_congr {α : Type} {f f' : Relay → Action → List α} {r : Relay}
    {acts : List Action} (h : ∀ s, ∀ a ∈ acts, f s a = f' s a) :
    r.observe f acts = r.observe f' acts := by
  induction acts generalizing r with
  | nil => rfl
  | cons a acts ih =>
    rw [observe, observe, h r a List.mem_cons_self]
    cases r.act a with
    | none => rfl
    | some s => rw [Option.elim_some, Option.elim_some, ih fun s a ha => h s a (.tail _ ha)]

theorem observe_eq_nil {α : Type} {f : Relay → Action → List α} {r : Relay}
    {acts : List Action} (h : ∀ s, ∀ a ∈ acts, f s a = []) : r.observe f acts = [] := by
  induction acts generalizing r with
  | nil => rfl
  | cons a acts ih =>
    rw [observe, h r a List.mem_cons_self, List.nil_append]
    cases r.act a with
    | none => rfl
    | some s => exact ih fun s a ha => h s a (.tail _ ha)

theorem observe_map {α β : Type} (f : Relay → Action → List α) {g : List α → List β}
    (hnil : g [] = []) (happend : ∀ xs ys, g (xs ++ ys) = g xs ++ g ys) (r : Relay)
    (acts : List Action) : g (r.observe f acts) = r.observe (fun s a => g (f s a)) acts := by
  induction acts generalizing r with
  | nil => exact hnil
  | cons a acts ih =>
    rw [observe, observe, happend]
    cases r.act a with
    | none => rw [Option.elim_none, Option.elim_none, hnil]
    | some s => rw [Option.elim_some, Option.elim_some, ih]

def Passes (r : Relay) (acts : List Action) (P : Relay → Prop) : Prop :=
  ∃ pre s, pre <+: acts ∧ r.after pre = some s ∧ P s

theorem passes_concat {r t : Relay} {acts : List Action} {a : Action} {P : Relay → Prop}
    (h : r.after (acts ++ [a]) = some t) :
    r.Passes (acts ++ [a]) P ↔ r.Passes acts P ∨ P t := by
  constructor
  · intro hall
    obtain ⟨pre, s, hpre, hs, hP⟩ := hall
    obtain rfl | hpre := List.prefix_concat_iff.1 hpre
    · rw [h] at hs
      cases hs
      exact .inr hP
    · exact .inl ⟨pre, s, hpre, hs, hP⟩
  · intro hall
    obtain ⟨pre, s, hpre, hs, hP⟩ | hP := hall
    · exact ⟨pre, s, hpre.trans (List.prefix_append ..), hs, hP⟩
    · exact ⟨_, t, List.prefix_rfl, h, hP⟩

theorem Passes.now {r s : Relay} {acts : List Action} {P : Relay → Prop}
    (h : r.after acts = some s) (hP : P s) : r.Passes acts P :=
  ⟨acts, s, List.prefix_rfl, h, hP⟩

end Relay

/-! ### The clock -/

namespace Timeline

/-- The relay of `u` comes from that of `t` by steps of its jobs alone. -/
def Steps (t u : Timeline) : Prop :=
  ∃ steps : List (Job × Signal),
    t.relay.after (steps.map fun (j, s) => .step j s) = some u.relay

theorem Steps.refl (t : Timeline) : t.Steps t := ⟨[], rfl⟩

theorem Steps.trans {t u v : Timeline} (h : t.Steps u) (h' : u.Steps v) : t.Steps v := by
  obtain ⟨steps, h⟩ := h
  obtain ⟨steps', h'⟩ := h'
  exact ⟨steps ++ steps', by rw [List.map_append, Relay.after_append, h]; exact h'⟩

theorem steps_tick {t u : Timeline} (h : t.tick = some u) : t.Steps u := by
  unfold tick at h
  split at h
  · cases h
  · rename_i j s ready hready
    split at h
    · cases h; exact .refl _
    · rename_i relay hstep
      cases h
      refine ⟨[(j, s)], ?_⟩
      have hrelay : ∀ v : Timeline, (v.resume j).wake.relay = v.relay := by
        intro v
        unfold wake resume
        split <;> rfl
      rw [hrelay]
      simp [Relay.after, Relay.act, hstep]

theorem steps_run (fuel : Nat) (t : Timeline) : t.Steps (t.run fuel) := by
  induction fuel generalizing t with
  | zero => exact .refl t
  | succ fuel ih =>
    unfold run
    split
    · exact .refl t
    · rename_i u hu
      exact (steps_tick hu).trans (ih u)

theorem steps_passUntil (deadline fuel : Nat) (t : Timeline) :
    t.Steps (t.passUntil deadline fuel) := by
  induction fuel generalizing t with
  | zero => exact .refl t
  | succ fuel ih =>
    unfold passUntil
    split
    · split
      · exact (steps_run _ (t.moveTo _)).trans (ih _)
      · exact .refl t
    · exact .refl t

theorem steps_passUntilDone (done : Relay → Bool) (fuel : Nat) (t : Timeline) :
    t.Steps (t.passUntilDone done fuel) := by
  induction fuel generalizing t with
  | zero => exact .refl t
  | succ fuel ih =>
    unfold passUntilDone
    split
    · exact .refl t
    · split
      · exact (steps_run _ (t.moveTo _)).trans (ih _)
      · exact .refl t

theorem steps_wait (t : Timeline) (ms : Nat) : t.Steps (t.wait ms) :=
  (steps_run _ t).trans (steps_passUntil _ _ t.settle)

end Timeline
end EventRelay
