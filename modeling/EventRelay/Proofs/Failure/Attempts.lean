import EventRelay.Proofs.Capacity
import EventRelay.Proofs.Admission
/-!
An attempt of a call to have a topic ready. Main statement: `CallStep.attempt`, what a step of it
comes to: the attempt goes on, it fails, or the topic is ready.
-/
namespace EventRelay

/-- The call wants the topic for `purpose` and does not have it yet. -/
inductive Stage.Wants (t : String) : Purpose → Stage → Prop
  | queued (n : Nat) : Wants t .answer (.queued n (.ensure t))
  | delayed (n : Nat) : Wants t .answer (.delayed n (.ensure t))
  | creating (purpose : Purpose) (w : Hindrance) : Wants t purpose (.creating t purpose w)
  | opening (purpose : Purpose) (readers : List Reader) (w : Hindrance) :
      Wants t purpose (.opening t purpose readers w)

/-- No more steps than that are left of an attempt on a topic with `n` partitions. -/
def Stage.left (n : Nat) : Stage → Nat
  | .queued .. => n + 3
  | .delayed .. => n + 2
  | .creating .. => n + 1
  | .opening _ _ readers _ => n - readers.length
  | _ => 0

def Stage.granted (r : Relay) (b : Nat) : Stage → Bool
  | .creating t _ w =>
    w.failure.isNone && (r.log.create t (r.broker b).config.partitions.toNat).isOk
  | .opening t _ readers w => w.failure.isNone && (r.log.tail t readers.length).isOk
  | _ => true

namespace Relay

def thwarted (r : Relay) : Action → List Signal
  | .step (.call id) sig => (r.calls.find? id).elim [] fun c =>
    if sig = .proceed ∧ c.stage.granted r c.broker then [] else [sig]
  | _ => []

/-- The brokers, their lanes and their subscribers are as they were. -/
structure Untouched (r s : Relay) : Prop where
  brokers : s.brokers = r.brokers
  lanes : s.lanes = r.lanes
  nextLane : s.nextLane = r.nextLane
  registries : s.registries = r.registries
  mailboxes : s.mailboxes = r.mailboxes

inductive Thwarts (r : Relay) (b : Nat) (t : String) (sig : Signal) (stage : Stage) : Prop
  | closed (h : (r.broker b).closed = true)
  | invalid {e : Error} (h : Topic.validate t = .error e)
  | full (h : r.Spurns b t)
  | expires (h : sig ≠ .proceed)
  | refused (h : stage.granted r b = false)

/-- What a step of an attempt comes to, by the stage after it. -/
inductive Attempt (r s : Relay) (id b : Nat) (t : String) (purpose : Purpose) (sig : Signal)
    (stage : Stage) : Stage → Prop
  | goes {stage' : Stage} (hw : stage'.Wants t purpose) (hs : r.Untouched s)
      (hr : s.removals = r.removals)
      (hl : s.log = r.log ∨ ∃ readers w, stage' = .opening t purpose readers w)
      (hleft : stage'.left (r.broker b).config.workers < stage.left (r.broker b).config.workers) :
      Attempt r s id b t purpose sig stage stage'
  | fails {e : Error} (hs : r.Untouched s) (hl : s.log = r.log)
      (hr : s.removals = r.removals ∨
        r.Spurns b t ∧ e = .topicCapacityExceeded (r.broker b).config.maxTopics)
      (hlate : ∀ u, e = .topicCreateTimeout u → ∃ w, stage = .creating t purpose w)
      (hwhy : Thwarts r b t sig stage) :
      Attempt r s id b t purpose sig stage (.finished (.failed e))
  | knows {stage' : Stage} (hs : r.Untouched s) (hl : s.log = r.log)
      (hr : s.removals = r.removals) (hk : t ∈ (r.broker b).topics)
      (hready : Ready purpose false stage') : Attempt r s id b t purpose sig stage stage'
  | admits {stage' : Stage} {opened : List Reader} {last : Reader}
      (ha : r.Admits (.step (.call id) sig) s id b t purpose opened last stage') :
      Attempt r s id b t purpose sig stage stage'

section
variable {r s : Relay} {retention : Nat} {hist : List (Nat × Record)} {id b : Nat} {t : String}
  {purpose : Purpose} {sig : Signal} {stage stage' : Stage}

theorem untouched_goes (r : Relay) (id b : Nat) (σ : Script) (stage : Stage) :
    r.Untouched (r.goes id b σ stage) := ⟨rfl, rfl, rfl, rfl, rfl⟩

theorem asks_attempt {σ : Script} (ha : Asks (r.broker b) t purpose stage')
    (hleft : (r.broker b).config.workers + 1 < stage.left (r.broker b).config.workers) :
    Attempt r (r.goes id b σ stage') id b t purpose sig stage stage' := by
  have hs := r.untouched_goes id b σ stage'
  cases ha with
  | known hk hready => exact .knows hs rfl rfl hk hready
  | closed hk hc => exact .fails hs rfl (.inl rfl) (by intro u hu; cases hu) (.closed hc)
  | invalid hk hc hv =>
    obtain ⟨reason, rfl⟩ := Topic.validate_error hv
    exact .fails hs rfl (.inl rfl) (by intro u hu; cases hu) (.invalid hv)
  | full hk hc hv hf =>
    exact .fails hs rfl (.inl rfl) (by intro u hu; cases hu) (.full ⟨size_of_open hc, hk, hf⟩)
  | creates hk hc hv hf w => exact .goes (.creating purpose w) hs rfl (.inl rfl) hleft

theorem CallStep.attempt (hv : r.Valid retention hist) (hc : r.calls.find? id = some ⟨b, stage⟩)
    (hw : stage.Wants t purpose) (hstep : CallStep r id b sig stage s)
    (hs : s.calls.find? id = some ⟨b, stage'⟩) :
    Attempt r s id b t purpose sig stage stage' := by
  have hplaces := hv.workers b
  have hworkers := hplaces.subst (hv.workers_pos b)
  cases hstep with
  | moves hσ hm =>
    rw [find?_goes] at hs
    cases hs
    cases hm with
    | delays n q =>
      cases hw
      exact .goes (.delayed _) (r.untouched_goes ..) rfl (.inl rfl) (Nat.lt_succ_self _)
    | ensures hb ha =>
      cases hb <;> cases hw
      · exact asks_attempt ha (by simp only [Stage.left]; omega)
      · exact asks_attempt ha (Nat.lt_succ_self _)
    | publishes hb | closes hb => cases hb <;> cases hw
    | fails hh =>
      refine .fails (r.untouched_goes ..) rfl (.inl rfl) (by intro u hu; cases hu) (.refused ?_)
      cases hw <;> cases hh <;> rfl
    | expires _ _ w =>
      cases hw
      exact .fails (r.untouched_goes ..) rfl (.inl rfl) (fun _ _ => ⟨w, rfl⟩)
        (.expires (by decide))
    | createFails hl =>
      cases hw
      refine .fails (r.untouched_goes ..) rfl (.inl rfl) (fun _ _ => ⟨_, rfl⟩) (.refused ?_)
      rw [Stage.granted, hl]
      rfl
    | tailFails hl =>
      cases hw
      refine .fails (r.untouched_goes ..) rfl (.inl rfl) (fun u hu => ?_) (.refused ?_)
      · subst hu
        obtain he | he | he := Log.tail_error_cases hl <;> cases he
      · rw [Stage.granted, hl]
        rfl
    | knows hl hn hk hready =>
      cases hw
      exact .knows (r.untouched_goes ..) rfl rfl hk hready
    | produceFails | drains => cases hw
  | creates hσ hh hl =>
    rw [find?_goes] at hs
    cases hs
    cases hw
    refine .goes (.opening _ _ _) ⟨rfl, rfl, rfl, rfl, rfl⟩ rfl (.inr ⟨_, _, rfl⟩) ?_
    simp only [Stage.left, List.length_nil]
    omega
  | opens script hσ hh hl hn =>
    rw [find?_goes] at hs
    cases hs
    cases hw
    refine .goes (.opening _ _ _) (r.untouched_goes ..) rfl (.inl rfl) ?_
    simp only [Stage.left, List.length_append, List.length_singleton]
    omega
  | @enrolls _ _ _ _ c stage script σ σ' hσ hl hn hk hf hready =>
    rw [find?_goes] at hs
    cases hs
    cases hw
    exact .admits ⟨rfl, ⟨_, hc⟩, hl, hk, hf, hv.length_readers hc hn ⟨c, script⟩, hready,
      hv.enrolls hc hk ⟨c, script⟩ σ σ' _⟩
  | rejects hσ hl hn hk hf =>
    rw [find?_goes] at hs
    cases hs
    cases hw
    have hsp : r.Spurns b t := ⟨(hv.calls id b _ hc).1, hk, hf⟩
    exact .fails ⟨rfl, rfl, rfl, rfl, rfl⟩ rfl (.inr ⟨hsp, rfl⟩) (by intro u hu; cases hu)
      (.full hsp)
  | closes hb => cases hb <;> cases hw
  | produces | closesLog => cases hw

end

end Relay
end EventRelay
