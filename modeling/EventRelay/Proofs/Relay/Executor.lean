import EventRelay.Proofs.Relay.Run
/-!
The executor: which jobs stand in its queue and what one tick makes of it. Main statements:
`Aligned.tick`, the queue holds the jobs that can go on, and `await_of_settled`.
-/
namespace EventRelay
namespace Relay

theorem mem_jobs {r : Relay} {j : Job} (h : r.readiness j ≠ .later []) : j ∈ r.jobs := by
  have hkey {β : Type} {t : Table Nat β} {k : Nat} {f : β → Readiness}
      (hf : (t.find? k).elim (.later []) f ≠ .later []) : k ∈ t.keys := by
    cases hv : t.find? k with
    | none =>
      rw [hv, Option.elim_none] at hf
      exact absurd rfl hf
    | some v => exact Table.mem_keys.2 ⟨v, hv⟩
  simp only [jobs, List.mem_append, List.mem_map]
  cases j with
  | call id => exact .inl (.inl (.inl ⟨id, hkey h, rfl⟩))
  | removal id => exact .inl (.inl (.inr ⟨id, hkey h, rfl⟩))
  | lane id => exact .inl (.inr ⟨id, hkey h, rfl⟩)
  | feed id => exact .inr ⟨id, hkey h, rfl⟩

theorem mem_enabled {r : Relay} {j : Job} {s : Signal} :
    (j, s) ∈ r.enabled ↔ r.readiness j = .now s := by
  rw [enabled, List.mem_filterMap]
  constructor
  · intro hall
    obtain ⟨k, -, hk⟩ := hall
    cases hr : r.readiness k with
    | later timers => simp only [hr] at hk; cases hk
    | now s' => simp only [hr] at hk; cases hk; exact hr
  · intro h
    exact ⟨j, mem_jobs (by rw [h]; simp), by simp only [h]⟩

end Relay

namespace Timeline
variable {t : Timeline}

/-- The jobs that can run are those that stand in the queue. -/
def Aligned (t : Timeline) : Prop := ∀ j s, (j, s) ∈ t.ready ↔ t.relay.readiness j = .now s

theorem aligned_wake (h : ∀ j s, (j, s) ∈ t.ready → t.relay.readiness j = .now s) :
    t.wake.Aligned := by
  intro j s
  simp only [wake, List.mem_append, List.mem_filter, Relay.mem_enabled, List.all_eq_true,
    decide_eq_true_eq]
  constructor
  · intro hall
    obtain hold | ⟨hnew, -⟩ := hall
    · exact h j s hold
    · exact hnew
  · intro hr
    by_cases hin : ∃ s', (j, s') ∈ t.ready
    · obtain ⟨s', hs'⟩ := hin
      have hsame := h j s' hs'
      rw [hr, Readiness.now.injEq] at hsame
      exact .inl (hsame ▸ hs')
    · refine .inr ⟨hr, fun e he heq => hin ⟨e.2, ?_⟩⟩
      rw [heq]
      exact he

theorem aligned_change (h : t.ready = []) (r : Relay) : (t.change r).Aligned :=
  aligned_wake fun j s hin => by rw [h] at hin; cases hin

/-- The next job takes its step and stands first in the queue if it can go on. Whatever else could
run still can. -/
theorem Aligned.tick (h : t.Aligned) {j : Job} {s : Signal} {rest : List (Job × Signal)}
    {r : Relay} (hready : t.ready = (j, s) :: rest) (hstep : t.relay.step j s = some r)
    (hkeep : ∀ k s', k ≠ j → t.relay.readiness k = .now s' → r.readiness k = .now s') :
    ∃ u, t.tick = some u ∧ u.relay = r ∧ u.Aligned ∧
      ∀ s', r.readiness j = .now s' → ∃ rest', u.ready = (j, s') :: rest' := by
  have hrest : ∀ e ∈ rest.filter fun e => e.1 ≠ j, r.readiness e.1 = .now e.2 := by
    intro e he
    obtain ⟨he, hne⟩ := List.mem_filter.1 he
    refine hkeep e.1 e.2 (of_decide_eq_true hne) ((h e.1 e.2).1 ?_)
    rw [hready]
    exact List.mem_cons_of_mem _ he
  simp only [Timeline.tick, hready, hstep, resume]
  cases hr : r.readiness j with
  | now s' =>
    refine ⟨_, rfl, rfl, aligned_wake fun k s₂ hk => ?_, fun s₂ hs₂ => ?_⟩
    · obtain heq | hk := List.mem_cons.1 hk
      · cases heq
        exact hr
      · exact hrest (k, s₂) hk
    · cases hs₂
      exact ⟨_, rfl⟩
  | later timers => exact ⟨_, rfl, rfl, aligned_wake fun k s₂ hk => hrest (k, s₂) hk, nofun⟩

theorem Aligned.rests (h : t.Aligned) (hready : t.ready = []) (j : Job) (s : Signal) :
    t.relay.readiness j ≠ .now s := by
  intro hr
  have hin := (h j s).2 hr
  rw [hready] at hin
  cases hin

theorem run_add (m n : Nat) (t : Timeline) : t.run (m + n) = (t.run m).run n := by
  induction m generalizing t with
  | zero => rw [Nat.zero_add, run]
  | succ m ih =>
    rw [Nat.succ_add, run, run]
    cases ht : t.tick with
    | none =>
      cases n with
      | zero => rfl
      | succ n => simp only [run, ht]
    | some u => exact ih u

theorem run_of_tick {u : Timeline} (h : t.tick = some u) (n : Nat) : t.run (n + 1) = u.run n := by
  simp only [run, h]

theorem run_of_ready (h : t.ready = []) (n : Nat) : t.run n = t := by
  cases n with
  | zero => rfl
  | succ n => simp only [run, Timeline.tick, h]

theorem await_of_settled {id : Nat} (h : (t.settle.relay.response? id).isSome = true) :
    t.await [id] = t.settle := by
  unfold await
  cases t.relay.stepBound with
  | zero => rfl
  | succ fuel => simp only [passUntilDone, List.all_cons, h, List.all_nil, Bool.and_self, if_true]

end Timeline
end EventRelay
