import Mathlib.Data.List.Induction
/-!
Histories of a system that answers every call and goes on from the state this leaves. Main
statements: `after_concat` and `total_concat`, one call at the end of a history, and `after_along`,
a system whose every call is some calls of another.
-/
namespace EventRelay.History
variable {σ α β : Type} (step : σ → α → β × σ)

def after (s : σ) : List α → σ
  | [] => s
  | a :: as => after (step s a).2 as

def trace (s : σ) : List α → List (α × β)
  | [] => []
  | a :: as => (a, (step s a).1) :: trace (step s a).2 as

/-- What all calls add up to, if `f` tells what one adds in the state that it meets. -/
def total (f : σ → α → Nat) (s : σ) : List α → Nat
  | [] => 0
  | a :: as => f s a + total f (step s a).2 as

/-- All that `f` makes of the calls, of each in the state that it meets. -/
def along {γ : Type} (f : σ → α → List γ) (s : σ) : List α → List γ
  | [] => []
  | a :: as => f s a ++ along f (step s a).2 as

variable {step}

theorem after_append (s : σ) (as bs : List α) :
    after step s (as ++ bs) = after step (after step s as) bs := by
  induction as generalizing s with
  | nil => rfl
  | cons a as ih => exact ih (step s a).2

theorem after_concat (s : σ) (as : List α) (a : α) :
    after step s (as ++ [a]) = (step (after step s as) a).2 :=
  after_append s as [a]

theorem total_concat (f : σ → α → Nat) (s : σ) (as : List α) (a : α) :
    total step f s (as ++ [a]) = total step f s as + f (after step s as) a := by
  induction as generalizing s with
  | nil => exact Nat.add_comm ..
  | cons b as ih => simp only [List.cons_append, total, after, ih, Nat.add_assoc]

theorem mem_along {γ : Type} {f : σ → α → List γ} {s : σ} {as : List α} {c : γ}
    (h : c ∈ along step f s as) : ∃ s', ∃ a ∈ as, c ∈ f s' a := by
  induction as generalizing s with
  | nil => cases h
  | cons a as ih =>
    cases List.mem_append.1 h with
    | inl hnow => exact ⟨s, a, List.mem_cons_self, hnow⟩
    | inr hlater =>
      obtain ⟨s', b, hb, hc⟩ := ih hlater
      exact ⟨s', b, List.mem_cons_of_mem a hb, hc⟩

/-- If each call is some calls of another system, so is a whole history. -/
theorem after_along {τ γ δ : Type} {step' : τ → γ → δ × τ} {f : σ → α → List γ} {view : σ → τ}
    (h : ∀ s a, view (step s a).2 = after step' (view s) (f s a)) (s : σ) (as : List α) :
    view (after step s as) = after step' (view s) (along step f s as) := by
  induction as generalizing s with
  | nil => rfl
  | cons a as ih => rw [after, along, after_append, ← h, ih]

end EventRelay.History
