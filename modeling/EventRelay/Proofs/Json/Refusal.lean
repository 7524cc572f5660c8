import EventRelay.Proofs.Json.Records
import EventRelay.Proofs.Json.Skippable
/-!
Objects that lack a member or have it twice are refused, and so are arrays of another length. Main
statement: `record_of_flawed`.
-/
namespace EventRelay.Json
open Outcome

theorem item_close {first : Bool} {a : List Char} (ha : Space a) (r : List Char) :
    item first (a ++ ']' :: r) = .error .mismatch := by
  rw [item, skipSpace_mark ha rfl]
  rfl

/-- An object that has not each of the two members once, or an array of more or fewer than two
items. -/
inductive Flawed (a b : String) : List Char → Prop
  | object {ms : List (String × List Char)} {cs : List Char} (h : IsObject ms cs)
      (hms : ∀ m ∈ ms, IsJson m.2) (hne : ms.countP (·.1 = a) ≠ 1 ∨ ms.countP (·.1 = b) ≠ 1) :
      Flawed a b cs
  | array {vs : List (List Char)} {cs : List Char} (h : Items true vs cs)
      (hvs : ∀ v ∈ vs, IsJson v) (hne : vs.length ≠ 2) : Flawed a b ('[' :: cs)

section
variable {α β : Type} {a b : String} {ra : Parse α} {rb : Parse β} (hra : Skippable ra)
  (hrb : Skippable rb)
include hra hrb

/-- What is known of a member and how often it is to come make one together. -/
theorem count_of_members (hab : a ≠ b) {first : Bool} {ms : List (String × List Char)}
    {cs : List Char} (h : Members IsName first ms cs) (hms : ∀ m ∈ ms, IsJson m.2) {o : Option α}
    {p : Option β} {fuel : Nat} {rest : List Char} {out : (α × β) × List Char}
    (hok : members a b ra rb fuel first o p (cs ++ rest) = .ok out) :
    ms.countP (·.1 = a) + o.toList.length = 1 ∧ ms.countP (·.1 = b) + p.toList.length = 1 := by
  induction h generalizing o p fuel with
  | close hd =>
    cases fuel with
    | zero => cases hok
    | succ fuel =>
      rw [List.append_assoc, List.singleton_append, members, nextKey_close hd, ok_bind] at hok
      cases o with
      | none => cases hok
      | some v =>
        cases p with
        | none => cases hok
        | some w => exact ⟨rfl, rfl⟩
  | @member _ _ c d v cs n k ms hgap hn hc hd h ih =>
    rw [List.forall_mem_cons] at hms
    have hend : Ends (cs ++ rest) := h.ends rest
    cases fuel with
    | zero => cases hok
    | succ fuel =>
      simp only [List.append_assoc, List.cons_append] at hok
      obtain ⟨rfl, rfl, _, t, hv, hok⟩ | ⟨hka, rfl, rfl, _, t, hv, hok⟩ | ⟨hka, hkb, t, hskip, hok⟩ :=
        members_eq_ok hgap hn hc hok
      · cases hra.rest hms.1 hd hend hv
        simpa [hab] using ih hms.2 hok
      · cases hrb.rest hms.1 hd hend hv
        simpa [hka] using ih hms.2 hok
      · cases hskip.symm.trans (skip_of_isJson hms.1 hd hend)
        simpa [hka, hkb] using ih hms.2 hok

theorem length_of_items {vs : List (List Char)} {cs rest : List Char} (h : Items true vs cs)
    (hvs : ∀ v ∈ vs, IsJson v) {ws : List Char} (hws : Space ws) {out : (α × β) × List Char}
    (hok : record a b ra rb (ws ++ '[' :: (cs ++ rest)) = .ok out) : vs.length = 2 := by
  rw [record, skipSpace_mark hws rfl] at hok
  obtain ⟨⟨_, r₁⟩, hfirst, hok⟩ := bind_eq_ok.1 hok
  obtain ⟨⟨x, r₂⟩, hx, hok⟩ := bind_eq_ok.1 hok
  obtain ⟨⟨_, r₃⟩, hnext, hok⟩ := bind_eq_ok.1 hok
  obtain ⟨⟨y, r₄⟩, hy, hok⟩ := bind_eq_ok.1 hok
  obtain ⟨⟨_, r₅⟩, hclose, -⟩ := bind_eq_ok.1 hok
  cases h with
  | close ha =>
    rw [List.append_assoc, List.singleton_append, item_close ha] at hfirst
    cases hfirst
  | @item _ _ v cs vs ha h =>
    rw [List.forall_mem_cons] at hvs
    rw [List.append_assoc, List.append_assoc, item_append ha (hvs.1.starts.append _)] at hfirst
    cases hfirst
    cases hra.rest hvs.1 space_nil (h.ends rest) hx
    cases h with
    | close hb =>
      rw [List.append_assoc, List.singleton_append, item_close hb] at hnext
      cases hnext
    | @item _ _ w cs vs hb h =>
      have hw := List.forall_mem_cons.1 hvs.2
      rw [List.append_assoc, List.append_assoc, item_append hb (hw.1.starts.append _)] at hnext
      cases hnext
      cases hrb.rest hw.1 space_nil (h.ends rest) hy
      cases h with
      | close _ => rfl
      | item hc _ =>
        cases hc with
        | next hc _ =>
          have hcomma := mark_eq_ok.1 hclose
          rw [List.append_assoc, List.append_assoc, List.cons_append,
            skipSpace_mark hc rfl] at hcomma
          cases hcomma

theorem record_of_flawed (hab : a ≠ b) {v ws : List Char} (hv : Flawed a b v) (hws : Space ws)
    (rest : List Char) : ∃ f, record a b ra rb (ws ++ (v ++ rest)) = .error f := by
  cases hout : record a b ra rb (ws ++ (v ++ rest)) with
  | error f => exact ⟨f, rfl⟩
  | ok out =>
    exfalso
    cases hv with
    | object h hms hne =>
      cases h with
      | mk h =>
        rw [List.cons_append, record, skipSpace_mark hws rfl] at hout
        have hcount := count_of_members hra hrb hab h hms hout
        simp only [Option.toList_none, List.length_nil, Nat.add_zero] at hcount
        exact hne.elim (absurd hcount.1) (absurd hcount.2)
    | array h hvs hne =>
      exact hne (length_of_items hra hrb h hvs hws hout)

end

end EventRelay.Json
