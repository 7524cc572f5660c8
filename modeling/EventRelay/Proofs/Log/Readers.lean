import EventRelay.Proofs.Log.Lifetime
import Mathlib.Data.List.Basic
/-!
What a reader of a partition is given over the rest of a history. Main statements: `Reads.step`, the
reader stands past its last record, and `follows_of_opened`, what it is given from its opening on.
-/
namespace EventRelay.Log
open History

def returnedBy (k : Nat) : Op × Reply → Option Record
  | (.next j, .found (.record rec)) => if j = k then some rec else none
  | _ => none

def returned (k : Nat) (tr : List (Op × Reply)) : List Record := tr.filterMap (returnedBy k)

def dropped (k : Nat) (tr : List (Op × Reply)) : Bool := tr.any fun e => e = (.drop k, .done)

/-- The offset past the last record that a reader was given, and `w` before the first one. -/
def place (k w : Nat) (tr : List (Op × Reply)) : Nat :=
  (returned k tr).getLast?.elim w (·.offset + 1)

theorem returned_concat (k : Nat) (tr : List (Op × Reply)) (e : Op × Reply) :
    returned k (tr ++ [e]) = returned k tr ++ (returnedBy k e).toList := by
  cases h : returnedBy k e <;> simp [returned, h]

theorem place_concat (k w : Nat) (tr : List (Op × Reply)) (e : Op × Reply) :
    place k w (tr ++ [e]) = (returnedBy k e).elim (place k w tr) (·.offset + 1) := by
  rw [place, returned_concat]
  cases returnedBy k e with
  | none => rw [Option.toList_none, List.append_nil]; rfl
  | some rec => rw [Option.toList_some, List.getLast?_concat]; rfl

theorem dropped_concat (k : Nat) (tr : List (Op × Reply)) (e : Op × Reply) :
    dropped k (tr ++ [e]) = (dropped k tr || decide (e = (.drop k, .done))) := by
  simp [dropped]

theorem appendedTo_prefix (t : String) (p : Nat) (tr tr' : List (Op × Reply)) :
    appendedTo t p tr <+: appendedTo t p (tr ++ tr') := by
  rw [appendedTo, appendedTo, appended_append, List.filter_append]
  exact List.prefix_append ..

/-- The reader was never more than a window behind its partition. -/
def KeepsUp (retention : Nat) (t : String) (p k w : Nat) (tr : List (Op × Reply)) : Prop :=
  ∀ pre, pre <+: tr → w + (appendedTo t p pre).length ≤ place k w pre + windowSize retention

/-- What reader `k`, opened at offset `w` of partition `p`, was given over `tr`. -/
structure Given (retention : Nat) (t : String) (p k w : Nat) (tr : List (Op × Reply)) : Prop where
  le_place : w ≤ place k w tr
  place_le : place k w tr ≤ w + (appendedTo t p tr).length
  /-- It is given records from after its opening, in their order, each as it was produced. -/
  returned : (returned k tr).Sublist ((appendedTo t p tr).take (place k w tr - w))
  /-- It passes over no record of the window. -/
  kept : ∀ x ∈ appendedTo t p tr, x.offset < place k w tr →
    w + (appendedTo t p tr).length ≤ x.offset + windowSize retention → x ∈ Log.returned k tr
  complete : KeepsUp retention t p k w tr →
    Log.returned k tr = (appendedTo t p tr).take (place k w tr - w)

/-- The records that a partition takes are numbered on from `w`. -/
def Numbered (t : String) (p w : Nat) (tr : List (Op × Reply)) : Prop :=
  ∀ (j : Nat) rec, (appendedTo t p tr)[j]? = some rec → rec.offset = w + j

section
variable {retention k p w : Nat} {t : String} {tr tr' : List (Op × Reply)} {e : Op × Reply}

theorem KeepsUp.of_concat (h : KeepsUp retention t p k w (tr ++ [e])) :
    KeepsUp retention t p k w tr :=
  fun pre hpre => h pre (hpre.trans (List.prefix_append ..))

theorem given_nil (retention : Nat) (t : String) (p k w : Nat) : Given retention t p k w [] :=
  ⟨Nat.le_refl _, Nat.le_refl _, List.nil_sublist _, nofun, fun _ => List.take_nil.symm⟩

theorem Given.keep (h : Given retention t p k w tr) (hnum : Numbered t p w (tr ++ [e]))
    (hnone : returnedBy k e = none) : Given retention t p k w (tr ++ [e]) := by
  have hplace : place k w (tr ++ [e]) = place k w tr := by rw [place_concat, hnone]; rfl
  have hgiven : Log.returned k (tr ++ [e]) = Log.returned k tr := by
    rw [returned_concat, hnone]; exact List.append_nil _
  obtain ⟨l, happ⟩ := appendedTo_prefix t p tr [e]
  have hle := h.place_le
  have htake : (appendedTo t p (tr ++ [e])).take (place k w tr - w) =
      (appendedTo t p tr).take (place k w tr - w) := by
    rw [← happ, List.take_append_of_le_length (by omega)]
  refine ⟨hplace ▸ h.le_place, ?_, ?_, fun x hx hlt hnear => ?_, fun hup => ?_⟩
  · rw [hplace, ← happ, List.length_append]
    omega
  · rw [hplace, hgiven, htake]
    exact h.returned
  · rw [hplace] at hlt
    rw [hgiven]
    -- What is new stands behind the place of the reader.
    have hold : x ∈ appendedTo t p tr := by
      obtain ⟨j, hj⟩ := List.mem_iff_getElem?.1 hx
      have ho := hnum j x hj
      rw [← happ, List.getElem?_append_left (by omega)] at hj
      exact List.mem_of_getElem? hj
    refine h.kept x hold hlt ?_
    rw [← happ, List.length_append] at hnear
    omega
  · rw [hplace, hgiven, htake]
    exact h.complete hup.of_concat

theorem Given.returns (h : Given retention t p k w tr) (hnum : Numbered t p w tr) {rec : Record}
    (ho : rec.offset =
      max (place k w tr) (w + (appendedTo t p tr).length - windowSize retention))
    (hrec : (appendedTo t p tr)[rec.offset - w]? = some rec) :
    Given retention t p k w (tr ++ [(.next k, .found (.record rec))]) := by
  have hlen := (List.getElem?_eq_some_iff.1 hrec).1
  have hle := h.le_place
  have hby : returnedBy k (.next k, .found (.record rec)) = some rec := if_pos rfl
  have hplace : place k w (tr ++ [(.next k, .found (.record rec))]) = rec.offset + 1 := by
    rw [place_concat, hby]; rfl
  have hgiven : Log.returned k (tr ++ [(.next k, .found (.record rec))]) =
      Log.returned k tr ++ [rec] := by
    rw [returned_concat, hby]; rfl
  have happ : appendedTo t p (tr ++ [(.next k, .found (.record rec))]) = appendedTo t p tr :=
    appendedTo_concat_of_none fun _ => rfl
  have htake : (appendedTo t p tr).take (rec.offset + 1 - w) =
      (appendedTo t p tr).take (rec.offset - w) ++ [rec] := by
    rw [Nat.sub_add_comm (by omega), List.take_add_one, hrec]
    rfl
  refine ⟨by omega, by rw [happ]; omega, ?_, fun x hx hlt hnear => ?_, fun hup => ?_⟩
  · rw [hgiven, happ, hplace, htake]
    refine .append (h.returned.trans ?_) (.refl _)
    exact (List.take_prefix_take_left (by omega)).sublist
  · rw [hgiven, List.mem_append, List.mem_singleton]
    rw [happ] at hx hnear
    rw [hplace] at hlt
    by_cases hold : x.offset < place k w tr
    · exact .inl (h.kept x hx hold hnear)
    · right
      obtain ⟨j, hj⟩ := List.mem_iff_getElem?.1 hx
      have hxo := hnum j x hj
      have hjo : j = rec.offset - w := by omega
      rw [hjo, hrec] at hj
      exact (Option.some.inj hj).symm
  · have hnear := hup.of_concat tr List.prefix_rfl
    have hat : rec.offset = place k w tr := by omega
    rw [hgiven, happ, hplace, htake, h.complete hup.of_concat, hat]

theorem Given.sublist (h : Given retention t p k w tr) :
    (Log.returned k tr).Sublist (appendedTo t p tr) :=
  h.returned.trans (List.take_sublist ..)

theorem Numbered.pairwise (h : Numbered t p w tr) :
    (appendedTo t p tr).Pairwise fun x y => x.offset < y.offset := by
  apply List.pairwise_iff_getElem.2
  intro i j hi hj hij
  rw [h i _ (List.getElem?_eq_getElem hi), h j _ (List.getElem?_eq_getElem hj)]
  exact Nat.add_lt_add_left hij w

theorem Given.increasing (h : Given retention t p k w tr) (hnum : Numbered t p w tr) :
    (Log.returned k tr).Pairwise fun x y => x.offset < y.offset :=
  hnum.pairwise.sublist h.sublist

theorem Given.le_offset (h : Given retention t p k w tr) (hnum : Numbered t p w tr) {rec : Record}
    (hrec : rec ∈ Log.returned k tr) : w ≤ rec.offset := by
  obtain ⟨j, hj⟩ := List.mem_iff_getElem?.1 (h.sublist.subset hrec)
  rw [hnum j rec hj]
  exact Nat.le_add_right ..

theorem Given.place_mono (h : Given retention t p k w (tr ++ tr'))
    (hnum : Numbered t p w (tr ++ tr')) : place k w tr ≤ place k w (tr ++ tr') := by
  have hinc := h.increasing hnum
  have hle : ∀ rec ∈ Log.returned k (tr ++ tr'), w ≤ rec.offset := fun _ => h.le_offset hnum
  have happ : Log.returned k (tr ++ tr') = Log.returned k tr ++ Log.returned k tr' :=
    List.filterMap_append ..
  rw [happ] at hinc hle
  rw [place, place, happ]
  obtain hnil | ⟨rest, z, hz⟩ := List.eq_nil_or_concat' (Log.returned k tr')
  · rw [hnil, List.append_nil]
  · have hmem : z ∈ Log.returned k tr' := by rw [hz]; exact List.mem_append_right _ (.head _)
    rw [hz, ← List.append_assoc, List.getLast?_concat]
    cases hx : (Log.returned k tr).getLast? with
    | none => exact Nat.le_succ_of_le (hle z (List.mem_append_right _ hmem))
    | some x =>
      have hlt := (List.pairwise_append.1 hinc).2.2 x (List.mem_of_getLast? hx) z hmem
      exact Nat.le_succ_of_le hlt

end

namespace Session

/-- Reader `k` stands past the last of the records it was given. -/
structure Reads (retention : Nat) (t : String) (i p k w : Nat) (tr : List (Op × Reply))
    (s : Session) : Prop extends Given retention t p k w tr where
  cursor : s.readers.find? k = if dropped k tr then none else some ⟨i, p, place k w tr⟩
  opened : k < s.opened

section
variable {retention i n p k w : Nat} {t : String} {base : Nat → List Record}
  {tr : List (Op × Reply)} {hist hist' : List (Nat × Record)} {s s' : Session} {op : Op} {r : Reply}

theorem Lasts.numbered (h : s.Lasts retention t i n base tr hist) (hw : (base p).length = w) :
    Numbered t p w tr :=
  fun _ _ hj => hw ▸ h.offset hj

theorem Reads.keep (h : s.Reads retention t i p k w tr)
    (hl : s'.Lasts retention t i n base (tr ++ [(op, r)]) hist') (hw : (base p).length = w)
    (hcursor : s'.readers.find? k =
      if (op, r) = (.drop k, .done) then none else s.readers.find? k)
    (hopened : s.opened ≤ s'.opened) (hnone : returnedBy k (op, r) = none) :
    s'.Reads retention t i p k w (tr ++ [(op, r)]) where
  toGiven := h.toGiven.keep (hl.numbered hw) hnone
  cursor := by
    rw [hcursor, h.cursor, dropped_concat, place_concat, hnone]
    by_cases hop : (op, r) = (.drop k, .done) <;> simp [hop]
  opened := Nat.lt_of_lt_of_le h.opened hopened

theorem Reads.found (h : s.Reads retention t i p k w tr)
    (hl : s.Lasts retention t i n base tr hist) (hw : (base p).length = w) {rec : Record}
    (hr : s.log.read ⟨i, p, place k w tr⟩ = .record rec) :
    rec.offset = max (place k w tr) (w + (appendedTo t p tr).length - windowSize retention) ∧
      (appendedTo t p tr)[rec.offset - w]? = some rec := by
  obtain ⟨q, hq, -, ho, hlt, hrec⟩ := hl.keeps.read hr
  have hnext := hl.next rfl hq
  have hle := h.le_place
  simp only at ho hnext hrec
  rw [hw] at hnext
  rw [hnext] at ho
  refine ⟨ho, ?_⟩
  rw [hl.records, List.getElem?_append_right (by omega), hw] at hrec
  exact hrec

theorem Reads.returns (h : s.Reads retention t i p k w tr)
    (hl : s.Lasts retention t i n base tr hist) (hw : (base p).length = w) {rec : Record}
    (hdrop : dropped k tr = false)
    (hr : s.log.read ⟨i, p, place k w tr⟩ = .record rec) :
    ({ s with readers := s.readers.insert k ((⟨i, p, place k w tr⟩ : Cursor).past rec) } :
      Session).Reads retention t i p k w (tr ++ [(.next k, .found (.record rec))]) where
  toGiven := by
    obtain ⟨ho, hrec⟩ := h.found hl hw hr
    exact h.toGiven.returns (hl.numbered hw) ho hrec
  cursor := by
    have hby : returnedBy k (.next k, .found (.record rec)) = some rec := if_pos rfl
    rw [Table.find?_insert, if_pos rfl, dropped_concat, hdrop, place_concat, hby]
    rfl
  opened := h.opened

theorem Reads.step (h : s.Reads retention t i p k w tr)
    (hl : s.Lasts retention t i n base tr hist) (hw : (base p).length = w)
    (hd : s.Does op r s') : s'.Reads retention t i p k w (tr ++ [(op, r)]) := by
  obtain ⟨hist', hl'⟩ := hl.step hd
  cases hd with
  | opens ht =>
    refine h.keep hl' hw ?_ (Nat.le_succ _) rfl
    rw [Table.find?_insert, if_neg (Nat.ne_of_gt h.opened), if_neg (by simp)]
  | @returns j c rec hj hr =>
    by_cases hjk : j = k
    · subst hjk
      rw [h.cursor] at hj
      cases hdrop : dropped j tr with
      | true => simp [hdrop] at hj
      | false =>
        simp only [hdrop, Bool.false_eq_true, if_false, Option.some.injEq] at hj
        subst hj
        exact h.returns hl hw hdrop hr
    · refine h.keep hl' hw ?_ (Nat.le_refl _) (if_neg hjk)
      rw [Table.find?_insert, if_neg hjk, if_neg (by simp)]
  | @drops j =>
    refine h.keep hl' hw ?_ (Nat.le_refl _) rfl
    rw [Table.find?_erase]
    by_cases hj : j = k <;> simp [hj]
  | fails =>
    exact h.keep hl' hw (if_neg (by simp)).symm (Nat.le_refl _) (by cases op <;> rfl)
  | creates | deletes | produces | counts | waits | ends | lacks | closes =>
    exact h.keep hl' hw (if_neg (by simp)).symm (Nat.le_refl _) rfl

theorem Reads.after (h : s.Reads retention t i p k w tr)
    (hl : s.Lasts retention t i n base tr hist) (hw : (base p).length = w) (ops : List Op) :
    (after Session.step s ops).Reads retention t i p k w (tr ++ trace Session.step s ops) := by
  induction ops generalizing s tr hist with
  | nil => rwa [trace, List.append_nil]
  | cons op ops ih =>
    obtain ⟨hist', hl'⟩ := hl.step (s.step_does op)
    rw [trace, List.append_cons]
    exact ih (h.step hl hw (s.step_does op)) hl'

theorem Reads.next (h : s.Reads retention t i p k w tr) (hdrop : dropped k tr = false) :
    (s.step (.next k)).1 = .found (s.log.read ⟨i, p, place k w tr⟩) := by
  have hc := h.cursor
  rw [hdrop, if_neg nofun] at hc
  simp only [Session.step, hc]
  cases s.log.read ⟨i, p, place k w tr⟩ <;> rfl

end

theorem reads_of_tail {retention k p : Nat} {t : String} {hist : List (Nat × Record)} {s : Session}
    (h : s.log.Keeps retention hist) (hopened : (s.step (.tail t p)).1 = .opened k) :
    ∃ i n w, s.log.mark? t p = some w ∧ p < n ∧ (recordsAt hist i p).length = w ∧
      (s.step (.tail t p)).2.Lasts retention t i n (recordsAt hist i) [] hist ∧
      (s.step (.tail t p)).2.Reads retention t i p k w [] := by
  cases ht : s.log.tail t p with
  | error e => simp [step, ht] at hopened
  | ok c =>
    obtain ⟨i, inc, q, hf, hq, rfl⟩ := tail_ok ht
    obtain ⟨hopen, htop, hinc⟩ := find_eq_ok.1 hf
    have hat : ∀ o, s.log.partition? ⟨i, p, o⟩ = some q :=
      fun o => partition?_eq_some.2 ⟨inc, hinc, hq⟩
    have hmark : s.log.mark? t p = some q.next := by simp [mark?_eq, hopen, htop, hat]
    have hlasts := lasts_of_find h hf
    simp only [step, ht, Reply.opened.injEq] at hopened ⊢
    subst hopened
    refine ⟨i, inc.partitions.size, q.next, hmark, (Array.getElem?_eq_some_iff.1 hq).1,
      (h.holds _ q (hat 0)).length, ⟨h, hlasts.incarnation, hlasts.current, hlasts.records⟩,
      ⟨given_nil retention t p s.opened q.next, ?_, Nat.lt_succ_self _⟩⟩
    rw [Table.find?_insert, if_pos rfl]
    rfl

/-! ### The law of a reader -/

/-- What reader `k` was given over `tr`, since it was opened while the high watermark of partition
`p` was `w`, and what it is given next. -/
structure Follows (retention : Nat) (t : String) (p k w : Nat) (tr : List (Op × Reply))
    (s : Session) : Prop extends Given retention t p k w tr where
  /-- Once the topic is gone, `appendedTo` does not grow: this was the last high watermark. -/
  watermark : isGone t tr = false → s.log.mark? t p = some (w + (appendedTo t p tr).length)
  record : place k w tr < w + (appendedTo t p tr).length →
    ∃ rec, (s.step (.next k)).1 = .found (.record rec) ∧
      rec.offset =
        max (place k w tr) (w + (appendedTo t p tr).length - windowSize retention) ∧
      (appendedTo t p tr)[rec.offset - w]? = some rec
  pending : place k w tr = w + (appendedTo t p tr).length → isGone t tr = false →
    (s.step (.next k)).1 = .found .pending
  ended : place k w tr = w + (appendedTo t p tr).length → isGone t tr = true →
    ∀ ops, .drop k ∉ ops → ((after step s ops).step (.next k)).1 = .found .ended
  increasing : (Log.returned k tr).Pairwise fun x y => x.offset < y.offset
  later : ∀ rec ∈ Log.returned k tr, w ≤ rec.offset

theorem dropped_trace (s : Session) {k : Nat} {ops : List Op} (h : .drop k ∉ ops) :
    dropped k (trace step s ops) = false := by
  induction ops generalizing s with
  | nil => rfl
  | cons op ops ih =>
    rw [List.mem_cons, not_or] at h
    have hop : ¬op = .drop k := fun he => h.1 he.symm
    simpa [trace, dropped, hop] using ih (s.step op).2 h.2

theorem Reads.follows {retention i n p k w : Nat} {t : String} {base : Nat → List Record}
    {tr : List (Op × Reply)} {hist : List (Nat × Record)} {s : Session}
    (h : s.Reads retention t i p k w tr) (hl : s.Lasts retention t i n base tr hist)
    (hw : (base p).length = w) (hp : p < n) (hdrop : dropped k tr = false) :
    s.Follows retention t p k w tr where
  toGiven := h.toGiven
  watermark hg := by
    simp [mark?, hl.highWatermarks hg, Except.toOption, hp, hw]
  record hlt := by
    obtain ⟨rec, hr⟩ := hl.read_of_lt hp (by rw [hw]; exact hlt)
    obtain ⟨ho, hrec⟩ := h.found hl hw hr
    exact ⟨rec, by rw [h.next hdrop, hr], ho, hrec⟩
  pending hend hg := by
    have hr := hl.read_end hp
    rw [hw, ← hend, hg] at hr
    rw [h.next hdrop, hr]
    rfl
  ended hend hg ops hops := by
    obtain ⟨hist', hl'⟩ := hl.after ops
    have h' := h.after hl hw ops
    have hdrop' : dropped k (tr ++ trace Session.step s ops) = false := by
      rw [dropped, List.any_append, Bool.or_eq_false_iff]
      exact ⟨hdrop, dropped_trace s hops⟩
    have hg' : isGone t (tr ++ trace Session.step s ops) = true := by
      rw [isGone, List.any_append, Bool.or_eq_true]
      exact .inl hg
    have happ : appendedTo t p (tr ++ trace Session.step s ops) = appendedTo t p tr := by
      rw [appendedTo, appended_append, hg]
      simp [appendedTo]
    -- The reader cannot go on, as it is at the end, and it does not go back.
    have hplace : place k w (tr ++ trace Session.step s ops) = w + (appendedTo t p tr).length := by
      have hle := h'.place_le
      have hmono := h'.place_mono (hl'.numbered hw)
      rw [happ] at hle
      omega
    have hr := hl'.read_end hp
    rw [hw, happ, ← hplace, hg'] at hr
    rw [h'.next hdrop', hr]
    rfl
  increasing := h.increasing (hl.numbered hw)
  later _ := h.le_offset (hl.numbered hw)

theorem follows_of_opened {retention k p : Nat} {t : String} {ops : List Op}
    (h : ((after step (new retention) ops).step (.tail t p)).1 = .opened k) :
    let s := ((after step (new retention) ops).step (.tail t p)).2
    IsLeast {m | max retention 1 ≤ m ∧ m.isPowerOfTwo} (windowSize retention) ∧
    ∃ w, (after step (new retention) ops).log.mark? t p = some w ∧
      ∀ later, .drop k ∉ later →
        (after step s later).Follows retention t p k w (trace step s later) := by
  obtain ⟨hist, hkeeps⟩ := keeps_after retention ops
  obtain ⟨i, n, w, hmark, hp, hw, hlasts, hreads⟩ := reads_of_tail hkeeps h
  refine ⟨isLeast_windowSize retention, w, hmark, fun later hlater => ?_⟩
  obtain ⟨hist', hl⟩ := hlasts.after later
  exact (hreads.after hlasts hw later).follows hl hw hp (dropped_trace _ hlater)

def unread : List Op := [.create "t" 1, .produce "t" "k" [0], .produce "t" "k" [1]]

/-- Six records for a reader whose window has four. Another reader comes and goes, and the topic is
created anew, before the first reader has come to its end. -/
def outrun : List Op :=
  (List.range 6).map (fun n => .produce "t" "k" [n.toUInt8]) ++
    [.next 0, .tail "t" 0, .next 0, .next 1, .drop 1, .delete "t", .create "t" 1,
      .produce "t" "k" [9], .next 0, .next 0]

theorem follows_of_opened_of_lag :
    ((after step (new 3) unread).step (.tail "t" 0)).1 = .opened 0 ∧ .drop 0 ∉ outrun ∧
    let s := ((after step (new 3) unread).step (.tail "t" 0)).2
    (after step s outrun).Follows 3 "t" 0 0 2 (trace step s outrun) ∧
      (returned 0 (trace step s outrun)).map Record.offset = [4, 5, 6, 7] ∧
      ((after step s outrun).step (.next 0)).1 = .found .ended := by
  have hopened : ((after step (new 3) unread).step (.tail "t" 0)).1 = .opened 0 := by
    decide +kernel
  have hopen : .drop 0 ∉ outrun := by decide +kernel
  obtain ⟨-, w, hw, hfollows⟩ := follows_of_opened hopened
  have hmark : (after step (new 3) unread).log.mark? "t" 0 = some 2 := by decide +kernel
  obtain rfl := Option.some.inj (hw.symm.trans hmark)
  have hall := hfollows outrun hopen
  have hended := hall.ended (by decide +kernel) (by decide +kernel) [] List.not_mem_nil
  rw [after] at hended
  exact ⟨hopened, hopen, hall, by decide +kernel, hended⟩

end Session
end EventRelay.Log
