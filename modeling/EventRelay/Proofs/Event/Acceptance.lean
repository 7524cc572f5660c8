import EventRelay.Proofs.Event.Canonical
/-!
Which payloads are accepted, and what encoding makes of an accepted one. Main statement:
`accepts_forms`.
-/
namespace EventRelay

namespace Binary

theorem IsText.length_ge {s : String} {bs : List UInt8} (h : IsText s bs) : 8 ≤ bs.length := by
  cases h with
  | mk h =>
    rw [List.length_append, h.length]
    exact Nat.le_add_right ..

theorem AreEntries.length_ge {es : List (String × String)} {bs : List UInt8}
    (h : AreEntries es bs) : 16 * es.length ≤ bs.length := by
  induction h with
  | nil => exact Nat.le_refl _
  | cons hk hv _ ih =>
    have hkey := hk.length_ge
    have hvalue := hv.length_ge
    simp only [List.length_append, List.length_cons]
    omega

theorem IsEvent.count_le {m : Event} {es : List (String × String)}
    {front variant number count rest : List UInt8} (h : IsEvent m es front)
    (hp : front <+: variant ++ number ++ count ++ rest) (hvariant : IsNumber 4 1 variant)
    (hnumber : number.length = 4) (hcount : count.length = 8) :
    16 * ofLe count ≤ rest.length := by
  obtain ⟨tail, heq⟩ := hp
  cases h with
  | object hvariant' hkind hnumber' =>
    simp only [List.append_assoc] at heq
    obtain ⟨rfl, -⟩ := List.append_inj heq (hvariant'.length.trans hvariant.length.symm)
    have hfalse := hvariant'.value.symm.trans hvariant.value
    cases hfalse
  | content hvariant' hnumber' hcount' hentries hlast =>
    simp only [List.append_assoc] at heq
    obtain ⟨-, heq⟩ := List.append_inj heq (hvariant'.length.trans hvariant.length.symm)
    obtain ⟨-, heq⟩ := List.append_inj heq (hnumber'.trans hnumber.symm)
    obtain ⟨rfl, rfl⟩ := List.append_inj heq (hcount'.length.trans hcount.symm)
    have hroom := hentries.length_ge
    rw [hcount'.value, List.length_append]
    omega

end Binary

namespace Event
open Binary

/-- A payload is accepted for the bytes of an event at its front, and refused if there are none, as
when it counts more entries than there is room for. What was accepted is encoded in no more bytes,
and in the same ones if the keys ascend in them. -/
theorem accepts_forms (p : List UInt8) :
    (∀ m, decode p = .ok m ↔ ∃ es front, IsEvent m es front ∧ front <+: p) ∧
    ((∀ m es front, IsEvent m es front → ¬front <+: p) →
      ∃ reason, decode p = .error (.deserialization reason)) ∧
    (∀ variant number count rest, p = variant ++ number ++ count ++ rest →
      IsNumber 4 1 variant → number.length = 4 → count.length = 8 →
      rest.length < 16 * ofLe count → ∃ reason, decode p = .error (.deserialization reason)) ∧
    ∀ m es front, IsEvent m es front → front <+: p →
      read p = .ok (m, p.drop front.length) ∧ (encode m).length ≤ p.length ∧
      decode (encode m) = .ok m ∧ ((es.map Prod.fst).Pairwise KeyLt → encode m = front) := by
  have hnone (h : ∀ m es front, IsEvent m es front → ¬front <+: p) :
      ∃ reason, decode p = .error (.deserialization reason) := by
    refine decode_refused fun m hd => ?_
    obtain ⟨es, front, hm, hp⟩ := decode_eq_ok_iff.1 hd
    exact h m es front hm hp
  refine ⟨fun m => decode_eq_ok_iff, hnone, ?_, fun m es front hm hp => ⟨?_, ?_, ?_, ?_⟩⟩
  · intro variant number count rest heq hvariant hnumber hcount hroom
    refine hnone fun m es front hm hp => ?_
    exact Nat.not_le_of_lt hroom (hm.count_le (heq ▸ hp) hvariant hnumber hcount)
  · obtain ⟨rest, rfl⟩ := hp
    rw [List.drop_left]
    exact hm.read rest
  · exact Nat.le_trans hm.length_encode_le hp.length_le
  · exact decode_eq_ok_iff.2 ⟨_, _, isEvent_encode hm.fits, List.prefix_rfl⟩
  · exact fun hes => (hm.eq_encode hes).symm

/-- Of the entries of a key the last one counts. -/
example : decode (le 4 1 ++ le 4 7 ++ le 8 3 ++
    [("b", "1"), ("a", "2"), ("b", "3")].flatMap entry ++ [255]) =
      .ok (.content 7 (.ofList [("a", "2"), ("b", "3")])) := by decide +kernel

end Event
end EventRelay
