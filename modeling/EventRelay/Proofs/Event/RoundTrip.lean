import EventRelay.Proofs.Event.Canonical
/-!
An event reads back from its bytes, whatever stands behind them, and from nothing less. Main
statement: `reads_back`.
-/
namespace EventRelay.Event
open Binary

theorem reads_back {m : Event} (h : m.Fits) :
    (∀ t, decode (encode m ++ t) = .ok m) ∧
    (∀ p, p <+: encode m → p ≠ encode m →
      ∃ reason, decode p = .error (.deserialization reason)) ∧
    (∀ m', m'.Fits → encode m' = encode m → m' = m) ∧
    (∀ m', m'.Fits → encode m' <+: encode m → encode m' = encode m) := by
  have hm := isEvent_encode h
  refine ⟨fun t => ?_, fun p hp hne => ?_, fun m' h' heq => ?_, fun m' h' hp => ?_⟩
  · exact decode_eq_ok_iff.2 ⟨_, _, hm, List.prefix_append _ t⟩
  · refine decode_refused fun m' hd => hne ?_
    obtain ⟨es, front, hm', hfront⟩ := decode_eq_ok_iff.1 hd
    -- What was read of the shorter bytes would be all of the event.
    obtain ⟨-, rfl⟩ := hm'.eq_of_front hm (hfront.trans hp)
    exact hp.eq_of_length_le hfront.length_le
  · exact ((isEvent_encode h').eq_of_front hm (heq ▸ List.prefix_rfl)).1
  · exact ((isEvent_encode h').eq_of_front hm hp).2

/-- Keys and values take from one to four bytes per character, and the kind is negative. -/
def greeting : Event := .content (-2) (.ofList [("text", "hé € 😀"), ("from", "9")])

theorem reads_back_of_greeting : greeting.Fits ∧
    decode (encode greeting ++ [255]) = .ok greeting ∧
    ∃ reason, decode (encode greeting).dropLast = .error (.deserialization reason) := by
  have hfits : greeting.Fits := ⟨by decide +kernel, by decide +kernel, by decide +kernel⟩
  obtain ⟨hback, hshort, -⟩ := reads_back hfits
  exact ⟨hfits, hback [255], hshort _ (List.dropLast_prefix _) (by decide +kernel)⟩

end EventRelay.Event
