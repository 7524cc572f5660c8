import EventRelay.Proofs.Event.Canonical
import Mathlib.Data.List.Dedup
/-!
What pairs of keys and values come to in the bytes of content: each key once, with its last value,
and the keys ascend. Main statement: `encode_content_eq_iff`.
-/
namespace EventRelay

def lastValue? (ps : List (String × String)) (k : String) : Option String := ps.reverse.lookup k

/-- The entries `es` are what the pairs `ps` come to. -/
structure Condenses (ps es : List (String × String)) : Prop where
  ascending : (es.map Prod.fst).Pairwise KeyLt
  last : ∀ k v, (k, v) ∈ es ↔ lastValue? ps k = some v
  /-- There are as many entries as there are different keys. -/
  count : es.length = (ps.map Prod.fst).dedup.length

section
variable {ps ps' : List (String × String)} {k v : String}

theorem mem_of_lastValue? (h : lastValue? ps k = some v) : (k, v) ∈ ps :=
  List.mem_reverse.1 (Binary.mem_of_lookup h)

theorem exists_lastValue? (h : k ∈ ps.map Prod.fst) : ∃ v, lastValue? ps k = some v := by
  obtain ⟨e, he, rfl⟩ := List.mem_map.1 h
  apply Option.isSome_iff_exists.1
  exact List.lookup_isSome_iff.2 ⟨e, List.mem_reverse.2 he, beq_self_eq_true e.1⟩

theorem lastValue?_of_nodup (h : (ps.map Prod.fst).Nodup) :
    lastValue? ps k = some v ↔ (k, v) ∈ ps := by
  constructor
  · exact mem_of_lastValue?
  · intro hmem
    obtain ⟨w, hw⟩ := exists_lastValue? (List.mem_map_of_mem (f := Prod.fst) hmem)
    have hsame : (k, v) = (k, w) := List.inj_on_of_nodup_map h hmem (mem_of_lastValue? hw) rfl
    rw [hw, (Prod.mk.inj hsame).2]

theorem lastValue?_of_perm (h : (ps.map Prod.fst).Nodup) (hp : ps.Perm ps') :
    lastValue? ps k = lastValue? ps' k := by
  have h' : (ps'.map Prod.fst).Nodup := (hp.map Prod.fst).nodup_iff.1 h
  apply Option.ext
  intro v
  rw [lastValue?_of_nodup h, lastValue?_of_nodup h', hp.mem_iff]

end

namespace Attributes

theorem ofList_eq_iff {ps ps' : List (String × String)} :
    ofList ps = ofList ps' ↔ ∀ k, lastValue? ps k = lastValue? ps' k := by
  constructor
  · intro h k
    rw [lastValue?, ← Binary.find?_ofList, h, Binary.find?_ofList, lastValue?]
  · intro h
    apply ext_find?
    intro k
    rw [Binary.find?_ofList, Binary.find?_ofList]
    exact h k

theorem mem_entries_iff {t : Attributes} {k v : String} :
    (k, v) ∈ t.entries ↔ t.find? k = some v := by
  constructor
  · exact Binary.find?_of_mem
  · intro h
    rw [find?, ← Binary.lookup_reverse t.sorted] at h
    exact mem_of_lastValue? h

theorem condenses_ofList (ps : List (String × String)) : Condenses ps (ofList ps).entries := by
  have hlast (k v : String) : (k, v) ∈ (ofList ps).entries ↔ lastValue? ps k = some v := by
    rw [mem_entries_iff, Binary.find?_ofList, lastValue?]
  refine ⟨(ofList ps).sorted, hlast, ?_⟩
  -- The keys of the entries are those of the pairs, and neither list repeats one.
  have hnodup : ((ofList ps).entries.map Prod.fst).Nodup := (ofList ps).sorted.imp KeyLt.ne
  have hperm : ((ofList ps).entries.map Prod.fst).Perm (ps.map Prod.fst).dedup := by
    rw [List.perm_ext_iff_of_nodup hnodup (List.nodup_dedup _)]
    intro k
    rw [List.mem_dedup]
    constructor
    · intro hk
      obtain ⟨e, he, rfl⟩ := List.mem_map.1 hk
      exact List.mem_map_of_mem (mem_of_lastValue? ((hlast e.1 e.2).1 he))
    · intro hk
      obtain ⟨v, hv⟩ := exists_lastValue? hk
      exact List.mem_map_of_mem (f := Prod.fst) ((hlast k v).2 hv)
  rw [← hperm.length_eq, List.length_map]

end Attributes

namespace Event
open Binary

/-- Pairs have the same bytes if and only if they give each key the same last value. The bytes list
what the pairs come to, so that their order does not count unless a key occurs twice. -/
theorem encode_content_eq_iff {kind : Int32} {ps ps' : List (String × String)}
    (h : (content kind (.ofList ps)).Fits) (h' : (content kind (.ofList ps')).Fits) :
    (encode (content kind (.ofList ps)) = encode (content kind (.ofList ps')) ↔
      ∀ k, lastValue? ps k = lastValue? ps' k) ∧
    (∃ es, Condenses ps es ∧
      IsEvent (content kind (.ofList ps)) es (encode (content kind (.ofList ps)))) ∧
    ((ps.map Prod.fst).Nodup → ps.Perm ps' →
      encode (content kind (.ofList ps)) = encode (content kind (.ofList ps'))) := by
  have hiff : encode (content kind (.ofList ps)) = encode (content kind (.ofList ps')) ↔
      ∀ k, lastValue? ps k = lastValue? ps' k := by
    rw [← Attributes.ofList_eq_iff]
    constructor
    · intro heq
      have hp := (isEvent_encode h).eq_of_front (isEvent_encode h') (heq ▸ List.prefix_rfl)
      exact (content.inj hp.1).2
    · intro heq
      rw [heq]
  refine ⟨hiff, ⟨_, Attributes.condenses_ofList ps, isEvent_encode h⟩, fun hnodup hp => ?_⟩
  exact hiff.2 fun k => lastValue?_of_perm hnodup hp

/-- A key that occurs twice, and characters of one and of three bytes, which ascend by their
bytes. -/
def remarks : List (String × String) := [("€", "1"), ("to", "9"), ("€", "2")]

theorem encode_content_eq_iff_of_remarks :
    (content 3 (.ofList remarks)).Fits ∧
    (content 3 (.ofList [("€", "2"), ("to", "9")])).Fits ∧
    encode (content 3 (.ofList remarks)) = encode (content 3 (.ofList [("€", "2"), ("to", "9")])) ∧
    (content 3 (.ofList remarks.reverse)).Fits ∧
    encode (content 3 (.ofList remarks)) ≠ encode (content 3 (.ofList remarks.reverse)) := by
  have hfits : (content 3 (.ofList remarks)).Fits :=
    ⟨by decide +kernel, by decide +kernel, by decide +kernel⟩
  have hshort : (content 3 (.ofList [("€", "2"), ("to", "9")])).Fits :=
    ⟨by decide +kernel, by decide +kernel, by decide +kernel⟩
  have hback : (content 3 (.ofList remarks.reverse)).Fits :=
    ⟨by decide +kernel, by decide +kernel, by decide +kernel⟩
  have hsame : Attributes.ofList remarks = .ofList [("€", "2"), ("to", "9")] := by decide +kernel
  refine ⟨hfits, hshort, (encode_content_eq_iff hfits hshort).1.2 ?_, hback, fun heq => ?_⟩
  · exact Attributes.ofList_eq_iff.1 hsame
  · have hlast := (encode_content_eq_iff hfits hback).1.1 heq "€"
    revert hlast
    decide

end Event
end EventRelay
