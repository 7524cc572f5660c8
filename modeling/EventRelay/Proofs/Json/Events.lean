import EventRelay.Proofs.Event.Canonical
import EventRelay.Proofs.Json.Refusal
/-!
Events and channels in JSON text. Main statement: `read_of_spaced`, what is written is read back,
and so is the same value spelled and laid out in any other way.
-/
namespace EventRelay.Json
open Outcome

/-- An object of texts; of those by the same name the last one counts. -/
inductive IsAttributes (t : Attributes) : List Char → Prop
  | mk {ms : List (String × List Char)} {es : List (String × String)} {cs : List Char}
      (h : IsObject ms cs) (hes : List.Forall₂ (fun e m => e.1 = m.1 ∧ IsText e.2 m.2) es ms)
      (ht : .ofList es = t) : IsAttributes t cs

inductive IsEvent : Event → List Char → Prop
  | object {change : Change} {id : Int64} {v cs : List Char} (h : IsObject [("Object", v)] cs)
      (hv : IsStruct "type" "id" (IsText (changeName change)) (· = integer id.toInt) v) :
      IsEvent (.object change id) cs
  | content {kind : Int32} {t : Attributes} {v cs : List Char} (h : IsObject [("Content", v)] cs)
      (hv : IsStruct "type" "attributes" (· = integer kind.toInt) (IsAttributes t) v) :
      IsEvent (.content kind t) cs

inductive FlawedEvent : List Char → Prop
  | object {v cs : List Char} (h : IsObject [("Object", v)] cs) (hv : Flawed "type" "id" v) :
      FlawedEvent cs
  | content {v cs : List Char} (h : IsObject [("Content", v)] cs)
      (hv : Flawed "type" "attributes" v) : FlawedEvent cs

def IsChannel (c : Channel) : List Char → Prop :=
  IsStruct "topic" "name" (IsText c.topic) (IsText c.name)

def Spaced (V : List Char → Prop) (s : String) : Prop :=
  ∃ a v b, Space a ∧ V v ∧ Space b ∧ s.toList = a ++ (v ++ b)

/-! ### Values -/

theorem IsText.starts {s : String} {v : List Char} (h : IsText s v) : Starts v := by
  obtain ⟨cs, -, rfl⟩ := h
  exact ⟨_, _, rfl, rfl, by decide⟩

theorem reads_text (s : String) : Reads text s (IsText s) :=
  ⟨fun _ h => h.starts, fun _ _ rest h hws _ => text_of_isText h hws rest⟩

theorem changeOf?_changeName (c : Change) : changeOf? (changeName c) = some c := by
  cases c <;> rfl

theorem reads_change (c : Change) : Reads change c (IsText (changeName c)) := by
  refine ⟨fun _ h => h.starts, fun v ws rest h hws _ => ?_⟩
  obtain ⟨cs, hcs, rfl⟩ := h
  rw [List.cons_append, List.append_assoc, change, skipSpace_mark hws rfl]
  simp only [if_true, List.singleton_append, quoted_of_spells hcs, ok_bind, changeOf?_changeName]
  rfl

theorem integer_first (n : Int) : ∃ c r, integer n = c :: r ∧ (c = '-' ∨ c.isDigit = true) := by
  cases n with
  | ofNat m =>
    obtain ⟨c, r, h⟩ := List.exists_cons_of_ne_nil (Nat.toDigits_ne_nil (b := 10) (n := m))
    have hc : c ∈ Nat.toDigits 10 m := by
      rw [h]
      exact List.mem_cons_self
    exact ⟨c, r, h, .inr ((digits_toDigits m).2 c hc)⟩
  | negSucc m => exact ⟨'-', _, rfl, .inl rfl⟩

theorem reads_integer {lo hi n : Int} (hlo : lo ≤ n) (hhi : n ≤ hi)
    (hmin : Int64.minValue.toInt ≤ lo) (hmax : hi ≤ Int64.maxValue.toInt) :
    Reads (integerIn lo hi) n (· = integer n) := by
  obtain ⟨c, r, hn, hc⟩ := integer_first n
  obtain ⟨hspace, hbracket, -⟩ := starts_number hc
  refine ⟨fun v hv => ⟨c, r, hv.trans hn, hspace, hbracket⟩, fun v ws rest hv hws hr => ?_⟩
  have hnumber := number_integer (Int.le_trans hmin hlo) (Int.le_trans hhi hmax) hr
  rw [hn] at hnumber hv
  subst hv
  rw [List.cons_append, integerIn, skipSpace_mark hws hspace]
  simp only [if_pos hc, ← List.cons_append, hnumber, ok_bind, hlo, hhi, and_self, if_true]
  rfl

theorem reads_attributes (t : Attributes) : Reads attributesText t (IsAttributes t) := by
  constructor
  · intro v hv
    obtain ⟨h, -, -⟩ := hv
    exact h.starts
  · intro v ws rest hv hws _
    obtain ⟨h, hes, rfl⟩ := hv
    cases h with
    | @mk cs h =>
      have hlen := h.length_lt
      have hfuel : ∀ r : List Char, cs.length < (cs ++ r).length + 1 := by
        intro r
        rw [List.length_append]
        omega
      have hentries := entries_append h hes (Nat.lt_trans hlen (hfuel rest)) rest
      rw [List.cons_append, attributesText, skipSpace_mark hws rfl]
      simp only [if_true, hentries]
      rfl

theorem reads_objectEvent (change : Change) (id : Int64) :
    Reads objectEvent (.object change id)
      (IsStruct "type" "id" (IsText (changeName change)) (· = integer id.toInt)) := by
  have hrecord := (reads_change change).record (reads_integer id.minValue_le_toInt id.toInt_le
    (Int.le_refl _) (Int.le_refl _)) (by decide : "type" ≠ "id")
  refine ⟨hrecord.starts, fun v ws rest hv hws hr => ?_⟩
  rw [objectEvent, hrecord.reads v ws rest hv hws hr, ok_bind]
  exact congrArg (fun n => Except.ok (Event.object change n, rest)) (Int64.ofInt_toInt id)

theorem reads_contentEvent (kind : Int32) (t : Attributes) :
    Reads contentEvent (.content kind t)
      (IsStruct "type" "attributes" (· = integer kind.toInt) (IsAttributes t)) := by
  have hrecord := (reads_integer kind.minValue_le_toInt kind.toInt_le (by decide)
    (by decide)).record (reads_attributes t) (by decide : "type" ≠ "attributes")
  refine ⟨hrecord.starts, fun v ws rest hv hws hr => ?_⟩
  rw [contentEvent, hrecord.reads v ws rest hv hws hr, ok_bind]
  exact congrArg (fun n => Except.ok (Event.content n t, rest)) (Int32.ofInt_toInt kind)

/-! ### Events -/

theorem eventText_member {k : String} {p : Parse Event} {v cs ws : List Char}
    (hk : k = "Object" ∧ p = objectEvent ∨ k = "Content" ∧ p = contentEvent)
    (h : IsObject [(k, v)] cs) (hws : Space ws) (rest : List Char) :
    ∃ c d, Space c ∧ Space d ∧ eventText (ws ++ (cs ++ rest)) =
      (p (c ++ (v ++ (d ++ '\x7d' :: rest))) >>= fun (m, r) =>
        mark '\x7d' r >>= fun (_, r) => .ok (m, r)) := by
  cases h with
  | mk h =>
    cases h with
    | @member _ a b c _ _ n _ _ ha hn hb hc h =>
      cases h with
      | @close _ d hd =>
        cases ha with
        | first ha =>
          refine ⟨c, d, hc, hd, ?_⟩
          simp only [List.append_assoc, List.cons_append, List.nil_append]
          rw [eventText, skipSpace_mark hws rfl]
          simp only [if_true, text_quoted ha hn, ok_bind]
          obtain ⟨rfl, rfl⟩ | ⟨rfl, rfl⟩ := hk
          · simp only [pure_bind, mark_of_space (c := ':') hb rfl, ok_bind]
            rfl
          · simp only [pure_bind, mark_of_space (c := ':') hb rfl, ok_bind]
            rfl

theorem reads_event (m : Event) : Reads eventText m (IsEvent m) := by
  constructor
  · intro v hv
    cases hv with
    | object h _ => exact h.starts
    | content h _ => exact h.starts
  · intro v ws rest hv hws _
    cases hv with
    | @object change id _ _ h hv =>
      obtain ⟨c, d, hc, hd, hevent⟩ := eventText_member (.inl ⟨rfl, rfl⟩) h hws rest
      rw [hevent, (reads_objectEvent change id).reads _ c _ hv hc
        (ends_of_space hd (.inr (.inr rfl)) rest), ok_bind]
      simp only [mark_of_space (c := '\x7d') hd rfl, ok_bind]
    | @content kind t _ _ h hv =>
      obtain ⟨c, d, hc, hd, hevent⟩ := eventText_member (.inr ⟨rfl, rfl⟩) h hws rest
      rw [hevent, (reads_contentEvent kind t).reads _ c _ hv hc
        (ends_of_space hd (.inr (.inr rfl)) rest), ok_bind]
      simp only [mark_of_space (c := '\x7d') hd rfl, ok_bind]

theorem eventText_of_flawed {v ws : List Char} (hv : FlawedEvent v) (hws : Space ws)
    (rest : List Char) : ∃ f, eventText (ws ++ (v ++ rest)) = .error f := by
  cases hv with
  | object h hv =>
    obtain ⟨c, d, hc, -, hevent⟩ := eventText_member (.inl ⟨rfl, rfl⟩) h hws rest
    obtain ⟨f, hf⟩ := record_of_flawed skippable_change (skippable_integerIn Int64.minValue.toInt
      Int64.maxValue.toInt) (by decide) hv hc (d ++ '\x7d' :: rest)
    refine ⟨f, hevent.trans ?_⟩
    rw [objectEvent, hf]
    rfl
  | content h hv =>
    obtain ⟨c, d, hc, -, hevent⟩ := eventText_member (.inr ⟨rfl, rfl⟩) h hws rest
    obtain ⟨f, hf⟩ := record_of_flawed (skippable_integerIn Int32.minValue.toInt
      Int32.maxValue.toInt) skippable_attributesText (by decide) hv hc (d ++ '\x7d' :: rest)
    refine ⟨f, hevent.trans ?_⟩
    rw [contentEvent, hf]
    rfl

theorem reads_channel (c : Channel) : Reads channelText c (IsChannel c) := by
  have hrecord := (reads_text c.topic).record (reads_text c.name) (by decide : "topic" ≠ "name")
  refine ⟨hrecord.starts, fun v ws rest hv hws hr => ?_⟩
  rw [channelText, hrecord.reads v ws rest hv hws hr]
  rfl

/-! ### Writing -/

theorem members_intercalate {m : String × List Char} {ms : List (String × List Char)} {first : Bool}
    {g : List Char} (hg : Gap first g) : Members IsName first (m :: ms)
      (g ++ (List.intercalate [','] ((m :: ms).map fun (k, v) => string k ++ ':' :: v) ++
        ['\x7d'])) := by
  induction ms generalizing m first g with
  | nil =>
    have h := Members.member (N := IsName) (v := m.2) hg (spells_escape m.1.toList) space_nil
      space_nil (.close space_nil)
    simpa [string] using h
  | cons m' ms ih =>
    have h := Members.member (N := IsName) (v := m.2) hg (spells_escape m.1.toList) space_nil
      space_nil (ih (m := m') (.next space_nil space_nil))
    simpa [string, List.intercalate_cons_cons] using h

theorem isObject_object (ms : List (String × List Char)) : IsObject ms (object ms) := by
  cases ms with
  | nil => exact .mk (.close space_nil)
  | cons m ms => exact .mk (members_intercalate (.first space_nil))

theorem isStruct_object {a b : String} {A B : List Char → Prop} {v w : List Char} (hab : a ≠ b)
    (hv : A v) (hw : B w) : IsStruct a b A B (object [(a, v), (b, w)]) := by
  refine .object (isObject_object _) (v := v) (w := w) ?_ hv ?_ hw ?_
  · simp [hab.symm]
  · simp [hab]
  · simp

theorem ofList_entries (t : Attributes) : .ofList t.entries = t :=
  Attributes.ext_find? fun k =>
    (Binary.find?_ofList t.entries k).trans (Binary.lookup_reverse t.sorted k)

theorem isAttributes_attributes (t : Attributes) : IsAttributes t (attributes t) := by
  refine .mk (isObject_object _) ?_ (ofList_entries t)
  rw [List.forall₂_map_right_iff, List.forall₂_same]
  exact fun e _ => ⟨rfl, isText_string e.2⟩

theorem isEvent_event (m : Event) : IsEvent m (event m) := by
  cases m with
  | object change id =>
    exact .object (isObject_object _) (isStruct_object (by decide) (isText_string _) rfl)
  | content kind t =>
    exact .content (isObject_object _) (isStruct_object (by decide) rfl (isAttributes_attributes t))

theorem isChannel_channel (c : Channel) : IsChannel c (channel c) :=
  isStruct_object (by decide) (isText_string c.topic) (isText_string c.name)

/-! ### Whole texts -/

section
variable {α : Type} {p : Parse α} {x : α} {V : List Char → Prop} {s : String}

theorem Reads.whole (hp : Reads p x V) (hs : Spaced V s) : whole p s = .ok x := by
  obtain ⟨a, v, b, ha, hv, hb, hs⟩ := hs
  rw [Json.whole, hs, hp.reads v a b hv ha hb.ends, ok_bind]
  simp only [skipSpace_eq_nil hb, if_true]
  rfl

theorem whole_of_flawed (hp : ∀ v ws rest, V v → Space ws → ∃ f, p (ws ++ (v ++ rest)) = .error f)
    (hs : Spaced V s) : ∃ f, whole p s = .error f := by
  obtain ⟨a, v, b, ha, hv, -, hs⟩ := hs
  obtain ⟨f, hf⟩ := hp v a b hv ha
  refine ⟨f, ?_⟩
  rw [Json.whole, hs, hf]
  rfl

theorem spaced_of_text {v : List Char} (hv : V v) : Spaced V (.ofList v) :=
  ⟨[], v, [], space_nil, hv, space_nil, by simp⟩

end

/-- What is written is read back, and so is every other text of the same value: with white space
between the tokens, with other escapes, with the members in another order and any JSON under other
names among them, or as an array of the members' values. A text with a member missing or repeated is
never read. -/
theorem read_of_spaced :
    (∀ m, readEvent (writeEvent m) = .ok m) ∧ (∀ c, readChannel (writeChannel c) = .ok c) ∧
    (∀ m s, Spaced (IsEvent m) s → readEvent s = .ok m) ∧
    (∀ c s, Spaced (IsChannel c) s → readChannel s = .ok c) ∧
    (∀ s, Spaced FlawedEvent s → ∃ f, readEvent s = .error f) ∧
    ∀ s, Spaced (Flawed "topic" "name") s → ∃ f, readChannel s = .error f := by
  have hevent m s (hs : Spaced (IsEvent m) s) : readEvent s = .ok m := (reads_event m).whole hs
  have hchannel c s (hs : Spaced (IsChannel c) s) : readChannel s = .ok c :=
    (reads_channel c).whole hs
  refine ⟨fun m => hevent m _ (spaced_of_text (isEvent_event m)),
    fun c => hchannel c _ (spaced_of_text (isChannel_channel c)), hevent, hchannel, ?_, ?_⟩
  · exact fun s hs => whole_of_flawed (fun v ws rest hv hws => eventText_of_flawed hv hws rest) hs
  · refine fun s hs => whole_of_flawed (fun v ws rest hv hws => ?_) hs
    obtain ⟨f, hf⟩ := record_of_flawed skippable_text skippable_text (by decide) hv hws rest
    refine ⟨f, ?_⟩
    rw [channelText, hf]
    rfl

example : readEvent "\x7b\"Object\":\x7b\"x\":[],\"id\":-1, \"type\":\"\\u0055PDATE\"\x7d\x7d" =
    .ok (.object .update (-1)) := by decide +kernel

/-- A change with an unknown member in front and the others in the other order. -/
def rearranged : List Char :=
  object [("Object", object [("x", ['[', ']']), ("id", integer (-1)), ("type", string "UPDATE")])]

def repeated : List Char := object [("topic", ['1']), ("name", ['2']), ("topic", ['3'])]

theorem read_of_spaced_of_rearranged :
    Spaced (IsEvent (.object .update (-1))) (.ofList ([' '] ++ (rearranged ++ ['\n']))) ∧
    readEvent (.ofList ([' '] ++ (rearranged ++ ['\n']))) = .ok (.object .update (-1)) ∧
    Spaced (Flawed "topic" "name") (.ofList repeated) ∧
    ∃ f, readChannel (.ofList repeated) = .error f := by
  have hstruct : IsStruct "type" "id" (IsText (changeName .update))
      (· = integer (-1 : Int64).toInt)
      (object [("x", ['[', ']']), ("id", integer (-1)), ("type", string "UPDATE")]) := by
    refine .object (isObject_object _) rfl (isText_string _) rfl rfl fun m hm htype hid => ?_
    simp only [List.mem_cons, List.not_mem_nil, or_false] at hm
    obtain rfl | rfl | rfl := hm
    · exact .array (.close space_nil) (List.forall_mem_nil _)
    · exact absurd rfl hid
    · exact absurd rfl htype
  have hspaced : Spaced (IsEvent (.object .update (-1)))
      (.ofList ([' '] ++ (rearranged ++ ['\n']))) :=
    ⟨[' '], rearranged, ['\n'], List.forall_mem_singleton.2 rfl,
      .object (isObject_object _) hstruct, List.forall_mem_singleton.2 rfl, String.toList_ofList⟩
  have hdigit {c : Char} (hc : c.isDigit = true) (hz : c ≠ '0') : IsJson [c] := by
    refine .number (.mk (.inl rfl) ⟨List.cons_ne_nil _ _, List.forall_mem_singleton.2 hc⟩
      (fun h => absurd (Option.some.inj h) hz) .none .none)
  have hflawed : Spaced (Flawed "topic" "name") (.ofList repeated) := by
    refine spaced_of_text (.object (isObject_object _) (fun m hm => ?_) (.inl (by decide)))
    simp only [List.mem_cons, List.not_mem_nil, or_false] at hm
    obtain rfl | rfl | rfl := hm <;> exact hdigit rfl (by decide)
  exact ⟨hspaced, read_of_spaced.2.2.1 _ _ hspaced, hflawed, read_of_spaced.2.2.2.2.2 _ hflawed⟩

end EventRelay.Json
