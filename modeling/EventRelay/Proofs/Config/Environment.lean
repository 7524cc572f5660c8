import EventRelay.Proofs.Outcome
import EventRelay.Proofs.Text.Numeral
import EventRelay.Proofs.Text.Utf8
import Mathlib.Data.List.Basic
/-!
Configuration in the environment: what is written there is read back, and whatever is read can be
used. Main statement: `config_of_environment`.
-/
namespace EventRelay.Environment
open Outcome Text

def Holds (env : Environment) (key : String) (raw : String) : Prop :=
  env key = some (Utf8.encode raw)

/-- The variable is not set, or not to UTF-8. -/
def Unset (env : Environment) (key : String) : Prop := ∀ raw, ¬env.Holds key raw

/-- A variable that holds a number, the field that it sets, and what one of it comes to there. -/
structure Variable where
  key : String
  unit : Nat
  value : Config → Nat

def Variable.count (v : Variable) (c : Config) : Nat := v.value c / v.unit

def numeric : List Variable :=
  [⟨"FANOUT_WORKERS", 1, Config.workers⟩, ⟨"FANOUT_MAX_TOPICS", 1, Config.maxTopics⟩,
    ⟨"FANOUT_TOPIC_TIMEOUT_MS", 1000000, Config.topicCreateTimeout⟩,
    ⟨"FANOUT_SUBSCRIBER_BUFFER", 1, Config.subscriberBuffer⟩,
    ⟨"FANOUT_PARTITION_RETENTION", 1, Config.partitionRetention⟩]

def Spells (n : Nat) (raw : String) : Prop := ∃ cs, IsNumeral n cs ∧ Surrounds cs raw.toList

def Misspelled (raw : String) : Prop := ∀ n, n < UInt64.size → ¬Spells n raw

/-- What stands between commas: the names, with white space around them, and blank items. -/
inductive Lists : List String → List (List Char) → Prop
  | nil : Lists [] []
  | blank {ns : List String} {items : List (List Char)} {b : List Char} (hb : ∀ c ∈ b, isBlank c)
      (h : Lists ns items) : Lists ns (b :: items)
  | name {n : String} {ns : List String} {items : List (List Char)} {item : List Char}
      (hn : Surrounds n.toList item) (h : Lists ns items) : Lists (n :: ns) (item :: items)

structure IsName (n : String) : Prop where
  nonempty : n ≠ ""
  comma : ',' ∉ n.toList
  trimmed : Trimmed n.toList

structure Describes (env : Environment) (c : Config) : Prop where
  brokers : ∃ raw items, env.Holds "FANOUT_BROKERS" raw ∧ Lists c.brokers items ∧
    raw.toList = List.intercalate [','] items
  numbers : ∀ v ∈ numeric, ∃ raw, env.Holds v.key raw ∧ Spells (v.count c) raw

/-- A usable configuration that the variables can say. -/
structure Portable (c : Config) : Prop where
  valid : c.validate = .ok ()
  names : ∀ b ∈ c.brokers, IsName b
  whole : ∀ v ∈ numeric, v.unit ∣ v.value c
  fits : ∀ v ∈ numeric, v.count c < UInt64.size

theorem isName_default : IsName "localhost:9092" :=
  ⟨by decide, by decide, trimmed_of_any (by decide)⟩

theorem Portable.brokers_ne {c : Config} (hc : Portable c) : c.brokers ≠ [] := by
  intro hnil
  have hvalid := hc.valid
  rw [Config.validate, Config.fault?, if_pos hnil] at hvalid
  cases hvalid

theorem text_eq_some_iff {env : Environment} {key raw : String} :
    env.text key = some raw ↔ env.Holds key raw := by
  unfold text Holds Utf8.decode?
  cases env key with
  | none => simp
  | some bs =>
    cases hd : Utf8.decode bs with
    | error f =>
      have hne : bs ≠ Utf8.encode raw := by
        rintro rfl
        cases hd.symm.trans (Utf8.decode_encode raw)
      simp [hd, Except.toOption, hne]
    | ok s =>
      rw [Utf8.decode_eq_ok_iff] at hd
      have hiff : s = raw ↔ Utf8.encode s = Utf8.encode raw :=
        ⟨congrArg _, Utf8.encode_injective⟩
      simp [hd, Utf8.decode_encode, Except.toOption, hiff]

theorem Unset.text {env : Environment} {key : String} (h : env.Unset key) :
    env.text key = none := by
  rw [Option.eq_none_iff_forall_ne_some]
  exact fun raw hraw => h raw (text_eq_some_iff.1 hraw)

/-! ### Numbers -/

section
variable {env : Environment} {key raw : String} {d n : Nat}

theorem number_of_spells (h : env.Holds key raw) (hn : Spells n raw) (hlt : n < UInt64.size) :
    env.number key d = .ok n := by
  have hread : numeral? (trim raw.toList) = some n := numeral?_trim_eq_some_iff.2 ⟨hn, hlt⟩
  simp only [number, text_eq_some_iff.2 h, hread]

theorem number_of_unset (h : env.Unset key) : env.number key d = .ok d := by
  simp only [number, h.text]

theorem number_of_misspelled (h : env.Holds key raw) (hraw : Misspelled raw) :
    env.number key d = .error (.invalidConfig
      (key ++ " must be a non-negative integer, got " ++ quote raw)) := by
  have hread : numeral? (trim raw.toList) = none := by
    rw [Option.eq_none_iff_forall_ne_some]
    intro n hn
    obtain ⟨hspells, hlt⟩ := numeral?_trim_eq_some_iff.1 hn
    exact hraw n hlt hspells
  simp only [number, text_eq_some_iff.2 h, hread]

theorem misspelled_of_error {e : Error} (h : env.number key d = .error e) :
    ∃ raw, env.Holds key raw ∧ Misspelled raw := by
  cases ht : env.text key with
  | none => simp [number, ht] at h
  | some raw =>
    refine ⟨raw, text_eq_some_iff.1 ht, fun n hlt hn => ?_⟩
    rw [number_of_spells (text_eq_some_iff.1 ht) hn hlt] at h
    cases h

end

/-! ### Names -/

theorem fields_of_not_mem {cs : List Char} (h : ',' ∉ cs) : fields cs = [cs] := by
  induction cs with
  | nil => rfl
  | cons c cs ih =>
    rw [List.mem_cons, not_or] at h
    rw [fields, if_neg (Ne.symm h.1), ih h.2]

theorem fields_append {cs : List Char} (h : ',' ∉ cs) (r : List Char) :
    fields (cs ++ ',' :: r) = cs :: fields r := by
  induction cs with
  | nil => rw [List.nil_append, fields, if_pos rfl]
  | cons c cs ih =>
    rw [List.mem_cons, not_or] at h
    rw [List.cons_append, fields, if_neg (Ne.symm h.1), ih h.2]

theorem fields_intercalate {items : List (List Char)} (hne : items ≠ [])
    (h : ∀ i ∈ items, ',' ∉ i) : fields (List.intercalate [','] items) = items := by
  induction items with
  | nil => exact absurd rfl hne
  | cons i items ih =>
    rw [List.forall_mem_cons] at h
    cases items with
    | nil => simpa using fields_of_not_mem h.1
    | cons j items =>
      rw [List.intercalate_cons_cons, List.append_assoc, List.singleton_append, fields_append h.1,
        ih nofun h.2]

theorem not_mem_of_mem_fields {cs f : List Char} (h : f ∈ fields cs) : ',' ∉ f := by
  induction cs generalizing f with
  | nil =>
    rw [fields, List.mem_singleton] at h
    simp [h]
  | cons c cs ih =>
    by_cases hc : c = ','
    · rw [fields, if_pos hc, List.mem_cons] at h
      obtain rfl | h := h
      · exact List.not_mem_nil
      · exact ih h
    · rw [fields, if_neg hc] at h
      split at h
      · rw [List.mem_singleton.1 h]
        simpa using Ne.symm hc
      · rename_i g gs hg
        rw [hg, List.forall_mem_cons] at ih
        obtain rfl | h := List.mem_cons.1 h
        · simp [ih.1, Ne.symm hc]
        · exact ih.2 f h

theorem comma_of_surrounds {cs text : List Char} (h : Surrounds cs text) (hc : ',' ∉ cs) :
    ',' ∉ text := by
  obtain ⟨a, b, ha, hb, rfl⟩ := h
  have hblank : ¬isBlank ',' := by decide
  simp only [List.mem_append, not_or]
  exact ⟨⟨fun h => hblank (ha _ h), hc⟩, fun h => hblank (hb _ h)⟩

theorem Lists.comma {ns : List String} {items : List (List Char)} (h : Lists ns items)
    (hns : ∀ n ∈ ns, IsName n) : ∀ i ∈ items, ',' ∉ i := by
  induction h with
  | nil => exact List.forall_mem_nil _
  | blank hb _ ih =>
    have hblank : ¬isBlank ',' := by decide
    exact List.forall_mem_cons.2 ⟨fun hc => hblank (hb _ hc), ih hns⟩
  | name hn _ ih =>
    rw [List.forall_mem_cons] at hns
    exact List.forall_mem_cons.2 ⟨comma_of_surrounds hn hns.1.comma, ih hns.2⟩

theorem Lists.trimmed {ns : List String} {items : List (List Char)} (h : Lists ns items)
    (hns : ∀ n ∈ ns, IsName n) :
    ((items.map trim).filter (· ≠ [])).map String.ofList = ns := by
  induction h with
  | nil => rfl
  | blank hb _ ih =>
    rw [List.map_cons, trim_eq_nil hb, List.filter_cons_of_neg (by simp)]
    exact ih hns
  | @name n ns items item hn _ ih =>
    rw [List.forall_mem_cons] at hns
    have hne : n.toList ≠ [] := fun hnil => hns.1.nonempty (String.toList_eq_nil_iff.1 hnil)
    rw [List.map_cons, trim_of_surrounds hn hns.1.trimmed,
      List.filter_cons_of_pos (by simpa using hne), List.map_cons, String.ofList_toList, ih hns.2]

theorem names_of_lists {ns : List String} {items : List (List Char)} {raw : String}
    (h : Lists ns items) (hns : ∀ n ∈ ns, IsName n) (hne : ns ≠ [])
    (hraw : raw.toList = List.intercalate [','] items) : names raw = ns := by
  have hitems : items ≠ [] := by
    rintro rfl
    cases h
    exact hne rfl
  rw [names, hraw, fields_intercalate hitems (h.comma hns), h.trimmed hns]

theorem isName_of_mem_names {raw n : String} (h : n ∈ names raw) : IsName n := by
  obtain ⟨cs, hcs, rfl⟩ := List.mem_map.1 h
  obtain ⟨hmem, hne⟩ := List.mem_filter.1 hcs
  obtain ⟨f, hf, rfl⟩ := List.mem_map.1 hmem
  obtain ⟨⟨a, b, -, -, hab⟩, htrimmed⟩ := surrounds_trim f
  rw [decide_eq_true_iff] at hne
  refine ⟨fun hnil => hne (by simpa using congrArg String.toList hnil), ?_, ?_⟩
  · rw [String.toList_ofList]
    intro hc
    refine not_mem_of_mem_fields hf ?_
    rw [hab]
    simp [hc]
  · rwa [String.toList_ofList]

/-! ### The configuration -/

section
variable {env : Environment} {c : Config}

theorem config_eq_ok_iff : env.config = .ok c ↔
    c.brokers = (env.text "FANOUT_BROKERS").elim ({} : Config).brokers names ∧
    (∀ v ∈ numeric, env.number v.key (v.count {}) = .ok (v.count c) ∧ v.unit ∣ v.value c) ∧
    c.validate = .ok () := by
  simp only [config, bind_eq_ok, numeric, List.forall_mem_cons, List.not_mem_nil,
    IsEmpty.forall_iff, implies_true, Variable.count, Nat.div_one, Nat.one_dvd, and_true]
  constructor
  · rintro ⟨workers, hworkers, topics, htopics, timeout, htimeout, buffer, hbuffer, retention,
      hretention, ⟨⟩, hvalid, hc⟩
    cases hc
    refine ⟨rfl, ⟨hworkers, htopics, ⟨?_, Nat.dvd_mul_left _ _⟩, hbuffer, hretention⟩, hvalid⟩
    rw [Nat.mul_div_cancel _ (by decide)]
    exact htimeout
  · rintro ⟨hbrokers, ⟨hworkers, htopics, ⟨htimeout, hdvd⟩, hbuffer, hretention⟩, hvalid⟩
    have hc : (⟨(env.text "FANOUT_BROKERS").elim ({} : Config).brokers names, c.workers,
        c.maxTopics, c.topicCreateTimeout / 1000000 * 1000000, c.subscriberBuffer,
        c.partitionRetention⟩ : Config) = c := by
      rw [← hbrokers, Nat.div_mul_cancel hdvd]
    refine ⟨_, hworkers, _, htopics, _, htimeout, _, hbuffer, _, hretention, (), ?_, congrArg _ hc⟩
    rw [hc]
    exact hvalid

theorem config_eq_error {v : Variable} {e : Error} (hv : v ∈ numeric)
    (h : env.number v.key (v.count {}) = .error e) :
    ∃ w ∈ numeric, ∃ e', env.number w.key (w.count {}) = .error e' ∧ env.config = .error e' := by
  cases hc : env.config with
  | ok c =>
    rw [(config_eq_ok_iff.1 hc).2.1 v hv |>.1] at h
    cases h
  | error e' =>
    simp only [config, bind_eq_error] at hc
    simp only [numeric, List.mem_cons, List.not_mem_nil, or_false, exists_eq_or_imp,
      exists_eq_left] at hv ⊢
    obtain he | ⟨_, hworkers, he | ⟨_, htopics, he | ⟨_, htimeout, he | ⟨_, hbuffer,
      he | ⟨_, hretention, -⟩⟩⟩⟩⟩ := hc
    · exact .inl ⟨e', he, rfl⟩
    · exact .inr (.inl ⟨e', he, rfl⟩)
    · exact .inr (.inr (.inl ⟨e', he, rfl⟩))
    · exact .inr (.inr (.inr (.inl ⟨e', he, rfl⟩)))
    · exact .inr (.inr (.inr (.inr ⟨e', he, rfl⟩)))
    · obtain rfl | rfl | rfl | rfl | rfl := hv
      · cases hworkers.symm.trans h
      · cases htopics.symm.trans h
      · cases htimeout.symm.trans h
      · cases hbuffer.symm.trans h
      · cases hretention.symm.trans h

theorem Portable.config (hc : Portable c) (henv : env.Describes c) : env.config = .ok c := by
  rw [config_eq_ok_iff]
  refine ⟨?_, fun v hv => ⟨?_, hc.whole v hv⟩, hc.valid⟩
  · obtain ⟨raw, items, hraw, hitems, hjoin⟩ := henv.brokers
    rw [text_eq_some_iff.2 hraw]
    exact (names_of_lists hitems hc.names hc.brokers_ne hjoin).symm
  · obtain ⟨raw, hraw, hspells⟩ := henv.numbers v hv
    exact number_of_spells hraw hspells (hc.fits v hv)

theorem validate_eq_ok_iff : c.validate = .ok () ↔ c.fault? = none := by
  unfold Config.validate
  cases c.fault? with
  | none => simp
  | some f => simp

/-- The configuration comes back from variables that describe it, however the names are spaced and
the numbers padded. Whatever configuration comes out is usable: its names are names, its workers fit
a partition index, and what no variable says has its default. Text that is no number is a fault,
which names a variable that holds such a text and shows it. -/
theorem config_of_environment (env : Environment) :
    (∀ c, Portable c → env.Describes c → env.config = .ok c) ∧
    (∀ c, env.config = .ok c → c.validate = .ok () ∧ c.partitions.toNat = c.workers ∧
      (∀ b ∈ c.brokers, IsName b) ∧
      (env.Unset "FANOUT_BROKERS" → c.brokers = ({} : Config).brokers) ∧
      ∀ v ∈ numeric, env.Unset v.key → v.value c = v.value {}) ∧
    ∀ v ∈ numeric, ∀ raw, env.Holds v.key raw → Misspelled raw →
      ∃ w ∈ numeric, ∃ raw', env.Holds w.key raw' ∧ Misspelled raw' ∧
        env.config = .error (.invalidConfig
          (w.key ++ " must be a non-negative integer, got " ++ quote raw')) := by
  refine ⟨fun c hc henv => hc.config henv, fun c hok => ?_, fun v hv raw hraw hmis => ?_⟩
  · obtain ⟨hbrokers, hnumbers, hvalid⟩ := config_eq_ok_iff.1 hok
    refine ⟨hvalid, Config.partitions_toNat (validate_eq_ok_iff.1 hvalid), ?_, ?_, ?_⟩
    · rw [hbrokers]
      cases env.text "FANOUT_BROKERS" with
      | none => exact List.forall_mem_singleton.2 isName_default
      | some raw => exact fun b hb => isName_of_mem_names hb
    · intro hunset
      rw [hbrokers, hunset.text]
      rfl
    · intro v hv hunset
      obtain ⟨hnumber, hwhole⟩ := hnumbers v hv
      rw [number_of_unset hunset, Except.ok.injEq] at hnumber
      have hdefault : v.unit ∣ v.value {} := by
        simp only [numeric, List.mem_cons, List.not_mem_nil, or_false] at hv
        obtain rfl | rfl | rfl | rfl | rfl := hv <;> decide
      rw [← Nat.div_mul_cancel hwhole, ← Nat.div_mul_cancel hdefault]
      exact congrArg (· * v.unit) hnumber.symm
  · obtain ⟨w, hw, e, he, hconfig⟩ := config_eq_error hv (number_of_misspelled hraw hmis)
    obtain ⟨raw', hraw', hmis'⟩ := misspelled_of_error he
    rw [number_of_misspelled hraw' hmis', Except.error.injEq] at he
    exact ⟨w, hw, raw', hraw', hmis', by rw [hconfig, he]⟩

theorem config_of_environment_of_padded :
    let env : Environment := fun key =>
      some (Utf8.encode (if key = "FANOUT_BROKERS" then " a:1 ,, b:2" else " +007\n"))
    let c : Config := ⟨["a:1", "b:2"], 7, 7, 7000000, 7, 7⟩
    Portable c ∧ env.Describes c ∧ env.config = .ok c := by
  intro env c
  have hc : Portable c := by
    refine ⟨by decide, ?_, by decide, by decide⟩
    refine List.forall_mem_cons.2 ⟨⟨by decide, by decide, trimmed_of_any (by decide)⟩, ?_⟩
    exact List.forall_mem_singleton.2 ⟨by decide, by decide, trimmed_of_any (by decide)⟩
  have hblank {c : Char} (hc : isBlank c = true) : ∀ b ∈ [c], isBlank b :=
    List.forall_mem_singleton.2 hc
  have hseven : Spells 7 " +007\n" :=
    ⟨_, .plus 2, [' '], ['\n'], hblank rfl, hblank rfl, by decide⟩
  have henv : env.Describes c := by
    refine ⟨⟨" a:1 ,, b:2", [" a:1 ".toList, [], " b:2".toList], rfl, ?_, by decide⟩, ?_⟩
    · refine .name ⟨[' '], [' '], hblank rfl, hblank rfl, by decide⟩ (.blank nofun ?_)
      exact .name ⟨[' '], [], hblank rfl, nofun, by decide⟩ .nil
    · intro v hv
      have hcount : v.count c = 7 ∧ v.key ≠ "FANOUT_BROKERS" := by
        revert v
        decide
      refine ⟨" +007\n", ?_, hcount.1 ▸ hseven⟩
      simp only [Holds, env, if_neg hcount.2]
  exact ⟨hc, henv, (config_of_environment env).1 c hc henv⟩

end

end EventRelay.Environment
