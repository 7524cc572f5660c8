import EventRelay.Proofs.Delivery.Deeds
/-!
The loop of a lane over any reader. Its results come one after the other; in between others change
registries and mailboxes, and the lane may be told to stop. Main statements: `turn_iff`, what a turn
of the loop comes to, `Ran.next`, what an event preserves, and `reads_on`.
-/
namespace EventRelay
open History

inductive LaneEvent where
  | turn (sig : Signal)
  /-- Others do something to a registry or a mailbox. -/
  | deed (e : Nat × Deed)
  | dismiss
  | closeBroker (b : Nat)

namespace LaneEvent

def deed? : LaneEvent → Option (Nat × Deed)
  | .deed e => some e
  | _ => none

def cancels : LaneEvent → Bool
  | .dismiss | .closeBroker _ => true
  | _ => false

def isTurn (sig : Signal) : LaneEvent → Bool
  | .turn sig' => sig' = sig
  | _ => false

end LaneEvent

/-- A relay, and what the reader of one of its lanes has yet to give. -/
structure LaneLoop where
  relay : Relay
  results : List ReadStep

def ReadStep.isFailure : ReadStep → Bool
  | .failed .. => true
  | _ => false

def ReadStep.call? (g : Nat) (topic : String) : ReadStep → Option (Nat × Deed)
  | .record rec _ => some (g, .dispatch ⟨topic, rec.key⟩ rec.value)
  | _ => none

namespace LaneLoop

def asks (x : LaneLoop) (i : Nat) : Signal → Bool
  | .proceed => (x.relay.lanes.find? i).any fun l => l.stage = .reading
  | _ => false

/-- A step of lane `i`. Its reader gives the next result, and waits when there is none. -/
def turn (x : LaneLoop) (i : Nat) (sig : Signal) : Option LaneLoop :=
  (x.relay.stepLaneOver i (fun _ => x.results.headD .pending) sig).map fun relay =>
    { relay, results := if x.asks i sig then x.results.tail else x.results }

def next (x : LaneLoop) (i : Nat) : LaneEvent → Option LaneLoop
  | .turn sig => x.turn i sig
  | .deed e => some { x with relay := (x.relay.deed e).2 }
  | .dismiss => some { x with relay := Relay.dismiss [i] x.relay }
  | .closeBroker b =>
    some { x with relay := x.relay.setBroker b { x.relay.broker b with
      closed := true, crews := .empty } }

def run (x : LaneLoop) (i : Nat) : List LaneEvent → Option LaneLoop
  | [] => some x
  | e :: es => (x.next i e).bind fun y => y.run i es

variable {x y : LaneLoop} {i : Nat} {l : Lane} {sig : Signal}

theorem run_append (x : LaneLoop) (es es' : List LaneEvent) :
    x.run i (es ++ es') = (x.run i es).bind fun y => y.run i es' := by
  induction es generalizing x with
  | nil => rfl
  | cons e es ih => simp only [List.cons_append, run, Option.bind_assoc, ih]

theorem run_concat {es : List LaneEvent} {e : LaneEvent} :
    x.run i (es ++ [e]) = some y ↔ ∃ z, x.run i es = some z ∧ z.next i e = some y := by
  simp [run_append, run, Option.bind_eq_some_iff]

/-! ### One turn -/

inductive Turn (x : LaneLoop) (i : Nat) (l : Lane) : Signal → LaneLoop → Prop
  | hands {rec : Record} {next : Reader} {rest : List ReadStep} (hs : l.stage = .reading)
      (hr : x.results = .record rec next :: rest) :
      Turn x i l .proceed
        ⟨{ (x.relay.dispatch (x.relay.broker l.broker).registry ⟨l.topic, rec.key⟩ rec.value).2 with
          lanes := x.relay.lanes.insert i { l with reader := next } }, rest⟩
  | fails {reason : String} {next : Reader} {rest : List ReadStep} (hs : l.stage = .reading)
      (hr : x.results = .failed reason next :: rest) :
      Turn x i l .proceed
        ⟨{ x.relay with
          lanes := x.relay.lanes.insert i { l with reader := next, stage := .retrying } }, rest⟩
  | ends {rest : List ReadStep} (hs : l.stage = .reading) (hr : x.results = .ended :: rest) :
      Turn x i l .proceed ⟨{ x.relay with lanes := x.relay.lanes.erase i }, rest⟩
  | resumes (hs : l.stage = .retrying) :
      Turn x i l .proceed
        ⟨{ x.relay with lanes := x.relay.lanes.insert i { l with stage := .reading } }, x.results⟩
  | stops (hc : x.relay.isCancelled l = true) :
      Turn x i l .stop ⟨{ x.relay with lanes := x.relay.lanes.erase i }, x.results⟩

theorem turn_iff (hi : x.relay.lanes.find? i = some l) :
    x.turn i sig = some y ↔ x.Turn i l sig y := by
  constructor
  · intro h
    obtain ⟨r, hr, rfl⟩ := Option.map_eq_some_iff.1 h
    simp only [Relay.stepLaneOver, hi, Option.bind_eq_bind, Option.bind_some] at hr
    cases sig with
    | stop =>
      simp only at hr
      split at hr
      · rename_i hc
        cases hr
        exact .stops hc
      · cases hr
    | proceed =>
      cases hs : l.stage with
      | retrying =>
        simp only [hs] at hr
        cases hr
        simp only [asks, hi, Option.any_some, hs, reduceCtorEq, decide_false, Bool.false_eq_true,
          if_false]
        exact .resumes hs
      | reading =>
        simp only [hs] at hr
        simp only [asks, hi, Option.any_some, hs, decide_true, if_true]
        cases hres : x.results with
        | nil =>
          simp only [hres, List.headD_nil, Relay.react] at hr
          cases hr
        | cons result rest =>
          simp only [hres, List.headD_cons] at hr
          cases result with
          | pending => cases hr
          | record rec next => cases hr; exact .hands hs hres
          | failed reason next => cases hr; exact .fails hs hres
          | ended => cases hr; exact .ends hs hres
    | expire => cases hr
  · intro h
    cases h with
    | hands hs hr =>
      simp [turn, Relay.stepLaneOver, asks, hi, hs, hr, Relay.react]
      rfl
    | fails hs hr => simp [turn, Relay.stepLaneOver, asks, hi, hs, hr, Relay.react]
    | ends hs hr => simp [turn, Relay.stepLaneOver, asks, hi, hs, hr, Relay.react]
    | resumes hs => simp [turn, Relay.stepLaneOver, asks, hi, hs]
    | stops hc => simp [turn, Relay.stepLaneOver, asks, hi, hc]

theorem turn_of_none (hi : x.relay.lanes.find? i = none) : x.turn i sig = none := by
  simp [turn, Relay.stepLaneOver, hi]

/-! ### How far a lane has come -/

/-- The lane `l` is `m` after some events in which its reader gave some results: it took one turn
for each of them, and one more after each failure. -/
structure Runs (l m : Lane) (events : List LaneEvent) (given : List ReadStep) : Prop where
  broker : m.broker = l.broker
  topic : m.topic = l.topic
  unended : .ended ∉ given
  unstopped : ∀ e ∈ events, e.isTurn .stop = false
  turns : events.countP (LaneEvent.isTurn .proceed) + (if m.stage = .retrying then 1 else 0) =
    given.length + given.countP ReadStep.isFailure
  retries : m.stage = .retrying → ∃ before e, given = before ++ [e] ∧ e.isFailure = true

section
variable {m m' : Lane} {events : List LaneEvent} {given : List ReadStep} {e : LaneEvent}

theorem Runs.start (hs : l.stage = .reading) : Runs l l [] [] :=
  ⟨rfl, rfl, nofun, nofun, by simp [hs], fun hr => by cases hs.symm.trans hr⟩

theorem unstopped_concat (h : ∀ e ∈ events, e.isTurn .stop = false) (he : e.isTurn .stop = false) :
    ∀ e' ∈ events ++ [e], e'.isTurn .stop = false := by
  intro e' he'
  exact (List.mem_append.1 he').elim (h e') fun hlast => List.mem_singleton.1 hlast ▸ he

theorem Runs.aside (h : Runs l m events given) (he : ∀ sig, e.isTurn sig = false)
    (hb : m'.broker = m.broker) (ht : m'.topic = m.topic) (hs : m'.stage = m.stage) :
    Runs l m' (events ++ [e]) given := by
  refine ⟨hb.trans h.broker, ht.trans h.topic, h.unended, unstopped_concat h.unstopped (he .stop),
    ?_, fun hr => h.retries (hs ▸ hr)⟩
  rw [List.countP_append, List.countP_singleton, he, hs]
  exact h.turns

theorem Runs.hands (h : Runs l m events given) (hs : m.stage = .reading) (rec : Record)
    (next : Reader) : Runs l { m with reader := next } (events ++ [.turn .proceed])
      (given ++ [.record rec next]) := by
  refine ⟨h.broker, h.topic, ?_, unstopped_concat h.unstopped rfl, ?_, fun hr => ?_⟩
  · simpa using h.unended
  · have hturns := h.turns
    simp only [hs, reduceCtorEq, if_false] at hturns
    simp [LaneEvent.isTurn, ReadStep.isFailure, hs]
    omega
  · cases hs.symm.trans hr

theorem Runs.fails (h : Runs l m events given) (hs : m.stage = .reading) (reason : String)
    (next : Reader) : Runs l { m with reader := next, stage := .retrying }
      (events ++ [.turn .proceed]) (given ++ [.failed reason next]) := by
  refine ⟨h.broker, h.topic, ?_, unstopped_concat h.unstopped rfl, ?_,
    fun _ => ⟨given, _, rfl, rfl⟩⟩
  · simpa using h.unended
  · have hturns := h.turns
    simp only [hs, reduceCtorEq, if_false] at hturns
    simp [LaneEvent.isTurn, ReadStep.isFailure]
    omega

theorem Runs.resumes (h : Runs l m events given) (hs : m.stage = .retrying) :
    Runs l { m with stage := .reading } (events ++ [.turn .proceed]) given := by
  refine ⟨h.broker, h.topic, h.unended, unstopped_concat h.unstopped rfl, ?_, nofun⟩
  have hturns := h.turns
  rw [if_pos hs] at hturns
  rw [List.countP_append, List.countP_singleton]
  exact hturns

end

/-! ### A whole run -/

/-- What is done to registries and mailboxes, by the lane itself on the left and by others on the
right. -/
abbrev Trail := List ((Nat × Deed) ⊕ (Nat × Deed))

def Trail.all (trail : Trail) : List (Nat × Deed) := trail.map (Sum.elim id id)

/-- `s` is `q` but for the lanes and the brokers. -/
def Besides (q s : Relay) : Prop := ∃ lanes brokers, s = { q with lanes, brokers }

/-- Lane `i` was `l` in relay `r`; since then there were some events, and its reader gave some of
the results. -/
structure Ran (r : Relay) (i : Nat) (l : Lane) (results : List ReadStep) (events : List LaneEvent)
    (given : List ReadStep) (trail : Trail) (x : LaneLoop) : Prop where
  results : results = given ++ x.results
  /-- Each record that was read is dispatched once, in order, whatever it holds. -/
  own : trail.filterMap Sum.getLeft? =
    given.filterMap (ReadStep.call? (r.broker l.broker).registry l.topic)
  others : trail.filterMap Sum.getRight? = events.filterMap LaneEvent.deed?
  effect : Besides (after Relay.deed r trail.all) x.relay
  apart : ∀ j, j ≠ i → x.relay.lanes.find? j = r.lanes.find? j
  registry : ∀ b, (x.relay.broker b).registry = (r.broker b).registry
  runs : ∀ m, x.relay.lanes.find? i = some m → Runs l m events given
  cancelled : ∀ m, x.relay.lanes.find? i = some m → x.relay.isCancelled m = true →
    r.isCancelled l = true ∨ ∃ e ∈ events, e.cancels = true
  /-- It exits at the first end, or as it is told to stop. -/
  exits : x.relay.lanes.find? i = none →
    (∃ before, given = before ++ [.ended] ∧ .ended ∉ before ∧
      (∀ e ∈ events, e.isTurn .stop = false) ∧
      events.countP (LaneEvent.isTurn .proceed) =
        given.length + given.countP ReadStep.isFailure) ∨
    .ended ∉ given ∧ (r.isCancelled l = true ∨ ∃ e ∈ events, e.cancels = true)

section
variable {r q s : Relay} {results given : List ReadStep} {events : List LaneEvent} {trail : Trail}
  {e : LaneEvent}

theorem Besides.deed (h : Besides q s) (e : Nat × Deed) : Besides (q.deed e).2 (s.deed e).2 := by
  obtain ⟨lanes, brokers, rfl⟩ := h
  exact ⟨lanes, brokers, rfl⟩

theorem Besides.congr (h : Besides q s) (lanes : Table Nat Lane) (brokers : Array Broker) :
    Besides q { s with lanes, brokers } := by
  obtain ⟨-, -, rfl⟩ := h
  exact ⟨lanes, brokers, rfl⟩

theorem Ran.start (hi : r.lanes.find? i = some l) (hs : l.stage = .reading)
    (results : List ReadStep) : Ran r i l results [] [] [] ⟨r, results⟩ := by
  have hsame (m : Lane) (hm : r.lanes.find? i = some m) : m = l := by
    rw [hi] at hm
    exact (Option.some.inj hm).symm
  refine ⟨rfl, rfl, rfl, ⟨_, _, rfl⟩, fun _ _ => rfl, fun _ => rfl, fun m hm => ?_,
    fun m hm hc => ?_, fun hnone => ?_⟩
  · rw [hsame m hm]
    exact .start hs
  · exact .inl (hsame m hm ▸ hc)
  · cases hi.symm.trans hnone

theorem told_concat (h : r.isCancelled l = true ∨ ∃ e ∈ events, e.cancels = true)
    (e : LaneEvent) : r.isCancelled l = true ∨ ∃ e' ∈ events ++ [e], e'.cancels = true :=
  h.imp_right fun ⟨e', he', hcancels⟩ => ⟨e', List.mem_append_left _ he', hcancels⟩

theorem Ran.aside (h : Ran r i l results events given trail x) {trail' : Trail}
    (he : ∀ sig, e.isTurn sig = false)
    (hown : trail'.filterMap Sum.getLeft? = trail.filterMap Sum.getLeft?)
    (hothers : trail'.filterMap Sum.getRight? = trail.filterMap Sum.getRight? ++ e.deed?.toList)
    (heffect : Besides (after Relay.deed r trail'.all) s)
    (hapart : ∀ j, j ≠ i → s.lanes.find? j = x.relay.lanes.find? j) (told : Lane → Bool)
    (hlane : s.lanes.find? i = (x.relay.lanes.find? i).map fun m => { m with dismissed := told m })
    (hregistry : ∀ b, (s.broker b).registry = (x.relay.broker b).registry)
    (hcancels : e.cancels = true ∨ s.lanes = x.relay.lanes ∧ s.brokers = x.relay.brokers) :
    Ran r i l results (events ++ [e]) given trail' { x with relay := s } := by
  refine ⟨h.results, hown.trans h.own, ?_, heffect, fun j hj => (hapart j hj).trans (h.apart j hj),
    fun b => (hregistry b).trans (h.registry b), fun m hm => ?_, fun m hm hc => ?_,
    fun hnone => ?_⟩
  · rw [hothers, h.others, List.filterMap_append]
    rfl
  · rw [hlane] at hm
    obtain ⟨m₀, hm₀, rfl⟩ := Option.map_eq_some_iff.1 hm
    exact (h.runs m₀ hm₀).aside he rfl rfl rfl
  · obtain hnow | ⟨hlanes, hbrokers⟩ := hcancels
    · exact .inr ⟨e, by simp, hnow⟩
    · rw [Relay.isCancelled, Relay.broker, hbrokers] at hc
      exact told_concat (h.cancelled m (hlanes ▸ hm) hc) e
  · rw [hlane, Option.map_eq_none_iff] at hnone
    obtain ⟨before, hgiven, hbefore, hstop, hturns⟩ | ⟨hgiven, htold⟩ := h.exits hnone
    · refine .inl ⟨before, hgiven, hbefore, unstopped_concat hstop (he .stop), ?_⟩
      rw [List.countP_append, List.countP_singleton, he]
      exact hturns
    · exact .inr ⟨hgiven, told_concat htold e⟩

theorem Ran.deed (h : Ran r i l results events given trail x) (e : Nat × Deed) :
    Ran r i l results (events ++ [.deed e]) given (trail ++ [.inr e])
      { x with relay := (x.relay.deed e).2 } := by
  refine h.aside (fun _ => rfl) ?_ ?_ ?_ (fun _ _ => rfl) Lane.dismissed ?_ (fun _ => rfl)
    (.inr ⟨rfl, rfl⟩)
  · simp
  · simp [LaneEvent.deed?]
  · rw [Trail.all, List.map_append, List.map_singleton, after_concat]
    exact h.effect.deed e
  · exact Option.map_id'.symm

theorem Ran.dismiss (h : Ran r i l results events given trail x) :
    Ran r i l results (events ++ [.dismiss]) given trail
      { x with relay := Relay.dismiss [i] x.relay } := by
  refine h.aside (fun _ => rfl) rfl (List.append_nil _).symm (h.effect.congr _ _) (fun j hj => ?_)
    (fun _ => true) ?_ (fun _ => rfl) (.inl rfl)
  · simp only [Relay.dismiss, Table.find?_modify, if_neg (Ne.symm hj)]
  · simp only [Relay.dismiss, Table.find?_modify, if_true]

theorem Ran.closeBroker (h : Ran r i l results events given trail x) (b : Nat) :
    Ran r i l results (events ++ [.closeBroker b]) given trail
      { x with relay := x.relay.setBroker b { x.relay.broker b with
        closed := true, crews := .empty } } := by
  refine h.aside (fun _ => rfl) rfl (List.append_nil _).symm (h.effect.congr _ _) (fun _ _ => rfl)
    Lane.dismissed Option.map_id'.symm (fun b' => ?_) (.inl rfl)
  by_cases hb : b < x.relay.brokers.size
  · rw [Relay.broker_setBroker _ hb]
    split
    · rename_i hsame
      rw [hsame]
    · rfl
  · rw [Relay.setBroker_of_le _ (Nat.le_of_not_lt hb)]

theorem Ran.leaves (h : Ran r i l results events given trail x) {m : Lane}
    (hm : x.relay.lanes.find? i = some m) {m' : Option Lane} (added : List ReadStep)
    {rest : List ReadStep} (calls : Trail) (hresults : x.results = added ++ rest)
    (hown : calls.filterMap Sum.getLeft? =
      added.filterMap (ReadStep.call? (r.broker l.broker).registry l.topic))
    (hothers : calls.filterMap Sum.getRight? = [])
    (heffect : Besides (after Relay.deed r (trail ++ calls).all) s)
    (hlanes : ∀ j, s.lanes.find? j = if i = j then m' else x.relay.lanes.find? j)
    (hbrokers : s.brokers = x.relay.brokers)
    (hruns : ∀ n, m' = some n → n.broker = m.broker ∧ n.dismissed = m.dismissed ∧
      Runs l n (events ++ [.turn sig]) (given ++ added))
    (hover : m' = none → (added = [.ended] ∧ sig = .proceed ∧ m.stage = .reading) ∨
      (added = [] ∧ x.relay.isCancelled m = true)) :
    Ran r i l results (events ++ [.turn sig]) (given ++ added) (trail ++ calls) ⟨s, rest⟩ := by
  have hi := hlanes i
  rw [if_pos rfl] at hi
  refine ⟨?_, ?_, ?_, heffect, fun j hj => ?_, fun b => ?_, fun n hn => ?_, fun n hn hc => ?_,
    fun hnone => ?_⟩
  · rw [h.results, hresults, List.append_assoc]
  · rw [List.filterMap_append, List.filterMap_append, h.own, hown]
  · rw [List.filterMap_append, List.filterMap_append, h.others, hothers]
    rfl
  · rw [hlanes, if_neg (Ne.symm hj), h.apart j hj]
  · rw [Relay.broker, hbrokers]
    exact h.registry b
  · exact (hruns n (hi.symm.trans hn)).2.2
  · obtain ⟨hbroker, hdismissed, -⟩ := hruns n (hi.symm.trans hn)
    rw [Relay.isCancelled, hdismissed, hbroker, Relay.broker, hbrokers] at hc
    exact told_concat (h.cancelled m hm hc) _
  · have hbefore := h.runs m hm
    obtain ⟨rfl, rfl, hs⟩ | ⟨rfl, hc⟩ := hover (hi.symm.trans hnone)
    · refine .inl ⟨given, rfl, hbefore.unended, unstopped_concat hbefore.unstopped rfl, ?_⟩
      have hturns := hbefore.turns
      simp only [hs, reduceCtorEq, if_false] at hturns
      simp [LaneEvent.isTurn, ReadStep.isFailure]
      omega
    · rw [List.append_nil]
      exact .inr ⟨hbefore.unended, told_concat (h.cancelled m hm hc) _⟩

theorem Ran.turn (h : Ran r i l results events given trail x) {m : Lane}
    (hm : x.relay.lanes.find? i = some m) (ht : x.Turn i m sig y) :
    ∃ given' trail', Ran r i l results (events ++ [.turn sig]) given' trail' y := by
  have hruns := h.runs m hm
  have hsame : Besides (after Relay.deed r (trail ++ []).all) x.relay := by
    rw [List.append_nil]
    exact h.effect
  cases ht with
  | @hands rec next rest hs hr =>
    let call : Nat × Deed := ((r.broker l.broker).registry, .dispatch ⟨l.topic, rec.key⟩ rec.value)
    refine ⟨_, _, h.leaves hm [.record rec next] [.inl call] hr rfl rfl ?_
      (fun j => Table.find?_insert ..) rfl (fun n hn => ?_) nofun⟩
    · rw [hruns.broker, hruns.topic, h.registry, Trail.all, List.map_append, List.map_singleton,
        after_concat]
      exact (h.effect.deed call).congr _ _
    · cases hn
      exact ⟨rfl, rfl, hruns.hands hs rec next⟩
  | @fails reason next rest hs hr =>
    refine ⟨_, _, h.leaves hm [.failed reason next] [] hr rfl rfl (hsame.congr _ _)
      (fun j => Table.find?_insert ..) rfl (fun n hn => ?_) nofun⟩
    cases hn
    exact ⟨rfl, rfl, hruns.fails hs reason next⟩
  | @ends rest hs hr =>
    exact ⟨_, _, h.leaves hm [.ended] [] hr rfl rfl (hsame.congr _ _)
      (fun j => Table.find?_erase ..) rfl nofun fun _ => .inl ⟨rfl, rfl, hs⟩⟩
  | resumes hs =>
    refine ⟨_, _, h.leaves hm [] [] rfl rfl rfl (hsame.congr _ _) (fun j => Table.find?_insert ..)
      rfl (fun n hn => ?_) nofun⟩
    cases hn
    rw [List.append_nil]
    exact ⟨rfl, rfl, hruns.resumes hs⟩
  | stops hc =>
    exact ⟨_, _, h.leaves hm [] [] rfl rfl rfl (hsame.congr _ _) (fun j => Table.find?_erase ..) rfl
      nofun fun _ => .inr ⟨rfl, hc⟩⟩

theorem Ran.next (h : Ran r i l results events given trail x) {e : LaneEvent}
    (hx : x.next i e = some y) :
    ∃ given' trail', Ran r i l results (events ++ [e]) given' trail' y := by
  cases e with
  | turn sig =>
    cases hm : x.relay.lanes.find? i with
    | none => cases (turn_of_none hm).symm.trans hx
    | some m => exact h.turn hm ((turn_iff hm).1 hx)
  | deed e =>
    cases hx
    exact ⟨_, _, h.deed e⟩
  | dismiss =>
    cases hx
    exact ⟨_, _, h.dismiss⟩
  | closeBroker b =>
    cases hx
    exact ⟨_, _, h.closeBroker b⟩

theorem ran_of_run (hi : r.lanes.find? i = some l) (hs : l.stage = .reading)
    (h : (⟨r, results⟩ : LaneLoop).run i events = some x) :
    ∃ given trail, Ran r i l results events given trail x := by
  induction events using List.reverseRecOn generalizing x with
  | nil =>
    cases h
    exact ⟨_, _, .start hi hs results⟩
  | append_singleton events e ih =>
    obtain ⟨y, hy, hx⟩ := run_concat.1 h
    obtain ⟨given, trail, hran⟩ := ih hy
    exact hran.next hx

/-! ### What can come next -/

def turns (n : Nat) : List LaneEvent := .replicate n (.turn .proceed)

theorem run_turns_of_turn (h : x.turn i .proceed = some y) : x.run i (turns 1) = some y :=
  Option.bind_eq_some_iff.2 ⟨y, h, rfl⟩

theorem run_turns_add {z : LaneLoop} {n k : Nat} (h : x.run i (turns n) = some y)
    (hk : y.run i (turns k) = some z) : x.run i (turns (n + k)) = some z := by
  rw [turns, List.replicate_add, run_append]
  exact Option.bind_eq_some_iff.2 ⟨y, h, hk⟩

theorem reads_of_retrying (hi : x.relay.lanes.find? i = some l) (hs : l.stage = .retrying) :
    ∃ y m, x.run i (turns 1) = some y ∧ y.relay.lanes.find? i = some m ∧ m.stage = .reading ∧
      y.results = x.results :=
  ⟨_, { l with stage := .reading }, run_turns_of_turn ((turn_iff hi).2 (.resumes hs)),
    by rw [Table.find?_insert, if_pos rfl], rfl, rfl⟩

theorem passes_result {e : ReadStep} {rest : List ReadStep} (hi : x.relay.lanes.find? i = some l)
    (hs : l.stage = .reading) (hx : x.results = e :: rest) (hp : e ≠ .pending) (he : e ≠ .ended) :
    ∃ n y m, x.run i (turns n) = some y ∧ y.relay.lanes.find? i = some m ∧ m.stage = .reading ∧
      y.results = rest := by
  cases e with
  | pending => exact absurd rfl hp
  | ended => exact absurd rfl he
  | record rec next =>
    exact ⟨1, _, { l with reader := next }, run_turns_of_turn ((turn_iff hi).2 (.hands hs hx)),
      by rw [Table.find?_insert, if_pos rfl], hs, rfl⟩
  | failed reason next =>
    obtain ⟨y, hy, hfound, rfl⟩ : ∃ y, x.turn i .proceed = some y ∧ y.relay.lanes.find? i =
        some { l with reader := next, stage := .retrying } ∧ y.results = rest :=
      ⟨_, (turn_iff hi).2 (.fails hs hx), by rw [Table.find?_insert, if_pos rfl], rfl⟩
    obtain ⟨z, m, hz, hm, hreading, hrest⟩ := reads_of_retrying hfound rfl
    exact ⟨2, z, m, run_turns_add (run_turns_of_turn hy) hz, hm, hreading, hrest⟩

theorem finishes_of_reading {before rest : List ReadStep} (hi : x.relay.lanes.find? i = some l)
    (hs : l.stage = .reading) (hx : x.results = before ++ .ended :: rest)
    (hp : .pending ∉ before) (he : .ended ∉ before) :
    ∃ n y, x.run i (turns n) = some y ∧ y.relay.lanes.find? i = none ∧ y.results = rest := by
  induction before generalizing x l with
  | nil =>
    refine ⟨1, _, run_turns_of_turn ((turn_iff hi).2 (.ends hs hx)), ?_, rfl⟩
    rw [Table.find?_erase, if_pos rfl]
  | cons e before ih =>
    rw [List.mem_cons, not_or] at hp he
    obtain ⟨n, y, m, hy, hm, hreading, hrest⟩ :=
      passes_result hi hs hx (Ne.symm hp.1) (Ne.symm he.1)
    obtain ⟨k, z, hz, hend⟩ := ih hm hreading hrest hp.2 he.2
    exact ⟨n + k, z, run_turns_add hy hz, hend⟩

structure Goes (x : LaneLoop) (i : Nat) : Prop where
  exited : x.relay.lanes.find? i = none → ∀ sig, x.turn i sig = none
  proceeds : ∀ m, x.relay.lanes.find? i = some m → ((x.turn i .proceed).isSome = true ↔
    m.stage = .retrying ∨ x.results.headD .pending ≠ .pending)
  rests : ∀ m, x.relay.lanes.find? i = some m → m.stage = .retrying →
    x.relay.isCancelled m = false →
      x.relay.readiness (.lane i) = .later [(Lane.retryDelay, .proceed)]
  /-- Told to stop, it exits from where it is. -/
  stops : ∀ m, x.relay.lanes.find? i = some m → x.turn i .stop =
    if x.relay.isCancelled m then
      some ⟨{ x.relay with lanes := x.relay.lanes.erase i }, x.results⟩
    else none
  finishes : ∀ m, x.relay.lanes.find? i = some m → ∀ before rest,
    x.results = before ++ .ended :: rest → .pending ∉ before → .ended ∉ before →
      ∃ n y, x.run i (turns n) = some y ∧ y.relay.lanes.find? i = none ∧ y.results = rest
  /-- A step of the lane is a turn of the loop, with what the reader of the lane gives. -/
  steps : ∀ m, x.relay.lanes.find? i = some m →
    x.results.headD .pending = m.reader.read x.relay.log →
      ∀ sig, x.relay.step (.lane i) sig = (x.turn i sig).map LaneLoop.relay

theorem goes (x : LaneLoop) (i : Nat) : x.Goes i := by
  refine ⟨fun hnone sig => turn_of_none hnone, fun m hm => ?_, fun m hm hs hc => ?_,
    fun m hm => ?_, fun m hm before rest hx hp he => ?_, fun m hm hread sig => ?_⟩
  · simp only [turn, Relay.stepLaneOver, hm, Option.bind_eq_bind, Option.bind_some,
      Option.isSome_map]
    cases hs : m.stage with
    | retrying => simp
    | reading => cases x.results.headD .pending <;> simp [Relay.react]
  · simp only [Relay.readiness, hm, Option.elim_some, Relay.laneReadiness, hc, hs,
      Bool.false_eq_true, if_false]
  · simp only [turn, Relay.stepLaneOver, hm, Option.bind_eq_bind, Option.bind_some, asks,
      Bool.false_eq_true, if_false]
    split <;> rfl
  · cases hs : m.stage with
    | reading => exact finishes_of_reading hm hs hx hp he
    | retrying =>
      obtain ⟨y, m', hy, hm', hreading, hsame⟩ := reads_of_retrying hm hs
      obtain ⟨n, z, hz, hend⟩ := finishes_of_reading hm' hreading (hsame.trans hx) hp he
      exact ⟨1 + n, z, run_turns_add hy hz, hend⟩
  · simp only [Relay.step, Relay.stepLane, turn, Option.map_map, Function.comp_def, hread,
      Option.map_id']
    simp only [Relay.stepLaneOver, hm, Option.bind_eq_bind, Option.bind_some]

/-- A lane over any reader, among others that change registries and mailboxes as they like, hands
each record to the registry of its broker once, in order, whatever comes of it; it waits once after
each failure, reads on, and exits at the first end or as it is told to stop. -/
theorem reads_on (hi : r.lanes.find? i = some l) (hs : l.stage = .reading)
    (h : (⟨r, results⟩ : LaneLoop).run i events = some x) :
    (∃ given trail, Ran r i l results events given trail x) ∧ x.Goes i :=
  ⟨ran_of_run hi hs h, goes x i⟩

end

def lone : Lane :=
  { broker := 0, topic := "a", partition := 0, reader := ⟨⟨0, 0, 0⟩, []⟩ }

def withLone : Relay :=
  { Relay.new 1 with
    registries := #[.new 2]
    brokers := #[{ config := {}, registry := 0 }]
    lanes := .insert .empty 0 lone }

/-- A failure, a record for the one who is attached, one that holds no event, the end, and a record
after it. -/
def mixed : List ReadStep :=
  [.failed "reset" lone.reader,
    .record ⟨"a", 0, 0, "k", Binary.encode (.object .create 1)⟩ lone.reader,
    .record ⟨"a", 0, 1, "k", [255]⟩ lone.reader, .ended,
    .record ⟨"a", 0, 2, "k", Binary.encode (.object .create 2)⟩ lone.reader]

def amidOthers : List LaneEvent :=
  [.turn .proceed, .deed (0, .add 1), .turn .proceed,
    .deed (0, .attach ⟨"a", "k"⟩ (.fresh 0) 0), .turn .proceed, .turn .proceed, .turn .proceed]

theorem reads_on_of_mixed : withLone.lanes.find? 0 = some lone ∧ lone.stage = .reading ∧
    ∃ x given trail, (⟨withLone, mixed⟩ : LaneLoop).run 0 amidOthers = some x ∧
      Ran withLone 0 lone mixed amidOthers given trail x ∧ x.results.length = 1 ∧
      x.relay.mailboxes.buffer 0 = [.object .create 1] ∧ ∀ sig, x.turn 0 sig = none := by
  have hrun : ((⟨withLone, mixed⟩ : LaneLoop).run 0 amidOthers).map (fun x =>
      (x.results.length, x.relay.mailboxes.buffer 0, (x.relay.lanes.find? 0).isNone)) =
        some (1, [.object .create 1], true) := by
    decide +kernel
  obtain ⟨x, hx, hend⟩ := Option.map_eq_some_iff.1 hrun
  rw [Prod.mk.injEq, Prod.mk.injEq, Option.isNone_iff_eq_none] at hend
  obtain ⟨hlength, hbuffer, hnone⟩ := hend
  obtain ⟨⟨given, trail, hran⟩, hgoes⟩ := reads_on rfl rfl hx
  exact ⟨rfl, rfl, x, given, trail, hx, hran, hlength, hbuffer, hgoes.exited hnone⟩

end LaneLoop
end EventRelay
