import EventRelay.Proofs.Publication.Acks
import EventRelay.Proofs.Publication.Item
/-!
To publish a batch is to publish its items one by one up to the first that fails. Main statements:
`answers_item`, what the call of a batch does for its next item, and `publishes_one_by_one`.
-/
namespace EventRelay

def Response.ofAcks : Except Error (List Ack) → Response
  | .ok acks => .published acks
  | .error e => .failed e

namespace Relay

/-- The call `id` has its answer after the turns `ts`; `s` is left when that is taken. -/
def Answers (r : Relay) (id : Nat) (ts : List Turn) (answer : Response) (s : Relay) : Prop :=
  ∃ q, r.after (ts.flatMap (turn id)) = some q ∧ q.collect id = (some answer, s)

/-- A call is made to publish `items`, starts at once, and has its answer after the turns `ts`. -/
def Performs (r : Relay) (b : Nat) (items : List Publication) (ts : List Turn) (answer : Response)
    (s : Relay) : Prop :=
  ∃ q, (r.submit b (.publish items)).2.act (.step (.call r.nextCall) .proceed) = some q ∧
    q.Answers r.nextCall ts answer s

/-- Items are published one by one: each by a call of its own, made as soon as the one before has
its answer, up to the first that fails. -/
inductive OneByOne (b : Nat) :
    Relay → List Publication → List Turn → Except Error (List Ack) → Relay → Prop
  | done (r : Relay) : OneByOne b r [] [] (.ok []) r
  | fails {r s : Relay} {item : Publication} {rest : List Publication} {ts : List Turn} {e : Error}
      (h : r.Performs b [item] ts (.failed e) s) : OneByOne b r (item :: rest) ts (.error e) s
  | next {r s u : Relay} {item : Publication} {rest : List Publication} {ts ts' : List Turn}
      {ack : Ack} {outcome : Except Error (List Ack)}
      (h : r.Performs b [item] ts (.published [ack]) s) (hrest : OneByOne b s rest ts' outcome u) :
      OneByOne b r (item :: rest) (ts ++ ts') (outcome.map (ack :: ·)) u

section
variable {r s q : Relay} {b n id : Nat} {c : Table Nat Call} {item : Publication}
  {items rest : List Publication} {acks : List Ack} {ts : List Turn} {answer : Response}

/-! ### The answer -/

theorem collect_finished (q : Relay) (hc : c.find? id = none) (n b : Nat) (answer : Response) :
    (q.holding c n id b (.finished answer)).collect id = (some answer, q.withCalls c n) := by
  simp only [collect, response?, find?_holding]
  simp only [holding, withCalls, Table.erase_insert hc]

theorem performs_iff : r.Performs b items ts answer s ↔
    ((r.withCalls r.calls (r.nextCall + 1)).publishNext r.nextCall b items []).Answers r.nextCall
      ts answer s := by
  have hstart : (r.submit b (.publish items)).2.act (.step (.call r.nextCall) .proceed) =
      some ((r.withCalls r.calls (r.nextCall + 1)).publishNext r.nextCall b items []) := by
    rw [← publishNext_holding r b r.calls _ r.nextCall (.queued 0 (.publish items))]
    exact r.stepCall_holding b r.calls _ r.nextCall (.queued 0 (.publish items))
  rw [Performs, hstart]
  simp

theorem answers_finished (q : Relay) (answer' : Response) (hc : c.find? id = none)
    (hts : ∀ t ∈ ts, ∀ a ∈ t.1, a.isCallFree = true) :
    (q.holding c n id b (.finished answer')).Answers id ts answer s ↔
      ts = [] ∧ answer = answer' ∧ s = q.withCalls c n := by
  cases ts with
  | nil =>
    constructor
    · intro h
      obtain ⟨u, hu, hcollect⟩ := h
      cases hu
      rw [collect_finished q hc] at hcollect
      cases hcollect
      exact ⟨rfl, rfl, rfl⟩
    · intro h
      obtain ⟨-, rfl, rfl⟩ := h
      exact ⟨_, rfl, collect_finished q hc n b _⟩
  | cons t ts =>
    refine iff_of_false (fun h => ?_) (fun h => nomatch h.1)
    obtain ⟨u, hu, -⟩ := h
    rw [List.flatMap_cons, after_append, after_turn q c n id b _ (hts t List.mem_cons_self)] at hu
    obtain ⟨v, hv, -⟩ := Option.bind_eq_some_iff.1 hu
    obtain ⟨w, -, hw⟩ := Option.bind_eq_some_iff.1 hv
    cases ht : t.2 with
    | proceed =>
      rw [ht, stepCall_holding] at hw
      cases hw
    | expire | stop =>
      simp only [ht, stepCall, find?_holding, Option.bind_eq_bind, Option.bind_some] at hw
      cases hw

/-! ### One item of a batch -/

/-- After the turns `ts` the item has failed, in whatever batch it is. -/
def Fails (r : Relay) (b : Nat) (item : Publication) (ts : List Turn) (e : Error) (q : Relay) :
    Prop :=
  ∀ c n id rest acks, ((r.withCalls c n).publishNext id b (item :: rest) acks).after
    (ts.flatMap (turn id)) = some (q.holding c n id b (.finished (.failed e)))

/-- With the last of the turns `ts` the item is acknowledged, in whatever batch it is. -/
def Succeeds (r : Relay) (b : Nat) (item : Publication) (ts : List Turn) (ack : Ack) (q : Relay) :
    Prop :=
  ∀ c n id rest acks, ((r.withCalls c n).publishNext id b (item :: rest) acks).after
    (ts.flatMap (turn id)) = some ((q.withCalls c n).publishNext id b rest (acks ++ [ack]))

theorem answers_item (hc : c.find? id = none) (hts : ∀ t ∈ ts, ∀ a ∈ t.1, a.isCallFree = true) :
    ((r.withCalls c n).publishNext id b (item :: rest) acks).Answers id ts answer s ↔
      (∃ e q, r.Fails b item ts e q ∧ answer = .failed e ∧ s = q.withCalls c n) ∨
      ∃ before later ack q, ts = before ++ later ∧ r.Succeeds b item before ack q ∧
        ((q.withCalls c n).publishNext id b rest (acks ++ [ack])).Answers id later answer s := by
  constructor
  · intro h
    obtain ⟨u, hu, hcollect⟩ := h
    obtain ⟨q₀, p, hstart⟩ := r.settles_publishNext b item
    dsimp only at hstart
    rw [hstart] at hu
    cases itemRun q₀ b item p hts with
    | stuck hrun =>
      rw [hrun] at hu
      cases hu
    | goes q p' hrun =>
      rw [hrun] at hu
      cases hu
      cases p' with
      | failed e =>
        rw [Progress.stage, collect_finished q hc] at hcollect
        cases hcollect
        exact .inl ⟨e, q, fun c n id rest acks => by rw [hstart, hrun]; rfl, rfl, rfl⟩
      | creating | opening | producing =>
        simp only [collect, response?, find?_holding, Progress.stage] at hcollect
        cases hcollect
    | acks before later q ack hsplit hrun =>
      refine .inr ⟨before, later, ack, q, hsplit, fun c n id rest acks => ?_, u, ?_, hcollect⟩
      · rw [hstart, hrun]
      · rw [hsplit, List.flatMap_append, after_append, hrun, Option.bind_some] at hu
        exact hu
  · intro h
    obtain ⟨e, q, hfails, rfl, rfl⟩ | ⟨before, later, ack, q, rfl, hsucceeds, u, hu, hcollect⟩ := h
    · exact ⟨_, hfails c n id rest acks, collect_finished q hc n b _⟩
    · refine ⟨u, ?_, hcollect⟩
      rw [List.flatMap_append, after_append, hsucceeds, Option.bind_some, hu]

theorem performs_one (hr : r.calls.find? r.nextCall = none)
    (hts : ∀ t ∈ ts, ∀ a ∈ t.1, a.isCallFree = true) : r.Performs b [item] ts answer s ↔
      (∃ e q, r.Fails b item ts e q ∧ answer = .failed e ∧
        s = q.withCalls r.calls (r.nextCall + 1)) ∨
      ∃ ack q, r.Succeeds b item ts ack q ∧ answer = .published [ack] ∧
        s = q.withCalls r.calls (r.nextCall + 1) := by
  rw [performs_iff, answers_item hr hts]
  refine or_congr Iff.rfl ⟨fun h => ?_, fun h => ?_⟩
  · obtain ⟨before, later, ack, q, rfl, hsucceeds, hlast⟩ := h
    obtain ⟨rfl, hanswer, hs⟩ := (answers_finished q (.published [ack]) hr fun t ht =>
      hts t (List.mem_append_right _ ht)).1 hlast
    rw [List.append_nil]
    exact ⟨ack, q, hsucceeds, hanswer, hs⟩
  · obtain ⟨ack, q, hsucceeds, hanswer, hs⟩ := h
    refine ⟨ts, [], ack, q, (List.append_nil ts).symm, hsucceeds, ?_⟩
    exact (answers_finished q (.published [ack]) hr (by simp)).2 ⟨rfl, hanswer, hs⟩

theorem performs_calls (hr : r.calls.find? r.nextCall = none)
    (hts : ∀ t ∈ ts, ∀ a ∈ t.1, a.isCallFree = true) (h : r.Performs b [item] ts answer s) :
    s.calls = r.calls ∧ s.nextCall = r.nextCall + 1 := by
  obtain ⟨e, q, -, -, rfl⟩ | ⟨ack, q, -, -, rfl⟩ := (performs_one hr hts).1 h <;> exact ⟨rfl, rfl⟩

/-! ### A whole batch -/

theorem answers_iff (hc : c.find? id = none) (hr : ∀ j, r.nextCall ≤ j → r.calls.find? j = none)
    (hts : ∀ t ∈ ts, ∀ a ∈ t.1, a.isCallFree = true) :
    ((r.withCalls c n).publishNext id b items acks).Answers id ts answer s ↔
      ∃ outcome u, OneByOne b r items ts outcome u ∧
        answer = .ofAcks (outcome.map (acks ++ ·)) ∧ s = u.withCalls c n := by
  have hone {r : Relay} (hr : ∀ j, r.nextCall ≤ j → r.calls.find? j = none) :
      r.calls.find? r.nextCall = none := hr _ (Nat.le_refl _)
  induction items generalizing r acks ts with
  | nil =>
    refine (answers_finished r (.published acks) hc hts).trans ⟨fun h => ?_, fun h => ?_⟩
    · obtain ⟨rfl, rfl, rfl⟩ := h
      exact ⟨_, r, .done r, by simp [Except.map, Response.ofAcks], rfl⟩
    · obtain ⟨outcome, u, hdone, rfl, rfl⟩ := h
      cases hdone
      exact ⟨rfl, by simp [Except.map, Response.ofAcks], rfl⟩
  | cons item rest ih =>
    have hnext (q : Relay) (j : Nat) (hj : r.nextCall + 1 ≤ j) :
        (q.withCalls r.calls (r.nextCall + 1)).calls.find? j = none := hr j (Nat.le_of_succ_le hj)
    have hanswers (outcome : Except Error (List Ack)) (ack : Ack) :
        Response.ofAcks (outcome.map (acks ++ [ack] ++ ·)) =
          .ofAcks ((outcome.map (ack :: ·)).map (acks ++ ·)) := by
      cases outcome <;> simp [Except.map]
    rw [answers_item hc hts]
    constructor
    · intro h
      obtain ⟨e, q, hfails, rfl, rfl⟩ | ⟨before, later, ack, q, rfl, hsucceeds, hlast⟩ := h
      · exact ⟨_, _, .fails ((performs_one (hone hr) hts).2 (.inl ⟨e, q, hfails, rfl, rfl⟩)), rfl,
          rfl⟩
      · obtain ⟨outcome, u, hrest, rfl, rfl⟩ := (ih (r := q.withCalls r.calls (r.nextCall + 1))
          (hnext q) fun t ht => hts t (List.mem_append_right _ ht)).1 hlast
        refine ⟨_, u, .next ((performs_one (hone hr) fun t ht =>
          hts t (List.mem_append_left _ ht)).2 (.inr ⟨ack, q, hsucceeds, rfl, rfl⟩)) hrest, ?_, rfl⟩
        exact hanswers outcome ack
    · intro h
      obtain ⟨outcome, u, hall, rfl, rfl⟩ := h
      cases hall with
      | fails h =>
        obtain ⟨e, q, hfails, heq, rfl⟩ | ⟨ack, q, -, heq, -⟩ := (performs_one (hone hr) hts).1 h
        · cases heq
          exact .inl ⟨_, q, hfails, rfl, rfl⟩
        · cases heq
      | @next _ s _ _ _ before later ack outcome h hrest =>
        obtain ⟨e, q, -, heq, -⟩ | ⟨ack', q, hsucceeds, heq, rfl⟩ := (performs_one (hone hr)
          fun t ht => hts t (List.mem_append_left _ ht)).1 h
        · cases heq
        · cases heq
          refine .inr ⟨before, later, ack, q, rfl, hsucceeds, ?_⟩
          refine (ih (r := q.withCalls r.calls (r.nextCall + 1)) (hnext q) fun t ht =>
            hts t (List.mem_append_right _ ht)).2 ⟨outcome, u, hrest, ?_, rfl⟩
          exact (hanswers outcome ack).symm

theorem OneByOne.calls {outcome : Except Error (List Ack)} (h : OneByOne b r items ts outcome s)
    (hr : ∀ j, r.nextCall ≤ j → r.calls.find? j = none)
    (hts : ∀ t ∈ ts, ∀ a ∈ t.1, a.isCallFree = true) : s.calls = r.calls := by
  induction h with
  | done => rfl
  | fails h => exact (performs_calls (hr _ (Nat.le_refl _)) hts h).1
  | next h hrest ih =>
    obtain ⟨hcalls, hnext⟩ := performs_calls (hr _ (Nat.le_refl _))
      (fun t ht => hts t (List.mem_append_left _ ht)) h
    rw [hcalls, hnext] at ih
    exact ih (fun j hj => hr j (Nat.le_of_succ_le hj)) fun t ht =>
      hts t (List.mem_append_right _ ht)

theorem OneByOne.first_failure {e : Error} (h : OneByOne b r items ts (.error e) s) :
    ∃ done item rest ts₁ ts₂ acks q, items = done ++ item :: rest ∧ ts = ts₁ ++ ts₂ ∧
      OneByOne b r done ts₁ (.ok acks) q ∧ q.Performs b [item] ts₂ (.failed e) s := by
  generalize houtcome : Except.error e = outcome at h
  induction h with
  | done => cases houtcome
  | @fails r s item rest ts e' h =>
    cases houtcome
    exact ⟨[], item, rest, [], ts, [], r, rfl, rfl, .done r, h⟩
  | @next r q s item rest ts ts' ack outcome h hrest ih =>
    have herror : Except.error e = outcome := by
      cases outcome with
      | error e' => exact houtcome
      | ok acks => cases houtcome
    obtain ⟨done, item', rest', ts₁, ts₂, acks, u, rfl, rfl, hdone, hfails⟩ := ih herror
    refine ⟨item :: done, item', rest', ts ++ ts₁, ts₂, ack :: acks, u, rfl, ?_, ?_, hfails⟩
    · exact (List.append_assoc ..).symm
    · exact .next h hdone

theorem acks_of_performs {retention : Nat} {hist : List (Nat × Record)}
    (hv : r.Valid retention hist) (h : r.Performs b items ts (.published acks) s) :
    acks.length = items.length ∧
      ((r.submit b (.publish items)).2.observe deleted
        (.step (.call r.nextCall) .proceed :: ts.flatMap (turn r.nextCall)) = [] →
          (items.zip acks).Pairwise Publication.Precedes) := by
  obtain ⟨q, hq, u, hu, hcollect⟩ := h
  have hsubmitted := hv.next (a := .submit b (.publish items) 0) rfl
  have hrun : (r.submit b (.publish items)).2.after
      (.step (.call r.nextCall) .proceed :: ts.flatMap (turn r.nextCall)) = some u := by
    rw [after, hq]
    exact hu
  obtain ⟨acks', hcarrying⟩ := (carrying_submit r b 0 items).run hsubmitted hrun
  simp only [List.nil_append] at hcarrying
  have hresponse : u.response? r.nextCall = some (.published acks) := by
    unfold collect at hcollect
    split at hcollect
    · rename_i hanswer
      rw [hanswer]
      exact congrArg Prod.fst hcollect
    · cases hcollect
  obtain ⟨b', hc⟩ := finished_of_response hresponse
  cases (hcarrying.stage b' _ hc).2 with
  | published hlength => exact ⟨hlength, hcarrying.ordered hsubmitted hrun⟩

end

/-- To publish a batch is to publish its items one by one, up to the first that fails, whatever the
log calls meet and whatever others do in between, but for calls. The call of the batch has the
acknowledgements of all items as its answer, or the failure of the first that is not published, and
leaves what the calls of the items leave. -/
theorem publishes_one_by_one {retention : Nat} {pre : List Action} {r : Relay}
    (hr : (new retention).after pre = some r) (b : Nat) (items : List Publication)
    {ts : List Turn} (hts : ∀ t ∈ ts, ∀ a ∈ t.1, a.isCallFree = true) :
    (∀ answer s, r.Performs b items ts answer s ↔ ∃ outcome u, OneByOne b r items ts outcome u ∧
      answer = .ofAcks outcome ∧ s = { u with nextCall := r.nextCall + 1 }) ∧
    (∀ e s, OneByOne b r items ts (.error e) s → ∃ done item rest ts₁ ts₂ acks q,
      items = done ++ item :: rest ∧ ts = ts₁ ++ ts₂ ∧ OneByOne b r done ts₁ (.ok acks) q ∧
      q.Performs b [item] ts₂ (.failed e) s) ∧
    ∀ acks s, r.Performs b items ts (.published acks) s → acks.length = items.length ∧
      ((r.submit b (.publish items)).2.observe deleted
        (.step (.call r.nextCall) .proceed :: ts.flatMap (turn r.nextCall)) = [] →
          (items.zip acks).Pairwise Publication.Precedes) := by
  have hfree : ∀ j, r.nextCall ≤ j → r.calls.find? j = none := by
    intro j hj
    cases hc : r.calls.find? j with
    | none => rfl
    | some call => exact absurd ((numbered_of_after hr).calls j call hc) (Nat.not_lt.2 hj)
  refine ⟨fun answer s => ?_, fun e s h => h.first_failure, fun acks s h =>
    acks_of_performs (valid_of_after hr) h⟩
  rw [performs_iff, answers_iff (hfree _ (Nat.le_refl _)) hfree hts]
  refine exists_congr fun outcome => exists_congr fun u => ?_
  have hacks : outcome.map (([] : List Ack) ++ ·) = outcome := by cases outcome <;> rfl
  rw [hacks]
  refine and_congr_right fun h => and_congr_right fun _ => ?_
  have hcalls := h.calls hfree hts
  rw [withCalls, ← hcalls]

/-- Two publications to one channel, and one that needs a topic for which no slot is left. -/
def twoFit : List Publication :=
  [⟨⟨"a", "x"⟩, [1]⟩, ⟨⟨"a", "x"⟩, [2]⟩, ⟨⟨"b", "x"⟩, [3]⟩]

def besideTwo : List Turn :=
  [([], .proceed), ([.produce "a" "x" [7]], .proceed), ([], .proceed),
    ([.produce "a" "x" [8]], .proceed)]

theorem publishes_one_by_one_of_twoFit : ∃ r s u v,
    (new 4).after [.addRegistry 1, .addBroker { workers := 1, maxTopics := 1 } 0] = some r ∧
    (∀ t ∈ besideTwo, ∀ a ∈ t.1, a.isCallFree = true) ∧
    r.Performs 0 twoFit besideTwo (.failed (.topicCapacityExceeded 1)) s ∧
    OneByOne 0 r twoFit besideTwo (.error (.topicCapacityExceeded 1)) u ∧
    s = { u with nextCall := r.nextCall + 1 } ∧ (s.broker 0).published = 2 ∧
    r.Performs 0 (twoFit.take 2) besideTwo (.published [⟨0, 1⟩, ⟨0, 3⟩]) v ∧
    ((twoFit.take 2).zip [⟨0, 1⟩, ⟨0, 3⟩]).Pairwise Publication.Precedes := by
  have hfree : ∀ t ∈ besideTwo, ∀ a ∈ t.1, a.isCallFree = true := by decide
  have hrun : ((new 4).after [.addRegistry 1, .addBroker { workers := 1, maxTopics := 1 } 0]).bind
      (fun r => ((r.submit 0 (.publish twoFit)).2.act (.step (.call r.nextCall) .proceed)).bind
        fun q => (q.after (besideTwo.flatMap (turn r.nextCall))).map fun u =>
          ((u.collect r.nextCall).1, ((u.collect r.nextCall).2.broker 0).published)) =
      some (some (.failed (.topicCapacityExceeded 1)), 2) := by
    decide +kernel
  have htwo : ((new 4).after [.addRegistry 1, .addBroker { workers := 1, maxTopics := 1 } 0]).bind
      (fun r => ((r.submit 0 (.publish (twoFit.take 2))).2.act
        (.step (.call r.nextCall) .proceed)).bind fun q =>
          (q.after (besideTwo.flatMap (turn r.nextCall))).map fun u =>
            ((u.collect r.nextCall).1, (r.submit 0 (.publish (twoFit.take 2))).2.observe deleted
              (.step (.call r.nextCall) .proceed :: besideTwo.flatMap (turn r.nextCall)))) =
      some (some (.published [⟨0, 1⟩, ⟨0, 3⟩]), []) := by
    decide +kernel
  obtain ⟨r, hr, hrun⟩ := Option.bind_eq_some_iff.1 hrun
  obtain ⟨q, hq, hrun⟩ := Option.bind_eq_some_iff.1 hrun
  obtain ⟨x, hx, hrun⟩ := Option.map_eq_some_iff.1 hrun
  rw [hr, Option.bind_some] at htwo
  obtain ⟨q', hq', htwo⟩ := Option.bind_eq_some_iff.1 htwo
  obtain ⟨y, hy, htwo⟩ := Option.map_eq_some_iff.1 htwo
  simp only [Prod.mk.injEq] at hrun htwo
  have hfails : r.Performs 0 twoFit besideTwo (.failed (.topicCapacityExceeded 1)) _ :=
    ⟨q, hq, x, hx, Prod.ext hrun.1 rfl⟩
  have hsucceeds : r.Performs 0 (twoFit.take 2) besideTwo (.published [⟨0, 1⟩, ⟨0, 3⟩]) _ :=
    ⟨q', hq', y, hy, Prod.ext htwo.1 rfl⟩
  obtain ⟨outcome, u, hone, hanswer, hs⟩ :=
    ((publishes_one_by_one hr 0 twoFit hfree).1 _ _).1 hfails
  have houtcome : outcome = .error (.topicCapacityExceeded 1) := by
    cases outcome with
    | error e =>
      cases hanswer
      rfl
    | ok acks => cases hanswer
  rw [houtcome] at hone
  have hordered := ((publishes_one_by_one hr 0 (twoFit.take 2) hfree).2.2 _ _ hsucceeds).2 htwo.2
  exact ⟨r, _, u, _, hr, hfree, hfails, hone, hs, hrun.2, hsucceeds, hordered⟩

end Relay
end EventRelay
