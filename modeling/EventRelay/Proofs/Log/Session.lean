import EventRelay.Proofs.History
import EventRelay.Proofs.Log.History
/-!
Histories of a log and its readers, and what the operations and their replies tell of a topic. Main
statements: `step_does`, what an operation comes to, and `appended_concat`, what a topic takes with
it.
-/
namespace EventRelay.Log
open History

inductive Op where
  | create (topic : String) (partitions : Nat)
  | delete (topic : String)
  | produce (topic key : String) (value : List UInt8)
  | tail (topic : String) (partition : Nat)
  | highWatermarks (topic : String)
  | next (reader : Nat)
  | drop (reader : Nat)
  | close
  deriving DecidableEq

inductive Reply where
  | done
  | failed (e : Error)
  | acked (ack : Ack)
  | opened (reader : Nat)
  | marks (offsets : List Nat)
  | found (r : Read)
  /-- There is no such reader. -/
  | unknown
  deriving DecidableEq

/-- A log and its open readers. Readers are numbered in the order of their opening. -/
structure Session where
  log : Log
  readers : Table Nat Cursor := .empty
  opened : Nat := 0

namespace Session

def new (retention : Nat) : Session := { log := .new retention }

/-- Goes on with the log that an operation leaves. One that fails has written nothing, so that the
old log is what it leaves. -/
def change (s : Session) (r : Except Error Log) : Reply × Session :=
  match r with
  | .ok log => (.done, { s with log })
  | .error e => (.failed e, s)

def step (s : Session) : Op → Reply × Session
  | .create t n => s.change (s.log.create t n)
  | .delete t => s.change (s.log.delete t)
  | .produce t key value =>
    match s.log.produce t key value with
    | .ok (ack, log) => (.acked ack, { s with log })
    | .error e => (.failed e, s)
  | .tail t p =>
    match s.log.tail t p with
    | .ok c => (.opened s.opened, { s with
        readers := s.readers.insert s.opened c
        opened := s.opened + 1 })
    | .error e => (.failed e, s)
  | .highWatermarks t =>
    match s.log.highWatermarks t with
    | .ok os => (.marks os, s)
    | .error e => (.failed e, s)
  | .next k =>
    match s.readers.find? k with
    | none => (.unknown, s)
    | some c =>
      match s.log.read c with
      | .record rec => (.found (.record rec), { s with readers := s.readers.insert k (c.past rec) })
      | r => (.found r, s)
  | .drop k => (.done, { s with readers := s.readers.erase k })
  | .close => (.done, { s with log := s.log.close })

inductive Does (s : Session) : Op → Reply → Session → Prop
  | creates {t : String} {n : Nat} {log : Log} (h : s.log.create t n = .ok log) :
      Does s (.create t n) .done { s with log }
  | deletes {t : String} {log : Log} (h : s.log.delete t = .ok log) :
      Does s (.delete t) .done { s with log }
  | produces {t key : String} {value : List UInt8} {ack : Ack} {log : Log}
      (h : s.log.produce t key value = .ok (ack, log)) :
      Does s (.produce t key value) (.acked ack) { s with log }
  | fails {op : Op} {e : Error} : Does s op (.failed e) s
  | opens {t : String} {p : Nat} {c : Cursor} (h : s.log.tail t p = .ok c) :
      Does s (.tail t p) (.opened s.opened) { s with
        readers := s.readers.insert s.opened c
        opened := s.opened + 1 }
  | counts {t : String} {os : List Nat} (h : s.log.highWatermarks t = .ok os) :
      Does s (.highWatermarks t) (.marks os) s
  | returns {k : Nat} {c : Cursor} {rec : Record} (hk : s.readers.find? k = some c)
      (hr : s.log.read c = .record rec) :
      Does s (.next k) (.found (.record rec))
        { s with readers := s.readers.insert k (c.past rec) }
  | waits {k : Nat} {c : Cursor} (hk : s.readers.find? k = some c)
      (hr : s.log.read c = .pending) : Does s (.next k) (.found .pending) s
  | ends {k : Nat} {c : Cursor} (hk : s.readers.find? k = some c)
      (hr : s.log.read c = .ended) : Does s (.next k) (.found .ended) s
  | lacks {k : Nat} : Does s (.next k) .unknown s
  | drops {k : Nat} : Does s (.drop k) .done { s with readers := s.readers.erase k }
  | closes : Does s .close .done { s with log := s.log.close }

theorem step_does (s : Session) (op : Op) : s.Does op (s.step op).1 (s.step op).2 := by
  cases op with
  | create t n =>
    cases h : s.log.create t n with
    | error e => simp only [step, h]; exact .fails
    | ok log => simp only [step, h]; exact .creates h
  | delete t =>
    cases h : s.log.delete t with
    | error e => simp only [step, h]; exact .fails
    | ok log => simp only [step, h]; exact .deletes h
  | produce t key value =>
    cases h : s.log.produce t key value with
    | error e => simp only [step, h]; exact .fails
    | ok x => simp only [step, h]; exact .produces h
  | tail t p =>
    cases h : s.log.tail t p with
    | error e => simp only [step, h]; exact .fails
    | ok c => simp only [step, h]; exact .opens h
  | highWatermarks t =>
    cases h : s.log.highWatermarks t with
    | error e => simp only [step, h]; exact .fails
    | ok os => simp only [step, h]; exact .counts h
  | next k =>
    cases hk : s.readers.find? k with
    | none => simp only [step, hk]; exact .lacks
    | some c =>
      cases hr : s.log.read c with
      | record rec => simp only [step, hk, hr]; exact .returns hk hr
      | pending => simp only [step, hk, hr]; exact .waits hk hr
      | ended => simp only [step, hk, hr]; exact .ends hk hr
  | drop k => exact .drops
  | close => exact .closes

end Session

/-! ### What a history tells of a topic -/

def endsTopic (t : String) : Op × Reply → Bool
  | (.delete u, .done) => u = t
  | (.close, .done) => true
  | _ => false

/-- The record that a topic takes with this, as it was produced and acknowledged. -/
def appendedBy (t : String) : Op × Reply → Option Record
  | (.produce u key value, .acked ack) =>
    if u = t then some ⟨t, ack.partition, ack.offset, key, value⟩ else none
  | _ => none

def isGone (t : String) (tr : List (Op × Reply)) : Bool := tr.any (endsTopic t)

/-- The records that a topic takes before it is gone. -/
def appended (t : String) (tr : List (Op × Reply)) : List Record :=
  (tr.takeWhile fun e => !endsTopic t e).filterMap (appendedBy t)

def appendedTo (t : String) (p : Nat) (tr : List (Op × Reply)) : List Record :=
  (appended t tr).filter (·.partition = p)

section
variable {t : String} {p : Nat} {tr : List (Op × Reply)} {e : Op × Reply}

theorem isGone_concat (t : String) (tr : List (Op × Reply)) (e : Op × Reply) :
    isGone t (tr ++ [e]) = (isGone t tr || endsTopic t e) := by
  simp [isGone]

theorem appended_append (t : String) (tr tr' : List (Op × Reply)) :
    appended t (tr ++ tr') = appended t tr ++ if isGone t tr then [] else appended t tr' := by
  induction tr with
  | nil => rfl
  | cons e tr ih =>
    cases he : endsTopic t e with
    | true => simp [appended, isGone, he]
    | false =>
      have hgone : isGone t (e :: tr) = isGone t tr := by simp [isGone, he]
      have hcons (l : List (Op × Reply)) :
          appended t (e :: l) = (appendedBy t e).toList ++ appended t l := by
        cases ha : appendedBy t e <;> simp [appended, he, ha]
      rw [List.cons_append, hcons, hcons, hgone, ih, List.append_assoc]

theorem appendedBy_of_ends (h : endsTopic t e = true) : appendedBy t e = none := by
  obtain ⟨op, r⟩ := e
  cases op with
  | produce u key value => cases r <;> cases h
  | _ => cases r <;> rfl

theorem appended_concat (t : String) (tr : List (Op × Reply)) (e : Op × Reply) :
    appended t (tr ++ [e]) = appended t tr ++
      if isGone t tr then [] else (appendedBy t e).toList := by
  have hone : appended t [e] = (appendedBy t e).toList := by
    cases he : endsTopic t e with
    | true => simp [appended, he, appendedBy_of_ends he]
    | false => cases ha : appendedBy t e <;> simp [appended, he, ha]
  rw [appended_append, hone]

theorem appendedTo_concat_of_none (h : isGone t tr = false → appendedBy t e = none) :
    appendedTo t p (tr ++ [e]) = appendedTo t p tr := by
  rw [appendedTo, appended_concat]
  cases hg : isGone t tr with
  | true => simp [appendedTo]
  | false => simp [appendedTo, h hg]

theorem appendedTo_concat_of_some {rec : Record} (hg : isGone t tr = false)
    (h : appendedBy t e = some rec) : appendedTo t p (tr ++ [e]) =
      appendedTo t p tr ++ if rec.partition = p then [rec] else [] := by
  rw [appendedTo, appended_concat, hg, h]
  by_cases hp : rec.partition = p <;> simp [appendedTo, hp]

end

end EventRelay.Log
