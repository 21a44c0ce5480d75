import Saipen.Intake.Contract
import Saipen.SourceAppend.Ledger
import Mathlib.Logic.Function.Basic

/-! # Calls of `append` and `apply_append`

A call reads the ledger file, and rewrites it under the writer lock one or more steps later. Between any two
of these steps the steps of other calls may come. What a call finds out elsewhere (the capture of the receipt,
its authority, the Work it is linked to, its clauses) is given with the call. -/

namespace Saipen.SourceAppend

open Text

/-! ### Requests -/

/-- The captured receipt of an append, with what was asked of it. -/
structure Draft where
  receipt : String
  klass : String
  delta : String
  supersedes : List String
  label : String
  receivedAt : String
  sourceSha256 : Option String
deriving DecidableEq

/-- The entry that `append` writes. -/
def Draft.entry (draft : Draft) (seq : Nat) : Entry where
  receipt := draft.receipt
  seq := seq
  klass := draft.klass
  delta := draft.delta
  supersedes := draft.supersedes
  label := draft.label
  state := .received
  receivedAt := draft.receivedAt
  sourceSha256 := draft.sourceSha256
  derivedClauses := []
  work := []
  rewind := none
  projectedAt := none
  steps := []
  supersededBy := none
  createdWork := none
  superseded := []
  requestWitness := none

/-- What a projection finds out outside the ledger. -/
structure Answers where
  /-- `authority["amend_work"]`. -/
  amendWork : Bool
  work : String
  created : Option String
  clauseIds : List String
  rewind : Option (String × String × String)
  now : String
  witness : Option String
deriving DecidableEq

/-- A call of `apply_append` with the entry that it found. -/
structure Application where
  receipt : String
  source : String
  entry : Entry
  answers : Answers
  /-- What `_apply_supersession` has marked so far. -/
  done : List String
deriving DecidableEq

/-- The steps that `_mark_step` records. -/
inductive Mark where
  | linked
  | derived
  | superseded
deriving DecidableEq

/-- The text of a step. -/
def Mark.text : Mark → String
  | .linked => "linked"
  | .derived => "derived"
  | .superseded => "superseded"

/-! ### Changes of an entry -/

/-- `entry["steps"].append(step)`. -/
def Entry.mark (m : Mark) (e : Entry) : Entry := { e with steps := e.steps ++ [m.text] }

/-- What `_apply_supersession` sets. -/
def Entry.supersede (receipt : String) (e : Entry) : Entry :=
  { e with state := .superseded, supersededBy := some receipt }

/-- `sorted(set(work) | {member})`. -/
def withMember (work : List String) (member : String) : List String := (work.insert member).dedup.mergeSort (· ≤ ·)

/-- What the last step of `apply_append` sets. -/
def Entry.project (a : Application) (e : Entry) : Entry :=
  { e with
    state := .projected
    work := withMember e.work a.answers.work
    derivedClauses := a.answers.clauseIds
    rewind := a.answers.rewind
    projectedAt := some a.answers.now
    createdWork := a.answers.created
    superseded := a.done
    requestWitness := a.answers.witness }

/-- `SRC-\d+:R\d+`. -/
def isClauseReference (target : String) : Bool :=
  let owner := target.toList.takeWhile (· ≠ ':')
  Intake.validReceiptId (String.ofList owner) && Intake.isClauseId (String.ofList owner) target

/-- The receipts that a projection supersedes, of the ledger it has read. -/
def targets (a : Application) (l : Ledger) : List String :=
  if a.entry.klass = "SUPERSEDE" ∧ a.entry.supersedes = [] then
    (l.appends.filter fun e =>
      e.receipt ≠ a.receipt ∧ e.seq < a.entry.seq ∧ e.state ≠ .superseded).map (·.receipt)
  else a.entry.supersedes

/-! ### Points of a call -/

/-- Where a call is. A point that holds a ledger holds it as it was read. -/
inductive Point where
  | idle
  /-- `append` has captured the receipt and reads the ledger next. -/
  | captured (source : String) (draft : Draft)
  | adding (source : String) (base : Ledger) (draft : Draft)
  /-- `_mark_step` reads the ledger next. -/
  | marking (a : Application) (m : Mark)
  | marked (a : Application) (m : Mark) (base : Ledger)
  /-- `_apply_supersession` reads the ledger next. -/
  | superseding (a : Application)
  | replacing (a : Application) (copy : Ledger) (rest : List String)
  | rereading (a : Application) (target : String) (rest : List String)
  | replaced (a : Application) (base : Ledger) (target : String) (rest : List String)
  /-- `apply_append` reads the ledger for its last step next. -/
  | projecting (a : Application)
  | projected (a : Application) (base : Ledger)
deriving DecidableEq

/-- What a call returns. -/
inductive Reply where
  | appendReceived (source receipt : String) (seq : Nat)
  | alreadyAppended (source receipt : String) (seq : Nat) (state : EntryState)
  | appendNotFound (receipt : String)
  | alreadyProjected (source receipt : String) (work derivedClauses : List String)
  | appendSuperseded (source receipt : String)
  | appendProjected (source receipt work : String) (created : Option String) (derivedClauses superseded : List String)
      (rewind : Option (String × String × String))
deriving DecidableEq

/-- The ledger files, the calls by the processes they run in, and what calls have returned. -/
structure State where
  files : Directory
  point : Nat → Point
  replies : List Reply

/-- A call goes on to another point. -/
def State.goTo (s : State) (p : Nat) (point : Point) : State := { s with point := Function.update s.point p point }

/-- A call returns. -/
def State.return (s : State) (p : Nat) (reply : Reply) : State :=
  { s.goTo p .idle with replies := s.replies ++ [reply] }

/-- A call goes on with the ledger it reads. A ledger that cannot be read ends it. -/
def State.read (s : State) (p : Nat) (source : String) (next : Ledger → State) : State :=
  match readLedger s.files source with
  | .error _ => s.goTo p .idle
  | .ok l => next l

/-- A ledger file is written. -/
def State.write (s : State) (source : String) (l : Ledger) : State :=
  { s with files := writeLedger s.files source l }

/-- Where `apply_append` goes on behind a recorded step. -/
def afterMark (a : Application) : Mark → Point
  | .linked => .marking a .derived
  | .derived => if a.answers.amendWork then .superseding a else .marking a .superseded
  | .superseded => .projecting a

/-- A step of a process. -/
inductive Action where
  /-- `append` is called, and captures the receipt. -/
  | append (source : String) (draft : Draft)
  | apply (receipt : String) (answers : Answers)
  /-- The call goes on. At a superseded target it is told which requirements were marked. -/
  | go (rids : List String)
  /-- The call is refused, raises or dies. -/
  | fail
deriving DecidableEq

/-- `apply_append` up to its first step in the ledger. -/
def applyAppend (s : State) (p : Nat) (receipt : String) (answers : Answers) : State :=
  match findAppend s.files receipt with
  | none => s.return p (.appendNotFound receipt)
  | some (source, e) =>
      match e.state with
      | .projected => s.return p (.alreadyProjected source receipt e.work e.derivedClauses)
      | .superseded => s.return p (.appendSuperseded source receipt)
      | .received => s.goTo p (.marking ⟨receipt, source, e, answers, []⟩ .linked)

/-- The next step of a call. -/
def go (s : State) (p : Nat) (rids : List String) : Point → State
  | .idle => s
  | .captured source draft => s.read p source fun l =>
      match l.entry draft.receipt with
      | some e => s.return p (.alreadyAppended source draft.receipt e.seq e.state)
      | none => s.goTo p (.adding source l draft)
  | .adding source base draft =>
      let seq := base.appends.length + 1
      (s.write source ⟨base.appends ++ [draft.entry seq]⟩).return p (.appendReceived source draft.receipt seq)
  | .marking a m => s.read p a.source fun l =>
      match l.entry a.receipt with
      | some e => if m.text ∈ e.steps then s.goTo p (afterMark a m) else s.goTo p (.marked a m l)
      | none => s.goTo p (afterMark a m)
  | .marked a m base => (s.write a.source (base.update a.receipt (Entry.mark m))).goTo p (afterMark a m)
  | .superseding a => s.read p a.source fun l => s.goTo p (.replacing a l (targets a l))
  | .replacing a copy rest =>
      match rest with
      | [] => s.goTo p (.marking a .superseded)
      | target :: rest =>
          if isClauseReference target then
            -- a requirement that is terminal already is left alone
            s.goTo p (.replacing { a with done := a.done ++ if rids = [] then [] else [target] } copy rest)
          else
            match copy.entry target with
            | none => s.goTo p (.replacing a copy rest)
            | some _ => s.goTo p (.rereading { a with done := a.done ++ rids } target rest)
  | .rereading a target rest => s.read p a.source fun l =>
      match l.entry target with
      | none => s.goTo p .idle
      | some _ => s.goTo p (.replaced a l target rest)
  | .replaced a base target rest =>
      let l := base.update target (Entry.supersede a.receipt)
      (s.write a.source l).goTo p (.replacing { a with done := a.done ++ [target] } l rest)
  | .projecting a => s.read p a.source fun l =>
      match l.entry a.receipt with
      | none => s.goTo p .idle
      | some _ => s.goTo p (.projected a l)
  | .projected a base =>
      (s.write a.source (base.update a.receipt (Entry.project a))).return p
        (.appendProjected a.source a.receipt a.answers.work a.answers.created a.answers.clauseIds a.done
          a.answers.rewind)

/-- One step of a process. -/
def step (s : State) (p : Nat) : Action → Option State
  | .append source draft => if s.point p = .idle then some (s.goTo p (.captured source draft)) else none
  | .apply receipt answers => if s.point p = .idle then some (applyAppend s p receipt answers) else none
  | .go rids => if s.point p = .idle then none else some (go s p rids (s.point p))
  | .fail => if s.point p = .idle then none else some (s.goTo p .idle)

end Saipen.SourceAppend
