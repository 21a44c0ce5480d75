import Saipen.Assoc
import Saipen.Log.Grammar
import Saipen.Text.Case
import Saipen.Text.Repr

/-! # Attempts

An attempt is one episode of work on a ticket. Its records are DEC events of the LOG: `parse_attempt_event`
reads one, and `build_attempts` folds a history of them into the attempts and the errors it found. -/

namespace Saipen.Log

open Text

/-! ### The grammar -/

/-- What a sealed provenance token says. -/
structure RuntimeProvenance where
  executorIdentity : String
  sealed : String
deriving DecidableEq

/-- The payload of an attempt event. -/
inductive AttemptText where
  | opened (id : String) (supersedes : Option String) (provenance : Option RuntimeProvenance)
  | closed (id result stop : String) (evidence : List String) (unknown : Option String)
deriving DecidableEq

/-- `A-\d{3,}`, and what follows it. -/
def attemptId (cs : List Char) : Option (String × List Char) := do
  let cs ← literal "A-".toList cs
  let digits := cs.takeWhile isDecimal
  if digits.length < 3 then none
  else some (String.ofList ('A' :: '-' :: digits), cs.dropWhile isDecimal)

/-- `(?:; supersedes (A-\d{3,}))?`. -/
def supersedesGroup (cs : List Char) : Option (Option String × List Char) :=
  match literal "; supersedes ".toList cs with
  | none => some (none, cs)
  | some cs => (attemptId cs).map fun r => (some r.1, r.2)

/-- `(?:; provenance ([A-Za-z0-9_-]+\.[0-9a-f]{64}))?$`. -/
def provenanceGroup (cs : List Char) : Option (Option String) :=
  let isToken (c : Char) := isAsciiAlnum c || c == '_' || c == '-'
  match literal "; provenance ".toList cs with
  | none => if cs = [] then some none else none
  | some cs =>
      match cs.dropWhile isToken with
      | [] => none
      | dot :: digest =>
          if cs.takeWhile isToken ≠ [] ∧ dot = '.' ∧ digest.length = 64 ∧ digest.all isLowerHex then
            some (some (String.ofList cs))
          else none

/-- `OPEN_RE`: the id, what it supersedes and the provenance token. -/
def openLine (cs : List Char) : Option (String × Option String × Option String) := do
  let cs ← literal "attempt ".toList cs
  let (id, cs) ← attemptId cs
  let cs ← literal " open".toList cs
  let (supersedes, cs) ← supersedesGroup cs
  let provenance ← provenanceGroup cs
  some (id, supersedes, provenance)

/-- `[a-z_]+`, and what follows it. -/
def lowerWord (cs : List Char) : Option (String × List Char) :=
  let isLower (c : Char) := c.isLower || c == '_'
  if cs.takeWhile isLower = [] then none
  else some (String.ofList (cs.takeWhile isLower), cs.dropWhile isLower)

/-- `_CLOSE_HEAD_RE`: the id, the result and the stop reason, and what follows them. -/
def closeHead (cs : List Char) : Option ((String × String × String) × List Char) := do
  let cs ← literal "attempt ".toList cs
  let (id, cs) ← attemptId cs
  let cs ← literal " close result ".toList cs
  let (result, cs) ← lowerWord cs
  let cs ← literal " stop ".toList cs
  let (stop, cs) ← lowerWord cs
  some ((id, result, stop), cs)

/-- The second word of a text claims the attempt grammar. -/
def namesAttempt (cs : List Char) : Bool :=
  let second := ((cs.dropWhile fun c => !isSpace c).dropWhile isSpace).takeWhile fun c => !isSpace c
  (literal "A-".toList second).any fun digits => !digits.isEmpty && digits.all isDecimal

variable (p : Printable) (readProvenance : String → Except String RuntimeProvenance)

/-- The first characters of a text, as an error shows them. -/
def excerpt (n : Nat) (cs : List Char) : String := reprStr p (String.ofList (cs.take n))

/-- The evidence references of a close event. -/
def closeEvidence (body : String) : Except String (List String) :=
  if body = "" then .ok []
  else
    match literal "-- evidence ".toList body.toList with
    | none => .error ("malformed attempt close tail: " ++ excerpt p 80 body.toList)
    | some cs =>
        let refs := (split ',' (String.ofList cs)).map strip
        if 8 < refs.length then
          .error ("attempt evidence carries " ++ refs.length.repr ++ " refs; bound is 8")
        else
          match refs.find? fun ref => ((literal "E-".toList ref.toList).bind number?).isNone with
          | some ref => .error ("attempt evidence ref " ++ reprStr p ref ++ " is not an E-### id")
          | none => .ok refs

/-- The unknown clause of a close event. -/
def closeUnknown (clause : String) : Except String String :=
  if '\n' ∈ clause.toList then .error "attempt unknown clause must stay on one line"
  else if 200 < clause.length then
    .error ("attempt unknown clause exceeds 200 chars (got " ++ clause.length.repr ++
      ") -- bounded field, shorten it")
  else .ok clause

/-- What stands behind the head of a close event: the references and the unknown clause. -/
def closeTail (rest : List Char) : Except String (List String × Option String) :=
  match partitionOn "; unknown:".toList rest with
  | none => do
      let refs ← closeEvidence p (strip (String.ofList rest))
      .ok (refs, none)
  | some (body, clause) => do
      let unknown ← closeUnknown (strip (String.ofList clause))
      let refs ← closeEvidence p (strip (String.ofList body))
      .ok (refs, some unknown)

/-- `parse_attempt_text`. -/
def parseAttemptText (text : String) : Except String (Option AttemptText) :=
  let stripped := (strip text).toList
  if (literal "attempt ".toList stripped).isNone then .ok none
  else if namesAttempt stripped = false then .ok none
  else
    match openLine stripped with
    | some (id, supersedes, none) => .ok (some (.opened id supersedes none))
    | some (id, supersedes, some token) =>
        match readProvenance token with
        | .ok provenance => .ok (some (.opened id supersedes (some provenance)))
        | .error e => .error ("invalid runtime provenance: " ++ e)
    | none =>
        match closeHead stripped with
        | none =>
            .error ("malformed attempt event: " ++ excerpt p 120 stripped ++
              " (expected 'attempt A-### open' or 'attempt A-### close " ++
              "result <result> stop <stop> [-- evidence ...][; unknown: ...]')")
        | some ((id, result, stop), rest) => do
            let (evidence, unknown) ← closeTail p rest
            .ok (some (.closed id result stop evidence unknown))

/-- `parse_attempt_event`. -/
def parseAttemptEvent (e : LogEvent) : Except String (Option AttemptText) :=
  if e.taxonomy ≠ "DEC" then .ok none
  else
    match parseAttemptText p readProvenance e.text with
    | .ok (some (.opened id supersedes (some provenance))) =>
        if some provenance.executorIdentity ≠ e.agent then
          .error ("attempt " ++ id ++ " runtime provenance executor_identity does not " ++
            "match the canonical LOG agent seat")
        else .ok (some (.opened id supersedes (some provenance)))
    | parsed => parsed

/-! ### The fold -/

/-- `RESULT_STOP_MATRIX`. -/
def resultStopMatrix : List (String × List String) :=
  [("candidate", ["completed_execution"]), ("failed", ["validation_failure", "capability_missing"]),
    ("interrupted", ["context_limit", "provider_limit", "provider_failure", "process_crash", "unknown"]),
    ("yielded", ["user_stop", "deliberate_handoff"]), ("superseded", ["deliberate_handoff", "unknown"])]

/-- `RESULTS`. -/
def attemptResults : List String := ["candidate", "failed", "interrupted", "yielded", "superseded"]

/-- `STOP_REASONS`. -/
def stopReasons : List String :=
  ["completed_execution", "context_limit", "provider_limit", "provider_failure", "process_crash",
    "user_stop", "capability_missing", "validation_failure", "deliberate_handoff", "unknown"]

/-- An attempt. -/
structure Attempt where
  id : String
  ticket : Option String
  agent : Option String
  openEvent : Nat
  closeEvent : Option Nat := none
  result : Option String := none
  stop : Option String := none
  evidence : List String := []
  unknown : Option String := none
  supersedes : Option String
  runtimeProvenance : Option RuntimeProvenance
  closeAgent : Option String := none
deriving DecidableEq

/-- The attempts so far and the errors found. -/
structure AttemptPass where
  records : List (String × Attempt) := []
  errors : List String := []

/-- The attempt an open event begins. -/
def Attempt.begin (e : LogEvent) (id : String) (supersedes : Option String)
    (provenance : Option RuntimeProvenance) : Attempt :=
  { id, ticket := e.ticket, agent := e.agent, openEvent := e.event, supersedes, runtimeProvenance := provenance }

/-- The attempt as a close event leaves it. -/
def Attempt.finish (e : LogEvent) (result stop : String) (evidence : List String)
    (unknown : Option String) (a : Attempt) : Attempt :=
  { a with
    closeEvent := some e.event, result := some result, stop := some stop, evidence, unknown
    agent := if e.agent.any (· != "") ∧ a.agent.all (· == "") then e.agent else a.agent
    closeAgent := if e.agent.any (· != "") then e.agent else a.closeAgent }

/-- A ticket as an error names it. -/
def ticketName (ticket : Option String) : String :=
  if ticket.getD "" = "" then "none" else ticket.getD ""

/-- Why a close event cannot close its attempt. -/
def closeFault (e : LogEvent) (id result stop : String) : Option Attempt → Option String
  | none => some ("attempt " ++ id ++ " closes without any open event")
  | some a =>
      match a.closeEvent with
      | some first => some ("attempt " ++ id ++ " closed twice (first at E-" ++ first.repr ++ ")")
      | none =>
          if e.ticket ≠ a.ticket then
            some ("attempt " ++ id ++ " close names ticket " ++ ticketName e.ticket ++
              " but its open named " ++ ticketName a.ticket ++ " -- an attempt belongs to exactly one Work")
          else if result ∉ attemptResults then
            some ("attempt " ++ id ++ " result " ++ reprStr p result ++ " is not one of " ++
              "|".intercalate attemptResults)
          else if stop ∉ stopReasons then
            some ("attempt " ++ id ++ " stop reason " ++ reprStr p stop ++ " is not one of " ++
              "|".intercalate stopReasons)
          else
            let allowed := (resultStopMatrix.lookup result).getD []
            if stop ∉ allowed then
              some ("attempt " ++ id ++ " pairs result " ++ result ++ " with stop " ++ stop ++
                "; allowed stops for that result: " ++ "|".intercalate allowed)
            else none

namespace AttemptPass

/-- `errors.append(f"E-{ev['event']}: ...")`. -/
def fail (s : AttemptPass) (e : LogEvent) (error : String) : AttemptPass :=
  { s with errors := s.errors ++ ["E-" ++ e.event.repr ++ ": " ++ error] }

/-- An open event; a predecessor that was never opened is an error, and the attempt is kept. -/
def openAttempt (s : AttemptPass) (e : LogEvent) (id : String) (supersedes : Option String)
    (provenance : Option RuntimeProvenance) : AttemptPass :=
  match s.records.lookup id with
  | some first =>
      s.fail e ("duplicate attempt id " ++ id ++ " (first opened at E-" ++ first.openEvent.repr ++ ")")
  | none =>
      let missing := supersedes.filter fun prior => (s.records.lookup prior).isNone
      let s := missing.elim s fun prior =>
        s.fail e (id ++ " supersedes " ++ prior ++ ", which has no earlier open event")
      { s with records := s.records ++ [(id, Attempt.begin e id supersedes provenance)] }

/-- A close event. -/
def closeAttempt (s : AttemptPass) (e : LogEvent) (id result stop : String) (evidence : List String)
    (unknown : Option String) : AttemptPass :=
  match closeFault p e id result stop (s.records.lookup id) with
  | some error => s.fail e error
  | none =>
      { s with
        records := s.records.map fun r =>
          if r.1 = id then (r.1, r.2.finish e result stop evidence unknown) else r }

/-- One event of the history. -/
def event (s : AttemptPass) (e : LogEvent) : AttemptPass :=
  match parseAttemptEvent p readProvenance e with
  | .error error => s.fail e error
  | .ok none => s
  | .ok (some (.opened id supersedes provenance)) => s.openAttempt e id supersedes provenance
  | .ok (some (.closed id result stop evidence unknown)) =>
      s.closeAttempt p e id result stop evidence unknown

end AttemptPass

/-- The walk along the predecessors of an attempt: an error where it meets one again. Every step adds a
record to `seen`, so that as many steps as there are records are enough. -/
def lineageFault (records : List (String × Attempt)) (start : String) :
    Nat → List String → Option String → Option String
  | 0, _, _ => none
  | _ + 1, _, none => none
  | fuel + 1, seen, some cur =>
      if cur ∈ seen then some ("attempt lineage cycle through " ++ cur ++ " starting at " ++ start)
      else
        match records.lookup cur with
        | none => none
        | some next => lineageFault records start fuel (cur :: seen) next.supersedes

/-- `build_attempts`: the attempts in the order they were opened, and the errors. -/
def buildAttempts (events : List LogEvent) : List (String × Attempt) × List String :=
  let s := events.foldl (AttemptPass.event p readProvenance) {}
  (s.records, s.errors ++ s.records.filterMap fun r =>
    lineageFault s.records r.1 (s.records.length + 2) [r.1] r.2.supersedes)

end Saipen.Log
