import Saipen.Board.Graph
import Saipen.Text.Case
import Saipen.Text.Repr

/-! # Where an implementation was published

`resolve_implementation_source` follows a source through tickets, Source receipts and cohorts until it comes
to evidence of a publication. Every link is followed with the chain of the sources behind it, which no source
may repeat and which has a bounded length. -/

namespace Saipen.Closure

open Text Board

/-! ### Release records -/

/-- What is read of a release record. -/
structure Release where
  operation : Option String := none
  status : Option String := none
  releaseStage : Option String := none
  mode : Option String := none
  opId : Option String := none
  version : Option String := none
  tag : Option String := none
  commit : Option String := none
  releaseCommit : Option String := none
  ticketId : Option String := none
  cohortId : Option String := none
deriving DecidableEq

/-- `str(value or "")`. -/
def text (value : Option String) : String := value.getD ""

/-- `_is_published`: a record of a release that has come to its end. -/
def isPublished (r : Release) : Bool :=
  if r.operation = some "release" ∧ r.status = some "COMMITTED" then r.releaseStage = some "COMMITTED"
  else text r.commit ≠ "" ∨ text r.releaseCommit ≠ "" ∨ (r.mode = some "no-publish" ∧ text r.opId ≠ "")

/-- `str.lstrip("v")`. -/
def lstripV (s : String) : String := String.ofList (s.toList.dropWhile (· = 'v'))

/-- The names a record answers to. -/
def candidates (r : Release) : List String :=
  [text r.opId, text r.version, text r.tag, text r.commit, text r.releaseCommit].filter (· ≠ "")

/-- `_release_matches`. -/
def releaseMatches (r : Release) (wanted : String) : Bool :=
  wanted ∈ candidates r ∨ lstripV wanted ∈ (candidates r).map lstripV

/-! ### Cohorts -/

/-- Where a cohort says that its members were published. -/
structure SuccessorEdge where
  cohort : Option String
  opId : String

/-- A cohort of the registry. A `publication_successor` that is no object has the error it raises. -/
structure Cohort where
  publicationStatus : Option String := none
  releaseOpId : Option String := none
  version : Option String := none
  publicationSuccessor : Option (Except String SuccessorEdge) := none

/-- The cohorts of the registry, by their ids. -/
abbrev Registry := List (String × Cohort)

/-- A reconciliation receipt that has been validated. -/
structure Reconciliation where
  sources : List String
  target : String

/-! ### The project -/

/-- The answer of `intake.status`. -/
structure ReceiptStatus where
  ok : Bool
  status : Option String := none
  linkedWork : Option String := none
  detail : Option String := none
  code : Option String := none

/-- What the resolver reads. -/
structure World where
  printable : Printable
  /-- The text of `BOARD.md`. -/
  board : String
  /-- The cohort registry, or what is wrong with it. -/
  registry : Except String Registry
  /-- `_committed_release_receipts`; none when it raises. -/
  committed : Option (List Release)
  /-- `release_receipt.json`, when it is an object. -/
  receipt : Option Release
  /-- The objects in `release_receipts/`, file after file. -/
  receipts : List Release
  /-- `cohort_reconcile.receipt`. -/
  reconciliation : Registry → String → Except String Reconciliation
  /-- `external.resolution_problems`. -/
  resolutionProblems : Ticket → List String
  /-- `intake.status`. -/
  receiptStatus : String → ReceiptStatus

variable (w : World)

/-- A record is taken once. -/
def adopt (records : List Release) (r : Release) : List Release := if r ∈ records then records else records ++ [r]

/-- `_published_releases`. -/
def publishedReleases : List Release :=
  let records := w.receipt.toList.foldl adopt (w.committed.getD [])
  (w.receipts.foldl adopt records).filter isPublished

/-- `cohort_reconcile.successor`, of a cohort that names one. -/
def successorCohort (registry : Registry) (cohortId : String) (edge : Except String SuccessorEdge) :
    Except String (String × Cohort) := do
  let edge ← edge
  let data ← w.reconciliation registry edge.opId
  if cohortId ∉ data.sources ∨ edge.cohort ≠ some data.target then
    .error "cohort publication successor does not bind this source"
  else
    match registry.lookup data.target with
    | none => .error (reprStr w.printable data.target)
    | some target =>
        if target.publicationSuccessor.isSome then .error "nested cohort reconciliation is unsupported"
        else if target.publicationStatus = some "shipped" ∧ ¬ (publishedReleases w).any fun r =>
            r.opId = target.releaseOpId ∧ r.version = target.version ∧ r.cohortId = some data.target then
          .error "successor cohort has no matching terminal publication receipt"
        else .ok (data.target, target)

/-- The cohort whose publication counts for a cohort of the registry. -/
def provenCohort (registry : Registry) (cohortId : String) (cohort : Cohort) : Except String (String × Cohort) :=
  match cohort.publicationSuccessor with
  | none => .ok (cohortId, cohort)
  | some edge => successorCohort w registry cohortId edge

/-! ### Verdicts -/

/-- What proves a publication. -/
inductive Evidence where
  | release (r : Release)
  | cohort (id : String) (c : Cohort)

/-- `SourceVerdict`. -/
structure SourceVerdict where
  ok : Bool
  source : String
  kind : String
  detail : String
  chain : List String := []
  evidence : Option Evidence := none

/-- What is found at a source: an answer, or the source behind it and how its answer is told. -/
inductive Found where
  | settled (ok : Bool) (detail : String) (evidence : Option Evidence)
  | follow (next : String) (granted refused : String → String)

/-- `repr` of a text that may be missing. -/
def reprText (value : Option String) : String := (value.map (reprStr w.printable)).getD "None"

/-- A refusal. -/
def refuse (detail : String) : Found := .settled false detail none

/-- `^T-\d+$`. -/
def isTicketId (s : String) : Bool :=
  match literal "T-".toList s.toList with
  | some digits => (number? digits).isSome
  | none => false

/-- `^SRC-\d+$`. -/
def isReceiptId (s : String) : Bool :=
  match literal "SRC-".toList s.toList with
  | some digits => (number? digits).isSome
  | none => false

/-- `^release:(\S+)$`. -/
def releaseId? (s : String) : Option String :=
  match literal "release:".toList s.toList with
  | some name => if name ≠ [] ∧ ¬ name.any isSpace then some (String.ofList name) else none
  | none => none

/-- `closure_mode`. -/
def closureMode (t : Ticket) : String :=
  let value := lower (t.field "closure_mode")
  if value ∈ ["own_patch", "inherited_verified", "cohort", "superseded_verified", "external_implementation",
    "finding_invalidated"] then value else "own_patch"

/-- `superseded_by`. -/
def supersededBy (t : Ticket) : Option String :=
  if isTicketId (t.field "superseded_by") then some (t.field "superseded_by") else none

/-- `implementation_source`. -/
def implementationSource (t : Ticket) : Option String :=
  if t.field "implementation_source" = "" then none else some (t.field "implementation_source")

/-- `closure_cohort`. -/
def closureCohort (t : Ticket) : Option String :=
  match literal "C-".toList (t.field "closure_cohort").toList with
  | some digits => if (number? digits).isSome then some (t.field "closure_cohort") else none
  | none => none

/-- `external_implementation`: `T-\d+@[0-9a-f]{7,40}`. -/
def externalImplementation (t : Ticket) : Option String :=
  let value := t.field "external_implementation"
  match literal "T-".toList value.toList with
  | some cs =>
      match literal ['@'] (cs.dropWhile isDecimal) with
      | some hash =>
          if (number? (cs.takeWhile isDecimal)).isSome ∧ 7 ≤ hash.length ∧ hash.length ≤ 40 ∧
            hash.all isLowerHex then some value else none
      | none => none
  | none => none

/-- `external_evidence`: `EX-\d{6}`. -/
def externalEvidence (t : Ticket) : Option String :=
  let value := t.field "external_evidence"
  match literal "EX-".toList value.toList with
  | some digits => if digits.length = 6 ∧ digits.all isDecimal then some value else none
  | none => none

/-- The record that a `release:` source names. -/
def resolveRelease (source wanted : String) : Found :=
  match (publishedReleases w).find? (releaseMatches · wanted) with
  | some r => .settled true ("durable release evidence: version " ++ reprText w r.version ++ " tag " ++
      reprText w r.tag) (some (.release r))
  | none => refuse ("implementation source " ++ reprStr w.printable source ++ " cannot be resolved to a durable " ++
      "published release; no COMMITTED release receipt names " ++ reprStr w.printable wanted)

/-- A ticket that was closed with its cohort: the cohort, or the one its members were published with. -/
def resolveCohort (t : Ticket) : Found :=
  match closureCohort t with
  | none => refuse (t.id ++ " closed as cohort with no C-### authority")
  | some cohortId =>
      match w.registry with
      | .error e => refuse ("cohort registry unreadable: " ++ e)
      | .ok registry =>
          match registry.lookup cohortId with
          | none => refuse (t.id ++ " names cohort " ++ cohortId ++ ", which has no durable registry record -- " ++
              "BOARD prose is not cohort authority")
          | some cohort =>
              match provenCohort w registry cohortId cohort with
              | .error e => refuse ("cohort publication successor is unproven: " ++ e)
              | .ok (cohortId, cohort) =>
                  if cohort.publicationStatus ≠ some "shipped" then
                    refuse (t.id ++ " belongs to cohort " ++ cohortId ++ ", whose publication is still " ++
                      reprStr w.printable (cohort.publicationStatus.getD "pending") ++ "; an unshipped cohort " ++
                      "has published nothing to inherit")
                  else if text cohort.releaseOpId = "" ∨ text cohort.version = "" then
                    refuse ("cohort " ++ cohortId ++ " claims shipped without an exact release identity " ++
                      "(release_op_id/version)")
                  else .settled true (t.id ++ " published through cohort " ++ cohortId ++ " (release " ++
                    text cohort.releaseOpId ++ ", version " ++ text cohort.version ++ ")")
                    (some (.cohort cohortId cohort))

/-- A ticket with a patch of its own. -/
def resolveOwnPatch (t : Ticket) : Found :=
  match (publishedReleases w).find? fun r => text r.ticketId = t.id with
  | some r => .settled true (t.id ++ " owns committed release evidence (version " ++ reprText w r.version ++
      ", tag " ++ reprText w r.tag ++ ")") (some (.release r))
  | none => refuse (t.id ++ " is DONE but no committed release evidence names it; DONE is an evidence claim, " ++
      "never proof of publication")

/-- A DONE ticket, by the way it was closed. -/
def resolveDone (ticketId : String) (t : Ticket) : Found :=
  if closureMode t = "external_implementation" then
    if w.resolutionProblems t = [] then
      .settled true (ticketId ++ " was implemented by " ++ (externalImplementation t).getD "None" ++
        " and verified locally against the installed generation (" ++
          (externalEvidence t).getD "None" ++ ")") none
    else refuse (ticketId ++ " closed external_implementation but the resolution is not current: " ++
      "; ".intercalate ((w.resolutionProblems t).take 4))
  else if closureMode t = "superseded_verified" then
    match supersededBy t with
    | none => refuse (ticketId ++ " closed superseded_verified with no superseded_by Work")
    | some successor => .follow successor (ticketId ++ " was superseded by " ++ successor ++ ": " ++ ·)
        (ticketId ++ " was superseded by " ++ successor ++ ", which has no proven publication: " ++ ·)
  else if closureMode t = "inherited_verified" then
    match implementationSource t with
    | none => refuse (ticketId ++ " closed inherited_verified with no implementation_source; its own " ++
        "authority is missing")
    | some inner => .follow inner (ticketId ++ " inherits from " ++ inner ++ ": " ++ ·)
        (ticketId ++ " inherits from " ++ inner ++ ", which cannot be resolved: " ++ ·)
  else if closureMode t = "cohort" then resolveCohort w t
  else resolveOwnPatch w t

/-- `_resolve_work`. -/
def resolveWork (ticketId : String) : Found :=
  match (parseBoard w.board).ticket ticketId with
  | none => refuse (ticketId ++ " is on no BOARD section")
  | some t =>
      if t.sectionName ≠ "## DONE" then
        refuse (ticketId ++ " sits under " ++ t.sectionName ++ "; unfinished Work cannot be publication " ++
          "authority -- only a DONE ticket whose implementation is actually published may be inherited")
      else resolveDone w ticketId t

/-- `_resolve_receipt`. -/
def resolveReceipt (receiptId : String) : Found :=
  let status := w.receiptStatus receiptId
  if status.ok = false then
    refuse (receiptId ++ " is not a readable Source receipt: " ++
      if text status.detail ≠ "" then text status.detail else status.code.getD "None")
  else if text status.status ≠ "CLOSED" then
    refuse (receiptId ++ " is " ++ (if text status.status = "" then "ACTIVE" else text status.status) ++
      "; a Source is provenance, not publication, and a non-terminal Source proves nothing was published from it")
  else
    match status.linkedWork with
    | none | some "" => refuse (receiptId ++ " is terminal but names no durable linked Work")
    | some work => .follow work (receiptId ++ " -> " ++ work ++ ": " ++ ·)
        (receiptId ++ " links " ++ work ++ ", which cannot be resolved: " ++ ·)

/-- What a source is, and what is found at it. -/
def found (source : String) : String × Found :=
  match releaseId? source with
  | some wanted => ("release", resolveRelease w source wanted)
  | none =>
      if isTicketId source then ("work", resolveWork w source)
      else if isReceiptId source then ("source", resolveReceipt w source)
      else ("grammar", refuse ("implementation source " ++ reprStr w.printable source ++ " is outside the closed " ++
        "grammar (release:<id>, T-###, SRC-###); an authority that cannot be checked is not an authority"))

/-- `_MAX_DEPTH`. -/
def maxDepth : Nat := 32

/-- The resolver behind a chain of sources, with so many more to go. -/
def resolveFrom : Nat → List String → String → SourceVerdict
  | n, chain, raw =>
      let source := strip raw
      if source = "" then { ok := false, source, kind := "missing", detail := "no implementation source was named" }
      else if source ∈ chain then
        { ok := false, source, kind := "cycle", chain := chain ++ [source]
          detail := "implementation provenance is cyclic: " ++ " -> ".intercalate (chain ++ [source]) ++
            " -- no member of this chain proves publication" }
      else
        match n with
        | 0 => { ok := false, source, kind := "depth", chain := chain ++ [source]
                 detail := "implementation provenance chain exceeds " ++ maxDepth.repr ++ " links; refuse" }
        | n + 1 =>
            let kind := (found w source).1
            match (found w source).2 with
            | .settled ok detail evidence => { ok, source, kind, detail, chain := chain ++ [source], evidence }
            | .follow next granted refused =>
                let v := resolveFrom n (chain ++ [source]) next
                if v.ok then { v with source, kind, detail := granted v.detail }
                else { ok := false, source, kind, detail := refused v.detail, chain := v.chain }

/-- `resolve_implementation_source`. -/
def resolveImplementationSource (source : String) : SourceVerdict := resolveFrom w maxDepth [] source

end Saipen.Closure
