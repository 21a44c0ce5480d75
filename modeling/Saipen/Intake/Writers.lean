import Saipen.Intake.Coverage

/-! # Writing the Contract and the coverage ledger

`addRequirements` puts a batch of clauses into the Contract, into a new revision of it and into the
ledger; `setDisposition` settles one entry of the ledger. Both are guarded by the integrity of the source
body, the first by the integrity of the Contract as well. -/

namespace Saipen.Intake

open Checks Text

/-- What an operation takes from outside the files of the receipt. -/
structure World where
  /-- The digest of the stored body, or the refusal of reading it. -/
  bodyDigest : Except Refusal String
  /-- `_utc()`. -/
  utc : String
  /-- The refusal of `apply_plan`; nothing when the plan is committed. -/
  commit : Option Refusal
  /-- `_probe_environment_absence`: the record of the probe. -/
  probeEnvironmentAbsence : String → Except Refusal Json
  /-- The refusal of evidence for an implemented or verified clause: of what its citations, its scope and
  the execution receipts it names do not bear out. -/
  evidenceRefusal : Shelf → String → Option String → Option String → Option Refusal

/-- `_write_refusal` of a value error. -/
def writeRefusal (detail : String) : Refusal := ⟨"VALIDATION_FAILED", detail⟩

/-- `verify_integrity`: the stored body has the recorded digest. -/
def World.verifyIntegrity (w : World) (receiptId : String) (s : Shelf) : Except Refusal Unit := do
  refuseIf (!validReceiptId receiptId) ⟨"INVALID_ID", receiptId⟩
  let missing : Refusal := ⟨"INVALID", "receipt metadata missing"⟩
  let metadata ← orRefuse (← s.readMeta.mapError writeRefusal) missing
  refuseIf metadata.isEmpty missing
  let actual ← w.bodyDigest
  refuseIf (!(metadata.valueAt "source_sha256").same (.str actual)) ⟨"SOURCE_CORRUPTION", actual⟩

/-! ### Requests -/

/-- A clause to add. A class that is not given is `""`. -/
structure ClauseRequest where
  rid : String
  text : String
  clauseClass : String
  whenEnvironment : Option String

/-- `R\d+`, the short name of a clause, is completed by its receipt. -/
def completeId (receiptId rid : String) : String :=
  match literal "R".toList rid.toList with
  | some digits => if (number? digits).isSome then receiptId ++ ":" ++ rid else rid
  | none => rid

/-- A clause under its full name; a class that is not given is `requirement`. -/
def ClauseRequest.complete (receiptId : String) (item : ClauseRequest) : ClauseRequest :=
  { item with
    rid := completeId receiptId item.rid
    clauseClass := if item.clauseClass = "" then "requirement" else item.clauseClass }

/-- One clause of `validate_requirement_clauses`. -/
def normalizeClause (receiptId : String) (item : ClauseRequest) : Except Refusal ClauseRequest := do
  let c := item.complete receiptId
  refuseIf (!isClauseId receiptId c.rid) ⟨"INVALID_ID", c.rid⟩
  refuseIf (strip c.text == "") ⟨"VALIDATION_FAILED", "empty clause text"⟩
  refuseIf (c.clauseClass ∉ clauseClasses)
    ⟨"VALIDATION_FAILED", "unknown clause class " ++ quote c.clauseClass⟩
  refuseIf (c.whenEnvironment.any fun name => !isEnvironmentName name)
    ⟨"VALIDATION_FAILED", "invalid environment identity " ++ quote (c.whenEnvironment.getD "")⟩
  pure c

/-- `validate_requirement_clauses`. -/
def validateRequirementClauses (receiptId : String) (items : List ClauseRequest) :
    Except Refusal (List ClauseRequest) := do
  refuseIf (!validReceiptId receiptId) ⟨"INVALID_ID", receiptId⟩
  refuseIf items.isEmpty ⟨"VALIDATION_FAILED", "no clause to add"⟩
  items.mapM (normalizeClause receiptId)

/-! ### Adding clauses -/

/-- The field for an environment, where one is given. -/
def environmentField (name : Option String) : Dict :=
  match name with
  | some name => if name = "" then [] else [("when_environment", .str name)]
  | none => []

/-- A clause as the Contract has it. -/
def ClauseRequest.contractClause (c : ClauseRequest) : Dict :=
  [("class", .str c.clauseClass), ("text", .str c.text),
    ("actionable", .bool (c.clauseClass ∈ actionableClasses))] ++ environmentField c.whenEnvironment

/-- A clause as the ledger has it at first. -/
def ClauseRequest.entry (c : ClauseRequest) (linkedWork : Json) : Dict :=
  [("class", .str c.clauseClass), ("text", .str c.text),
    ("actionable", .bool (c.clauseClass ∈ actionableClasses)), ("disposition", .str "UNKNOWN"),
    ("work", linkedWork), ("evidence", .null), ("verification", .null)] ++
    environmentField c.whenEnvironment

/-- The loop of `add_requirements`: each clause is put into the Contract and into the ledger. -/
def putClauses (linkedWork : Json) : List ClauseRequest → Dict × Dict → Except Refusal (Dict × Dict)
  | [], written => .ok written
  | c :: cs, (clauses, requirements) => do
      refuseIf (requirements.get c.rid).isSome
        ⟨"VALIDATION_FAILED", "requirement " ++ c.rid ++ " exists"⟩
      putClauses linkedWork cs
        (clauses.set c.rid (.obj c.contractClause), requirements.set c.rid (.obj (c.entry linkedWork)))

/-- A number of at least three digits, `{n:03d}`. -/
def padded (n : Nat) : String := String.ofList (List.replicate (3 - n.repr.length) '0') ++ n.repr

/-- The Contract with other clauses, as its next revision. -/
def nextContract (contract clauses : Dict) (revision : Nat) (utc : String) : Dict :=
  ((contract.set "clauses" (.obj clauses)).set "interpretation_revision" (.int revision)).set
    "derived_at" (.str utc)

/-- `add_requirements`: the files once the plan is committed. -/
def World.addRequirements (w : World) (receiptId : String) (items : List ClauseRequest) (s : Shelf) :
    Except Refusal Shelf := do
  let normalized ← validateRequirementClauses receiptId items
  let absent : Refusal := ⟨"TICKET_NOT_FOUND", "no active receipt " ++ receiptId⟩
  let metadata ← orRefuse (← s.readMeta.mapError writeRefusal) absent
  refuseIf metadata.isEmpty absent
  w.verifyIntegrity receiptId s
  s.contractIntegrity receiptId metadata
  let ledger ← s.readCoverage.mapError writeRefusal
  let drift : Refusal := ⟨"CONTRACT_DRIFT", "contract missing or source digest mismatch"⟩
  let contract ← orRefuse (← s.readContract.mapError writeRefusal) drift
  refuseIf (contract.isEmpty || !(contract.valueAt "source_sha256").same (metadata.valueAt "source_sha256"))
    drift
  let clauses := (contract.valueAt "clauses").dict?.getD []
  let requirements := (ledger.valueAt "requirements").dict?.getD []
  let (clauses, requirements) ← putClauses (metadata.valueAt "linked_work") normalized
    (clauses, requirements)
  let revision := (revisionOf contract).getD 0 + 1
  let contract := Json.obj (nextContract contract clauses revision w.utc)
  refuseIf (s.revisions.any fun file => file.place == .contracts && file.number == padded revision)
    ⟨"VALIDATION_FAILED", "contract revision already exists: " ++ receiptId ++ " r" ++ revision.repr⟩
  refuseOn w.commit id
  pure { s with
    contract := some (.written contract)
    revisions := s.revisions ++ [⟨.contracts, padded revision, .written contract⟩]
    coverage := some (.written (.obj (ledger.set "requirements" (.obj requirements)))) }

/-! ### Settling a clause -/

/-- A disposition for a clause and what is brought forward for it. -/
structure Disposal where
  rid : String
  disposition : String
  work : Option String
  evidence : Option String
  verification : Option String
  environment : Option String
  evidenceClass : Option String

/-- A text that is given and not empty. -/
def given (text : Option String) : Option String := text.filter (· ≠ "")

/-- `validate_evidence_class`. -/
def validateEvidenceClass (evidenceClass : Option String) : Except Refusal Unit :=
  refuseIf (evidenceClass.any fun name => upper name ∉ evidenceClasses)
    ⟨"VALIDATION_FAILED", "unknown evidence class " ++ quote (evidenceClass.getD "")⟩

/-- What does not count as a verification. -/
def hollowVerifications : List String :=
  ["pass", "passed", "ok", "true", "yes", "done", "test", "verified", "lifecycle progression"]

/-- The record of the environment a clause waits for, where it is said to be unavailable. -/
def World.environmentProof (w : World) (s : Shelf) (rid : String) (d : Disposal) :
    Except Refusal (Option Json) :=
  if d.disposition = "UNAVAILABLE_ENVIRONMENT" then do
    let contract ← s.readContract.mapError writeRefusal
    let clauses := ((contract.getD []).valueAt "clauses").dict?.getD []
    let clause := (clauses.valueAt rid).dict?.getD []
    let declared := strip ((clause.valueAt "when_environment").str?.getD "")
    let refused : Refusal := ⟨"ENVIRONMENT_WAIVER_REFUSED",
      "UNAVAILABLE_ENVIRONMENT requires a matching structured when_environment clause and --environment probe"⟩
    let environment ← orRefuse (given d.environment) refused
    refuseIf (declared ≠ environment) refused
    some <$> w.probeEnvironmentAbsence environment
  else .ok none

/-- The evidence a disposition is written with. -/
def Disposal.cited (d : Disposal) : Option String :=
  if d.disposition = "UNAVAILABLE_ENVIRONMENT" then
    some ((given d.evidence).getD ("mechanical environment absence probe: " ++ d.environment.getD ""))
  else d.evidence

/-- The guards of a terminal disposition. -/
def World.guardTerminal (w : World) (s : Shelf) (rid : String) (d : Disposal) : Except Refusal Unit := do
  refuseIf (strip (d.cited.getD "") == "")
    ⟨"VALIDATION_FAILED", "terminal actionable disposition requires evidence"⟩
  if d.disposition ∈ ["IMPLEMENTED", "VERIFIED"] then do
    refuseIf (strip (d.verification.getD "") == "")
      ⟨"VALIDATION_FAILED", "implemented/verified disposition requires verification"⟩
    refuseIf (lower (strip (d.verification.getD "")) ∈ hollowVerifications)
      ⟨"VALIDATION_FAILED",
        "verification requires concrete proof (command, assertion, record, or event citation)"⟩
    refuseOn (w.evidenceRefusal s rid d.cited d.verification) id

/-- A field that is written when its text is given. -/
def setGiven (entry : Dict) (field : String) (text : Option String) : Dict :=
  match given text with
  | some text => entry.set field (.str text)
  | none => entry

/-- The entry with its disposition. -/
def Disposal.settle (d : Disposal) (proof : Option Json) (entry : Dict) : Dict :=
  let entry := entry.set "disposition" (.str d.disposition)
  let entry := setGiven entry "work" d.work
  let entry := setGiven entry "evidence" d.cited
  let entry := setGiven entry "verification" d.verification
  let entry := match proof with
    | some proof => entry.set "environment_evidence" proof
    | none => if d.disposition ≠ "UNAVAILABLE_ENVIRONMENT" then entry.pop "environment_evidence" else entry
  setGiven entry "actual_evidence_class" (d.evidenceClass.map upper)

/-- `set_disposition`: the files once the ledger is written. -/
def World.setDisposition (w : World) (receiptId : String) (d : Disposal) (s : Shelf) :
    Except Refusal Shelf := do
  refuseIf (!validReceiptId receiptId) ⟨"INVALID_ID", receiptId⟩
  refuseIf (d.disposition ∉ allDispositions) ⟨"VALIDATION_FAILED", "disposition " ++ quote d.disposition⟩
  let rid := completeId receiptId d.rid
  validateEvidenceClass d.evidenceClass
  w.verifyIntegrity receiptId s
  let ledger ← s.readCoverage.mapError writeRefusal
  let requirements := (ledger.valueAt "requirements").dict?.getD []
  let entry ← orRefuse (requirements.get rid) ⟨"VALIDATION_FAILED", "unknown requirement " ++ rid⟩
  let entry ← orRefuse entry.dict? ⟨"AttributeError", "entry is not an object"⟩
  let proof ← w.environmentProof s rid d
  if d.disposition ∈ terminalDispositions ∧ ((entry.get "actionable").getD (.bool true)).truthy then
    w.guardTerminal s rid d
  pure { s with coverage := some (.written (.obj (ledger.set "requirements"
    (.obj (requirements.set rid (.obj (d.settle proof entry))))))) }

end Saipen.Intake
