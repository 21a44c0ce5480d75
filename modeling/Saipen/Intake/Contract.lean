import Saipen.Checks
import Saipen.Json.Python

/-! # The Contract and the coverage ledger of a source

A source receipt keeps its Work Contract, the revisions of it and a coverage ledger in files of its own.
`contractIntegrity` binds them to one another: the same clauses in the same words on both sides, and an
unbroken chain of revisions of which the last is the Contract. -/

namespace Saipen.Intake

open Checks Text

/-! ### Vocabulary -/

/-- `CLAUSE_CLASSES`. -/
def clauseClasses : List String :=
  ["requirement", "invariant", "non-goal", "acceptance-criterion", "context", "example", "rationale",
    "open-question"]

/-- `TERMINAL_DISPOSITIONS`. -/
def terminalDispositions : List String :=
  ["IMPLEMENTED", "VERIFIED", "REJECTED", "DUPLICATE", "SUPERSEDED", "NOT_APPLICABLE",
    "UNAVAILABLE_ENVIRONMENT"]

/-- `ALL_DISPOSITIONS`. -/
def allDispositions : List String := terminalDispositions ++ ["BLOCKED", "DEFERRED", "UNKNOWN"]

/-- `ACTIONABLE_CLASSES`. -/
def actionableClasses : List String :=
  ["requirement", "invariant", "non-goal", "acceptance-criterion", "open-question"]

/-- `_LEDGER_MAX`. -/
def ledgerMax : Nat := 8 * 1024 * 1024

/-- `_META_MAX`. -/
def metaMax : Nat := 1024 * 1024

/-- `_valid_receipt_id`: `SRC-\d+`. -/
def validReceiptId (receiptId : String) : Bool :=
  match literal "SRC-".toList receiptId.toList with
  | some digits => (number? digits).isSome
  | none => false

/-- `<receipt>:R\d+`. -/
def isClauseId (receiptId rid : String) : Bool :=
  match literal (receiptId.toList ++ ":R".toList) rid.toList with
  | some digits => (number? digits).isSome
  | none => false

/-- A refusal: its code and what it says. -/
structure Refusal where
  code : String
  detail : String
deriving DecidableEq

/-! ### Files -/

/-- A regular file: what `json.loads` makes of it, if anything, and its length in bytes. -/
structure Document where
  value : Option Json
  size : Nat

/-- The file that holds a value. -/
def Document.written (j : Json) : Document := ⟨some j, (Json.jsonBytes j).length⟩

/-- `_read_owned_file` and `json.loads`, up to a number of bytes. -/
def Document.load (file : Document) (maxBytes : Nat) (kind : String) : Except String Json := do
  refuseIf (maxBytes < file.size) "authority node changed before open"
  orRefuse file.value ("malformed " ++ kind)

/-- Where a revision of a Contract lies. -/
inductive Place where
  | contracts
  | archive
deriving DecidableEq

/-- A file `<receipt>.r<number>.json`. -/
structure RevisionFile where
  place : Place
  number : String
  file : Document

/-- The files of one receipt: its metadata, its Contract, its coverage ledger and the revisions of the
Contract. -/
structure Shelf where
  metadata : Option Document
  contract : Option Document
  coverage : Option Document
  revisions : List RevisionFile

/-- An object that must be there. -/
def loadObject (file : Document) (maxBytes : Nat) (kind : String) : Except String Dict := do
  orRefuse (← file.load maxBytes kind).dict? ("malformed " ++ kind ++ ": root is not an object")

/-- `_read_meta`. -/
def Shelf.readMeta (s : Shelf) : Except String (Option Dict) :=
  match s.metadata with
  | none => .ok none
  | some file => some <$> loadObject file metaMax "source metadata"

/-- `_read_contract`. -/
def Shelf.readContract (s : Shelf) : Except String (Option Dict) :=
  match s.contract with
  | none => .ok none
  | some file => some <$> loadObject file ledgerMax "source Work Contract"

/-- `_read_coverage`; a missing ledger has no requirements. -/
def Shelf.readCoverage (s : Shelf) : Except String Dict :=
  match s.coverage with
  | none => .ok [("requirements", .obj [])]
  | some file => do
      let j ← file.load ledgerMax "source coverage"
      let ledger ← orRefuse j.dict? "malformed source coverage: requirements is not an object"
      refuseIf ((ledger.get "requirements").bind Json.dict?).isNone
        "malformed source coverage: requirements is not an object"
      pure ledger

/-! ### Clauses -/

/-- What a clause says of itself in both files. -/
def clauseFields : List String := ["class", "text", "actionable"]

/-- The fields of an entry of the ledger. -/
def entryFields : List String := clauseFields ++ ["disposition", "work", "evidence", "verification"]

/-- A text that is not blank. -/
def isFullText (j : Json) : Bool := j.str?.any fun s => strip s != ""

/-- A clause has its class, its text and the flag its class asks for. -/
def isStructured (clause : Dict) : Bool :=
  (clause.valueAt "class").str?.any (· ∈ clauseClasses) && isFullText (clause.valueAt "text")

/-- `actionable == (class in ACTIONABLE_CLASSES)`. -/
def isFlagged (clause : Dict) : Bool :=
  clause.valueAt "actionable" ==
    .bool ((clause.valueAt "class").str?.any (· ∈ actionableClasses))

/-- Absent, or a text that is not blank. -/
def isProof (j : Json) : Bool := j == .null || isFullText j

/-- The checks `_validate_contract_coverage` makes of one clause and its entry. -/
def validateClause (receiptId : String) (requirements : Dict) (rid : String) (clause : Json) :
    Except String Unit := do
  let source := "source " ++ receiptId
  refuseIf (!isClauseId receiptId rid) (source ++ " has invalid clause id " ++ quote rid)
  let apart := source ++ " clause " ++ rid ++ " is not an object"
  let clause ← orRefuse clause.dict? apart
  let entry ← orRefuse (requirements.valueAt rid).dict? apart
  refuseIf (!isStructured clause) (source ++ " clause " ++ rid ++ " has invalid structure")
  refuseIf (!isFlagged clause) (source ++ " clause " ++ rid ++ " has invalid actionable flag")
  refuseIf (!clause.hasKeys clauseFields)
    (source ++ " Contract clause " ++ rid ++ " has extra or missing fields")
  refuseIf (!entry.hasKeys entryFields)
    (source ++ " coverage clause " ++ rid ++ " has extra or missing fields")
  refuseIf (!clauseFields.all fun field => (entry.valueAt field).same (clause.valueAt field))
    (source ++ " clause " ++ rid ++ " drift")
  refuseIf (!(entry.valueAt "disposition").str?.any (· ∈ allDispositions))
    (source ++ " requirement " ++ rid ++ " has invalid disposition")
  refuseIf (!isProof (entry.valueAt "evidence"))
    (source ++ " requirement " ++ rid ++ " has invalid evidence")
  refuseIf (!isProof (entry.valueAt "verification"))
    (source ++ " requirement " ++ rid ++ " has invalid verification")

/-- `_validate_contract_coverage`. -/
def validateContractCoverage (receiptId : String) (contract coverage : Dict) : Except String Unit := do
  let containers := "source " ++ receiptId ++ " Contract/coverage containers are not objects"
  let clauses ← orRefuse (contract.valueAt "clauses").dict? containers
  let requirements ← orRefuse (coverage.valueAt "requirements").dict? containers
  refuseIf (!clauses.sameKeys requirements)
    ("source " ++ receiptId ++ " Contract/coverage clause identities differ")
  clauses.items.forM fun field => validateClause receiptId requirements field.1 field.2

/-! ### Revisions -/

/-- `_CONTRACT_SEMANTIC_FIELDS`. -/
def semanticFields : List String :=
  ["schema_version", "derived_from", "source_sha256", "interpretation_revision", "clauses"]

/-- `_CONTRACT_KNOWN_FIELDS`. -/
def knownFields : List String := semanticFields ++ ["derived_at"]

/-- `_contract_semantics_equal`. -/
def contractSemanticsEqual (current revision : Dict) : Bool :=
  current.all (fun field => field.1 ∈ knownFields) && revision.all (fun field => field.1 ∈ knownFields) &&
    semanticFields.all fun field => (current.valueAt field).same (revision.valueAt field)

/-- The number of the revision a Contract is: an integer that is not negative. -/
def revisionOf (contract : Dict) : Option Nat :=
  match (contract.get "interpretation_revision").getD (.int 0) with
  | .int n => if n < 0 then none else some n.toNat
  | _ => none

/-- A revision belongs to the Contract and has the number its file is named by. -/
def sameIdentity (receiptId : String) (contract historical : Dict) (number : Nat) : Bool :=
  ((historical.get "receipt_id").getD (.str receiptId)).same (.str receiptId) &&
    ((historical.get "derived_from").getD (.str receiptId)).same (.str receiptId) &&
    (historical.valueAt "source_sha256").same (contract.valueAt "source_sha256") &&
    (historical.valueAt "schema_version").same (contract.valueAt "schema_version") &&
    (historical.valueAt "interpretation_revision").same (.int number)

/-- The checks made of one revision. -/
def checkRevision (receiptId : String) (contract : Dict) (revision : Nat) (found : List (Nat × Document))
    (number : Nat) : Except String Unit := do
  let named := "source " ++ receiptId ++ " revision r" ++ number.repr
  let file ← orRefuse ((found.find? (·.1 == number)).map (·.2)) named
  let historical ← loadObject file ledgerMax named
  refuseIf (!sameIdentity receiptId contract historical number) (named ++ " identity drift")
  refuseIf (number == revision && !contractSemanticsEqual contract historical)
    ("source " ++ receiptId ++ " current Contract differs from revision r" ++ number.repr)

/-- The number a revision file is named by. -/
def numberOf (receiptId : String) (revision : RevisionFile) : Except String (Nat × Document) := do
  let number ← orRefuse (number? revision.number.toList)
    ("source " ++ receiptId ++ " has invalid contract revision file " ++ receiptId ++ ".r" ++
      revision.number ++ ".json")
  pure (number, revision.file)

/-- `_contract_revision_integrity`: the files are the revisions from the first to the current one. -/
def Shelf.contractRevisionIntegrity (s : Shelf) (receiptId : String) (contract : Dict) :
    Except String Unit := do
  let revision ← orRefuse (revisionOf contract)
    ("source " ++ receiptId ++ " has invalid interpretation revision")
  let found ← s.revisions.mapM (numberOf receiptId)
  refuseIf (!decide (found.map Prod.fst).Nodup) ("source " ++ receiptId ++ " has duplicate revision")
  refuseIf (!(found.all (fun named => 1 ≤ named.1 && named.1 ≤ revision) &&
      (List.range' 1 revision).all fun number => found.any (·.1 == number)))
    ("source " ++ receiptId ++ " contract revision chain is not contiguous")
  (List.range' 1 revision).forM (checkRevision receiptId contract revision found)

/-- `_contract_integrity`: Contract, revisions and coverage are bound to the digest of one source. -/
def Shelf.contractIntegrity (s : Shelf) (receiptId : String) (metadata : Dict) : Except Refusal Unit := do
  let drift := fun detail : String => Refusal.mk "CONTRACT_DRIFT" detail
  let contract ← s.readContract.mapError drift
  let contract ← orRefuse contract (drift "")
  refuseIf (contract.isEmpty || !(contract.valueAt "source_sha256").same (metadata.valueAt "source_sha256"))
    (drift "")
  let ledger ← s.readCoverage.mapError drift
  let objects := drift "Contract clauses or coverage requirements are not objects"
  let clauses ← orRefuse (contract.valueAt "clauses").dict? objects
  let requirements ← orRefuse (ledger.valueAt "requirements").dict? objects
  refuseIf (!clauses.sameKeys requirements) (drift "Contract and coverage clause identities differ")
  (validateContractCoverage receiptId contract ledger).mapError drift
  (s.contractRevisionIntegrity receiptId contract).mapError drift

end Saipen.Intake
