import Saipen.Intake.Contract
import Saipen.Text.Case

/-! # Reading a coverage ledger

Every gate that asks how far a source has come reads its ledger through `coverageSummary`: each entry is
decoded, the actionable ones that are not settled are listed, and settled ones are weighed against the
class of evidence their text asks for. -/

namespace Saipen.Intake

open Checks Text

/-! ### Fitness of evidence -/

/-- `EVIDENCE_CLASSES`. -/
def evidenceClasses : List String :=
  ["UNIT", "CONTRACT", "INTEGRATION", "INSTALLED_RUNTIME", "LIVE_END_TO_END", "PERFORMANCE_BENCHMARK",
    "REAL_SOAK", "PUBLICATION_RECEIPT"]

/-- `NON_UNIT_EVIDENCE_CLASSES`. -/
def nonUnitEvidenceClasses : List String :=
  ["INSTALLED_RUNTIME", "LIVE_END_TO_END", "PERFORMANCE_BENCHMARK", "REAL_SOAK", "PUBLICATION_RECEIPT"]

/-- A character that an ASCII capital matches when case is ignored. -/
def matchesLetter (letter c : Char) : Bool :=
  c.toUpper == letter || (letter == 'I' && (c.toNat == 0x130 || c.toNat == 0x131)) ||
    (letter == 'S' && c.toNat == 0x17f) || (letter == 'K' && c.toNat == 0x212a)

/-- What matches a word when case is ignored, in front of a closing bracket. -/
def tagWord : List Char → List Char → Option (List Char)
  | [], c :: _ => if c = ']' then some [] else none
  | letter :: word, c :: cs => if matchesLetter letter c then (tagWord word cs).map (c :: ·) else none
  | _, [] => none

/-- `EVIDENCE_CLASS_TAG_RE.search`: the word in the first pair of brackets that names a class. -/
def tagOf : List Char → Option (List Char)
  | [] => none
  | c :: cs =>
      match if c = '[' then evidenceClasses.findSome? (tagWord ·.toList cs) else none with
      | some word => some word
      | none => tagOf cs

/-- `extract_required_evidence_class`. -/
def extractRequiredEvidenceClass (text : String) : String :=
  match tagOf text.toList with
  | some word =>
      let tag := upper (String.ofList word)
      if tag ∈ evidenceClasses then tag else "UNIT"
  | none => "UNIT"

/-- `evidence_class_satisfies`. -/
def evidenceClassSatisfies (actual required : String) : Bool :=
  if actual = required then true
  else if required ∈ nonUnitEvidenceClasses ∧ actual = "UNIT" then false
  else if actual = "LIVE_END_TO_END" ∧ required ∈ ["INTEGRATION", "UNIT"] then true
  else if actual = "INTEGRATION" ∧ required ∈ ["CONTRACT", "UNIT"] then true
  else actual = "CONTRACT" ∧ required = "UNIT"

/-- `is_synthetic_benchmark`. -/
def isSyntheticBenchmark (payload : Json) : Bool :=
  match payload.dict? with
  | none => true
  | some payload =>
      let filled := fun field => (payload.valueAt field).truthy
      let present := fun field => (payload.get field).isSome
      if payload.get "is_synthetic" = some (.bool true) ∨ payload.get "synthetic" = some (.bool true) then
        true
      else if present "SHIP_ACCEPTANCE_OUTCOME" ∧ present "ticket_wall_s" ∧
          ¬ (filled "raw_record" ∨ filled "execution_record" ∨ filled "baseline_telemetry") ∧
          ¬ (filled "started_utc" ∧ filled "finished_utc") then true
      else present "ticket_wall_s" ∧ ¬ filled "timed_samples" ∧ ¬ filled "runs" ∧
        payload.get "SHIP_ACCEPTANCE_OUTCOME" = some (.str "PASS") ∧ ¬ filled "baseline_wall_s"

/-- `validate_evidence_fitness`, as far as its reader asks: whether the evidence fits. -/
def isFit (required actual : String) (payload : Json) : Bool :=
  evidenceClassSatisfies actual required && !(required == "PERFORMANCE_BENCHMARK" && isSyntheticBenchmark payload)

/-! ### Decoding -/

/-- `[a-z0-9_-]+`. -/
def isEnvironmentName (name : String) : Bool :=
  name != "" && name.toList.all fun c => c.isLower || c.isDigit || c == '_' || c == '-'

/-- The record of a probe that found an environment absent. -/
def isAbsenceProof (environment proof : Json) : Bool :=
  match proof.dict? with
  | none => false
  | some proof =>
      (proof.valueAt "kind").same (.str "environment_absence") &&
        (proof.valueAt "environment").same environment && proof.valueAt "unavailable" == .bool true &&
        (proof.valueAt "commands").truthy && (proof.valueAt "homes").truthy

/-- The disposition of an entry; unknown where it has none. -/
def dispositionOf (entry : Dict) : Json := (entry.get "disposition").getD (.str "UNKNOWN")

/-- Whether the class of an entry asks for work. -/
def asksForWork (entry : Dict) : Bool := (entry.valueAt "class").str?.any (· ∈ actionableClasses)

/-- The checks `_coverage_summary_from_ledger` makes of one entry. -/
def decodeEntry (receiptId rid : String) (entry : Json) : Except String Unit := do
  let coverage := "coverage " ++ receiptId
  let entry ← orRefuse entry.dict? (coverage ++ " requirement " ++ rid ++ " is not an object")
  refuseIf (!isClauseId receiptId rid) (coverage ++ " has invalid requirement id " ++ quote rid)
  refuseIf (!((entry.valueAt "class").str?.any (· ∈ clauseClasses) && (entry.valueAt "text").str?.isSome))
    (coverage ++ " requirement " ++ rid ++ " has invalid clause structure")
  refuseIf (!((entry.get "actionable").getD (.bool (asksForWork entry)) == .bool (asksForWork entry)))
    (coverage ++ " requirement " ++ rid ++ " has invalid actionable flag")
  refuseIf (!(dispositionOf entry).str?.any (· ∈ allDispositions))
    (coverage ++ " requirement " ++ rid ++ " has invalid disposition")
  refuseIf (!isProof (entry.valueAt "evidence"))
    (coverage ++ " requirement " ++ rid ++ " has invalid evidence")
  refuseIf (!isProof (entry.valueAt "verification"))
    (coverage ++ " requirement " ++ rid ++ " has invalid verification")
  let environment := entry.valueAt "when_environment"
  refuseIf (!(environment == .null || environment.str?.any isEnvironmentName))
    (coverage ++ " requirement " ++ rid ++ " has invalid environment")
  refuseIf (dispositionOf entry == .str "UNAVAILABLE_ENVIRONMENT" &&
      !isAbsenceProof environment (entry.valueAt "environment_evidence"))
    (coverage ++ " requirement " ++ rid ++ " lacks mechanical environment proof")

/-! ### The summary -/

/-- How far an actionable entry has come. -/
inductive Standing where
  | settled
  | unfit
  | open
deriving DecidableEq

/-- A class of evidence named by a field, or the one that stands in; a value that is not a text has no
`upper`. -/
def classOf (field : Json) (otherwise : String) : Except String String :=
  if field.truthy then do
    let name ← orRefuse field.str? "object has no attribute 'upper'"
    pure (upper name)
  else .ok (upper otherwise)

/-- The standing of an actionable entry. -/
def standing (entry : Dict) : Except String Standing := do
  let disposition := entry.valueAt "disposition"
  let evidence := entry.valueAt "evidence"
  let proven := disposition.str?.any (· ∈ ["IMPLEMENTED", "VERIFIED"])
  if !disposition.str?.any (· ∈ terminalDispositions) || !evidence.truthy ||
      (proven && !(entry.valueAt "verification").truthy) then
    pure .open
  else if proven then do
    let text := (entry.valueAt "text").str?.getD ""
    let required ← classOf (entry.valueAt "required_evidence_class") (extractRequiredEvidenceClass text)
    let actual ← classOf (entry.valueAt "actual_evidence_class") "UNIT"
    let payload := if (entry.valueAt "evidence_payload").truthy then entry.valueAt "evidence_payload"
      else evidence
    pure (if isFit required actual payload then .settled else .unfit)
  else pure .settled

/-- What a ledger says of its source. -/
structure CoverageSummary where
  requirements : Nat
  actionable : Nat
  terminal : Nat
  dispositions : List (String × Nat)
  unresolved : List String
  unresolvedFitness : List String

/-- One more entry of a disposition. -/
def countDisposition (counts : List (String × Nat)) (disposition : String) : List (String × Nat) :=
  Assoc.set disposition ((counts.lookup disposition).getD 0 + 1) counts

/-- `_coverage_summary_from_ledger`. -/
def coverageSummaryFromLedger (receiptId : String) (ledger : Dict) : Except String CoverageSummary := do
  let requirements ← orRefuse (ledger.valueAt "requirements").dict?
    ("coverage " ++ receiptId ++ " requirements is not an object")
  requirements.items.forM fun field => decodeEntry receiptId field.1 field.2
  let entries := requirements.items.map fun field => (field.1, field.2.dict?.getD [])
  let actionable := entries.filter fun named =>
    ((named.2.get "actionable").getD (.bool (asksForWork named.2))).truthy
  let standings ← actionable.mapM fun named => (named.1, ·) <$> standing named.2
  let unresolved := standings.filter (·.2 ≠ .settled)
  pure {
    requirements := entries.length
    actionable := actionable.length
    terminal := actionable.length - unresolved.length
    dispositions := (entries.map fun named => (dispositionOf named.2).str?.getD "").foldl
      countDisposition []
    unresolved := unresolved.map (·.1)
    unresolvedFitness := (standings.filter (·.2 = .unfit)).map (·.1) }

/-- `coverage_summary`. -/
def Shelf.coverageSummary (s : Shelf) (receiptId : String) : Except String CoverageSummary := do
  coverageSummaryFromLedger receiptId (← s.readCoverage)

end Saipen.Intake
