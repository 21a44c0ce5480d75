import Saipen.Checks
import Saipen.Journal.Identity
import Saipen.LinkTree.Basic
import Saipen.Text.Scan

/-! # Receipts of foreign patches

`load_receipt` decodes the three records of a receipt, binds it to the lineage of the project and
derives its state. A receipt claims the content of its declared paths: what the target recorded about
them, what was applied, or, before that, what already is as the receipt declares. -/

namespace Saipen.XPatch

open Checks LinkTree

/-- A project tree with its links. -/
abbrev Disk := LinkTree.Tree Content

/-- The project a patch is for, and what the code takes from the standard library. -/
structure Site where
  /-- The physical directory of the project. -/
  root : LinkTree.Path
  /-- How many links the system follows. -/
  links : ℕ
  sha256 : Content → String
  decode64 : String → Option Content
  size : Content → ℕ
  /-- `strict_iso_utc` of a text: the canonical form of a strict stamp. -/
  strictIsoUtc : String → Option String
  strictIsoUtc_canonical : ∀ s c, strictIsoUtc s = some c → strictIsoUtc c = some c
  repr : String → String

/-- The codes of an `XPatchError`. -/
inductive ErrorCode where
  | malformedPackage
  | pathEscape
  | invalidId
deriving DecidableEq

/-- The exceptions of an operation. -/
inductive Raised where
  | xpatch (code : ErrorCode) (message : String)
  | unsafeTopology (path : String)
  | osError (path : String)
deriving DecidableEq

/-- `_require`. -/
def require (condition : Bool) (message : String) : Except Raised Unit :=
  refuseIf (!condition) (.xpatch .malformedPackage message)

/-- A value `_require` asks for. -/
def requireSome {α : Type} (value : Option α) (message : String) : Except Raised α :=
  orRefuse value (.xpatch .malformedPackage message)

/-- A record that has to be an object. -/
def requireObject (value : Json) (message : String) : Except Raised Dict :=
  match value with
  | .obj fields => return fields
  | _ => .error (.xpatch .malformedPackage message)

/-- A field that has to be a text which is not empty. -/
def requireText (fields : Dict) (key message : String) : Except Raised String :=
  requireSome (((fields.get key).bind Json.str?).filter (· != "")) message

/-! ### Paths and hashes -/

/-- The segments of a declared path. -/
def segments (rel : String) : LinkTree.Path := Text.split '/' rel

/-- `claim_hash`. -/
def claimHash (sha256 : Option String) : Option String :=
  sha256.map fun digest => String.ofList (digest.toList.take 16)

/-- `SHA256_RE`. -/
def isSha256 (s : String) : Bool := s.length == 64 && s.toList.all Text.isLowerHex

/-- `PATCH_ID_RE`. -/
def isPatchId (s : String) : Bool :=
  Text.startsWith s "XP-" && s.length == 9 && (s.toList.drop 3).all Text.isDecimal

/-- `_file_sha256`. -/
def Site.fileSha256 (site : Site) (t : Disk) (rel : String) : Option String :=
  (t.file? site.links site.root (segments rel)).map site.sha256

/-- Whether a path begins with a drive letter. -/
def driveQualified (rel : String) : Bool := rel.toList[1]? == some ':'

/-- `canonical_target_path`. -/
def Site.canonicalTargetPath (site : Site) (t : Disk) (rel : String) : Except Raised String := do
  let named := "declared path " ++ site.repr rel
  let escape (message : String) : Raised := .xpatch .pathEscape (named ++ message)
  require (rel != "") (named ++ " is not a non-empty string")
  require (!rel.toList.contains '\\') (named ++ " uses non-canonical separators")
  refuseIf (Text.startsWith rel "/" || driveQualified rel) (escape " is absolute")
  refuseIf ((segments rel).any fun part => part == "" || part == "." || part == "..")
    (escape " has a non-canonical segment")
  refuseIf ((segments rel).head? == some ".saipen")
    (escape (" is inside the target runtime namespace -- a foreign actor never writes target " ++
      "STATE/BOARD/LOG or any other .saipen state"))
  refuseIf (rel.toList.contains (Char.ofNat 0) ||
      !site.root.isPrefixOf (t.realpath site.links site.root (segments rel)))
    (escape " escapes the project root")
  return rel

/-- `receipt_dir`, from the root. -/
def receiptDir (patchId : String) : LinkTree.Path := [".saipen", "exchange", "xpatch", patchId]

/-! ### The receipt -/

/-- What a receipt declares about a path. -/
structure PathSpec where
  before : Option String
  after : Option String
deriving DecidableEq

/-- The verdicts of a disposition. -/
inductive Verdict where
  | verified
  | repaired
  | superseded
  | reverted
deriving DecidableEq

/-- The name a record has for a verdict. -/
def Verdict.name : Verdict → String
  | .verified => "VERIFIED"
  | .repaired => "REPAIRED"
  | .superseded => "SUPERSEDED"
  | .reverted => "REVERTED"

/-- `DISPOSITIONS`. -/
def dispositions : List Verdict := [.verified, .repaired, .superseded, .reverted]

/-- The verdict of a name. -/
def verdict? (name : String) : Option Verdict := dispositions.find? (·.name == name)

/-- The state of a receipt. -/
inductive State where
  | pending
  | applied
  | disposed (verdict : Verdict)
deriving DecidableEq

/-- The name of a state. -/
def State.name : State → String
  | .pending => "PENDING"
  | .applied => "APPLIED"
  | .disposed verdict => verdict.name

/-- `Receipt`. -/
structure Receipt where
  patchId : String
  mode : String
  state : State
  sourceLineage : String
  workId : String
  agent : String
  targetLineage : String
  reason : String
  paths : List (String × PathSpec)
  verification : List (String × String)
  createdAt : String
  appliedAt : String := ""
  dispositionAt : String := ""
  dispositionPaths : List (String × Option String) := []
  note : String := ""
deriving DecidableEq

/-- A hash that a record may leave out. -/
def sha256? (value : Option Json) : Option (Option String) :=
  match value with
  | none | some .null => some none
  | some (.str s) => if isSha256 s then some (some s) else none
  | some _ => none

/-- One declared path. -/
def Site.decodePath (site : Site) (t : Disk) (declared : String) (value : Json) :
    Except Raised (String × PathSpec) := do
  let rel ← site.canonicalTargetPath t declared
  let named := "path " ++ site.repr rel
  let spec ← requireObject value (named ++ " carries a malformed spec")
  let before ← requireSome (sha256? (spec.get "before_sha256"))
    (named ++ " has a malformed before_sha256")
  let after ← requireSome (sha256? (spec.get "after_sha256"))
    (named ++ " has a malformed after_sha256")
  require (before.isSome || after.isSome)
    (named ++ " declares neither a before nor an after state")
  require (before != after) (named ++ " declares a no-op mutation")
  return (rel, ⟨before, after⟩)

/-- The declared paths, collected one by one. -/
def Site.decodeEntries (site : Site) (t : Disk) :
    Dict → List (String × PathSpec) → Except Raised (List (String × PathSpec))
  | [], out => return out
  | (declared, value) :: rest, out => do
      let (rel, spec) ← site.decodePath t declared value
      site.decodeEntries t rest (Assoc.set rel spec out)

/-- `_decode_paths`. -/
def Site.decodePaths (site : Site) (t : Disk) (raw : Option Json) :
    Except Raised (List (String × PathSpec)) :=
  match raw with
  | some (.obj (entry :: rest)) => site.decodeEntries t (entry :: rest) []
  | _ => .error (.xpatch .malformedPackage "receipt declares no paths")

/-- One entry of a verification. -/
def decodeVerificationEntry (item : Json) : Except Raised (String × String) := do
  let fields ← requireObject item "verification entry is not an object"
  let command ← requireText fields "command" "verification entry has no command"
  let result ← requireSome
    (((fields.get "result").bind Json.str?).filter ["PASS", "FAIL", "UNKNOWN"].contains)
    "verification result is not one of ('PASS', 'FAIL', 'UNKNOWN')"
  return (command, result)

/-- `_decode_verification`. -/
def decodeVerification (raw : Option Json) : Except Raised (List (String × String)) :=
  match raw with
  | none | some .null => return []
  | some (.arr items) => items.mapM decodeVerificationEntry
  | some _ => .error (.xpatch .malformedPackage "verification is not a list")

/-- `_strict_utc`. -/
def Site.strictUtc (site : Site) (value : Option Json) (label : String) : Except Raised String :=
  requireSome (((value.bind Json.str?).bind site.strictIsoUtc).filter (· != ""))
    (label ++ " is not a strict UTC timestamp")

/-- `_read_json`: nothing where `lstat` fails, or where the value is `null`. -/
def Site.readJson (site : Site) (t : Disk) (path : LinkTree.Path) : Except Raised (Option Json) :=
  let name := path.getLast?.getD ""
  match t.lstat site.links site.root path with
  | none => return none
  | some (.link _) => .error (.xpatch .malformedPackage (name ++ " is not a regular file"))
  | some (.file content) => do
      let value ← requireSome content.loads (name ++ " is unreadable")
      return if value = .null then none else some value
  | some _ => .error (.xpatch .malformedPackage (name ++ " is unreadable"))

/-- `project_lineage_identity`. -/
def Site.lineage (site : Site) (t : Disk) : Option String :=
  match t.node (site.root ++ [".saipen"]), t.node (site.root ++ [".saipen", "IDENTITY.md"]) with
  | some .dir, some (.file content) =>
      if site.size content ≤ 4096 then (parseCarrier content).toOption else none
  | _, _ => none

/-- Whether a number is the schema version. -/
def isSchemaVersion (value : Option Json) : Bool :=
  value == some (.int 1) || value == some (.bool true) || value == some (.float "1.0")

/-- Equality of dictionaries. -/
def sameDict {α : Type} [DecidableEq α] (d e : List (String × α)) : Bool :=
  (d.all fun (key, value) => e.lookup key == some value) &&
    e.all fun (key, value) => d.lookup key == some value

/-- Equality of the keys of dictionaries. -/
def sameKeys {α β : Type} (d : List (String × α)) (e : List (String × β)) : Bool :=
  (d.all fun (key, _) => (e.lookup key).isSome) && e.all fun (key, _) => (d.lookup key).isSome

/-- The intent of a receipt, bound to the lineage of the project. -/
def Site.loadIntent (site : Site) (t : Disk) (patchId : String) : Except Raised Receipt := do
  refuseIf (!isPatchId patchId)
    (.xpatch .invalidId ("patch id " ++ site.repr patchId ++ " fails the XP-NNNNNN grammar"))
  let value ← requireSome (← site.readJson t (receiptDir patchId ++ ["intent.json"]))
    (patchId ++ " has no intent.json")
  let intent ← requireObject value (patchId ++ " intent is not an object")
  require (isSchemaVersion (intent.get "schema")) (patchId ++ " has an unsupported schema")
  require (intent.get "patch_id" == some (.str patchId))
    (patchId ++ " intent names a different patch id")
  let mode ← requireSome
    (((intent.get "mode").bind Json.str?).filter ["proposal", "direct"].contains)
    (patchId ++ " declares a mode that is not one of ('proposal', 'direct')")
  let source ← requireObject ((intent.get "source").getD .null) (patchId ++ " has no source block")
  let sourceLineage ← requireText source "project_lineage"
    (patchId ++ " source.project_lineage is missing or empty")
  let workId ← requireText source "work_id" (patchId ++ " source.work_id is missing or empty")
  let agent ← requireText source "agent" (patchId ++ " source.agent is missing or empty")
  let target ← requireObject ((intent.get "target").getD .null) (patchId ++ " has no target block")
  let targetLineage ← requireText target "project_lineage"
    (patchId ++ " target.project_lineage is missing or empty")
  let live ← requireSome (site.lineage t)
    (patchId ++ " cannot bind: this project has no readable durable lineage")
  require (targetLineage == live) (patchId ++ " targets a foreign project lineage")
  let reason ← requireSome (((intent.get "reason").bind Json.str?).filter (Text.strip · != ""))
    (patchId ++ " states no reason")
  let paths ← site.decodePaths t (intent.get "paths")
  let createdAt ← site.strictUtc (intent.get "created_at") (patchId ++ " created_at")
  let verification ← decodeVerification (intent.get "verification")
  return {
    patchId := patchId
    mode := mode
    state := .pending
    sourceLineage := sourceLineage
    workId := workId
    agent := agent
    targetLineage := targetLineage
    reason := reason
    paths := paths
    verification := verification
    createdAt := createdAt }

/-- The receipt once its applied record has been read, if there is one. -/
def Site.loadApplied (site : Site) (t : Disk) (receipt : Receipt) : Except Raised Receipt := do
  let patchId := receipt.patchId
  match ← site.readJson t (receiptDir patchId ++ ["applied.json"]) with
  | none => return receipt
  | some value =>
      let applied ← requireObject value (patchId ++ " applied record is not an object")
      require (applied.get "patch_id" == some (.str patchId))
        (patchId ++ " applied record names a different id")
      let paths ← site.decodePaths t (applied.get "paths")
      require (sameDict paths receipt.paths)
        (patchId ++ " applied record contradicts the intent it claims to complete")
      let appliedAt ← site.strictUtc (applied.get "applied_at") (patchId ++ " applied_at")
      require (receipt.createdAt ≤ appliedAt)
        (patchId ++ " claims to be applied before it was intended")
      let verification ← decodeVerification (applied.get "verification")
      return { receipt with
        state := .applied
        appliedAt := appliedAt
        verification := if verification.isEmpty then receipt.verification else verification }

/-- The hashes of a disposition, collected one by one. -/
def Site.decodeDisposition (site : Site) (t : Disk) (receipt : Receipt) :
    Dict → List (String × Option String) → Except Raised (List (String × Option String))
  | [], out => return out
  | (declared, value) :: rest, out => do
      let rel ← site.canonicalTargetPath t declared
      require (receipt.paths.lookup rel).isSome
        (receipt.patchId ++ " disposition claims " ++ site.repr rel ++ ", outside the receipt scope")
      let digest ← requireSome (sha256? (some value))
        (receipt.patchId ++ " disposition carries a malformed hash for " ++ site.repr rel)
      site.decodeDisposition t receipt rest (Assoc.set rel digest out)

/-- The receipt once the record of its disposition has been read, if there is one. -/
def Site.loadDisposition (site : Site) (t : Disk) (receipt : Receipt) : Except Raised Receipt := do
  let patchId := receipt.patchId
  match ← site.readJson t (receiptDir patchId ++ ["disposition.json"]) with
  | none => return receipt
  | some value =>
      let record ← requireObject value (patchId ++ " disposition is not an object")
      require (record.get "patch_id" == some (.str patchId))
        (patchId ++ " disposition names a different id")
      let verdict ← requireSome (((record.get "verdict").bind Json.str?).bind verdict?)
        (patchId ++ " disposition is not one of ('VERIFIED', 'REPAIRED', 'SUPERSEDED', 'REVERTED')")
      require (receipt.state == .applied)
        (patchId ++ " carries a disposition for a patch that was never applied")
      let dispositionAt ← site.strictUtc (record.get "recorded_at") (patchId ++ " disposition time")
      let raw ← requireObject ((record.get "paths").getD .null)
        (patchId ++ " disposition has malformed paths")
      let paths ← site.decodeDisposition t receipt raw []
      require (sameKeys paths receipt.paths)
        (patchId ++ " disposition covers not the whole receipt scope")
      return { receipt with
        state := .disposed verdict
        dispositionAt := dispositionAt
        dispositionPaths := paths
        note := ((record.get "note").bind Json.str?).getD "" }

/-- `load_receipt`. -/
def Site.loadReceipt (site : Site) (t : Disk) (patchId : String) : Except Raised Receipt := do
  site.loadDisposition t (← site.loadApplied t (← site.loadIntent t patchId))

/-! ### Claims -/

/-- `Receipt.claims`. -/
def Site.claims (site : Site) (t : Disk) (receipt : Receipt) : List (String × Option String) :=
  if receipt.dispositionPaths ≠ [] then
    receipt.dispositionPaths.map fun (rel, value) => (rel, claimHash value)
  else
    let declared := receipt.paths.map fun (rel, spec) => (rel, claimHash spec.after)
    if receipt.state ≠ .pending then declared
    else declared.filter fun (rel, expected) => claimHash (site.fileSha256 t rel) == expected

/-- `claim_kind`. -/
def Receipt.claimKind (receipt : Receipt) : String :=
  if receipt.dispositionPaths ≠ [] then "xpatch_disposition"
  else if receipt.state = .applied then "xpatch_applied"
  else "xpatch_intent"

/-- `claim_time`. -/
def Receipt.claimTime (receipt : Receipt) : String :=
  if receipt.dispositionAt ≠ "" then receipt.dispositionAt
  else if receipt.appliedAt ≠ "" then receipt.appliedAt
  else receipt.createdAt

/-- A record of attribution. -/
structure ClaimRecord where
  patchId : String
  createdAt : String
  opId : String
  ticketId : String
  projectLineage : String
  sourceKind : String
  paths : List (String × Option String)
deriving DecidableEq

/-- The record of a receipt that claims anything. -/
def Site.claimRecord (site : Site) (t : Disk) (receipt : Receipt) : Option ClaimRecord :=
  let claims := site.claims t receipt
  if claims = [] then none
  else some
    { patchId := receipt.patchId
      createdAt := receipt.claimTime
      opId := receipt.patchId
      ticketId := receipt.workId
      projectLineage := receipt.targetLineage
      sourceKind := receipt.claimKind
      paths := claims }

/-- The receipts of `load_receipts`, for the sorted names the exchange directory lists. -/
def Site.loadReceipts (site : Site) (t : Disk) (names : List String) : List Receipt :=
  match t.lstat site.links site.root [".saipen", "exchange", "xpatch"] with
  | some .dir =>
      names.filterMap fun name =>
        match t.lstat site.links site.root (receiptDir name) with
        | some .dir => if isPatchId name then (site.loadReceipt t name).toOption else none
        | _ => none
  | _ => []

/-- The records of `claim_records`. -/
def Site.claimRecords (site : Site) (t : Disk) (names : List String) : List ClaimRecord :=
  (site.loadReceipts t names).filterMap (site.claimRecord t)

end Saipen.XPatch
