import Saipen.Journal.Hash

/-! # The strict operation-record decoder

`decode_operation_record` is the one gate between the bytes of a journal directory and every
decision taken on them. It checks the manifest field by field and merges the progress sidecar.
`decodeManifest` and `mergeProgress` are these two halves; `decodeEntry` reads both files of an
operation directory. -/

namespace Saipen

open FileTree

variable (env : Environment)

/-- `_bad`: the refusal of one field. -/
def badField {α : Type} (field expected : String) : Except Refusal α :=
  .error ⟨.validationFailed, "operation record field " ++ Text.quote field ++ " " ++ expected⟩

/-- Evidence that cannot be trusted, as opposed to a record of the wrong shape. -/
def untrusted {α : Type} (detail : String) : Except Refusal α :=
  .error ⟨.recoveryConflict, detail⟩

/-- The `repr` of `dict.get(key)`. -/
def reprGet (v : Option Json) : String := env.repr (v.getD .null)

/-- A required string. -/
def requireString (d : Dict) (key : String) : Except Refusal String :=
  match d.get key with
  | some (.str s) => .ok s
  | _ => badField key "must be a string"

/-- `_strict_iso_utc`: the canonical spelling of a strict UTC stamp, or the empty string. -/
def strictIsoUtc (s : String) : String :=
  (env.strictUtcStamp (Text.strip s)).elim "" env.isoFormat

/-! ### The header of the manifest -/

/-- `op_id`: non-empty, in the safe grammar, and the name of its directory. -/
def decodeOpId (dirName : String) (d : Dict) : Except Refusal String :=
  match d.get "op_id" with
  | some (.str s) =>
      if s = "" then badField "op_id" "must be a non-empty string"
      else match validateOpId s with
        | .error exc => badField "op_id" ("fails the safe-id grammar: " ++ exc)
        | .ok _ =>
            if dirName = s then .ok s
            else badField "op_id" ("mismatches its directory name " ++ Text.quote dirName)
  | _ => badField "op_id" "must be a non-empty string"

/-- `status`. -/
def decodeStatus (d : Dict) : Except Refusal Status :=
  match (d.get "status").bind Json.str? |>.bind Status.ofName? with
  | some s => .ok s
  | none => badField "status" (reprGet env (d.get "status") ++ " is outside the closed status set")

/-- `operation`. -/
def decodeOperation (d : Dict) : Except Refusal String :=
  match d.get "operation" with
  | some (.str s) => if s = "" then badField "operation" "must be a non-empty string" else .ok s
  | _ => badField "operation" "must be a non-empty string"

/-- `created_at` of a record whose fields are strings: unresolved operations need a strict stamp,
history keeps whatever it has. -/
def decodeCreatedAt (status : Status) (createdAt : String) : Except Refusal String :=
  let parsed := strictIsoUtc env createdAt
  if status.unresolved ∧ parsed = "" then
    badField "created_at" ("must be a strict ISO-8601 UTC timestamp (Z or +00:00, aware); got " ++
      env.repr (.str createdAt))
  else .ok (if parsed = "" then createdAt else parsed)

/-- `project_lineage`. -/
def decodeLineage (d : Dict) : Except Refusal (Nullable String) :=
  match d.get "project_lineage" with
  | none => .ok .absent
  | some .null => .ok .null
  | some (.str s) => .ok (.value s)
  | some _ => badField "project_lineage" "must be a string or absent"

/-- `verification_policy`. -/
def decodePolicy (d : Dict) : Except Refusal (Option Policy) :=
  match d.get "verification_policy" with
  | none => .ok none
  | some j =>
      match j.str?.bind Policy.ofName? with
      | some p => .ok (some p)
      | none => badField "verification_policy" (env.repr j ++ " is outside the closed policy set")

/-- The entries of a map from non-empty strings to strings. -/
def decodeHashMap : List (String × Json) → Option (List (String × String))
  | [] => some []
  | (k, .str v) :: fs => if k = "" then none else (decodeHashMap fs).map ((k, v) :: ·)
  | _ => none

/-- `preconditions` and `read_preconditions`. -/
def decodePreconditions (key : String) (d : Dict) :
    Except Refusal (Option (List (String × String))) :=
  match d.get key with
  | none => .ok none
  | some (.obj fs) =>
      match decodeHashMap fs with
      | some m => .ok (some m)
      | none => badField key "must map string paths to string hashes"
  | some _ => badField key "must be a JSON object"

/-! ### Receipt metadata -/

/-- The metadata keys that must hold strings. -/
def metadataStringKeys : List String :=
  ["operation", "status", "event_id", "crew_epoch", "role", "stage", "verdict", "package_identity",
    "source_head", "source_tree_fingerprint", "undo_target", "undo_reason", "undo_current",
    "undo_restore_plan_hash", "resulting_source_head", "resulting_source_tree_fingerprint",
    "producer", "input_source", "input_source_fingerprint", "resulting_source",
    "resulting_source_fingerprint"]

/-- `_canonical_receipt_metadata` of a JSON object: an empty ticket is no ticket. -/
def canonicalReceiptMetadata (d : Dict) : Except String Dict :=
  match d.get "ticket_id" with
  | none => .ok d
  | some .null => .ok (d.pop "ticket_id")
  | some (.str s) => .ok (if s = "" then d.pop "ticket_id" else d)
  | some _ => .error "ticket_id must be a string or null"

/-- Whether a `paths` entry maps a non-empty path to a hash or `null`. -/
def metadataPathOk (e : String × Json) : Bool :=
  e.1 ≠ "" && (e.2 matches .null || e.2 matches .str _)

/-- `paths` of the metadata. -/
def checkMetadataPaths (d : Dict) : Except Refusal Unit :=
  match d.get "paths" with
  | none => .ok ()
  | some (.obj fs) =>
      if fs.all metadataPathOk then .ok ()
      else badField "receipt_metadata.paths"
        "must map non-empty string paths to string hashes or null"
  | some _ => badField "receipt_metadata.paths" "must be a JSON object"

/-- The first of some keys that is present and not a string. -/
def nonStringKey (d : Dict) (keys : List String) : Option String :=
  keys.find? fun k => (d.get k).any fun j => ¬ j.str?.isSome

/-- The shape checks of decoded metadata. -/
def checkMetadata (d : Dict) : Except Refusal Unit :=
  match nonStringKey d metadataStringKeys with
  | some k => badField ("receipt_metadata." ++ k) "must be a string"
  | none => checkMetadataPaths d

/-- `receipt_metadata`. -/
def decodeMetadata (d : Dict) : Except Refusal (Nullable Dict) :=
  match d.get "receipt_metadata" with
  | none => .ok .absent
  | some .null => .ok .null
  | some (.obj fs) =>
      match canonicalReceiptMetadata fs with
      | .error e => badField "receipt_metadata.ticket_id" e
      | .ok m =>
        match checkMetadata m with
        | .error e => .error e
        | .ok () => .ok (.value m)
  | some _ => badField "receipt_metadata" "must be a JSON object or null"

/-- `progress_index`. -/
def decodeProgressIndex (d : Dict) : Except Refusal Int :=
  match (d.get "progress_index").bind Json.int? with
  | some n => .ok n
  | none => badField "progress_index" "must be an integer"

/-! ### Targets -/

/-- `targets[index].key` in an error. -/
def targetField (index : Nat) (key : String) : String :=
  "targets[" ++ toString index ++ "]" ++ (if key = "" then "" else "." ++ key)

/-- A required string of a target. -/
def targetString (index : Nat) (d : Dict) (key : String) : Except Refusal String :=
  match d.get key with
  | some (.str s) => .ok s
  | _ => badField (targetField index key) "must be a string"

/-- Whether the staged evidence of a write target is there, under either name. -/
def hasStaged (files : Entries Content) (index : Nat) (canonical : Path) (path : String) : Bool :=
  ((files.lookup (stagedName env index (posix canonical))).any Node.isFile) ||
    ((files.lookup (legacyStagedName index path)).any Node.isFile)

/-- The action of a target. -/
def decodeAction (index : Nat) (d : Dict) : Except Refusal (Option Action) :=
  match d.get "action" with
  | none => .ok none
  | some j =>
      match j.str?.bind Action.ofName? with
      | some a => .ok (some a)
      | none => badField (targetField index "action")
          (env.repr j ++ " is outside ['delete_dir', 'delete_file', 'write']")

/-- The owned path of a target, which may occur once in a record. -/
def decodeTargetPath (index : Nat) (seen : List Path) (path : String) : Except Refusal Path :=
  if path = "" then badField (targetField index "path") "must be non-empty"
  else
    match ownedTargetPath env path with
    | none => badField (targetField index "path") "is not an owned project path"
    | some canonical =>
        if canonical ∈ seen then
          badField (targetField index "path") ("resolves to owned object " ++
            Text.quote (posix canonical) ++ " which is already a target -- one owned object may " ++
            "appear at most once per operation")
        else .ok canonical

/-- The role of a target. -/
def decodeRole (index : Nat) (d : Dict) : Except Refusal Role :=
  match (d.get "role").bind Json.str? |>.bind Role.ofName? with
  | some role => .ok role
  | none => badField (targetField index "role")
      (reprGet env (d.get "role") ++ " is outside the closed role set")

/-- The applied flag of a target. -/
def decodeApplied (index : Nat) (d : Dict) : Except Refusal Bool :=
  match d.get "applied" with
  | some (.bool applied) => .ok applied
  | _ => badField (targetField index "applied") "must be a boolean"

/-- The inline content of a target, if it has one. -/
def decodeContent (index : Nat) (d : Dict) : Except Refusal (Option String) :=
  match d.get "content" with
  | none => .ok none
  | some (.str content) => .ok (some content)
  | some _ => badField (targetField index "content") "must be a string"

/-- An unresolved write target needs its staged evidence. -/
def checkStaged (files : Entries Content) (status : Status) (index : Nat) (canonical : Path)
    (t : TargetRecord) : Except Refusal Unit :=
  if status.unresolved ∧ t.targetAction = .write ∧ ¬ hasStaged env files index canonical t.path then
    badField (targetField index "path") (Text.quote t.path ++
      " is a write target of an unresolved op but its staged-write evidence " ++
      Text.quote (stagedName env index (posix canonical)) ++
      " is missing; journal evidence is corrupt")
  else .ok ()

/-- One target, with its owned path. -/
def decodeTarget (files : Entries Content) (status : Status) (index : Nat) (seen : List Path)
    (d : Dict) : Except Refusal (TargetRecord × Path) := do
  let path ← targetString index d "path"
  let _ ← targetString index d "role"
  let beforeHash ← targetString index d "before_hash"
  let afterHash ← targetString index d "after_hash"
  let canonical ← decodeTargetPath env index seen path
  let role ← decodeRole env index d
  let action ← decodeAction env index d
  let applied ← decodeApplied index d
  let content ← decodeContent index d
  let t := { path, role, action, beforeHash, afterHash, applied, content,
             extra := d.filter fun e => e.1 ∉ targetKeys }
  checkStaged env files status index canonical t
  return (t, canonical)

/-- The targets from an index on; `seen` are the owned paths of the earlier ones. -/
def decodeTargets (files : Entries Content) (status : Status) :
    Nat → List Path → List Json → Except Refusal (List TargetRecord)
  | _, _, [] => .ok []
  | index, seen, .obj d :: js => do
      let (t, canonical) ← decodeTarget env files status index seen d
      let ts ← decodeTargets files status (index + 1) (seen ++ [canonical]) js
      return t :: ts
  | index, _, _ => badField (targetField index "") "must be a JSON object"

/-! ### The manifest -/

/-- The manifest half of `decode_operation_record`: the record the object describes, in the
directory `dirName` with these files. -/
def decodeRecord (dirName : String) (files : Entries Content) (d : Dict) :
    Except Refusal Record := do
  let opId ← decodeOpId dirName d
  let status ← decodeStatus env d
  let operation ← decodeOperation d
  let semanticPayloadHash ← requireString d "semantic_payload_hash"
  let createdAt ← requireString d "created_at"
  let createdAt ← decodeCreatedAt env status createdAt
  let agent ← requireString d "agent"
  let projectIdentity ← requireString d "project_identity"
  let projectLineage ← decodeLineage d
  let verificationPolicy ← decodePolicy env d
  let preconditions ← decodePreconditions "preconditions" d
  let readPreconditions ← decodePreconditions "read_preconditions" d
  let receiptMetadata ← decodeMetadata d
  let progressIndex ← decodeProgressIndex d
  match d.get "targets" with
  | some (.arr js) => do
    let targets ← decodeTargets env files status 0 [] js
    return { opId, status, operation, semanticPayloadHash, createdAt, agent, projectIdentity,
             projectLineage, verificationPolicy, preconditions, readPreconditions,
             receiptMetadata, progressIndex, targets,
             extra := d.filter fun e => e.1 ∉ recordKeys }
  | _ => badField "targets" "must be a JSON array"

/-- The manifest half of `decode_operation_record`, from the bytes of `operation.json`. -/
def decodeManifest (dirName : String) (files : Entries Content) (raw : Content) :
    Except Refusal Record :=
  match raw.loads with
  | none => untrusted "operation.json is not valid JSON"
  | some (.obj d) => decodeRecord env dirName files d
  | some _ => untrusted "operation record is not a JSON object"

/-! ### The progress sidecar -/

/-- A decoded sidecar; every field may be missing. -/
structure Progress where
  status : Option Status
  progressIndex : Option Int
  appliedFrontier : Option Int
  deriving DecidableEq, Repr

/-- A sidecar integer: booleans are not integers here, and `null` is absence. -/
def sidecarInt (d : Dict) (key : String) (lo hi : Int) : Except Refusal (Option Int) :=
  match d.get key with
  | none | some .null => .ok none
  | some (.int n) =>
      if n < lo ∨ hi < n then
        .error ⟨.validationFailed, "progress.json " ++ key ++ " " ++ toString n ++
          " out of range [" ++ toString lo ++ ", " ++ toString hi ++ "]"⟩
      else .ok (some n)
  | some _ => .error ⟨.validationFailed, "progress.json " ++ key ++ " must be an integer"⟩

/-- The status of the sidecar. -/
def sidecarStatus (d : Dict) : Except Refusal (Option Status) :=
  match d.get "status" with
  | none | some .null => .ok none
  | some j =>
      match j.str?.bind Status.ofName? with
      | some s => .ok (some s)
      | none => .error ⟨.validationFailed, "progress.json status " ++ env.repr j ++
          " outside closed status set"⟩

/-- `_decode_progress_sidecar` of an object, for a manifest with `n` targets and a status. A terminal
sidecar over an unresolved manifest is refused, unless the caller is the fold itself. -/
def decodeProgress (n : Nat) (base : Status) (allowSettlementFold : Bool) (d : Dict) :
    Except Refusal Progress := do
  let status ← sidecarStatus env d
  let progressIndex ← sidecarInt d "progress_index" 0 n
  let appliedFrontier ← sidecarInt d "applied_frontier" (-1) (max ((n : Int) - 1) (-1))
  if status.any Status.settled ∧ base.unresolved ∧ ¬ allowSettlementFold then
    untrusted ("progress.json claims terminal " ++
      Text.quote ((status.map Status.name).getD "") ++ " but manifest is " ++
      Text.quote base.name ++ "; settlement did not fold")
  else return ⟨status, progressIndex, appliedFrontier⟩

/-- `_decode_progress_sidecar` from the bytes of `progress.json`. -/
def decodeProgressSidecar (n : Nat) (base : Status) (allowSettlementFold : Bool) (raw : Content) :
    Except Refusal Progress :=
  match raw.loads with
  | none => untrusted "progress.json is not valid JSON"
  | some (.obj d) => decodeProgress env n base allowSettlementFold d
  | some _ => untrusted "progress.json is not a JSON object"

/-- Set the applied flags of the first targets. -/
def markApplied (count : Int) : List TargetRecord → List TargetRecord
  | [] => []
  | t :: ts => (if 0 < count then { t with applied := true } else t) :: markApplied (count - 1) ts

/-- The record under a decoded sidecar. -/
def Record.withProgress (r : Record) (p : Progress) : Record :=
  { r with
    status := p.status.getD r.status
    progressIndex := p.progressIndex.getD r.progressIndex
    targets := p.appliedFrontier.elim r.targets fun f => markApplied (f + 1) r.targets }

/-- `_merge_progress_sidecar` on captured bytes; `none` is the absence of the sidecar. -/
def mergeProgress (r : Record) (allowSettlementFold : Bool) (raw : Option Content) :
    Except Refusal Record :=
  match raw with
  | none => .ok r
  | some c =>
      (decodeProgressSidecar env r.targets.length r.status allowSettlementFold c).map
        r.withProgress

/-! ### A journal directory -/

/-- The sidecar of a directory: absent, its bytes, or an unsafe shape. -/
def sidecarBytes (files : Entries Content) : Except Refusal (Option Content) :=
  match files.lookup "progress.json" with
  | none => .ok none
  | some (.file c) => .ok (some c)
  | some (.link _) => untrusted "progress.json is a symlink or reparse point"
  | some _ => untrusted "progress.json is not a regular file"

/-- `decode_operation_record` of a directory with these files. -/
def decodeEntry (allowSettlementFold : Bool) (dirName : String) (files : Entries Content) :
    Except Refusal Record :=
  match files.lookup "operation.json" with
  | some (.file raw) => do
      let r ← decodeManifest env dirName files raw
      let progress ← sidecarBytes files
      mergeProgress env r allowSettlementFold progress
  | _ => untrusted "operation.json is unreadable"

/-- `decode_operation_record` of captured bytes, with the staged evidence of the directory. -/
def decodeCaptured (e : ReceiptEntry) : Except Refusal Record :=
  match e.manifest, e.progress with
  | .inl raw, .inl progress => do
      let r ← decodeManifest env e.name e.files raw
      mergeProgress env r false progress
  | _, _ => untrusted "invalid receipt structure"

end Saipen
