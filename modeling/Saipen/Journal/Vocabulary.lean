import Saipen.Json

/-! # The closed vocabularies of the journal and the records written with them

Statuses, target roles, target actions and verification policies are closed sets of names; an
operation record is a JSON object over them. `Record` is the decoded record: optional keys keep
their absence, unknown keys are carried along, and `Record.toDict` is the object it is written as. -/

namespace Saipen

/-- `STATUS`: the states of an operation. -/
inductive Status where
  | prepared | applying | verified | committed | aborted | conflict | resolved
  deriving DecidableEq, Repr

/-- `ROLES`: what a target is to the project. -/
inductive Role where
  | log | board | state | manifest | report | sweep | contract | contractRevision | coverage
  | generic
  deriving DecidableEq, Repr

/-- `TARGET_ACTIONS`. -/
inductive Action where
  | write | deleteFile | deleteDir
  deriving DecidableEq, Repr

/-- `VERIFICATION_POLICIES`: the semantic verifier recovery reruns. -/
inductive Policy where
  | coreFast | improveAtomicFile | retrospective | userperson | subCollect | subDisposition
  | subLifecycle | subClean | subSync | acceptedDebt | none
  deriving DecidableEq, Repr

/-- The first element of a closed set that carries a name. -/
def ofName? {κ : Type} (all : List κ) (name : κ → String) (s : String) : Option κ :=
  all.find? fun k => name k = s

theorem ofName?_eq_some {κ : Type} {all : List κ} {name : κ → String} {s : String} {k : κ}
    (h : ofName? all name s = some k) : name k = s := by
  simpa using List.find?_some h

namespace Status

/-- The members, in the order of the source. -/
def all : List Status :=
  [.prepared, .applying, .verified, .committed, .aborted, .conflict, .resolved]

/-- The name written to disk. -/
def name : Status → String
  | .prepared => "PREPARED"
  | .applying => "APPLYING"
  | .verified => "VERIFIED"
  | .committed => "COMMITTED"
  | .aborted => "ABORTED"
  | .conflict => "CONFLICT"
  | .resolved => "RESOLVED"

/-- Membership in `STATUS`. -/
def ofName? (s : String) : Option Status := Saipen.ofName? all name s

/-- `SETTLED`: the terminal statuses. -/
def settled : Status → Bool
  | .committed | .aborted | .resolved => true
  | _ => false

/-- `UNRESOLVED`: the others. -/
def unresolved (s : Status) : Bool := !s.settled

@[simp] theorem ofName?_name (s : Status) : ofName? s.name = some s := by cases s <;> rfl

end Status

namespace Role

/-- The members, in the order of the source. -/
def all : List Role :=
  [.log, .board, .state, .manifest, .report, .sweep, .contract, .contractRevision, .coverage,
    .generic]

/-- The name written to disk. -/
def name : Role → String
  | .log => "log"
  | .board => "board"
  | .state => "state"
  | .manifest => "manifest"
  | .report => "report"
  | .sweep => "sweep"
  | .contract => "contract"
  | .contractRevision => "contract_revision"
  | .coverage => "coverage"
  | .generic => "generic"

/-- Membership in `ROLES`. -/
def ofName? (s : String) : Option Role := Saipen.ofName? all name s

@[simp] theorem ofName?_name (r : Role) : ofName? r.name = some r := by cases r <;> rfl

end Role

namespace Action

/-- The members, in the order of the source. -/
def all : List Action := [.write, .deleteFile, .deleteDir]

/-- The name written to disk. -/
def name : Action → String
  | .write => "write"
  | .deleteFile => "delete_file"
  | .deleteDir => "delete_dir"

/-- Membership in `TARGET_ACTIONS`. -/
def ofName? (s : String) : Option Action := Saipen.ofName? all name s

@[simp] theorem ofName?_name (a : Action) : ofName? a.name = some a := by cases a <;> rfl

end Action

namespace Policy

/-- The members, in the order of the source. -/
def all : List Policy :=
  [.coreFast, .improveAtomicFile, .retrospective, .userperson, .subCollect, .subDisposition,
    .subLifecycle, .subClean, .subSync, .acceptedDebt, .none]

/-- The name written to disk. -/
def name : Policy → String
  | .coreFast => "core_fast"
  | .improveAtomicFile => "improve_atomic_file"
  | .retrospective => "improve_retrospective_v1"
  | .userperson => "userperson"
  | .subCollect => "sub_collect"
  | .subDisposition => "sub_disposition"
  | .subLifecycle => "sub_lifecycle"
  | .subClean => "sub_clean"
  | .subSync => "sub_sync"
  | .acceptedDebt => "accepted_debt"
  | .none => "none"

/-- Membership in `VERIFICATION_POLICIES`. -/
def ofName? (s : String) : Option Policy := Saipen.ofName? all name s

@[simp] theorem ofName?_name (p : Policy) : ofName? p.name = some p := by cases p <;> rfl

end Policy

/-! ### Answers and refusals -/

/-- The stable codes of the answers modelled here. -/
inductive Code where
  | committed | alreadyApplied | aborted | resolved | conflict | recoveryConflict
  | recoveryRequired | validationFailed | projectMismatch | corruptJournal | staleState
  | ticketNotFound | releaseStageIncomplete | conflictInspect | opInspect | other (name : String)
  deriving DecidableEq, Repr

/-- The code as the answers spell it. -/
def Code.name : Code → String
  | .committed => "COMMITTED"
  | .alreadyApplied => "ALREADY_APPLIED"
  | .aborted => "ABORTED"
  | .resolved => "RESOLVED"
  | .conflict => "CONFLICT"
  | .recoveryConflict => "RECOVERY_CONFLICT"
  | .recoveryRequired => "RECOVERY_REQUIRED"
  | .validationFailed => "VALIDATION_FAILED"
  | .projectMismatch => "PROJECT_MISMATCH"
  | .corruptJournal => "CORRUPT_JOURNAL"
  | .staleState => "STALE_STATE"
  | .ticketNotFound => "TICKET_NOT_FOUND"
  | .releaseStageIncomplete => "RELEASE_STAGE_INCOMPLETE"
  | .conflictInspect => "CONFLICT_INSPECT"
  | .opInspect => "OP_INSPECT"
  | .other name => name

/-- The code that repeats a status. -/
def Code.ofStatus : Status → Code
  | .committed => .committed
  | .aborted => .aborted
  | .resolved => .resolved
  | .conflict => .conflict
  | s => .other s.name

/-- A refusal of the decoder or of the identity binding. -/
structure Refusal where
  code : Code
  detail : String
  deriving DecidableEq, Repr

/-- What recovery reports about the target it stopped at. -/
structure TargetReport where
  path : String
  index : Nat
  expectedBefore : String
  expectedAfter : String
  actual : String
  appliedFrontier : Int
  deriving DecidableEq, Repr

/-- The answer dictionary of `run_mutation`, `_recover_locked` and `recovery_preflight`. -/
structure Result where
  ok : Bool
  code : Code
  opId : String
  recoveryRequired : Bool := false
  detail : String := ""
  target : Option TargetReport := .none
  changedFiles : List String := []
  opIds : List String := []
  conflictDiverged : Option Bool := .none
  deriving DecidableEq, Repr

/-- The exceptions the engine lets out of a call or catches on the way. -/
inductive Exn where
  | os (detail : String)
  | value (detail : String)
  | type (detail : String)
  | decode (refusal : Refusal)
  | lineage (refusal : Refusal)
  deriving DecidableEq, Repr

/-! ### Records -/

/-- A key of a record that may be missing or `null`. -/
inductive Nullable (α : Type) where
  | absent
  | null
  | value (a : α)
  deriving DecidableEq, Repr

/-- `dict.get`: absence and `null` are both `None`. -/
def Nullable.get {α : Type} : Nullable α → Option α
  | .value a => some a
  | _ => .none

/-- One target of a decoded operation record. -/
structure TargetRecord where
  path : String
  role : Role
  /-- Absent in receipts older than the `action` key. -/
  action : Option Action
  beforeHash : String
  afterHash : String
  applied : Bool
  content : Option String
  extra : Dict
  deriving DecidableEq

/-- `_target_action`: targets without an action remain writes. -/
def TargetRecord.targetAction (t : TargetRecord) : Action := t.action.getD .write

/-- `is_noop_target`: the plan changes nothing here. -/
def TargetRecord.isNoop (t : TargetRecord) : Bool := t.beforeHash = t.afterHash

/-- A decoded operation record. -/
structure Record where
  opId : String
  status : Status
  operation : String
  semanticPayloadHash : String
  createdAt : String
  agent : String
  projectIdentity : String
  projectLineage : Nullable String
  verificationPolicy : Option Policy
  preconditions : Option (List (String × String))
  readPreconditions : Option (List (String × String))
  receiptMetadata : Nullable Dict
  progressIndex : Int
  targets : List TargetRecord
  extra : Dict
  deriving DecidableEq

namespace Record

/-- The policy recovery runs; a record without one has none. -/
def policy (r : Record) : Policy := r.verificationPolicy.getD .none

/-- `record.get("read_preconditions") or {}`. -/
def readDependencies (r : Record) : List (String × String) := r.readPreconditions.getD []

/-- The lineage a record is bound to: a missing, `null` or empty one is none. -/
def lineage? (r : Record) : Option String :=
  match r.projectLineage with
  | .value s => if s = "" then .none else some s
  | _ => .none

end Record

/-! ### The object a record is written as -/

/-- A field that is written only when there is a value. -/
def optField (key : String) (v : Option Json) : Dict := v.elim [] fun j => [(key, j)]

/-- A mapping of strings as a JSON object. -/
def stringMap (m : List (String × String)) : Json := .obj (m.map fun e => (e.1, .str e.2))

/-- The keys of a target the decoder reads. -/
def targetKeys : List String :=
  ["path", "role", "action", "before_hash", "after_hash", "applied", "content"]

/-- The keys of a record the decoder reads. -/
def recordKeys : List String :=
  ["op_id", "operation", "created_at", "agent", "project_identity", "project_lineage",
    "semantic_payload_hash", "preconditions", "read_preconditions", "verification_policy",
    "status", "progress_index", "targets", "receipt_metadata"]

/-- The object of one target. -/
def TargetRecord.toDict (t : TargetRecord) : Dict :=
  [("path", .str t.path), ("role", .str t.role.name)] ++
    optField "action" (t.action.map fun a => .str a.name) ++
    [("before_hash", .str t.beforeHash), ("after_hash", .str t.afterHash),
      ("applied", .bool t.applied)] ++
    optField "content" (t.content.map .str) ++ t.extra

/-- A nullable field. -/
def nullableField {α : Type} (key : String) (f : α → Json) : Nullable α → Dict
  | .absent => []
  | .null => [(key, .null)]
  | .value a => [(key, f a)]

/-- The object of a record. -/
def Record.toDict (r : Record) : Dict :=
  [("op_id", .str r.opId), ("operation", .str r.operation), ("created_at", .str r.createdAt),
    ("agent", .str r.agent), ("project_identity", .str r.projectIdentity)] ++
    nullableField "project_lineage" .str r.projectLineage ++
    [("semantic_payload_hash", .str r.semanticPayloadHash)] ++
    optField "preconditions" (r.preconditions.map stringMap) ++
    optField "read_preconditions" (r.readPreconditions.map stringMap) ++
    optField "verification_policy" (r.verificationPolicy.map fun p => .str p.name) ++
    [("status", .str r.status.name), ("progress_index", .int r.progressIndex),
      ("targets", .arr (r.targets.map fun t => .obj t.toDict))] ++
    nullableField "receipt_metadata" .obj r.receiptMetadata ++ r.extra

/-- `json.dumps` of a record, as a value. -/
def Record.toJson (r : Record) : Json := .obj r.toDict

/-- `_terminal_receipt_equivalent`: the two records are written as the same JSON meaning. -/
def Record.terminalReceiptEquivalent (a b : Record) : Bool :=
  a.toJson.canonical = b.toJson.canonical

end Saipen
