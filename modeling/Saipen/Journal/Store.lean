import Saipen.DurableState.Program
import Saipen.Journal.Request

/-! # The journal of one operation

`Journal` and its methods: the directory of an operation under `ops` or `settled`, the PREPARED
publication, the progress sidecar, the fold of the sidecar into the manifest at a terminal status,
the move to `settled`, and the append intent. Each atomic file operation is one durable effect. -/

namespace Saipen

open FileTree DurableState

/-- A program of the engine: its durable state is the project tree. -/
abbrev Engine := Prog Disk Exn

variable (env : Environment)

/-! ### File operations -/

/-- `safe_atomic_write_bytes`: unsafe topology is a `ValueError`. -/
def atomicWrite (path : Path) (c : Content) : Engine Unit :=
  Prog.attempt fun d =>
    match writeFile c path d with
    | some d' => .ok d'
    | none => .error (.value "unsafe topology")

/-- `_atomic_json`. -/
def atomicJson (path : Path) (j : Json) : Engine Unit := atomicWrite path (.json j)

/-- `Path.unlink`. -/
def unlinkPath (path : Path) : Engine Unit :=
  Prog.attempt fun d =>
    match unlink path d with
    | some d' => .ok d'
    | none => .error (.os "unlink")

/-- `Path.rmdir`. -/
def rmdirPath (path : Path) : Engine Unit :=
  Prog.attempt fun d =>
    match rmdir path d with
    | some d' => .ok d'
    | none => .error (.os "rmdir")

/-- Create one file that must not be there. -/
def createFile (c : Content) : Path → Disk → Option Disk :=
  alter false fun
    | none => some (some (.file c))
    | some _ => none

/-- `safe_create_bytes_exclusive`. -/
def createExclusive (path : Path) (c : Content) : Engine Unit :=
  Prog.attempt fun d =>
    match createFile c path d with
    | some d' => .ok d'
    | none => .error (.value "not created exclusively")

/-- Create one directory with its parents; `existOk` accepts one that is there. -/
def makeDir (existOk : Bool) : Path → Disk → Option Disk :=
  alter true fun
    | none => some (some (.dir []))
    | some (.dir es) => if existOk then some (some (.dir es)) else none
    | some _ => none

/-- `Path.mkdir(parents=True)`. -/
def mkdirPath (path : Path) (existOk : Bool) : Engine Unit :=
  Prog.attempt fun d =>
    match makeDir existOk path d with
    | some d' => .ok d'
    | none => .error (.os "mkdir")

/-- `os.rename` of a directory: the destination is absent or an empty directory, and its parent
exists. -/
def renameDir (src dst : Path) (d : Disk) : Option Disk :=
  match probe src d with
  | .found (.dir es) =>
      (alter false (fun _ => some none) src d).bind fun d' =>
        alter false (fun
          | none => some (some (.dir es))
          | some (.dir []) => some (some (.dir es))
          | some _ => none) dst d'
  | _ => none

/-- `os.rename`. -/
def renamePath (src dst : Path) : Engine Unit :=
  Prog.attempt fun d =>
    match renameDir src dst d with
    | some d' => .ok d'
    | none => .error (.os "rename")

/-- Run a program and swallow its `OSError`. -/
def suppressOs (m : Engine Unit) : Engine Unit :=
  m.rescue fun e => match e with
    | .os _ => pure ()
    | e => Prog.raise e

/-- The entries of a directory, none when there is no directory. -/
def dirEntries (path : Path) (d : Disk) : Entries Content :=
  match probe path d with
  | .found (.dir es) => es
  | _ => []

/-- Remove one entry of a tree that is being deleted; a subdirectory goes in one step. -/
def removeNode (path : Path) : Engine Unit :=
  Prog.attempt fun d =>
    match alter false (fun | none => none | some _ => some none) path d with
    | some d' => .ok d'
    | none => .error (.os "unlink")

/-- Run a program for every element of a list. -/
def forEach {α : Type} (f : α → Engine Unit) : List α → Engine Unit
  | [] => pure ()
  | a :: as => do f a; forEach f as

/-- `shutil.rmtree(path, ignore_errors=True)`: the entries in listing order, then the directory. -/
def rmtree (path : Path) : Engine Unit := do
  let d ← Prog.read
  forEach (fun e => suppressOs (removeNode (path ++ [e.1]))) (dirEntries path d)
  suppressOs (rmdirPath path)

/-! ### The journal object -/

/-- A `Journal`: the validated operation id and the directory holding its receipt. -/
structure Journal where
  opId : String
  dir : Path
  deriving DecidableEq, Repr

namespace Journal

/-- `operation.json`. -/
def manifest (j : Journal) : Path := j.dir ++ ["operation.json"]

/-- `progress.json`. -/
def progressFile (j : Journal) : Path := j.dir ++ ["progress.json"]

/-- `append.intent.json`. -/
def appendIntentPath (j : Journal) : Path := j.dir ++ ["append.intent.json"]

/-- The files of the journal directory. -/
def files (j : Journal) (d : Disk) : Entries Content := dirEntries j.dir d

/-- `Journal.exists`: the manifest is a regular file. -/
def exists' (j : Journal) (d : Disk) : Bool :=
  ((j.files d).lookup "operation.json").any Node.isFile

end Journal

/-- Whether a lookup found a link. -/
def isLink : Probe Content → Bool
  | .found (.link _) => true
  | _ => false

/-- `safe_op_dir` of a validated id: neither directory may be a link. -/
def safeOpDir (base : Path) (opId : String) (d : Disk) : Except String Path :=
  if isLink (probe base d) then .error "base_dir is a symlink or reparse point"
  else if isLink (probe (base ++ [opId]) d) then
    .error ("op_dir " ++ Text.quote opId ++ " is a symlink or reparse point")
  else .ok (base ++ [opId])

/-- `Journal.__init__`: a manifest under `ops` is authoritative whatever its shape; without one, a
settled directory of the same id is used. The error is an `InvalidIdError`. -/
def openJournal (opId : String) (d : Disk) : Except String Journal := do
  let opId ← validateOpId opId
  let opsDir ← safeOpDir opsPath opId d
  match probe (opsDir ++ ["operation.json"]) d with
  | .absent =>
      let settledDir ← safeOpDir settledPath opId d
      match probe settledDir d with
      | .found (.dir _) => return ⟨opId, settledDir⟩
      | _ => return ⟨opId, opsDir⟩
  | _ => return ⟨opId, opsDir⟩

/-- `decode_operation_record` of the journal's directory. -/
def Journal.decode (allowSettlementFold : Bool) (j : Journal) (d : Disk) : Except Refusal Record :=
  decodeEntry env allowSettlementFold j.opId (j.files d)

/-- `Journal.read`. -/
def Journal.read (allowSettlementFold : Bool) (j : Journal) : Engine Record := do
  let d ← Prog.read
  match j.decode env allowSettlementFold d with
  | .ok r => pure r
  | .error e => Prog.raise (.decode e)

/-! ### The progress sidecar -/

/-- `_read_progress_sidecar`: whatever JSON the sidecar holds, and an empty object otherwise. -/
def readProgressSidecar (files : Entries Content) : Json :=
  match files.lookup "progress.json" with
  | some (.file c) => c.loads.getD (.obj [])
  | _ => .obj []

/-- The sidecar after `mark`: the frontier only grows. -/
def markedSidecar (status : Status) (progressIndex targetIndex : Option Nat) (prog : Dict) :
    Option Dict :=
  let prog := prog.set "status" (.str status.name)
  let prog := progressIndex.elim prog fun n => prog.set "progress_index" (.int n)
  match targetIndex with
  | none => some prog
  | some i =>
      match prog.get "applied_frontier" with
      | none => some (prog.set "applied_frontier" (.int (max (-1) i)))
      | some j => j.int?.map fun n => prog.set "applied_frontier" (.int (max n i))

/-- The write of `progress.json` that `mark` begins with. -/
def Journal.writeProgress (j : Journal) (status : Status) (progressIndex targetIndex : Option Nat) :
    Engine Unit := do
  let d ← Prog.read
  match readProgressSidecar (j.files d) with
  | .obj prog =>
    match markedSidecar status progressIndex targetIndex prog with
    | some prog => atomicJson j.progressFile (.obj prog)
    | none => Prog.raise (.type "applied_frontier is not a number")
  | _ => Prog.raise (.type "progress.json does not support item assignment")

/-- `Journal.fold_progress`: the effective record becomes the manifest and the sidecar goes. -/
def Journal.foldProgress (j : Journal) : Engine Unit := do
  let d ← Prog.read
  if ((j.files d).lookup "progress.json").any Node.isFile then
    suppressOs do
      let record ← j.read env true
      atomicJson j.manifest record.toJson
      unlinkPath j.progressFile
  else pure ()

/-- The names of the staged payloads in a directory. -/
def stagedPayloads (files : Entries Content) : List String :=
  (files.map Prod.fst).filter fun n => ".staged".toList.isSuffixOf n.toList

/-- Unlink the staged payloads; the answer is whether one of them stayed. -/
def unlinkStaged (dir : Path) : List String → Engine Bool
  | [] => pure false
  | n :: ns => do
      let failed ← (do unlinkPath (dir ++ [n]); pure false : Engine Bool).rescue fun e =>
        match e with
        | .os _ => pure true
        | e => Prog.raise e
      let rest ← unlinkStaged dir ns
      pure (failed || rest)

/-- `_drop_staged_payloads`: the cleanup left over, which is queued beside the settled receipts. -/
def Journal.dropStagedPayloads (j : Journal) : Engine (List String) := do
  let d ← Prog.read
  let failed ← unlinkStaged j.dir (stagedPayloads (j.files d))
  if failed then
    (do
      mkdirPath (settledPath ++ [cleanupQueueName]) true
      atomicWrite (settledPath ++ [cleanupQueueName, j.opId]) (.text "")
      pure ["staged payloads unlink failed for " ++ j.opId ++ "; cleanup queued"] :
        Engine (List String)).rescue fun e =>
      match e with
      | .os _ => pure ["cleanup-debt marker directory unsafe for " ++ j.opId]
      | .value _ => pure ["cleanup-debt marker publish failed for " ++ j.opId]
      | e => Prog.raise e
  else pure []

/-- `_settle_journal`: the receipt moves to `settled`, and every failure leaves it where it is. -/
def Journal.settle (j : Journal) : Engine Unit :=
  suppressOs do
    mkdirPath settledPath true
    let d ← Prog.read
    match safeOpDir settledPath j.opId d with
    | .ok dir => renamePath j.dir dir
    | .error _ => pure ()

/-- `Journal.mark`; the answer is the cleanup that stays pending. -/
def Journal.mark (j : Journal) (status : Status) (progressIndex targetIndex : Option Nat) :
    Engine (List String) := do
  j.writeProgress status progressIndex targetIndex
  if status.settled then do
    j.foldProgress env
    let pending ← if status = .committed then j.dropStagedPayloads else pure []
    j.settle
    pure pending
  else pure []

/-- `Journal.mark` of a status alone. -/
def Journal.markStatus (j : Journal) (status : Status) : Engine (List String) :=
  j.mark env status none none

/-- The sidecar after `reconcile_progress`. -/
def reconciledSidecar (status : Status) (progressIndex : Nat) (appliedFrontier : Int)
    (prog : Dict) : Dict :=
  ((prog.set "status" (.str status.name)).set "progress_index" (.int progressIndex)).set
    "applied_frontier" (.int appliedFrontier)

/-- `Journal.reconcile_progress`: the exact frontier, also downwards. -/
def Journal.reconcileProgress (j : Journal) (status : Status) (progressIndex : Nat)
    (appliedFrontier : Int) : Engine Unit := do
  let d ← Prog.read
  match readProgressSidecar (j.files d) with
  | .obj prog =>
    atomicJson j.progressFile (.obj (reconciledSidecar status progressIndex appliedFrontier prog))
  | _ => Prog.raise (.type "progress.json does not support item assignment")

/-- `Journal.update`: merge fields into the record and write the manifest. -/
def Journal.update (j : Journal) (fields : Dict) : Engine Unit := do
  let record ← j.read env false
  atomicJson j.manifest (.obj (fields.foldl (fun d f => Dict.set d f.1 f.2) record.toDict))

/-- `Journal.staged_content`: the staged bytes of a target, under either name. -/
def Journal.stagedContent (j : Journal) (index : Nat) (path : String) (d : Disk) :
    Except Exn Content :=
  match ownedTargetPath env path with
  | none => .error (.value "target path is not owned")
  | some canonical =>
      let files := j.files d
      let name := stagedName env index (posix canonical)
      let name := if (files.lookup name).isSome then name else legacyStagedName index path
      match files.lookup name with
      | some (.file c) => .ok c
      | _ => .error (.os "staged evidence is unreadable")

/-! ### Publication -/

/-- A target as `run_mutation` prepares it. A directory to be deleted carries the planned hash of
the request, whatever value that is. -/
structure PreparedTarget where
  path : Path
  role : Role
  action : Action
  content : Option Content
  beforeHash : PyVal
  afterHash : String

/-- The arguments of `Journal.start`. -/
structure StartArguments where
  operation : String
  agent : String
  projectIdentity : String
  semanticPayloadHash : String
  targets : List PreparedTarget
  preconditions : List (String × String)
  verificationPolicy : Policy
  readPreconditions : List (String × String)
  receiptMetadata : Option (List (PyKey × PyVal))
  projectLineage : Option String

/-- The object of one prepared target in the PREPARED record. -/
def PreparedTarget.toPy (t : PreparedTarget) : List (PyKey × PyVal) :=
  [(.str "path", .str (posix t.path)), (.str "role", .str t.role.name),
    (.str "action", .str t.action.name), (.str "before_hash", t.beforeHash),
    (.str "after_hash", .str t.afterHash), (.str "applied", .bool false)]

/-- A mapping of strings as a Python dictionary. -/
def pyStringMap (m : List (String × String)) : PyVal := .dict (m.map fun e => (.str e.1, .str e.2))

/-- The PREPARED record `Journal.start` builds at an instant. -/
def StartArguments.record (a : StartArguments) (opId : String) (now : Instant) :
    List (PyKey × PyVal) :=
  [(.str "op_id", .str opId), (.str "operation", .str a.operation),
    (.str "created_at", .str (env.isoFormat now)), (.str "agent", .str a.agent),
    (.str "project_identity", .str a.projectIdentity),
    (.str "project_lineage", a.projectLineage.elim .none .str),
    (.str "semantic_payload_hash", .str a.semanticPayloadHash),
    (.str "preconditions", pyStringMap a.preconditions),
    (.str "read_preconditions", pyStringMap a.readPreconditions),
    (.str "verification_policy", .str a.verificationPolicy.name),
    (.str "status", .str Status.prepared.name), (.str "progress_index", .int 0),
    (.str "targets", .list (a.targets.map fun t => .dict t.toPy))] ++
    a.receiptMetadata.elim [] fun m => [(.str "receipt_metadata", .dict m)]

/-- Stage the exact bytes of one target, if it is a write. -/
def Journal.stageTarget (j : Journal) (index : Nat) (canonical : Path) (t : PreparedTarget) :
    Engine Unit :=
  match t.action, t.content with
  | .write, some c => createExclusive (j.dir ++ [stagedName env index (posix canonical)]) c
  | _, _ => pure ()

/-- Stage the exact bytes of the write targets from an index on. -/
def Journal.stage (j : Journal) : Nat → List PreparedTarget → Engine Unit
  | _, [] => pure ()
  | index, t :: ts =>
      match ownedTargetPath env (posix t.path) with
      | none => Prog.raise (.value "target path is not owned")
      | some canonical => do
          j.stageTarget env index canonical t
          j.stage (index + 1) ts

/-- What `Journal.start` does once its directory exists: the staged payloads, then the manifest. -/
def Journal.publish (j : Journal) (a : StartArguments) (now : Instant) : Engine Unit := do
  j.stage env 0 a.targets
  match PyVal.dumps false (.dict (a.record env j.opId now)) with
  | some record => atomicJson j.manifest record
  | none => Prog.raise (.type "not JSON serializable")

/-- `Journal.start`: a failure after the directory was created removes it again. -/
def Journal.start (j : Journal) (a : StartArguments) (now : Instant) : Engine Unit := do
  mkdirPath j.dir false
  (j.publish env a now).rescue fun e => do
    rmtree j.dir
    Prog.raise e

end Saipen
