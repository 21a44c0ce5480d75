import Saipen.Journal.Scan

/-! # Mutations

`runMutation` validates a request, answers a retry from the stored record, and otherwise passes the
preflight and the lineage bootstrap, publishes the PREPARED record and applies the plan.
`ensureProjectLineage` is the bootstrap: it mints the lineage through a mutation of its own. -/

namespace Saipen

open FileTree DurableState

variable (env : Environment)

/-- The callables and the clock a caller of `run_mutation` brings. -/
structure MutationContext where
  /-- The instant `_now` reads when the record is published. -/
  now : Instant
  /-- The live verifier, run when the policy is `none`. -/
  verify : Option (Disk → List String) := none
  /-- The metadata finalizer; it may raise, which is `none`. -/
  finalize : Option (Disk → PyVal → Option PyVal) := none
  skipPreflight : Bool := false

/-! ### Retry of an existing operation -/

/-- `_REQUEST_METADATA_KEYS`: the metadata that belongs to the identity of a request. -/
def requestMetadataKeys : List String :=
  ["goal_authority_transition", "crew_epoch", "ticket_id", "producer", "package_identity",
    "input_source", "input_source_fingerprint", "role", "stage", "verdict", "source_head",
    "source_tree_fingerprint", "undo_target", "undo_reason", "undo_current",
    "undo_restore_plan_hash"]

/-- The identity-bearing metadata of a request. -/
def requestMetadata (m : Option (List (PyKey × PyVal))) : List (PyKey × PyVal) :=
  requestMetadataKeys.filterMap fun k =>
    (m.bind fun fs => PyVal.getKey k fs).map fun v => (.str k, v)

/-- The identity-bearing metadata of a record. -/
def recordMetadata (m : Nullable Dict) : Dict :=
  requestMetadataKeys.filterMap fun k =>
    (m.get.bind fun fs => Dict.get fs k).map fun v => (k, v)

/-- The after-hash a request implies for a target. -/
def ValidTarget.afterHash (t : ValidTarget) : String :=
  match t.action, t.content with
  | .write, some c => env.hashBytes c
  | _, _ => ""

/-- The entries of one map whose keys another map has. -/
def restrictTo (m other : List (String × String)) : List (String × String) :=
  m.filter fun e => other.any fun o => o.1 = e.1

/-- The fingerprint of a request against a stored record: a committed record ignores plan hints it
does not know. -/
def requestFingerprint (v : ValidRequest) (record : Record) : PyVal :=
  let pre := record.preconditions.getD []
  let readPre := record.readPreconditions.getD []
  let committed := record.status = .committed
  .dict [(.str "operation", .str v.operation),
    (.str "semantic_payload_hash", .str v.semanticPayloadHash),
    (.str "verification_policy", .str v.verificationPolicy.name),
    (.str "targets", .list (v.targets.map fun t => .dict [(.str "path", .str (posix t.path)),
      (.str "role", .str t.role.name), (.str "action", .str t.action.name),
      (.str "after_hash", .str (t.afterHash env))])),
    (.str "preconditions", pyStringMap
      (if committed then restrictTo v.preconditions pre else v.preconditions)),
    (.str "read_preconditions", pyStringMap
      (if committed then restrictTo v.readPreconditions readPre else v.readPreconditions)),
    (.str "receipt_metadata", .dict (requestMetadata v.receiptMetadata))]

/-- The fingerprint of the stored record against a request. -/
def recordFingerprint (v : ValidRequest) (record : Record) : Json :=
  let pre := record.preconditions.getD []
  let readPre := record.readPreconditions.getD []
  let committed := record.status = .committed
  .obj [("operation", .str record.operation),
    ("semantic_payload_hash", .str record.semanticPayloadHash),
    ("verification_policy", record.verificationPolicy.elim .null fun p => .str p.name),
    ("targets", .arr (record.targets.map fun t => .obj [("path", .str t.path),
      ("role", .str t.role.name), ("action", .str t.targetAction.name),
      ("after_hash", .str t.afterHash)])),
    ("preconditions", stringMap
      (if committed then restrictTo pre (restrictTo v.preconditions pre) else pre)),
    ("read_preconditions", stringMap
      (if committed then restrictTo readPre (restrictTo v.readPreconditions readPre)
        else readPre)),
    ("receipt_metadata", .obj (recordMetadata record.receiptMetadata))]

/-- Whether the two fingerprints have the same digest. -/
def sameFingerprint (v : ValidRequest) (record : Record) : Bool :=
  (PyVal.dumps true (requestFingerprint env v record)).map (fun j => env.digestJson j.canonical) =
    some (env.digestJson (recordFingerprint v record).canonical)

/-- The answer to a retry whose stored record is decoded and bound. -/
def answerRetry (v : ValidRequest) (opId : String) (record : Record) : Result :=
  if ¬ sameFingerprint env v record then
    { ok := false, code := .validationFailed, opId,
      detail := "op_id collision: semantic payload does not match existing receipt" }
  else if record.status = .committed then { ok := true, code := .alreadyApplied, opId }
  else { ok := false, code := .recoveryRequired, opId, recoveryRequired := true,
         detail := "op " ++ opId ++ " is already " ++ record.status.name ++ "; recover it first" }

/-- `run_mutation` on an operation id that has a journal; `ensure` is the lineage bootstrap, absent
inside the bootstrap itself. -/
def Journal.retry (ensure : Option (Engine (Except Refusal String))) (j : Journal)
    (v : ValidRequest) : Engine Result := do
  let d ← Prog.read
  match j.decode env false d with
  | .error e => pure (refusal v.opId e)
  | .ok record =>
    match bindRecord env d record with
    | .error e => pure (refusal v.opId e)
    | .ok () =>
      match ensure, record.lineage? with
      | some ensure, some expected => do
        let live ← ensure
        match live with
        | .error e => pure (refusal v.opId e)
        | .ok lineage =>
          if lineage = expected then pure (answerRetry env v v.opId record)
          else pure { ok := false, code := .projectMismatch, opId := v.opId,
                      detail := "lineage changed since receipt was created" }
      | _, _ => pure (answerRetry env v v.opId record)

/-! ### Preparation -/

/-- The live token at the path of a target that is not yet recorded. -/
def preparedLiveHash (d : Disk) (action : Action) (path : Path) : Except Exn String :=
  match ownedTargetPath env (posix path) with
  | some p => .ok (targetLiveHash env d action p)
  | none => .error (.value "target path is not owned")

/-- The before and after states of one target. -/
def prepareTarget (d : Disk) (t : ValidTarget) : Except Exn PreparedTarget := do
  match t.action with
  | .deleteDir => return ⟨t.path, t.role, .deleteDir, none, t.plannedBeforeHash.getD .none, ""⟩
  | action =>
    let before ← preparedLiveHash env d action t.path
    return ⟨t.path, t.role, action, t.content, .str before, t.afterHash env⟩

/-- The live token of a precondition: that of the target it names, or of a dependency. -/
def preconditionHash (d : Disk) (ts : List PreparedTarget) (path expected : String) :
    Except Exn String :=
  match ts.find? fun t => posix t.path = path with
  | some t => preparedLiveHash env d t.action t.path
  | none =>
    match readDependencyPath env path with
    | some p => .ok (hashDependency env d p expected)
    | none => .error (.value "dependency path escapes the project")

/-- Whether a map of preconditions still holds; the answer names the first that changed. -/
def stalePrecondition (token : String → String → Except Exn String) :
    List (String × String) → Except Exn (Option String)
  | [] => .ok none
  | (path, expected) :: es => do
      let actual ← token path expected
      if actual = expected then stalePrecondition token es else return some path

/-- The plan of a request against the live project: the prepared targets, or the first stale
precondition. -/
def planRequest (d : Disk) (v : ValidRequest) : Except Exn (Except String (List PreparedTarget)) := do
  let ts ← v.targets.mapM (prepareTarget env d)
  match ← stalePrecondition (preconditionHash env d ts) v.preconditions with
  | some path => return .error ("precondition " ++ path ++ " changed")
  | none =>
    match ← stalePrecondition (preconditionHash env d []) v.readPreconditions with
    | some path => return .error ("read dependency " ++ path ++ " changed")
    | none => return .ok ts

/-- The arguments `run_mutation` gives to `Journal.start`. -/
def startArguments (v : ValidRequest) (lineage : Option String) (ts : List PreparedTarget) :
    StartArguments where
  operation := v.operation
  agent := v.agent
  projectIdentity := v.projectIdentity
  semanticPayloadHash := v.semanticPayloadHash
  targets := ts
  preconditions := v.preconditions
  verificationPolicy := v.verificationPolicy
  readPreconditions := v.readPreconditions
  receiptMetadata := v.receiptMetadata
  projectLineage := lineage

/-! ### The apply loop -/

/-- The live token of a prepared target. -/
def PreparedTarget.live (d : Disk) (t : PreparedTarget) : String :=
  targetLiveHash env d t.action t.path

/-- The classification of a prepared target. -/
def PreparedTarget.classify (d : Disk) (t : PreparedTarget) : Classification :=
  if t.live env d = t.afterHash then .alreadyApplied
  else if t.beforeHash.str? = some (t.live env d) then .pending
  else .conflict

/-- The apply loop on one target: none when it is at its planned state afterwards. -/
def Journal.applyTarget (j : Journal) (index : Nat) (t : PreparedTarget) :
    Engine (Option Result) := do
  let d ← Prog.read
  match t.classify env d with
  | .alreadyApplied => do
      let _ ← j.mark env .applying (some (index + 1)) (some index)
      pure none
  | .conflict => do
      let refused ← j.refuse env .conflict ("target " ++ posix t.path ++ " has third state")
      pure (some refused)
  | .pending => do
      let failed ← (do
          applyAction t.action t.path t.content
          pure none : Engine (Option String)).rescue fun e =>
        match e with
        | .os detail | .value detail => pure (some detail)
        | e => Prog.raise e
      match failed with
      | some detail => do
          let refused ← j.refuse env .conflict
            ("target " ++ posix t.path ++ " action failed: " ++ detail)
          pure (some refused)
      | none => do
          let d ← Prog.read
          if t.live env d = t.afterHash then do
            let _ ← j.mark env .applying (some (index + 1)) (some index)
            pure none
          else do
            let refused ← j.refuse env .conflict
              ("target " ++ posix t.path ++ " action left unexpected bytes")
            pure (some refused)

/-- The apply loop from an index on. -/
def Journal.applyTargets (j : Journal) : Nat → List PreparedTarget → Engine (Option Result)
  | _, [] => pure none
  | index, t :: ts => do
      let stopped ← j.applyTarget env index t
      match stopped with
      | some refused => pure (some refused)
      | none => j.applyTargets (index + 1) ts

/-- The prepared targets as the semantic verifier sees them. -/
def PreparedTarget.changed (t : PreparedTarget) : ChangedTarget :=
  ⟨posix t.path, t.role, t.action, t.beforeHash.str?, t.afterHash⟩

/-- The metadata a finalizer returned, normalized and dumped; none when it must be refused. -/
def finalizedMetadata (returned : Option PyVal) : Option (List (PyKey × PyVal) × Dict) :=
  match returned with
  | some (.dict fs) =>
    match canonicalRequestMetadata (.dict fs) with
    | .ok (some m) =>
      match PyVal.dumps true (.dict m), PyVal.dumps false (.dict m) with
      | some _, some (.obj d) => some (m, d)
      | _, _ => none
    | _ => none
  | _ => none

/-- Run the metadata finalizer and persist what it returns; the answer is the effective metadata or
the refusal. -/
def Journal.finalizeMetadata (ctx : MutationContext) (j : Journal)
    (m : Option (List (PyKey × PyVal))) :
    Engine (Except Result (Option (List (PyKey × PyVal)))) :=
  match ctx.finalize with
  | none => pure (.ok m)
  | some finalize => do
    let d ← Prog.read
    match finalizedMetadata (finalize d (.dict (m.getD []))) with
    | none => do
        let refused ← j.refuse env .conflict "post-write receipt metadata failed"
        pure (.error refused)
    | some (m, dumped) =>
        (do
          j.update env [("receipt_metadata", .obj dumped)]
          pure (.ok (some m)) :
          Engine (Except Result (Option (List (PyKey × PyVal))))).rescue fun _ => do
            let refused ← j.refuse env .conflict "post-write receipt metadata failed"
            pure (.error refused)

/-- The errors of the semantic verification of an apply. -/
def applyErrors (ctx : MutationContext) (d : Disk) (policy : Policy) (ts : List PreparedTarget)
    (m : Option (List (PyKey × PyVal))) : List String :=
  if policy = .none then ctx.verify.elim [] fun verify => verify d
  else env.verifier policy d (ts.map PreparedTarget.changed)
    ((m.bind fun fs => PyVal.dumps false (.dict fs)).bind fun j => match j with
      | .obj d => some d
      | _ => none)

/-- Everything `run_mutation` does after the PREPARED record is published. -/
def Journal.applyPrepared (ctx : MutationContext) (j : Journal) (policy : Policy)
    (ts : List PreparedTarget) (metadata : Option (List (PyKey × PyVal))) : Engine Result := do
  let _ ← j.markStatus env .applying
  let stopped ← j.applyTargets env 0 ts
  match stopped with
  | some refused => pure refused
  | none => do
    let d ← Prog.read
    match ts.find? fun t => t.live env d ≠ t.afterHash with
    | some t =>
      j.refuse env .conflict ("post-write byte verification failed: target " ++ posix t.path)
    | none => do
      let finalized ← j.finalizeMetadata env ctx metadata
      match finalized with
      | .error refused => pure refused
      | .ok metadata => do
        let d ← Prog.read
        match applyErrors env ctx d policy ts metadata with
        | [] => j.commit env (ts.map fun t => posix t.path) false
        | errors =>
          j.refuse env .conflict ("post-write semantic verification failed: " ++
            "; ".intercalate (errors.take 5))

/-- The publication of the PREPARED record for a validated request: the plan, or the refusal. -/
def Journal.prepareMutation (ctx : MutationContext) (j : Journal) (v : ValidRequest)
    (lineage : Option String) : Engine (Except Result (List PreparedTarget)) := do
  let d ← Prog.read
  match planRequest env d v with
  | .error e => Prog.raise e
  | .ok (.error stale) =>
    pure (.error { ok := false, code := .staleState, opId := v.opId, detail := stale })
  | .ok (.ok ts) =>
    (do
      j.start env (startArguments v lineage ts) ctx.now
      pure (.ok ts) : Engine (Except Result (List PreparedTarget))).rescue fun e =>
    match e with
    | .os detail | .value detail =>
      pure (.error { ok := false, code := .corruptJournal, opId := v.opId,
                     recoveryRequired := true,
                     detail := "journal evidence already exists or cannot be owned: " ++ detail })
    | e => Prog.raise e

/-- `run_mutation` on an operation id without a journal, behind the preflight and the bootstrap. -/
def Journal.execute (ctx : MutationContext) (j : Journal) (v : ValidRequest)
    (lineage : Option String) : Engine Result := do
  let prepared ← j.prepareMutation env ctx v lineage
  match prepared with
  | .error refused => pure refused
  | .ok ts => j.applyPrepared env ctx v.verificationPolicy ts v.receiptMetadata

variable (gitRecovery : Journal → Record → Engine Result)

/-- `run_mutation` with a given lineage bootstrap. -/
def runMutationWith (ensure : Option (Engine (Except Refusal String))) (ctx : MutationContext)
    (request : MutationRequest) : Engine Result :=
  match validateMutationRequest env request with
  | .error detail => pure { ok := false, code := .validationFailed, opId := request.opId.str?.getD "",
                            detail }
  | .ok v => do
    let d ← Prog.read
    match openJournal v.opId d with
    | .error e => Prog.raise (.value e)
    | .ok j =>
      if j.exists' d then j.retry env ensure v
      else do
        let preflight ← if ctx.skipPreflight then pure (.ok [])
          else recoveryPreflight env gitRecovery v.opId
        match preflight with
        | .error refused => pure refused
        | .ok _ =>
          match ensure with
          | none => j.execute env ctx v none
          | some ensure => do
            let lineage ← ensure
            match lineage with
            | .error e => pure (refusal v.opId e)
            | .ok lineage => j.execute env ctx v (some lineage)

/-! ### The lineage bootstrap -/

/-- The request of the lineage migration. -/
def lineageRequest (lineage : String) : MutationRequest where
  opId := .str lineageMigrationOp
  operation := .str "migrate_lineage"
  agent := .str "saipen"
  projectIdentity := .str env.runtimeIdentity
  semanticPayloadHash := .str "lineage-migration"
  targets := some [some {
    path := some (.str ".saipen/IDENTITY.md")
    role := some (.str "manifest")
    action := some (.str "write")
    content := .bytes (.text (identityFileContent lineage))
    plannedBeforeHash := none }]

/-- The lineage persisted in the carrier, or the refusal of a bootstrap that did not find it. -/
def persistedLineage (what : String) (d : Disk) : Except Refusal String :=
  match readLineageStrict d with
  | .ok (some lineage) => .ok lineage
  | .ok none => .error ⟨.recoveryRequired, what ++ " but .saipen/IDENTITY.md is missing"⟩
  | .error e => .error ⟨.recoveryRequired, what ++ " but .saipen/IDENTITY.md is malformed (" ++ e ++
      ")"⟩

/-- What the bootstrap takes from outside: the identifier `new_project_lineage` mints, and the
instant at which its record is published. -/
structure Minting where
  fresh : String
  now : Instant

/-- Mint a lineage through a mutation of its own and return what was persisted. -/
def migrateLineage (mint : Minting) : Engine (Except Refusal String) := do
  let result ← runMutationWith env gitRecovery none { now := mint.now }
    (lineageRequest env mint.fresh)
  if result.ok then do
    let d ← Prog.read
    pure (persistedLineage "lineage migration COMMITTED" d)
  else pure (.error ⟨result.code, "lineage migration failed: " ++ result.detail⟩)

/-- `ensure_project_lineage`. -/
def ensureProjectLineage (mint : Minting) : Engine (Except Refusal String) := do
  let d ← Prog.read
  match readLineageStrict d with
  | .ok (some lineage) => pure (.ok lineage)
  | .error e => pure (.error ⟨.recoveryRequired, ".saipen/IDENTITY.md is present but malformed (" ++
      e ++ "); refuse to mint or overwrite a lineage"⟩)
  | .ok none =>
    match openJournal lineageMigrationOp d with
    | .error e => Prog.raise (.value e)
    | .ok j =>
      if j.exists' d then do
        let result ← recoverLocked env gitRecovery lineageMigrationOp
        if result.code = .aborted then do
          -- the directory is the one the journal had before recovery settled it
          rmtree j.dir
          migrateLineage env gitRecovery mint
        else if result.ok then do
          let d ← Prog.read
          pure (persistedLineage "lineage migration evidence is settled" d)
        else pure (.error ⟨result.code, "lineage migration recovery failed: " ++ result.detail⟩)
      else migrateLineage env gitRecovery mint

/-- `run_mutation`. -/
def runMutation (ctx : MutationContext) (mint : Minting) (request : MutationRequest) :
    Engine Result :=
  runMutationWith env gitRecovery (some (ensureProjectLineage env gitRecovery mint)) ctx request

end Saipen
