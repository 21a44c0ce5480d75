import Saipen.Journal.Append
import Saipen.Journal.Identity

/-! # Recovery

`recoverLocked` finishes an unresolved operation from the bytes on disk. All of its decisions before
the first write are the pure function `recoveryVerdict`: a third state, an out-of-order target, an
abort, a stale dependency, or a roll-forward from the materialized prefix. -/

namespace Saipen

open FileTree DurableState

variable (env : Environment)

/-! ### The verdict -/

/-- The live token of a target of a record. -/
def liveHash (d : Disk) (t : TargetRecord) : String :=
  match ownedTargetPath env t.path with
  | some p => targetLiveHash env d t.targetAction p
  | none => ""

/-- The classification of every target, with deferrals. -/
def classifications (d : Disk) (ts : List TargetRecord) : List Classification :=
  deferUnreachedTargets (ts.map (·.path))
    (ts.map fun t => classifyTarget (liveHash env d t) t.beforeHash t.afterHash)

/-- The length of the materialized prefix. -/
def prefixLength (cs : List Classification) : Nat :=
  (cs.takeWhile (· = .alreadyApplied)).length

/-- The first target in a third state. -/
def firstConflict (cs : List Classification) : Option Nat := cs.findIdx? (· = .conflict)

/-- The first target, from the frontier on, that has materialized and is not a no-op. -/
def firstOutOfOrder (cs : List Classification) (ts : List TargetRecord) : Option Nat :=
  let n := prefixLength cs
  ((cs.zip ts).drop n).findIdx? (fun e => e.1 = .alreadyApplied ∧ ¬ e.2.isNoop) |>.map (· + n)

/-- Whether nothing has materialized: every target is pending or a no-op. -/
def nothingApplied (cs : List Classification) (ts : List TargetRecord) : Bool :=
  (cs.zip ts).all fun e => e.1 = .pending ∨ e.2.isNoop

/-- The live token of a read dependency of a record. -/
def dependencyHash (d : Disk) (path expected : String) : String :=
  match readDependencyPath env path with
  | some p => hashDependency env d p expected
  | none => ""

/-- The first read dependency that changed. -/
def firstStale (d : Disk) (deps : List (String × String)) : Option (String × String) :=
  deps.find? fun e => dependencyHash env d e.1 e.2 ≠ e.2

/-- What recovery decides from the bytes on disk. -/
inductive Verdict where
  | thirdState (index frontier : Nat)
  | outOfOrder (index frontier : Nat)
  | abort
  | staleDependency (path expected : String)
  | rollForward (frontier : Nat)
  deriving DecidableEq, Repr

/-- The decisions of `_recover_locked` before its first write. -/
def recoveryVerdict (d : Disk) (r : Record) : Verdict :=
  let cs := classifications env d r.targets
  match firstConflict cs with
  | some i => .thirdState i (prefixLength cs)
  | none =>
    match firstOutOfOrder cs r.targets with
    | some i => .outOfOrder i (prefixLength cs)
    | none =>
      if r.status = .prepared ∧ nothingApplied cs r.targets then .abort
      else
        match firstStale env d r.readDependencies with
        | some (path, expected) => .staleDependency path expected
        | none => .rollForward (prefixLength cs)

/-! ### Rolling forward -/

/-- A refusal that leaves recovery required. -/
def refusal (opId : String) (e : Refusal) : Result :=
  { ok := false, code := e.code, opId, recoveryRequired := true, detail := e.detail }

/-- The report about one target, read from the disk as it stands. -/
def targetReport (d : Disk) (t : TargetRecord) (index frontier : Nat) : TargetReport :=
  ⟨t.path, index, t.beforeHash, t.afterHash, liveHash env d t, (frontier : Int) - 1⟩

/-- Mark the operation CONFLICT and refuse with a report about one target. -/
def Journal.refuseTarget (j : Journal) (code : Code) (ts : List TargetRecord)
    (index frontier : Nat) (detail : String) : Engine Result := do
  let _ ← j.markStatus env .conflict
  let d ← Prog.read
  pure { ok := false, code, opId := j.opId, recoveryRequired := true, detail,
         target := (ts[index]?).map fun t => targetReport env d t index frontier }

/-- The path a target is applied at. -/
def applyPath (path : String) : Path := (ownedTargetPath env path).getD []

/-- Apply one planned transition. -/
def applyAction (action : Action) (path : Path) (content : Option Content) : Engine Unit :=
  match action, content with
  | .write, some c => atomicWrite path c
  | .write, none => Prog.raise (.os "no content")
  | .deleteFile, _ => unlinkPath path
  | .deleteDir, _ => rmdirPath path

/-- The action of recovery on one pending target: none when it was applied. -/
def Journal.pendingAction (j : Journal) (record : Record) (frontier index : Nat)
    (t : TargetRecord) : Engine (Option Result) :=
  match t.targetAction with
  | .write => do
      let d ← Prog.read
      match j.stagedContent env index t.path d with
      | .error e => Prog.raise e
      | .ok staged =>
        if env.hashBytes staged = t.afterHash then do
          applyAction .write (applyPath env t.path) (some staged)
          pure none
        else do
          let refused ← j.refuseTarget env .conflict record.targets index frontier
            ("staged bytes for " ++ t.path ++ " hash to " ++ Text.quote (env.hashBytes staged) ++
              ", not planned " ++ Text.quote t.afterHash ++ "; journal evidence is corrupt")
          pure (some refused)
  | action => do
      applyAction action (applyPath env t.path) none
      pure none

/-- Apply one pending target; an `OSError` of its action becomes a conflict. -/
def Journal.applyPending (j : Journal) (record : Record) (frontier index : Nat)
    (t : TargetRecord) : Engine (Option Result) :=
  (j.pendingAction env record frontier index t).rescue fun e =>
    match e with
    | .os detail => do
        let refused ← j.refuseTarget env .recoveryConflict record.targets index frontier
          ("target " ++ t.path ++ " recovery action failed: " ++ detail)
        pure (some refused)
    | e => Prog.raise e

/-- Apply the targets from an index on; the answer is the refusal that stopped it, if any. -/
def Journal.rollForward (j : Journal) (record : Record) (frontier : Nat) :
    Nat → List TargetRecord → Engine (Option Result)
  | _, [] => pure none
  | index, t :: ts => do
      let stopped ← j.applyPending env record frontier index t
      match stopped with
      | some refused => pure (some refused)
      | none => do
          let _ ← j.mark env .applying (some (index + 1)) (some index)
          j.rollForward record frontier (index + 1) ts

/-- `_verify_target_bytes`: the first target that is not at its planned bytes. -/
def verifyTargetBytes (d : Disk) (ts : List TargetRecord) : Option TargetRecord :=
  ts.find? fun t => liveHash env d t ≠ t.afterHash

/-- The targets as the semantic verifier sees them. -/
def TargetRecord.changed (t : TargetRecord) : ChangedTarget :=
  ⟨t.path, t.role, t.targetAction, some t.beforeHash, t.afterHash⟩

/-- `_run_verifier`, which the policy `none` skips. -/
def runVerifier (policy : Policy) (d : Disk) (ts : List ChangedTarget) (metadata : Option Dict) :
    List String :=
  if policy = .none then [] else env.verifier policy d ts metadata

/-- Mark the operation CONFLICT and refuse without a target report. -/
def Journal.refuse (j : Journal) (code : Code) (detail : String) : Engine Result := do
  let _ ← j.markStatus env .conflict
  pure { ok := false, code, opId := j.opId, recoveryRequired := true, detail }

/-- The end of recovery and of the apply loop alike: VERIFIED, then COMMITTED. -/
def Journal.commit (j : Journal) (changed : List String) (recovered : Bool) : Engine Result := do
  let _ ← j.markStatus env .verified
  let pending ← j.markStatus env .committed
  pure { ok := true, code := .committed, opId := j.opId, recoveryRequired := recovered,
         changedFiles := changed, detail := "; ".intercalate pending }

/-- Byte and semantic verification, then the terminal marks. -/
def Journal.finish (j : Journal) (record : Record) : Engine Result := do
  let d ← Prog.read
  match verifyTargetBytes env d record.targets with
  | some t => j.refuse env .conflict ("recovered byte verification failed: target " ++ t.path)
  | none =>
    match runVerifier env record.policy d (record.targets.map TargetRecord.changed)
        record.receiptMetadata.get with
    | [] => j.commit env (record.targets.map (·.path)) true
    | errors =>
      j.refuse env .conflict ("recovered state fails the registered semantic verifier: " ++
        "; ".intercalate (errors.take 5))

/-- Whether the persisted bookkeeping differs from the materialized prefix. -/
def needsReconcile (record : Record) (frontier : Nat) (sidecar : Json) : Bool :=
  let persisted : Option Json := match sidecar with
    | .obj prog => some ((Dict.get prog "applied_frontier").getD (.int (-1)))
    | _ => none
  record.progressIndex ≠ frontier || persisted ≠ some (.int ((frontier : Int) - 1)) ||
    (record.targets.take frontier).any fun t => ¬ t.applied

/-- Repair the bookkeeping, apply the pending suffix and settle. -/
def Journal.complete (j : Journal) (record : Record) (frontier : Nat) : Engine Result := do
  let d ← Prog.read
  if needsReconcile record frontier (readProgressSidecar (j.files d)) then
    j.reconcileProgress .applying frontier ((frontier : Int) - 1)
  else pure ()
  let stopped ← j.rollForward env record frontier frontier (record.targets.drop frontier)
  match stopped with
  | some refused => pure refused
  | none => j.finish env record

/-! ### Release operations -/

/-- The keys `_validate_record` of the release recovery asks for. -/
def releaseKeys : List String :=
  ["version", "branch", "tag", "ticket_id", "source_head", "remote_push_url", "scope_paths",
    "metadata_paths"]

/-- `_recover_release_op_locked`: recorded verdicts are final, an incomplete record becomes a
conflict, and a complete one is handed to the Git recovery. -/
def Journal.recoverRelease (gitRecovery : Journal → Record → Engine Result) (j : Journal)
    (record : Record) : Engine Result :=
  if record.status = .conflict ∨ record.status = .aborted ∨ record.status = .resolved then
    pure { ok := false, code := .ofStatus record.status, opId := j.opId, recoveryRequired := true,
           detail := "release op is " ++ record.status.name ++
             "; resolve explicitly before further mutation" }
  else if releaseKeys.all fun k => (record.extra.get k).isSome then gitRecovery j record
  else j.refuse env .conflict
    "release op record is corrupt or incomplete; preserve evidence and resolve explicitly"

/-! ### Recovery -/

variable (gitRecovery : Journal → Record → Engine Result)

/-- Recovery of a decoded, bound record: terminal statuses answer, releases go their own way, and
everything else follows the verdict. -/
def Journal.recoverRecord (j : Journal) (record : Record) : Engine Result :=
  if record.status = .committed then
    pure { ok := true, code := .alreadyApplied, opId := j.opId }
  else if record.status.settled then
    pure { ok := false, code := .ofStatus record.status, opId := j.opId, recoveryRequired := true,
           detail := "op is " ++ record.status.name ++
             "; resolve explicitly before further mutation" }
  else if record.operation = "release" then j.recoverRelease env gitRecovery record
  else do
    let d ← Prog.read
    match recoveryVerdict env d record with
    | .thirdState i n =>
      j.refuseTarget env .recoveryConflict record.targets i n
        "unfinished target has unexpected bytes; refuse to guess"
    | .outOfOrder i n =>
      j.refuseTarget env .recoveryConflict record.targets i n
        "target materialized out of order; refuse to guess"
    | .abort => do
        let _ ← j.markStatus env .aborted
        pure { ok := true, code := .aborted, opId := j.opId }
    | .staleDependency path _ =>
      j.refuse env .conflict ("read-only dependency " ++ path ++ " changed; refuse to roll forward")
    | .rollForward n => j.complete env record n

/-- Whether every target and dependency path of a record resolves. -/
def pathsOwned (r : Record) : Bool :=
  r.targets.all (fun t => (ownedTargetPath env t.path).isSome) &&
    r.readDependencies.all fun e => (readDependencyPath env e.1).isSome

/-- Finish a durable append intent; the answer is whether there was one, or the refusal. -/
def Journal.resumeIntent (j : Journal) : Engine (Except Refusal Bool) :=
  (do
    let resumed ← j.resumeAppendIntent env
    pure (.ok resumed) : Engine (Except Refusal Bool)).rescue fun e =>
  match e with
  | .os detail | .value detail => pure (.error ⟨.recoveryConflict,
      "journal append intent cannot be resumed: " ++ detail⟩)
  | .decode refused => pure (.error ⟨.recoveryConflict,
      "journal append intent cannot be resumed: " ++ refused.detail⟩)
  | e => Prog.raise e

/-- Recovery behind the gates: resume an append intent, then recover the record it leaves. -/
def Journal.recoverBound (j : Journal) (record : Record) : Engine Result := do
  let resumed ← j.resumeIntent env
  match resumed with
  | .error e => pure (refusal j.opId e)
  | .ok false => j.recoverRecord env gitRecovery record
  | .ok true => do
      let d ← Prog.read
      match j.decode env false d with
      | .error e => pure (refusal j.opId e)
      | .ok record => j.recoverRecord env gitRecovery record

/-- The read-only gates of recovery: the record that is decoded, owned and bound to the project. -/
def Journal.gate (j : Journal) (d : Disk) : Except Refusal Record := do
  let record ← j.decode env false d
  if pathsOwned env record then do
    bindRecord env d record
    return record
  else .error ⟨.validationFailed, "journal target/precondition path escapes the project"⟩

/-- `_recover_locked`. -/
def recoverLocked (opId : String) : Engine Result := do
  let d ← Prog.read
  match openJournal opId d with
  | .error e => pure { ok := false, code := .validationFailed, opId, recoveryRequired := true,
                       detail := "op_id is not a safe path component: " ++ e }
  | .ok j =>
    if j.exists' d then
      match j.gate env d with
      | .error e => pure (refusal opId e)
      | .ok record => j.recoverBound env gitRecovery record
    else pure { ok := false, code := .ticketNotFound, opId }

/-! ### Inspection -/

/-- The hash a target is expected at, by its applied flag. -/
def TargetRecord.expectedHash (t : TargetRecord) : String :=
  if t.applied then t.afterHash else t.beforeHash

/-- The conflicting locations `inspect_op` lists for a record. -/
def conflictingLocations (d : Disk) (r : Record) : List String :=
  (r.targets.filter fun t => liveHash env d t ≠ t.expectedHash).map (·.path)

/-- `inspect_op`: the conflicting locations, or the refusal. -/
def inspectOp (opId : String) (d : Disk) : Except Refusal (List String) :=
  match openJournal opId d with
  | .error e => .error ⟨.validationFailed, "journal target path or op_id escapes the project: " ++ e⟩
  | .ok j =>
    if j.exists' d then do
      let record ← j.decode env false d
      if record.targets.all fun t => (ownedTargetPath env t.path).isSome then
        return conflictingLocations env d record
      else .error ⟨.validationFailed, "journal target path or op_id escapes the project"⟩
    else .error ⟨.ticketNotFound, ""⟩

/-- `_conflict_diverges`: evidence that will not inspect fails closed. -/
def conflictDiverges (opId : String) (d : Disk) : Bool :=
  match inspectOp env opId d with
  | .ok locations => locations ≠ []
  | .error _ => true

end Saipen
