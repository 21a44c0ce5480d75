import Saipen.Journal.Recover

/-! # The scan of unresolved operations and the mutation preflight

`scanPending` lists every unresolved or corrupt receipt under `ops`. `recoveryPreflight` is the gate
of every new mutation: it refuses corrupt evidence and conflicts, refuses several pending
operations, and recovers a single one first. -/

namespace Saipen

open FileTree DurableState

variable (env : Environment)

/-- One unresolved receipt; a corrupt one has no status. -/
structure PendingOp where
  opId : String
  status : Option Status
  createdAt : String
  detail : String
  deriving DecidableEq, Repr

/-- Corrupt evidence. -/
def PendingOp.corrupt (opId detail : String) : PendingOp := ⟨opId, none, "", detail⟩

/-- What one entry of the ops directory contributes to the scan. -/
def scanEntry (name : String) : Node Content → Option PendingOp
  | .link _ => some (.corrupt name "op_dir is a symlink or reparse point")
  | .file _ | .special =>
      some (.corrupt name "unexpected non-directory entry under recovery/ops")
  | .dir es =>
      if (es.lookup "operation.json").any Node.isFile then
        match decodeEntry env false name es with
        | .error e => some (.corrupt name e.detail)
        | .ok r => if r.status.settled then none
            else some ⟨r.opId, some r.status, r.createdAt, ""⟩
      else some (.corrupt name ("op directory has no operation.json manifest (interrupted " ++
        "pre-manifest staging?); orphan staged evidence must be resolved explicitly"))

/-- The sort key of the scan: the instant of creation, then the operation id. -/
def PendingOp.key (p : PendingOp) : Nat × String :=
  ((env.strictUtcStamp (Text.strip p.createdAt)).getD 0, p.opId)

/-- Oldest first. -/
def PendingOp.before (a b : PendingOp) : Bool :=
  (a.key env).1 < (b.key env).1 ∨ ((a.key env).1 = (b.key env).1 ∧ (a.key env).2 ≤ (b.key env).2)

/-- The entries of the ops directory, or the structural corruption found in its place. -/
def opsListing (d : Disk) : Except PendingOp (Entries Content) :=
  match probe recoveryPath d with
  | .absent => .ok []
  | .blocked => .error (.corrupt "OPS_DIR" "RECOVERY is unreadable")
  | .found (.link _) => .error (.corrupt "OPS_DIR" "RECOVERY is a symlink or reparse point")
  | .found (.dir _) =>
    match probe opsPath d with
    | .absent => .ok []
    | .blocked => .error (.corrupt "OPS_DIR" "OPS_DIR is unreadable")
    | .found (.link _) => .error (.corrupt "OPS_DIR" "OPS_DIR is a symlink or reparse point")
    | .found (.dir es) => .ok es
    | .found _ => .error (.corrupt "OPS_DIR" "OPS_DIR exists but is not a directory")
  | .found _ => .error (.corrupt "OPS_DIR" "RECOVERY exists but is not a directory")

/-- `scan_pending`: the unresolved receipts, oldest first. -/
def scanPending (d : Disk) : List PendingOp :=
  match opsListing d with
  | .error p => [p]
  | .ok es => (es.filterMap fun e => scanEntry env e.1 e.2).insertionSort
      fun a b => PendingOp.before env a b = true

variable (gitRecovery : Journal → Record → Engine Result)

/-- `recovery_preflight`: the operations it recovered, or the refusal. -/
def recoveryPreflight (exclude : String) : Engine (Except Result (List String)) := do
  let d ← Prog.read
  let found := scanPending env d
  let corrupt := found.filter (·.status = none)
  let conflicts := found.filter fun p => p.status = some .conflict ∧ p.opId ≠ exclude
  let pending := found.filter (·.opId ≠ exclude)
  match corrupt, conflicts, pending with
  | c :: _, _, _ =>
    pure (.error { ok := false, code := .corruptJournal, opId := c.opId, recoveryRequired := true,
                   opIds := corrupt.map (·.opId),
                   detail := "corrupt journal evidence " ++ c.opId ++ " blocks new mutation: " ++
                     c.detail })
  | [], c :: _, _ =>
    pure (.error { ok := false, code := .recoveryConflict, opId := c.opId,
                   recoveryRequired := true, opIds := conflicts.map (·.opId),
                   conflictDiverged := some (conflictDiverges env c.opId d),
                   detail := "unresolved conflict " ++ c.opId ++ " blocks new mutation" })
  | [], [], [] => pure (.ok [])
  | [], [], [p] => do
    let result ← recoverLocked env gitRecovery p.opId
    if result.ok then pure (.ok [p.opId]) else pure (.error result)
  | [], [], ps =>
    pure (.error { ok := false, code := .recoveryRequired, opId := "", recoveryRequired := true,
                   opIds := ps.map (·.opId) })

end Saipen
