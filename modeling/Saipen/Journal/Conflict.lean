import Saipen.FileTree.Undo
import Saipen.Journal.Scan
import Saipen.Log.History
import Saipen.State.Frontmatter

/-! # Resolving a conflict

`resolveConflictLocked` settles one CONFLICT record. The `reconcile` choice first repairs the
project: targets nobody else has written are completed from their staged bytes, the checkpoint cursor
of STATE is moved onto the tail of the LOG, and the verifier judges what comes out. Every write is
snapshotted, and `undoAll` puts the snapshots back when the repair is refused. The transfer of the
seat comes last before the settlement. -/

namespace Saipen

open FileTree DurableState

/-! ### Reading text -/

/-- `.saipen/STATE.md`. -/
def statePath : Path := [".saipen", "STATE.md"]

/-- `.saipen/LOG.md`. -/
def logPath : Path := [".saipen", "LOG.md"]

/-- The files outside `recovery/` are the same, byte for byte. -/
def SameFiles (d d' : Disk) : Prop := ∀ p, ¬ recoveryPath <+: p → fileAt p d' = fileAt p d

/-- `read_text`: text mode turns every line ending into a newline. -/
def universalNewlines (s : String) : String := String.ofList (Text.normaliseNewlines s.toList)

/-- The text behind a byte-order mark, which `utf-8-sig` drops. -/
def dropMark (s : String) : String :=
  match s.toList with
  | c :: cs => if c = Char.ofNat 0xfeff then String.ofList cs else s
  | [] => s

/-- How the transfer of the seat ends. -/
inductive Handover where
  | done (d : Disk)
  | refused (message : String) (d : Disk)
  | raised (detail : String) (d : Disk)

/-- The project a transfer that fails leaves. -/
def Handover.failure : Handover → Option Disk
  | .done _ => none
  | .refused _ d | .raised _ d => some d

/-- What a resolution takes from outside the journal. -/
structure Resolver where
  env : Environment
  /-- `str.isprintable`, for the errors of the STATE reader. -/
  printable : Text.Printable
  /-- The text of a JSON file. -/
  docText : Json → Nat → String
  /-- `state_contract_errors`. -/
  stateContractErrors : State.Fields → List String
  /-- `handover_agent`. -/
  handoverAgent : String → Disk → Handover
  /-- It refuses with zero writes. -/
  handover_quiet : ∀ agent d u, (handoverAgent agent d).failure = some u → SameFiles d u
  /-- The UTC time stamped on a settlement. -/
  now : String

variable (w : Resolver)

/-- The text of a file, `none` for bytes that are not UTF-8. -/
def Resolver.text? : Content → Option String
  | .doc j layout => some (w.docText j layout)
  | .text s => some s
  | .raw _ => none

/-- `read_text(encoding="utf-8")`. -/
def Resolver.readText (c : Content) : Except Exn String :=
  match w.text? c with
  | some s => .ok (universalNewlines s)
  | none => .error (.value "'utf-8' codec can't decode the bytes")

/-- `read_text(encoding="utf-8-sig")`. -/
def Resolver.readTextSig (c : Content) : Except Exn String :=
  match w.text? c with
  | some s => .ok (universalNewlines (dropMark s))
  | none => .error (.value "'utf-8' codec can't decode the bytes")

/-- `parse_state`, `none` for the surrogate of a STATE that is corrupt. -/
def Resolver.parseState (text : String) : Option State.Fields :=
  if Text.strip text = "" then some []
  else
    match State.parseFrontmatter w.printable text with
    | .error _ => none
    | .ok fields => if w.stateContractErrors fields = [] then some fields else none

/-- `parse_state(text).get(key)`. -/
def Resolver.stateField (key text : String) : Option State.Value :=
  (w.parseState text).bind (·.lookup key)

/-- `log_tail_event`. -/
def logTailEvent (text : String) : Option Nat :=
  ((Text.splitLines text).filterMap fun line => (Log.parseLogLine line).map (·.event)).foldl
    Log.raiseTail none

/-! ### Answers -/

/-- The answer dictionary of a resolution. -/
structure Resolution where
  ok : Bool
  code : Code
  opId : String
  detail : String := ""
  recoveryRequired : Bool := false
  opIds : List String := []
  repairEvidence : List String := []
  /-- `resolution_committed: False`, where the answer says so. -/
  uncommitted : Bool := false
  rolledForwardUndone : List String := []
  applied : List String := []
  skipped : List String := []
  rolledForward : List String := []
  cursor : Option String := none
  cleanupPending : List String := []
  deriving DecidableEq

/-- A refusal of the repair. -/
def Resolution.needsRepair (opId detail : String) (evidence : List String) : Resolution where
  ok := false
  code := .other "NEEDS_REPAIR"
  opId := opId
  detail := detail
  repairEvidence := evidence
  uncommitted := true

/-! ### The undo stack -/

/-- The snapshots of what was written over, newest first; `none` is a file that was not there. -/
abbrev UndoStack := List (Path × Option Content)

/-- `_restore`. -/
def restore : UndoStack → Engine Unit
  | [] => pure ()
  | (path, some prior) :: undo => do
      atomicWrite path prior
      restore undo
  | (path, none) :: undo => do
      suppressOs (unlinkPath path)
      restore undo

/-- Put everything back and refuse. -/
def undoAll {α : Type} (undo : UndoStack) (answer : Resolution) : Engine (Except Resolution α) := do
  restore undo
  pure (.error answer)

/-- Run a program; its `OSError` becomes an answer. -/
def catchOs {α : Type} (m : Engine α) : Engine (Except String α) :=
  (do
    let a ← m
    pure (.ok a) : Engine (Except String α)).rescue fun e =>
  match e with
  | .os detail => pure (.error detail)
  | e => Prog.raise e

/-! ### Rolling forward -/

/-- Whether a target is the plan's to complete: its live bytes, at the snapshot, are those before. -/
def TargetRecord.duePending (before : Disk) (t : TargetRecord) : Bool :=
  classifyTarget (liveHash w.env before t) t.beforeHash t.afterHash = .pending

/-- The roll-forward loop from a target on, with the undo stack and the paths completed so far. -/
def Journal.completeTargets (j : Journal) (before : Disk) :
    Nat → List TargetRecord → UndoStack → List String →
      Engine (Except Resolution (UndoStack × List String))
  | _, [], undo, rolled => pure (.ok (undo, rolled))
  | index, t :: ts, undo, rolled =>
    -- applied and diverged targets are left exactly as found
    if t.duePending w before then do
      let d ← Prog.read
      match j.stagedContent w.env index t.path d with
      | .error (.os detail) => undoAll undo (.needsRepair j.opId
          ("reconcile roll-forward failed on disk: " ++ detail) [detail])
      | .error e => Prog.raise e
      | .ok staged =>
        if w.env.hashBytes staged = t.afterHash then do
          let path := applyPath w.env t.path
          let undo := (path, fileAt path d) :: undo
          let written ← catchOs (atomicWrite path staged)
          match written with
          | .error detail => undoAll undo (.needsRepair j.opId
              ("reconcile roll-forward failed on disk: " ++ detail) [detail])
          | .ok () => j.completeTargets before (index + 1) ts undo (rolled ++ [t.path])
        else undoAll undo (.needsRepair j.opId
          ("staged bytes for " ++ t.path ++ " hash to " ++ Text.quote (w.env.hashBytes staged) ++
            ", not the planned " ++ Text.quote t.afterHash ++ "; journal evidence is corrupt -- " ++
            "reconcile refuses to roll forward on bytes it cannot prove are the plan's")
          ["staged hash mismatch on " ++ t.path])
    else j.completeTargets before (index + 1) ts undo rolled

/-- The first completed target whose write did not land. -/
def unlanded (d : Disk) (rolled : List String) (ts : List TargetRecord) : Option TargetRecord :=
  ts.find? fun t => t.path ∈ rolled ∧ liveHash w.env d t ≠ t.afterHash

/-! ### The cursor -/

/-- What becomes of the checkpoint cursor. `moved` holds the text that was read, the text that is
written, and the report. -/
inductive Cursor where
  | refused (reason : String)
  | kept (detail : String)
  | moved (prior patched detail : String)
  deriving DecidableEq

def Cursor.detail : Cursor → String
  | .refused reason => reason
  | .kept detail => detail
  | .moved _ _ detail => detail

/-- `E-<id>`. -/
def eventName (n : Int) : String := "E-" ++ toString n

/-- The decisions of `_rederive_state_cursor`: only forward, and only onto an event of the LOG. -/
def Resolver.cursorOf (d : Disk) : Except Exn Cursor :=
  match fileAt statePath d, fileAt logPath d with
  | some state, some log => do
    let logText ← w.readTextSig log
    match logTailEvent logText with
    | none => pure (.refused ("LOG tail carries no parsable event id, so the STATE cursor cannot be " ++
        "re-derived from .saipen/LOG.md"))
    | some tail => do
      let text ← w.readTextSig state
      match w.stateField "last_event" text with
      | some (.scalar (.int current)) =>
        if (tail : Int) = current then pure (.kept ("cursor already at " ++ eventName tail))
        else if (tail : Int) < current then
          pure (.refused ("LOG tail " ++ eventName tail ++ " is BELOW STATE.last_event " ++
            eventName current ++ "; that is a truncated or rewound log, not a lagging cursor -- " ++
            "reconcile will not move a checkpoint boundary backwards"))
        else
          match State.patchState w.printable text [("last_event", .scalar (.int tail))] with
          | .error e => .error (.value e)
          | .ok patched => pure (.moved text patched (eventName current ++ " -> " ++ eventName tail))
      | _ => pure (.refused ("STATE.last_event is not an int, so a forward cursor re-derivation has " ++
          "no base to compare against"))
  | _, _ => pure (.kept "no STATE/LOG pair in this project")

/-- `_rederive_state_cursor`. -/
def Resolver.rederiveStateCursor : Engine Cursor := do
  let d ← Prog.read
  match w.cursorOf d with
  | .error e => Prog.raise e
  | .ok (.moved prior patched detail) => do
      atomicWrite statePath (.text patched)
      pure (.moved prior patched detail)
  | .ok cursor => pure cursor

/-- The snapshot of the cursor's write is the encoding of the text that was read. -/
def Cursor.undo : Cursor → UndoStack
  | .moved prior _ _ => [(statePath, some (.text prior))]
  | _ => []

/-! ### The repair -/

/-- What a repair did. -/
structure Repair where
  rolledForward : List String
  cursor : String

/-- The refusal of a repaired project by the verifier. -/
def refusedRepair (opId : String) (errors : List String) (undo : UndoStack) : Resolution :=
  { Resolution.needsRepair opId
      ("reconciling leaves an invalid repository: " ++ "; ".intercalate (errors.take 5)) errors with
    rolledForwardUndone := undo.reverse.map fun e => posix e.1 }

/-- `_reconcile_and_verify`. -/
def Journal.reconcileAndVerify (j : Journal) (record : Record) (before : Disk) :
    Engine (Except Resolution Repair) := do
  let rolled ← j.completeTargets w before 0 record.targets [] []
  match rolled with
  | .error answer => pure (.error answer)
  | .ok (undo, rolled) => do
    let d ← Prog.read
    match unlanded w d rolled record.targets with
    | some t => undoAll undo (.needsRepair j.opId ("rolled-forward target " ++ t.path ++ " reads " ++
        Text.quote (liveHash w.env d t) ++ " after the write, not the planned " ++
        Text.quote t.afterHash ++ "; the write did not land")
        ["byte verification failed on " ++ t.path])
    | none => do
      let cursor ← catchOs w.rederiveStateCursor
      match cursor with
      | .error detail => undoAll undo (.needsRepair j.opId
          ("reconcile roll-forward failed on disk: " ++ detail) [detail])
      | .ok (.refused reason) => undoAll undo (.needsRepair j.opId
          ("reconcile refused to re-derive the STATE cursor: " ++ reason) [reason])
      | .ok cursor => do
        let u ← Prog.read
        match runVerifier w.env record.policy u (record.targets.map TargetRecord.changed)
            record.receiptMetadata.get with
        | [] => pure (.ok ⟨rolled, cursor.detail⟩)
        | errors => undoAll (cursor.undo ++ undo) (refusedRepair j.opId errors (cursor.undo ++ undo))

/-! ### The transfer of the seat -/

/-- Whether the seat has to be transferred: STATE names another agent. -/
def Resolver.handoverDue (agent : String) (d : Disk) : Except Exn Bool :=
  match fileAt statePath d with
  | none => .ok false
  | some c => do
      let text ← w.readText c
      pure (w.stateField "agent" text ≠ some (.scalar (.str agent)))

/-- The transfer before the terminal write: the refusal, if it cannot be completed. -/
def Journal.transferSeat (j : Journal) (agent : String) : Engine (Option Resolution) := do
  let d ← Prog.read
  match w.handoverDue agent d with
  | .error e => Prog.raise e
  | .ok false => pure none
  | .ok true =>
    let blocked (why : String) : Resolution :=
      { ok := false, code := .validationFailed, opId := j.opId, uncommitted := true,
        detail := "conflict resolution blocked: required ownership handover to " ++
          Text.quote agent ++ why }
    match w.handoverAgent agent d with
    | .done u => do
        Prog.effect fun _ => u
        pure none
    | .raised detail u => do
        Prog.effect fun _ => u
        pure (some (blocked (" raised before settlement: " ++ detail)))
    | .refused message u => do
        Prog.effect fun _ => u
        pure (some (blocked (" failed before settlement: " ++ message)))

/-! ### The settlement -/

/-- `RESOLUTION_CLASSES`. -/
inductive ResolutionClass where
  | acceptLive | replan | reconcile
  deriving DecidableEq

namespace ResolutionClass

def all : List ResolutionClass := [.acceptLive, .replan, .reconcile]

def name : ResolutionClass → String
  | .acceptLive => "accept_live"
  | .replan => "replan"
  | .reconcile => "reconcile"

def ofName? (s : String) : Option ResolutionClass := Saipen.ofName? all name s

/-- `resolution_evidence`. -/
def evidence : ResolutionClass → String
  | .acceptLive => "live accepted"
  | .replan => "operation retired; fresh plan required"
  | .reconcile => "untouched targets rolled forward from hash-verified staged bytes, diverged " ++
      "targets accepted live, STATE checkpoint cursor re-derived forward from the LOG tail; " ++
      "repository re-verified before settle"

end ResolutionClass

/-- A list of paths in the record. -/
def pathList (paths : List String) : Json := .arr (paths.map .str)

/-- The record of a resolution. -/
def Record.resolved (r : Record) (choice : ResolutionClass) (agent : String)
    (applied skipped : List String) (repair : Option Repair) : Record :=
  let extra := (((((r.extra.set "resolution" (.str choice.name)).set "resolved_at" (.str w.now)).set
    "resolver_agent" (.str agent)).set "resolution_applied_targets" (pathList applied)).set
    "resolution_skipped_targets" (pathList skipped))
  let extra := match repair with
    | none => extra
    | some rep => (extra.set "resolution_rolled_forward"
        (pathList (rep.rolledForward.filter (· ∉ applied)))).set "resolution_cursor" (.str rep.cursor)
  { r with status := .resolved, extra := extra.set "resolution_evidence" (.str choice.evidence) }

/-- Where the journal of a settled operation stands: `mark` has moved it when it could. -/
def Journal.afterSettle (j : Journal) (d : Disk) : Journal :=
  match probe (settledPath ++ [j.opId]) d, probe j.dir d with
  | .found (.dir _), .absent => ⟨j.opId, settledPath ++ [j.opId]⟩
  | _, _ => j

/-- The terminal writes. -/
def Journal.settleResolved (j : Journal) (record : Record) (choice : ResolutionClass) (agent : String)
    (applied skipped : List String) (repair : Option Repair) : Engine Resolution := do
  let settled := record.resolved w choice agent applied skipped repair
  atomicJson j.manifest settled.toJson
  let _ ← j.mark w.env .resolved (some record.progressIndex.toNat) none
  let d ← Prog.read
  let cleanup ← (j.afterSettle d).dropStagedPayloads
  let rolled := (repair.elim [] Repair.rolledForward).filter (· ∉ applied)
  pure { ok := true, code := .resolved, opId := j.opId, applied := applied ++ rolled,
         skipped := skipped.filter (· ∉ rolled), rolledForward := rolled,
         cursor := repair.map Repair.cursor, cleanupPending := cleanup,
         detail := if repair.isSome then
             "conflict settled; untouched targets rolled forward, diverged targets accepted live, " ++
               "STATE cursor re-derived from the LOG tail"
           else "conflict settled; live bytes accepted as truth, unapplied plan effects abandoned" }

/-- Transfer the seat, then settle. -/
def Journal.settleConflict (j : Journal) (record : Record) (choice : ResolutionClass)
    (agent : String) (applied skipped : List String) (repair : Option Repair) : Engine Resolution := do
  let blocked ← j.transferSeat w agent
  match blocked with
  | some answer => pure answer
  | none => j.settleResolved w record choice agent applied skipped repair

/-! ### The resolution -/

/-- Whether a target's planned effect is what stands there. -/
def TargetRecord.stands (d : Disk) (t : TargetRecord) : Bool :=
  t.applied && liveHash w.env d t = t.afterHash

/-- The resolution of a decoded conflict that is alone. -/
def Journal.resolveRecord (j : Journal) (record : Record) (choice : ResolutionClass)
    (agent : String) : Engine Resolution := do
  let before ← Prog.read
  let applied := (record.targets.filter (·.stands w before)).map (·.path)
  let skipped := (record.targets.filter (!·.stands w before)).map (·.path)
  -- the stability guard: the live bytes must not move before the settlement
  let d ← Prog.read
  match record.targets.find? fun t => liveHash w.env d t ≠ liveHash w.env before t with
  | some t =>
    pure { ok := false, code := .conflict, opId := j.opId,
           detail := "target " ++ t.path ++ " changed during resolution; evidence moved, re-inspect" }
  | none =>
    if choice = .reconcile then do
      let reconciled ← j.reconcileAndVerify w record before
      match reconciled with
      | .error answer => pure answer
      | .ok repair => j.settleConflict w record choice agent applied skipped (some repair)
    else do
      let d ← Prog.read
      match runVerifier w.env record.policy d (record.targets.map TargetRecord.changed)
          record.receiptMetadata.get with
      | [] => j.settleConflict w record choice agent applied skipped none
      | errors =>
        pure { ok := false, code := .other "NEEDS_REPAIR", opId := j.opId,
               detail := "resolving to current live leaves an invalid repository: " ++
                 "; ".intercalate (errors.take 5),
               repairEvidence := errors }

/-- A refusal at the gates. -/
def Resolution.refusal (code : Code) (opId detail : String) : Resolution where
  ok := false
  code := code
  opId := opId
  detail := detail

/-- The gates of a resolution: the record of the one conflict that is to be settled, and the choice. -/
def Resolver.conflictGate (opId resolution : String) (d : Disk) :
    Except Resolution (Journal × Record × ResolutionClass) :=
  match openJournal opId d with
  | .error e => .error (.refusal .validationFailed opId
      ("journal target path or op_id escapes the project: " ++ e))
  | .ok j =>
    if j.exists' d then
      match j.decode w.env false d with
      | .error e => .error { Resolution.refusal e.code opId e.detail with recoveryRequired := true }
      | .ok record =>
        if record.targets.all fun t => (ownedTargetPath w.env t.path).isSome then
          if record.status = .conflict then
            match ResolutionClass.ofName? resolution with
            | none => .error (.refusal .validationFailed opId ("resolution " ++
                Text.quote resolution ++ " outside accept_live|replan|reconcile"))
            | some choice =>
              match (scanPending w.env d).find? (·.opId ≠ opId) with
              | some other =>
                  .error { Resolution.refusal .recoveryRequired opId ("unrelated unresolved op " ++
                    other.opId ++ " blocks resolving this conflict; resolve it first") with
                    opIds := [other.opId] }
              | none => .ok (j, record, choice)
          else .error (.refusal .validationFailed opId ("op " ++ opId ++ " is " ++
            record.status.name ++ ", not CONFLICT; only an unresolved conflict is resolvable"))
        else .error (.refusal .validationFailed opId
          "journal target path or op_id escapes the project")
    else .error (.refusal .ticketNotFound opId "")

/-- `_resolve_conflict_locked`. -/
def resolveConflictLocked (opId resolution agent : String) : Engine Resolution := do
  let d ← Prog.read
  match w.conflictGate opId resolution d with
  | .error answer => pure answer
  | .ok (j, record, choice) => j.resolveRecord w record choice agent

end Saipen
