import Saipen.AuditInbox.Gate
import Saipen.Journal.Hash
import Mathlib.Logic.Function.Basic

/-! # Consumers, binders and producers of one inbox

`consume_layer` reads the layer, the receipt, the binding and the documents before it takes the
project's writer lock, and hands the hashes it saw to `run_mutation`, which plans, compares and
applies under the lock. `bind_layer` reads and writes the binding under the lock. Producers change the
layer files at any moment, and the rest of the project changes with them. A process is the access
its call has reached, and `advance` is one access of one process. -/

namespace Saipen.AuditInbox

open FileTree

/-! ### The mutation -/

/-- The planned change of one target. -/
inductive Change where
  | write (content : Content)
  | deleteFile
  deriving DecidableEq

/-- A prepared target: its change and the live token it was prepared with. -/
structure Target where
  path : Path
  change : Change
  before : String
  deriving DecidableEq

/-- `_target_live_hash` of what stands at the path of a target. -/
def Change.token (B : Bytes) : Change → Slot → String
  | _, .file c => B.hashBytes c
  | _, .absent => ""
  | .write _, .other _ => ""
  | .deleteFile, .other mode => "object:" ++ mode

/-- The planned token behind the change. -/
def Change.after (B : Bytes) : Change → String
  | .write c => B.hashBytes c
  | .deleteFile => ""

/-- The live token of a target. -/
def Target.live (B : Bytes) (t : Target) (slot : Slot) : String := t.change.token B slot

/-- `classify_target`. -/
def Target.classify (B : Bytes) (t : Target) (slot : Slot) : Classification :=
  classifyTarget (t.live B slot) t.before (t.change.after B)

/-- What makes two requests the same operation. -/
structure Payload where
  path : String
  fileSha256 : String
  receipt : String
  work : Option Json
  deriving DecidableEq

/-- The record of a consume mutation in the journal, with the layer it is about. -/
structure Operation where
  opId : String
  payload : Payload
  /-- The record the layer is settled with. -/
  record : Dict
  targets : List Target
  preconditions : List (Path × String)
  status : Status
  deriving DecidableEq

/-- The request `consume_layer` hands to `run_mutation`. -/
structure Plan where
  opId : String
  payload : Payload
  record : Dict
  targets : List (Path × Change)
  preconditions : List (Path × String)
  deriving DecidableEq

/-- Whether a stored operation answers a request: the same payload and targets, and the same
preconditions, on the common paths alone when it is committed. -/
def Operation.answers (B : Bytes) (op : Operation) (plan : Plan) : Bool :=
  op.payload = plan.payload &&
    op.targets.map (fun t => (t.path, t.change.after B)) =
      plan.targets.map (fun x => (x.1, x.2.after B)) &&
    if op.status = .committed then
      plan.preconditions.all fun e => (op.preconditions.lookup e.1).all (· = e.2)
    else op.preconditions = plan.preconditions

/-! ### Calls -/

/-- A call of `consume_layer`. -/
structure Request where
  rel : String
  agent : String
  dryRun : Bool := false
  deriving DecidableEq

/-- A call of `bind_layer`. -/
structure BindRequest where
  rel : String
  layer : Option Int
  generation : Int
  fileSha256 : String
  sizeBytes : Int
  receiptId : String
  receiptSha256 : String
  binding : String
  linkedWork : Option String
  state : String
  provenance : Option Dict
  deriving DecidableEq

/-- `layers.get(rel)` when it is a record, else nothing. -/
def previousRecord (doc : Dict) (rel : String) : Dict := (boundRecord doc rel).getD []

/-- The record `bind_layer` writes. -/
def BindRequest.record (b : BindRequest) (doc : Dict) (utc : String) : Dict :=
  let previous := previousRecord doc b.rel
  let carried := (truthyField previous "provenance").orElse fun _ =>
    (b.provenance.map Json.obj).filter isTruthy
  [("layer", b.layer.elim .null .int),
    ("generation", .int b.generation),
    ("file_sha256", .str b.fileSha256),
    ("receipt_sha256", .str b.receiptSha256),
    ("binding", .str b.binding),
    ("size_bytes", .int b.sizeBytes),
    ("receipt_id", .str b.receiptId),
    ("linked_work", optText b.linkedWork),
    ("state", .str b.state),
    ("captured_at", (truthyField previous "captured_at").getD (.str utc)),
    ("closed_at", (previous.get "closed_at").getD .null)] ++
  carried.elim [] fun provenance => [("provenance", provenance)]

/-- `_remember_named_generation`. -/
def rememberNamed (doc : Dict) (rel digest : String) (observedAt : Json) : Dict :=
  let first := (firstSeen doc).getD []
  if first.any fun item => namedObservation item = some (rel, digest) then doc
  else doc.set "named_first_seen" (.arr (first ++
    [.obj [("rel", .str rel), ("file_sha256", .str digest), ("first_seen_at", observedAt)]]))

/-- The document `bind_layer` writes. -/
def BindRequest.document (b : BindRequest) (doc record : Dict) : Dict :=
  let doc := setLayer doc b.rel (.obj record)
  if b.layer = none then
    rememberNamed doc b.rel b.fileSha256 ((record.get "captured_at").getD .null)
  else doc

/-- The LOG and STATE a consumption plans against, with the tokens it read. -/
structure Docs where
  logBefore : String
  newLog : Content
  stateBefore : String
  newState : Content
  deriving DecidableEq

/-- The next access of a process. -/
inductive Stage where
  /-- No call is running. -/
  | idle
  /-- `delete_gate`: the binding, the layer, the index, the receipt, the board. -/
  | gateBinding (r : Request)
  | gateLayer (r : Request) (doc : Dict)
  | gateIndex (r : Request) (content : Content)
  | gateReceipt (r : Request) (gate : Gate)
  | gateBoard (r : Request) (gate : Gate) (work : Json)
  /-- `consume_layer`: the binding again, the documents, the layer's bytes, the binding's bytes. -/
  | planBinding (r : Request) (gate : Gate)
  | planDocs (r : Request) (gate : Gate) (doc record : Dict)
  | planLayer (r : Request) (gate : Gate) (doc record : Dict) (docs : Docs)
  | planPrecondition (r : Request) (gate : Gate) (doc record : Dict) (docs : Docs)
      (layerBefore : String)
  /-- `run_mutation`: the lock, the journal, the plan, the preconditions, the PREPARED record. -/
  | ready (plan : Plan)
  | locked (plan : Plan)
  | preflight (plan : Plan)
  | preparing (plan : Plan) (done : List Target) (rest : List (Path × Change))
  | checking (plan : Plan) (targets : List Target) (rest : List (Path × String))
  | starting (plan : Plan) (targets : List Target)
  /-- The apply loop: each target is compared, changed and compared again. -/
  | begun (op : Operation)
  | applying (op : Operation) (rest : List Target)
  | acting (op : Operation) (t : Target) (rest : List Target)
  | landed (op : Operation) (t : Target) (rest : List Target)
  /-- The end of the apply loop and of recovery, before `next` is planned, if anything is. -/
  | verifying (op : Operation) (next : Option Plan)
  | settling (op : Operation) (next : Option Plan)
  /-- `recover`: the lock, the record, a verdict on every target, the pending suffix. -/
  | recoverLock (opId : String)
  | recovering (opId : String)
  | judging (op : Operation) (next : Option Plan) (judged : List (Target × Classification))
      (rest : List Target)
  | replaying (op : Operation) (next : Option Plan) (rest : List Target)
  /-- `bind_layer`: the lock, the binding, the write. -/
  | bindLock (b : BindRequest)
  | bindReading (b : BindRequest)
  | bindWriting (b : BindRequest) (doc record : Dict)
  /-- The lock is given up. -/
  | releasing
  deriving DecidableEq

inductive Call where
  | consume (r : Request)
  | bind (b : BindRequest)
  | recover (opId : String)
  deriving DecidableEq

/-- The first access of a call. -/
def Call.start : Call → Stage
  | .consume r => .gateBinding r
  | .bind b => .bindLock b
  | .recover opId => .recoverLock opId

/-- What a process does next: a call, the next access of its call at a reading of the clock, or the
end of the call by an error or by the death of the process. -/
inductive Event where
  | call (call : Call)
  | step (utc : String)
  | abort
  deriving DecidableEq

/-- What a call answers. -/
inductive Outcome where
  | refused (code : String)
  | consumed (rel : String)
  | planned (targets : List Path)
  | bound (record : Dict)
  | recovered (opId : String)
  deriving DecidableEq

/-! ### The shared state -/

/-- What has been done to the inbox: a layer file was deleted, or a record of a layer was written by
`bind_layer` or by the consumption of that layer. -/
inductive Effect where
  | deleted (rel : String) (content : Content)
  | recorded (rel : String) (record : Dict)
  deriving DecidableEq

/-- The project, the journal of consumptions, the holder of the lock and the processes, with the
moments the project has gone through and what was done to the inbox, newest first. -/
structure System (π : Type) where
  files : Path → Slot
  facts : Facts
  operations : List Operation
  writer : Option π
  stages : π → Stage
  past : List Moment
  effects : List Effect

/-- What a consumption takes from the code around the inbox. -/
structure World extends Bytes where
  /-- The digits of an operation id. -/
  hashText : String → String
  /-- The closing line in LOG and STATE, `none` where they cannot be read, planned or validated. -/
  closure : Slot → Slot → Facts → Gate → String → String → Option (Content × Content)
  /-- `validate_project` reports nothing. -/
  verify : Moment → Bool

def logPath : Path := [".saipen", "LOG.md"]

def statePath : Path := [".saipen", "STATE.md"]

section System

variable {π : Type}

/-- The moment the project is in. -/
def System.moment (s : System π) : Moment := ⟨s.files, s.facts⟩

/-- Every moment the project has been in. -/
def System.moments (s : System π) : List Moment := s.moment :: s.past

/-- What stands in the binding. -/
def System.binding (s : System π) : Slot := s.files bindingPath

/-- The slot at a path changes. -/
def System.put (s : System π) (path : Path) (slot : Slot) : System π :=
  { s with files := Function.update s.files path slot, past := s.moments }

/-- What is read about receipts and Work changes. -/
def System.learn (s : System π) (facts : Facts) : System π :=
  { s with facts := facts, past := s.moments }

def System.note (s : System π) (effects : List Effect) : System π :=
  { s with effects := effects ++ s.effects }

/-- The lock changes hands. -/
def System.hold (s : System π) (writer : Option π) : System π := { s with writer := writer }

/-- A record is published. -/
def System.publish (s : System π) (op : Operation) : System π :=
  { s with operations := s.operations ++ [op] }

/-- `mark`: the status of a record changes. -/
def System.mark (s : System π) (opId : String) (status : Status) : System π :=
  { s with operations := s.operations.map fun op =>
      if op.opId = opId then { op with status } else op }

/-- What a change of a target does to the inbox. -/
def Operation.effects (op : Operation) (t : Target) (slot : Slot) : List Effect :=
  match t.change, slot with
  | .deleteFile, .file c => [.deleted op.payload.path c]
  | .deleteFile, _ => []
  | .write _, _ => if t.path = bindingPath then [.recorded op.payload.path op.record] else []

/-- The planned change of a target; `none` where it raises. -/
def System.act (s : System π) (op : Operation) (t : Target) : Option (System π) :=
  match t.change, s.files t.path with
  | .write _, .other _ => none
  | .write c, slot => some ((s.put t.path (.file c)).note (op.effects t slot))
  | .deleteFile, .file c => some ((s.put t.path .absent).note (op.effects t (.file c)))
  | .deleteFile, _ => none

variable [DecidableEq π]

/-- Process `p` moves on to `stage`. -/
def System.at (s : System π) (p : π) (stage : Stage) : System π :=
  { s with stages := Function.update s.stages p stage }

/-- The mutation ends in CONFLICT. -/
def System.conflict (s : System π) (p : π) (op : Operation) : System π × Option Outcome :=
  ((s.mark op.opId .conflict).at p .releasing, some (.refused "CONFLICT"))

/-- The gate goes on, or its call ends. -/
def System.gate (s : System π) (p : π) (r : Request) : GateStep → System π × Option Outcome
  | .refused code => (s.at p .idle, some (.refused code))
  | .derive content => (s.at p (.gateIndex r content), none)
  | .askStatus gate => (s.at p (.gateReceipt r gate), none)
  | .askWork gate work => (s.at p (.gateBoard r gate work), none)
  | .ready gate => (s.at p (.planBinding r gate), none)
  | .alreadyAbsent gate =>
    if textField gate.record "state" = "DELETED" then (s.at p .idle, some (.consumed r.rel))
    else (s.at p (.planBinding r gate), none)

/-! ### What a consumption plans -/

/-- The targets of a consumption. -/
def planTargets (gate : Gate) (doc record : Dict) (docs : Docs) : List (Path × Change) :=
  (match gate.current with
    | some _ => [(components gate.rel, .deleteFile)]
    | none => []) ++
  [(bindingPath, .write (bindingBytes (setLayer doc gate.rel (.obj record)))),
    (logPath, .write docs.newLog), (statePath, .write docs.newState)]

/-- The preconditions of a consumption. -/
def planPreconditions (gate : Gate) (docs : Docs) (layerBefore bindingBefore : String) :
    List (Path × String) :=
  [(components gate.rel, layerBefore), (bindingPath, bindingBefore), (logPath, docs.logBefore),
    (statePath, docs.stateBefore)]

/-- The request of a consumption. -/
def planOf (W : World) (gate : Gate) (doc record : Dict) (docs : Docs)
    (layerBefore bindingBefore : String) : Plan where
  opId := "audit-consume-" ++ W.hashText (gate.rel ++ ":" ++ textField record "file_sha256")
  payload := ⟨gate.rel, textField record "file_sha256", gate.receipt, gate.linkedWork⟩
  record := record
  targets := planTargets gate doc record docs
  preconditions := planPreconditions gate docs layerBefore bindingBefore

/-- `hash_bytes` of a file, empty where there is none. -/
def fileToken (B : Bytes) : Slot → String
  | .file c => B.hashBytes c
  | _ => ""

/-- The live token of a precondition: that of the target it names, or of the file. -/
def preconditionToken (B : Bytes) (targets : List Target) (path : Path) (slot : Slot) : String :=
  match targets.find? (·.path = path) with
  | some t => t.live B slot
  | none => fileToken B slot

/-- The targets behind the materialized prefix. -/
def pendingSuffix (judged : List (Target × Classification)) : List (Target × Classification) :=
  judged.dropWhile (·.2 = .alreadyApplied)

/-- A target without a change of its own. -/
def Target.isNoop (B : Bytes) (t : Target) : Bool := t.before = t.change.after B

/-! ### One access -/

/-- One access of process `p`; `none` where the lock is not free or no such event belongs to the
stage. -/
def advance (W : World) (s : System π) (p : π) (e : Event) :
    Option (System π × Option Outcome) :=
  match s.stages p, e with
  | .idle, .call call => some (s.at p call.start, none)
  | .idle, _ => none
  | _, .call _ => none
  -- the system frees the lock of a process that died, `finally` that of a call that raised
  | _, .abort => some ((s.hold (if s.writer = some p then none else s.writer)).at p .idle, none)
  | .gateBinding r, .step _ =>
    match readBinding s.binding with
    | .error _ => some (s.at p .idle, some (.refused "AUDIT_BINDING_CORRUPT"))
    | .ok doc => some (s.at p (.gateLayer r doc), none)
  | .gateLayer r doc, .step _ =>
    some (s.gate p r (gateSnapshot W.toBytes r.rel doc (s.files (components r.rel))))
  | .gateIndex r content, .step _ => some (s.gate p r (gateDerive W.toBytes r.rel content s.facts))
  | .gateReceipt r gate, .step _ => some (s.gate p r (gateStatus gate s.facts))
  | .gateBoard r gate work, .step _ => some (s.gate p r (gateWork gate work s.facts))
  | .planBinding r gate, .step utc =>
    match readBinding s.binding with
    | .error _ => some (s.at p .idle, some (.refused "AUDIT_BINDING_CORRUPT"))
    | .ok doc => some (s.at p (.planDocs r gate doc (settledRecord gate.record utc)), none)
  | .planDocs r gate doc record, .step utc =>
    match W.closure (s.files logPath) (s.files statePath) s.facts gate r.agent utc with
    | none => some (s.at p .idle, some (.refused "VALIDATION_FAILED"))
    | some (newLog, newState) =>
      some (s.at p (.planLayer r gate doc record
        ⟨fileToken W.toBytes (s.files logPath), newLog,
          fileToken W.toBytes (s.files statePath), newState⟩), none)
  | .planLayer r gate doc record docs, .step _ =>
    match gate.current, s.files (components gate.rel) with
    | none, _ => some (s.at p (.planPrecondition r gate doc record docs ""), none)
    | some _, .file c =>
      some (s.at p (.planPrecondition r gate doc record docs (W.hashBytes c)), none)
    | some _, _ => some (s.at p .idle, some (.refused "OSError"))
  | .planPrecondition r gate doc record docs layerBefore, .step _ =>
    let plan := planOf W gate doc record docs layerBefore (fileToken W.toBytes s.binding)
    if r.dryRun then some (s.at p .idle, some (.planned (plan.targets.map Prod.fst)))
    else some (s.at p (.ready plan), none)
  | .ready plan, .step _ =>
    if s.writer = none then some ((s.hold (some p)).at p (.locked plan), none) else none
  | .locked plan, .step _ =>
    match s.operations.find? (·.opId = plan.opId) with
    | some op =>
      if ¬ op.answers W.toBytes plan then
        some (s.at p .releasing, some (.refused "VALIDATION_FAILED"))
      else if op.status = .committed then
        some (s.at p .releasing, some (.consumed plan.payload.path))
      else some (s.at p .releasing, some (.refused "RECOVERY_REQUIRED"))
    | none => some (s.at p (.preflight plan), none)
  | .preflight plan, .step _ =>
    match s.operations.filter (·.status.unresolved) with
    | [] => some (s.at p (.preparing plan [] plan.targets), none)
    | [op] =>
      if op.status = .conflict then some (s.at p .releasing, some (.refused "RECOVERY_CONFLICT"))
      else some (s.at p (.judging op (some plan) [] op.targets), none)
    | _ => some (s.at p .releasing, some (.refused "RECOVERY_REQUIRED"))
  | .preparing plan done ((path, change) :: rest), .step _ =>
    some (s.at p (.preparing plan
      (done ++ [⟨path, change, change.token W.toBytes (s.files path)⟩]) rest), none)
  | .preparing plan done [], .step _ =>
    some (s.at p (.checking plan done plan.preconditions), none)
  | .checking plan targets ((path, expected) :: rest), .step _ =>
    if preconditionToken W.toBytes targets path (s.files path) = expected then
      some (s.at p (.checking plan targets rest), none)
    else some (s.at p .releasing, some (.refused "STALE_STATE"))
  | .checking plan targets [], .step _ => some (s.at p (.starting plan targets), none)
  | .starting plan targets, .step _ =>
    let op : Operation :=
      ⟨plan.opId, plan.payload, plan.record, targets, plan.preconditions, .prepared⟩
    some ((s.publish op).at p (.begun op), none)
  | .begun op, .step _ => some ((s.mark op.opId .applying).at p (.applying op op.targets), none)
  | .applying op [], .step _ => some (s.at p (.verifying op none), none)
  | .applying op (t :: rest), .step _ =>
    match t.classify W.toBytes (s.files t.path) with
    | .alreadyApplied => some (s.at p (.applying op rest), none)
    | .pending => some (s.at p (.acting op t rest), none)
    | .conflict => some (s.conflict p op)
  | .acting op t rest, .step _ =>
    match s.act op t with
    | none => some (s.conflict p op)
    | some s' => some (s'.at p (.landed op t rest), none)
  | .landed op t rest, .step _ =>
    if t.live W.toBytes (s.files t.path) = t.change.after W.toBytes then
      some (s.at p (.applying op rest), none)
    else some (s.conflict p op)
  | .verifying op next, .step _ =>
    if op.targets.all (fun t => t.live W.toBytes (s.files t.path) = t.change.after W.toBytes) &&
        W.verify s.moment then
      some ((s.mark op.opId .verified).at p (.settling op next), none)
    else some (s.conflict p op)
  | .settling op none, .step _ =>
    some ((s.mark op.opId .committed).at p .releasing, some (.consumed op.payload.path))
  | .settling op (some plan), .step _ =>
    some ((s.mark op.opId .committed).at p (.preparing plan [] plan.targets), none)
  | .recoverLock opId, .step _ =>
    if s.writer = none then some ((s.hold (some p)).at p (.recovering opId), none) else none
  | .recovering opId, .step _ =>
    match s.operations.find? (·.opId = opId) with
    | none => some (s.at p .releasing, some (.refused "TICKET_NOT_FOUND"))
    | some op =>
      if op.status = .committed then some (s.at p .releasing, some (.recovered opId))
      else if op.status.settled then some (s.at p .releasing, some (.refused op.status.name))
      else some (s.at p (.judging op none [] op.targets), none)
  | .judging op next judged (t :: rest), .step _ =>
    some (s.at p (.judging op next
      (judged ++ [(t, t.classify W.toBytes (s.files t.path))]) rest), none)
  | .judging op next judged [], .step _ =>
    if judged.any (·.2 = .conflict) then some (s.conflict p op)
    else if (pendingSuffix judged).any fun x => x.2 = .alreadyApplied && !x.1.isNoop W.toBytes then
      some (s.conflict p op)
    else if op.status = .prepared ∧ judged.all fun x => x.2 = .pending || x.1.isNoop W.toBytes then
      match next with
      | none => some ((s.mark op.opId .aborted).at p .releasing, some (.recovered op.opId))
      | some plan => some ((s.mark op.opId .aborted).at p (.preparing plan [] plan.targets), none)
    else some (s.at p (.replaying op next ((pendingSuffix judged).map Prod.fst)), none)
  | .replaying op next [], .step _ => some (s.at p (.verifying op next), none)
  | .replaying op next (t :: rest), .step _ =>
    match s.act op t with
    | none => some (s.conflict p op)
    | some s' => some ((s'.mark op.opId .applying).at p (.replaying op next rest), none)
  | .bindLock b, .step _ =>
    if s.writer = none then some ((s.hold (some p)).at p (.bindReading b), none) else none
  | .bindReading b, .step utc =>
    match readBinding s.binding with
    | .error _ => some (s.at p .releasing, some (.refused "AUDIT_BINDING_CORRUPT"))
    | .ok doc => some (s.at p (.bindWriting b doc (b.record doc utc)), none)
  | .bindWriting b doc record, .step _ =>
    match s.binding with
    | .other _ => some (s.at p .releasing, some (.refused "OSError"))
    | _ => some (((s.put bindingPath (.file (bindingBytes (b.document doc record)))).note
        [.recorded b.rel record]).at p .releasing, some (.bound record))
  | .releasing, .step _ => some ((s.hold none).at p .idle, none)

/-- One move of the system: an access of a process, a change of a file by somebody else, a change of
the receipts or of the board. Only the calls write the binding. -/
inductive Move (π : Type) where
  | act (p : π) (e : Event)
  | produce (path : Path) (slot : Slot)
  | learn (facts : Facts)

/-- The state behind a move. -/
def System.move (W : World) (s : System π) : Move π → Option (System π)
  | .act p e => (advance W s p e).map Prod.fst
  | .produce path slot => if path = bindingPath then none else some (s.put path slot)
  | .learn facts => some (s.learn facts)

/-- The state behind a list of moves. -/
def System.moves (W : World) : System π → List (Move π) → Option (System π)
  | s, [] => some s
  | s, m :: ms => (s.move W m).bind fun t => t.moves W ms

end System

/-- No call is running and nothing was done yet. -/
structure System.Initial {π : Type} (s : System π) : Prop where
  operations : s.operations = []
  writer : s.writer = none
  idle : ∀ p, s.stages p = .idle
  effects : s.effects = []

/-- The record an effect writes for a layer, if it does. -/
def Effect.recordFor (rel : String) : Effect → Option Dict
  | .recorded written record => if written = rel then some record else none
  | .deleted _ _ => none

/-- The record written last for a layer. -/
def lastRecorded (effects : List Effect) (rel : String) : Option Dict :=
  effects.findSome? (Effect.recordFor rel)

end Saipen.AuditInbox
