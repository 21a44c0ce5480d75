import Saipen.DurableState.Program
import Saipen.XPatch.Receipt

/-! # Applying, judging and reverting a patch

`apply_proposal` and `revert` prove everything they can before the first byte moves, then write or
delete one declared path after the other, and record the outcome last. Between any two effects the
process may die. -/

namespace Saipen.XPatch

open Checks DurableState LinkTree

/-- A program over the project tree. -/
abbrev Op := Prog Disk Raised

/-- What an operation answers. -/
inductive Reply where
  | applied (writes : ℕ)
  | targetDrift (detail : String)
  | disposed (verdict : Verdict) (paths : List (String × Option String))
  | reverted (writes : ℕ)
deriving DecidableEq

/-- A declared path and the bytes it is to have; without bytes it is deleted. -/
abbrev Step := String × Option Content

/-- What was decided on the tree as it stands. -/
def ofExcept {α : Type} (decision : Except Raised α) : Op α :=
  match decision with
  | .ok a => pure a
  | .error raised => Prog.raise raised

/-- One effect that may be refused. -/
def attempt (raised : Raised) (f : Disk → Option Disk) : Op Unit :=
  Prog.attempt fun t => orRefuse (f t) raised

/-- `safe_atomic_write_bytes` under the project root. -/
def Site.writeBytes (site : Site) (path : LinkTree.Path) (content : Content) : Op Unit := do
  let raised : Raised := .unsafeTopology ("/".intercalate path)
  attempt raised fun t => t.ensure site.root path.dropLast
  attempt raised fun t => t.setFile (site.root ++ path) content

/-- One declared path is deleted or written. -/
def Site.performStep (site : Site) : Step → Op Unit
  | (rel, none) => attempt (.osError rel) fun t => t.unlink site.links site.root (segments rel)
  | (rel, some content) => site.writeBytes (segments rel) content

/-- The declared paths, one after the other. -/
def Site.perform (site : Site) : List Step → Op Unit
  | [] => pure ()
  | step :: rest => do
      site.performStep step
      site.perform rest

/-! ### What is decided before -/

/-- The bytes a payload has for a path, proven against the hash they are to have. -/
def Site.decodeBody (site : Site) (patchId noun contradiction state rel : String)
    (expected : Option String) (blob : Json) : Except Raised (Option Content) := do
  let named := patchId ++ " " ++ noun ++ " for " ++ rel
  match expected with
  | none =>
      require (blob == .null) contradiction
      return none
  | some digest =>
      let text ← requireSome blob.str? (named ++ " is not base64 text")
      let body ← requireSome (site.decode64 text) (named ++ " is not valid base64")
      require (site.sha256 body == digest) (named ++ " does not hash to the declared " ++ state)
      return some body

/-- What a proof of the declared paths comes to. -/
inductive Staging where
  | drift (rel : String)
  | staged (steps : List Step)

/-- The declared paths are still as they were, and the payload has what they are to become. -/
def Site.stage (site : Site) (t : Disk) (patchId : String) (contents : Dict) :
    List (String × PathSpec) → Except Raised Staging
  | [] => return .staged []
  | (rel, spec) :: rest =>
      if site.fileSha256 t rel ≠ spec.before then return .drift rel
      else do
        let body ← site.decodeBody patchId "payload"
          (patchId ++ " payload contradicts the declared deletion of " ++ rel) "after-state" rel
          spec.after ((contents.get rel).getD .null)
        match ← site.stage t patchId contents rest with
        | .drift moved => return .drift moved
        | .staged steps => return .staged ((rel, body) :: steps)

/-- The original bytes of the declared paths. -/
def Site.restore (site : Site) (patchId : String) (originals : Dict) :
    List (String × PathSpec) → Except Raised (List Step)
  | [] => return []
  | (rel, spec) :: rest => do
      let body ← site.decodeBody patchId "original"
        (patchId ++ " original for " ++ rel ++ " contradicts a creation") "before-state" rel
        spec.before ((originals.get rel).getD .null)
      return (rel, body) :: (← site.restore patchId originals rest)

/-- The payload of a receipt. -/
def Site.payload (site : Site) (t : Disk) (patchId : String) : Except Raised Dict := do
  let missing := patchId ++ " has no readable payload.json"
  let value ← requireSome (← site.readJson t (receiptDir patchId ++ ["payload.json"])) missing
  requireObject value missing

/-- What `apply_proposal` decides before it writes. -/
def Site.planApply (site : Site) (t : Disk) (patchId now : String) :
    Except Raised (Receipt × String × Staging) := do
  let receipt ← site.loadReceipt t patchId
  require (receipt.state == .pending) (patchId ++ " is already " ++ receipt.state.name)
  let appliedAt ← site.strictUtc (some (.str now)) "applied_at"
  let payload ← site.payload t patchId
  let contents ← requireObject ((payload.get "contents").getD .null)
    (patchId ++ " payload has malformed contents")
  require (sameKeys contents receipt.paths)
    (patchId ++ " payload does not cover exactly the declared paths")
  return (receipt, appliedAt, ← site.stage t patchId contents receipt.paths)

/-- What `revert` decides before it writes. -/
def Site.planRevert (site : Site) (t : Disk) (patchId : String) : Except Raised (Receipt × Staging) := do
  let receipt ← site.loadReceipt t patchId
  require (receipt.state == .applied) (patchId ++ " is " ++ receipt.state.name ++ ", not APPLIED")
  match receipt.paths.find? fun (rel, spec) => site.fileSha256 t rel != spec.after with
  | some (rel, _) => return (receipt, .drift rel)
  | none =>
      let payload ← site.payload t patchId
      let missing := patchId ++ " carries no recorded original bytes -- repair instead of reverting"
      let originals ← requireObject ((payload.get "originals").getD .null) missing
      require (sameKeys originals receipt.paths) missing
      return (receipt, .staged (← site.restore patchId originals receipt.paths))

/-! ### What is recorded -/

/-- A hash or its absence. -/
def digestJson (digest : Option String) : Json := digest.elim .null .str

/-- The declared paths as a record has them. -/
def pathsJson (paths : List (String × PathSpec)) : Json :=
  .obj (paths.map fun (rel, spec) =>
    (rel, .obj [("before_sha256", digestJson spec.before), ("after_sha256", digestJson spec.after)]))

/-- `applied.json`. -/
def appliedRecord (receipt : Receipt) (appliedAt : String) : Content :=
  .json (.obj
    [("schema", .int 1), ("patch_id", .str receipt.patchId), ("applied_at", .str appliedAt),
      ("applied_by", .str "target"), ("paths", pathsJson receipt.paths),
      ("verification", .arr (receipt.verification.map fun (command, result) =>
        .obj [("command", .str command), ("result", .str result)]))])

/-- `disposition.json`. -/
def dispositionRecord (patchId : String) (verdict : Verdict) (recordedAt : String)
    (live : List (String × Option String)) (note : String) : Content :=
  .json (.obj
    [("schema", .int 1), ("patch_id", .str patchId), ("verdict", .str verdict.name),
      ("recorded_at", .str recordedAt),
      ("paths", .obj (live.map fun (rel, digest) => (rel, digestJson digest))), ("note", .str note)])

/-- What `record_disposition` decides before it writes: the time and the live hashes. -/
def Site.planDisposition (site : Site) (t : Disk) (patchId now : String) :
    Except Raised (String × List (String × Option String)) := do
  let receipt ← site.loadReceipt t patchId
  require (receipt.state != .pending)
    (patchId ++ " has not been applied -- there is nothing to disposition yet")
  let recordedAt ← site.strictUtc (some (.str now)) "recorded_at"
  return (recordedAt, receipt.paths.map fun (rel, _) => (rel, site.fileSha256 t rel))

/-! ### The operations -/

/-- `apply_proposal`. -/
def Site.applyProposal (site : Site) (patchId now : String) : Op Reply := do
  let (receipt, appliedAt, staging) ← ofExcept (site.planApply (← Prog.read) patchId now)
  match staging with
  | .drift rel => return .targetDrift (rel ++ " moved since the receipt was recorded")
  | .staged steps =>
      site.perform steps
      site.writeBytes (receiptDir patchId ++ ["applied.json"]) (appliedRecord receipt appliedAt)
      return .applied steps.length

/-- `record_disposition`. -/
def Site.recordDisposition (site : Site) (patchId : String) (verdict : Verdict) (now note : String) :
    Op Reply := do
  let (recordedAt, live) ← ofExcept (site.planDisposition (← Prog.read) patchId now)
  site.writeBytes (receiptDir patchId ++ ["disposition.json"])
    (dispositionRecord patchId verdict recordedAt live note)
  return .disposed verdict live

/-- `revert`. -/
def Site.revert (site : Site) (patchId now : String) : Op Reply := do
  let (_, staging) ← ofExcept (site.planRevert (← Prog.read) patchId)
  match staging with
  | .drift rel =>
      return .targetDrift (rel ++ " no longer holds the patched bytes -- repair, never clobber")
  | .staged steps =>
      site.perform steps
      let _ ← site.recordDisposition patchId .reverted now "reverted to recorded before-state"
      return .reverted steps.length

end Saipen.XPatch
