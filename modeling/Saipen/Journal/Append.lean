import Saipen.Journal.Store

/-! # Appending targets through a durable intent

A release learns some of its targets after its manifest is published. `appendTargets` writes an
intent that carries their exact bytes, stages them, rewrites the manifest and removes the intent;
recovery finishes an intent it finds. -/

namespace Saipen

open FileTree DurableState

variable (env : Environment)

/-- `APPEND_INTENT_SCHEMA`. -/
def appendIntentSchema : Int := 1

/-- `64 * 1024 * 1024`: no more bytes of an intent or of a staged payload are read. -/
def maxEvidenceBytes : Nat := 64 * 1024 * 1024

/-- A `ValueError` of the append protocol. -/
def appendError {α : Type} (detail : String) : Engine α := Prog.raise (.value detail)

/-- `_read_append_intent`: the intent object, none when there is no file, or the `ValueError`. -/
def readAppendIntent (opId : String) (files : Entries Content) : Except Exn (Option Dict) :=
  match files.lookup "append.intent.json" with
  | none => .ok none
  | some (.file c) =>
      if maxEvidenceBytes < env.size c then
        .error (.value "journal append intent is unreadable")
      else match c.loads with
      | none => .error (.value "journal append intent is unreadable")
      | some (.obj d) =>
          let d : Dict := d
          let base := (d.get "base_targets").bind Json.int?
          let targets := match d.get "targets" with
            | some (.arr js) => js
            | _ => []
          if (d.get "schema_version").bind Json.int? = some appendIntentSchema ∧
              d.get "op_id" = some (.str opId) ∧ base.any (0 ≤ ·) ∧ targets ≠ [] then
            .ok (some d)
          else .error (.value "journal append intent is malformed")
      | some _ => .error (.value "journal append intent is malformed")
  | some _ => .error (.value "journal append intent is not a regular file")

/-- The bytes of a staged payload the intent owns, created when they are missing. -/
def Journal.adoptStaged (j : Journal) (entry : Dict) (staged : String) : Engine Unit := do
  let d ← Prog.read
  let expected := entry.get "content_hash"
  match (j.files d).lookup staged with
  | some (.file c) =>
      if maxEvidenceBytes < env.size c then appendError "authority node changed before open"
      else if expected = some (.str (env.hashBytes c)) then pure ()
      else appendError "journal staged evidence disagrees with append intent"
  | some _ => appendError "journal staged evidence is not a regular file"
  | none =>
    match entry.get "content_b64" with
    | some (.str encoded) =>
      match env.decode64 encoded with
      | none => appendError "journal append evidence is not valid base64"
      | some c =>
          if entry.get "content_size" = some (.int (env.size c)) ∧
              expected = some (.str (env.hashBytes c)) then
            createExclusive (j.dir ++ [staged]) c
          else appendError "journal append evidence disagrees with append intent"
    | _ => appendError "journal append evidence has no content authority"

/-- The keys a manifest target and the intent must agree on. -/
def appendIdentityKeys : List String := ["path", "role", "action", "before_hash", "after_hash"]

/-- `_finish_append_intent` for one entry, over the target objects collected so far. -/
def Journal.finishEntry (j : Journal) (base : Int) (targets : List Dict) (entry : Json) :
    Engine (List Dict) :=
  match entry with
  | .obj e =>
    let e : Dict := e
    match (e.get "index").bind Json.int?, e.get "target" with
    | some index, some (.obj target) =>
      let target : Dict := target
      if index < base ∨ (targets.length : Int) < index then
        appendError "journal append intent target index is invalid"
      else if index < targets.length then
        let current := (targets[index.toNat]?).getD []
        if appendIdentityKeys.all fun k => current.get k = target.get k then pure targets
        else appendError "journal manifest disagrees with append intent"
      else if target.get "action" = some (.str "write") then
        match e.get "staged_name", target.get "path" with
        | some (.str staged), path =>
          if staged = "" then appendError "journal append intent has no staged filename"
          else match path.getD (.str "") with
            | .str path =>
              if staged = stagedName env index.toNat path then do
                j.adoptStaged env e staged
                pure (targets ++ [target.set "applied" (.bool false)])
              else appendError "journal append intent staged filename is not canonical"
            | _ => Prog.raise (.type "path has no attribute encode")
        | _, _ => appendError "journal append intent has no staged filename"
      else pure (targets ++ [target.set "applied" (.bool false)])
    | _, _ => appendError "journal append intent target is malformed"
  | _ => Prog.raise (.type "entry has no attribute get")

/-- `_finish_append_intent` over the entries of the intent. -/
def Journal.finishEntries (j : Journal) (base : Int) :
    List Dict → List Json → Engine (List Dict)
  | targets, [] => pure targets
  | targets, entry :: entries => do
      let targets ← j.finishEntry env base targets entry
      j.finishEntries base targets entries

/-- The record object with other targets. -/
def Record.toDictWith (r : Record) (targets : List Dict) : Dict :=
  r.toDict.set "targets" (.arr (targets.map .obj))

/-- `_finish_append_intent`: stage what is missing, rewrite the manifest, drop the intent. -/
def Journal.finishAppendIntent (j : Journal) (record : Record) (intent : Dict) : Engine Unit := do
  let base := ((intent.get "base_targets").bind Json.int?).getD 0
  let entries := match intent.get "targets" with
    | some (.arr js) => js
    | _ => []
  if (record.targets.length : Int) < base then
    appendError "journal append intent base exceeds manifest target count"
  else do
    let targets ← j.finishEntries env base (record.targets.map TargetRecord.toDict) entries
    atomicJson j.manifest (.obj (record.toDictWith targets))
    suppressOs (unlinkPath j.appendIntentPath)

/-- `resume_append_intent`: whether there was an intent to finish. -/
def Journal.resumeAppendIntent (j : Journal) : Engine Bool := do
  let d ← Prog.read
  match readAppendIntent env j.opId (j.files d) with
  | .error e => Prog.raise e
  | .ok none => pure false
  | .ok (some intent) => do
      let record ← j.read env false
      j.finishAppendIntent env record intent
      pure true

/-! ### Requests to append -/

/-- A target to append; a write target comes with its bytes. -/
structure AppendTarget where
  path : String
  role : String := "generic"
  action : String := "write"
  content : Option Content
  beforeHash : String := ""
  afterHash : Option String := none

/-- One entry of the intent, from the index of its target, its owned path and its bytes. -/
def AppendTarget.entry (t : AppendTarget) (index : Nat) (rel : Path) : Dict :=
  let bytes := if t.action = "write" then t.content else none
  [("index", .int index),
    ("target", .obj [("path", .str (posix rel)), ("role", .str t.role),
      ("action", .str t.action), ("before_hash", .str t.beforeHash),
      ("after_hash", .str (t.afterHash.getD (bytes.elim "" env.hashBytes)))]),
    ("staged_name", bytes.elim .null fun _ => .str (stagedName env index (posix rel))),
    ("content_hash", bytes.elim .null fun c => .str (env.hashBytes c)),
    ("content_size", bytes.elim .null fun c => .int (env.size c)),
    ("content_b64", bytes.elim .null fun c => .str (env.encode64 c))]

/-- `_prepare_append_intent`: the entries for targets that are owned, known and not yet planned. -/
def prepareAppendIntent : Nat → List String → List AppendTarget → Except Exn (List Dict)
  | _, _, [] => .ok []
  | index, seen, t :: ts =>
      if (Action.ofName? t.action).isNone then
        .error (.value "journal append target has unknown action")
      else match ownedTargetPath env t.path with
        | none => .error (.value "append path is not owned")
        | some rel =>
          if posix rel ∈ seen then .error (.value "journal append target duplicates owned path")
          else if t.action = "write" ∧ t.content = none then
            .error (.value "journal append write target has no bytes")
          else if t.action = "write" ∧
              ¬ (t.afterHash.all fun h => h = "" ∨ some h = t.content.map env.hashBytes) then
            .error (.value "journal append write target hash mismatch")
          else (prepareAppendIntent (index + 1) (seen ++ [posix rel]) ts).map (t.entry env index rel :: ·)

/-- The canonical paths of the targets of a record. -/
def ownedIdentities (ts : List TargetRecord) : List String :=
  ts.filterMap fun t => (ownedTargetPath env t.path).map posix

/-- `_target_paths`: the paths as the record spells them. -/
def targetPaths (ts : List TargetRecord) : List String := ts.map (·.path)

/-- `append_targets`. -/
def Journal.appendTargets (j : Journal) (targets : List AppendTarget) : Engine Unit := do
  let record ← j.read env false
  if record.status.settled then appendError "cannot append targets to terminal operation"
  else if targets = [] then pure ()
  else do
    let d ← Prog.read
    match readAppendIntent env j.opId (j.files d) with
    | .error e => Prog.raise e
    | .ok (some intent) => do
        -- a retry is compared at the frontier the durable intent started from
        let base := (((intent.get "base_targets").bind Json.int?).getD 0).toNat
        match prepareAppendIntent env base (targetPaths (record.targets.take base)) targets with
        | .error e => Prog.raise e
        | .ok prepared =>
            if intent.get "targets" = some (.arr (prepared.map .obj)) then
              j.finishAppendIntent env record intent
            else appendError "journal append intent does not match retry request"
    | .ok none => do
        let base := record.targets.length
        match prepareAppendIntent env base (ownedIdentities env record.targets) targets with
        | .error e => Prog.raise e
        | .ok prepared => do
            let intent : Dict := [("schema_version", .int appendIntentSchema),
              ("op_id", .str j.opId), ("base_targets", .int base),
              ("targets", .arr (prepared.map .obj))]
            atomicJson j.appendIntentPath (.obj intent)
            j.finishAppendIntent env record intent

end Saipen
