import Saipen.Journal.Decode

/-! # Mutation requests and their validation

A request arrives as Python values of any type. `PyVal` has the types the validator tells apart, and
`PyVal.dumps` is `json.dumps` on them. `validateMutationRequest` is the pure gate in front of the
journal. -/

namespace Saipen

open FileTree

/-- A key of a Python dictionary, as far as `json.dumps` tells keys apart. -/
inductive PyKey where
  | str (s : String)
  /-- An integer, a float or a boolean, with the text it is dumped as. -/
  | num (text : String)
  | none
  /-- A key `json.dumps` refuses. -/
  | other
  deriving DecidableEq

/-- A Python value. -/
inductive PyVal where
  | none
  | bool (b : Bool)
  | int (n : Int)
  | float (repr : String)
  | str (s : String)
  | list (items : List PyVal)
  | tuple (items : List PyVal)
  | dict (fields : List (PyKey × PyVal))
  /-- A value `json.dumps` refuses: bytes, sets, objects. -/
  | other

namespace PyKey

/-- The text `json.dumps` writes for a key. -/
def dumps : PyKey → Option String
  | .str s => some s
  | .num t => some t
  | .none => some "null"
  | .other => Option.none

/-- The kinds of keys `sorted` can compare with each other. -/
def kind : PyKey → Nat
  | .str _ => 0
  | .num _ => 1
  | .none => 2
  | .other => 3

/-- Whether `sort_keys=True` can order the keys: one key needs no comparison, and several must be
all strings or all numbers. -/
def sortable (ks : List PyKey) : Bool :=
  ks.length ≤ 1 || ks.all (·.kind = 0) || ks.all (·.kind = 1)

end PyKey

namespace PyVal

mutual
/-- `json.dumps(value, sort_keys=sort)`, as the JSON value it writes; `none` when it raises. -/
def dumps (sort : Bool) : PyVal → Option Json
  | .none => some .null
  | .bool b => some (.bool b)
  | .int n => some (.int n)
  | .float r => some (.float r)
  | .str s => some (.str s)
  | .list items => (dumpsItems sort items).map .arr
  | .tuple items => (dumpsItems sort items).map .arr
  | .dict fields =>
      if sort && !PyKey.sortable (fields.map Prod.fst) then Option.none
      else (dumpsFields sort fields).map .obj
  | .other => Option.none

/-- The items of a sequence. -/
def dumpsItems (sort : Bool) : List PyVal → Option (List Json)
  | [] => some []
  | v :: vs => (dumps sort v).bind fun j => (dumpsItems sort vs).map (j :: ·)

/-- The fields of a dictionary. -/
def dumpsFields (sort : Bool) : List (PyKey × PyVal) → Option (List (String × Json))
  | [] => some []
  | (k, v) :: fs =>
      k.dumps.bind fun t => (dumps sort v).bind fun j =>
        (dumpsFields sort fs).map ((t, j) :: ·)
end

mutual
/-- The Python value `json.loads` makes of a JSON value. -/
def ofJson : Json → PyVal
  | .null => .none
  | .bool b => .bool b
  | .int n => .int n
  | .float r => .float r
  | .str s => .str s
  | .arr items => .list (ofItems items)
  | .obj fields => .dict (ofFields fields)

/-- The items of an array. -/
def ofItems : List Json → List PyVal
  | [] => []
  | j :: js => ofJson j :: ofItems js

/-- The fields of an object. -/
def ofFields : List (String × Json) → List (PyKey × PyVal)
  | [] => []
  | (k, j) :: fs => (.str k, ofJson j) :: ofFields fs
end

/-- A string, if the value is one. -/
def str? : PyVal → Option String
  | .str s => some s
  | _ => Option.none

/-- A non-empty string, if the value is one. -/
def nonEmptyStr? (v : PyVal) : Option String := v.str?.filter (· ≠ "")

/-- The fields of a dictionary, with the field of a string key dropped. -/
def popKey (k : String) (fs : List (PyKey × PyVal)) : List (PyKey × PyVal) :=
  fs.filter fun e => e.1 ≠ .str k

/-- `dict.get` of a string key. -/
def getKey (k : String) (fs : List (PyKey × PyVal)) : Option PyVal :=
  (fs.find? fun e => e.1 = .str k).map Prod.snd

end PyVal

/-- The content of a target in a request: missing or `None`, text or bytes, or another value. -/
inductive RequestContent where
  | none
  | bytes (c : Content)
  | other

/-- One target mapping of a request. Keys that are missing read as `Option.none`. -/
structure TargetRequest where
  path : Option PyVal
  role : Option PyVal
  action : Option PyVal
  content : RequestContent
  plannedBeforeHash : Option PyVal

/-- The arguments of `validate_mutation_request`. A target list that is not a list, or a target
that is not a mapping, is `none`. -/
structure MutationRequest where
  opId : PyVal
  operation : PyVal
  agent : PyVal
  projectIdentity : PyVal
  semanticPayloadHash : PyVal
  targets : Option (List (Option TargetRequest))
  preconditions : PyVal := .none
  verificationPolicy : PyVal := .str "none"
  readPreconditions : PyVal := .none
  receiptMetadata : PyVal := .none

/-- A target as validation returns it: canonical path, role and action in their sets. -/
structure ValidTarget where
  path : Path
  role : Role
  action : Action
  /-- The bytes of a write target. -/
  content : Option Content
  plannedBeforeHash : Option PyVal

/-- What `validate_mutation_request` returns on success, with the arguments it accepted. -/
structure ValidRequest where
  opId : String
  operation : String
  agent : String
  projectIdentity : String
  semanticPayloadHash : String
  targets : List ValidTarget
  preconditions : List (String × String)
  verificationPolicy : Policy
  readPreconditions : List (String × String)
  receiptMetadata : Option (List (PyKey × PyVal))

variable (env : Environment)

/-- The operations allowed to write accepted-debt records. -/
def acceptedDebtOperations : List String := ["accepted_debt.register", "accepted_debt.rebind"]

/-- `_ACCEPTED_DEBT_DIR_PREFIX`. -/
def acceptedDebtPrefix : String := ".saipen/recovery/conformance/accepted_debt/"

/-- Strip every leading `./`. -/
def stripDotSlash : List Char → List Char
  | '.' :: '/' :: cs => stripDotSlash cs
  | cs => cs

/-- The spelling the accepted-debt guard looks at. -/
def guardSpelling (path : String) : List Char :=
  stripDotSlash (Text.replaceChar '\\' '/' path).toList

/-- Whether a path is an accepted-debt record. -/
def isAcceptedDebt (path : String) : Bool :=
  acceptedDebtPrefix.toList.isPrefixOf (guardSpelling path)

/-- `_canonical_receipt_metadata` of a request. -/
def canonicalRequestMetadata : PyVal → Except String (Option (List (PyKey × PyVal)))
  | .none => .ok Option.none
  | .dict fs =>
      match PyVal.getKey "ticket_id" fs with
      | Option.none => .ok (some fs)
      | some .none => .ok (some (PyVal.popKey "ticket_id" fs))
      | some (.str s) => .ok (some (if s = "" then PyVal.popKey "ticket_id" fs else fs))
      | some _ => .error "ticket_id must be a string or null"
  | _ => .error "must be a JSON object or null"

/-- The metadata of a request, which `json.dumps(…, sort_keys=True)` must accept. -/
def validateMetadata (v : PyVal) : Except String (Option (List (PyKey × PyVal))) :=
  match canonicalRequestMetadata v with
  | .error e => .error ("receipt_metadata " ++ e)
  | .ok Option.none => .ok Option.none
  | .ok (some fs) =>
      if (PyVal.dumps true (.dict fs)).isSome then .ok (some fs)
      else .error "receipt_metadata is not JSON-serializable"

/-- A required non-empty string argument. -/
def requireArgument (name : String) (v : PyVal) : Except String String :=
  match v.nonEmptyStr? with
  | some s => .ok s
  | Option.none => .error (name ++ " must be a non-empty string")

/-- The canonical identity of a target path that no earlier target has. -/
def validateTargetPath (seen : List Path) (v : Option PyVal) : Except String Path :=
  match v.bind PyVal.nonEmptyStr? with
  | Option.none => .error "target path must be a non-empty string"
  | some path =>
    match ownedTargetPath env path with
    | Option.none => .error "target/precondition path escapes the project"
    | some canonical =>
        if canonical ∈ seen then
          .error ("duplicate target path " ++ Text.quote (posix canonical) ++
            ": one path may be planned at most once per operation")
        else .ok canonical

/-- A member of a closed set; a missing value is the default. -/
def validateMember {κ : Type} (what : String) (ofName : String → Option κ) (default : κ)
    (v : Option PyVal) : Except String κ :=
  match v with
  | Option.none => .ok default
  | some v =>
      match v.str?.bind ofName with
      | some k => .ok k
      | Option.none => .error ("target " ++ what ++ " is outside the closed set")

/-- The content of a target with its action. -/
def validateContent (action : Action) (c : RequestContent) : Except String (Option Content) :=
  match action, c with
  | .write, .none => .error "write action requires content"
  | .write, .bytes c => .ok (some c)
  | .write, .other => .error "write content must be str or bytes"
  | _, _ => .ok Option.none

/-- One target of a request. -/
def validateTarget (seen : List Path) (t : TargetRequest) : Except String ValidTarget := do
  let path ← validateTargetPath env seen t.path
  let role ← validateMember "role" Role.ofName? .generic t.role
  let action ← validateMember "action" Action.ofName? .write t.action
  let content ← validateContent action t.content
  return ⟨path, role, action, content, t.plannedBeforeHash⟩

/-- The targets of a request; `seen` are the identities of the earlier ones. -/
def validateTargets : List Path → List (Option TargetRequest) → Except String (List ValidTarget)
  | _, [] => .ok []
  | _, Option.none :: _ => .error "every target must be a mapping"
  | seen, some t :: ts => do
      let t ← validateTarget env seen t
      let ts ← validateTargets (seen ++ [t.path]) ts
      return t :: ts

/-- `T-312`: whether some target is an accepted-debt record. -/
def touchesAcceptedDebt (ts : List (Option TargetRequest)) : Bool :=
  ts.any fun t => (t.bind fun t => t.path.bind PyVal.str?).any isAcceptedDebt

/-- The canonical form of a map from paths to hash tokens. -/
def validateHashMap (what : String) (canonical : String → Option String) :
    List (String × String) → List (PyKey × PyVal) → Except String (List (String × String))
  | acc, [] => .ok acc
  | acc, (.str path, .str hash) :: fs =>
      if path = "" then .error (what ++ " keys must be non-empty strings")
      else match canonical path with
        | Option.none => .error "target/precondition path escapes the project"
        | some can => validateHashMap what canonical (Assoc.set can hash acc) fs
  | _, (.str path, _) :: _ =>
      if path = "" then .error (what ++ " keys must be non-empty strings")
      else .error (what ++ " " ++ path ++ ": value must be a string hash token")
  | _, _ => .error (what ++ " keys must be non-empty strings")

/-- The canonical key of a precondition. -/
def preconditionKey (path : String) : Option String := (ownedTargetPath env path).map posix

/-- The canonical key of a read precondition: an absolute path stays absolute. -/
def readPreconditionKey (path : String) : Option String :=
  if isAbsolute path then some ("/" ++ "/".intercalate (components path))
  else preconditionKey env path

/-- The entries of a precondition argument: a dictionary or nothing. -/
def hashMapArgument (what : String) : PyVal → Except String (List (PyKey × PyVal))
  | .none => .ok []
  | .dict fs => .ok fs
  | _ => .error (what ++ " must be a path->hash map")

/-- The operation id of a request, as the caller spelled it. -/
def requireOpId (v : PyVal) : Except String String :=
  match v with
  | .str s =>
      match validateOpId s with
      | .ok _ => .ok s
      | .error e => .error ("op_id is not a safe path component: " ++ e)
  | _ => .error "op_id is not a safe path component: op_id is empty or not a string"

/-- The verification policy of a request. -/
def requirePolicy (v : PyVal) : Except String Policy :=
  match v.str?.bind Policy.ofName? with
  | some p => .ok p
  | Option.none => .error "verification_policy outside the closed policy set"

/-- The target list of a request. -/
def requireTargets (ts : Option (List (Option TargetRequest))) :
    Except String (List (Option TargetRequest)) :=
  match ts with
  | some ts => .ok ts
  | Option.none => .error "targets must be a list of target mappings"

/-- `validate_mutation_request`: the canonical request, or the detail of the refusal. -/
def validateMutationRequest (r : MutationRequest) : Except String ValidRequest := do
  let opId ← requireOpId r.opId
  let operation ← requireArgument "operation" r.operation
  let agent ← requireArgument "agent" r.agent
  let projectIdentity ← requireArgument "project_identity" r.projectIdentity
  let semanticPayloadHash ← requireArgument "semantic_payload_hash" r.semanticPayloadHash
  let verificationPolicy ← requirePolicy r.verificationPolicy
  let preconditions ← hashMapArgument "preconditions" r.preconditions
  let readPreconditions ← hashMapArgument "read_preconditions" r.readPreconditions
  let receiptMetadata ← validateMetadata r.receiptMetadata
  let targets ← requireTargets r.targets
  if operation ∉ acceptedDebtOperations ∧ touchesAcceptedDebt targets then
    .error "an accepted-debt record may only be written by a closed accepted_debt domain writer"
  else
    let targets ← validateTargets env [] targets
    let preconditions ← validateHashMap "precondition" (preconditionKey env) [] preconditions
    let readPreconditions ←
      validateHashMap "read_preconditions" (readPreconditionKey env) [] readPreconditions
    if targets.any fun t => readPreconditions.any fun e => e.1 = posix t.path then
      .error "target path(s) also declared as read-only dependencies"
    else
      return { opId, operation, agent, projectIdentity, semanticPayloadHash, targets,
               preconditions, verificationPolicy, readPreconditions, receiptMetadata }

end Saipen
