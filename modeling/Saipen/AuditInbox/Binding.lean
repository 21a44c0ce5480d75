import Saipen.Journal.Project
import Saipen.Log.Redact

/-! # The binding of the audit inbox

The layers of the inbox are files directly under `audit/`. `audit_inbox.json` binds a layer, by its path
and the digest of its bytes, to the receipt that captured it. A binding that is absent is an empty
inbox; one that cannot be decoded is refused by every writer. -/

namespace Saipen.AuditInbox

open Text

/-! ### Layer names -/

/-- The characters `LAYER_RE` keeps out of a name. -/
def isForbidden (c : Char) : Bool :=
  c = '/' || c = '\\' || c.toNat < 0x20 || (0x7f ≤ c.toNat && c.toNat ≤ 0x9f) ||
    c.toNat = 0x2028 || c.toNat = 0x2029

/-- The extensions of a layer. -/
def layerExtensions : List (List Char) := ["md".toList, "markdown".toList, "txt".toList]

/-- `LAYER_RE`: a visible name with one of the extensions, in either case. -/
def isLayerName (name : String) : Bool :=
  let cs := name.toList
  let extension := (cs.reverse.takeWhile (· ≠ '.')).reverse
  let stem := cs.take (cs.length - (extension.length + 1))
  layerExtensions.contains (extension.map Log.foldCase) && stem ≠ [] && stem.head? ≠ some '.' &&
    !stem.any isForbidden

/-- `layer_number`: the number of a name `[1-9][0-9]*.md`. -/
def layerNumber (name : String) : Option Nat :=
  let digits := name.toList.takeWhile fun c => '0' ≤ c && c ≤ '9'
  if name.toList.dropWhile (fun c => '0' ≤ c && c ≤ '9') = ".md".toList ∧ digits ≠ [] ∧
      digits.head? ≠ some '0' then
    some (digits.foldl (fun n c => 10 * n + (c.toNat - '0'.toNat)) 0)
  else none

/-- The name of a layer that is given by its path. -/
def layerName (rel : String) : Option String :=
  match components rel with
  | [dir, name] => if ¬ isAbsolute rel ∧ dir = "audit" ∧ isLayerName name then some name else none
  | _ => none

/-- `layer_path` of a selector that is its own answer: a canonical layer path. -/
def isLayerPath (rel : String) : Bool :=
  match layerName rel with
  | some name => rel = "audit/" ++ name
  | none => false

/-! ### The document -/

/-- What stands at a project path: nothing, a regular file, or a node that is neither, by its mode. -/
inductive Slot where
  | absent
  | file (content : Content)
  | other (mode : String)
  deriving DecidableEq

/-- `GENERATION_STATES`. -/
def generationStates : List String :=
  ["NEW", "ACTIVE", "BLOCKED", "CLOSED_PENDING_DELETE", "DELETED", "INVALID",
    "MISSING_AFTER_CAPTURE"]

/-- `_SHA256_RE`. -/
def isSha256 (s : String) : Bool := s.toList.length = 64 && s.toList.all isLowerHex

/-- A positive integer field. -/
def positiveField (d : Dict) (key : String) : Bool :=
  match d.get key with
  | some (.int n) => 1 ≤ n
  | _ => false

/-- `_binding_record_problem`: why a record cannot be read. -/
def recordProblem (rel : String) (record : Json) : Option String :=
  if rel = "" then some "layer key '' is not a path"
  else
    match record with
    | .obj fields =>
      let d : Dict := fields
      let layer := d.get "layer"
      let named := (layer = none || layer = some .null) && isLayerPath rel &&
        ((layerName rel).bind layerNumber).isNone
      if ¬ named ∧ ¬ positiveField d "layer" then some (rel ++ " layer is not a layer number")
      else if ¬ positiveField d "generation" then
        some (rel ++ " generation is not a generation number")
      else if ¬ ((d.get "file_sha256").bind Json.str?).any isSha256 then
        some (rel ++ " file_sha256 is not a sha256")
      else if ¬ ((d.get "state").bind Json.str?).any (· ∈ generationStates) then
        some (rel ++ " state is not a transport state")
      else if ¬ ((d.get "receipt_id").bind Json.str?).any (· ≠ "") then
        some (rel ++ " receipt_id is not a receipt")
      else none
    | _ => some (rel ++ " is not a record")

/-- The observation of a named generation, when it can be read. -/
def namedObservation : Json → Option (String × String)
  | .obj fields =>
    let d : Dict := fields
    match d.get "rel", d.get "file_sha256", d.get "first_seen_at" with
    | some (.str rel), some (.str digest), some (.str seen) =>
      if isLayerPath rel && ((layerName rel).bind layerNumber).isNone &&
          (digest = "" || isSha256 digest) && seen ≠ "" then some (rel, digest)
      else none
    | _, _, _ => none
  | _ => none

/-- Whether the observations can be read, each generation once. -/
def observationsOk (first : List Json) : Bool :=
  let seen := first.map namedObservation
  seen.all Option.isSome && seen.Nodup

/-- `_read_binding_state`: the three answers of the one decoder. -/
inductive BindingState where
  | absent
  | ok (doc : Dict)
  | corrupt (detail : String)
  deriving DecidableEq

def bindingRel : String := ".saipen/intake/audit_inbox.json"

def bindingPath : FileTree.Path := [".saipen", "intake", "audit_inbox.json"]

/-- The document of an inbox nobody has written. -/
def emptyBinding : Dict := [("schema_version", .int 2), ("layers", .obj [])]

/-- `named_first_seen`, empty when the document has none. -/
def firstSeen (doc : Dict) : Option (List Json) :=
  match doc.get "named_first_seen" with
  | none => some []
  | some (.arr items) => some items
  | some _ => none

/-- `doc.setdefault("schema_version", …)`. -/
def withSchema (doc : Dict) : Dict :=
  if (doc.get "schema_version").isSome then doc else doc.set "schema_version" (.int 2)

/-- What `read_binding_state` finds wrong with a root object. -/
def documentProblem (doc : Dict) : Option String :=
  match doc.get "layers" with
  | some (.obj layers) =>
    match layers.findSome? fun e => recordProblem e.1 e.2 with
    | some problem => some (" record is undecodable: " ++ problem)
    | none =>
      match firstSeen doc with
      | none => some " named_first_seen is not a list"
      | some first =>
        if observationsOk first then none else some " has an invalid named observation"
  | _ => some " carries no layers object"

/-- The answer for the bytes that were read. -/
def decodeBinding (c : Content) : BindingState :=
  match c.loads with
  | none => .corrupt (bindingRel ++ " is not readable JSON")
  | some (.obj doc) =>
    match documentProblem doc with
    | some problem => .corrupt (bindingRel ++ problem)
    | none => .ok (withSchema doc)
  | some _ => .corrupt (bindingRel ++ " root is not an object")

/-- `read_binding_state`. -/
def readBindingState : Slot → BindingState
  | .absent => .absent
  | .other _ => .corrupt (bindingRel ++ " cannot be read")
  | .file c => decodeBinding c

/-- `read_binding`: the document, or `BindingCorrupt`. -/
def readBinding (slot : Slot) : Except String Dict :=
  match readBindingState slot with
  | .absent => .ok emptyBinding
  | .ok doc => .ok doc
  | .corrupt detail => .error detail

/-- `doc["layers"]`. -/
def layersOf (doc : Dict) : Dict :=
  match doc.get "layers" with
  | some (.obj layers) => layers
  | _ => []

/-- The layers of whatever stands at the binding's path. -/
def Slot.layers : Slot → Dict
  | .file c =>
    match c.loads with
    | some (.obj doc) => layersOf doc
    | _ => []
  | _ => []

/-- `_binding_bytes`. -/
def bindingBytes (doc : Dict) : Content := .json (.obj (doc.set "schema_version" (.int 2)))

/-- `doc.setdefault("layers", {})[rel] = record`. -/
def setLayer (doc : Dict) (rel : String) (record : Json) : Dict :=
  doc.set "layers" (.obj (Dict.set (layersOf doc) rel record))

/-! ### First facts -/

theorem layersOf_set_ne {doc : Dict} {key : String} (h : key ≠ "layers") (v : Json) :
    layersOf (doc.set key v) = layersOf doc := by
  rw [layersOf, Dict.get_set_ne doc (Ne.symm h) v]
  rfl

theorem layersOf_setLayer (doc : Dict) (rel : String) (record : Json) :
    layersOf (setLayer doc rel record) = Dict.set (layersOf doc) rel record := by
  rw [layersOf, setLayer, Dict.get_set_self]

/-- What is written reads as the layers of the document. -/
theorem layers_bindingBytes (doc : Dict) : (Slot.file (bindingBytes doc)).layers = layersOf doc :=
  layersOf_set_ne (by decide) _

@[simp] theorem layersOf_withSchema (doc : Dict) : layersOf (withSchema doc) = layersOf doc := by
  unfold withSchema
  split
  · rfl
  · exact layersOf_set_ne (by decide) _

/-- A document is read from bytes that hold it. -/
theorem decodeBinding_ok {c : Content} {doc : Dict} (h : decodeBinding c = .ok doc) :
    ∃ fields, c.loads = some (.obj fields) ∧ doc = withSchema fields := by
  unfold decodeBinding at h
  split at h
  · cases h
  · next fields hloads =>
    split at h
    · cases h
    · exact ⟨fields, hloads, (BindingState.ok.inj h).symm⟩
  · cases h

theorem decodeBinding_ne_absent (c : Content) : decodeBinding c ≠ .absent := by
  unfold decodeBinding
  split
  · exact BindingState.noConfusion
  · split <;> exact BindingState.noConfusion
  · exact BindingState.noConfusion

/-- The document that is read has the layers that stand there. -/
theorem layers_of_readBinding {slot : Slot} {doc : Dict} (h : readBinding slot = .ok doc) :
    layersOf doc = slot.layers := by
  cases slot with
  | absent =>
    obtain rfl := Except.ok.inj h
    rfl
  | other mode => cases h
  | file c =>
    simp only [readBinding, readBindingState] at h
    split at h
    · next habsent => exact absurd habsent (decodeBinding_ne_absent c)
    · next doc' hok =>
      obtain rfl := Except.ok.inj h
      obtain ⟨fields, hloads, rfl⟩ := decodeBinding_ok hok
      rw [layersOf_withSchema, Slot.layers, hloads]
    · cases h

end Saipen.AuditInbox
