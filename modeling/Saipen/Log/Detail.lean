import Saipen.Journal.Identity
import Saipen.Log.Grammar
import Saipen.Text.Codec

/-! # Restoring externalised events

An event over the live cap stands in the LOG as a reference to a metadata file, which names the file
that holds the full line. `restoredDetailText` follows the reference and answers the message only
when every check of the proof holds; `readEvent` is what each history reader makes of a parsed line. -/

namespace Saipen.Log

open Text FileTree

/-- What the log code takes from outside: the environment of the journal, the digest of bytes, and
the bytes of a JSON text. -/
structure World where
  env : Environment
  /-- `hashlib.sha256(bytes).hexdigest()`. -/
  sha256 : Bytes → String
  sha256_hex : ∀ bytes, ∀ c ∈ (sha256 bytes).toList, isLowerHex c = true
  docBytes : Json → Nat → Bytes

/-- The bytes of a file. -/
def World.bytes (w : World) : Content → Bytes
  | .doc j layout => w.docBytes j layout
  | .text s => encodeUtf8 s
  | .raw bytes => bytes

/-- `history_project_binding`: the lineage, and the identity of the machine path. -/
structure Binding where
  lineage : Option String
  identity : String
deriving DecidableEq

def World.binding (w : World) (d : Disk) : Binding :=
  ⟨projectLineageIdentity w.env d, w.env.runtimeIdentity⟩

/-! ### The structure of an active ticket block -/

/-- `T-\d+`, as a whole. -/
def isTicketId (s : String) : Bool :=
  match literal ['T', '-'] s.toList with
  | some digits => digits ≠ [] && digits.all isDecimal
  | none => false

/-- `ActiveTicketBlockStructure` as `active_ticket_block_structure` accepts it. -/
structure BlockStructure where
  dependency : Option String
  valid : ∀ t, dependency = some t → isTicketId t = true
deriving DecidableEq

/-- `active_ticket_block_structure`. -/
def activeTicketBlockStructure (dependency : Option String) : Option BlockStructure :=
  match dependency with
  | none => some ⟨none, by simp⟩
  | some t => if h : isTicketId t = true then some ⟨some t, by simpa using h⟩ else none

/-- `ACTIVE_TICKET_BLOCK_MARKER`. -/
def activeTicketBlockMarker : String := "ticket block via SAIOPS (active)"

/-- `STRUCTURAL_DETAIL_TAG`. -/
def structuralDetailTag : String := "structural_event: ticket-block-active"

/-- `structural_event_prefix`. -/
def BlockStructure.eventPrefix (b : BlockStructure) : String :=
  match b.dependency with
  | none => activeTicketBlockMarker
  | some t => activeTicketBlockMarker ++ " -- dependency " ++ t

/-- `structural_event_record`. -/
def BlockStructure.record (b : BlockStructure) : Json :=
  .obj [("kind", .str "ticket_block"), ("active", .bool true),
    ("dependency_ticket", (b.dependency.map Json.str).getD .null)]

/-- `_structure_from_record`. -/
def structureFromRecord : Json → Option BlockStructure
  | .obj fields =>
      if fields.map (·.1) ⊆ ["kind", "active", "dependency_ticket"] ∧
          ["kind", "active", "dependency_ticket"] ⊆ fields.map (·.1) ∧
          fields.lookup "kind" = some (.str "ticket_block") ∧
          fields.lookup "active" = some (.bool true) then
        match fields.lookup "dependency_ticket" with
        | some .null => activeTicketBlockStructure none
        | some (.str t) => activeTicketBlockStructure (some t)
        | _ => none
      else none
  | _ => none

/-! ### The compact message -/

/-- `detail_ref:\s*(\S+)` to the end of the text. -/
def referenceGroup (cs : List Char) : Option String := do
  let cs ← literal "detail_ref:".toList cs
  let reference := cs.dropWhile isSpace
  if reference ≠ [] ∧ reference.all fun c => !isSpace c then some (String.ofList reference) else none

/-- The optional ` -- dependency T-n` of the structural marker. -/
def dependencyGroup (cs : List Char) : Option String × List Char :=
  match literal " -- dependency T-".toList cs with
  | some rest =>
      if rest.takeWhile isDecimal ≠ [] then
        (some (String.ofList ('T' :: '-' :: rest.takeWhile isDecimal)), rest.dropWhile isDecimal)
      else (none, cs)
  | none => (none, cs)

/-- `_STRUCTURAL_DETAIL_MESSAGE`. -/
def structuralDetailMessage (cs : List Char) : Option (Option String × String) := do
  let cs ← literal activeTicketBlockMarker.toList cs
  let (dependency, cs) := dependencyGroup cs
  let cs ← literal (" -- " ++ structuralDetailTag ++ " -- ").toList cs
  let reference ← referenceGroup cs
  some (dependency, reference)

/-- `compact_detail_reference`. -/
def compactDetailReference (text : String) : Option (String × Option BlockStructure) :=
  let cs := (strip text).toList
  match structuralDetailMessage cs with
  | some (dependency, reference) =>
      (activeTicketBlockStructure dependency).map fun b => (reference, some b)
  | none => (referenceGroup cs).map fun reference => (reference, none)

/-! ### The proof of a detail -/

/-- `LOG_DETAIL_ROOT`, with its closing slash. -/
def detailRoot : String := ".saipen/recovery/log-detail/"

/-- `_owned_detail_bytes`: the regular file behind a reference into the detail directory. -/
def ownedDetail (d : Disk) (reference : String) : Option Content :=
  let normalized := String.ofList ((replaceChar '\\' '/' reference).toList.dropWhile (· = '/'))
  if ".." ∈ split '/' normalized ∨ ¬ startsWith normalized detailRoot then none
  else
    match probe (components normalized) d with
    | .found (.file c) => some c
    | _ => none

/-- A value as `==` compares it: a truth value is a number. -/
def numeral : Json → Json
  | .bool b => .int (if b then 1 else 0)
  | .float repr => if repr = "1.0" then .int 1 else .float repr
  | j => j

/-- `metadata.get(key) == value`, for a key that must be there. -/
def holdsAt (metadata : Dict) (key : String) (value : Json) : Bool :=
  (metadata.lookup key).any fun v => numeral v = numeral value

/-- `None` or a string, as JSON. -/
def nullable (value : Option String) : Json := (value.map Json.str).getD .null

/-- `history_bound_here`. -/
def historyBoundHere (recordedIdentity recordedLineage : Json) (binding : Binding) : Bool :=
  match binding.lineage with
  | some lineage => recordedLineage = .str lineage
  | none => recordedLineage = .null && recordedIdentity = .str binding.identity

/-- What the metadata must say about the event. -/
def expectedMetadata (reference : String) (parsed : LogEvent) : List (String × Json) :=
  [("schema_version", .int 1), ("operation", .str "log_event_externalization"),
    ("status", .str "COMMITTED"), ("event_id", .str ("E-" ++ parsed.event.repr)),
    ("ticket_id", nullable parsed.ticket), ("source", .str ".saipen/LOG.md"),
    ("metadata_path", .str reference), ("lossless", .bool true)]

/-- The metadata belongs to the event, the project and the structure. -/
def metadataHolds (binding : Binding) (reference : String) (parsed : LogEvent)
    (structure? : Option BlockStructure) (metadata : Dict) : Bool :=
  ((expectedMetadata reference parsed).all fun e => holdsAt metadata e.1 e.2) &&
    (metadata.lookup "project_identity").isSome && (metadata.lookup "project_lineage").isSome &&
    historyBoundHere ((metadata.lookup "project_identity").getD .null)
      ((metadata.lookup "project_lineage").getD .null) binding &&
    (match metadata.lookup "externalization_event" with
      | some (.obj fields) =>
          numeral ((fields.lookup "operation_id").getD .null) = numeral (nullable parsed.opId)
      | _ => false) &&
    (match structure? with
      | none => (metadata.lookup "structural_event").isNone
      | some b => structureFromRecord ((metadata.lookup "structural_event").getD .null) = some b)

/-- The bytes the metadata names, when they are the ones it recorded. -/
def originalBytes (w : World) (d : Disk) (metadata : Dict) : Option Bytes := do
  let path := match metadata.lookup "original_event_path" with
    | some (.str s) => s
    | _ => ""
  let raw := w.bytes (← ownedDetail d path)
  if holdsAt metadata "original_event_bytes" (.int raw.length) ∧
      holdsAt metadata "original_event_sha256" (.str (w.sha256 raw)) then some raw else none

/-- The restored line tells the same event, and begins with the marker of its structure. -/
def sameEvent (full parsed : LogEvent) (structure? : Option BlockStructure) : Bool :=
  full.date = parsed.date && full.event = parsed.event && full.parent = parsed.parent &&
    full.ticket = parsed.ticket && full.agent = parsed.agent && full.opId = parsed.opId &&
    full.taxonomy = parsed.taxonomy &&
    structure?.all fun b => startsWith full.text (b.eventPrefix ++ " -- ")

/-- `_read_detail_text`. -/
def readDetailText (w : World) (d : Disk) (binding : Binding) (reference : String)
    (parsed : LogEvent) (structure? : Option BlockStructure) : Option String := do
  let metadata ← match (← ownedDetail d reference).loads with
    | some (.obj fields) => some fields
    | _ => none
  if metadataHolds binding reference parsed structure? metadata then
    let raw ← originalBytes w d metadata
    match splitLines (normalisedDocText raw) with
    | [line] =>
        let full ← parseLogLine line
        if sameEvent full parsed structure? then some full.text else none
    | _ => none
  else none

/-- `_restored_detail_text`: the reference of a compact event, and its message when it is proved. -/
def restoredDetailText (w : World) (d : Disk) (binding : Binding) (parsed : LogEvent) :
    Option String × Option String :=
  match compactDetailReference parsed.text with
  | none => (none, none)
  | some (reference, structure?) =>
      (some reference, readDetailText w d binding reference parsed structure?)

/-- What a history reader keeps of a parsed line. -/
def readEvent (w : World) (d : Disk) (binding : Binding) (parsed : LogEvent) : LogEvent :=
  match restoredDetailText w d binding parsed with
  | (none, _) => parsed
  | (some reference, none) =>
      { parsed with detailRef := some reference, detailIntegrity := some .invalid }
  | (some reference, some text) =>
      { parsed with text, detailRef := some reference, detailIntegrity := some .valid }

end Saipen.Log
