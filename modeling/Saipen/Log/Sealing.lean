import Mathlib.Data.List.DropRight
import Saipen.Log.Ledger
import Saipen.Sorting

/-! # Sealing the active LOG

`seal_log` moves the active LOG, as it is spelled, into the next sealed segment, and starts an active LOG with its
heading and the event of the seal. The segment is written first. -/

namespace Saipen.Log

open Text FileTree Accumulate Sorting

/-! ### Segments -/

/-- `ACTIVE_LOG_MAX_LINES`. -/
def activeLogMaxLines : ℕ := 300

/-- `ACTIVE_LOG_MAX_BYTES`. -/
def activeLogMaxBytes : ℕ := 64 * 1024

/-- `seal_due`. -/
def sealDue (lineCount byteCount : ℕ) : Bool := activeLogMaxLines < lineCount || activeLogMaxBytes < byteCount

/-- `f"{n:03d}"`. -/
def padded (n : ℕ) : List Char := List.replicate (3 - n.repr.length) '0' ++ n.repr.toList

/-- `f"LOG-{n:03d}.md"`. -/
def segmentName (n : ℕ) : String := String.ofList ("LOG-".toList ++ (padded n ++ ".md".toList))

/-- The entries of `.saipen/logs`, where it is a directory. -/
def logsEntries (d : Disk) : Entries Content :=
  match probe [".saipen", "logs"] d with
  | .found (.dir entries) => entries
  | _ => []

/-- The numbers of the sealed segments among `history_paths`. -/
def segmentNumbers (d : Disk) : List ℕ := ((logsEntries d).filter (·.2.isFile)).filterMap fun e => segmentNumber e.1

/-- The number of `next_segment_rel`. -/
def nextSegmentNumber (d : Disk) : ℕ := (segmentNumbers d).foldl max 0 + 1

/-- `next_segment_rel`. -/
def nextSegmentRel (d : Disk) : Path := [".saipen", "logs", segmentName (nextSegmentNumber d)]

/-- The path of the active LOG. -/
def activeRel : Path := [".saipen", "LOG.md"]

/-! ### The seal -/

/-- `line.strip() and not line.lstrip().startswith("#")` does not hold. -/
def isHeading (line : String) : Bool :=
  strip line = "" || "#".toList.isPrefixOf (line.toList.dropWhile isSpace)

/-- `heading`: the lines in front of the first event, without the blank ones at their end. -/
def headingOf (lines : List String) : List String := (lines.takeWhile isHeading).rdropWhile fun line => strip line = ""

/-- `_actor_provenance`. -/
def actorProvenance (seated : Option String) (agent message : String) : String :=
  match truthy seated with
  | none => message
  | some seat => if seat = agent then message else "actor " ++ agent ++ " (seat " ++ seat ++ "); " ++ message

/-- What a seal reads besides the history. -/
structure SealCall where
  phase : String
  /-- The ids in `## DOING`. -/
  doing : List String
  agent : String
  seated : Option String
  now : Stamp
  opId : String
  /-- `validate_texts` on what stands. -/
  standing : List String
  /-- `_sealed_segment_bindings` found the tree that the snapshot was made of. -/
  bound : Bool
  /-- `validate_texts` on the proposed LOG. -/
  proposed : String → List String

/-- What a seal writes: the segment with the bytes of the active LOG, and the active LOG that goes on behind it. -/
structure SealPlan where
  segment : Path
  sealed : Bytes
  text : String
  line : String

section Seal

variable (w : World) (p : Printable) (d : Disk) (c : SealCall)

/-- The message of the event. -/
def sealMessage (events : List LogEvent) (lines bytes : ℕ) (segment : Path) (digest : String) : String :=
  "log sealed -- E-" ++ ((events.head?.map LogEvent.event).getD 0).repr ++ "..E-" ++
    ((events.getLast?.map LogEvent.event).getD 0).repr ++ " (" ++ events.length.repr ++ " events, " ++ lines.repr ++
    " lines, " ++ bytes.repr ++ " bytes) moved verbatim into " ++ "/".intercalate segment ++
    " sha256:" ++ String.ofList (digest.toList.take 16) ++ "; the active tail continues here"

/-- The event of the seal. -/
def sealDraft (tail : Option ℕ) (events : List LogEvent) (lines : ℕ) (raw : Bytes) : Draft where
  tail := tail
  taxonomy := "DEC"
  message := actorProvenance c.seated c.agent
    (sealMessage events lines raw.length (nextSegmentRel d) (w.sha256 raw))
  ticket := none
  agent := some c.agent
  now := c.now
  opId := some c.opId

/-- The text the event is appended to. -/
def sealFront (lines : List String) : String :=
  "\n".intercalate (if headingOf lines = [] then ["# Log"] else headingOf lines)

/-- `seal_log`, up to the journal plan and STATE. The active LOG re-encodes to its bytes, since a history is read only
when it is canonical. -/
def sealLog : Except String SealPlan := do
  let h ← readHistory w d
  let snapshot := h.snapshot w p d (digestReading true)
  match h.active with
  | none => .error "the active LOG cannot be read"
  | some raw =>
      let lines := splitLines (normalisedDocText raw)
      let events := lines.filterMap parseLogLine
      if c.phase ≠ "CLEAN" then .error "ILLEGAL_PHASE"
      else if sealDue lines.length raw.length = false ∨ events = [] then .error "VALIDATION_FAILED"
      else if c.doing ≠ [] then .error "VALIDATION_FAILED"
      else if snapshotContractErrors snapshot ++ c.standing ≠ [] then .error "VALIDATION_FAILED"
      else if c.bound = false then .error "STALE_STATE"
      else if (probe (nextSegmentRel d) d).node.isSome then .error "CONFLICT"
      else
        let result ← prepareBoundedEvent w d (sealDraft w d c snapshot.tail events lines.length raw) none
        let text := rstripNewlines (sealFront lines) ++ "\n" ++ result.line ++ "\n"
        if c.proposed text ≠ [] then .error "VALIDATION_FAILED"
        else pure ⟨nextSegmentRel d, raw, text, result.line⟩

end Seal

end Saipen.Log
