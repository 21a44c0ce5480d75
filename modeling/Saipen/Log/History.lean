import Saipen.Accumulate
import Saipen.Journal.Hash
import Saipen.Log.Detail
import Saipen.Text.Mention
import Saipen.Text.Repr

/-! # The history readers

The history is the sealed segments `.saipen/logs/LOG-n.md` in numeric order and the active `LOG.md`.
Three readers go over it line by line: the full snapshot, the snapshot that also digests the sealed
directory, and the routing summary that keeps the newest events only. -/

namespace Saipen.Log

open Text FileTree Accumulate

/-! ### The files of the history -/

/-- `_segment_number`, none where the source answers -1. -/
def segmentNumber (name : String) : Option Nat := do
  let cs ← literal "LOG-".toList name.toList
  -- `$` also matches in front of a newline at the end
  if cs.dropWhile isDecimal ∈ [".md".toList, ".md\n".toList] then number? (cs.takeWhile isDecimal)
  else none

/-- A file of the history: its path below the root, its name and its bytes. -/
structure Segment where
  rel : String
  name : String
  raw : Bytes

/-- A sealed segment, which has its number in its name. -/
structure SealedSegment where
  name : String
  number : Nat
  numbered : segmentNumber name = some number
  raw : Bytes

/-- The sealed segments in numeric order, and the bytes of the active LOG, when there is one. -/
structure History where
  sealed : List SealedSegment
  active : Option Bytes

def SealedSegment.toSegment (s : SealedSegment) : Segment :=
  ⟨".saipen/logs/" ++ s.name, s.name, s.raw⟩

def activeSegment (raw : Bytes) : Segment := ⟨".saipen/LOG.md", "LOG.md", raw⟩

/-- The files in the order they are read. -/
def History.segments (h : History) : List Segment :=
  h.sealed.map SealedSegment.toSegment ++ (h.active.map activeSegment).toList

/-- The entries of the sealed container. -/
def sealedContainer (d : Disk) : Except String (List (String × Node Content)) :=
  match probe [".saipen", "logs"] d with
  | .absent => .ok []
  | .blocked => .error "logs container .saipen/logs unreadable (NotADirectoryError)"
  | .found (.dir entries) => .ok entries
  | .found (.link _) => .error ("logs container .saipen/logs is a symlink/junction/reparse " ++
      "point; refusing to read history from outside the project")
  | .found _ => .error
      ".saipen/logs exists but is not a directory; refusing to read history through it"

/-- The bytes of a history node, which must be a regular file. -/
def historyNode (w : World) (name : String) : Node Content → Except String Bytes
  | .file c => .ok (w.bytes c)
  | _ => .error ("history node " ++ name ++ " is a symlink/junction/reparse or " ++
      "non-regular file; refusing to read external bytes")

/-- The segment behind an entry of the container, when it has a number. -/
def sealedNode (w : World) (e : String × Node Content) : Option (Except String SealedSegment) :=
  match h : segmentNumber e.1 with
  | none => none
  | some number => some ((historyNode w e.1 e.2).map fun raw => ⟨e.1, number, h, raw⟩)

/-- The active LOG, when it is there. -/
def activeNode (w : World) (d : Disk) : Except String (Option Bytes) :=
  match probe [".saipen", "LOG.md"] d with
  | .absent => .ok none
  | .blocked => .error "history node LOG.md unreadable (NotADirectoryError)"
  | .found n => (historyNode w "LOG.md" n).map some

/-- `_validate_history_ownership` and the reads that follow it: the nodes are checked in order, then
`_require_canonical_active_log`. -/
def readHistory (w : World) (d : Disk) : Except String History := do
  let entries ← sealedContainer d
  let numbered := entries.insertionSort fun a b =>
    (segmentNumber a.1).getD 0 ≤ (segmentNumber b.1).getD 0
  let sealed ← (numbered.filterMap (sealedNode w)).mapM id
  let active ← activeNode w d
  if active.any fun raw => !isCanonicalEncoding raw then
    .error "active LOG.md is not canonical UTF-8 without a BOM"
  else pure ⟨sealed, active⟩

/-- The decoded lines of a file with their indices. -/
def Segment.lines (s : Segment) : List (String × Nat) := (splitLines (normalisedDocText s.raw)).zipIdx

/-- What the history hash takes of a file: its path, the number of its bytes, and the bytes. -/
def Segment.frame (s : Segment) : Bytes :=
  encodeUtf8 s.rel ++ encodeUtf8 s.raw.length.repr ++ s.raw

/-! ### Lines that are no events -/

/-- A blank line or a heading, which no reader looks at. -/
def isSkipped (line : String) : Bool := strip line = "" || startsWith (strip line) "#"

/-- What the report of a damaged line shows of it. -/
def reported (line : String) : String := String.ofList ((strip line).toList.take 80)

/-- The report of a damaged line. -/
def illegalLine (p : Printable) (name : String) (idx : Nat) (line : String) : String :=
  name ++ ":" ++ (idx + 1).repr ++ ": not a legal LOG event: " ++ reprStr p (reported line)

/-! ### The tail and the tickets -/

/-- `if tail is None or id > tail: tail = id`. -/
def raiseTail (tail : Option Nat) (id : Nat) : Option Nat :=
  match tail with
  | none => some id
  | some t => if t < id then some id else some t

theorem foldl_raiseTail_some (t : Nat) (ids : List Nat) :
    ids.foldl raiseTail (some t) = some (ids.foldl max t) := by
  induction ids generalizing t with
  | nil => rfl
  | cons id ids ih =>
    have hstep : raiseTail (some t) id = some (max t id) := by
      by_cases hlt : t < id
      · simp [raiseTail, hlt, hlt.le]
      · simp [raiseTail, hlt, not_lt.mp hlt]
    rw [List.foldl_cons, hstep, ih, List.foldl_cons]

theorem foldl_raiseTail_none (ids : List Nat) :
    ids.foldl raiseTail none = if ids = [] then none else some (ids.foldl max 0) := by
  cases ids with
  | nil => rfl
  | cons id ids =>
    rw [List.foldl_cons, raiseTail, foldl_raiseTail_some, if_neg (by simp), List.foldl_cons,
      Nat.zero_max]

/-- The highest event id, or the highest id a damaged line claims in its report. -/
def tailOf (start : Option Nat) (events : List Nat) (illegal : List String) : Option Nat :=
  (illegal.filterMap declaredEventId).foldl raiseTail (events.foldl raiseTail start)

/-- The number of a ticket field: `re.match(r"T-(\d+)$", ticket)`. -/
def ticketNumber (ticket : String) : Option Nat := do
  let cs ← literal "T-".toList ticket.toList
  if cs.dropWhile isDecimal ∈ [[], ['\n']] then number? (cs.takeWhile isDecimal) else none

/-! ### The two snapshots -/

/-- `HistorySnapshot`. -/
structure HistorySnapshot where
  hash : String
  text : String
  tail : Option Nat
  events : List LogEvent
  illegalLines : List String
  eventLines : List String
  maxTicketId : Nat

/-- What the two snapshot readers do differently: what they retain, and which numbers of a legal line
are tickets for them. -/
structure Reading where
  retainText : Bool
  retainLines : Bool
  tickets : String → LogEvent → List Nat

/-- The accumulators of a snapshot reader. -/
structure Pass where
  framed : Bytes := []
  chunks : List String := []
  events : List LogEvent := []
  eventLines : List String := []
  illegal : List String := []
  maxTicketId : Nat := 0

section Readers

variable (w : World) (p : Printable) (d : Disk)

/-- The body of the loop over the lines of a file. -/
def Pass.line (r : Reading) (name : String) (s : Pass) (line : String × Nat) : Pass :=
  match parseLogLine line.1 with
  | some parsed =>
      { s with
        events := s.events ++ [readEvent w d (w.binding d) parsed]
        maxTicketId := (r.tickets line.1 parsed).foldl max s.maxTicketId
        eventLines := if r.retainLines then s.eventLines ++ [line.1] else s.eventLines }
  | none =>
      if isSkipped line.1 then s
      else { s with illegal := s.illegal ++ [illegalLine p name line.2 line.1] }

/-- The body of the loop over the files. -/
def Pass.segment (r : Reading) (s : Pass) (seg : Segment) : Pass :=
  seg.lines.foldl (Pass.line w p d r seg.name)
    { s with
      framed := s.framed ++ seg.frame
      chunks := if r.retainText then s.chunks ++ [normalisedDocText seg.raw] else s.chunks }

/-- The hash of the framed bytes. -/
def World.historyHash (framed : Bytes) : String :=
  String.ofList ((w.sha256 framed).toList.take 16)

/-- The snapshot a reader makes of a history. -/
def History.snapshot (r : Reading) (h : History) : HistorySnapshot :=
  let s := h.segments.foldl (Pass.segment w p d r) {}
  { hash := w.historyHash s.framed
    text := if r.retainText then "\n".intercalate s.chunks else ""
    tail := tailOf none (s.events.map (·.event)) s.illegal
    events := s.events
    illegalLines := s.illegal
    eventLines := s.eventLines
    maxTicketId := s.maxTicketId }

/-- The full snapshot takes the number of the ticket field. -/
def fullReading (lean : Bool) : Reading :=
  ⟨!lean, !lean, fun _ e => ((e.ticket.bind ticketNumber).toList)⟩

/-- The snapshot with the digest takes every `[T-n]` of the line. -/
def digestReading (retainText : Bool) : Reading :=
  ⟨retainText, true, fun line _ => mentions 'T' line.toList⟩

/-- `read_history_snapshot`. -/
def readHistorySnapshot (lean : Bool) : Except String HistorySnapshot :=
  (readHistory w d).map fun h => h.snapshot w p d (fullReading lean)

/-- `read_history_snapshot_and_logs_digest`. -/
def readHistorySnapshotAndLogsDigest (retainText : Bool) : Except String (HistorySnapshot × String) :=
  (readHistory w d).map fun h =>
    (h.snapshot w p d (digestReading retainText),
      hashTreeDependency w.env (probe [".saipen", "logs"] d))

end Readers

/-! ### What a pass gathers -/

/-- A line of a history: the name of its file, its text and its index. -/
abbrev HistoryLine := String × String × Nat

def Segment.historyLines (s : Segment) : List HistoryLine := s.lines.map fun line => (s.name, line)

/-- All lines of a history in the order they are read. -/
def History.lines (h : History) : List HistoryLine := h.segments.flatMap Segment.historyLines

section Gather

variable (w : World) (p : Printable) (d : Disk)

/-- The event of a legal line. -/
def eventOf (line : HistoryLine) : Option LogEvent :=
  (parseLogLine line.2.1).map (readEvent w d (w.binding d))

/-- Whether a line is neither legal nor skipped. -/
def isDamaged (line : String) : Bool := (parseLogLine line).isNone && !isSkipped line

/-- The report of a line, when it is damaged. -/
def problemOf (line : HistoryLine) : Option String :=
  if isDamaged line.2.1 then some (illegalLine p line.1 line.2.2 line.2.1) else none

/-- The ticket numbers a reader takes from a line. -/
def Reading.ticketsOf (r : Reading) (line : HistoryLine) : List Nat :=
  ((parseLogLine line.2.1).map (r.tickets line.2.1)).getD []

/-- A legal line a reader retains. -/
def Reading.retained (r : Reading) (line : HistoryLine) : Option String :=
  if r.retainLines && (parseLogLine line.2.1).isSome then some line.2.1 else none

/-- The accumulators after some more lines. -/
def Pass.gather (r : Reading) (s : Pass) (lines : List HistoryLine) : Pass :=
  { s with
    events := s.events ++ lines.filterMap (eventOf w d)
    eventLines := s.eventLines ++ lines.filterMap r.retained
    illegal := s.illegal ++ lines.filterMap (problemOf p)
    maxTicketId := (lines.flatMap r.ticketsOf).foldl max s.maxTicketId }

variable {w p d} {r : Reading}

theorem Pass.line_eq_gather (name : String) (s : Pass) (line : String × Nat) :
    Pass.line w p d r name s line = s.gather w p d r [(name, line)] := by
  obtain h | ⟨e, h⟩ := Option.eq_none_or_eq_some (parseLogLine line.1)
  · cases hs : isSkipped line.1 <;>
      simp [Pass.line, Pass.gather, eventOf, Reading.retained, problemOf, isDamaged,
        Reading.ticketsOf, h, hs]
  · cases hr : r.retainLines <;>
      simp [Pass.line, Pass.gather, eventOf, Reading.retained, problemOf, isDamaged,
        Reading.ticketsOf, h, hr]

theorem Pass.gather_append (s : Pass) (ls ms : List HistoryLine) :
    (s.gather w p d r ls).gather w p d r ms = s.gather w p d r (ls ++ ms) := by
  simp [Pass.gather]

theorem Pass.foldl_line (name : String) (s : Pass) (lines : List (String × Nat)) :
    lines.foldl (Pass.line w p d r name) s =
      s.gather w p d r (lines.map fun line => (name, line)) := by
  induction lines generalizing s with
  | nil => simp [Pass.gather]
  | cons line lines ih => rw [List.foldl_cons, ih, Pass.line_eq_gather, Pass.gather_append]; rfl

/-- A pass over files frames their bytes and gathers what their lines give. -/
theorem Pass.foldl_segment (s : Pass) (segs : List Segment) :
    segs.foldl (Pass.segment w p d r) s =
      ({ s with
          framed := s.framed ++ segs.flatMap Segment.frame
          chunks := if r.retainText then s.chunks ++ segs.map (fun seg : Segment => normalisedDocText seg.raw)
            else s.chunks }).gather w p d r
        (segs.flatMap Segment.historyLines) := by
  induction segs generalizing s with
  | nil => cases r.retainText <;> simp [Pass.gather]
  | cons seg segs ih =>
    rw [List.foldl_cons, ih, Pass.segment, Pass.foldl_line]
    cases r.retainText <;> simp [Pass.gather, Segment.historyLines]

end Gather

/-! ### The routing summary -/

/-- `ROUTING_TAIL_EVENTS`. -/
def routingTailEvents : Nat := 16

/-- `ROUTING_DIAGNOSTIC_CAP`. -/
def routingDiagnosticCap : Nat := 32

/-- `HistoryRoutingSummary`. -/
structure HistoryRoutingSummary where
  hash : String
  tail : Option Nat
  illegalLines : List String
  maxTicketId : Nat
  eventCount : Nat
  duplicateEventIds : List Nat
  orderingErrors : List String
  routingEvents : List LogEvent

/-- The accumulators of the routing summary. -/
structure RoutingPass where
  framed : Bytes := []
  illegal : List String := []
  routing : List LogEvent := []
  duplicates : List Nat := []
  ordering : List String := []
  maxTicketId : Nat := 0
  eventCount : Nat := 0
  highest : Nat := 0
  seen : List Nat := []

section Routing

variable (w : World) (p : Printable) (d : Disk)

/-- The report of a parent that is no earlier event. -/
def orderingError (name : String) (idx number parent : Nat) : String :=
  name ++ ":" ++ (idx + 1).repr ++ ": E-" ++ number.repr ++ " declares parent E-" ++ parent.repr ++
    ", which is not an earlier event"

/-- The body of the loop over the lines of a file. -/
def RoutingPass.line (name : String) (s : RoutingPass) (line : String × Nat) : RoutingPass :=
  match parseLogLine line.1 with
  | some parsed =>
      let number := parsed.event
      { s with
        eventCount := s.eventCount + 1
        duplicates := if number ∈ s.seen then pushCapped routingDiagnosticCap s.duplicates number
          else s.duplicates
        seen := if number ∈ s.seen then s.seen else number :: s.seen
        highest := max s.highest number
        ordering := match parsed.parent with
          | some parent =>
              if number ≤ parent then
                pushCapped routingDiagnosticCap s.ordering (orderingError name line.2 number parent)
              else s.ordering
          | none => s.ordering
        maxTicketId := (parsed.ticket.bind ticketNumber).toList.foldl max s.maxTicketId
        routing := pushBounded routingTailEvents s.routing (readEvent w d (w.binding d) parsed) }
  | none =>
      if isSkipped line.1 then s
      else { s with illegal := s.illegal ++ [illegalLine p name line.2 line.1] }

/-- The body of the loop over the files. -/
def RoutingPass.segment (s : RoutingPass) (seg : Segment) : RoutingPass :=
  seg.lines.foldl (RoutingPass.line w p d seg.name) { s with framed := s.framed ++ seg.frame }

/-- The routing summary of a history. -/
def History.routing (h : History) : HistoryRoutingSummary :=
  let s := h.segments.foldl (RoutingPass.segment w p d) {}
  { hash := w.historyHash s.framed
    tail := tailOf (if s.highest = 0 then none else some s.highest) [] s.illegal
    illegalLines := s.illegal
    maxTicketId := s.maxTicketId
    eventCount := s.eventCount
    duplicateEventIds := s.duplicates.dedup.insertionSort (· ≤ ·)
    orderingErrors := s.ordering
    routingEvents := s.routing }

/-- `read_history_routing_summary`. -/
def readHistoryRoutingSummary : Except String HistoryRoutingSummary :=
  (readHistory w d).map fun h => h.routing w p d

end Routing

end Saipen.Log
