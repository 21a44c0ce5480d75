import Saipen.Board.Record
import Saipen.Text.Lines

/-! # Reading the BOARD

`parse_board` walks the lines of a BOARD: headings, ticket rows, blank lines. A row is a checkbox, a
ticket id and parts between bars, the first of which is the description and the others its fields. -/

namespace Saipen.Board

open Text

/-- `PIPE_SENTINEL`. -/
def pipeSentinel : Char := Char.ofNat 0

/-- `REQUIRED_HEADINGS`. -/
def requiredHeadings : List String := ["## DOING", "## TODO", "## DONE", "## BLOCKED"]

/-- `KNOWN_FIELDS`. -/
def knownFields : List String :=
  ["blocked_on", "blocker", "blocker_scope", "claim_generation", "claim_run", "claim_session",
    "claim_time", "closure_cohort", "closure_mode", "closure_paths", "detail_ref",
    "external_authority", "external_evidence", "external_implementation", "implementation_delta",
    "implementation_source", "invalidation_evidence", "needs", "owner", "recurrence", "regression",
    "regression_evidence", "publication", "publication_state", "request_witness", "requires",
    "resolution_reason", "resume_phase", "resume_transition_from", "retry_not_before",
    "review_passes", "source_receipts", "source_reports", "superseded_by", "supersession_authority",
    "supersession_evidence", "user_explicit", "verify", "verification_contract", "verify_attempts",
    "weak_model"]

/-! ### Parts of a row -/

/-- `replace("\\|", PIPE_SENTINEL)`. -/
def maskPipes : List Char → List Char
  | '\\' :: '|' :: cs => pipeSentinel :: maskPipes cs
  | c :: cs => c :: maskPipes cs
  | [] => []

/-- `split(" | ")`. -/
def splitBars : List Char → List (List Char)
  | ' ' :: '|' :: ' ' :: cs => [] :: splitBars cs
  | c :: cs =>
      match splitBars cs with
      | part :: parts => (c :: part) :: parts
      | [] => [[c]]
  | [] => [[]]

/-- `str.strip` of a list of characters. -/
def stripChars (cs : List Char) : List Char :=
  ((cs.dropWhile isSpace).reverse.dropWhile isSpace).reverse

/-- `unescape_ticket_part`. -/
def unescape : List Char → List Char
  | '\\' :: '\\' :: cs => '\\' :: unescape cs
  | c :: cs => (if c = pipeSentinel then '|' else c) :: unescape cs
  | [] => []

/-- `[a-z_]`. -/
def isFieldChar (c : Char) : Bool := (97 ≤ c.toNat && c.toNat ≤ 122) || c = '_'

/-- `^([a-z_]+):\s*(.*)$`. -/
def fieldPart (cs : List Char) : Option (String × String) :=
  match cs.takeWhile isFieldChar, cs.dropWhile isFieldChar with
  | c :: name, ':' :: value =>
      some (String.ofList (c :: name), String.ofList (value.dropWhile isSpace))
  | _, _ => none

/-! ### Rows -/

def isCheckbox (c : Char) : Bool := c = ' ' || c = 'x' || c = '/'

/-- What `TICKET_RE` takes apart. -/
structure Row where
  checkbox : Char
  id : String
  rest : List Char

/-- `TICKET_RE` on a line that is stripped and masked. -/
def readRow : List Char → Option Row
  | '-' :: ' ' :: '[' :: c :: ']' :: ' ' :: 'T' :: '-' :: cs =>
      let digits := cs.takeWhile isDecimal
      let more := cs.dropWhile isDecimal
      if isCheckbox c && !digits.isEmpty && more.head?.any isSpace then
        some ⟨c, "T-" ++ String.ofList digits, more.dropWhile isSpace⟩
      else none
  | _ => none

/-- A ticket opener at the beginning of a text. -/
def openerAt : List Char → Bool
  | '[' :: c :: ']' :: cs =>
      isCheckbox c && cs.head?.any isSpace &&
        match cs.dropWhile isSpace with
        | 'T' :: '-' :: d :: _ => isDecimal d
        | _ => false
  | _ => false

/-- `EMBEDDED_TICKET_RE.search`. -/
def embedsTicket (cs : List Char) : Bool := cs.tails.any openerAt

/-- `T-\d+` at the beginning of a text. -/
def ticketAt : List Char → Option String
  | 'T' :: '-' :: cs =>
      match cs.takeWhile isDecimal with
      | [] => none
      | d :: ds => some ("T-" ++ String.ofList (d :: ds))
  | _ => none

/-- `re.findall(r"T-\d+", value)`. No match begins inside another one. -/
def ticketRefs (value : String) : List String := value.toList.tails.filterMap ticketAt

/-- A ticket of the BOARD. -/
structure Ticket where
  id : String
  sectionName : String
  checkbox : Char
  needs : List String
  fields : List (String × String)
  raw : String
  description : String
deriving DecidableEq

/-- What `parse_board` reports. -/
inductive BoardError where
  | malformed (line : String)
  | embedded (id : String)
  | misplaced (id : String) (sectionName : Option String)
  | unrecognized (id part : String)
  | repeated (id field : String)
  | duplicate (id : String)
  | unexpected (sectionName line : String)
  | heading (name : String) (count : Nat)
deriving DecidableEq

/-- The fields of a row, part after part, with what is reported about them. -/
def readFields (id : String) : List String → List (String × String) →
    List (String × String) × List BoardError
  | [], fields => (fields, [])
  | part :: parts, fields =>
      match fieldPart part.toList with
      | some (name, value) =>
          if name ∉ knownFields then
            let r := readFields id parts fields
            (r.1, .unrecognized id part :: r.2)
          else if name ∈ fields.map (·.1) then
            let r := readFields id parts fields
            (r.1, .repeated id name :: r.2)
          else readFields id parts (fields ++ [(name, value)])
      | none =>
          let r := readFields id parts fields
          (r.1, .unrecognized id part :: r.2)

/-- The parts of a row behind its id. -/
def rowParts (row : Row) : List String :=
  (splitBars row.rest).map fun part => String.ofList (unescape (stripChars part))

/-- The ticket of a row. -/
def rowTicket (sectionName line : String) (row : Row) : Ticket × List BoardError :=
  let parts := rowParts row
  let r := readFields row.id parts.tail []
  (⟨row.id, sectionName, row.checkbox, ticketRefs ((r.1.lookup "needs").getD ""), r.1, line,
    parts.headD ""⟩, r.2)

/-! ### The walk -/

/-- What the walk has read. -/
structure Walk where
  sectionName : Option String := none
  headings : List String := []
  tickets : List Ticket := []
  errors : List BoardError := []

def Walk.report (w : Walk) (e : BoardError) : Walk := { w with errors := w.errors ++ [e] }

/-- A line that opens like a row. -/
def Walk.readTicket (w : Walk) (line : String) : Walk :=
  match readRow (maskPipes (strip line).toList) with
  | none => w.report (.malformed line)
  | some row =>
      if embedsTicket row.rest then w.report (.embedded row.id)
      else
        match w.sectionName with
        | none => w.report (.misplaced row.id none)
        | some s =>
            if s ∉ requiredHeadings then w.report (.misplaced row.id (some s))
            else
              let r := rowTicket s line row
              let w := { w with errors := w.errors ++ r.2 }
              if row.id ∈ w.tickets.map (·.id) then w.report (.duplicate row.id)
              else { w with tickets := w.tickets ++ [r.1] }

/-- One line of the walk. -/
def Walk.readLine (w : Walk) (line : String) : Walk :=
  if startsWith line "## " then
    { w with sectionName := some (strip line), headings := w.headings ++ [strip line] }
  else if strip line = "" then w
  else if "- [".toList.isPrefixOf (line.toList.dropWhile isSpace) then w.readTicket line
  else
    match w.sectionName with
    | none => w
    | some s => if s ∉ requiredHeadings then w else w.report (.unexpected s (strip line))

/-- What is reported about the headings at the end. -/
def headingErrors (headings : List String) : List BoardError :=
  requiredHeadings.filterMap fun h =>
    if headings.count h = 1 then none else some (.heading h (headings.count h))

/-- A BOARD as it is read. -/
structure Parsed where
  tickets : List Ticket
  headings : List String
  errors : List BoardError
deriving DecidableEq

/-- `parse_board`. -/
def parseBoard (text : String) : Parsed :=
  let w := (splitLines text).foldl Walk.readLine {}
  ⟨w.tickets, w.headings, w.errors ++ headingErrors w.headings⟩

/-- `board["tickets"].get(id)`. -/
def Parsed.ticket (b : Parsed) (id : String) : Option Ticket := b.tickets.find? (·.id = id)

example : (parseBoard "# BOARD\n## DOING\n- [/] T-1 do | owner: a | needs: T-2\n## TODO\n## DONE\n## BLOCKED\n").tickets =
    [⟨"T-1", "## DOING", '/', ["T-2"], [("owner", "a"), ("needs", "T-2")],
      "- [/] T-1 do | owner: a | needs: T-2", "do"⟩] := by decide +kernel

end Saipen.Board
