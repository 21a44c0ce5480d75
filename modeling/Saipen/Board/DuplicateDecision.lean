import Saipen.Board.Duplicates
import Saipen.Log.History
import Saipen.Text.Case
import Saipen.Text.Pattern

/-! # The decision about a duplicated ticket id

`duplicate_id_findings` names the records behind every duplicated id of a BOARD, `duplicate_id_decision`
lists one command for each pair of them, and `resolve_duplicate_id` carries one of these out: the record
that gives the id up gets the next unused one. -/

namespace Saipen.Board

open Text

/-- `\w` outside ASCII; white space is no part of a word. -/
structure WordClass where
  word : Char → Bool
  space : ∀ c, isSpace c = true → word c = false

/-- `\w`. -/
def WordClass.has (w : WordClass) (c : Char) : Bool := Pattern.isWord w.word c

section Decision

variable (sha : Hexdigest) (words : WordClass) (p : Printable)

/-! ### The findings -/

/-- What a message about a duplicated id opens with. -/
def duplicateWords : String := "duplicate ticket ID "

/-- The message of an error, without the line number in front of it. -/
def BoardError.message : BoardError → String
  | .malformed _ => "ticket-ish line doesn't match RFC section 1.2 shape `- [ ] T-### description`"
  | .embedded id => "ticket " ++ id ++ " embeds a second ticket-record opener -- ONE PHYSICAL BOARD RECORD " ++
      "== ONE TICKET IDENTITY; split the records onto separate lines or the embedded ticket silently " ++
      "loses its identity"
  | .misplaced id sectionName => "ticket " ++ id ++ " sits under " ++ sectionName.getD "no heading" ++
      " -- not one of the four RFC sections, so no operation may mutate a board built around it"
  | .unrecognized id part => "ticket " ++ id ++ " has unrecognized field " ++ reprStr p part
  | .repeated id field => "ticket " ++ id ++ " duplicates the known field " ++ reprStr p field ++
      " -- a weak model must never read one value while Python uses another"
  | .duplicate id => duplicateWords ++ id
  | .unexpected sectionName line => "unexpected physical BOARD record under " ++ sectionName ++ " (" ++
      reprStr p (String.ofList (line.toList.take 80)) ++ ") -- a detached continuation or record fragment " ++
      "never becomes authority; the board grammar is closed and the bytes are ambiguous or corrupt, " ++
      "refuse them"
  | .heading name count => "required heading " ++ name ++ " appears " ++ count.repr ++ " time(s) -- the " ++
      "shared parser refuses a board whose work surface is split or missing, so no operation can mutate " ++
      "it into a crash"

/-- `re.search(r"duplicate ticket ID (T-\d+)", error)`. -/
def duplicateNamed (error : String) : Option String :=
  (error.toList.tails.filterMap fun cs => (literal duplicateWords.toList cs).bind ticketAt).head?

/-- `if id not in ids: ids.append(id)`. -/
def pushNew (ids : List String) (id : String) : List String := if id ∈ ids then ids else ids ++ [id]

/-- The ids the messages of the reader name as duplicated. -/
def duplicateIds (boardText : String) : List String :=
  ((parseBoard boardText).errors.filterMap fun e => duplicateNamed (e.message p)).foldl pushNew []

/-- A record as a finding shows it. -/
structure ListedRecord where
  digest : String
  sectionName : Option String
  line : ℕ
  checkbox : Char
  description : String

def ClaimRecord.listed (r : ClaimRecord) : ListedRecord :=
  ⟨r.digest, r.sectionName, r.lineNo, r.checkbox, String.ofList (r.description.toList.take 200)⟩

/-- A duplicated ticket id with its records. -/
structure DuplicateFinding where
  ticket : String
  records : List ListedRecord

/-- `duplicate_id_findings`. -/
def duplicateIdFindings (boardText : String) : List DuplicateFinding :=
  (duplicateIds p boardText).map fun tid => ⟨tid, (duplicateRecords sha boardText tid).map (·.listed)⟩

/-- What a listed command decides. -/
structure Choice where
  ticket : String
  keep : String
  reassign : String

/-- The command of a choice. -/
def Choice.command (c : Choice) : String :=
  "saipen recover --resolve-duplicate-id " ++ c.ticket ++ " --keep " ++ c.keep ++ " --reassign " ++ c.reassign

/-- The `choices` of `duplicate_id_decision`: a record `is not` another one when it stands on another
line. -/
def duplicateIdDecision (finding : DuplicateFinding) : List Choice :=
  finding.records.flatMap fun record =>
    (finding.records.filter fun other => other.line ≠ record.line).map fun other =>
      ⟨finding.ticket, record.digest, other.digest⟩

/-- The choices the decisions about an id list. -/
def listedChoices (boardText ticketId : String) : List Choice :=
  ((duplicateIdFindings sha p boardText).filter fun f => f.ticket = ticketId).flatMap duplicateIdDecision

/-! ### The next id -/

/-- `-\s*\[[ x/]\]\s*` at the beginning of a text, with what it stands in front of. -/
def checkboxOpening : List Char → Option (List Char × List Char)
  | '-' :: cs =>
      match cs.dropWhile isSpace with
      | '[' :: c :: ']' :: rest =>
          if isCheckbox c then
            some ('-' :: cs.takeWhile isSpace ++ ['[', c, ']'] ++ rest.takeWhile isSpace,
              rest.dropWhile isSpace)
          else none
      | _ => none
  | _ => none

/-- `_BOARD_TICKET_LINE_RE`. Behind a digit `\b` asks that no other character of a word follows. -/
def boardTicketNumber (line : List Char) : Option ℕ := do
  let (_, cs) ← checkboxOpening line
  let cs ← literal ['T', '-'] cs
  if (cs.dropWhile isDecimal).head?.any words.has then none else number? (cs.takeWhile isDecimal)

/-- The numbers of the tickets on a BOARD. -/
def boardNumbers (boardText : String) : List ℕ :=
  (splitLines boardText).filterMap fun line => boardTicketNumber words (strip line).toList

/-- `re.fullmatch(r"T-(\d+)", ticket)`. -/
def wholeTicketNumber (ticket : String) : Option ℕ := (literal ['T', '-'] ticket.toList).bind number?

/-- The numbers the history adds to those of the BOARD. -/
def historyNumbers (logText : String) : Option ℕ → List ℕ
  | some n => if 0 < n then [n] else []
  | none => (splitLines logText).filterMap fun line =>
      ((Log.parseLogLine line).bind (·.ticket)).bind wholeTicketNumber

/-- `next_ticket_id`. -/
def nextTicketId (boardText logText : String) (historyMax : Option ℕ) : ℕ :=
  let ids := boardNumbers words boardText ++ historyNumbers logText historyMax
  if ids = [] then 1 else ids.foldl max 0 + 1

/-! ### The refusals -/

/-- A refusal. -/
structure Refusal where
  code : String
  detail : String

def validationFailed (detail : String) : Refusal := ⟨"VALIDATION_FAILED", detail⟩

def staleDecision (detail : String) : Refusal := ⟨"STALE_DUPLICATE_ID_DECISION", detail⟩

def notTicketId (ticketId : String) : Refusal :=
  validationFailed ("duplicate-id decision needs a board ticket id, got " ++ reprStr p ticketId)

def notDigests : Refusal :=
  validationFailed ("a duplicate-id decision is carried by the 64-hex record digests printed by " ++
    "`saipen recover` (--keep and --reassign); a line number is not a record identity and is refused")

def sameRecord : Refusal :=
  validationFailed ("--keep and --reassign name the same record, so the decision does not say which record " ++
    "gives the id up")

def notDuplicated (ticketId : String) : Refusal :=
  staleDecision (ticketId ++ " is not duplicated on this BOARD any more, so there is nothing for this " ++
    "decision to resolve; nothing was written")

def noLonger (ticketId which : String) : Refusal :=
  staleDecision ("the decision does not name the current duplicate records of " ++ ticketId ++ ": the " ++
    "BOARD no longer holds a record with " ++ which ++ ". Re-run `saipen recover` and answer the decision " ++
    "it prints now; nothing was written")

def idInUse (newId : String) : Refusal :=
  validationFailed ("the allocator produced " ++ newId ++ ", which is already in use; refusing to rename a " ++
    "record into an existing identity")

def recordMoved (ticketId : String) : Refusal :=
  staleDecision ("the record that must give up " ++ ticketId ++ " is no longer at the bytes the decision " ++
    "named; the BOARD moved after the decision was issued, so it is refused rather than aimed at whatever " ++
    "now sits there. Nothing was written")

def notAddressed (ticketId : String) : Refusal :=
  validationFailed ("could not address the identity token of " ++ ticketId ++ " on the record to rename; " ++
    "nothing was written")

/-! ### The resolution -/

/-- `re.fullmatch(r"[0-9a-f]{64}", digest)`. -/
def isDigest (s : String) : Bool := s.toList.length = 64 && s.toList.all isLowerHex

/-- What the resolution writes before it is validated. -/
structure Reassignment where
  survivor : ClaimRecord
  loser : ClaimRecord
  newId : String
  board : String

/-- `re.sub(r"^(\s*-\s*\[[ x/]\]\s*)" + re.escape(old) + r"\b", …, line, count=1)`. -/
def renameToken (old new line : String) : String :=
  let lead := line.toList.takeWhile isSpace
  match checkboxOpening (line.toList.dropWhile isSpace) with
  | none => line
  | some (opening, cs) =>
      match literal old.toList cs with
      | none => line
      | some rest =>
          if rest.head?.any words.has then line
          else String.ofList (lead ++ opening) ++ new ++ String.ofList rest

/-- The line of the record that gives the id up, rewritten at its place. -/
def renameRecord (boardText ticketId newId : String) (loser : ClaimRecord) : Except Refusal String :=
  let lines := splitLinesEnded boardText
  let index := loser.lineNo - 1
  match lines[index]? with
  | none => .error (recordMoved ticketId)
  | some line =>
      if boardRecordDigest sha line ≠ loser.digest then .error (recordMoved ticketId)
      else
        let rewritten := renameToken words ticketId newId line
        if rewritten = line then .error (notAddressed ticketId)
        else .ok (String.join (lines.set index rewritten))

/-- `current.get(digest)`: of records with one digest the last. -/
def currentRecord (records : List ClaimRecord) (digest : String) : Option ClaimRecord :=
  records.reverse.find? fun r => r.digest = digest

/-- `resolve_duplicate_id` on its stripped arguments, up to the validation of what it is going to write. -/
def resolveNamed (boardText logText : String) (historyMax : Option ℕ) (ticketId keep reassign : String) :
    Except Refusal Reassignment :=
  let records := duplicateRecords sha boardText ticketId
  if !Log.isTicketId ticketId then .error (notTicketId p ticketId)
  else if !(isDigest keep && isDigest reassign) then .error notDigests
  else if keep = reassign then .error sameRecord
  else if records.length < 2 then .error (notDuplicated ticketId)
  else
    match currentRecord records keep, currentRecord records reassign with
    | none, _ => .error (noLonger ticketId "the record to keep")
    | some _, none => .error (noLonger ticketId "the record to reassign")
    | some survivor, some loser =>
        let newId := "T-" ++ (nextTicketId words boardText logText historyMax).repr
        if newId = ticketId ∨ newId ∈ records.map (·.id) then .error (idInUse newId)
        else (renameRecord sha words boardText ticketId newId loser).map fun board =>
          ⟨survivor, loser, newId, board⟩

/-- `resolve_duplicate_id` up to the validation of what it is going to write. -/
def resolveDuplicateId (boardText logText : String) (historyMax : Option ℕ)
    (ticketId keepDigest reassignDigest : String) : Except Refusal Reassignment :=
  resolveNamed sha words p boardText logText historyMax (strip ticketId) (lower (strip keepDigest))
    (lower (strip reassignDigest))

end Decision

end Saipen.Board
