import Saipen.Board.DuplicateLaw
import Saipen.Board.Standing

/-! # Which decisions about a duplicated ticket id can be carried out

Every choice that is accepted renames one record to an unused id. A choice of two records is accepted when
their digests differ, so that a duplicated id has an executable choice unless the reader does not report it
or all its records have one digest. -/

namespace Saipen.Board

open Text FileTree

section Choices

variable (sha : Hexdigest) (words : WordClass) (p : Printable) (board logText : String)
  (history : Log.HistorySnapshot) (id : String)

/-- `resolve_duplicate_id` on what a listed command says. -/
def carryOut (c : Choice) : Except Refusal Reassignment :=
  resolveDuplicateId sha words p board logText (some history.maxTicketId) c.ticket c.keep c.reassign

/-- What an accepted choice comes to: one record with the digest to reassign gets an id that no row of the
BOARD and no event of the history has. -/
structure CarriedOut (c : Choice) (out : Reassignment) : Prop where
  loser : out.loser ∈ duplicateRecords sha board c.ticket
  digest : out.loser.digest = c.reassign
  renamed : Renamed sha board c.ticket out.newId out.loser out.board
  fewer : (duplicateRecords sha out.board c.ticket).length + 1 = (duplicateRecords sha board c.ticket).length
  rows : ∀ line ∈ splitLines board, ∀ row, readRow (maskPipes (strip line).toList) = some row →
    row.id ≠ out.newId
  events : ∀ e ∈ history.events, e.ticket ≠ some out.newId

/-- A choice about the id can be carried out, and each that can is. -/
structure DecisionHolds : Prop where
  executable : ∃ c ∈ listedChoices sha p board id, ∃ out, carryOut sha words p board logText history c = .ok out
  exact : ∀ c ∈ listedChoices sha p board id, ∀ out,
    carryOut sha words p board logText history c = .ok out → CarriedOut sha board history c out

/-- A message of the reader names the id as a duplicate: the id stands twice in the four sections, or a
message about something else quotes the words. -/
def Reported : Prop :=
  2 ≤ (standingIds none (splitLines board)).count id ∨
    ∃ e ∈ (parseBoard board).errors, (∀ x, e ≠ .duplicate x) ∧ duplicateNamed (e.message p) = some id

end Choices

section Law

variable {sha : Hexdigest} {words : WordClass} {p : Printable} {board logText id : String}

/-! ### What is listed -/

theorem ticketAt_id (f : Frame) : ticketAt f.id.toList = some f.id := by
  have htake : f.digits.takeWhile isDecimal = f.digits :=
    List.takeWhile_eq_self_iff.mpr f.decimal
  obtain ⟨d, ds, hdigits⟩ := List.exists_cons_of_ne_nil f.digits_ne
  rw [f.toList_id, ticketAt, htake, Frame.id, hdigits]

theorem message_duplicate (x : String) : (BoardError.duplicate x).message p = duplicateWords ++ x := rfl

/-- What a message opens with is named first. -/
theorem duplicateNamed_append {words rest : List Char} (f : List Char → Option String) {x : String}
    (h : f rest = some x) :
    (((words ++ rest).tails.filterMap fun cs => (literal words cs).bind f).head?) = some x := by
  have htails : ∀ cs : List Char, ∃ more, cs.tails = cs :: more := by
    intro cs
    cases cs <;> exact ⟨_, rfl⟩
  obtain ⟨more, hmore⟩ := htails (words ++ rest)
  have hfirst : (literal words (words ++ rest)).bind f = some x := by
    rw [literal_append, Option.bind_some, h]
  rw [hmore, List.filterMap_cons, hfirst]
  rfl

/-- The message about a duplicate names its id. -/
theorem duplicateNamed_duplicate (f : Frame) :
    duplicateNamed ((BoardError.duplicate f.id).message p) = some f.id := by
  rw [message_duplicate, duplicateNamed, String.toList_append]
  exact duplicateNamed_append ticketAt (ticketAt_id f)

theorem mem_foldl_pushNew {x : String} (ids : List String) : ∀ seen : List String,
    x ∈ ids.foldl pushNew seen ↔ x ∈ seen ∨ x ∈ ids := by
  induction ids with
  | nil => simp
  | cons id ids ih =>
    intro seen
    have hstep : x ∈ pushNew seen id ↔ x ∈ seen ∨ x = id := by
      by_cases hid : id ∈ seen
      · rw [pushNew, if_pos hid]
        exact ⟨.inl, fun h => h.elim (fun h => h) fun h => h ▸ hid⟩
      · simp [pushNew, hid]
    rw [List.foldl_cons, ih, hstep, List.mem_cons, or_assoc]

/-- The ids with a finding are those the messages name. -/
theorem mem_duplicateIds : id ∈ duplicateIds p board ↔ Reported p board id := by
  rw [duplicateIds, mem_foldl_pushNew, List.mem_filterMap]
  constructor
  · rintro (h | ⟨e, he, hnamed⟩)
    · cases h
    by_cases hdup : ∃ x, e = .duplicate x
    · obtain ⟨x, rfl⟩ := hdup
      have htwice := duplicate_mem_parseBoard.mp he
      obtain ⟨f, rfl⟩ := exists_frame_of_mem_standingIds
        (List.count_pos_iff.mp (lt_of_lt_of_le Nat.zero_lt_two htwice))
      rw [duplicateNamed_duplicate] at hnamed
      exact .inl (Option.some.inj hnamed ▸ htwice)
    · exact .inr ⟨e, he, fun x hx => hdup ⟨x, hx⟩, hnamed⟩
  · rintro (htwice | ⟨e, he, -, hnamed⟩)
    · obtain ⟨f, rfl⟩ := exists_frame_of_mem_standingIds
        (List.count_pos_iff.mp (lt_of_lt_of_le Nat.zero_lt_two htwice))
      exact .inr ⟨_, duplicate_mem_parseBoard.mpr htwice, duplicateNamed_duplicate f⟩
    · exact .inr ⟨e, he, hnamed⟩

theorem mem_duplicateIdDecision {c : Choice} (tid : String) (rs : List ClaimRecord) :
    c ∈ duplicateIdDecision ⟨tid, rs.map (·.listed)⟩ ↔
      ∃ r ∈ rs, ∃ s ∈ rs, s.lineNo ≠ r.lineNo ∧ c = ⟨tid, r.digest, s.digest⟩ := by
  simp only [duplicateIdDecision, List.mem_flatMap, List.mem_map, List.mem_filter, decide_eq_true_eq]
  constructor
  · rintro ⟨_, ⟨r, hr, rfl⟩, _, ⟨⟨s, hs, rfl⟩, hline⟩, rfl⟩
    exact ⟨r, hr, s, hs, hline, rfl⟩
  · rintro ⟨r, hr, s, hs, hline, rfl⟩
    exact ⟨_, ⟨r, hr, rfl⟩, _, ⟨⟨s, hs, rfl⟩, hline⟩, rfl⟩

/-- The listed choices are the pairs of records on two lines. -/
theorem mem_listedChoices {c : Choice} : c ∈ listedChoices sha p board id ↔
    Reported p board id ∧ ∃ r ∈ duplicateRecords sha board id, ∃ s ∈ duplicateRecords sha board id,
      s.lineNo ≠ r.lineNo ∧ c = ⟨id, r.digest, s.digest⟩ := by
  rw [listedChoices, List.mem_flatMap, ← mem_duplicateIds]
  constructor
  · rintro ⟨f, hf, hc⟩
    obtain ⟨hmem, hticket⟩ := List.mem_filter.mp hf
    obtain ⟨tid, htid, rfl⟩ := List.mem_map.mp hmem
    obtain rfl : tid = id := of_decide_eq_true hticket
    exact ⟨htid, (mem_duplicateIdDecision _ _).mp hc⟩
  · rintro ⟨hid, hc⟩
    have hlisted := (mem_duplicateIdDecision id (duplicateRecords sha board id)).mpr hc
    have hfinding : ⟨id, (duplicateRecords sha board id).map (·.listed)⟩ ∈ duplicateIdFindings sha p board :=
      List.mem_map.mpr ⟨id, hid, rfl⟩
    exact ⟨_, List.mem_filter.mpr ⟨hfinding, by simp⟩, hlisted⟩

/-! ### What is accepted -/

/-- A decision that names one digest twice is refused. -/
theorem resolve_same (historyMax : Option ℕ) (d : String) (out : Reassignment) :
    resolveDuplicateId sha words p board logText historyMax id d d ≠ .ok out := by
  have hsame : ∀ ticketId keep : String,
      resolveNamed sha words p board logText historyMax ticketId keep keep ≠ .ok out := by
    intro ticketId keep h
    rw [resolveNamed] at h
    dsimp only at h
    rw [if_pos (rfl : keep = keep)] at h
    split_ifs at h
  exact hsame _ _

theorem readEvent_ticket {w : Log.World} {d : Disk} (binding : Log.Binding) (e : Log.LogEvent) :
    (Log.readEvent w d binding e).ticket = e.ticket := by
  unfold Log.readEvent
  split <;> rfl

/-- The number of an id as the ticket field of an event has it. -/
theorem ticketNumber_repr (n : ℕ) : Log.ticketNumber ("T-" ++ n.repr) = some n := by
  have hdecimal : ∀ c ∈ n.repr.toList, isDecimal c = true := fun _ hc =>
    isDecimal_of_isDigit (isDigit_of_mem_repr hc)
  have hdrop : n.repr.toList.dropWhile isDecimal = [] := List.dropWhile_eq_nil_iff.mpr hdecimal
  have htake : n.repr.toList.takeWhile isDecimal = n.repr.toList := List.takeWhile_eq_self_iff.mpr hdecimal
  rw [Log.ticketNumber, String.toList_append, literal_append]
  simp only [Option.bind_eq_bind, Option.bind_some, hdrop, htake, List.mem_cons, true_or, if_true, number?_repr]

/-- No event of the history has the next id. -/
theorem event_ticket_ne {w : Log.World} {d : Disk} {h : Log.History} {e : Log.LogEvent}
    (he : e ∈ (h.snapshot w p d (Log.digestReading false)).events) :
    e.ticket ≠ some ("T-" ++ (nextTicketId words board logText
      (some (h.snapshot w p d (Log.digestReading false)).maxTicketId)).repr) := by
  rw [Log.History.snapshot_eq] at he ⊢
  dsimp only at he ⊢
  obtain ⟨line, hline, hread⟩ := List.mem_filterMap.mp he
  obtain ⟨parsed, hparsed, rfl⟩ := Option.map_eq_some_iff.mp hread
  intro hticket
  rw [readEvent_ticket] at hticket
  have hnumber : parsed.ticket.bind Log.ticketNumber = some (nextTicketId words board logText
      (some ((h.lines.flatMap (Log.digestReading false).ticketsOf).foldl max 0))) := by
    rw [hticket, Option.bind_some, ticketNumber_repr]
  have hmention := Log.ticketNumber_mem_mentions hparsed (Log.oneLine_of_mem_lines hline) hnumber
  have hmem : nextTicketId words board logText
      (some ((h.lines.flatMap (Log.digestReading false).ticketsOf).foldl max 0)) ∈
        h.lines.flatMap (Log.digestReading false).ticketsOf :=
    List.mem_flatMap.mpr ⟨line, hline, Log.mem_ticketsOf.mpr ⟨parsed, hparsed, hmention⟩⟩
  have hle : _ ≤ (h.lines.flatMap (Log.digestReading false).ticketsOf).foldl max 0 :=
    Accumulate.le_foldl_max.mpr (.inr ⟨_, hmem, le_rfl⟩)
  exact lt_irrefl _ (lt_nextTicketId_of_le words board logText hle)

variable (words logText) in
/-- The next id is not the id of the records. -/
theorem next_ne_of_mem_claims {r : ClaimRecord} (historyMax : Option ℕ) (hr : r ∈ claims sha id board) :
    "T-" ++ (nextTicketId words board logText historyMax).repr ≠ id := by
  obtain ⟨i, line, f, lead, rest, trail, -, hline, -, hrow, rfl, -⟩ := exists_rowLine_of_mem_claims hr
  exact (row_id_ne_next (List.mem_of_getElem? hline) hrow.read).symm

theorem id_of_mem_claims {r : ClaimRecord} (hr : r ∈ claims sha id board) : r.id = id := by
  obtain ⟨_, _, _, _, _, _, hclaim⟩ := exists_line_of_mem_claimsFrom hr
  exact (claimRecord_eq_some hclaim).1

theorem two_le_length {rs : List ClaimRecord} {r s : ClaimRecord} (hr : r ∈ rs) (hs : s ∈ rs)
    (hne : r.digest ≠ s.digest) : 2 ≤ rs.length := by
  match rs with
  | [] => cases hr
  | [q] =>
    rw [List.mem_singleton.mp hr, List.mem_singleton.mp hs] at hne
    exact absurd rfl hne
  | _ :: _ :: _ => simp

variable (words p logText) in
/-- A decision between two digests is accepted, and carried out. -/
theorem resolve_of_ne (w : Log.World) (d : Disk) (h : Log.History) {r s : ClaimRecord}
    (hr : r ∈ claims sha id board) (hs : s ∈ claims sha id board) (hne : r.digest ≠ s.digest) :
    ∃ out, carryOut sha words p board logText (h.snapshot w p d (Log.digestReading false))
        ⟨id, r.digest, s.digest⟩ = .ok out ∧
      CarriedOut sha board (h.snapshot w p d (Log.digestReading false)) ⟨id, r.digest, s.digest⟩ out := by
  obtain ⟨f, rfl⟩ := exists_frame_of_claims hr
  obtain ⟨-, rline, -, -, -, -, -, -, -, -, -, hrdigest⟩ := exists_rowLine_of_mem_claims hr
  obtain ⟨-, sline, -, -, -, -, -, -, -, -, -, hsdigest⟩ := exists_rowLine_of_mem_claims hs
  obtain ⟨hrnormal, hrhex⟩ := normal_digest sha rline
  obtain ⟨hsnormal, hshex⟩ := normal_digest sha sline
  rw [← hrdigest] at hrnormal hrhex
  rw [← hsdigest] at hsnormal hshex
  obtain ⟨survivor, hsurvivor, -, -⟩ := exists_currentRecord hr
  obtain ⟨loser, hloser, hmem, hdigest⟩ := exists_currentRecord hs
  have hnew := next_ne_of_mem_claims words logText
    (some (h.snapshot w p d (Log.digestReading false)).maxTicketId) hr
  have hids : "T-" ++ (nextTicketId words board logText
      (some (h.snapshot w p d (Log.digestReading false)).maxTicketId)).repr ∉
        (claims sha f.id board).map (·.id) := by
    intro hin
    obtain ⟨q, hq, heq⟩ := List.mem_map.mp hin
    exact hnew (heq.symm.trans (id_of_mem_claims hq))
  obtain ⟨board', hboard, hrenamed⟩ := renameRecord_ok words hmem hnew
  refine ⟨⟨survivor, loser, "T-" ++ (nextTicketId words board logText
    (some (h.snapshot w p d (Log.digestReading false)).maxTicketId)).repr, board'⟩, ?_, ?_⟩
  · rw [carryOut, resolveDuplicateId, f.strip_id, hrnormal, hsnormal, resolveNamed, duplicateRecords_eq]
    dsimp only
    rw [f.isTicketId_id, hrhex, hshex, if_neg (by decide), if_neg (by decide), if_neg hne,
      if_neg (two_le_length hr hs hne).not_gt, hsurvivor, hloser]
    dsimp only
    rw [if_neg (not_or.mpr ⟨hnew, hids⟩), hboard]
    rfl
  · have hrecords := duplicateRecords_eq sha board f
    have hfewer : (duplicateRecords sha board' f.id).length + 1 = (duplicateRecords sha board f.id).length := by
      rw [hrenamed.others, hrecords]
      exact length_filter_lineNo hmem (pairwise_lineNo _ _ _)
    exact {
      loser := hrecords ▸ hmem
      digest := hdigest
      renamed := hrenamed
      fewer := hfewer
      rows := fun line hline row hrow => row_id_ne_next hline hrow
      events := fun e he => event_ticket_ne he }

/-! ### The decision -/

end Law

/-! ### Two records of one id -/

/-- A digest that tells short texts apart. -/
def sampleHexdigest : Hexdigest where
  of s := String.ofList (hex 64 (s.toList.foldl (fun n c => n * 0x110000 + c.toNat + 1) 0))
  size s := by simp [hex]
  hex s c hc := by
    have hdigit : ∀ k < 16, isLowerHex (hexDigit k) = true := by decide
    rw [String.toList_ofList] at hc
    obtain ⟨i, -, rfl⟩ := List.mem_map.mp hc
    exact hdigit _ (Nat.mod_lt _ (by decide))

/-- Outside ASCII every character but white space is part of a word. -/
def sampleWords : WordClass := ⟨fun c => !isSpace c, fun c h => by simp [h]⟩

/-- A BOARD with two rows under one id. -/
def twoRows (first second : String) : String :=
  "## DOING\n## TODO\n" ++ first ++ "\n" ++ second ++ "\n## DONE\n## BLOCKED\n"

end Saipen.Board
