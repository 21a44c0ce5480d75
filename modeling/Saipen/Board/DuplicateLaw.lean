import Saipen.Board.Renaming
import Saipen.Log.Readers

/-! # What a decision about a duplicated ticket id does

A decision that is accepted renames the id token of one record to an unused id and leaves every other line
as it is. Two records with one digest cannot be told apart: a command that names both of them by it is
refused, and where all records have one digest no other command is listed. -/

namespace Saipen.Board

open Text FileTree

section Law

variable {sha : Hexdigest} {words : WordClass} {p : Printable} {board logText id : String}

/-! ### The records of an id -/

/-- A record stands on a line with its row. -/
theorem exists_rowLine_of_mem_claims {r : ClaimRecord} (h : r ∈ claims sha id board) :
    ∃ i line f lead rest trail, r.lineNo = i + 1 ∧ (splitLines board)[i]? = some line ∧
      startsWith line "## " = false ∧ RowLine line f lead rest trail ∧ f.id = id ∧
      r.digest = boardRecordDigest sha line := by
  obtain ⟨i, line, s, hnumber, hline, hhead, hclaim⟩ := exists_line_of_mem_claimsFrom h
  obtain ⟨-, hdigest, -, row, hrow, hid⟩ := claimRecord_eq_some hclaim
  obtain ⟨f, lead, rest, trail, hrowline, hf⟩ := exists_rowLine hrow
  exact ⟨i, line, f, lead, rest, trail, by omega, hline, hhead, hrowline, hf.symm.trans hid, hdigest⟩

theorem Frame.strip_id (f : Frame) : strip f.id = f.id := by
  have hno : ∀ c ∈ f.id.toList, isSpace c = false := by
    intro c hc
    rw [f.toList_id, List.mem_cons, List.mem_cons] at hc
    rcases hc with rfl | rfl | hc
    · decide
    · decide
    · exact isSpace_of_isDecimal (f.decimal c hc)
  exact strip_eq_self (fun c hc => hno c (List.mem_of_head? hc)) fun c hc => hno c (List.mem_of_getLast? hc)

theorem Frame.id_ne (f : Frame) : f.id ≠ "" := by
  intro hempty
  have hchars := f.toList_id
  rw [hempty] at hchars
  cases hchars

theorem Frame.isTicketId_id (f : Frame) : Log.isTicketId f.id = true := by
  have hchars : f.id.toList = ['T', '-'] ++ f.digits := by
    rw [f.toList_id]
    rfl
  rw [Log.isTicketId, hchars, literal_append]
  simpa [f.digits_ne] using f.decimal

/-- An id that is claimed is the id of a row. -/
theorem exists_frame_of_claims {r : ClaimRecord} (h : r ∈ claims sha id board) : ∃ f : Frame, f.id = id := by
  obtain ⟨-, -, f, -, -, -, -, -, -, -, hf, -⟩ := exists_rowLine_of_mem_claims h
  exact ⟨f, hf⟩

variable (sha board) in
theorem duplicateRecords_eq (f : Frame) : duplicateRecords sha board f.id = claims sha f.id board := by
  rw [duplicateRecords, f.strip_id, if_neg f.id_ne]

/-! ### Digests as they are written in a command -/

theorem lower_hex {s : String} (h : ∀ c ∈ s.toList, isLowerHex c = true) : lower s = s := by
  have hchar : ∀ c ∈ s.toList, (if c.toNat = 0x212a then 'k' else c.toLower) = c := by
    intro c hc
    have hrange := h c hc
    simp only [isLowerHex, Bool.or_eq_true, Bool.and_eq_true, decide_eq_true_eq] at hrange
    rw [if_neg (by omega)]
    refine dif_neg ?_
    rw [ge_iff_le, UInt32.le_iff_toNat_le, UInt32.le_iff_toNat_le]
    show ¬ (65 ≤ c.toNat ∧ c.toNat ≤ 90)
    omega
  rw [lower, List.map_congr_left hchar, List.map_id', String.ofList_toList]

theorem strip_hex {s : String} (h : ∀ c ∈ s.toList, isLowerHex c = true) : strip s = s := by
  have hno : ∀ c ∈ s.toList, isSpace c = false := by
    intro c hc
    have hrange := h c hc
    by_contra hspace
    simp only [isLowerHex, Bool.or_eq_true, Bool.and_eq_true, decide_eq_true_eq] at hrange
    simp only [Bool.not_eq_false, isSpace, Bool.or_eq_true, Bool.and_eq_true, decide_eq_true_eq,
      beq_iff_eq] at hspace
    omega
  exact strip_eq_self (fun c hc => hno c (List.mem_of_head? hc)) fun c hc => hno c (List.mem_of_getLast? hc)

variable (sha) in
/-- A record's digest is what a command with it says. -/
theorem normal_digest (raw : String) :
    lower (strip (boardRecordDigest sha raw)) = boardRecordDigest sha raw ∧
      isDigest (boardRecordDigest sha raw) = true := by
  have hhex := sha.hex (strip raw)
  refine ⟨?_, ?_⟩
  · rw [boardRecordDigest, strip_hex hhex, lower_hex hhex]
  · rw [isDigest, boardRecordDigest, sha.size, Bool.and_eq_true]
    exact ⟨rfl, List.all_eq_true.mpr hhex⟩

/-- A digest of the records is found, at a record that has it. -/
theorem exists_currentRecord {rs : List ClaimRecord} {r : ClaimRecord} (hr : r ∈ rs) :
    ∃ s, currentRecord rs r.digest = some s ∧ s ∈ rs ∧ s.digest = r.digest := by
  obtain ⟨s, hs⟩ := Option.isSome_iff_exists.mp
    (List.find?_isSome.mpr ⟨r, List.mem_reverse.mpr hr, decide_eq_true rfl⟩ :
      (currentRecord rs r.digest).isSome)
  have hdigest := List.find?_some hs
  exact ⟨s, hs, List.mem_reverse.mp (List.mem_of_find?_eq_some hs), of_decide_eq_true hdigest⟩

/-! ### One record renamed -/

/-- The id token of a record is replaced on its line; nothing else of the BOARD is. -/
structure Renamed (sha : Hexdigest) (board id newId : String) (r : ClaimRecord) (board' : String) :
    Prop where
  /-- Behind white space and the checkbox, the record's line has the other id. -/
  line : ∃ lead box rest, (∀ c ∈ lead, isSpace c = true) ∧
    (splitLines board)[r.lineNo - 1]? = some (String.ofList (lead ++ ['-', ' ', '[', box, ']', ' ']) ++ id ++ rest) ∧
    splitLines board' = (splitLines board).set (r.lineNo - 1)
      (String.ofList (lead ++ ['-', ' ', '[', box, ']', ' ']) ++ newId ++ rest)
  /-- In the text nothing but the id is replaced. -/
  text : ∃ before after, board = before ++ id ++ after ∧ board' = before ++ newId ++ after
  /-- The other records of the id are as they were. -/
  others : duplicateRecords sha board' id = (duplicateRecords sha board id).filter fun s => s.lineNo ≠ r.lineNo

theorem join_set {lines : List String} {i : ℕ} {l : String} (new : String) (h : lines[i]? = some l) :
    String.join lines = String.join (lines.take i) ++ l ++ String.join (lines.drop (i + 1)) ∧
      String.join (lines.set i new) = String.join (lines.take i) ++ new ++ String.join (lines.drop (i + 1)) := by
  obtain ⟨hi, hget⟩ := List.getElem?_eq_some_iff.mp h
  constructor
  · conv_lhs => rw [← List.take_append_drop i lines, ← List.cons_getElem_drop_succ (h := hi), hget]
    rw [String.join_append, String.join_cons, String.append_assoc]
  · rw [List.set_eq_take_append_cons_drop, if_pos hi, String.join_append, String.join_cons, String.append_assoc]

section Row

variable {line : String} {f : Frame} {lead rest trail : List Char} {tail : String}

/-- A line with its end has the same row. -/
theorem RowLine.ended (h : RowLine line f lead rest trail) (htail : ∀ c ∈ tail.toList, isLineBreak c = true) :
    RowLine (line ++ tail) f lead rest (trail ++ tail.toList) := by
  refine ⟨?_, h.lead_space, fun c hc => ?_, h.rest_ne, h.rest_last, h.rest_flush⟩
  · rw [String.toList_append, h.line_eq]
    simp only [List.append_assoc]
  · exact (List.mem_append.mp hc).elim (h.trail_space c) fun hc => isSpace_of_isLineBreak (htail c hc)

theorem RowLine.digest_ended (h : RowLine line f lead rest trail)
    (htail : ∀ c ∈ tail.toList, isLineBreak c = true) :
    boardRecordDigest sha (line ++ tail) = boardRecordDigest sha line := by
  rw [boardRecordDigest, boardRecordDigest, (h.ended htail).strip_eq, h.strip_eq]

/-- A row's line up to its id, the id and what follows. -/
theorem RowLine.split (h : RowLine line f lead rest trail) :
    line = String.ofList (lead ++ f.front) ++ f.id ++ String.ofList (f.gap ++ (rest ++ trail)) := by
  apply String.toList_injective
  simp only [String.toList_append, String.toList_ofList, h.line_eq, Frame.opening_eq, List.append_assoc]

theorem Frame.lineWith_split (f : Frame) (n : ℕ) (lead rest trail : List Char) :
    f.lineWith n lead rest trail =
      String.ofList (lead ++ f.front) ++ ("T-" ++ n.repr) ++ String.ofList (f.gap ++ (rest ++ trail)) := by
  apply String.toList_injective
  simp only [Frame.lineWith, String.toList_append, String.toList_ofList, Frame.opening_withNumber, List.append_assoc]

/-- The line with the other id, and what ended it. -/
theorem RowLine.renameToken (h : RowLine line f lead rest trail)
    (htail : ∀ c ∈ tail.toList, isLineBreak c = true) (n : ℕ) :
    renameToken words f.id ("T-" ++ n.repr) (line ++ tail) = f.lineWith n lead rest trail ++ tail := by
  rw [renameToken_row (h.ended htail).line_eq h.lead_space, f.lineWith_split]
  apply String.toList_injective
  simp only [String.toList_append, String.toList_ofList, List.append_assoc]

/-- The line with another id is another line. -/
theorem RowLine.lineWith_ne (h : RowLine line f lead rest trail) {n : ℕ} (hne : "T-" ++ n.repr ≠ f.id) :
    f.lineWith n lead rest trail ++ tail ≠ line ++ tail := by
  intro heq
  have hline : f.lineWith n lead rest trail = line := by
    have hchars := congrArg String.toList heq
    rw [String.toList_append, String.toList_append] at hchars
    exact String.toList_injective (List.append_cancel_right hchars)
  have hread := h.read
  rw [← hline, (h.withNumber n).read, Frame.id_withNumber] at hread
  exact hne (congrArg Row.id (Option.some.inj hread))

/-- The line with another id claims the old one no longer. -/
theorem RowLine.lineWith_claims_none (h : RowLine line f lead rest trail) {n : ℕ}
    (hne : "T-" ++ n.repr ≠ f.id) (s : Option String) (k : ℕ) :
    claimRecord sha f.id s (f.lineWith n lead rest trail) k = none := by
  rw [Option.eq_none_iff_forall_not_mem]
  intro q hq
  obtain ⟨-, -, -, row, hread, hid⟩ := claimRecord_eq_some hq
  rw [(h.withNumber n).read] at hread
  obtain rfl := Option.some.inj hread
  exact hne ((f.id_withNumber n).symm.trans hid)

end Row

variable (words) in
/-- The record that gives its id up is renamed. -/
theorem renameRecord_ok {r : ClaimRecord} {n : ℕ} (hr : r ∈ claims sha id board)
    (hne : "T-" ++ n.repr ≠ id) :
    ∃ board', renameRecord sha words board id ("T-" ++ n.repr) r = .ok board' ∧
      Renamed sha board id ("T-" ++ n.repr) r board' := by
  obtain ⟨i, line, f, lead, rest, trail, hnumber, hline, hhead, hrow, rfl, hdigest⟩ :=
    exists_rowLine_of_mem_claims hr
  have hindex : r.lineNo - 1 = i := by omega
  obtain ⟨tail, hended, htail, hset⟩ := splitLines_set hline
  have hone : OneLine (f.lineWith n lead rest trail).toList := by
    obtain ⟨cs, hcs, hcsline⟩ := List.mem_map.mp (List.mem_of_getElem? hline)
    have holine : OneLine line.toList := by
      rw [← hcsline, String.toList_ofList]
      exact oneLine_of_mem_linesFrom (by simp [OneLine]) hcs
    exact hrow.oneLine_withNumber holine n
  have hnonempty : f.lineWith n lead rest trail ≠ "" := by
    intro hempty
    have hread := (hrow.withNumber n).read
    rw [hempty] at hread
    cases hread
  have hsplit := hset _ hone hnonempty
  obtain ⟨hold, hnew⟩ := join_set (f.lineWith n lead rest trail ++ tail) hended
  rw [join_splitLinesEnded] at hold
  refine ⟨String.join ((splitLinesEnded board).set i (f.lineWith n lead rest trail ++ tail)), ?_, ?_, ?_, ?_⟩
  · rw [renameRecord, hindex, hended]
    simp only [hrow.digest_ended htail, hdigest, hrow.renameToken htail, if_neg (hrow.lineWith_ne hne), ne_eq,
      not_true_eq_false, if_false]
  · refine ⟨lead, f.checkbox, String.ofList (f.gap ++ (rest ++ trail)), hrow.lead_space, ?_, ?_⟩
    · rw [hindex, hline]
      exact congrArg some hrow.split
    · rw [hindex, hsplit]
      exact congrArg _ (f.lineWith_split n lead rest trail)
  · let before := String.join ((splitLinesEnded board).take i) ++ String.ofList (lead ++ f.front)
    let after := String.ofList (f.gap ++ (rest ++ trail)) ++ tail ++
      String.join ((splitLinesEnded board).drop (i + 1))
    refine ⟨before, after, hold.trans ?_, hnew.trans ?_⟩
    · conv_lhs => rw [hrow.split]
      simp only [before, after, String.append_assoc]
    · rw [f.lineWith_split]
      simp only [before, after, String.append_assoc]
  · rw [duplicateRecords_eq, duplicateRecords_eq, claims, hsplit, claims, hnumber,
      claimsFrom_set (hrow.withNumber n).not_heading (hrow.lineWith_claims_none hne) hline hhead,
      Nat.add_comm 1 i]

end Law

end Saipen.Board
