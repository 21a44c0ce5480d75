import Saipen.Board.Rows
import Saipen.Text.Ended

/-! # The records that claim one ticket id

`parse_board` keeps the first record of an id. `duplicate_records` walks the same lines and keeps every
one, with the digest of its text: a decision about two claimants names them by these digests. -/

namespace Saipen.Board

open Text

/-- `hashlib.sha256(text.encode("utf-8")).hexdigest()`. -/
structure Hexdigest where
  of : String → String
  size : ∀ s, (of s).toList.length = 64
  hex : ∀ s, ∀ c ∈ (of s).toList, isLowerHex c = true

/-- A physical record that claims a ticket id. -/
structure ClaimRecord where
  id : String
  digest : String
  lineNo : ℕ
  sectionName : Option String
  checkbox : Char
  description : String
  raw : String

/-- `line.lstrip().startswith("- [")`. -/
def opensRow (line : String) : Bool := "- [".toList.isPrefixOf (line.toList.dropWhile isSpace)

section Walk

variable (sha : Hexdigest)

/-- `board_record_digest`. -/
def boardRecordDigest (raw : String) : String := sha.of (strip raw)

/-- The record on a line, when it claims the wanted id. -/
def claimRecord (wanted : String) (sectionName : Option String) (line : String) (lineNo : ℕ) :
    Option ClaimRecord :=
  if strip line = "" || !opensRow line then none
  else
    match readRow (maskPipes (strip line).toList) with
    | none => none
    | some row =>
        if row.id ≠ wanted then none
        else some ⟨row.id, boardRecordDigest sha line, lineNo, sectionName, row.checkbox,
          (rowParts row).headD "", line⟩

/-- The records on numbered lines below a heading. -/
def claimsFrom (wanted : String) : Option String → List (String × ℕ) → List ClaimRecord
  | _, [] => []
  | sectionName, (line, lineNo) :: lines =>
      if startsWith line "## " then claimsFrom wanted (some (strip line)) lines
      else (claimRecord sha wanted sectionName line lineNo).toList ++ claimsFrom wanted sectionName lines

/-- The records of a BOARD that claim an id. -/
def claims (wanted text : String) : List ClaimRecord :=
  claimsFrom sha wanted none ((splitLines text).zipIdx 1)

/-- `duplicate_records`. -/
def duplicateRecords (text ticketId : String) : List ClaimRecord :=
  if strip ticketId = "" then [] else claims sha (strip ticketId) text

end Walk

/-! ### What a record is read from -/

variable {sha : Hexdigest} {wanted : String}

/-- A record is a row of its line that has the id. -/
theorem claimRecord_eq_some {sectionName : Option String} {line : String} {lineNo : ℕ} {r : ClaimRecord}
    (h : claimRecord sha wanted sectionName line lineNo = some r) :
    r.id = wanted ∧ r.digest = boardRecordDigest sha line ∧ r.lineNo = lineNo ∧
      ∃ row, readRow (maskPipes (strip line).toList) = some row ∧ row.id = wanted := by
  unfold claimRecord at h
  split at h
  case isTrue => cases h
  case isFalse =>
    split at h
    case h_1 => cases h
    case h_2 row hrow =>
      by_cases hid : row.id = wanted
      · rw [if_neg (not_not.mpr hid)] at h
        obtain rfl := Option.some.inj h
        exact ⟨hid, rfl, rfl, row, hrow, hid⟩
      · rw [if_pos hid] at h
        cases h

/-- A record stands on the line it numbers, below no heading of that line. -/
theorem exists_line_of_mem_claimsFrom {lines : List String} : ∀ {sectionName : Option String} {n : ℕ}
    {r : ClaimRecord}, r ∈ claimsFrom sha wanted sectionName (lines.zipIdx n) →
    ∃ i line s, r.lineNo = n + i ∧ lines[i]? = some line ∧ startsWith line "## " = false ∧
      claimRecord sha wanted s line r.lineNo = some r := by
  induction lines with
  | nil =>
    intro sectionName n r hr
    cases hr
  | cons line lines ih =>
    intro sectionName n r hr
    rw [List.zipIdx_cons, claimsFrom] at hr
    have hrest : ∀ {s : Option String}, r ∈ claimsFrom sha wanted s (lines.zipIdx (n + 1)) →
        ∃ i l s, r.lineNo = n + i ∧ (line :: lines)[i]? = some l ∧ startsWith l "## " = false ∧
          claimRecord sha wanted s l r.lineNo = some r := by
      intro s hs
      obtain ⟨i, l, s, hline, hl, hhead, hclaim⟩ := ih hs
      exact ⟨i + 1, l, s, by omega, by simpa using hl, hhead, hclaim⟩
    split at hr
    case isTrue => exact hrest hr
    case isFalse hhead =>
      rcases List.mem_append.mp hr with hr | hr
      · rw [Option.mem_toList] at hr
        have hnumber : r.lineNo = n := (claimRecord_eq_some hr).2.2.1
        refine ⟨0, line, sectionName, hnumber, rfl, by simpa using hhead, ?_⟩
        rw [hnumber]
        exact hr
      · exact hrest hr

/-- The records are numbered in the order of their lines. -/
theorem pairwise_lineNo (lines : List String) : ∀ (sectionName : Option String) (n : ℕ),
    (claimsFrom sha wanted sectionName (lines.zipIdx n)).Pairwise fun r s => r.lineNo < s.lineNo := by
  induction lines with
  | nil => exact fun _ _ => List.Pairwise.nil
  | cons line lines ih =>
    intro sectionName n
    rw [List.zipIdx_cons, claimsFrom]
    split
    case isTrue => exact ih _ _
    case isFalse =>
      refine List.pairwise_append.mpr ⟨?_, ih _ _, fun r hr s hs => ?_⟩
      · cases claimRecord sha wanted sectionName line n <;> simp
      · rw [Option.mem_toList] at hr
        obtain ⟨i, -, -, hline, -⟩ := exists_line_of_mem_claimsFrom hs
        rw [(claimRecord_eq_some hr).2.2.1, hline]
        omega

/-! ### One line less -/

/-- The records when a claimant's line no longer claims the id: all but the one on this line. -/
theorem claimsFrom_set {new : String} (hhead : startsWith new "## " = false)
    (hnew : ∀ s n, claimRecord sha wanted s new n = none) {lines : List String} :
    ∀ {sectionName : Option String} {n i : ℕ} {line : String}, lines[i]? = some line →
      startsWith line "## " = false →
      claimsFrom sha wanted sectionName ((lines.set i new).zipIdx n) =
        (claimsFrom sha wanted sectionName (lines.zipIdx n)).filter fun r => r.lineNo ≠ n + i := by
  induction lines with
  | nil =>
    intro sectionName n i line hline
    cases hline
  | cons first lines ih =>
    intro sectionName n i line hline hold
    have hlater : ∀ {s : Option String}, ∀ r ∈ claimsFrom sha wanted s (lines.zipIdx (n + 1)),
        n < r.lineNo := by
      intro s r hr
      obtain ⟨j, -, -, hj, -⟩ := exists_line_of_mem_claimsFrom hr
      omega
    cases i with
    | zero =>
      obtain rfl := Option.some.inj hline
      have hkeep : ∀ s, (claimsFrom sha wanted s (lines.zipIdx (n + 1))).filter
          (fun r => r.lineNo ≠ n + 0) = claimsFrom sha wanted s (lines.zipIdx (n + 1)) := by
        intro s
        refine List.filter_eq_self.mpr fun r hr => ?_
        have := hlater r hr
        simp only [ne_eq, decide_eq_true_eq]
        omega
      have hdrop : (claimRecord sha wanted sectionName first n).toList.filter
          (fun r => r.lineNo ≠ n + 0) = [] := by
        refine List.filter_eq_nil_iff.mpr fun r hr => ?_
        rw [Option.mem_toList] at hr
        simp [(claimRecord_eq_some hr).2.2.1]
      rw [List.set_cons_zero, List.zipIdx_cons, List.zipIdx_cons, claimsFrom, claimsFrom, hhead, hold,
        hnew]
      simp only [Bool.false_eq_true, if_false]
      rw [List.filter_append, hdrop, hkeep]
      rfl
    | succ i =>
      have hline' : lines[i]? = some line := by simpa using hline
      have hshift : n + (i + 1) = n + 1 + i := by omega
      rw [List.set_cons_succ, List.zipIdx_cons, List.zipIdx_cons, claimsFrom, claimsFrom, hshift]
      split
      case isTrue => exact ih hline' hold
      case isFalse =>
        rw [List.filter_append, ih hline' hold]
        congr 1
        refine (List.filter_eq_self.mpr fun r hr => ?_).symm
        rw [Option.mem_toList] at hr
        simp only [(claimRecord_eq_some hr).2.2.1, ne_eq, decide_eq_true_eq]
        omega

/-- Records in the order of their lines: leaving one line out leaves one record out. -/
theorem length_filter_lineNo {rs : List ClaimRecord} {r : ClaimRecord} (hr : r ∈ rs)
    (h : rs.Pairwise fun r s => r.lineNo < s.lineNo) :
    (rs.filter fun s => s.lineNo ≠ r.lineNo).length + 1 = rs.length := by
  induction rs with
  | nil => cases hr
  | cons first rs ih =>
    obtain ⟨hfirst, hrest⟩ := List.pairwise_cons.mp h
    rcases List.mem_cons.mp hr with rfl | hr
    · have hall : rs.filter (fun s => s.lineNo ≠ r.lineNo) = rs := by
        refine List.filter_eq_self.mpr fun s hs => ?_
        have := hfirst s hs
        simp only [ne_eq, decide_eq_true_eq]
        omega
      rw [List.filter_cons_of_neg (by simp), hall, List.length_cons]
    · have hne := hfirst r hr
      rw [List.filter_cons_of_pos (by simp only [ne_eq, decide_eq_true_eq]; omega), List.length_cons,
        List.length_cons, ih hr hrest]

end Saipen.Board
