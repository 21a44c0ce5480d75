import Saipen.Board.DuplicateDecision

/-! # The id token of a record

A row opens with white space, its checkbox and its id. The number of the id is found where the allocator
looks for it, the id is what the resolution replaces, and the rewritten line is a row with the new id. -/

namespace Saipen.Board

open Text Accumulate

/-! ### The opening of a row -/

/-- What stands in front of the id in a stripped row. -/
def Frame.front (f : Frame) : List Char := ['-', ' ', '[', f.checkbox, ']', ' ']

theorem Frame.toList_id (f : Frame) : f.id.toList = 'T' :: '-' :: f.digits := by
  simp [Frame.id]

theorem Frame.opening_eq (f : Frame) : f.opening = f.front ++ (f.id.toList ++ f.gap) := by
  rw [f.toList_id]
  rfl

/-- The frame with the number of another id. -/
def Frame.withNumber (f : Frame) (n : ℕ) : Frame :=
  { f with
    digits := n.repr.toList
    digits_ne := by
      rw [Nat.toList_repr]
      exact Nat.toDigits_ne_nil
    decimal := fun _ hc => isDecimal_of_isDigit (isDigit_of_mem_repr hc) }

theorem Frame.id_withNumber (f : Frame) (n : ℕ) : (f.withNumber n).id = "T-" ++ n.repr := by
  show "T-" ++ String.ofList n.repr.toList = _
  rw [String.ofList_toList]

theorem Frame.opening_withNumber (f : Frame) (n : ℕ) :
    (f.withNumber n).opening = f.front ++ (("T-" ++ n.repr).toList ++ f.gap) := by
  rw [Frame.opening_eq, Frame.id_withNumber]
  rfl

/-- The line of a row with another number. -/
def Frame.lineWith (f : Frame) (n : ℕ) (lead rest trail : List Char) : String :=
  String.ofList (lead ++ ((f.withNumber n).opening ++ (rest ++ trail)))

/-- The number of an id. -/
theorem Frame.number_digits (f : Frame) : number? f.digits = some (toInt f.digits) := by
  rw [number?, if_pos ⟨f.digits_ne, List.all_eq_true.mpr f.decimal⟩]

theorem pipeSentinel_notMem_opening (f : Frame) : pipeSentinel ∉ f.opening := by
  have hspace : isSpace pipeSentinel = false := by decide
  have hdecimal : isDecimal pipeSentinel = false := by decide
  have hbox : isCheckbox pipeSentinel = false := by decide
  intro hmem
  rw [Frame.opening, List.mem_append, List.mem_append] at hmem
  rcases hmem with hmem | hmem | hmem
  · by_cases hc : f.checkbox = pipeSentinel
    · rw [← hc, f.isBox] at hbox
      cases hbox
    · simp [pipeSentinel, Ne.symm] at hmem hc
      exact hc hmem.symm
  · rw [f.decimal _ hmem] at hdecimal
    cases hdecimal
  · rw [f.gap_space _ hmem] at hspace
    cases hspace

/-- What a masked text begins with, when it is no sentinel, stands in the text. -/
theorem exists_of_maskPipes {pre : List Char} (hpre : pipeSentinel ∉ pre) : ∀ {cs rest : List Char},
    maskPipes cs = pre ++ rest → ∃ more, cs = pre ++ more ∧ maskPipes more = rest := by
  induction pre with
  | nil => exact fun h => ⟨_, rfl, h⟩
  | cons a pre ih =>
    intro cs rest h
    cases cs using maskPipes.fun_cases with
    | case1 cs =>
      have ha : pipeSentinel = a := (List.cons.inj h).1
      exact absurd (ha ▸ List.mem_cons_self) hpre
    | case2 c cs hne =>
      rw [maskPipes_cons_of_ne hne] at h
      obtain ⟨hc, hrest⟩ := List.cons.inj h
      obtain ⟨more, hmore, hmask⟩ := ih (fun hmem => hpre (List.mem_cons_of_mem _ hmem)) hrest
      exact ⟨more, by rw [hc, hmore]; rfl, hmask⟩
    | case3 => cases h

/-- A line with a row: white space, the frame, a text and white space. -/
structure RowLine (line : String) (f : Frame) (lead rest trail : List Char) : Prop where
  line_eq : line.toList = lead ++ (f.opening ++ (rest ++ trail))
  lead_space : ∀ c ∈ lead, isSpace c = true
  trail_space : ∀ c ∈ trail, isSpace c = true
  rest_ne : rest ≠ []
  rest_last : ∀ c ∈ rest.getLast?, isSpace c = false
  rest_flush : Flush (maskPipes rest)

/-- Every row that is read off a line has such a line. -/
theorem exists_rowLine {line : String} {row : Row}
    (h : readRow (maskPipes (strip line).toList) = some row) :
    ∃ f lead rest trail, RowLine line f lead rest trail ∧ row.id = f.id := by
  obtain ⟨f, -, hmask, -, hid, hflush⟩ := exists_frame h
  obtain ⟨rest, hstrip, hrest⟩ := exists_of_maskPipes (pipeSentinel_notMem_opening f) hmask
  obtain ⟨lead, trail, hline, hlead, htrail⟩ := strip_parts line
  have hend : ∀ c ∈ (strip line).toList.getLast?, isSpace c = false := by
    rw [strip, String.toList_ofList, ← stripChars, stripChars_eq]
    exact last_rtrim _
  have hne : rest ≠ [] := by
    rintro rfl
    -- the gap would stand at the end of a stripped text
    obtain ⟨gap, g, hgap⟩ : ∃ gap g, f.gap = gap ++ [g] :=
      ⟨f.gap.dropLast, f.gap.getLast f.gap_ne, (List.dropLast_append_getLast f.gap_ne).symm⟩
    have hg : isSpace g = true := f.gap_space g (by rw [hgap]; simp)
    have hlast : g ∈ (strip line).toList.getLast? := by
      rw [hstrip, List.append_nil, f.opening_eq, hgap, ← List.append_assoc, ← List.append_assoc,
        List.getLast?_concat]
      rfl
    rw [hend g hlast] at hg
    cases hg
  refine ⟨f, lead, rest, trail, ⟨?_, hlead, htrail, hne, fun c hc => hend c ?_, by rwa [hrest]⟩, hid⟩
  · rw [hline, hstrip, List.append_assoc]
  · rw [hstrip, List.getLast?_append_of_ne_nil _ hne]
    exact hc

section Row

variable {line : String} {f : Frame} {lead rest trail : List Char}

theorem RowLine.strip_eq (h : RowLine line f lead rest trail) :
    strip line = String.ofList (f.opening ++ rest) := by
  refine strip_padded lead (f.opening ++ rest) trail ?_ h.lead_space h.trail_space ?_ ?_
  · rw [h.line_eq, List.append_assoc]
  · intro c hc
    obtain rfl : '-' = c := Option.some.inj hc
    decide
  · rw [List.getLast?_append_of_ne_nil _ h.rest_ne]
    exact h.rest_last

/-- The row is read with the id of its frame. -/
theorem RowLine.read (h : RowLine line f lead rest trail) :
    readRow (maskPipes (strip line).toList) = some ⟨f.checkbox, f.id, maskPipes rest⟩ := by
  rw [h.strip_eq, String.toList_ofList, maskPipes_append, maskPipes_of_plain, readRow_opening f h.rest_flush]
  · -- no backslash stands in an opening
    rintro ⟨before, after, hin⟩
    have hmem : '|' ∈ f.opening := by rw [← hin]; simp
    rw [Frame.opening, List.mem_append, List.mem_append] at hmem
    rcases hmem with hmem | hmem | hmem
    · have hbox : f.checkbox ≠ '|' := by
        intro hc
        have := f.isBox
        rw [hc] at this
        exact absurd this (by decide)
      simp [hbox.symm] at hmem
    · exact absurd (f.decimal _ hmem) (by decide)
    · exact absurd (f.gap_space _ hmem) (by decide)
  · rintro ⟨hlast, -⟩
    have hspace : isSpace '\\' = true := by
      refine f.gap_space _ ?_
      rw [Frame.opening, ← List.append_assoc, List.getLast?_append_of_ne_nil _ f.gap_ne] at hlast
      exact List.mem_of_getLast? hlast
    exact absurd hspace (by decide)

/-- The line with the row of another id. -/
theorem RowLine.withNumber (h : RowLine line f lead rest trail) (n : ℕ) :
    RowLine (f.lineWith n lead rest trail) (f.withNumber n) lead rest trail :=
  ⟨String.toList_ofList, h.lead_space, h.trail_space, h.rest_ne, h.rest_last, h.rest_flush⟩

/-- A row's line is no heading. -/
theorem RowLine.not_heading (h : RowLine line f lead rest trail) : startsWith line "## " = false := by
  have hhash : isSpace '#' = false := by decide
  rw [startsWith, h.line_eq]
  cases lead with
  | nil => rfl
  | cons c lead =>
    have hc : '#' ≠ c := by
      rintro rfl
      rw [h.lead_space _ List.mem_cons_self] at hhash
      cases hhash
    simp [List.isPrefixOf_cons_cons, hc]

/-- The row of another id stands on one line, too. -/
theorem RowLine.oneLine_withNumber (h : RowLine line f lead rest trail) (hline : OneLine line.toList)
    (n : ℕ) : OneLine (f.lineWith n lead rest trail).toList := by
  rw [h.line_eq, Frame.opening_eq] at hline
  rw [Frame.lineWith, String.toList_ofList, Frame.opening_withNumber]
  simp only [OneLine.append] at hline ⊢
  obtain ⟨hlead, ⟨hfront, -, hgap⟩, hrest⟩ := hline
  refine ⟨hlead, ⟨hfront, ?_, hgap⟩, hrest⟩
  rw [String.toList_append, OneLine.append]
  exact ⟨oneLine_literal (by decide), oneLine_repr n⟩

end Row

/-! ### What the allocator and the resolution find -/

variable {words : WordClass} {f : Frame}

theorem WordClass.has_of_isSpace {c : Char} (h : isSpace c = true) : words.has c = false := by
  have hword := words.space c h
  have halnum : isAsciiAlnum c = false := by
    simp only [isSpace, Bool.or_eq_true, Bool.and_eq_true, decide_eq_true_eq, beq_iff_eq] at h
    simp only [isAsciiAlnum, Bool.or_eq_false_iff, Bool.and_eq_false_iff, decide_eq_false_iff_not]
    omega
  have hline : (c == '_') = false := by
    rw [beq_eq_false_iff_ne]
    rintro rfl
    exact absurd h (by decide)
  simp [WordClass.has, Pattern.isWord, halnum, hline, hword]

theorem checkboxOpening_opening (f : Frame) (more : List Char) :
    checkboxOpening (f.opening ++ more) = some (f.front, f.id.toList ++ (f.gap ++ more)) := by
  have hbox := f.isBox
  simp [checkboxOpening, Frame.opening, Frame.front, f.toList_id, hbox, isSpace]

/-- Behind the digits of a row a word ends. -/
theorem head?_gap (f : Frame) (more : List Char) : (f.gap ++ more).head?.any words.has = false := by
  obtain ⟨g, gap, hgap⟩ := List.exists_cons_of_ne_nil f.gap_ne
  have hg : isSpace g = true := f.gap_space g (by rw [hgap]; exact List.mem_cons_self)
  rw [hgap]
  exact WordClass.has_of_isSpace hg

/-- The number of a row is one of the BOARD. -/
theorem boardTicketNumber_opening (f : Frame) (more : List Char) :
    boardTicketNumber words (f.opening ++ more) = some (toInt f.digits) := by
  obtain ⟨g, gap, hgap⟩ := List.exists_cons_of_ne_nil f.gap_ne
  have hg : isDecimal g = false :=
    isDecimal_of_isSpace (f.gap_space g (by rw [hgap]; exact List.mem_cons_self))
  have hid : f.id.toList ++ (f.gap ++ more) = ['T', '-'] ++ (f.digits ++ (f.gap ++ more)) := by
    rw [f.toList_id]
    rfl
  have hsplit : f.digits ++ (f.gap ++ more) = f.digits ++ g :: (gap ++ more) := by rw [hgap]; rfl
  have htake : (f.digits ++ (f.gap ++ more)).takeWhile isDecimal = f.digits := by
    rw [hsplit, takeWhile_append_cons f.decimal hg]
  have hdrop : (f.digits ++ (f.gap ++ more)).dropWhile isDecimal = f.gap ++ more := by
    rw [hsplit, dropWhile_append_cons f.decimal hg, hgap]
    rfl
  simp only [boardTicketNumber, checkboxOpening_opening, hid, literal_append, Option.bind_eq_bind,
    Option.bind_some, htake, hdrop, head?_gap, Bool.false_eq_true, if_false, f.number_digits]

/-- The id token of a row is replaced, and nothing else. -/
theorem renameToken_row {line new : String} {lead more : List Char}
    (hline : line.toList = lead ++ (f.opening ++ more)) (hlead : ∀ c ∈ lead, isSpace c = true) :
    renameToken words f.id new line =
      String.ofList (lead ++ f.front) ++ new ++ String.ofList (f.gap ++ more) := by
  have hopen : ∃ tail, f.opening ++ more = '-' :: tail := ⟨_, rfl⟩
  obtain ⟨tail, htail⟩ := hopen
  have htake : line.toList.takeWhile isSpace = lead := by
    rw [hline, htail, takeWhile_append_cons hlead (by decide)]
  have hdrop : line.toList.dropWhile isSpace = f.opening ++ more := by
    rw [hline, htail, dropWhile_append_cons hlead (by decide)]
  rw [renameToken, htake, hdrop, checkboxOpening_opening]
  simp only [literal_append, head?_gap, Bool.false_eq_true, if_false]

/-! ### The next id is unused -/

variable {boardText logText : String}

variable (logText) in
theorem lt_nextTicketId_of_mem {n : ℕ} (historyMax : Option ℕ) (h : n ∈ boardNumbers words boardText) :
    n < nextTicketId words boardText logText historyMax := by
  have hmem : n ∈ boardNumbers words boardText ++ historyNumbers logText historyMax :=
    List.mem_append_left _ h
  rw [nextTicketId, if_neg (List.ne_nil_of_mem hmem), Nat.lt_succ_iff, le_foldl_max]
  exact .inr ⟨n, hmem, le_rfl⟩

variable (words boardText logText) in
theorem lt_nextTicketId_of_le {n m : ℕ} (h : n ≤ m) :
    n < nextTicketId words boardText logText (some m) := by
  have hpos : 0 < nextTicketId words boardText logText (some m) := by
    rw [nextTicketId]
    split <;> omega
  by_cases hm : 0 < m
  · have hmem : m ∈ boardNumbers words boardText ++ historyNumbers logText (some m) := by
      rw [historyNumbers, if_pos hm]
      simp
    rw [nextTicketId, if_neg (List.ne_nil_of_mem hmem), Nat.lt_succ_iff, le_foldl_max]
    exact .inr ⟨m, hmem, h⟩
  · omega

/-- No row of the BOARD has the next id. -/
theorem row_id_ne_next {line : String} {row : Row} {historyMax : Option ℕ}
    (hmem : line ∈ splitLines boardText) (h : readRow (maskPipes (strip line).toList) = some row) :
    row.id ≠ "T-" ++ (nextTicketId words boardText logText historyMax).repr := by
  obtain ⟨f, lead, rest, trail, hrow, hid⟩ := exists_rowLine h
  have hnumber : toInt f.digits ∈ boardNumbers words boardText := by
    refine List.mem_filterMap.mpr ⟨line, hmem, ?_⟩
    rw [hrow.strip_eq, String.toList_ofList, boardTicketNumber_opening]
  have hlt := lt_nextTicketId_of_mem logText historyMax hnumber
  intro heq
  have hdigits : f.digits = (nextTicketId words boardText logText historyMax).repr.toList := by
    have hchars := congrArg String.toList (hid.symm.trans heq)
    rw [f.toList_id, String.toList_append] at hchars
    simpa using hchars
  have hread := f.number_digits
  rw [hdigits, number?_repr] at hread
  rw [hdigits, ← Option.some.inj hread] at hlt
  exact lt_irrefl _ hlt

end Saipen.Board
