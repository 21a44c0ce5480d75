import Saipen.Board.Reading
import Saipen.Board.Renaming

/-! # The rows the reader takes for tickets

A row stands when it is in one of the four sections and embeds no other row. The first standing row of an
id becomes the ticket, and every later one is reported as a duplicate. -/

namespace Saipen.Board

open Text

/-- The id of the row on a line, when it stands in its section. -/
def standingId (sectionName : Option String) (line : String) : Option String :=
  (readRow (maskPipes (strip line).toList)).bind fun row =>
    if embedsTicket row.rest = false ∧ ∃ s ∈ sectionName, s ∈ requiredHeadings then some row.id else none

/-- The ids of the standing rows below a heading. -/
def standingIds : Option String → List String → List String
  | _, [] => []
  | sectionName, line :: lines =>
      if startsWith line "## " then standingIds (some (strip line)) lines
      else (standingId sectionName line).toList ++ standingIds sectionName lines

variable {w : Walk} {line x : String}

/-- The ids of the tickets that have been read. -/
def Walk.ids (w : Walk) : List String := w.tickets.map (·.id)

/-- The fields of a row are no reason to report a duplicate. -/
theorem duplicate_notMem_readFields (id : String) (parts : List String) :
    ∀ fields, .duplicate x ∉ (readFields id parts fields).2 := by
  induction parts with
  | nil => simp [readFields]
  | cons part parts ih =>
    intro fields
    rw [readFields]
    split
    · split_ifs <;> simp [ih]
    · simp [ih]

theorem mem_report {e : BoardError} (h : ∀ x, e ≠ .duplicate x) :
    .duplicate x ∈ (w.report e).errors ↔ .duplicate x ∈ w.errors := by
  simp [Walk.report, (h x).symm]

/-- A line that holds no standing row and is no heading adds neither a ticket nor a duplicate. -/
theorem readLine_of_none (hhead : startsWith line "## " = false) (h : standingId w.sectionName line = none) :
    (w.readLine line).sectionName = w.sectionName ∧ (w.readLine line).ids = w.ids ∧
      (.duplicate x ∈ (w.readLine line).errors ↔ .duplicate x ∈ w.errors) := by
  have hreport : ∀ e : BoardError, (∀ x, e ≠ .duplicate x) → (w.report e).sectionName = w.sectionName ∧
      (w.report e).ids = w.ids ∧ (.duplicate x ∈ (w.report e).errors ↔ .duplicate x ∈ w.errors) :=
    fun e he => ⟨rfl, rfl, mem_report he⟩
  rw [Walk.readLine, hhead]
  simp only [Bool.false_eq_true, if_false]
  split_ifs
  · exact ⟨rfl, rfl, Iff.rfl⟩
  · rw [Walk.readTicket]
    split
    · exact hreport _ (by simp)
    · next row hrow =>
      rw [standingId, hrow, Option.bind_some] at h
      split_ifs with hembeds
      · exact hreport _ (by simp)
      · split
        · exact hreport _ (by simp)
        · next s hs =>
          have hout : s ∉ requiredHeadings := by
            intro hin
            rw [if_pos ⟨by simpa using hembeds, s, hs, hin⟩] at h
            cases h
          rw [if_pos hout]
          exact hreport _ (by simp)
  · split
    · exact ⟨rfl, rfl, Iff.rfl⟩
    · split_ifs
      · exact hreport _ (by simp)
      · exact ⟨rfl, rfl, Iff.rfl⟩

/-- A standing row is a new ticket, or a duplicate of one. -/
theorem readLine_of_some {id : String} (h : standingId w.sectionName line = some id) :
    (w.readLine line).sectionName = w.sectionName ∧
      (w.readLine line).ids = (if id ∈ w.ids then w.ids else w.ids ++ [id]) ∧
      (.duplicate x ∈ (w.readLine line).errors ↔ .duplicate x ∈ w.errors ∨ (x = id ∧ id ∈ w.ids)) := by
  obtain ⟨row, hrow, h⟩ := Option.bind_eq_some_iff.mp h
  split at h
  case isFalse => cases h
  case isTrue hstands =>
    obtain rfl := Option.some.inj h
    obtain ⟨hembeds, s, hs, hin⟩ := hstands
    have hfields : .duplicate x ∉ (rowTicket s line row).2 := duplicate_notMem_readFields _ _ _
    rw [Walk.readLine_row hrow, Walk.readTicket, hrow]
    simp only [hembeds, Bool.false_eq_true, if_false, Option.mem_def.mp hs, hin, not_true_eq_false]
    by_cases hseen : row.id ∈ w.tickets.map (·.id)
    · have hids : row.id ∈ w.ids := hseen
      rw [if_pos hseen, if_pos hids]
      refine ⟨rfl, rfl, ?_⟩
      simp [Walk.report, hfields, hids]
    · have hids : row.id ∉ w.ids := hseen
      rw [if_neg hseen, if_neg hids]
      refine ⟨rfl, by simp [Walk.ids, rowTicket], ?_⟩
      simp [hfields, hids]

/-- What is reported as a duplicate on a walk: every id that stands a second time. -/
theorem duplicate_mem_foldl (lines : List String) : ∀ w : Walk,
    (.duplicate x ∈ (lines.foldl Walk.readLine w).errors ↔
      .duplicate x ∈ w.errors ∨
        2 ≤ (standingIds w.sectionName lines).count x + if x ∈ w.ids then 1 else 0) := by
  induction lines with
  | nil =>
    intro w
    rw [List.foldl_nil, standingIds, List.count_nil]
    split <;> simp
  | cons line lines ih =>
    intro w
    rw [List.foldl_cons, ih, standingIds]
    by_cases hhead : startsWith line "## " = true
    · have hread : w.readLine line =
          { w with sectionName := some (strip line), headings := w.headings ++ [strip line] } := by
        rw [Walk.readLine, if_pos hhead]
      rw [hread, if_pos hhead]
      rfl
    rw [if_neg hhead]
    rw [Bool.not_eq_true] at hhead
    cases hstands : standingId w.sectionName line with
    | none =>
      obtain ⟨hsection, hids, herrors⟩ := readLine_of_none (x := x) hhead hstands
      rw [hsection, hids, herrors]
      rfl
    | some id =>
      obtain ⟨hsection, hids, herrors⟩ := readLine_of_some (x := x) hstands
      rw [hsection, hids, herrors, Option.toList_some, List.singleton_append, List.count_cons]
      by_cases hx : x = id
      · subst hx
        by_cases hseen : x ∈ w.ids
        · simp only [hseen, if_true, and_self, or_true, true_or, beq_self_eq_true, true_iff]
          right
          omega
        · simp only [hseen, if_false, and_false, or_false, List.mem_append, List.mem_singleton, or_true,
            if_true, beq_self_eq_true, Nat.add_zero]
      · have hmem : x ∈ (if id ∈ w.ids then w.ids else w.ids ++ [id]) ↔ x ∈ w.ids := by
          split <;> simp [hx]
        simp only [hmem, hx, false_and, or_false, beq_iff_eq, Ne.symm hx, if_false, Nat.add_zero]

/-- An id is reported as a duplicate exactly when it stands twice. -/
theorem duplicate_mem_parseBoard {text : String} :
    .duplicate x ∈ (parseBoard text).errors ↔ 2 ≤ (standingIds none (splitLines text)).count x := by
  have hheadings : ∀ headings, .duplicate x ∉ headingErrors headings := by
    intro headings hmem
    obtain ⟨h, -, heq⟩ := List.mem_filterMap.mp hmem
    split at heq <;> cases heq
  rw [parseBoard, List.mem_append, duplicate_mem_foldl]
  simp [hheadings, Walk.ids]

/-- A standing row claims its id. -/
theorem exists_frame_of_mem_standingIds {lines : List String} : ∀ {sectionName : Option String},
    x ∈ standingIds sectionName lines → ∃ f : Frame, f.id = x := by
  induction lines with
  | nil =>
    intro sectionName h
    cases h
  | cons line lines ih =>
    intro sectionName h
    rw [standingIds] at h
    split at h
    · exact ih h
    · rcases List.mem_append.mp h with h | h
      · rw [Option.mem_toList] at h
        obtain ⟨row, hrow, hid⟩ := Option.bind_eq_some_iff.mp h
        obtain ⟨f, -, -, -, hf, -⟩ := exists_frame hrow
        split at hid
        · exact ⟨f, hf.symm.trans (Option.some.inj hid)⟩
        · cases hid
      · exact ih h

end Saipen.Board
