import Saipen.Board.Reading
import Saipen.Board.Standing

/-! # Rows on the walk

What a line adds to the walk over a BOARD: reports are only added, a row that is read alone is read on the
walk, and a ticket more changes nothing about the lines behind it. -/

namespace Saipen.Board

open Text

variable {s line : String} {t : Ticket} {w : Walk}

/-! ### One line -/

/-- What has been reported stays reported. -/
theorem errors_isPrefix_readLine (w : Walk) (line : String) : w.errors <+: (w.readLine line).errors := by
  have hreport : ∀ e : BoardError, w.errors <+: (w.report e).errors := fun e => List.prefix_append _ _
  rw [Walk.readLine]
  split_ifs
  · exact List.prefix_rfl
  · exact List.prefix_rfl
  · rw [Walk.readTicket]
    split
    · exact hreport _
    · split_ifs
      · exact hreport _
      · split
        · exact hreport _
        · dsimp only
          split_ifs
          · exact (List.prefix_append w.errors _).trans (List.prefix_append _ _)
          · exact List.prefix_append _ _
          · exact hreport _
  · split
    · exact List.prefix_rfl
    · split_ifs
      · exact hreport _
      · exact List.prefix_rfl

theorem errors_isPrefix_foldl (lines : List String) : ∀ w : Walk, w.errors <+: (lines.foldl Walk.readLine w).errors := by
  induction lines with
  | nil => exact fun w => List.prefix_rfl
  | cons line lines ih => exact fun w => (errors_isPrefix_readLine w line).trans (ih _)

theorem errors_eq_nil_of_foldl {lines : List String} (h : (lines.foldl Walk.readLine w).errors = []) :
    w.errors = [] :=
  List.prefix_nil.mp (h ▸ errors_isPrefix_foldl lines w)

/-- A row that is read alone is read on the walk. -/
theorem readLine_of_readRecord (h : readRecord s line = some t) (hs : w.sectionName = some s) (hnew : t.id ∉ w.ids) :
    w.readLine line = { w with tickets := w.tickets ++ [t] } := by
  obtain ⟨r, hread, hembeds, hrequired, hticket⟩ := readRecord_eq_some_iff.mp h
  have hid : r.id = t.id := congrArg (fun x => x.1.id) hticket
  rw [Walk.ids] at hnew
  rw [Walk.readLine_row hread, Walk.readTicket, hread]
  simp only [hembeds, hs, hrequired, hticket, hid, not_true_eq_false, if_false, Bool.false_eq_true, List.append_nil]
  rw [if_neg hnew]

/-- A row about which nothing is reported is read alone, in a section of the four. -/
theorem readRecord_of_readLine {row : Row} (hrow : readRow (maskPipes (strip line).toList) = some row)
    (h : (w.readLine line).errors = []) : ∃ s t, w.sectionName = some s ∧ readRecord s line = some t ∧
      t.id = row.id ∧ t.id ∉ w.ids := by
  have hreport : ∀ e : BoardError, (w.report e).errors ≠ [] := fun e => List.append_ne_nil_of_right_ne_nil _ (by simp)
  rw [Walk.readLine_row hrow, Walk.readTicket, hrow] at h
  dsimp only at h
  by_cases hemb : embedsTicket row.rest = true
  · rw [if_pos hemb] at h
    exact absurd h (hreport _)
  rw [if_neg hemb] at h
  cases hs : w.sectionName with
  | none =>
    rw [hs] at h
    exact absurd h (hreport _)
  | some s =>
    rw [hs] at h
    dsimp only at h
    by_cases hrequired : s ∈ requiredHeadings
    · rw [if_neg (not_not.mpr hrequired)] at h
      by_cases hdup : row.id ∈ w.tickets.map (·.id)
      · rw [if_pos hdup] at h
        exact absurd h (List.append_ne_nil_of_right_ne_nil _ (by simp))
      · rw [if_neg hdup] at h
        have hfields : (rowTicket s line row).2 = [] := (List.append_eq_nil_iff.mp h).2
        exact ⟨s, (rowTicket s line row).1, rfl, readRecord_eq_some_iff.mpr
          ⟨row, hrow, Bool.eq_false_iff.mpr hemb, hrequired, Prod.ext rfl hfields⟩, rfl, hdup⟩
    · rw [if_pos hrequired] at h
      exact absurd h (hreport _)

/-- A heading opens its section. -/
theorem readLine_heading (h : startsWith line "## " = true) (w : Walk) :
    w.readLine line = { w with sectionName := some (strip line), headings := w.headings ++ [strip line] } := by
  rw [Walk.readLine, if_pos h]

/-! ### Ids -/

/-- A line adds no ticket, or that of its row, whose id is a new one. -/
theorem tickets_readLine (w : Walk) (line : String) : (w.readLine line).tickets = w.tickets ∨
    ∃ t row, readRow (maskPipes (strip line).toList) = some row ∧ t.id = row.id ∧ t.id ∉ w.ids ∧
      (w.readLine line).tickets = w.tickets ++ [t] := by
  rw [Walk.readLine]
  split_ifs
  · exact .inl rfl
  · exact .inl rfl
  · rw [Walk.readTicket]
    split
    · exact .inl rfl
    · next row hrow =>
      split_ifs
      · exact .inl rfl
      · split
        · exact .inl rfl
        · dsimp only
          split_ifs with hs hdup
          · exact .inl rfl
          · exact .inr ⟨_, row, hrow, rfl, hdup, rfl⟩
          · exact .inl rfl
  · split
    · exact .inl rfl
    · split_ifs <;> exact .inl rfl

theorem nodup_ids_foldl (lines : List String) : ∀ {w : Walk}, w.ids.Nodup →
    (lines.foldl Walk.readLine w).ids.Nodup := by
  induction lines with
  | nil => exact fun h => h
  | cons line lines ih =>
    intro w h
    refine ih ?_
    rcases tickets_readLine w line with hsame | ⟨t, -, -, -, hnew, hmore⟩
    · rwa [Walk.ids, hsame]
    · rw [Walk.ids, hmore, List.map_append, List.nodup_append]
      refine ⟨h, by simp, fun a ha b hb => ?_⟩
      rintro rfl
      rw [List.map_singleton, List.mem_singleton] at hb
      exact hnew (hb ▸ ha)

theorem tickets_isPrefix_foldl (lines : List String) : ∀ w : Walk,
    w.tickets <+: (lines.foldl Walk.readLine w).tickets := by
  induction lines with
  | nil => exact fun w => List.prefix_rfl
  | cons line lines ih =>
    intro w
    refine List.IsPrefix.trans ?_ (ih (w.readLine line))
    rcases tickets_readLine w line with hsame | ⟨t, -, -, -, -, hmore⟩
    · rw [hsame]
    · rw [hmore]
      exact List.prefix_append _ _

/-- An id that has been read stands in a row. -/
theorem exists_row_of_mem_ids (lines : List String) : ∀ {w : Walk} {id : String},
    id ∈ (lines.foldl Walk.readLine w).ids → id ∈ w.ids ∨
      ∃ line ∈ lines, ∃ row, readRow (maskPipes (strip line).toList) = some row ∧ row.id = id := by
  induction lines with
  | nil => exact fun h => .inl h
  | cons line lines ih =>
    intro w id h
    rcases ih h with hmem | ⟨l, hl, row, hrow, hid⟩
    · rcases tickets_readLine w line with hsame | ⟨t, row, hrow, hid, -, hmore⟩
      · exact .inl (by rwa [Walk.ids, hsame] at hmem)
      · rw [Walk.ids, hmore, List.map_append, List.mem_append] at hmem
        rcases hmem with hmem | hmem
        · exact .inl hmem
        · refine .inr ⟨line, List.mem_cons_self, row, hrow, ?_⟩
          rw [← hid]
          exact (List.mem_singleton.mp hmem).symm
    · exact .inr ⟨l, List.mem_cons_of_mem _ hl, row, hrow, hid⟩

/-- The tickets of a BOARD have different ids. -/
theorem nodup_ids_parseBoard (text : String) : ((parseBoard text).tickets.map (·.id)).Nodup :=
  nodup_ids_foldl (splitLines text) (w := {}) List.nodup_nil

/-! ### One ticket more -/

/-- Two walks that have read the same, but for one ticket more behind `front`. -/
structure Walk.OneMore (t : Ticket) (front : List Ticket) (w w' : Walk) : Prop where
  sectionName : w'.sectionName = w.sectionName
  headings : w'.headings = w.headings
  errors : w'.errors = w.errors
  tickets : ∃ back, w.tickets = front ++ back ∧ w'.tickets = front ++ t :: back

variable {front : List Ticket} {w' : Walk}

theorem Walk.OneMore.report (h : Walk.OneMore t front w w') (e : BoardError) :
    Walk.OneMore t front (w.report e) (w'.report e) :=
  ⟨h.sectionName, h.headings, congrArg (· ++ [e]) h.errors, h.tickets⟩

theorem Walk.OneMore.mem_ids (h : Walk.OneMore t front w w') {id : String} (hid : id ≠ t.id) :
    id ∈ w'.tickets.map (·.id) ↔ id ∈ w.tickets.map (·.id) := by
  obtain ⟨back, hw, hw'⟩ := h.tickets
  rw [hw, hw']
  simp [hid]

/-- A line that is no row with the id of the ticket is read alike. -/
theorem Walk.OneMore.readLine (h : Walk.OneMore t front w w') (line : String)
    (hid : ∀ row, readRow (maskPipes (strip line).toList) = some row → row.id ≠ t.id) :
    Walk.OneMore t front (w.readLine line) (w'.readLine line) := by
  by_cases hhead : startsWith line "## " = true
  · rw [readLine_heading hhead, readLine_heading hhead]
    exact ⟨rfl, congrArg (· ++ [strip line]) h.headings, h.errors, h.tickets⟩
  rw [Walk.readLine, Walk.readLine, if_neg hhead, if_neg hhead]
  by_cases hblank : strip line = ""
  · rwa [if_pos hblank, if_pos hblank]
  rw [if_neg hblank, if_neg hblank]
  by_cases hbox : "- [".toList.isPrefixOf (line.toList.dropWhile isSpace) = true
  · rw [if_pos hbox, if_pos hbox, Walk.readTicket, Walk.readTicket]
    cases hrow : readRow (maskPipes (strip line).toList) with
    | none => exact h.report _
    | some row =>
      dsimp only
      by_cases hemb : embedsTicket row.rest = true
      · rw [if_pos hemb, if_pos hemb]
        exact h.report _
      rw [if_neg hemb, if_neg hemb, h.sectionName]
      cases w.sectionName with
      | none => exact h.report _
      | some s =>
        dsimp only
        by_cases hs : s ∉ requiredHeadings
        · rw [if_pos hs, if_pos hs]
          exact h.report _
        rw [if_neg hs, if_neg hs]
        have herrors := congrArg (· ++ (rowTicket s line row).2) h.errors
        have hmem := h.mem_ids (hid row hrow)
        by_cases hdup : row.id ∈ w.tickets.map (·.id)
        · rw [if_pos hdup, if_pos (hmem.mpr hdup)]
          exact ⟨rfl, h.headings, congrArg (· ++ [BoardError.duplicate row.id]) herrors, h.tickets⟩
        · rw [if_neg hdup, if_neg fun hin => hdup (hmem.mp hin)]
          obtain ⟨back, hw, hw'⟩ := h.tickets
          refine ⟨rfl, h.headings, herrors, back ++ [(rowTicket s line row).1], ?_, ?_⟩
          · show w.tickets ++ _ = _
            rw [hw, List.append_assoc]
          · show w'.tickets ++ _ = _
            rw [hw', List.append_assoc, List.cons_append]
  · rw [if_neg hbox, if_neg hbox, h.sectionName]
    cases w.sectionName with
    | none => exact h
    | some s =>
      dsimp only
      by_cases hs : s ∉ requiredHeadings
      · rwa [if_pos hs, if_pos hs]
      · rw [if_neg hs, if_neg hs]
        exact h.report _

theorem Walk.OneMore.foldl (lines : List String) : ∀ {w w' : Walk}, Walk.OneMore t front w w' →
    (∀ line ∈ lines, ∀ row, readRow (maskPipes (strip line).toList) = some row → row.id ≠ t.id) →
    Walk.OneMore t front (lines.foldl Walk.readLine w) (lines.foldl Walk.readLine w') := by
  induction lines with
  | nil => exact fun h _ => h
  | cons line lines ih =>
    intro w w' h hid
    exact ih (h.readLine line (hid line List.mem_cons_self)) fun l hl => hid l (List.mem_cons_of_mem _ hl)

end Saipen.Board
