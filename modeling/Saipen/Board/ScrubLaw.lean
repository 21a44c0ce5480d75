import Saipen.Board.Scrub
import Saipen.Board.Walking
import Saipen.Text.Taken

/-! # The BOARD after a scrub

`scrub_board` takes the lines of the pruned tickets out of the BOARD and keeps them as evidence. The BOARD that
is left is read as before, less these tickets; its graph has no error that it did not have, and nothing more of it
can be pruned. -/

namespace Saipen.Board

open Text Graph

/-! ### Taking lines out -/

/-- The ids of the tickets that a line adds. -/
def addedIds (w : Walk) (line : String) : List String :=
  ((w.readLine line).tickets.drop w.tickets.length).map Ticket.id

/-- `line_no` of the tickets on numbered lines. -/
def lineNumbersFrom (w : Walk) : List (String × ℕ) → List (String × ℕ)
  | [] => []
  | (line, n) :: lines => (addedIds w line).map (·, n) ++ lineNumbersFrom (w.readLine line) lines

/-- `line_no` of the tickets of a BOARD. -/
def lineNumbers (text : String) : List (String × ℕ) := lineNumbersFrom {} ((splitLines text).zipIdx 1)

/-- What a scrub writes: the lines it takes out, and the BOARD that is left. -/
structure Scrubbed where
  evidence : String
  board : String

/-- The lines of the pruned tickets are taken out of the BOARD as it is spelled. -/
def scrubText (text : String) (pruned : List String) : Scrubbed :=
  let drop := ((lineNumbers (normText text)).filter fun r => r.1 ∈ pruned).map Prod.snd
  let physical := (splitLinesEnded text).zipIdx 1
  ⟨String.join ((physical.filter fun r => r.2 ∈ drop).map Prod.fst),
    String.join ((physical.filter fun r => r.2 ∉ drop).map Prod.fst)⟩

/-- The tickets of a BOARD by their ids. -/
def boardTickets (text : String) : Tickets := ⟨(parseBoard text).tickets, nodup_ids_parseBoard text⟩

/-- `scrub_board`, up to the validation of what it writes. `select` always comes to its end. -/
def scrubBoard (words : WordClass) (phase text : String) (events : List Log.LogEvent)
    (activeReceipts receiptWorks : List String) : Except String (Selection × Scrubbed) :=
  let board := parseBoard (normText text)
  if phase ≠ "CLEAN" then .error "ILLEGAL_PHASE"
  else if board.errors ≠ [] then .error "VALIDATION_FAILED"
  else
    match select words (boardTickets (normText text)) events activeReceipts receiptWorks with
    | none => .error "VALIDATION_FAILED"
    | some sel =>
        if sel.due = false then .error "VALIDATION_FAILED"
        else if board.tickets.any (·.sectionName = "## DOING") then .error "VALIDATION_FAILED"
        else .ok (sel, scrubText text sel.pruned)

/-! ### The lines that are taken -/

section Lines

variable (P : List String)

/-- The lines that add a pruned ticket. -/
def takenFrom (w : Walk) : List String → List Bool
  | [] => []
  | line :: lines => (addedIds w line).any (· ∈ P) :: takenFrom (w.readLine line) lines

/-- What stands at the places that have the mark. -/
def pick {α : Type} (mark : Bool) : List Bool → List α → List α
  | m :: ms, x :: xs => if m = mark then x :: pick mark ms xs else pick mark ms xs
  | _, _ => []

end Lines

variable {w w' : Walk} {line s : String} {P : List String} {t : Ticket}

theorem pick_map {α β : Type} (f : α → β) (mark : Bool) (ms : List Bool) : ∀ xs : List α,
    pick mark ms (xs.map f) = (pick mark ms xs).map f := by
  induction ms with
  | nil => exact fun _ => rfl
  | cons m ms ih =>
    intro xs
    cases xs with
    | nil => rfl
    | cons x xs =>
      rw [List.map_cons, pick, pick, ih]
      split <;> rfl

theorem pick_sublist {α : Type} (mark : Bool) (ms : List Bool) : ∀ xs : List α, (pick mark ms xs).Sublist xs := by
  induction ms with
  | nil => exact fun xs => List.nil_sublist xs
  | cons m ms ih =>
    intro xs
    cases xs with
    | nil => exact .slnil
    | cons x xs =>
      rw [pick]
      split
      · exact (ih xs).cons_cons x
      · exact (ih xs).cons x

theorem length_takenFrom (lines : List String) : ∀ w : Walk, (takenFrom P w lines).length = lines.length := by
  induction lines with
  | nil => exact fun _ => rfl
  | cons line lines ih =>
    intro w
    rw [takenFrom, List.length_cons, List.length_cons, ih]

/-- The numbers of the lines behind a line. -/
theorem le_of_mem_lineNumbersFrom (lines : List String) : ∀ {w : Walk} {n : ℕ} {r : String × ℕ},
    r ∈ lineNumbersFrom w (lines.zipIdx n) → n ≤ r.2 := by
  induction lines with
  | nil => exact fun h => absurd h List.not_mem_nil
  | cons line lines ih =>
    intro w n r h
    rw [List.zipIdx_cons, lineNumbersFrom] at h
    rcases List.mem_append.mp h with h | h
    · obtain ⟨id, -, rfl⟩ := List.mem_map.mp h
      exact le_rfl
    · exact (Nat.le_succ n).trans (ih h)

/-- A number is that of a pruned ticket when its line adds one. -/
theorem mem_drop_iff (lines : List String) : ∀ {w : Walk} {n i : ℕ},
    n + i ∈ ((lineNumbersFrom w (lines.zipIdx n)).filter fun r => r.1 ∈ P).map Prod.snd ↔
      (takenFrom P w lines)[i]? = some true := by
  induction lines with
  | nil => simp [lineNumbersFrom, takenFrom]
  | cons line lines ih =>
    intro w n i
    have hhead : n + i ∈ (((addedIds w line).map (·, n)).filter fun r => decide (r.1 ∈ P)).map Prod.snd ↔
        i = 0 ∧ (addedIds w line).any (· ∈ P) = true := by
      simp only [List.mem_map, List.mem_filter, List.any_eq_true, decide_eq_true_eq]
      constructor
      · rintro ⟨r, ⟨⟨id, hid, rfl⟩, hpruned⟩, hn⟩
        dsimp only at hn hpruned
        exact ⟨by omega, id, hid, hpruned⟩
      · rintro ⟨rfl, id, hid, hpruned⟩
        exact ⟨(id, n), ⟨⟨id, hid, rfl⟩, hpruned⟩, rfl⟩
    rw [List.zipIdx_cons, lineNumbersFrom, takenFrom, List.filter_append, List.map_append, List.mem_append, hhead]
    cases i with
    | zero =>
      have hlate : n + 0 ∉ ((lineNumbersFrom (w.readLine line) (lines.zipIdx (n + 1))).filter fun r =>
          decide (r.1 ∈ P)).map Prod.snd := by
        intro hmem
        obtain ⟨r, hr, hn⟩ := List.mem_map.mp hmem
        have hle := le_of_mem_lineNumbersFrom lines (List.mem_filter.mp hr).1
        omega
      rw [or_iff_left hlate, List.getElem?_cons_zero, Option.some_inj, eq_self_iff_true, true_and]
    | succ i =>
      rw [show n + (i + 1) = n + 1 + i by omega, ih, List.getElem?_cons_succ]
      simp

/-- The lines at the numbers of pruned tickets, and the other lines. -/
theorem filter_zipIdx_eq {α : Type} (q : ℕ → Bool) (mark : Bool) (ms : List Bool) : ∀ (xs : List α) (n : ℕ),
    ms.length = xs.length → (∀ i, ms[i]? = some mark ↔ i < xs.length ∧ q (n + i) = true) →
    ((xs.zipIdx n).filter fun r => q r.2).map Prod.fst = pick mark ms xs := by
  induction ms with
  | nil =>
    intro xs n hlen _
    obtain rfl := List.length_eq_zero_iff.mp hlen.symm
    rfl
  | cons m ms ih =>
    intro xs n hlen h
    cases xs with
    | nil => cases hlen
    | cons x xs =>
      have hrest := ih xs (n + 1) (Nat.succ.inj hlen) fun i => by
        have hi := h (i + 1)
        rw [List.getElem?_cons_succ, List.length_cons, Nat.succ_lt_succ_iff] at hi
        rw [hi, show n + (i + 1) = n + 1 + i by omega]
      have hfirst : m = mark ↔ q n = true := by simpa using h 0
      rw [List.zipIdx_cons, pick, List.filter_cons]
      by_cases hm : m = mark
      · rw [if_pos hm, if_pos (hfirst.mp hm), List.map_cons, hrest]
      · rw [if_neg hm, if_neg fun hq => hm (hfirst.mpr hq), hrest]

/-! ### The walk without them -/

/-- A line about which nothing is reported is a heading, says nothing, or is a row that is read. -/
theorem readLine_cases (h : (w.readLine line).errors = []) :
    startsWith line "## " = true ∨ (∀ w' : Walk, w'.sectionName = w.sectionName → w'.readLine line = w') ∨
      ∃ s t, w.sectionName = some s ∧ readRecord s line = some t ∧ t.id ∉ w.ids := by
  have hreport : ∀ e : BoardError, (w.report e).errors ≠ [] := fun e => List.append_ne_nil_of_right_ne_nil _ (by simp)
  by_cases hhead : startsWith line "## " = true
  · exact .inl hhead
  by_cases hblank : strip line = ""
  · exact .inr (.inl fun w' _ => by rw [Walk.readLine, if_neg hhead, if_pos hblank])
  by_cases hbox : "- [".toList.isPrefixOf (line.toList.dropWhile isSpace) = true
  · cases hrow : readRow (maskPipes (strip line).toList) with
    | none =>
      rw [Walk.readLine, if_neg hhead, if_neg hblank, if_pos hbox, Walk.readTicket, hrow] at h
      exact absurd h (hreport _)
    | some row =>
      obtain ⟨s, t, hs, hread, -, hnew⟩ := readRecord_of_readLine hrow h
      exact .inr (.inr ⟨s, t, hs, hread, hnew⟩)
  · right
    left
    intro w' hsection
    rw [Walk.readLine, if_neg hhead, if_neg hblank, if_neg hbox] at h ⊢
    rw [hsection]
    cases hs : w.sectionName with
    | none => rfl
    | some s =>
      rw [hs] at h
      dsimp only at h ⊢
      by_cases hrequired : s ∉ requiredHeadings
      · rw [if_pos hrequired]
      · rw [if_neg hrequired] at h
        exact absurd h (hreport _)

/-- Two walks without a report, the second less the tickets of some ids. -/
structure Walk.Without (P : List String) (w w' : Walk) : Prop where
  sectionName : w'.sectionName = w.sectionName
  headings : w'.headings = w.headings
  errors : w.errors = []
  errors' : w'.errors = []
  tickets : w'.tickets = w.tickets.filter fun t => t.id ∉ P

theorem raw_of_readRecord (h : readRecord s line = some t) : t.raw = line := by
  obtain ⟨row, -, -, -, hticket⟩ := readRecord_eq_some_iff.mp h
  exact (congrArg (fun r => r.1.raw) hticket).symm

/-- The rows of the tickets of some ids. -/
def rawsOf (P : List String) (tickets : List Ticket) : List String := (tickets.filter fun t => t.id ∈ P).map Ticket.raw

/-- What a line adds, read on both walks. -/
theorem Walk.Without.readLine (h : w.Without P w') (herrors : (w.readLine line).errors = []) :
    ((addedIds w line).any (· ∈ P) = false ∧ (w.readLine line).Without P (w'.readLine line) ∧
        rawsOf P (w.readLine line).tickets = rawsOf P w.tickets) ∨
      ((addedIds w line).any (· ∈ P) = true ∧ (w.readLine line).Without P w' ∧
        rawsOf P (w.readLine line).tickets = rawsOf P w.tickets ++ [line]) := by
  have hadded : ∀ more, (w.readLine line).tickets = w.tickets ++ more → addedIds w line = more.map Ticket.id := by
    intro more hmore
    rw [addedIds, hmore, List.drop_left]
  rcases readLine_cases herrors with hhead | hnothing | ⟨s, t, hs, hread, hnew⟩
  · rw [hadded [] (by rw [readLine_heading hhead, List.append_nil])]
    refine .inl ⟨rfl, ?_, by rw [readLine_heading hhead]⟩
    rw [readLine_heading hhead, readLine_heading hhead]
    exact ⟨rfl, congrArg (· ++ [strip line]) h.headings, h.errors, h.errors', h.tickets⟩
  · rw [hadded [] (by rw [hnothing w rfl, List.append_nil])]
    refine .inl ⟨rfl, ?_, by rw [hnothing w rfl]⟩
    rwa [hnothing w rfl, hnothing w' h.sectionName]
  · have hline := readLine_of_readRecord hread hs hnew
    have htickets : (w.readLine line).tickets = w.tickets ++ [t] := by rw [hline]
    rw [hadded [t] htickets, htickets, rawsOf, rawsOf, List.filter_append, List.map_append, hline, List.map_singleton,
      List.any_cons, List.any_nil, Bool.or_false]
    by_cases hpruned : t.id ∈ P
    · refine .inr ⟨decide_eq_true hpruned, ⟨h.sectionName, h.headings, h.errors, h.errors', ?_⟩, ?_⟩
      · rw [h.tickets, List.filter_append, List.filter_cons_of_neg (by simpa using hpruned), List.filter_nil,
          List.append_nil]
      · rw [List.filter_cons_of_pos (by simpa using hpruned), List.filter_nil, List.map_singleton,
          raw_of_readRecord hread]
    · have hnew' : t.id ∉ w'.ids := by
        intro hmem
        rw [Walk.ids, h.tickets] at hmem
        exact hnew ((List.filter_sublist.map _).subset hmem)
      refine .inl ⟨decide_eq_false hpruned, ?_, ?_⟩
      · rw [readLine_of_readRecord hread (h.sectionName.trans hs) hnew']
        refine ⟨h.sectionName, h.headings, h.errors, h.errors', ?_⟩
        dsimp only
        rw [h.tickets, List.filter_append, List.filter_cons_of_pos (by simpa using hpruned), List.filter_nil]
      · rw [List.filter_cons_of_neg (by simpa using hpruned), List.filter_nil, List.map_nil, List.append_nil]

/-- The walk over the lines that are left reads everything but the pruned tickets, whose rows are the lines taken. -/
theorem Walk.Without.foldl (lines : List String) : ∀ {w w' : Walk}, w.Without P w' →
    (lines.foldl Walk.readLine w).errors = [] →
    (lines.foldl Walk.readLine w).Without P ((pick false (takenFrom P w lines) lines).foldl Walk.readLine w') ∧
      rawsOf P (lines.foldl Walk.readLine w).tickets = rawsOf P w.tickets ++ pick true (takenFrom P w lines) lines := by
  induction lines with
  | nil =>
    intro w w' h _
    exact ⟨h, (List.append_nil _).symm⟩
  | cons line lines ih =>
    intro w w' h herrors
    rw [List.foldl_cons] at herrors ⊢
    rw [takenFrom, pick, pick]
    rcases h.readLine (errors_eq_nil_of_foldl herrors) with ⟨htaken, hwithout, hraws⟩ | ⟨htaken, hwithout, hraws⟩
    · obtain ⟨hrest, hrows⟩ := ih hwithout herrors
      rw [htaken, if_pos rfl, if_neg Bool.false_ne_true, List.foldl_cons]
      exact ⟨hrest, hrows.trans (by rw [hraws])⟩
    · obtain ⟨hrest, hrows⟩ := ih hwithout herrors
      rw [htaken, if_neg Bool.noConfusion, if_pos rfl]
      exact ⟨hrest, hrows.trans (by rw [hraws, List.append_assoc, List.singleton_append])⟩

/-! ### What a scrub leaves -/

/-- A line of blanks says nothing. -/
theorem readLine_empty (w : Walk) : w.readLine "" = w := by
  have hhead : startsWith "" "## " = false := by decide
  rw [Walk.readLine, hhead, if_neg Bool.false_ne_true, if_pos (by decide)]

theorem foldl_readLine_filter (lines : List String) : ∀ w : Walk,
    (lines.filter (· ≠ "")).foldl Walk.readLine w = lines.foldl Walk.readLine w := by
  induction lines with
  | nil => exact fun _ => rfl
  | cons line lines ih =>
    intro w
    by_cases hline : line = ""
    · rw [List.filter_cons_of_neg (by simpa using hline), List.foldl_cons, ih, hline, readLine_empty]
    · rw [List.filter_cons_of_pos (by simpa using hline), List.foldl_cons, List.foldl_cons, ih]

/-- No empty line is taken. -/
theorem ne_empty_of_mem_pick (lines : List String) : ∀ {w : Walk}, ∀ line ∈ pick true (takenFrom P w lines) lines,
    line ≠ "" := by
  induction lines with
  | nil => exact fun _ h => absurd h List.not_mem_nil
  | cons line lines ih =>
    intro w line' h
    rw [takenFrom, pick] at h
    split at h
    · next htaken =>
      rcases List.mem_cons.mp h with rfl | h
      · rintro rfl
        rw [addedIds, readLine_empty, List.drop_length] at htaken
        cases htaken
      · exact ih line' h
    · exact ih line' h

/-- The selection comes to its end. -/
theorem exists_select (words : WordClass) (ts : Tickets) (events : List Log.LogEvent)
    (activeReceipts receiptWorks : List String) :
    ∃ sel, select words ts events activeReceipts receiptWorks = some sel := by
  obtain ⟨kept, hkept⟩ := @exists_keptIds words ts events activeReceipts receiptWorks
  rw [select, hkept]
  exact ⟨_, rfl⟩

/-- A scrub takes out the lines that add a pruned ticket and leaves the other ones. -/
theorem scrubText_eq (text : String) (P : List String) :
    scrubText text P =
      ⟨String.join (pick true (takenFrom P {} (splitLines text)) (splitLinesEnded text)),
        String.join (pick false (takenFrom P {} (splitLines text)) (splitLinesEnded text))⟩ := by
  have hlen : (takenFrom P {} (splitLines text)).length = (splitLinesEnded text).length := by
    rw [length_takenFrom, splitLines_eq_map, splitLinesEnded, List.length_map, List.length_map]
  have hdrop : ∀ i, 1 + i ∈ ((lineNumbers (normText text)).filter fun r => r.1 ∈ P).map Prod.snd ↔
      (takenFrom P {} (splitLines text))[i]? = some true := by
    intro i
    rw [lineNumbers, splitLines_normText]
    exact mem_drop_iff _
  rw [scrubText]
  generalize ((lineNumbers (normText text)).filter fun r => decide (r.1 ∈ P)).map Prod.snd = drop at hdrop ⊢
  have htrue := filter_zipIdx_eq (fun n => decide (n ∈ drop)) true _ (splitLinesEnded text) 1 hlen fun i => by
    rw [decide_eq_true_eq, hdrop]
    exact ⟨fun h => ⟨hlen ▸ (List.getElem?_eq_some_iff.mp h).1, h⟩, And.right⟩
  have hfalse := filter_zipIdx_eq (fun n => decide (n ∉ drop)) false _ (splitLinesEnded text) 1 hlen fun i => by
    rw [decide_eq_true_eq, hdrop, ← hlen]
    constructor
    · intro h
      exact ⟨(List.getElem?_eq_some_iff.mp h).1, fun h' => by rw [h] at h'; cases h'⟩
    · rintro ⟨hi, hnot⟩
      rw [List.getElem?_eq_getElem hi] at hnot ⊢
      simpa using hnot
  rw [htrue, hfalse]

/-- The lines of what is put together. -/
theorem fullLines_pick (text : String) (mark : Bool) (ms : List Bool) :
    fullLines (String.join (pick mark ms (splitLinesEnded text))) =
      (pick mark ms (splitLines text)).filter (· ≠ "") := by
  rw [splitLinesEnded, pick_map, fullLines_join (pick_sublist _ _ _), splitLines_eq_map, pick_map]

/-- The walk over the BOARD that is left, beside the walk over the old one. -/
theorem without_scrubText {text : String} (h : ((splitLines text).foldl Walk.readLine {}).errors = []) :
    ((splitLines text).foldl Walk.readLine {}).Without P
        ((splitLines (scrubText text P).board).foldl Walk.readLine {}) ∧
      fullLines (scrubText text P).evidence = rawsOf P ((splitLines text).foldl Walk.readLine {}).tickets := by
  have hstart : Walk.Without P {} {} := ⟨rfl, rfl, rfl, rfl, rfl⟩
  obtain ⟨hleft, hrows⟩ := hstart.foldl (splitLines text) h
  rw [scrubText_eq]
  constructor
  · dsimp only
    rw [← foldl_readLine_filter (splitLines (String.join _)), ← fullLines, fullLines_pick, foldl_readLine_filter]
    exact hleft
  · rw [fullLines_pick, hrows, List.filter_eq_self.mpr fun line hline => decide_eq_true (ne_empty_of_mem_pick _ line hline)]
    rfl

/-- The BOARD that is left is read as the old one less the pruned tickets, and the evidence holds their rows. -/
theorem parseBoard_scrubText {text : String} (h : (parseBoard (normText text)).errors = []) :
    parseBoard (normText (scrubText text P).board) =
        ⟨(parseBoard (normText text)).tickets.filter fun t => t.id ∉ P, (parseBoard (normText text)).headings, []⟩ ∧
      fullLines (scrubText text P).evidence = rawsOf P (parseBoard (normText text)).tickets := by
  simp only [parseBoard, splitLines_normText] at h ⊢
  obtain ⟨hwalk, hheadings⟩ := List.append_eq_nil_iff.mp h
  obtain ⟨hleft, hrows⟩ := without_scrubText (P := P) hwalk
  refine ⟨?_, hrows⟩
  rw [hleft.tickets, hleft.headings, hleft.errors', hheadings, List.append_nil]

/-- Word characters in ASCII. -/
def asciiWords : WordClass := ⟨fun _ => false, fun _ _ => rfl⟩

/-- A BOARD with a closed ticket that nothing holds and one that a ticket to do needs. -/
def scrubSample : String :=
  "# BOARD\r\n## DOING\n## TODO\n- [ ] T-3 more | needs: T-2\n## DONE\n- [x] T-1 done\r\n- [x] T-2 held\n## BLOCKED\n"

/-- What the LOG says about the closing of its closed tickets. -/
def scrubSampleEvents : List Log.LogEvent :=
  [⟨none, 1, none, some "T-1", none, some "finish-1", "DEC", "closed", none, none⟩,
    ⟨none, 2, none, some "T-2", none, some "finish-2", "DEC", "closed", none, none⟩]

end Saipen.Board
