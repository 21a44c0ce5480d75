import Saipen.Board.Renaming
import Saipen.Board.Writing
import Saipen.Text.Number

/-! # Adding a ticket

`ticket_add` renders the row of a new ticket, with its description and its verify clause escaped, and puts it
behind the first line of the BOARD that begins with `## TODO`. -/

namespace Saipen.Board

open Text

/-! ### The writer -/

/-- `_insert_todo`. -/
def insertTodo (p : Printable) (boardText line : String) : Except Refusal String :=
  match assertLiveRecord p line with
  | .error message => .error ⟨"ValueError", message⟩
  | .ok line =>
      let lines := splitLinesEnded boardText
      match lines.findIdx? (fun l => startsWith l "## TODO") with
      | none => .error ⟨"StopIteration", ""⟩
      | some i => .ok (String.join (lines.insertIdx (i + 1) (line ++ "\n")))

/-- The row that `ticket_add` renders. -/
def ticketRecord (p : Printable) (id priority description : String) (needs : List String)
    (verify regression : String) : Except String String := do
  let description ← escapeDescription p description
  let verify ← escapeDescription p verify
  .ok ("- [ ] " ++ id ++ " [" ++ priority ++ "] " ++ description ++
    (if needs.isEmpty then "" else " | needs: " ++ ", ".intercalate needs) ++
    (if regression = "" then "" else " | regression: " ++ regression) ++ " | verify: " ++ verify)

/-- `_is_placeholder_verify`. -/
def isPlaceholderVerify (verify : String) : Bool :=
  let cleaned := lower (strip verify)
  cleaned = "" || ["tbd", "todo", "verify: tbd", "verify: todo", "tbd -", "todo -", "placeholder"].contains cleaned ||
    (startsWith cleaned "verify:" && cleaned.length < 12)

/-- `re.fullmatch(r"P[0-9]", priority)`. -/
def isPriority (priority : String) : Bool :=
  match priority.toList with
  | ['P', c] => isAsciiDigit c
  | _ => false

/-- What `ticket_add` calls. -/
structure AddWorld where
  printable : Printable
  words : WordClass
  /-- `redact_credentials`. -/
  redact : String → String
  /-- The row that `prepare_new` leaves of a record above the cap. -/
  externalize : String → String

def incompleteTicket (detail : String) : Refusal := ⟨"INCOMPLETE_TICKET", detail⟩

variable (w : AddWorld)

/-- `assert_single_record` for each of the arguments. -/
def singleArguments (description verify regression : String) : Except Refusal Unit :=
  match (do
    let _ ← assertSingleRecord w.printable description "description"
    let _ ← assertSingleRecord w.printable verify "verify"
    let _ ← assertSingleRecord w.printable regression "regression"
    .ok () : Except String Unit) with
  | .error message => .error (validationFailed message)
  | .ok _ => .ok ()

/-- The row of `ticket_add`, and the BOARD with it. -/
def addRecord (boardText id priority description : String) (needs : List String) (verify regression : String) :
    Except Refusal (String × String) :=
  match ticketRecord w.printable id priority (w.redact description) needs (w.redact verify) regression with
  | .error message => .error ⟨"ValueError", message⟩
  | .ok record =>
      let row := if record.length ≤ maxLiveRecordChars then record else w.externalize record
      (insertTodo w.printable boardText row).map fun new => (record, new)

/-- `ticket_add` up to the validation of what it is going to write: the record and the new BOARD. -/
def ticketAdd (boardText logText : String) (historyMax : Option ℕ) (priority description : String)
    (needs : List String) (verify regression : String) : Except Refusal (String × String) :=
  let given := strip priority
  let priority := upper given
  let regression := lower (strip regression)
  let board := parseBoard boardText
  if strip description = "" then
    .error (incompleteTicket "ticket description is required (semantic input)")
  else if !isPriority priority then
    .error (validationFailed ("priority " ++ reprStr w.printable given ++
      " is not P0-P9; the priority comes first, then the description"))
  else if isPlaceholderVerify verify then
    .error (incompleteTicket ("verify is required and cannot be a placeholder: pass --verify with the DONE proof " ++
      "(no TBD/TODO/empty)"))
  else if regression ≠ "" ∧ regression ≠ "required" then
    .error (validationFailed "regression must be 'required' when supplied")
  else
    match singleArguments w description verify regression with
    | .error refusal => .error refusal
    | .ok _ =>
        if board.errors ≠ [] then
          .error (validationFailed ("BOARD parse error(s): " ++
            "; ".intercalate ((board.errors.take 3).map (BoardError.message w.printable))))
        else
          match needs.find? fun need => (board.ticket need).isNone with
          | some need => .error ⟨"TICKET_NOT_FOUND", "dangling needs: " ++ need⟩
          | none =>
              addRecord w boardText ("T-" ++ (nextTicketId w.words boardText logText historyMax).repr) priority
                description needs verify regression

/-- The fields of the row that are written as they are given. -/
def givenFields (needs : List String) (regression : String) : List (String × String) :=
  (if needs.isEmpty then [] else [("needs", ", ".intercalate needs)]) ++
    if regression = "" then [] else [("regression", regression)]

/-- The fields of the row. -/
def addedFields (needs : List String) (regression verify : String) : List (String × String) :=
  givenFields needs regression ++ [("verify", verify)]

/-! ### Escapes as they are masked -/

/-- An escaped text. -/
def escapeChars (cs : List Char) : List Char :=
  cs.flatMap fun c => if c = '\\' then ['\\', '\\'] else if c = '|' then ['\\', '|'] else [c]

/-- An escaped text that is masked. -/
def veil (cs : List Char) : List Char :=
  cs.flatMap fun c => if c = '\\' then ['\\', '\\'] else if c = '|' then [pipeSentinel] else [c]

/-- A text with bars in place of sentinels. -/
def barred (cs : List Char) : List Char := cs.map fun c => if c = pipeSentinel then '|' else c

theorem veil_cons (c : Char) (cs : List Char) : veil (c :: cs) =
    (if c = '\\' then ['\\', '\\'] else if c = '|' then [pipeSentinel] else [c]) ++ veil cs := by
  rw [veil, List.flatMap_cons, veil]

theorem maskPipes_escapeChars (cs : List Char) : maskPipes (escapeChars cs) = veil cs := by
  -- what is escaped never begins with a bar
  have hhead : ∀ cs : List Char, (escapeChars cs).head? ≠ some '|' := by
    intro cs
    cases cs with
    | nil => simp [escapeChars]
    | cons c cs =>
      rw [escapeChars, List.flatMap_cons]
      by_cases hslash : c = '\\'
      · rw [if_pos hslash]
        simp
      · by_cases hbar : c = '|'
        · rw [if_neg hslash, if_pos hbar]
          simp
        · rw [if_neg hslash, if_neg hbar]
          simpa using hbar
  induction cs with
  | nil => rfl
  | cons c cs ih =>
    have hcons : escapeChars (c :: cs) =
        (if c = '\\' then ['\\', '\\'] else if c = '|' then ['\\', '|'] else [c]) ++ escapeChars cs := by
      rw [escapeChars, List.flatMap_cons, escapeChars]
    rw [hcons, veil_cons]
    by_cases hslash : c = '\\'
    · rw [if_pos hslash, if_pos hslash]
      show maskPipes ('\\' :: '\\' :: escapeChars cs) = '\\' :: '\\' :: veil cs
      rw [maskPipes_cons (by simp), maskPipes_cons fun h => hhead cs h.2, ih]
    · by_cases hbar : c = '|'
      · rw [if_neg hslash, if_neg hslash, if_pos hbar, if_pos hbar]
        show maskPipes ('\\' :: '|' :: escapeChars cs) = pipeSentinel :: veil cs
        rw [maskPipes, ih]
      · rw [if_neg hslash, if_neg hslash, if_neg hbar, if_neg hbar]
        show maskPipes (c :: escapeChars cs) = c :: veil cs
        rw [maskPipes_cons fun h => hslash h.1, ih]

/-- What is read of an escaped text: the text, with bars in place of sentinels. -/
theorem unescape_veil (cs : List Char) : unescape (veil cs) = barred cs := by
  induction cs with
  | nil => rfl
  | cons c cs ih =>
    rw [veil_cons, barred, List.map_cons, ← barred]
    by_cases hslash : c = '\\'
    · rw [if_pos hslash, hslash, if_neg (by decide)]
      show unescape ('\\' :: '\\' :: veil cs) = '\\' :: barred cs
      rw [unescape, ih]
    · by_cases hbar : c = '|'
      · rw [if_neg hslash, if_pos hbar, hbar, if_neg (by decide)]
        show unescape (pipeSentinel :: veil cs) = '|' :: barred cs
        rw [unescape_cons (by decide), if_pos rfl, ih]
      · rw [if_neg hslash, if_neg hbar]
        show unescape (c :: veil cs) = _
        rw [unescape_cons hslash, ih]

theorem bar_notMem_veil (cs : List Char) : '|' ∉ veil cs := by
  intro hmem
  obtain ⟨c, -, hc⟩ := List.mem_flatMap.mp hmem
  split_ifs at hc with hslash hbar
  · simp at hc
  · simp [pipeSentinel] at hc
  · exact hbar (List.mem_singleton.mp hc).symm

/-- White space at the beginning of a text is not escaped. -/
theorem dropWhile_veil (cs : List Char) : (veil cs).dropWhile isSpace = veil (cs.dropWhile isSpace) := by
  induction cs with
  | nil => rfl
  | cons c cs ih =>
    rw [veil_cons]
    by_cases hslash : c = '\\'
    · subst hslash
      rw [if_pos rfl, List.dropWhile_cons_of_neg (by decide), veil_cons, if_pos rfl]
      exact List.dropWhile_cons_of_neg (by decide)
    by_cases hbar : c = '|'
    · subst hbar
      rw [if_neg hslash, if_pos rfl, List.dropWhile_cons_of_neg (by decide), veil_cons, if_neg hslash, if_pos rfl]
      exact List.dropWhile_cons_of_neg (by decide)
    rw [if_neg hslash, if_neg hbar, List.singleton_append]
    by_cases hspace : isSpace c = true
    · rw [List.dropWhile_cons_of_pos hspace, List.dropWhile_cons_of_pos hspace, ih]
    · rw [List.dropWhile_cons_of_neg hspace, List.dropWhile_cons_of_neg hspace, veil_cons, if_neg hslash,
        if_neg hbar, List.singleton_append]

theorem reverse_veil (cs : List Char) : (veil cs).reverse = veil cs.reverse := by
  rw [veil, List.reverse_flatMap, veil]
  refine List.flatMap_congr fun c _ => ?_
  show (if c = '\\' then ['\\', '\\'] else if c = '|' then [pipeSentinel] else [c]).reverse = _
  split_ifs <;> rfl

theorem rtrim_veil (cs : List Char) : rtrim (veil cs) = veil (rtrim cs) := by
  rw [rtrim, reverse_veil, dropWhile_veil, reverse_veil, rtrim]

theorem stripChars_veil (cs : List Char) : stripChars (veil cs) = veil (stripChars cs) := by
  rw [stripChars_eq, dropWhile_veil, rtrim_veil, ← stripChars_eq]

/-- Characters that no escape is made for stay. -/
theorem veil_of_plain {cs : List Char} (h : ∀ c ∈ cs, c ≠ '\\' ∧ c ≠ '|') : veil cs = cs := by
  induction cs with
  | nil => rfl
  | cons c cs ih =>
    obtain ⟨hslash, hbar⟩ := h c List.mem_cons_self
    rw [veil_cons, if_neg hslash, if_neg hbar, ih fun d hd => h d (List.mem_cons_of_mem _ hd), List.singleton_append]

theorem veil_append (cs ds : List Char) : veil (cs ++ ds) = veil cs ++ veil ds := by
  rw [veil, List.flatMap_append, veil, veil]

/-- What a masked text begins with, when no escape is masked as it, stands in the text. -/
theorem exists_of_veil {word : List Char} (hword : ∀ c ∈ word, c ≠ '\\' ∧ c ≠ pipeSentinel) :
    ∀ {cs rest : List Char}, veil cs = word ++ rest → ∃ more, cs = word ++ more := by
  induction word with
  | nil => exact fun _ => ⟨_, rfl⟩
  | cons a word ih =>
    intro cs rest h
    obtain ⟨hslash, hpipe⟩ := hword a List.mem_cons_self
    cases cs with
    | nil => cases h
    | cons c cs =>
      rw [veil_cons, List.cons_append] at h
      split_ifs at h with h1 h2
      · exact absurd (List.cons.inj h).1.symm hslash
      · exact absurd (List.cons.inj h).1.symm hpipe
      · obtain ⟨rfl, hrest⟩ := List.cons.inj h
        obtain ⟨more, rfl⟩ := ih (fun d hd => hword d (List.mem_cons_of_mem _ hd)) hrest
        exact ⟨more, rfl⟩

/-- No character of an opener is escaped. -/
theorem opener_plain {c d : Char} {gap : List Char} (hc : isCheckbox c = true) (hgap : ∀ g ∈ gap, isSpace g = true)
    (hd : isDecimal d = true) :
    ∀ a ∈ ['[', c, ']'] ++ gap ++ ['T', '-', d], a ≠ '\\' ∧ a ≠ '|' ∧ a ≠ pipeSentinel := by
  have hne : ∀ q : Char → Bool, q '\\' = false → q '|' = false → q pipeSentinel = false → ∀ a, q a = true →
      a ≠ '\\' ∧ a ≠ '|' ∧ a ≠ pipeSentinel := by
    intro q h1 h2 h3 a ha
    refine ⟨?_, ?_, ?_⟩
    · rintro rfl
      exact Bool.false_ne_true (h1 ▸ ha)
    · rintro rfl
      exact Bool.false_ne_true (h2 ▸ ha)
    · rintro rfl
      exact Bool.false_ne_true (h3 ▸ ha)
  intro a ha
  simp only [List.mem_append, List.mem_cons, List.not_mem_nil, or_false] at ha
  rcases ha with ((rfl | rfl | rfl) | ha) | rfl | rfl | rfl
  · decide
  · exact hne isCheckbox (by decide) (by decide) (by decide) _ hc
  · decide
  · exact hne isSpace (by decide) (by decide) (by decide) _ (hgap a ha)
  · decide
  · decide
  · exact hne isDecimal (by decide) (by decide) (by decide) _ hd

theorem openerAt_veil (cs : List Char) : openerAt (veil cs) = openerAt cs := by
  rw [Bool.eq_iff_iff, openerAt_iff, openerAt_iff]
  constructor
  · rintro ⟨c, gap, d, more, heq, hc, hne, hgap, hd⟩
    have hplain := opener_plain hc hgap hd
    obtain ⟨more, rfl⟩ := exists_of_veil (fun a ha => ⟨(hplain a ha).1, (hplain a ha).2.2⟩) heq
    exact ⟨c, gap, d, more, rfl, hc, hne, hgap, hd⟩
  · rintro ⟨c, gap, d, more, rfl, hc, hne, hgap, hd⟩
    have hplain := opener_plain hc hgap hd
    refine ⟨c, gap, d, veil more, ?_, hc, hne, hgap, hd⟩
    rw [veil_append, veil_of_plain fun a ha => ⟨(hplain a ha).1, (hplain a ha).2.1⟩]

/-- An opener stands in the masked text where one stands in the text. -/
theorem embedsTicket_veil (cs : List Char) : embedsTicket (veil cs) = embedsTicket cs := by
  induction cs with
  | nil => rfl
  | cons c cs ih =>
    rw [embedsTicket_cons c cs, ← openerAt_veil (c :: cs), veil_cons]
    by_cases hslash : c = '\\'
    · rw [if_pos hslash]
      show embedsTicket ('\\' :: '\\' :: veil cs) = (openerAt ('\\' :: '\\' :: veil cs) || embedsTicket cs)
      rw [embedsTicket_cons, embedsTicket_cons, ih]
      rfl
    · by_cases hbar : c = '|'
      · rw [if_neg hslash, if_pos hbar]
        show embedsTicket (pipeSentinel :: veil cs) = (openerAt (pipeSentinel :: veil cs) || embedsTicket cs)
        rw [embedsTicket_cons, ih]
      · rw [if_neg hslash, if_neg hbar]
        show embedsTicket (c :: veil cs) = (openerAt (c :: veil cs) || embedsTicket cs)
        rw [embedsTicket_cons, ih]

end Saipen.Board
