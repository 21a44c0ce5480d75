import Saipen.Board.AddingLaw
import Saipen.Board.Walking
import Saipen.Text.Insert

/-! # The BOARD with an added ticket

The row stands behind the first line that begins with `## TODO`. That line may be another heading, or the
last line without an end; everywhere else the BOARD is read as before, with one ticket more. -/

namespace Saipen.Board

open Text

/-- The line that a new row is put behind. -/
def todoLine (boardText : String) : Option String :=
  (splitLinesEnded boardText).find? fun l => startsWith l "## TODO"

/-- The line that a new row is put behind is the heading of TODO, with its line end. -/
def Opens (boardText : String) : Prop :=
  ∃ l, todoLine boardText = some l ∧ strip l = "## TODO" ∧ l.toList.getLast?.any isLineBreak = true

/-- The BOARD has one ticket more, with this id, description and these fields, and is read without a report. -/
structure Added (before after : Parsed) (id description : String) (fields : List (String × String)) : Prop where
  errors : after.errors = []
  tickets : ∃ t front back, before.tickets = front ++ back ∧ after.tickets = front ++ t :: back ∧
    t.id = id ∧ t.sectionName = "## TODO" ∧ t.checkbox = ' ' ∧ t.description = description ∧ t.fields = fields

/-- What has to be so for a ticket to be read as it was added. -/
structure Legible (boardText description verify : String) : Prop where
  opens : Opens boardText
  /-- The description ends, and does not end with white space. -/
  ended : (description.toList.getLast?.any fun c => !isSpace c) = true
  trimmed : strip verify = verify
  unmasked : pipeSentinel ∉ description.toList ∧ pipeSentinel ∉ verify.toList
  single : embedsTicket description.toList = false ∧ embedsTicket verify.toList = false

/-! ### The lines -/

/-- White space behind a text is stripped. -/
theorem strip_append_spaces {s tail : String} (h : ∀ c ∈ tail.toList, isSpace c = true) : strip (s ++ tail) = strip s := by
  rw [← String.toList_inj, strip, strip, String.toList_ofList, String.toList_ofList, String.toList_append]
  show stripChars (s.toList ++ tail.toList) = stripChars s.toList
  rw [stripChars_eq, stripChars_eq, List.dropWhile_append]
  split
  · next hblank =>
    rw [List.isEmpty_iff] at hblank
    rw [hblank, List.dropWhile_eq_nil_iff.mpr h]
  · exact rtrim_append h

variable {p : Printable} {boardText line new : String}

theorem insertIdx_append_cons {α : Type} (pre post : List α) (l x : α) :
    (pre ++ l :: post).insertIdx (pre.length + 1) x = pre ++ l :: x :: post := by
  induction pre with
  | nil => rfl
  | cons y pre ih =>
    rw [List.cons_append, List.length_cons, List.insertIdx_succ_cons, ih]
    rfl

/-- The line that a row is put behind, among the lines with their ends. -/
theorem insertTodo_ok (h : insertTodo p boardText line = .ok new) : OneLine line.toList ∧
    line.length ≤ maxLiveRecordChars ∧ ∃ pre l post, splitLinesEnded boardText = pre ++ l :: post ∧
      todoLine boardText = some l ∧ startsWith l "## TODO" = true ∧
      new = String.join (pre ++ l :: (line ++ "\n") :: post) := by
  unfold insertTodo at h
  split at h
  · cases h
  next out hlive =>
  obtain ⟨rfl, hline, hlen⟩ := assertLiveRecord_eq_ok_iff.mp hlive
  dsimp only at h
  split at h
  · cases h
  next i hi =>
  obtain ⟨hlt, hhead, hbefore⟩ := List.findIdx?_eq_some_iff_getElem.mp hi
  have hcut : splitLinesEnded boardText = (splitLinesEnded boardText).take i ++
      (splitLinesEnded boardText)[i] :: (splitLinesEnded boardText).drop (i + 1) := by
    rw [List.getElem_cons_drop, List.take_append_drop]
  have htake : ((splitLinesEnded boardText).take i).length = i := List.length_take_of_le hlt.le
  have hput : (splitLinesEnded boardText).insertIdx (i + 1) (out ++ "\n") = (splitLinesEnded boardText).take i ++
      (splitLinesEnded boardText)[i] :: (out ++ "\n") :: (splitLinesEnded boardText).drop (i + 1) := by
    have hinsert := insertIdx_append_cons ((splitLinesEnded boardText).take i) ((splitLinesEnded boardText).drop (i + 1))
      ((splitLinesEnded boardText)[i]) (out ++ "\n")
    rwa [← hcut, htake] at hinsert
  refine ⟨hline, hlen, _, _, _, hcut, ?_, hhead, ?_⟩
  · refine List.find?_eq_some_iff_append.mpr ⟨hhead, _, _, hcut, fun x hx => ?_⟩
    obtain ⟨j, hj, rfl⟩ := List.mem_take_iff_getElem.mp hx
    simpa using hbefore j (by omega)
  · rw [← hput]
    exact (Except.ok.inj h).symm

theorem startsWith_iff {s pre : String} : startsWith s pre = true ↔ pre.toList <+: s.toList := List.isPrefixOf_iff_prefix

/-- A prefix without a line end stands in front of the end of the line. -/
theorem isPrefix_of_append {pre body tail : List Char} (hpre : OneLine pre) (htail : ∀ c ∈ tail, isLineBreak c = true)
    (h : pre <+: body ++ tail) : pre <+: body := by
  obtain ⟨rest, hrest⟩ := h
  rcases List.append_eq_append_iff.mp hrest with ⟨more, hbody, -⟩ | ⟨more, hpre', htail'⟩
  · exact ⟨more, hbody.symm⟩
  · cases more with
    | nil => exact ⟨[], by rw [hpre', List.append_nil, List.append_nil]⟩
    | cons c more =>
      have hbreak := htail c (by rw [htail']; simp)
      rw [hpre c (by rw [hpre']; simp)] at hbreak
      cases hbreak

/-- The lines of the BOARD, and of the BOARD with the row. -/
theorem insertTodo_lines (h : insertTodo p boardText line = .ok new) (hne : line ≠ "") : OneLine line.toList ∧
    ∃ before body after l, todoLine boardText = some l ∧ splitLines boardText = before ++ body :: after ∧
      startsWith body "## TODO" = true ∧ strip l = strip body ∧
      (l.toList.getLast?.any isLineBreak = true → splitLines new = before ++ body :: line :: after) ∧
      (l.toList.getLast?.any isLineBreak = false → splitLines new = before ++ [body ++ line] ∧ after = []) := by
  obtain ⟨hline, -, pre, l, post, hcut, hl, hhead, rfl⟩ := insertTodo_ok h
  rw [splitLinesEnded, List.map_eq_append_iff] at hcut
  obtain ⟨pre, rest, hchars, rfl, hrest⟩ := hcut
  obtain ⟨l, post, rfl, rfl, rfl⟩ := List.map_eq_cons_iff.mp hrest
  obtain ⟨body, tail, haround⟩ := exists_around hchars
  have htail : ∀ c ∈ tail, isLineBreak c = true := by
    rcases haround.ends with rfl | ⟨c, hc, rfl⟩ | rfl
    · simp
    · simpa using hc
    · exact List.forall_mem_cons.mpr ⟨by decide, List.forall_mem_singleton.mpr (by decide)⟩
  have hjoin : (String.join (pre.map String.ofList ++ String.ofList l :: (line ++ "\n") :: post.map String.ofList)).toList =
      (pre ++ l :: (line.toList ++ ['\n']) :: post).flatten := by
    simp [String.toList_join, List.flatMap_map, List.flatMap_id']
  have hsplit : splitLines boardText = (linesFrom [] pre.flatten).map String.ofList ++
      String.ofList body :: (linesFrom [] post.flatten).map String.ofList := by
    rw [splitLines, haround.lines, List.map_append, List.map_cons]
  have hl' : String.ofList l = String.ofList body ++ String.ofList tail := by
    rw [haround.line, String.ofList_append]
  refine ⟨hline, _, String.ofList body, _, String.ofList l, hl, hsplit, ?_, ?_, ?_, ?_⟩
  · have hwhole : (String.ofList l).toList = body ++ tail := by rw [String.toList_ofList, haround.line]
    have hbody : (String.ofList body).toList = body := String.toList_ofList
    have hpre := startsWith_iff.mp hhead
    rw [hwhole] at hpre
    rw [startsWith_iff, hbody]
    exact isPrefix_of_append (oneLine_literal (by decide)) htail hpre
  · rw [hl']
    exact strip_append_spaces fun c hc => isSpace_of_isLineBreak (htail c (by simpa using hc))
  · intro hend
    have hne' : tail ≠ [] := by
      rintro rfl
      obtain ⟨c, hc, hbreak⟩ := (Option.any_eq_true _ _).mp hend
      rw [String.toList_ofList, haround.line, List.append_nil] at hc
      rw [haround.oneLine c (List.mem_of_getLast? hc)] at hbreak
      cases hbreak
    have hchars := haround.insert hne' hline fun hnil => hne (String.toList_eq_nil_iff.mp hnil)
    rw [splitLines, hjoin, hchars, List.map_append, List.map_cons, List.map_cons, String.ofList_toList]
  · intro hend
    have hnil : tail = [] := by
      by_contra hne'
      obtain ⟨init, c, rfl⟩ := (List.eq_nil_or_concat' tail).resolve_left hne'
      rw [String.toList_ofList, haround.line, ← List.append_assoc, List.getLast?_concat, Option.any_some,
        htail c (by simp)] at hend
      cases hend
    subst hnil
    have hpost : post = [] := by
      by_contra hpost
      obtain ⟨⟨c, hc, hbreak⟩, -⟩ := haround.back hpost
      rw [haround.line, List.append_nil] at hc
      rw [haround.oneLine c (List.mem_of_getLast? hc)] at hbreak
      cases hbreak
    refine ⟨?_, by rw [hpost]; rfl⟩
    rw [splitLines, hjoin, haround.glue hline, List.map_append, List.map_singleton, String.ofList_append,
      String.ofList_toList]

/-! ### The tickets -/

/-- What the walk has read in front of the row, where the row is read. -/
theorem sectionName_foldl_heading {before : List String} {body : String} (h : startsWith body "## TODO" = true) :
    ((before ++ [body]).foldl Walk.readLine {}).sectionName = some (strip body) := by
  have hhead : startsWith body "## " = true := by
    rw [startsWith_iff] at h ⊢
    exact List.IsPrefix.trans (by decide) h
  rw [List.foldl_append]
  show (Walk.readLine _ body).sectionName = _
  rw [readLine_heading hhead]

/-- Only one of the four headings begins with `## TODO`. -/
theorem todo_of_required {body : String} (h : startsWith body "## TODO" = true) (hs : strip body ∈ requiredHeadings) :
    strip body = "## TODO" := by
  obtain ⟨rest, hrest⟩ := startsWith_iff.mp h
  obtain ⟨pre, post, hbody, hpre, hpost⟩ := strip_parts body
  have hpre : pre = [] := by
    cases pre with
    | nil => rfl
    | cons c pre =>
      rw [hbody] at hrest
      have hc : '#' = c := (List.cons.inj hrest).1
      have hspace := hpre c List.mem_cons_self
      rw [← hc] at hspace
      cases hspace
  rw [hpre, List.nil_append] at hbody
  have hstart : "## TODO".toList <+: (strip body).toList ++ post := by
    rw [← hbody]
    exact ⟨rest, hrest⟩
  rw [requiredHeadings] at hs
  simp only [List.mem_cons, List.not_mem_nil, or_false] at hs
  rcases hs with hs | hs | hs | hs
  · rw [hs] at hstart
    obtain ⟨more, hmore⟩ := hstart
    exact absurd (congrArg (fun cs => cs[3]?) hmore) (by simp)
  · exact hs
  · rw [hs] at hstart
    obtain ⟨more, hmore⟩ := hstart
    exact absurd (congrArg (fun cs => cs[3]?) hmore) (by simp)
  · rw [hs] at hstart
    obtain ⟨more, hmore⟩ := hstart
    exact absurd (congrArg (fun cs => cs[3]?) hmore) (by simp)

/-! ### The claimed round trip -/

variable {n : ℕ} {priority description verify regression record : String} {needs : List String}

/-- A row that is not read alone is not read on the BOARD, and what is read of it is the ticket on the BOARD. -/
theorem record_of_added {w : Walk} {before after : List String} {t : Ticket} {row : Row}
    (hrow : readRow (maskPipes (strip line).toList) = some row)
    (herrors : ((before ++ line :: after).foldl Walk.readLine w).errors = [])
    (hnodup : w.ids.Nodup) (ht : t ∈ ((before ++ line :: after).foldl Walk.readLine w).tickets) (hid : t.id = row.id) :
    ∃ s, (before.foldl Walk.readLine w).sectionName = some s ∧ readRecord s line = some t := by
  rw [List.foldl_append, List.foldl_cons] at herrors
  obtain ⟨s, u, hs, hread, hu, hnew⟩ := readRecord_of_readLine hrow (errors_eq_nil_of_foldl herrors)
  have hids := nodup_ids_foldl (before ++ line :: after) hnodup
  rw [Walk.ids] at hids
  have hmem : u ∈ ((before ++ line :: after).foldl Walk.readLine w).tickets := by
    rw [List.foldl_append, List.foldl_cons]
    refine (tickets_isPrefix_foldl after _).subset ?_
    rw [readLine_of_readRecord hread hs hnew]
    exact List.mem_append_right _ List.mem_cons_self
  have hsame : t = u := List.inj_on_of_nodup_map hids ht hmem (hid.trans hu.symm)
  exact ⟨s, hs, hsame ▸ hread⟩

/-- A BOARD that is read without a report. -/
theorem walk_of_parse (h : (parseBoard boardText).errors = []) :
    ((splitLines boardText).foldl Walk.readLine {}).errors = [] ∧
      headingErrors ((splitLines boardText).foldl Walk.readLine {}).headings = [] :=
  List.append_eq_nil_iff.mp h

/-- A row that is read alone in TODO, put under its heading, is one ticket more on the BOARD. -/
theorem added_of_read {before after : List String} {body : String} {t : Ticket}
    (hboard : (parseBoard boardText).errors = []) (hlines : splitLines boardText = before ++ body :: after)
    (hnew : splitLines new = before ++ body :: line :: after) (hbody : startsWith body "## TODO" = true)
    (hstrip : strip body = "## TODO") (hread : readRecord "## TODO" line = some t)
    (hfresh : ∀ l ∈ splitLines boardText, ∀ row, readRow (maskPipes (strip l).toList) = some row → row.id ≠ t.id) :
    (parseBoard new).errors = [] ∧
      ∃ front back, (parseBoard boardText).tickets = front ++ back ∧ (parseBoard new).tickets = front ++ t :: back := by
  have hsplit : splitLines boardText = (before ++ [body]) ++ after := by rw [hlines]; simp
  have hsplit' : splitLines new = (before ++ [body]) ++ line :: after := by rw [hnew]; simp
  let w := (before ++ [body]).foldl Walk.readLine {}
  have hsection : w.sectionName = some "## TODO" := (sectionName_foldl_heading hbody).trans (congrArg some hstrip)
  have hnotin : t.id ∉ w.ids := by
    intro hmem
    rcases exists_row_of_mem_ids _ hmem with hmem | ⟨l, hl, row, hrow, hid⟩
    · cases hmem
    · exact hfresh l (by rw [hsplit]; exact List.mem_append_left _ hl) row hrow hid
  have hmore : Walk.OneMore t w.tickets w (w.readLine line) := by
    rw [readLine_of_readRecord hread hsection hnotin]
    exact ⟨rfl, rfl, rfl, [], by simp, by simp⟩
  have hrest := hmore.foldl after fun l hl => hfresh l (by rw [hsplit]; exact List.mem_append_right _ hl)
  obtain ⟨herrors, hheadings⟩ := walk_of_parse hboard
  have hold : (splitLines boardText).foldl Walk.readLine {} = after.foldl Walk.readLine w := by
    rw [hsplit, List.foldl_append]
  have hnow : (splitLines new).foldl Walk.readLine {} = after.foldl Walk.readLine (w.readLine line) := by
    rw [hsplit', List.foldl_append, List.foldl_cons]
  rw [hold] at herrors hheadings
  refine ⟨?_, ?_⟩
  · show ((splitLines new).foldl Walk.readLine {}).errors ++ headingErrors _ = []
    rw [hnow, hrest.errors, hrest.headings, herrors, hheadings]
    rfl
  · show ∃ front back, ((splitLines boardText).foldl Walk.readLine {}).tickets = _ ∧
      ((splitLines new).foldl Walk.readLine {}).tickets = _
    rw [hold, hnow]
    obtain ⟨back, hback, hback'⟩ := hrest.tickets
    exact ⟨_, back, hback, hback'⟩

/-- **The BOARD with the row.** The row that was rendered, put where `_insert_todo` puts it, is read as the ticket
that was added, and everything else as before, exactly when the texts are legible and the heading is there. -/
theorem added_iff (hboard : (parseBoard boardText).errors = []) (hpriority : isPriority priority = true)
    (hregression : regression = "" ∨ regression = "required") (hneeds : ∀ need ∈ needs, ∃ f : Frame, need = f.id)
    (hfresh : ∀ l ∈ splitLines boardText, ∀ row, readRow (maskPipes (strip l).toList) = some row → row.id ≠ "T-" ++ n.repr)
    (hrecord : ticketRecord p ("T-" ++ n.repr) priority description needs verify regression = .ok record)
    (hput : insertTodo p boardText record = .ok new) :
    Added (parseBoard boardText) (parseBoard new) ("T-" ++ n.repr) ("[" ++ priority ++ "] " ++ description)
        (addedFields needs regression verify) ↔ Legible boardText description verify := by
  have hrow : ∃ row, readRow (maskPipes (strip record).toList) = some row ∧ row.id = "T-" ++ n.repr :=
    ⟨_, (laid_record hpriority hregression hneeds hrecord).toFramed.readRow, id_newFrame n⟩
  obtain ⟨row, hrow, hrowid⟩ := hrow
  have hne : record ≠ "" := by
    rintro rfl
    cases hrow
  have hread := fun t => readRecord_record (t := t) hpriority hregression hneeds hrecord
  obtain ⟨-, before, body, after, l, hl, hlines, hbody, hstrip, hopen, hshut⟩ := insertTodo_lines hput hne
  have hsplit : before ++ body :: record :: after = (before ++ [body]) ++ record :: after := by simp
  constructor
  · intro hadded
    obtain ⟨t, front, back, hbefore, hafter, hid, -, -, hdescription, hfields⟩ := hadded.tickets
    obtain ⟨herrors, -⟩ := walk_of_parse hadded.errors
    cases hend : l.toList.getLast?.any isLineBreak with
    | false =>
      -- the row is read as the rest of a heading, and no ticket more is on the BOARD
      obtain ⟨hnew, hafter'⟩ := hshut hend
      have hheading : ∀ rest : String, startsWith (body ++ rest) "## " = true := by
        intro rest
        rw [startsWith_iff, String.toList_append]
        exact (List.IsPrefix.trans (by decide) (startsWith_iff.mp hbody)).trans (List.prefix_append _ _)
      have hsame : (parseBoard new).tickets = (parseBoard boardText).tickets := by
        show ((splitLines new).foldl Walk.readLine {}).tickets = ((splitLines boardText).foldl Walk.readLine {}).tickets
        have hbody' : startsWith body "## " = true := by simpa using hheading ""
        rw [hnew, hlines, hafter', List.foldl_append, List.foldl_append]
        show (Walk.readLine _ _).tickets = (Walk.readLine _ _).tickets
        rw [readLine_heading (hheading record), readLine_heading hbody']
      rw [hbefore, hafter] at hsame
      have hlen := congrArg List.length hsame
      simp at hlen
    | true =>
      have hnew := hopen hend
      rw [hsplit] at hnew
      rw [hnew] at herrors
      have hmem : t ∈ ((before ++ [body] ++ record :: after).foldl Walk.readLine {}).tickets := by
        rw [← hnew]
        show t ∈ (parseBoard new).tickets
        rw [hafter]
        simp
      obtain ⟨s, hs, hreads⟩ := record_of_added (w := {}) hrow herrors List.nodup_nil hmem (hid.trans hrowid.symm)
      rw [sectionName_foldl_heading hbody] at hs
      have hrequired : strip body ∈ requiredHeadings := by
        obtain ⟨-, -, -, hrequired, -⟩ := readRecord_eq_some_iff.mp hreads
        rwa [Option.some.inj hs]
      have htodo := todo_of_required hbody hrequired
      rw [← Option.some.inj hs, htodo] at hreads
      obtain ⟨hd, hv, rfl⟩ := (hread t).mp hreads
      obtain ⟨hended, hmask⟩ := (readDescription_iff hpriority).mp hdescription
      have hverify : String.ofList (barred (stripChars verify.toList)) = verify := by
        have hlast := congrArg List.getLast? hfields
        rw [addedFields, addedFields, List.getLast?_concat, List.getLast?_concat] at hlast
        exact congrArg Prod.snd (Option.some.inj hlast)
      obtain ⟨htrim, hmask'⟩ := barred_stripChars_iff.mp hverify
      exact ⟨⟨l, hl, hstrip.trans htodo, hend⟩, hended, htrim, ⟨hmask, hmask'⟩, hd, hv⟩
  · intro h
    obtain ⟨l', hl', htodo, hend⟩ := h.opens
    obtain rfl : l = l' := Option.some.inj (hl.symm.trans hl')
    have hreads := (hread _).mpr ⟨h.single.1, h.single.2, rfl⟩
    rw [hstrip] at htodo
    obtain ⟨herrors, front, back, hbefore, hafter⟩ :=
      added_of_read hboard hlines (hopen hend) hbody htodo hreads hfresh
    refine ⟨herrors, _, front, back, hbefore, hafter, rfl, rfl, rfl, ?_, ?_⟩
    · exact (readDescription_iff hpriority).mpr ⟨h.ended, h.unmasked.1⟩
    · show addedFields needs regression _ = _
      rw [barred_stripChars_iff.mpr ⟨h.trimmed, h.unmasked.2⟩]

/-- What has been checked of a ticket that is added. -/
theorem ticketAdd_ok {w : AddWorld} {logText : String} {historyMax : Option ℕ}
    (h : ticketAdd w boardText logText historyMax priority description needs verify regression = .ok (record, new)) :
    (parseBoard boardText).errors = [] ∧ isPriority (upper (strip priority)) = true ∧
      (lower (strip regression) = "" ∨ lower (strip regression) = "required") ∧
      (∀ need ∈ needs, ((parseBoard boardText).ticket need).isSome = true) ∧
      addRecord w boardText ("T-" ++ (nextTicketId w.words boardText logText historyMax).repr) (upper (strip priority))
        description needs verify (lower (strip regression)) = .ok (record, new) := by
  unfold ticketAdd at h
  dsimp only at h
  split_ifs at h with hblank hpriority hplaceholder hregression herrors
  · split at h <;> cases h
  · cases hsingle : singleArguments w description verify (lower (strip regression)) with
    | error refusal => rw [hsingle] at h; cases h
    | ok u =>
      rw [hsingle] at h
      dsimp only at h
      split at h
      · cases h
      · next hneeds =>
        refine ⟨not_not.mp herrors, by simpa using hpriority, ?_, fun need hneed => ?_, h⟩
        · by_contra hnot
          exact hregression ⟨fun heq => hnot (.inl heq), fun heq => hnot (.inr heq)⟩
        · have hnone := List.find?_eq_none.mp hneeds need hneed
          exact Option.isSome_iff_ne_none.mpr (by simpa using hnone)

/-- A ticket of the BOARD has the id of a frame. -/
theorem exists_frame_of_ticket {id : String} (h : ((parseBoard boardText).ticket id).isSome = true) :
    ∃ f : Frame, id = f.id := by
  obtain ⟨t, ht⟩ := Option.isSome_iff_exists.mp h
  have hmem : id ∈ ((splitLines boardText).foldl Walk.readLine {}).ids := by
    rw [Walk.ids]
    exact List.mem_map.mpr ⟨t, List.mem_of_find?_eq_some ht, by simpa using List.find?_some ht⟩
  rcases exists_row_of_mem_ids _ hmem with hmem | ⟨line, -, row, hrow, rfl⟩
  · cases hmem
  · obtain ⟨f, -, -, -, hid, -⟩ := exists_frame hrow
    exact ⟨f, hid⟩

/-- A ticket that is added, with a row within the cap, is read back as it was given, on a BOARD that is otherwise
read as before, exactly when its texts are legible and the row is put behind the heading. -/
theorem ticket_round_trip_iff {w : AddWorld} {logText : String} {historyMax : Option ℕ}
    (h : ticketAdd w boardText logText historyMax priority description needs verify regression = .ok (record, new))
    (hlive : record.length ≤ maxLiveRecordChars) :
    Added (parseBoard boardText) (parseBoard new)
        ("T-" ++ (nextTicketId w.words boardText logText historyMax).repr)
        ("[" ++ upper (strip priority) ++ "] " ++ w.redact description)
        (addedFields needs (lower (strip regression)) (w.redact verify)) ↔
      Legible boardText (w.redact description) (w.redact verify) := by
  obtain ⟨hboard, hpriority, hregression, hneeds, hadd⟩ := ticketAdd_ok h
  unfold addRecord at hadd
  split at hadd
  · cases hadd
  next out hrecord =>
  cases hput : insertTodo w.printable boardText
      (if out.length ≤ maxLiveRecordChars then out else w.externalize out) with
  | error refusal =>
    dsimp only at hadd
    rw [hput] at hadd
    cases hadd
  | ok board =>
    dsimp only at hadd
    rw [hput] at hadd
    obtain ⟨rfl, rfl⟩ := Prod.mk.inj (Except.ok.inj hadd)
    rw [if_pos hlive] at hput
    exact added_iff hboard hpriority hregression (fun need hneed => exists_frame_of_ticket (hneeds need hneed))
      (fun l hl row hrow => row_id_ne_next hl hrow) hrecord hput

deriving instance DecidableEq for Refusal

/-- A BOARD without tickets. -/
def emptyBoard : String := "# BOARD\n\n## DOING\n\n## TODO\n\n## DONE\n\n## BLOCKED\n"

theorem not_isSpace {c : Char} (h : isSpace c = true) : (!isSpace c) = false := by rw [h, Bool.not_true]

/-- Texts without credentials. -/
def plainAddWorld : AddWorld where
  printable := samplePrintable
  words := ⟨fun c => !isSpace c, @not_isSpace⟩
  redact := id
  externalize := id

theorem bar_round_trip :
    ticketAdd plainAddWorld emptyBoard "" none "p1" "read a | b" [] "run it" "" =
        .ok ("- [ ] T-1 [P1] read a \\| b | verify: run it",
          "# BOARD\n\n## DOING\n\n## TODO\n- [ ] T-1 [P1] read a \\| b | verify: run it\n\n## DONE\n\n## BLOCKED\n") ∧
      (Added (parseBoard emptyBoard) (parseBoard
          "# BOARD\n\n## DOING\n\n## TODO\n- [ ] T-1 [P1] read a \\| b | verify: run it\n\n## DONE\n\n## BLOCKED\n")
          ("T-" ++ (nextTicketId plainAddWorld.words emptyBoard "" none).repr)
          ("[" ++ upper (strip "p1") ++ "] " ++ plainAddWorld.redact "read a | b")
          (addedFields [] (lower (strip "")) (plainAddWorld.redact "run it")) ↔
        Legible emptyBoard (plainAddWorld.redact "read a | b") (plainAddWorld.redact "run it")) := by
  have hadd : ticketAdd plainAddWorld emptyBoard "" none "p1" "read a | b" [] "run it" "" =
      .ok ("- [ ] T-1 [P1] read a \\| b | verify: run it",
        "# BOARD\n\n## DOING\n\n## TODO\n- [ ] T-1 [P1] read a \\| b | verify: run it\n\n## DONE\n\n## BLOCKED\n") := by
    decide +kernel
  exact ⟨hadd, ticket_round_trip_iff hadd (by decide +kernel)⟩

/-- A space at the end of a description is not read back. -/
theorem trailing_space_lost :
    ∃ record new, ticketAdd plainAddWorld emptyBoard "" none "P1" "fix it " [] "run it" "" = .ok (record, new) ∧
      record.length ≤ maxLiveRecordChars ∧
      ¬Added (parseBoard emptyBoard) (parseBoard new) "T-1" "[P1] fix it " (addedFields [] "" "run it") := by
  refine ⟨"- [ ] T-1 [P1] fix it  | verify: run it",
    "# BOARD\n\n## DOING\n\n## TODO\n- [ ] T-1 [P1] fix it  | verify: run it\n\n## DONE\n\n## BLOCKED\n",
    by decide +kernel, by decide +kernel, fun h => ?_⟩
  obtain ⟨t, front, back, -, hafter, -, -, -, hdescription, -⟩ := h.tickets
  have hall : ∀ u ∈ (parseBoard
      "# BOARD\n\n## DOING\n\n## TODO\n- [ ] T-1 [P1] fix it  | verify: run it\n\n## DONE\n\n## BLOCKED\n").tickets,
      u.description = "[P1] fix it" := by decide +kernel
  rw [hall t (by rw [hafter]; simp)] at hdescription
  exact absurd hdescription (by decide)

end Saipen.Board
