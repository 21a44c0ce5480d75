import Saipen.Board.Rows

/-! # Reading laid out rows

A row is laid out when its frame and its parts are what both the reader and the writers see in it. The
reader takes the ticket off its parts, and every row that it accepts is laid out unless a bar of its own
stands at an edge of its text. -/

namespace Saipen.Board

open Text

/-- A line that is a row: its frame, and its description and its fields with bars between them. -/
structure Framed (line : String) (f : Frame) (part : List Char) (parts : List (List Char)) : Prop where
  text : maskPipes line.toList = f.text ++ joinBars (part :: parts)
  flush : Flush part
  filled : ∀ p ∈ part :: parts, rtrim p ≠ []

/-- A row whose bars are the ones between its parts, and which the frame does not touch. -/
structure Laid (line : String) (f : Frame) (part : List Char) (parts : List (List Char)) : Prop
    extends Framed line f part parts where
  cut : Cut ((' ' :: part) :: parts)

theorem exists_last (part : List Char) (parts : List (List Char)) :
    ∃ init last, part :: parts = init ++ [last] :=
  ⟨_, _, (List.dropLast_concat_getLast (List.cons_ne_nil part parts)).symm⟩

theorem joinBars_cons_append (cs part : List Char) (parts : List (List Char)) :
    joinBars ((cs ++ part) :: parts) = cs ++ joinBars (part :: parts) := by
  cases parts with
  | nil => rw [joinBars_singleton, joinBars_singleton]
  | cons next parts => rw [joinBars_cons_cons, joinBars_cons_cons, List.append_assoc]

theorem Frame.bar_notMem (f : Frame) : '|' ∉ f.text := by
  intro h
  simp only [Frame.text, Frame.opening, List.mem_append, List.mem_cons, List.not_mem_nil, or_false] at h
  rcases h with h | (h | h | h | h | h | h | h | h) | h | h
  · have := f.lead_space _ h; cases this
  · cases h
  · cases h
  · cases h
  · have := f.isBox; rw [← h] at this; cases this
  · cases h
  · cases h
  · cases h
  · cases h
  · exact absurd (f.decimal _ h) (by decide)
  · have := f.gap_space _ h; cases this

variable {line : String} {f : Frame} {part : List Char} {parts : List (List Char)}

/-- What the writers cut the line into. -/
theorem Laid.split (h : Laid line f part parts) :
    splitBars (maskPipes line.toList) = (f.text ++ part) :: parts := by
  rw [h.text, ← joinBars_cons_append]
  exact splitBars_joinBars (List.cons_ne_nil _ _) (h.cut.prepend f.bar_notMem)

theorem Laid.cutParts (h : Laid line f part parts) : Cut (part :: parts) := by
  have := Cut.prepend (List.not_mem_nil (a := '|')) h.cut
  rwa [List.nil_append] at this

/-- The parts of a trimmed row. -/
theorem Laid.splitBars_rtrim (h : Laid line f part parts) :
    (splitBars (rtrim (joinBars (part :: parts)))).map cleanPart = (part :: parts).map cleanPart := by
  obtain ⟨init, last, hparts⟩ := exists_last part parts
  have hlast : rtrim last ≠ [] := h.filled last (by rw [hparts]; simp)
  have hcut : Cut (init ++ [rtrim last]) := by
    have := h.cutParts
    rw [hparts, cut_concat_iff] at this
    exact cut_concat_iff.mpr ⟨this.1, fun hin => this.2 (hin.trans (rtrim_isPrefix last).isInfix)⟩
  rw [hparts, rtrim_joinBars hlast, splitBars_joinBars (by simp) hcut, List.map_append, List.map_append,
    List.map_singleton, List.map_singleton, cleanPart_rtrim]

/-- A row whose parts are not blank is not blank. -/
theorem rtrim_joinBars_ne_nil (h : ∀ p ∈ part :: parts, rtrim p ≠ []) : rtrim (joinBars (part :: parts)) ≠ [] := by
  obtain ⟨init, last, hparts⟩ := exists_last part parts
  have hlast : rtrim last ≠ [] := h last (by rw [hparts]; simp)
  obtain ⟨pre, hpre⟩ := exists_joinBars_concat init
  rw [hparts, hpre, rtrim_append_of_ne_nil hlast]
  exact List.append_ne_nil_of_right_ne_nil _ hlast

/-- The row that the reader finds on the line. -/
theorem Framed.readRow (h : Framed line f part parts) :
    readRow (maskPipes (strip line).toList) =
      some ⟨f.checkbox, f.id, rtrim (joinBars (part :: parts))⟩ := by
  have hhead : ∀ c ∈ part.head?, (joinBars (part :: parts)).head? = some c := by
    intro c hc
    rw [← List.append_nil part, joinBars_cons_append, List.head?_append, Option.mem_def.mp hc]
    rfl
  have hpart : part ≠ [] := by
    rintro rfl
    exact h.filled [] List.mem_cons_self rfl
  obtain ⟨c, more, hmore⟩ := List.exists_cons_of_ne_nil hpart
  have hflush : Flush (joinBars (part :: parts)) := by
    intro d hd
    rw [hhead c (by rw [hmore]; rfl)] at hd
    exact h.flush d (by rw [hmore]; exact hd)
  have hne := rtrim_joinBars_ne_nil h.filled
  have hdrop : (f.text ++ joinBars (part :: parts)).dropWhile isSpace =
      f.opening ++ joinBars (part :: parts) := by
    rw [Frame.text, List.append_assoc, List.dropWhile_append_of_pos f.lead_space, Frame.opening,
      List.append_assoc]
    exact List.dropWhile_cons_of_neg (by decide)
  rw [maskPipes_strip, h.text, stripChars_eq, hdrop, rtrim_append_of_ne_nil hne]
  exact readRow_opening f hflush.rtrim

/-! ### Records -/

/-- What the walk reads of a line in a section, where it reports nothing. -/
def readRecord (s line : String) : Option Ticket :=
  let w := Walk.readLine { sectionName := some s } line
  match w.tickets, w.errors with
  | [t], [] => some t
  | _, _ => none

theorem maskPipes_eq_cons {cs ds : List Char} {d : Char} (h : maskPipes cs = d :: ds)
    (hd : d ≠ pipeSentinel) : ∃ more, cs = d :: more ∧ maskPipes more = ds := by
  cases cs using maskPipes.fun_cases with
  | case1 cs =>
    rw [maskPipes] at h
    exact absurd (List.cons.inj h).1.symm hd
  | case2 c cs hne =>
    rw [maskPipes_cons_of_ne hne] at h
    obtain ⟨rfl, hcs⟩ := List.cons.inj h
    exact ⟨cs, rfl, hcs⟩
  | case3 => cases h

/-- A row is walked as a ticket. -/
theorem Walk.readLine_row {row : Row} (h : readRow (maskPipes (strip line).toList) = some row) (w : Walk) :
    w.readLine line = w.readTicket line := by
  obtain ⟨g, -, htext, -⟩ := exists_frame h
  have hopen : ∃ more, (strip line).toList = '-' :: ' ' :: '[' :: more := by
    obtain ⟨cs, hcs, h1⟩ := maskPipes_eq_cons htext (by decide)
    obtain ⟨cs', hcs', h2⟩ := maskPipes_eq_cons h1 (by decide)
    obtain ⟨more, hmore, -⟩ := maskPipes_eq_cons h2 (by decide)
    exact ⟨more, by rw [hcs, hcs', hmore]⟩
  obtain ⟨more, hmore⟩ := hopen
  obtain ⟨pre, post, hline, hpre, -⟩ := strip_parts line
  rw [hmore] at hline
  have hhead : startsWith line "## " = false := by
    rw [startsWith, Bool.eq_false_iff]
    intro hstart
    obtain ⟨rest, hrest⟩ := List.isPrefixOf_iff_prefix.mp hstart
    rw [hline] at hrest
    cases pre with
    | nil => cases (List.cons.inj hrest).1
    | cons c pre =>
      have hc := hpre c List.mem_cons_self
      rw [← (List.cons.inj hrest).1] at hc
      cases hc
  have hblank : strip line ≠ "" := by
    intro hnil
    rw [hnil] at hmore
    cases hmore
  have hbox : "- [".toList.isPrefixOf (line.toList.dropWhile isSpace) = true := by
    rw [hline, List.dropWhile_append_of_pos hpre]
    rfl
  rw [Walk.readLine, if_neg (by simp [hhead]), if_neg hblank, if_pos hbox]

theorem readRecord_eq_some_iff {s : String} {t : Ticket} : readRecord s line = some t ↔
    ∃ row, readRow (maskPipes (strip line).toList) = some row ∧ embedsTicket row.rest = false ∧
      s ∈ requiredHeadings ∧ rowTicket s line row = (t, []) := by
  constructor
  · intro h
    dsimp only [readRecord] at h
    cases hrow : Board.readRow (maskPipes (strip line).toList) with
    | none =>
      -- Nothing that is no row leaves a ticket behind.
      have hnone : (Walk.readLine { sectionName := some s } line).tickets = [] := by
        unfold Walk.readLine
        split
        · rfl
        split
        · rfl
        split
        · rw [Walk.readTicket, hrow]
          rfl
        · dsimp only
          split <;> rfl
      rw [hnone] at h
      cases h
    | some row =>
      rw [Walk.readLine_row hrow, Walk.readTicket, hrow] at h
      dsimp only at h
      refine ⟨row, rfl, ?_⟩
      by_cases hemb : embedsTicket row.rest = true
      · rw [if_pos hemb] at h
        cases h
      by_cases hs : s ∈ requiredHeadings
      · rw [if_neg hemb, if_neg (not_not.mpr hs), List.map_nil, if_neg List.not_mem_nil] at h
        split at h
        · next htickets herrors =>
          obtain rfl := Option.some.inj h
          exact ⟨Bool.eq_false_iff.mpr hemb, hs, Prod.ext (List.singleton_inj.mp htickets) herrors⟩
        · cases h
      · rw [if_neg hemb, if_pos hs] at h
        cases h
  · rintro ⟨row, hrow, hemb, hs, ht⟩
    rw [readRecord, Walk.readLine_row hrow]
    simp [Walk.readTicket, hrow, hemb, hs, ht]

/-- The fields that parts are read as. -/
structure FieldsOf (ps : List String) (fs : List (String × String)) : Prop where
  read : ps.map (fun p => fieldPart p.toList) = fs.map some
  known : ∀ x ∈ fs, x.1 ∈ knownFields
  distinct : (fs.map (·.1)).Nodup

theorem FieldsOf.ne_none {ps : List String} {fs : List (String × String)} (h : FieldsOf ps fs) {p : String}
    (hp : p ∈ ps) : fieldPart p.toList ≠ none := by
  have hmem : fieldPart p.toList ∈ fs.map some := h.read ▸ List.mem_map_of_mem hp
  obtain ⟨x, -, hx⟩ := List.mem_map.mp hmem
  rw [← hx]
  exact Option.some_ne_none x

/-- The fields that are read without a report. -/
theorem readFields_eq_ok_iff {id : String} {ps : List String} {acc fs : List (String × String)}
    (hacc : (acc.map (·.1)).Nodup) : readFields id ps acc = (fs, []) ↔
      ∃ new, fs = acc ++ new ∧ ps.map (fun p => fieldPart p.toList) = new.map some ∧
        (∀ x ∈ new, x.1 ∈ knownFields) ∧ (fs.map (·.1)).Nodup := by
  induction ps generalizing acc with
  | nil =>
    rw [readFields]
    constructor
    · intro h
      obtain ⟨rfl, -⟩ := Prod.mk.inj h
      exact ⟨[], (List.append_nil _).symm, rfl, List.forall_mem_nil _, hacc⟩
    · rintro ⟨new, rfl, hnew, -⟩
      have : new = [] := by simpa using hnew.symm
      rw [this, List.append_nil]
  | cons p ps ih =>
    rw [readFields]
    cases hp : fieldPart p.toList with
    | none =>
      constructor
      · intro h
        cases (Prod.mk.inj h).2
      · rintro ⟨new, -, hnew, -⟩
        cases new with
        | nil => cases hnew
        | cons x new =>
          rw [List.map_cons, List.map_cons, hp] at hnew
          cases (List.cons.inj hnew).1
    | some x =>
      obtain ⟨name, value⟩ := x
      dsimp only
      by_cases hknown : name ∈ knownFields
      · rw [if_neg (not_not.mpr hknown)]
        by_cases hmem : name ∈ acc.map (·.1)
        · rw [if_pos hmem]
          constructor
          · intro h
            cases (Prod.mk.inj h).2
          · rintro ⟨new, rfl, hnew, -, hnodup⟩
            cases new with
            | nil => cases hnew
            | cons x new =>
              rw [List.map_cons, List.map_cons, hp] at hnew
              obtain rfl := Option.some.inj (List.cons.inj hnew).1
              rw [List.map_append, List.nodup_append] at hnodup
              exact absurd rfl (hnodup.2.2 name hmem name List.mem_cons_self)
        · rw [if_neg hmem]
          have hacc' : ((acc ++ [(name, value)]).map (·.1)).Nodup := by
            rw [List.map_append, List.nodup_append]
            refine ⟨hacc, by simp, fun a ha b hb => ?_⟩
            rintro rfl
            obtain rfl : a = name := by simpa using hb
            exact hmem ha
          rw [ih hacc']
          constructor
          · rintro ⟨new, rfl, hnew, hall, hnodup⟩
            refine ⟨(name, value) :: new, by simp, by rw [List.map_cons, List.map_cons, hp, hnew], ?_, hnodup⟩
            exact (List.forall_mem_cons (p := fun x : String × String => x.1 ∈ knownFields)).mpr ⟨hknown, hall⟩
          · rintro ⟨new, rfl, hnew, hall, hnodup⟩
            cases new with
            | nil => cases hnew
            | cons x new =>
              rw [List.map_cons, List.map_cons, hp] at hnew
              obtain rfl := Option.some.inj (List.cons.inj hnew).1
              exact ⟨new, by simp, (List.cons.inj hnew).2, fun x hx => hall x (List.mem_cons_of_mem _ hx), hnodup⟩
      · rw [if_pos hknown]
        constructor
        · intro h
          cases (Prod.mk.inj h).2
        · rintro ⟨new, -, hnew, hall, -⟩
          cases new with
          | nil => cases hnew
          | cons x new =>
            rw [List.map_cons, List.map_cons, hp] at hnew
            obtain rfl := Option.some.inj (List.cons.inj hnew).1
            exact absurd (hall _ List.mem_cons_self) hknown

theorem readFields_iff {id : String} {ps : List String} {fs : List (String × String)} :
    readFields id ps [] = (fs, []) ↔ FieldsOf ps fs := by
  rw [readFields_eq_ok_iff (by simp)]
  constructor
  · rintro ⟨new, rfl, hread, hknown, hnodup⟩
    exact ⟨hread, hknown, hnodup⟩
  · intro h
    exact ⟨fs, rfl, h.read, h.known, h.distinct⟩

/-- The ticket that a laid out row is read as. -/
def laidTicket (s line : String) (f : Frame) (part : List Char) (fs : List (String × String)) : Ticket :=
  ⟨f.id, s, f.checkbox, ticketRefs ((fs.lookup "needs").getD ""), fs, line, cleanPart part⟩

/-- What a laid out row is read as. -/
theorem Laid.reads_iff (h : Laid line f part parts) {s : String} {t : Ticket} :
    readRecord s line = some t ↔ s ∈ requiredHeadings ∧ (∀ p ∈ part :: parts, embedsTicket p = false) ∧
      ∃ fs, FieldsOf (parts.map cleanPart) fs ∧ t = laidTicket s line f part fs := by
  have hparts : rowParts ⟨f.checkbox, f.id, rtrim (joinBars (part :: parts))⟩ = (part :: parts).map cleanPart :=
    h.splitBars_rtrim
  have hticket : ∀ r : List (String × String) × List BoardError,
      readFields f.id (parts.map cleanPart) [] = r →
      rowTicket s line ⟨f.checkbox, f.id, rtrim (joinBars (part :: parts))⟩ = (laidTicket s line f part r.1, r.2) := by
    rintro r rfl
    rw [rowTicket, hparts]
    rfl
  rw [readRecord_eq_some_iff]
  constructor
  · rintro ⟨row, hrow, hemb, hs, ht⟩
    obtain rfl := Option.some.inj (h.readRow.symm.trans hrow)
    rw [embedsTicket_row, List.any_eq_false] at hemb
    rw [hticket _ rfl, Prod.mk.injEq] at ht
    refine ⟨hs, fun p hp => Bool.eq_false_iff.mpr (hemb p hp), _, readFields_iff.mp (Prod.ext rfl ht.2), ht.1.symm⟩
  · rintro ⟨hs, hemb, fs, hfs, rfl⟩
    refine ⟨_, h.readRow, ?_, hs, hticket _ (readFields_iff.mpr hfs)⟩
    rw [embedsTicket_row, List.any_eq_false]
    exact fun p hp => by rw [hemb p hp]; exact Bool.false_ne_true

/-! ### Rows that are laid out -/

/-- A row whose text, with a space on either side, begins or ends with a bar. -/
def bareBar (line : String) : Bool :=
  match readRow (maskPipes (strip line).toList) with
  | some row => bar.isPrefixOf (' ' :: (row.rest ++ [' '])) || bar.isSuffixOf (' ' :: (row.rest ++ [' ']))
  | none => false

/-- What is stripped off a text. -/
theorem exists_stripChars (cs : List Char) : ∃ lead trail, cs = lead ++ (stripChars cs ++ trail) ∧
    (∀ c ∈ lead, isSpace c = true) ∧ ∀ c ∈ trail, isSpace c = true := by
  obtain ⟨trail, hinner, htrail⟩ := exists_trail (cs.dropWhile isSpace)
  refine ⟨cs.takeWhile isSpace, trail, ?_, mem_takeWhile_spaces, htrail⟩
  rw [stripChars_eq, ← hinner, List.takeWhile_append_dropWhile]

theorem ne_nil_of_fieldPart {p : List Char} (h : fieldPart (cleanPart p).toList ≠ none) : rtrim p ≠ [] := by
  intro hnil
  refine h ?_
  rw [← cleanPart_rtrim, hnil]
  rfl

/-- White space at the end of a text is white space at the end of its last part. -/
theorem joinBars_concat_append (init : List (List Char)) (last trail : List Char) :
    joinBars (init ++ [last]) ++ trail = joinBars (init ++ [last ++ trail]) := by
  obtain ⟨pre, hpre⟩ := exists_joinBars_concat init
  rw [hpre, hpre, List.append_assoc]

/-- No bar begins at the end of the row when one is put behind it. -/
def Ends (part : List Char) (parts : List (List Char)) : Prop :=
  ∀ p ∈ ((' ' :: part) :: parts).getLast?, Closed p

/-- A row that the reader accepts is laid out, unless a bar stands at its edge. -/
theorem exists_laid {s : String} {t : Ticket} (h : readRecord s line = some t)
    (hbare : bareBar line = false) : ∃ f part parts, Laid line f part parts ∧ Ends part parts := by
  obtain ⟨row, hrow, -, -, hticket⟩ := readRecord_eq_some_iff.mp h
  rw [bareBar, hrow] at hbare
  dsimp only at hbare
  rw [Bool.or_eq_false_iff, Bool.eq_false_iff, Bool.eq_false_iff, ne_eq, ne_eq,
    List.isPrefixOf_iff_prefix, List.isSuffixOf_iff_suffix] at hbare
  obtain ⟨hfront, hback⟩ := hbare
  obtain ⟨g, -, htext, -, -, hflush⟩ := exists_frame hrow
  have hne : row.rest ≠ [] := by
    intro hnil
    obtain ⟨pre, c, hgap⟩ := (List.eq_nil_or_concat' g.gap).resolve_left g.gap_ne
    have hopening : g.opening = ['-', ' ', '[', g.checkbox, ']', ' ', 'T', '-'] ++ (g.digits ++ pre) ++ [c] := by
      rw [Frame.opening, hgap, List.append_assoc, List.append_assoc]
    have hlast := last_rtrim ((maskPipes line.toList).dropWhile isSpace) c (by
      rw [← stripChars_eq, ← maskPipes_strip, htext, hnil, hopening, List.append_nil, List.getLast?_concat]
      rfl)
    rw [g.gap_space c (by rw [hgap]; simp)] at hlast
    cases hlast
  rw [maskPipes_strip] at htext
  obtain ⟨lead, trail, hline, hl, htrail⟩ := exists_stripChars (maskPipes line.toList)
  rw [htext] at hline
  let f : Frame := { g with lead := lead, lead_space := hl }
  -- What is read as fields is not blank, and the description begins the text of the row.
  obtain ⟨p, ps, hparts⟩ := List.exists_cons_of_ne_nil (splitBars_ne_nil row.rest)
  have hrest : joinBars (p :: ps) = row.rest := by rw [← hparts, joinBars_splitBars]
  have hcut : Cut (p :: ps) := hparts ▸ cut_splitBars row.rest
  have hfilled : ∀ q ∈ p :: ps, rtrim q ≠ [] := by
    intro q hq
    rcases List.mem_cons.mp hq with rfl | hq
    · intro hblank
      cases q with
      | nil =>
        cases ps with
        | nil => exact hne hrest.symm
        | cons r rs =>
          have := hflush ' ' (by rw [← hrest]; rfl)
          cases this
      | cons c q =>
        have hc := hflush c (by rw [← hrest, show c :: q = [c] ++ q from rfl, joinBars_cons_append]; rfl)
        rw [rtrim_eq_nil.mp hblank c List.mem_cons_self] at hc
        cases hc
    · have hfields : FieldsOf (ps.map cleanPart) t.fields := by
        have hrow : rowParts row = (p :: ps).map cleanPart := by rw [← hparts]; rfl
        rw [rowTicket, hrow] at hticket
        obtain ⟨rfl, herrors⟩ := Prod.mk.inj hticket
        exact readFields_iff.mp (Prod.ext rfl herrors)
      exact ne_nil_of_fieldPart (hfields.ne_none (List.mem_map_of_mem hq))
  obtain ⟨init, last, hlast⟩ := exists_last p ps
  rw [hlast, cut_concat_iff] at hcut
  have hclosed : Closed last := by
    refine closed_of_not_isInfix hcut.2 fun hsuffix => hback (hsuffix.trans ?_)
    obtain ⟨pre, hpre⟩ := exists_joinBars_concat init
    exact ⟨' ' :: pre, by rw [← hrest, hlast, hpre, List.append_assoc, List.cons_append]⟩
  obtain ⟨part, parts, hlaid⟩ := List.exists_cons_of_ne_nil (l := init ++ [last ++ trail]) (by simp)
  have hjoin : joinBars (part :: parts) = row.rest ++ trail := by
    rw [← hlaid, ← joinBars_concat_append, ← hlast, hrest]
  have hfilled' : ∀ q ∈ part :: parts, rtrim q ≠ [] := by
    rw [← hlaid]
    intro q hq
    rcases List.mem_append.mp hq with hq | hq
    · exact hfilled q (by rw [hlast]; exact List.mem_append_left _ hq)
    · rw [List.mem_singleton.mp hq, rtrim_append htrail]
      exact hfilled last (by rw [hlast]; simp)
  obtain ⟨d, more, hmore⟩ := List.exists_cons_of_ne_nil hne
  have hbar : ¬ bar <+: ' ' :: (d :: more ++ trail) := by
    intro hpre
    refine hfront ?_
    obtain ⟨rest, heq⟩ := hpre
    have hd : '|' = d := (List.cons.inj (List.cons.inj heq).2).1
    rw [hmore, ← hd]
    cases more with
    | nil => exact ⟨[], rfl⟩
    | cons e more =>
      have he : ' ' = e := (List.cons.inj (List.cons.inj (List.cons.inj heq).2).2).1
      exact ⟨more ++ [' '], by rw [← he]; rfl⟩
  refine ⟨f, part, parts, ⟨⟨?_, ?_, hfilled'⟩, ?_⟩, ?_⟩
  · rw [hline, hjoin, Frame.text, List.append_assoc, List.append_assoc]
    rfl
  · intro c hc
    obtain ⟨q, rfl⟩ := List.head?_eq_some_iff.mp hc
    rw [show c :: q = [c] ++ q from rfl, joinBars_cons_append, hmore] at hjoin
    exact hflush c (by rw [hmore, (List.cons.inj hjoin).1]; rfl)
  · have hwhole : Cut (part :: parts) := by
      rw [← hlaid, cut_concat_iff]
      exact ⟨hcut.1, (hclosed.append htrail).not_isInfix⟩
    refine hwhole.cons_char fun hpre => hbar ?_
    rwa [hjoin, hmore] at hpre
  · cases init with
    | nil =>
      -- The description is the whole text, so the frame stands in front of it.
      obtain ⟨rfl, rfl⟩ := List.cons.inj hlaid
      have hwhole : last = row.rest := by
        rw [← hrest, hlast, List.nil_append, joinBars_singleton]
      have hspaced : Closed (' ' :: last) := by
        refine closed_of_not_isInfix (fun hin => ?_) ?_
        · rcases List.infix_cons_iff.mp hin with hpre | hin
          · exact hfront (hpre.trans (by rw [hwhole]; exact ⟨[' '], rfl⟩))
          · exact hcut.2 hin
        · rw [List.cons_append, hwhole]
          exact hback
      rintro q hq
      obtain rfl := Option.some.inj hq
      exact hspaced.append htrail
    | cons r init =>
      obtain ⟨-, hparts⟩ := List.cons.inj hlaid
      have hget : ((' ' :: part) :: parts).getLast? = some (last ++ trail) := by
        rw [← hparts]
        exact List.getLast?_concat (l := (' ' :: part) :: init)
      intro q hq
      rw [hget] at hq
      obtain rfl := Option.some.inj hq
      exact hclosed.append htrail

end Saipen.Board
