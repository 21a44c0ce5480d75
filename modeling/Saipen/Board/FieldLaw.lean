import Saipen.Board.Writing

/-! # Writers and reader of a row

What the writers of a field put together is read as the ticket with that one field changed exactly where
they find the field that the reader finds, and the value holds nothing that the reader takes for
something else. -/

namespace Saipen.Board

open Text

/-! ### The law -/

/-- A ticket with the one field changed and nothing else. -/
structure Rewrites (t : Ticket) (field : String) (value : Option String) (t' : Ticket) : Prop where
  changed : t'.fields.lookup field = value
  kept : ∀ k, k ≠ field → t'.fields.lookup k = t.fields.lookup k
  description : t'.description = t.description
  sectionName : t'.sectionName = t.sectionName
  id : t'.id = t.id
  checkbox : t'.checkbox = t.checkbox

/-- A value that may be written to the field of a row. -/
structure SetSafe (line field value : String) : Prop where
  known : field ∈ knownFields
  flush : ∀ p ∈ fieldsSplit line, partName p = some field → Flush p
  plain : readBack value = value
  bars : ¬ bar <:+: ' ' :: value.toList
  closed : followed field (fieldsSplit line) = true → Closed (' ' :: value.toList)
  single : embedsTicket value.toList = false

/-- A field that may be taken out of a row: the writers find it where the reader does. -/
def RemoveSafe (line field : String) : Prop :=
  ∀ p ∈ fieldsSplit line, matchesField field p = true ↔ partName p = some field

/-! ### Values that are read back -/

theorem length_unescape_le (cs : List Char) : (unescape cs).length ≤ cs.length := by
  induction cs using unescape.induct with
  | case1 cs ih =>
    rw [unescape]
    simp only [List.length_cons]
    omega
  | case2 c cs hne ih =>
    rw [unescape]
    · simp only [List.length_cons]
      omega
    · exact hne
  | case3 => exact Nat.le_refl _

theorem length_stripChars_le (cs : List Char) : (stripChars cs).length ≤ cs.length := by
  obtain ⟨lead, trail, hcs, -, -⟩ := exists_stripChars cs
  have := congrArg List.length hcs
  rw [List.length_append, List.length_append] at this
  omega

theorem length_maskPipes_le (cs : List Char) : (maskPipes cs).length ≤ cs.length := by
  induction cs using maskPipes.induct with
  | case1 cs ih =>
    rw [maskPipes]
    simp only [List.length_cons]
    omega
  | case2 c cs hne ih =>
    rw [maskPipes]
    · simp only [List.length_cons]
      omega
    · exact hne
  | case3 => exact Nat.le_refl _

/-- Masking that takes nothing away changes nothing. -/
theorem maskPipes_of_length {cs : List Char} (h : (maskPipes cs).length = cs.length) : maskPipes cs = cs := by
  induction cs using maskPipes.induct with
  | case1 cs ih =>
    have := length_maskPipes_le cs
    rw [maskPipes] at h
    simp only [List.length_cons] at h
    omega
  | case2 c cs hne ih =>
    have hmask := maskPipes_cons_of_ne hne
    rw [hmask] at h ⊢
    rw [ih (Nat.succ.inj h)]
  | case3 => rfl

theorem stripChars_of_length {cs : List Char} (h : (stripChars cs).length = cs.length) : stripChars cs = cs := by
  obtain ⟨lead, trail, hcs, -, -⟩ := exists_stripChars cs
  have hlen := congrArg List.length hcs
  rw [List.length_append, List.length_append] at hlen
  have hlead : lead = [] := List.eq_nil_of_length_eq_zero (by omega)
  have htrail : trail = [] := List.eq_nil_of_length_eq_zero (by omega)
  rw [hlead, htrail, List.append_nil, List.nil_append] at hcs
  exact hcs.symm

/-- A value that is read back from the beginning of what is written for it is written as it is. -/
theorem readBack_of_isPrefix {value : String} {cs : List Char} (hcs : cs <+: maskPipes value.toList)
    (hread : unescape (stripChars cs) = value.toList) :
    cs = maskPipes value.toList ∧ maskPipes value.toList = value.toList ∧ readBack value = value := by
  have hlen := congrArg List.length hread
  have h1 := length_unescape_le (stripChars cs)
  have h2 := length_stripChars_le cs
  have h3 := hcs.length_le
  have h4 := length_maskPipes_le value.toList
  have hwhole : cs = maskPipes value.toList := hcs.eq_of_length (by omega)
  refine ⟨hwhole, maskPipes_of_length (by omega), ?_⟩
  rw [readBack, ← hwhole, hread, String.ofList_toList]

theorem maskPipes_of_readBack {value : String} (h : readBack value = value) :
    maskPipes value.toList = value.toList := by
  refine (readBack_of_isPrefix (List.prefix_refl _) ?_).2.1
  rw [← String.toList_ofList (l := unescape _)]
  exact congrArg String.toList h

/-! ### Lines that are cut otherwise -/

theorem joinBars_append {ps qs : List (List Char)} (hp : ps ≠ []) (hq : qs ≠ []) :
    joinBars (ps ++ qs) = joinBars ps ++ (bar ++ joinBars qs) := by
  induction ps with
  | nil => exact absurd rfl hp
  | cons p ps ih =>
    cases ps with
    | nil =>
      obtain ⟨q, qs, rfl⟩ := List.exists_cons_of_ne_nil hq
      rw [List.singleton_append, joinBars_cons_cons, joinBars_singleton]
    | cons next ps =>
      rw [List.cons_append, List.cons_append, joinBars_cons_cons, ← List.cons_append, ih (List.cons_ne_nil _ _),
        joinBars_cons_cons, List.append_assoc, List.append_assoc]

/-- Closed parts are cut off one after the other. -/
theorem splitBars_joinBars_append {ps : List (List Char)} (hp : ps ≠ []) (h : ∀ p ∈ ps, Closed p)
    (cs : List Char) : splitBars (joinBars ps ++ (bar ++ cs)) = ps ++ splitBars cs := by
  induction ps with
  | nil => exact absurd rfl hp
  | cons p ps ih =>
    cases ps with
    | nil =>
      rw [joinBars_singleton, splitBars_append (h p List.mem_cons_self)]
      rfl
    | cons next ps =>
      rw [joinBars_cons_cons, List.append_assoc, List.append_assoc,
        splitBars_append (h p List.mem_cons_self), ih (List.cons_ne_nil _ _) fun q hq => h q (List.mem_cons_of_mem _ hq)]
      rfl

/-- The first part of a text begins in what stands in front of a bar. -/
theorem head_splitBars_append {cs ds m : List Char} {ms : List (List Char)}
    (h : splitBars (cs ++ (bar ++ ds)) = m :: ms) : m <+: cs := by
  induction cs generalizing m with
  | nil =>
    rw [List.nil_append, splitBars_bar] at h
    rw [(List.cons.inj h).1]
  | cons c cs ih =>
    by_cases hbar : bar <+: c :: (cs ++ (bar ++ ds))
    · obtain ⟨rest, hrest⟩ := hbar
      rw [List.cons_append, ← hrest, splitBars_bar] at h
      rw [← (List.cons.inj h).1]
      exact List.nil_prefix
    · obtain ⟨m', ms', hm'⟩ := List.exists_cons_of_ne_nil (splitBars_ne_nil (cs ++ (bar ++ ds)))
      rw [List.cons_append, splitBars_cons hbar hm'] at h
      obtain ⟨rfl, rfl⟩ := List.cons.inj h
      exact List.cons_prefix_cons.mpr ⟨rfl, ih hm'⟩

theorem head_splitBars {cs m : List Char} {ms : List (List Char)} (h : splitBars cs = m :: ms) : m <+: cs := by
  have hcs := joinBars_splitBars cs
  rw [h] at hcs
  cases ms with
  | nil => rw [← hcs, joinBars_singleton]
  | cons next ms =>
    rw [← hcs, joinBars_cons_cons]
    exact List.prefix_append _ _

/-- What the reader has accepted names known fields, each of them once. -/
theorem fieldsOf_of_read {s line : String} {t : Ticket} (h : readRecord s line = some t) :
    ∃ ps, FieldsOf ps t.fields := by
  obtain ⟨row, -, -, -, hticket⟩ := readRecord_eq_some_iff.mp h
  rw [rowTicket] at hticket
  obtain ⟨rfl, herrors⟩ := Prod.mk.inj hticket
  exact ⟨_, readFields_iff.mp (Prod.ext rfl herrors)⟩

variable {line : String} {f : Frame} {part : List Char} {parts : List (List Char)}
  {fs : List (String × String)} {field value s : String} {t : Ticket}

/-- What the reader takes off a framed line, whatever it is cut into. -/
theorem Framed.read (h : Framed line f part parts) (hread : readRecord s line = some t) :
    FieldsOf ((splitBars (rtrim (joinBars (part :: parts)))).tail.map cleanPart) t.fields ∧
      ∀ p ∈ part :: parts, embedsTicket p = false := by
  obtain ⟨row, hrow, hemb, -, hticket⟩ := readRecord_eq_some_iff.mp hread
  obtain rfl := Option.some.inj (h.readRow.symm.trans hrow)
  rw [embedsTicket_row, List.any_eq_false] at hemb
  have htail : (rowParts ⟨f.checkbox, f.id, rtrim (joinBars (part :: parts))⟩).tail =
      (splitBars (rtrim (joinBars (part :: parts)))).tail.map cleanPart := by
    rw [rowParts, ← List.map_tail]
    rfl
  rw [rowTicket, htail] at hticket
  obtain ⟨rfl, herrors⟩ := Prod.mk.inj hticket
  exact ⟨readFields_iff.mp (Prod.ext rfl herrors), fun p hp => Bool.eq_false_iff.mpr (hemb p hp)⟩

/-- Where a new part goes: in place of the first one of the field, or behind the others. -/
theorem putField_cases (field : String) (new : List Char) (parts : List (List Char)) :
    ∃ before behind, putField field new parts = before ++ new :: behind ∧
      (∀ p ∈ before, matchesField field p = false) ∧
      ((behind = [] ∧ before = parts) ∨ ∃ p, parts = before ++ p :: behind ∧ matchesField field p = true) := by
  induction parts with
  | nil => exact ⟨[], [], rfl, List.forall_mem_nil _, .inl ⟨rfl, rfl⟩⟩
  | cons p parts ih =>
    rw [putField]
    by_cases hmatch : matchesField field p = true
    · rw [if_pos hmatch]
      exact ⟨[], parts, rfl, List.forall_mem_nil _, .inr ⟨p, rfl, hmatch⟩⟩
    · rw [if_neg hmatch]
      obtain ⟨before, behind, heq, hbefore, hcase⟩ := ih
      refine ⟨p :: before, behind, by rw [heq, List.cons_append], ?_, ?_⟩
      · exact (List.forall_mem_cons (p := fun q => matchesField field q = false)).mpr
          ⟨Bool.eq_false_iff.mpr hmatch, hbefore⟩
      · rcases hcase with ⟨hnil, hwhole⟩ | ⟨q, hq, hmatch'⟩
        · exact .inl ⟨hnil, by rw [hwhole]⟩
        · exact .inr ⟨q, by rw [hq, List.cons_append], hmatch'⟩

/-- A part that is all name is no field. -/
theorem fieldPart_name {m : List Char} (h : ∀ c ∈ m, isFieldChar c = true) :
    fieldPart (cleanPart m).toList = none := by
  have hflush : Flush m := fun c hc => isSpace_of_isFieldChar (h c (List.mem_of_mem_head? hc))
  have hnone : fieldPart m = none := by
    cases hm : fieldPart m with
    | none => rfl
    | some x =>
      obtain ⟨more, hmore, -⟩ := fieldPart_eq_some_iff.mp hm
      have hcolon := h ':' (by rw [hmore]; simp)
      cases hcolon
  rw [fieldPart_cleanPart hflush, hnone]
  rfl

/-- What is read at the beginning of the part that is written is the whole value, or less of it. -/
theorem written_of_head (hf : FieldName field) {m : List Char} (hm : m <+: writtenPart field value)
    {name v : String} (hread : fieldPart (cleanPart m).toList = some (name, v)) :
    name = field ∧ (v = value → value = "" ∨ (m = writtenPart field value ∧ readBack value = value)) := by
  rw [writtenPart_eq hf] at hm ⊢
  obtain ⟨rest, hrest⟩ := hm
  rcases List.append_eq_append_iff.mp hrest with ⟨extra, hname, -⟩ | ⟨more, hmore, hcolon⟩
  · rw [fieldPart_name fun c hc => hf.2 c (by rw [hname]; exact List.mem_append_left _ hc)] at hread
    cases hread
  cases more with
  | nil =>
    rw [hmore, List.append_nil, fieldPart_name hf.2] at hread
    cases hread
  | cons c more =>
    obtain ⟨rfl, hvalue⟩ := List.cons.inj hcolon
    have hflush : Flush m := ((matchesField_eq_true_iff hf).mp (matchesField_iff.mpr ⟨more, hmore⟩)).1
    rw [fieldPart_cleanPart hflush, fieldPart_eq_some_iff.mpr ⟨more, hmore, hf.1, hf.2, rfl⟩, Option.map_some,
      String.toList_ofList, ← stripChars_eq] at hread
    obtain ⟨rfl, rfl⟩ := Prod.mk.inj (Option.some.inj hread)
    refine ⟨rfl, fun hv => ?_⟩
    cases more with
    | nil => exact .inl hv.symm
    | cons d more =>
      obtain ⟨rfl, hmask⟩ := List.cons.inj hvalue
      have hread : unescape (stripChars more) = value.toList := by
        rw [← hv, String.toList_ofList, stripChars_eq, stripChars_eq, List.dropWhile_cons_of_pos (by decide)]
      obtain ⟨hwhole, -, hback⟩ := readBack_of_isPrefix ⟨rest, hmask.symm⟩ hread
      exact .inr ⟨by rw [hmore, hwhole], hback⟩

/-! ### Setting -/

theorem followed_fieldsSplit (hf : FieldName field) (h : Laid line f part parts) :
    followed field (fieldsSplit line) = followed field parts := by
  rw [fieldsSplit, h.split]
  cases parts with
  | nil => rfl
  | cons p parts =>
    rw [followed, List.dropLast_cons_cons, List.any_cons, matchesField_frame hf, Bool.false_or]
    rfl

/-- No bar begins in the part that is written when none begins in the value behind a space. -/
theorem bar_writtenPart (hf : FieldName field) {ds : List Char} :
    bar <:+: writtenPart field value ++ ds ↔ bar <:+: ' ' :: (maskPipes value.toList ++ ds) := by
  have hsplit : writtenPart field value ++ ds =
      (field.toList ++ [':']) ++ ' ' :: (maskPipes value.toList ++ ds) := by
    rw [writtenPart_eq hf, List.append_assoc, List.append_assoc]
    rfl
  have hname : '|' ∉ field.toList ++ [':'] := by
    intro hmem
    rcases List.mem_append.mp hmem with hmem | hmem
    · exact hf.bar_notMem hmem
    · cases List.mem_singleton.mp hmem
  rw [hsplit]
  constructor
  · intro hin
    by_contra hnone
    refine not_isInfix_prepend hname (fun hin => ?_) hin
    rcases List.infix_cons_iff.mp hin with ⟨rest, hrest⟩ | hin
    · cases (List.cons.inj (List.cons.inj hrest).2).1
    · exact hnone hin
  · exact fun hin => hin.trans (List.suffix_append _ _).isInfix

/-- What the condition comes to on a row that is laid out. -/
theorem set_rewrites_of_safe (h : RowOf line f part parts fs) (hends : Ends part parts) (hs : s ∈ requiredHeadings)
    (hsafe : SetSafe line field value) :
    ∃ t', readRecord s (fieldsJoin (putField field (field ++ ": " ++ value).toList (fieldsSplit line))) = some t' ∧
      Rewrites (laidTicket s line f part fs) field (some value) t' := by
  have hf := fieldName_of_known hsafe.known
  have hmask := maskPipes_of_readBack hsafe.plain
  have hflush : ∀ p ∈ parts, partName p = some field → Flush p := by
    intro p hp
    refine hsafe.flush p ?_
    rw [fieldsSplit, h.split]
    exact List.mem_cons_of_mem _ hp
  have hrow := h.setField hends hsafe.known hflush value ?_ ?_ ?_
  · rw [hsafe.plain] at hrow
    exact ⟨_, hrow.reads hs, by simpa [laidTicket] using Assoc.lookup_set field field value fs,
      fun k hk => by simpa [laidTicket, hk] using Assoc.lookup_set field k value fs, rfl, rfl, rfl, rfl⟩
  · rw [← List.append_nil (writtenPart field value), bar_writtenPart hf, hmask, List.append_nil]
    exact hsafe.bars
  · intro hfollowed
    rw [← followed_fieldsSplit hf h.toLaid] at hfollowed
    have := hsafe.closed hfollowed
    rw [Closed, bar_writtenPart hf, hmask]
    exact this
  · rw [hmask]
    exact hsafe.single

/-- What a line that a field was written into is read as, up to the part that was written. -/
theorem exists_head_of_written (h : RowOf line f part parts fs) (hends : Ends part parts) (hf : FieldName field)
    {before behind : List (List Char)}
    (hput : putField field (writtenPart field value) parts = before ++ writtenPart field value :: behind)
    (hbefore : ∀ p ∈ before, p ∈ parts)
    (hread : readRecord s (fieldsJoin (putField field (field ++ ": " ++ value).toList (fieldsSplit line))) = some t) :
    ∃ m ms, m <+: writtenPart field value ∧ Cut (m :: ms) ∧ (behind ≠ [] → m = writtenPart field value → ms ≠ []) ∧
      FieldsOf ((before ++ m :: ms).map cleanPart) t.fields := by
  have hframed := h.toLaid.putField hf value
  obtain ⟨hfields, -⟩ := hframed.read hread
  rw [hput] at hfields hframed
  have hall := h.cut.closed hends
  have hclosed : ∀ p ∈ part :: before, Closed p := by
    refine (List.forall_mem_cons (p := Closed)).mpr ⟨(hall _ List.mem_cons_self).tail, fun p hp => ?_⟩
    exact hall p (List.mem_cons_of_mem _ (hbefore p hp))
  have hfilled : ∀ p ∈ writtenPart field value :: behind, rtrim p ≠ [] := fun p hp =>
    hframed.filled p (List.mem_cons_of_mem _ (List.mem_append_right _ hp))
  have hcut : rtrim (joinBars (part :: (before ++ writtenPart field value :: behind))) =
      joinBars (part :: before) ++ (bar ++ rtrim (joinBars (writtenPart field value :: behind))) := by
    rw [← List.cons_append, joinBars_append (List.cons_ne_nil _ _) (List.cons_ne_nil _ _), ← List.append_assoc,
      rtrim_append_of_ne_nil (rtrim_joinBars_ne_nil hfilled), List.append_assoc]
  obtain ⟨m, ms, hm⟩ := List.exists_cons_of_ne_nil
    (splitBars_ne_nil (rtrim (joinBars (writtenPart field value :: behind))))
  rw [hcut, splitBars_joinBars_append (List.cons_ne_nil _ _) hclosed, hm, List.cons_append, List.tail_cons] at hfields
  have hms : Cut (m :: ms) := hm ▸ cut_splitBars _
  cases behind with
  | nil =>
    rw [joinBars_singleton] at hm
    exact ⟨m, ms, (head_splitBars hm).trans (rtrim_isPrefix _), hms, fun hne => absurd rfl hne, hfields⟩
  | cons b behind =>
    have hlater : ∀ p ∈ b :: behind, rtrim p ≠ [] := fun p hp => hfilled p (List.mem_cons_of_mem _ hp)
    rw [joinBars_cons_cons, ← List.append_assoc, rtrim_append_of_ne_nil (rtrim_joinBars_ne_nil hlater),
      List.append_assoc] at hm
    refine ⟨m, ms, head_splitBars_append hm, hms, fun _ hwhole hnil => ?_, hfields⟩
    -- A bar stands behind the part, so it is not the last one.
    have hjoin := joinBars_splitBars (writtenPart field value ++ (bar ++ rtrim (joinBars (b :: behind))))
    rw [hm, hnil, joinBars_singleton, hwhole] at hjoin
    have := congrArg List.length hjoin
    simp [bar] at this

theorem partName_frame (f : Frame) (part : List Char) : partName (f.text ++ part) = none := by
  have hclean : cleanPart (f.text ++ part) = cleanPart (f.opening ++ part) := by
    rw [cleanPart, cleanPart, stripChars_eq, stripChars_eq, Frame.text, List.append_assoc,
      List.dropWhile_append_of_pos f.lead_space]
  have hflush : Flush (f.opening ++ part) := by
    intro c hc
    obtain rfl : '-' = c := Option.some.inj hc
    decide
  have hnone : fieldPart (f.opening ++ part) = none :=
    fieldPart_frame { f with lead := [], lead_space := List.forall_mem_nil _ } part
  rw [partName, hclean, fieldPart_cleanPart hflush, hnone]
  rfl

/-- The names of the parts are those of the fields. -/
theorem FieldsOf.names (h : FieldsOf (parts.map cleanPart) fs) :
    parts.map partName = fs.map fun x => some x.1 := by
  have hread := congrArg (List.map (Option.map Prod.fst)) h.read
  rw [List.map_map, List.map_map, List.map_map] at hread
  exact hread

theorem FieldsOf.nodup_names (h : FieldsOf (parts.map cleanPart) fs) : (parts.map partName).Nodup := by
  have hdistinct := h.distinct.map (Option.some_injective String)
  rw [List.map_map] at hdistinct
  rw [h.names]
  exact hdistinct

/-- A part of the field that is followed by another one is not the last. -/
theorem ne_nil_of_followed {before behind : List (List Char)} (hbefore : ∀ p ∈ before, matchesField field p = false)
    (hcase : (behind = [] ∧ before = parts) ∨ ∃ p, parts = before ++ p :: behind ∧ matchesField field p = true)
    (h : followed field parts = true) : behind ≠ [] := by
  rintro rfl
  obtain ⟨p, hp, hmatch⟩ := List.any_eq_true.mp h
  have hin : p ∈ before := by
    rcases hcase with ⟨-, rfl⟩ | ⟨q, rfl, -⟩
    · exact List.mem_of_mem_dropLast hp
    · rwa [List.dropLast_concat] at hp
  rw [hbefore p hin] at hmatch
  cases hmatch

/-- The condition follows from the law. -/
theorem safe_of_set_rewrites (h : RowOf line f part parts fs) (hends : Ends part parts) {t' : Ticket}
    (hread : readRecord s (fieldsJoin (putField field (field ++ ": " ++ value).toList (fieldsSplit line))) = some t')
    (hlaw : Rewrites t field (some value) t') : SetSafe line field value := by
  have hdistinct : (t'.fields.map Prod.fst).Nodup := by
    obtain ⟨ps, hps⟩ := fieldsOf_of_read hread
    exact hps.distinct
  have hknown : field ∈ knownFields := by
    obtain ⟨ps, hps⟩ := fieldsOf_of_read hread
    exact hps.known _ (Assoc.mem_of_lookup hlaw.changed)
  have hf := fieldName_of_known hknown
  obtain ⟨before, behind, hput, hbefore, hcase⟩ := putField_cases field (writtenPart field value) parts
  have hsub : ∀ p ∈ before, p ∈ parts := by
    rcases hcase with ⟨-, rfl⟩ | ⟨q, rfl, -⟩
    · exact fun p hp => hp
    · exact fun p hp => List.mem_append_left _ hp
  obtain ⟨m, ms, hprefix, hms, hlater, hfields⟩ := exists_head_of_written h hends hf hput hsub hread
  obtain ⟨⟨name, v⟩, hm⟩ := Option.ne_none_iff_exists'.mp
    (hfields.ne_none (List.mem_map_of_mem (List.mem_append_right before List.mem_cons_self)))
  obtain ⟨rfl, hwritten⟩ := written_of_head hf hprefix hm
  have hvalue : v = value := by
    have hmem : (name, v) ∈ t'.fields := by
      have : some (name, v) ∈ t'.fields.map some := by
        rw [← hfields.read, ← hm]
        exact List.mem_map_of_mem (List.mem_map_of_mem (List.mem_append_right before List.mem_cons_self))
      simpa using this
    have := (Assoc.mem_iff_lookup hdistinct name v).mp hmem
    rw [hlaw.changed] at this
    exact (Option.some.inj this).symm
  have hflush : ∀ p ∈ fieldsSplit line, partName p = some name → Flush p := by
    intro p hp hname
    rw [fieldsSplit, h.split] at hp
    rcases List.mem_cons.mp hp with rfl | hp
    · rw [partName_frame] at hname
      cases hname
    rcases hcase with ⟨-, rfl⟩ | ⟨q, rfl, hmatch⟩
    · -- The part would be read beside the one that was written.
      have hnames := hfields.nodup_names
      rw [List.map_append, List.nodup_append] at hnames
      refine absurd ?_ (hnames.2.2 _ (List.mem_map_of_mem hp) _ (List.mem_map_of_mem (List.mem_cons_self)))
      rw [hname, partName, hm]
      rfl
    · obtain ⟨hq, hqname⟩ := (matchesField_eq_true_iff hf).mp hmatch
      have hsame : p = q := List.inj_on_of_nodup_map h.fields.nodup_names hp (by simp) (hname.trans hqname.symm)
      rwa [hsame]
  have hsingle := (h.toLaid.putField hf value).read hread |>.2 (writtenPart name value)
    (List.mem_cons_of_mem _ (by rw [hput]; simp))
  rcases hwritten hvalue with hempty | ⟨hwhole, hback⟩
  · rw [hempty]
    exact ⟨hknown, hflush, by decide, by decide, fun _ => by decide, by decide⟩
  have hmask := maskPipes_of_readBack hback
  have hnobar : ¬ bar <:+: writtenPart name value := by
    rw [← hwhole]
    cases ms with
    | nil => exact hms
    | cons next ms => exact hms.1.not_isInfix
  refine ⟨hknown, hflush, hback, ?_, fun hfollowed => ?_, ?_⟩
  · rwa [← List.append_nil (writtenPart name value), bar_writtenPart hf, hmask, List.append_nil] at hnobar
  · rw [followed_fieldsSplit hf h.toLaid] at hfollowed
    have hne := hlater (ne_nil_of_followed hbefore hcase hfollowed) hwhole
    have hclosed : Closed (writtenPart name value) := hwhole ▸ ((cut_cons hne).mp hms).1
    rwa [Closed, bar_writtenPart hf, hmask] at hclosed
  · rwa [embedsTicket_writtenPart hf, hmask] at hsingle

/-! ### Removing -/

theorem lookup_of_mem_parts (h : RowOf line f part parts fs) {p : List Char} (hp : p ∈ parts) {n : String}
    (hname : partName p = some n) : ∃ v, fieldPart (cleanPart p).toList = some (n, v) ∧ fs.lookup n = some v := by
  rw [partName, Option.map_eq_some_iff] at hname
  obtain ⟨⟨name, v⟩, hread, rfl⟩ := hname
  have hmem : some (name, v) ∈ fs.map some := by
    rw [← h.read, ← hread]
    exact List.mem_map_of_mem hp
  exact ⟨v, hread, (Assoc.mem_iff_lookup h.fields.distinct name v).mp (by simpa using hmem)⟩

theorem remove_rewrites_of_safe (h : RowOf line f part parts fs) (hs : s ∈ requiredHeadings)
    (hsafe : RemoveSafe line field) :
    ∃ t', readRecord s (fieldsJoin ((fieldsSplit line).filter fun p => !matchesField field p)) = some t' ∧
      Rewrites (laidTicket s line f part fs) field none t' := by
  rw [RemoveSafe, fieldsSplit, h.split] at hsafe
  have hhead : matchesField field (f.text ++ part) = false := by
    rw [Bool.eq_false_iff]
    intro hmatch
    have := (hsafe _ List.mem_cons_self).mp hmatch
    rw [partName_frame] at this
    cases this
  have hrow := h.removeField hhead fun p hp => hsafe p (List.mem_cons_of_mem _ hp)
  exact ⟨_, hrow.reads hs, by simpa [laidTicket] using Assoc.lookup_pop field field fs,
    fun k hk => by simpa [laidTicket, hk] using Assoc.lookup_pop field k fs, rfl, rfl, rfl, rfl⟩

/-- A field begins with a character of its name. -/
theorem head_of_fieldPart {p : List Char} {x : String × String} (h : fieldPart (cleanPart p).toList = some x) :
    ∃ c more, p.dropWhile isSpace = c :: more ∧ isFieldChar c = true := by
  rw [cleanPart, String.toList_ofList, fieldPart_unescape, Option.map_eq_some_iff] at h
  obtain ⟨y, hy, -⟩ := h
  obtain ⟨more, hmore, hne, hall, -⟩ := fieldPart_eq_some_iff.mp hy
  obtain ⟨c, name, hname⟩ := List.exists_cons_of_ne_nil hne
  obtain ⟨rest, hrest⟩ := rtrim_isPrefix (p.dropWhile isSpace)
  rw [← stripChars_eq, hmore, hname] at hrest
  exact ⟨c, _, hrest.symm, hall c (by rw [hname]; exact List.mem_cons_self)⟩

/-- What is left when the frame is taken for the field is no row. -/
theorem readRecord_of_frame (h : RowOf line f part parts fs) (hhead : matchesField field (f.text ++ part) = true) :
    readRecord s (fieldsJoin ((fieldsSplit line).filter fun p => !matchesField field p)) = none := by
  rw [fieldsSplit, h.split, List.filter_cons_of_neg (by simp [hhead])]
  by_contra hsome
  obtain ⟨t', hread⟩ := Option.ne_none_iff_exists'.mp hsome
  obtain ⟨row, hrow, -⟩ := readRecord_eq_some_iff.mp hread
  obtain ⟨g, -, htext, -⟩ := exists_frame hrow
  have hmask : (parts.filter fun p => !matchesField field p).map maskPipes =
      parts.filter fun p => !matchesField field p := by
    refine (List.map_congr_left fun p hp => ?_).trans (List.map_id' _)
    exact maskPipes_of_plain (h.plain p (List.mem_cons_of_mem _ (List.mem_of_mem_filter hp)))
  rw [maskPipes_strip, fieldsJoin, String.toList_ofList, maskPipes_unmaskPipes, maskPipes_joinBars, hmask] at htext
  cases hkept : parts.filter fun p => !matchesField field p with
  | nil =>
    rw [hkept] at htext
    cases htext
  | cons q qs =>
    have hq : q ∈ parts := List.mem_of_mem_filter (by rw [hkept]; exact List.mem_cons_self)
    obtain ⟨x, hx⟩ := Option.ne_none_iff_exists'.mp (h.fields.ne_none (List.mem_map_of_mem hq))
    obtain ⟨c, more, hdrop, hc⟩ := head_of_fieldPart hx
    have hspan : q = q.takeWhile isSpace ++ ([c] ++ more) := by
      rw [List.singleton_append, ← hdrop, List.takeWhile_append_dropWhile]
    have hjoin : (joinBars (q :: qs)).dropWhile isSpace = c :: joinBars (more :: qs) := by
      rw [hspan, joinBars_cons_append, joinBars_cons_append, List.dropWhile_append_of_pos mem_takeWhile_spaces]
      exact List.dropWhile_cons_of_neg (by simp [isSpace_of_isFieldChar hc])
    obtain ⟨rest, hrest⟩ := rtrim_isPrefix ((joinBars (q :: qs)).dropWhile isSpace)
    rw [hkept] at htext
    rw [← stripChars_eq, htext, hjoin] at hrest
    have hdash : '-' = c := (List.cons.inj hrest).1
    rw [← hdash] at hc
    cases hc

theorem safe_of_remove_rewrites (h : RowOf line f part parts fs) {t' : Ticket}
    (hread : readRecord s (fieldsJoin ((fieldsSplit line).filter fun p => !matchesField field p)) = some t')
    (hlaw : Rewrites (laidTicket s line f part fs) field none t') : RemoveSafe line field := by
  have hhead : matchesField field (f.text ++ part) = false := by
    rw [Bool.eq_false_iff]
    intro hmatch
    rw [readRecord_of_frame h hmatch] at hread
    cases hread
  have hlaid := h.toLaid.filter hhead
  obtain ⟨-, -, fs', hfs', rfl⟩ := hlaid.reads_iff.mp hread
  have hrow : RowOf _ f part (parts.filter fun p => !matchesField field p) fs' :=
    ⟨hlaid, hfs', fun p hp => by
      rcases List.mem_cons.mp hp with rfl | hp
      · exact h.single p List.mem_cons_self
      · exact h.single p (List.mem_cons_of_mem _ (List.mem_of_mem_filter hp))⟩
  intro p hp
  rw [fieldsSplit, h.split] at hp
  rcases List.mem_cons.mp hp with rfl | hp
  · rw [hhead, partName_frame]
    exact iff_of_false Bool.false_ne_true fun hnone => by cases hnone
  constructor
  · intro hmatch
    by_contra hother
    -- The part is the field of another name, which would be lost with it.
    obtain ⟨⟨n, v⟩, hpart⟩ := Option.ne_none_iff_exists'.mp (h.fields.ne_none (List.mem_map_of_mem hp))
    have hname : partName p = some n := by rw [partName, hpart]; rfl
    have hne : n ≠ field := fun heq => hother (by rw [hname, heq])
    obtain ⟨w, -, hw⟩ := lookup_of_mem_parts h hp hname
    have hkept : fs'.lookup n = some w := (hlaw.kept n hne).trans hw
    have hmem := Assoc.mem_of_lookup hkept
    have hsome : some (n, w) ∈ (parts.filter fun p => !matchesField field p).map
        fun p => fieldPart (cleanPart p).toList := by
      rw [hrow.read]
      exact List.mem_map_of_mem hmem
    obtain ⟨q, hq, hqread⟩ := List.mem_map.mp hsome
    have hqname : partName q = some n := by
      have hqread : fieldPart (cleanPart q).toList = some (n, w) := hqread
      rw [partName, hqread]
      rfl
    have hsame : p = q :=
      List.inj_on_of_nodup_map h.fields.nodup_names hp (List.mem_of_mem_filter hq) (hname.trans hqname.symm)
    have hkeep := (List.mem_filter.mp hq).2
    rw [← hsame, hmatch] at hkeep
    cases hkeep
  · intro hname
    by_contra hmiss
    obtain ⟨v, -, hv⟩ := lookup_of_mem_parts hrow
      (List.mem_filter.mpr ⟨hp, by simpa using hmiss⟩) hname
    have hnone : fs'.lookup field = none := hlaw.changed
    rw [hv] at hnone
    cases hnone

/-! ### Agreement -/

/-- A field that is set is read back exactly where it begins its part and its value is read back. -/
theorem set_agrees_iff {p : Printable} {field value out : String} {cap : Bool} (h : readRecord s line = some t)
    (hbare : bareBar line = false) (hset : setTicketField p line field value cap = .ok out) :
    (∃ t', readRecord s out = some t' ∧ Rewrites t field (some value) t') ↔ SetSafe line field value := by
  obtain ⟨f, part, parts, hrow, ht, hs, hends⟩ := exists_rowOf h hbare
  obtain ⟨-, -, rfl, -⟩ := setTicketField_eq_ok_iff.mp hset
  constructor
  · rintro ⟨t', hread, hlaw⟩
    exact safe_of_set_rewrites hrow hends hread hlaw
  · intro hsafe
    rw [ht]
    exact set_rewrites_of_safe hrow hends hs hsafe

/-- A field can always be taken away, and is gone exactly where it begins its part. -/
theorem remove_agrees_iff (p : Printable) (field : String) (h : readRecord s line = some t)
    (hbare : bareBar line = false) : ∃ out, removeTicketField p line field = .ok out ∧
      ((∃ t', readRecord s out = some t' ∧ Rewrites t field none t') ↔ RemoveSafe line field) := by
  obtain ⟨f, part, parts, hrow, ht, hs, hends⟩ := exists_rowOf h hbare
  refine ⟨_, removeTicketField_eq_ok_iff.mpr ⟨hrow.toLaid.rejectDuplicateFields hrow.fields p, rfl⟩, ?_⟩
  constructor
  · rintro ⟨t', hread, hlaw⟩
    rw [ht] at hlaw
    exact safe_of_remove_rewrites hrow hread hlaw
  · intro hsafe
    rw [ht]
    exact remove_rewrites_of_safe hrow hs hsafe

end Saipen.Board
