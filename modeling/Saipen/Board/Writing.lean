import Saipen.Board.Fields

/-! # Rows that are written

Writing a field into a laid out row leaves its frame and its other parts as they are, so the reader
finds the same row with the one field changed. -/

namespace Saipen.Board

open Text

/-! ### What the writers refuse -/

/-- The names that the writers find on parts. -/
def rawNames (parts : List (List Char)) : List String :=
  parts.filterMap fun part => (fieldPart part).map (·.1)

theorem flush_of_fieldPart {part : List Char} {x : String × String} (h : fieldPart part = some x) :
    Flush part ∧ partName part = some x.1 := by
  obtain ⟨more, hpart, hne, hall, -⟩ := fieldPart_eq_some_iff.mp h
  exact (matchesField_eq_true_iff ⟨hne, hall⟩).mp (matchesField_iff.mpr ⟨more, hpart⟩)

/-- The writers find no names that the reader does not find. -/
theorem rawNames_sublist {parts : List (List Char)} {fs : List (String × String)}
    (h : parts.map (fun p => fieldPart (cleanPart p).toList) = fs.map some) :
    (rawNames parts).Sublist (fs.map (·.1)) := by
  induction parts generalizing fs with
  | nil => exact List.nil_sublist _
  | cons part parts ih =>
    cases fs with
    | nil => cases h
    | cons x fs =>
      obtain ⟨hx, hrest⟩ := List.cons.inj h
      rw [rawNames, List.filterMap_cons]
      cases hraw : fieldPart part with
      | none => exact (ih hrest).cons _
      | some y =>
        have hname := (flush_of_fieldPart hraw).2
        have hx : fieldPart (cleanPart part).toList = some x := hx
        rw [partName, hx] at hname
        have hxy : x.1 = y.1 := Option.some.inj hname
        rw [List.map_cons, hxy]
        exact (ih hrest).cons_cons _

/-- A row without a repeated name is not refused. -/
theorem rejectDuplicates_ok (p : Printable) {seen : List String} {parts : List (List Char)}
    (hnodup : (rawNames parts).Nodup) (hseen : ∀ n ∈ rawNames parts, n ∉ seen) :
    rejectDuplicates p seen parts = .ok () := by
  induction parts generalizing seen with
  | nil => rfl
  | cons part parts ih =>
    rw [rejectDuplicates]
    cases hpart : fieldPart part with
    | none =>
      have hnames : rawNames (part :: parts) = rawNames parts := by
        rw [rawNames, List.filterMap_cons, hpart]
        rfl
      rw [hnames] at hnodup hseen
      split
      · exact ih hnodup hseen
      · exact ih hnodup hseen
    | some x =>
      have hnames : rawNames (part :: parts) = x.1 :: rawNames parts := by
        rw [rawNames, List.filterMap_cons, hpart]
        rfl
      rw [hnames] at hnodup hseen
      obtain ⟨hfresh, hrest⟩ := List.nodup_cons.mp hnodup
      have hskip : ("- ".toList.isPrefixOf part) = false := by
        rw [Bool.eq_false_iff]
        intro hpre
        obtain ⟨more, rfl⟩ := List.isPrefixOf_iff_prefix.mp hpre
        cases hpart
      rw [if_neg (Bool.eq_false_iff.mp hskip)]
      dsimp only
      rw [if_neg (hseen x.1 List.mem_cons_self)]
      refine ih hrest fun n hn hmem => ?_
      rcases List.mem_cons.mp hmem with rfl | hmem
      · exact hfresh hn
      · exact hseen n (List.mem_cons_of_mem _ hn) hmem

/-! ### Rows that are written -/

theorem maskPipes_joinBars (parts : List (List Char)) :
    maskPipes (joinBars parts) = joinBars (parts.map maskPipes) := by
  induction parts with
  | nil => rfl
  | cons part parts ih =>
    cases parts with
    | nil => rw [List.map_singleton, joinBars_singleton, joinBars_singleton]
    | cons next parts =>
      have hbar : maskPipes bar = bar := maskPipes_of_plain (by decide)
      rw [List.map_cons, List.map_cons, joinBars_cons_cons, joinBars_cons_cons, ← List.map_cons, ← ih,
        maskPipes_append (by simp [bar]), maskPipes_append (by simp [bar]), hbar]

theorem infix_joinBars {part : List Char} {parts : List (List Char)} (h : part ∈ parts) :
    part <:+: joinBars parts := by
  induction parts with
  | nil => cases h
  | cons q parts ih =>
    cases parts with
    | nil => rw [joinBars_singleton, List.mem_singleton.mp h]
    | cons next parts =>
      rw [joinBars_cons_cons]
      rcases List.mem_cons.mp h with rfl | h
      · exact (List.prefix_append _ _).isInfix
      · exact (ih h).trans ((List.suffix_append _ _).trans (List.suffix_append _ _)).isInfix

variable {line : String} {f : Frame} {part : List Char} {parts : List (List Char)} {field : String}

theorem Laid.plain (h : Laid line f part parts) : ∀ p ∈ (f.text ++ part) :: parts, Plain p := by
  intro p hp
  have hwhole := plain_maskPipes line.toList
  rw [h.text, ← joinBars_cons_append] at hwhole
  exact hwhole.of_infix (infix_joinBars hp)

/-- The line that is put together from parts behind the same frame. -/
theorem Laid.join (h : Laid line f part parts) (raw : List (List Char))
    (hfilled : ∀ p ∈ raw.map maskPipes, rtrim p ≠ []) :
    Framed (fieldsJoin ((f.text ++ part) :: raw)) f part (raw.map maskPipes) where
  text := by
    rw [fieldsJoin, String.toList_ofList, maskPipes_unmaskPipes, maskPipes_joinBars, List.map_cons,
      maskPipes_of_plain (h.plain _ List.mem_cons_self), joinBars_cons_append]
  flush := h.flush
  filled := (List.forall_mem_cons (p := fun p => rtrim p ≠ [])).mpr ⟨h.filled part List.mem_cons_self, hfilled⟩

/-- The frame is no field. -/
theorem matchesField_frame (h : FieldName field) (f : Frame) (part : List Char) :
    matchesField field (f.text ++ part) = false := by
  rw [Bool.eq_false_iff]
  intro hmatch
  obtain ⟨more, hmore⟩ := matchesField_iff.mp hmatch
  obtain ⟨c, name, hname⟩ := List.exists_cons_of_ne_nil h.1
  have hc : isFieldChar c = true := h.2 c (by rw [hname]; exact List.mem_cons_self)
  rw [hname, Frame.text] at hmore
  cases hlead : f.lead with
  | nil =>
    rw [hlead] at hmore
    rw [← (List.cons.inj hmore).1] at hc
    cases hc
  | cons d lead =>
    rw [hlead] at hmore
    have hd := f.lead_space d (by rw [hlead]; exact List.mem_cons_self)
    rw [(List.cons.inj hmore).1, isSpace_of_isFieldChar hc] at hd
    cases hd

theorem fieldPart_frame (f : Frame) (part : List Char) : fieldPart (f.text ++ part) = none := by
  cases h : fieldPart (f.text ++ part) with
  | none => rfl
  | some x =>
    obtain ⟨more, hpart, hne, hall, -⟩ := fieldPart_eq_some_iff.mp h
    have := matchesField_iff.mpr ⟨more, hpart⟩
    rw [matchesField_frame ⟨hne, hall⟩] at this
    cases this

/-- The writers refuse no row that the reader accepts. -/
theorem Laid.rejectDuplicateFields (h : Laid line f part parts) {fs : List (String × String)}
    (hfs : FieldsOf (parts.map cleanPart) fs) (p : Printable) : rejectDuplicateFields p line = .ok () := by
  have hnames : rawNames ((f.text ++ part) :: parts) = rawNames parts := by
    rw [rawNames, List.filterMap_cons, fieldPart_frame]
    rfl
  have hsub : (rawNames parts).Sublist (fs.map (·.1)) := by
    refine rawNames_sublist ?_
    rw [← hfs.read, List.map_map]
    rfl
  rw [Board.rejectDuplicateFields, fieldsSplit, h.split]
  refine rejectDuplicates_ok p ?_ fun n _ => List.not_mem_nil
  rw [hnames]
  exact hfs.distinct.sublist hsub

/-! ### Setting a field -/

/-- The part that is written for a field, as it is cut again. -/
def writtenPart (field value : String) : List Char := maskPipes (field ++ ": " ++ value).toList

theorem map_putField {new : List Char} (hplain : ∀ p ∈ parts, Plain p) :
    (putField field new parts).map maskPipes = putField field (maskPipes new) parts := by
  induction parts with
  | nil => rfl
  | cons p parts ih =>
    have hrest : ∀ q ∈ parts, Plain q := fun q hq => hplain q (List.mem_cons_of_mem _ hq)
    have hmask : parts.map maskPipes = parts :=
      (List.map_congr_left fun q hq => maskPipes_of_plain (hrest q hq)).trans (List.map_id' parts)
    rw [putField, putField]
    split
    · rw [List.map_cons, hmask]
    · rw [List.map_cons, maskPipes_of_plain (hplain p List.mem_cons_self), ih hrest]

theorem mem_putField {new p : List Char} (h : p ∈ putField field new parts) : p = new ∨ p ∈ parts := by
  induction parts with
  | nil => exact .inl (List.mem_singleton.mp h)
  | cons q parts ih =>
    rw [putField] at h
    split at h
    · rcases List.mem_cons.mp h with rfl | h
      · exact .inl rfl
      · exact .inr (List.mem_cons_of_mem _ h)
    · rcases List.mem_cons.mp h with rfl | h
      · exact .inr List.mem_cons_self
      · exact (ih h).imp_right (List.mem_cons_of_mem _)

/-- A part of the field that another part follows. -/
def followed (field : String) (parts : List (List Char)) : Bool := parts.dropLast.any (matchesField field)

/-- The parts stay apart when the new one holds no bar, and lets none begin where another part follows. -/
theorem cut_putField {q new : List Char} (h : Cut (q :: parts)) (hlast : ∀ p ∈ (q :: parts).getLast?, Closed p)
    (hnew : ¬ bar <:+: new) (hclosed : followed field parts = true → Closed new) :
    Cut (q :: putField field new parts) := by
  induction parts generalizing q with
  | nil => exact ⟨hlast q rfl, hnew⟩
  | cons p parts ih =>
    rw [putField]
    split
    case isTrue hmatch =>
      cases parts with
      | nil => exact ⟨h.1, hnew⟩
      | cons r parts =>
        have hnext : Closed new := hclosed (by
          rw [followed, List.dropLast_cons_cons, List.any_cons, hmatch]
          rfl)
        exact ⟨h.1, hnext, h.2.tail⟩
    case isFalse hmatch =>
      refine ⟨h.1, ih h.2 ?_ fun hf => hclosed ?_⟩
      · rwa [List.getLast?_cons_cons] at hlast
      · cases parts with
        | nil => cases hf
        | cons r parts =>
          rw [followed, List.dropLast_cons_cons, List.any_cons]
          exact Bool.or_eq_true_iff.mpr (.inr hf)

/-- The fields that are read of the parts with the new one among them. -/
theorem map_fieldPart_putField {new : List Char} {value : String} {fs : List (String × String)}
    (hread : parts.map (fun p => fieldPart (cleanPart p).toList) = fs.map some)
    (hnew : fieldPart (cleanPart new).toList = some (field, value))
    (hmatch : ∀ p ∈ parts, matchesField field p = true ↔ partName p = some field) :
    (putField field new parts).map (fun p => fieldPart (cleanPart p).toList) =
      (Assoc.set field value fs).map some := by
  induction parts generalizing fs with
  | nil =>
    cases fs with
    | nil => rw [putField, Assoc.set, List.map_singleton, List.map_singleton, hnew]
    | cons x fs => cases hread
  | cons p parts ih =>
    cases fs with
    | nil => cases hread
    | cons x fs =>
      obtain ⟨name, v⟩ := x
      obtain ⟨hp, hrest⟩ := List.cons.inj hread
      have hp : fieldPart (cleanPart p).toList = some (name, v) := hp
      have hname : matchesField field p = true ↔ name = field := by
        rw [hmatch p List.mem_cons_self, partName, hp]
        exact Option.some_inj
      rw [putField, Assoc.set]
      by_cases hfield : name = field
      · rw [if_pos (hname.mpr hfield), if_pos hfield, List.map_cons, List.map_cons, hnew, hrest]
      · rw [if_neg fun h => hfield (hname.mp h), if_neg hfield, List.map_cons, List.map_cons, hp,
          ih hrest fun q hq => hmatch q (List.mem_cons_of_mem _ hq)]

theorem writtenPart_eq (h : FieldName field) (value : String) :
    writtenPart field value = field.toList ++ ':' :: ' ' :: maskPipes value.toList := maskPipes_written h value

theorem rtrim_writtenPart (h : FieldName field) (value : String) : rtrim (writtenPart field value) ≠ [] := by
  rw [writtenPart_eq h]
  intro hnil
  have := rtrim_eq_nil.mp hnil ':' (by simp)
  cases this

theorem embedsTicket_of_open {cs : List Char} (h : '[' ∉ cs) (ds : List Char) :
    embedsTicket (cs ++ ds) = embedsTicket ds := by
  induction cs with
  | nil => rfl
  | cons c cs ih =>
    have hc : openerAt (c :: (cs ++ ds)) = false := by
      unfold openerAt
      split
      case h_1 heq =>
        obtain ⟨rfl, -⟩ := List.cons.inj heq
        exact absurd List.mem_cons_self h
      case h_2 => rfl
    rw [List.cons_append, embedsTicket_cons, hc, Bool.false_or, ih fun hmem => h (List.mem_cons_of_mem _ hmem)]

theorem embedsTicket_writtenPart (h : FieldName field) (value : String) :
    embedsTicket (writtenPart field value) = embedsTicket (maskPipes value.toList) := by
  have hopen : '[' ∉ field.toList ++ [':', ' '] := by
    intro hmem
    rcases List.mem_append.mp hmem with hmem | hmem
    · have := h.2 _ hmem
      cases this
    · cases hmem with
      | tail _ hmem => cases hmem with
        | tail _ hmem => cases hmem
  rw [writtenPart_eq h, ← embedsTicket_of_open hopen (maskPipes value.toList), List.append_assoc]
  rfl

/-- The parts that a row is cut into when a field is written into it. -/
theorem Laid.putField (h : Laid line f part parts) (hf : FieldName field) (value : String) :
    Framed (fieldsJoin (putField field (field ++ ": " ++ value).toList (fieldsSplit line))) f part
      (putField field (writtenPart field value) parts) := by
  have hraw : Board.putField field (field ++ ": " ++ value).toList (fieldsSplit line) =
      (f.text ++ part) :: Board.putField field (field ++ ": " ++ value).toList parts := by
    rw [fieldsSplit, h.split, Board.putField, if_neg (by rw [matchesField_frame hf]; exact Bool.false_ne_true)]
  have hmask : (Board.putField field (field ++ ": " ++ value).toList parts).map maskPipes =
      Board.putField field (writtenPart field value) parts :=
    map_putField fun p hp => h.plain p (List.mem_cons_of_mem _ hp)
  rw [hraw, ← hmask]
  refine h.join _ fun p hp => ?_
  rw [hmask] at hp
  rcases mem_putField hp with rfl | hp
  · exact rtrim_writtenPart hf value
  · exact h.filled p (List.mem_cons_of_mem _ hp)

/-! ### Rows and their fields -/

/-- A row that the reader accepts. -/
structure RowOf (line : String) (f : Frame) (part : List Char) (parts : List (List Char))
    (fs : List (String × String)) : Prop extends Laid line f part parts where
  fields : FieldsOf (parts.map cleanPart) fs
  single : ∀ p ∈ part :: parts, embedsTicket p = false

variable {fs : List (String × String)}

theorem RowOf.reads (h : RowOf line f part parts fs) {s : String} (hs : s ∈ requiredHeadings) :
    readRecord s line = some (laidTicket s line f part fs) :=
  h.toLaid.reads_iff.mpr ⟨hs, h.single, fs, h.fields, rfl⟩

theorem RowOf.read (h : RowOf line f part parts fs) :
    parts.map (fun p => fieldPart (cleanPart p).toList) = fs.map some := by
  rw [← h.fields.read, List.map_map]
  rfl

/-- Where the reader accepts a row, it is laid out and the ticket is its parts. -/
theorem exists_rowOf {s : String} {t : Ticket} (h : readRecord s line = some t) (hbare : bareBar line = false) :
    ∃ f part parts, RowOf line f part parts t.fields ∧ t = laidTicket s line f part t.fields ∧
      s ∈ requiredHeadings ∧ Ends part parts := by
  obtain ⟨f, part, parts, hlaid, hlast⟩ := exists_laid h hbare
  obtain ⟨hs, hsingle, fs, hfs, rfl⟩ := hlaid.reads_iff.mp h
  exact ⟨f, part, parts, ⟨hlaid, hfs, hsingle⟩, rfl, hs, hlast⟩

/-- The parts of the field are the ones that the writers find. -/
theorem RowOf.matches_iff (hf : FieldName field)
    (hflush : ∀ p ∈ parts, partName p = some field → Flush p) :
    ∀ p ∈ parts, matchesField field p = true ↔ partName p = some field := by
  intro p hp
  rw [matchesField_eq_true_iff hf]
  exact ⟨fun h => h.2, fun h => ⟨hflush p hp h, h⟩⟩

/-- A value that is written can be read back, and the row keeps everything else. -/
theorem RowOf.setField (h : RowOf line f part parts fs) (hends : Ends part parts)
    (hknown : field ∈ knownFields) (hflush : ∀ p ∈ parts, partName p = some field → Flush p) (value : String)
    (hbar : ¬ bar <:+: writtenPart field value)
    (hclosed : followed field parts = true → Closed (writtenPart field value))
    (hopen : embedsTicket (maskPipes value.toList) = false) :
    RowOf (fieldsJoin (putField field (field ++ ": " ++ value).toList (fieldsSplit line))) f part
      (putField field (writtenPart field value) parts) (Assoc.set field (readBack value) fs) := by
  have hf := fieldName_of_known hknown
  have hframed := h.toLaid.putField hf value
  have hcut := cut_putField h.cut hends hbar hclosed
  refine ⟨⟨hframed, hcut⟩, ⟨?_, ?_, ?_⟩, ?_⟩
  · rw [List.map_map]
    exact map_fieldPart_putField h.read (fieldPart_written hf) (RowOf.matches_iff hf hflush)
  · intro x hx
    rcases Assoc.mem_of_mem_set hx with rfl | hx
    · exact hknown
    · exact h.fields.known x hx
  · exact Assoc.nodup_set _ h.fields.distinct
  · intro p hp
    rcases List.mem_cons.mp hp with rfl | hp
    · exact h.single p List.mem_cons_self
    · rcases mem_putField hp with rfl | hp
      · rw [embedsTicket_writtenPart hf, hopen]
      · exact h.single p (List.mem_cons_of_mem _ hp)

/-! ### Removing a field -/

/-- The fields that are read of the parts that are kept. -/
theorem map_fieldPart_filter (hread : parts.map (fun p => fieldPart (cleanPart p).toList) = fs.map some)
    (hmatch : ∀ p ∈ parts, matchesField field p = true ↔ partName p = some field) :
    (parts.filter fun p => !matchesField field p).map (fun p => fieldPart (cleanPart p).toList) =
      (Assoc.pop field fs).map some := by
  induction parts generalizing fs with
  | nil =>
    cases fs with
    | nil => rfl
    | cons x fs => cases hread
  | cons p parts ih =>
    cases fs with
    | nil => cases hread
    | cons x fs =>
      obtain ⟨name, v⟩ := x
      obtain ⟨hp, hrest⟩ := List.cons.inj hread
      have hp : fieldPart (cleanPart p).toList = some (name, v) := hp
      have hname : matchesField field p = true ↔ name = field := by
        rw [hmatch p List.mem_cons_self, partName, hp]
        exact Option.some_inj
      have hrec := ih hrest fun q hq => hmatch q (List.mem_cons_of_mem _ hq)
      rw [Assoc.pop]
      by_cases hfield : name = field
      · rw [if_pos hfield, List.filter_cons_of_neg (by simp [hname.mpr hfield]), hrec]
      · rw [if_neg hfield, List.filter_cons_of_pos (by simpa using fun h => hfield (hname.mp h)), List.map_cons,
          List.map_cons, hp, hrec]

/-- The parts that a row is cut into when a field is taken out of it. -/
theorem Laid.filter (h : Laid line f part parts) (hhead : matchesField field (f.text ++ part) = false) :
    Laid (fieldsJoin ((fieldsSplit line).filter fun p => !matchesField field p)) f part
      (parts.filter fun p => !matchesField field p) := by
  have hmask : (parts.filter fun p => !matchesField field p).map maskPipes =
      parts.filter fun p => !matchesField field p := by
    refine (List.map_congr_left fun p hp => ?_).trans (List.map_id' _)
    exact maskPipes_of_plain (h.plain p (List.mem_cons_of_mem _ (List.mem_of_mem_filter hp)))
  rw [fieldsSplit, h.split, List.filter_cons_of_pos (by simp [hhead])]
  have hframed := h.join (parts.filter fun p => !matchesField field p) (fun p hp => by
    rw [hmask] at hp
    exact h.filled p (List.mem_cons_of_mem _ (List.mem_of_mem_filter hp)))
  rw [hmask] at hframed
  exact ⟨hframed, h.cut.filter _⟩

/-- A field that is taken out is gone, and the row keeps everything else. -/
theorem RowOf.removeField (h : RowOf line f part parts fs)
    (hhead : matchesField field (f.text ++ part) = false)
    (hmatch : ∀ p ∈ parts, matchesField field p = true ↔ partName p = some field) :
    RowOf (fieldsJoin ((fieldsSplit line).filter fun p => !matchesField field p)) f part
      (parts.filter fun p => !matchesField field p) (Assoc.pop field fs) := by
  refine ⟨h.toLaid.filter hhead, ⟨?_, ?_, Assoc.nodup_pop h.fields.distinct⟩, ?_⟩
  · rw [List.map_map]
    exact map_fieldPart_filter h.read hmatch
  · exact fun x hx => h.fields.known x ((Assoc.pop_sublist field fs).subset hx)
  · intro p hp
    rcases List.mem_cons.mp hp with rfl | hp
    · exact h.single p List.mem_cons_self
    · exact h.single p (List.mem_cons_of_mem _ (List.mem_of_mem_filter hp))

theorem Ends.putField (h : Ends part parts) (hcut : Cut ((' ' :: part) :: parts)) {new : List Char}
    (hnew : Closed new) : Ends part (Board.putField field new parts) := by
  have hall := hcut.closed h
  intro p hp
  rcases List.mem_cons.mp (List.mem_of_getLast? hp) with rfl | hp
  · exact hall _ List.mem_cons_self
  · rcases mem_putField hp with rfl | hp
    · exact hnew
    · exact hall p (List.mem_cons_of_mem _ hp)

theorem Ends.filter (h : Ends part parts) (hcut : Cut ((' ' :: part) :: parts)) (keep : List Char → Bool) :
    Ends part (parts.filter keep) := by
  have hall := hcut.closed h
  intro p hp
  rcases List.mem_cons.mp (List.mem_of_getLast? hp) with rfl | hp
  · exact hall _ List.mem_cons_self
  · exact hall p (List.mem_cons_of_mem _ (List.mem_of_mem_filter hp))

end Saipen.Board
