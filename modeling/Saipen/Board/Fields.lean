import Saipen.Board.Reading
import Saipen.Assoc
import Saipen.Checks

/-! # Writing fields

The writers cut a row at its bars once more, frame and all, find a field by the text that a part begins
with, and put the parts together again. -/

namespace Saipen.Board

open Text

/-! ### The writers -/

/-- `MAX_LIVE_RECORD_CHARS`. -/
def maxLiveRecordChars : Nat := 1200

/-- `_fields_split`. -/
def fieldsSplit (raw : String) : List (List Char) := splitBars (maskPipes raw.toList)

/-- `_fields_join`. -/
def fieldsJoin (parts : List (List Char)) : String := String.ofList (unmaskPipes (joinBars parts))

/-- `^field:\s*` at the beginning of a part. -/
def matchesField (field : String) (part : List Char) : Bool := (field ++ ":").toList.isPrefixOf part

/-- `assert_live_record`. -/
def assertLiveRecord (p : Printable) (record : String) : Except String String := do
  let record ← assertSingleRecord p record "ticket_record"
  if record.length > maxLiveRecordChars then
    .error ("BOARD_RECORD_OVERSIZE: new/updated live ticket record is " ++ record.length.repr ++
      " characters, cap is " ++ maxLiveRecordChars.repr ++ "; retain the full specification in its source " ++
      "receipt/evidence/detail artifact and keep only a compact verify/blocker reference on BOARD")
  else .ok record

/-- `escape_ticket_description`. -/
def escapeDescription (p : Printable) (description : String) : Except String String := do
  let description ← assertSingleRecord p description "description"
  .ok (String.ofList (description.toList.flatMap fun c =>
    if c = '\\' then ['\\', '\\'] else if c = '|' then ['\\', '|'] else [c]))

/-- The loop of `_reject_duplicate_fields`. -/
def rejectDuplicates (p : Printable) (seen : List String) : List (List Char) → Except String Unit
  | [] => .ok ()
  | part :: parts =>
      if "- ".toList.isPrefixOf part then rejectDuplicates p seen parts
      else
        match fieldPart part with
        | none => rejectDuplicates p seen parts
        | some (name, _) =>
            if name ∈ seen then
              .error ("ticket line repeats field " ++ reprStr p name ++ "; parse the board before mutating " ++
                "-- refusing to edit a malformed record")
            else rejectDuplicates p (name :: seen) parts

/-- `_reject_duplicate_fields`. -/
def rejectDuplicateFields (p : Printable) (raw : String) : Except String Unit :=
  rejectDuplicates p [] (fieldsSplit raw)

/-- The parts with the first one of the field replaced, or with the new one behind them. -/
def putField (field : String) (new : List Char) : List (List Char) → List (List Char)
  | [] => [new]
  | part :: parts => if matchesField field part then new :: parts else part :: putField field new parts

/-- `set_ticket_field`. -/
def setTicketField (p : Printable) (raw field value : String) (enforceCap : Bool) : Except String String := do
  let value ← assertSingleRecord p value field
  rejectDuplicateFields p raw
  let joined := fieldsJoin (putField field (field ++ ": " ++ value).toList (fieldsSplit raw))
  if enforceCap then assertLiveRecord p joined else assertSingleRecord p joined "ticket_record"

/-- `remove_ticket_field`. -/
def removeTicketField (p : Printable) (raw field : String) : Except String String := do
  rejectDuplicateFields p raw
  .ok (fieldsJoin ((fieldsSplit raw).filter fun part => !matchesField field part))

/-! ### Escapes in a field -/

/-- What the reader takes out of a value that is written. -/
def readBack (value : String) : String := String.ofList (unescape (stripChars (maskPipes value.toList)))

theorem unescape_cons {c : Char} {cs : List Char} (h : c ≠ '\\') :
    unescape (c :: cs) = (if c = pipeSentinel then '|' else c) :: unescape cs := by
  rw [unescape.eq_def]
  split
  case h_1 heq => exact absurd (List.cons.inj heq).1 h
  case h_2 heq =>
    obtain ⟨rfl, rfl⟩ := List.cons.inj heq
    rfl
  case h_3 heq => cases heq

/-- Characters that no escape is made of stay in front. -/
theorem unescape_append {cs : List Char} (h : ∀ c ∈ cs, c ≠ '\\' ∧ c ≠ pipeSentinel) (ds : List Char) :
    unescape (cs ++ ds) = cs ++ unescape ds := by
  induction cs with
  | nil => rfl
  | cons c cs ih =>
    obtain ⟨hslash, hpipe⟩ := h c List.mem_cons_self
    rw [List.cons_append, unescape_cons hslash, if_neg hpipe, ih fun d hd => h d (List.mem_cons_of_mem _ hd),
      List.cons_append]

/-- The first character of what is read is the first one, or belongs to an escape. -/
theorem head_unescape (cs : List Char) : (unescape cs).head? = cs.head? ∨
    (cs.head? = some pipeSentinel ∧ (unescape cs).head? = some '|') := by
  cases cs using unescape.fun_cases with
  | case1 cs => exact .inl rfl
  | case2 c cs hne =>
    rw [unescape]
    · by_cases hc : c = pipeSentinel
      · rw [if_pos hc, hc]
        exact .inr ⟨rfl, rfl⟩
      · rw [if_neg hc]
        exact .inl rfl
    · exact hne
  | case3 => exact .inl rfl

section Runs

variable {q : Char → Bool} (hslash : q '\\' = false) (hpipe : q pipeSentinel = false) (hbar : q '|' = false)

include hslash hpipe hbar

/-- A run of characters that belong to no escape is read as it is, and so is what follows it. -/
theorem span_unescape (cs : List Char) : (unescape cs).takeWhile q = cs.takeWhile q ∧
    (unescape cs).dropWhile q = unescape (cs.dropWhile q) := by
  have hmem : ∀ c ∈ cs.takeWhile q, c ≠ '\\' ∧ c ≠ pipeSentinel := by
    intro c hc
    have hq := List.all_eq_true.mp List.all_takeWhile c hc
    constructor
    · rintro rfl
      rw [hslash] at hq
      cases hq
    · rintro rfl
      rw [hpipe] at hq
      cases hq
  have hread : unescape cs = cs.takeWhile q ++ unescape (cs.dropWhile q) := by
    conv_lhs => rw [← List.takeWhile_append_dropWhile (p := q) (l := cs)]
    exact unescape_append hmem _
  have hall : ∀ c ∈ cs.takeWhile q, q c = true := fun c hc => List.all_eq_true.mp List.all_takeWhile c hc
  have hstop : ∀ c ∈ (unescape (cs.dropWhile q)).head?, q c = false := by
    intro c hc
    rcases head_unescape (cs.dropWhile q) with hsame | ⟨-, hsome⟩
    · rw [hsame] at hc
      cases hdrop : cs.dropWhile q with
      | nil => rw [hdrop] at hc; cases hc
      | cons d ds =>
        rw [hdrop] at hc
        obtain rfl := Option.some.inj hc
        have hfirst := List.head_dropWhile_not q (l := cs) (by rw [hdrop]; exact List.cons_ne_nil _ _)
        simpa only [hdrop, List.head_cons] using hfirst
    · rw [hsome] at hc
      obtain rfl := Option.some.inj hc
      exact hbar
  rw [hread]
  cases hrest : unescape (cs.dropWhile q) with
  | nil =>
    rw [List.append_nil]
    exact ⟨List.takeWhile_eq_self_iff.mpr hall, List.dropWhile_eq_nil_iff.mpr hall⟩
  | cons d ds =>
    have hd := hstop d (by rw [hrest]; rfl)
    exact ⟨takeWhile_append_cons hall hd ds, dropWhile_append_cons hall hd ds⟩

end Runs

/-- The field of a part that is unescaped. -/
theorem fieldPart_unescape (cs : List Char) : fieldPart (unescape cs) =
    (fieldPart cs).map fun x => (x.1, String.ofList (unescape x.2.toList)) := by
  obtain ⟨htake, hdrop⟩ := span_unescape (q := isFieldChar) (by decide) (by decide) (by decide) cs
  rw [fieldPart, fieldPart, htake, hdrop]
  cases hname : cs.takeWhile isFieldChar with
  | nil => rfl
  | cons c name =>
    cases hrest : cs.dropWhile isFieldChar with
    | nil => rfl
    | cons d value =>
      by_cases hd : d = ':'
      · subst hd
        rw [unescape_cons (by decide), if_neg (by decide)]
        have hspace := (span_unescape (q := isSpace) (by decide) (by decide) (by decide) value).2
        simp [hspace]
      · have hhead : (unescape (d :: value)).head? ≠ some ':' := by
          rcases head_unescape (d :: value) with hsame | ⟨-, hsome⟩
          · rw [hsame]
            exact fun h => hd (Option.some.inj h)
          · rw [hsome]
            decide
        cases hread : unescape (d :: value) with
        | nil => simp [hd]
        | cons e es =>
          have he : e ≠ ':' := fun h => hhead (by rw [hread, h]; rfl)
          simp [hd, he]

theorem Flush.dropWhile {cs : List Char} (h : Flush cs) : cs.dropWhile isSpace = cs := by
  cases cs with
  | nil => rfl
  | cons c cs => exact List.dropWhile_cons_of_neg (by simp [h c rfl])

theorem dropWhile_rtrim (cs : List Char) : (rtrim cs).dropWhile isSpace = rtrim (cs.dropWhile isSpace) := by
  induction cs with
  | nil => rfl
  | cons c cs ih =>
    by_cases hc : isSpace c = true
    · rw [List.dropWhile_cons_of_pos hc, ← ih]
      by_cases hnil : rtrim cs = []
      · have hblank : rtrim (c :: cs) = [] :=
          rtrim_eq_nil.mpr ((List.forall_mem_cons (p := (isSpace · = true))).mpr ⟨hc, rtrim_eq_nil.mp hnil⟩)
        rw [hblank, hnil]
      · have hkeep : rtrim (c :: cs) = c :: rtrim cs := @rtrim_append_of_ne_nil [c] cs hnil
        rw [hkeep, List.dropWhile_cons_of_pos hc]
    · have hflush : Flush (c :: cs) := by
        rintro d hd
        obtain rfl := Option.some.inj hd
        exact Bool.eq_false_iff.mpr hc
      rw [hflush.dropWhile, hflush.rtrim.dropWhile]

/-- A field is a name, a colon, and the value behind white space. -/
theorem fieldPart_eq_some_iff {cs : List Char} {name value : String} : fieldPart cs = some (name, value) ↔
    ∃ more, cs = name.toList ++ ':' :: more ∧ name.toList ≠ [] ∧ (∀ c ∈ name.toList, isFieldChar c = true) ∧
      value = String.ofList (more.dropWhile isSpace) := by
  constructor
  · intro h
    unfold fieldPart at h
    split at h
    case h_1 c rest more hname hrest =>
      obtain ⟨rfl, rfl⟩ := Prod.mk.inj (Option.some.inj h)
      refine ⟨more, ?_, ?_, ?_, rfl⟩
      · rw [String.toList_ofList, ← hname, ← hrest, List.takeWhile_append_dropWhile]
      · rw [String.toList_ofList]
        exact List.cons_ne_nil _ _
      · rw [String.toList_ofList, ← hname]
        exact fun d hd => List.all_eq_true.mp List.all_takeWhile d hd
    case h_2 => cases h
  · rintro ⟨more, rfl, hne, hall, rfl⟩
    obtain ⟨c, rest, hname⟩ := List.exists_cons_of_ne_nil hne
    have hword : String.ofList (c :: rest) = name := by rw [← hname, String.ofList_toList]
    rw [fieldPart, takeWhile_append_cons hall (by decide), dropWhile_append_cons hall (by decide), hname]
    show some (String.ofList (c :: rest), _) = _
    rw [hword]

/-- The field of a part without the white space at its end. -/
theorem fieldPart_rtrim (cs : List Char) : fieldPart (rtrim cs) =
    (fieldPart cs).map fun x => (x.1, String.ofList (rtrim x.2.toList)) := by
  cases h : fieldPart cs with
  | some x =>
    obtain ⟨name, value⟩ := x
    obtain ⟨more, rfl, hne, hall, rfl⟩ := fieldPart_eq_some_iff.mp h
    have hkeep : rtrim (name.toList ++ ':' :: more) = name.toList ++ ':' :: rtrim more := by
      by_cases hnil : rtrim more = []
      · rw [hnil, List.append_cons, rtrim_append (rtrim_eq_nil.mp hnil)]
        refine rtrim_of_last fun c hc => ?_
        rw [List.getLast?_concat] at hc
        obtain rfl := Option.some.inj hc
        decide
      · rw [List.append_cons, rtrim_append_of_ne_nil hnil, ← List.append_cons]
    rw [hkeep]
    refine fieldPart_eq_some_iff.mpr ⟨rtrim more, rfl, hne, hall, ?_⟩
    rw [String.toList_ofList, dropWhile_rtrim]
  | none =>
    cases hr : fieldPart (rtrim cs) with
    | none => rfl
    | some x =>
      obtain ⟨more, hcs, hne, hall, -⟩ := fieldPart_eq_some_iff.mp hr
      obtain ⟨trail, htrail, -⟩ := exists_trail cs
      have hsome : fieldPart cs = some (x.1, String.ofList ((more ++ trail).dropWhile isSpace)) :=
        fieldPart_eq_some_iff.mpr ⟨more ++ trail, by rw [htrail, hcs, List.append_assoc, List.cons_append],
          hne, hall, rfl⟩
      rw [h] at hsome
      cases hsome

/-- What the reader takes out of a part that begins without white space. -/
theorem fieldPart_cleanPart {part : List Char} (h : Flush part) : fieldPart (cleanPart part).toList =
    (fieldPart part).map fun x => (x.1, String.ofList (unescape (rtrim x.2.toList))) := by
  rw [cleanPart, String.toList_ofList, stripChars_eq, h.dropWhile, fieldPart_unescape, fieldPart_rtrim]
  cases fieldPart part with
  | none => rfl
  | some x => simp

/-! ### Parts that a field is found in -/

/-- A name that a field can have. -/
def FieldName (name : String) : Prop := name.toList ≠ [] ∧ ∀ c ∈ name.toList, isFieldChar c = true

theorem fieldName_of_known {name : String} (h : name ∈ knownFields) : FieldName name := by
  have hall : knownFields.all fun k => !k.toList.isEmpty && k.toList.all isFieldChar := by decide
  have hname := List.all_eq_true.mp hall name h
  rw [Bool.and_eq_true, Bool.not_eq_true', List.isEmpty_eq_false_iff, List.all_eq_true] at hname
  exact hname

theorem isSpace_of_isFieldChar {c : Char} (h : isFieldChar c = true) : isSpace c = false := by
  simp only [isFieldChar, Bool.or_eq_true, Bool.and_eq_true, decide_eq_true_eq] at h
  rcases h with ⟨h1, h2⟩ | rfl
  · simp only [isSpace, Bool.or_eq_false_iff, Bool.and_eq_false_iff, decide_eq_false_iff_not, beq_eq_false_iff_ne]
    omega
  · decide

theorem matchesField_iff {field : String} {part : List Char} :
    matchesField field part = true ↔ ∃ more, part = field.toList ++ ':' :: more := by
  rw [matchesField, List.isPrefixOf_iff_prefix, String.toList_append]
  constructor
  · rintro ⟨more, rfl⟩
    exact ⟨more, by rw [List.append_assoc]; rfl⟩
  · rintro ⟨more, rfl⟩
    exact ⟨more, by rw [List.append_assoc]; rfl⟩

/-- The name that the reader finds on a part. -/
def partName (part : List Char) : Option String := (fieldPart (cleanPart part).toList).map (·.1)

/-- A name is found by the writers where the reader finds it, in a part that begins without white space. -/
theorem matchesField_eq_true_iff {field : String} (h : FieldName field) {part : List Char} :
    matchesField field part = true ↔ Flush part ∧ partName part = some field := by
  rw [matchesField_iff]
  constructor
  · rintro ⟨more, rfl⟩
    have hflush : Flush (field.toList ++ ':' :: more) := by
      intro c hc
      obtain ⟨d, ds, hname⟩ := List.exists_cons_of_ne_nil h.1
      rw [hname] at hc
      obtain rfl := Option.some.inj hc
      exact isSpace_of_isFieldChar (h.2 d (by rw [hname]; exact List.mem_cons_self))
    refine ⟨hflush, ?_⟩
    rw [partName, fieldPart_cleanPart hflush, fieldPart_eq_some_iff.mpr ⟨more, rfl, h.1, h.2, rfl⟩]
    rfl
  · rintro ⟨hflush, hname⟩
    rw [partName, fieldPart_cleanPart hflush] at hname
    cases hp : fieldPart part with
    | none => rw [hp] at hname; cases hname
    | some x =>
      rw [hp] at hname
      obtain rfl : x.1 = field := Option.some.inj hname
      obtain ⟨more, hpart, -⟩ := fieldPart_eq_some_iff.mp hp
      exact ⟨more, hpart⟩

theorem plain_of_notMem {cs : List Char} (h : '|' ∉ cs) : Plain cs :=
  fun hin => h (hin.subset (by simp))

theorem FieldName.bar_notMem {field : String} (h : FieldName field) : '|' ∉ field.toList := by
  intro hmem
  have := h.2 _ hmem
  cases this

/-- The part that is written for a field, as it is cut again. -/
theorem maskPipes_written {field : String} (h : FieldName field) (value : String) :
    maskPipes (field ++ ": " ++ value).toList = field.toList ++ ':' :: ' ' :: maskPipes value.toList := by
  have hplain : Plain (field.toList ++ [':', ' ']) := by
    refine plain_of_notMem fun hmem => ?_
    rcases List.mem_append.mp hmem with hmem | hmem
    · exact h.bar_notMem hmem
    · cases hmem with
      | tail _ hmem => cases hmem with
        | tail _ hmem => cases hmem
  have hlast : ¬ ((field.toList ++ [':', ' ']).getLast? = some '\\' ∧ value.toList.head? = some '|') := by
    rintro ⟨hslash, -⟩
    simp at hslash
  have hcut : (field ++ ": " ++ value).toList = (field.toList ++ [':', ' ']) ++ value.toList := by
    rw [String.toList_append, String.toList_append]
    rfl
  rw [hcut, maskPipes_append hlast, maskPipes_of_plain hplain, List.append_assoc]
  rfl

/-- What the reader finds on the part that is written for a field. -/
theorem fieldPart_written {field value : String} (h : FieldName field) :
    fieldPart (cleanPart (maskPipes (field ++ ": " ++ value).toList)).toList = some (field, readBack value) := by
  have hflush : Flush (field.toList ++ ':' :: ' ' :: maskPipes value.toList) :=
    ((matchesField_eq_true_iff h).mp (matchesField_iff.mpr ⟨_, rfl⟩)).1
  rw [maskPipes_written h, fieldPart_cleanPart hflush, fieldPart_eq_some_iff.mpr ⟨_, rfl, h.1, h.2, rfl⟩, Option.map_some,
    String.toList_ofList, List.dropWhile_cons_of_pos (by decide), readBack, stripChars_eq]

/-! ### What the writers answer -/

variable {p : Printable} {raw value out : String} {cap : Bool}

theorem assertLiveRecord_eq_ok_iff : assertLiveRecord p raw = .ok out ↔
    out = raw ∧ OneLine raw.toList ∧ raw.length ≤ maxLiveRecordChars := by
  unfold assertLiveRecord
  rw [Checks.bind_eq_ok]
  constructor
  · rintro ⟨record, hrecord, h⟩
    obtain ⟨rfl, hline⟩ := assertSingleRecord_ok hrecord
    split at h
    case isTrue => cases h
    case isFalse hlen => exact ⟨(Except.ok.inj h).symm, hline, Nat.not_lt.mp hlen⟩
  · rintro ⟨rfl, hline, hlen⟩
    exact ⟨out, assertSingleRecord_eq_ok_iff.mpr ⟨rfl, hline⟩, if_neg (Nat.not_lt.mpr hlen)⟩

/-- What is written is one line, no longer than the cap where it is enforced. -/
theorem setTicketField_eq_ok_iff : setTicketField p raw field value cap = .ok out ↔
    OneLine value.toList ∧ rejectDuplicateFields p raw = .ok () ∧
      out = fieldsJoin (putField field (field ++ ": " ++ value).toList (fieldsSplit raw)) ∧
      OneLine out.toList ∧ (cap = true → out.length ≤ maxLiveRecordChars) := by
  unfold setTicketField
  rw [Checks.bind_eq_ok]
  constructor
  · rintro ⟨record, hrecord, h⟩
    obtain ⟨rfl, hline⟩ := assertSingleRecord_ok hrecord
    obtain ⟨u, hreject, h⟩ := Checks.bind_eq_ok.mp h
    split at h
    case isTrue hcap =>
      obtain ⟨rfl, hout, hlen⟩ := assertLiveRecord_eq_ok_iff.mp h
      exact ⟨hline, hreject, rfl, hout, fun _ => hlen⟩
    case isFalse hcap =>
      obtain ⟨rfl, hout⟩ := assertSingleRecord_ok h
      exact ⟨hline, hreject, rfl, hout, fun h => absurd h hcap⟩
  · rintro ⟨hline, hreject, rfl, hout, hlen⟩
    refine ⟨value, assertSingleRecord_eq_ok_iff.mpr ⟨rfl, hline⟩, Checks.bind_eq_ok.mpr ⟨(), hreject, ?_⟩⟩
    split
    case isTrue hcap => exact assertLiveRecord_eq_ok_iff.mpr ⟨rfl, hout, hlen hcap⟩
    case isFalse => exact assertSingleRecord_eq_ok_iff.mpr ⟨rfl, hout⟩

theorem removeTicketField_eq_ok_iff : removeTicketField p raw field = .ok out ↔
    rejectDuplicateFields p raw = .ok () ∧
      out = fieldsJoin ((fieldsSplit raw).filter fun part => !matchesField field part) := by
  unfold removeTicketField
  rw [Checks.bind_eq_ok]
  constructor
  · rintro ⟨u, hreject, h⟩
    exact ⟨hreject, (Except.ok.inj h).symm⟩
  · rintro ⟨hreject, rfl⟩
    exact ⟨(), hreject, rfl⟩

end Saipen.Board
