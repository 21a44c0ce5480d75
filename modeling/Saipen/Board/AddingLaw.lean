import Saipen.Board.Adding
import Saipen.Board.FieldLaw

/-! # What an added row is read as

The row that is rendered is always laid out. It is read as it was given when no part of it carries what the
reader takes for something else: white space at an edge, the sentinel of the bars, an opener of a second
ticket. -/

namespace Saipen.Board

open Text

variable {p : Printable} {n : ℕ} {priority description verify regression record : String} {needs : List String}

/-! ### The row -/

theorem escapeDescription_ok {out : String} (h : escapeDescription p description = .ok out) :
    out = String.ofList (escapeChars description.toList) ∧ OneLine description.toList := by
  unfold escapeDescription at h
  obtain ⟨single, hsingle, hout⟩ := Checks.bind_eq_ok.mp h
  obtain ⟨rfl, hline⟩ := assertSingleRecord_ok hsingle
  exact ⟨(Except.ok.inj hout).symm, hline⟩

theorem repr_ne_nil (n : ℕ) : n.repr.toList ≠ [] := by
  rw [Nat.toList_repr]
  exact Nat.toDigits_ne_nil

theorem isDecimal_repr (n : ℕ) : ∀ c ∈ n.repr.toList, isDecimal c = true :=
  fun _ hc => isDecimal_of_isDigit (isDigit_of_mem_repr hc)

/-- The frame of a new row. -/
def newFrame (n : ℕ) : Frame where
  lead := []
  checkbox := ' '
  digits := n.repr.toList
  gap := [' ']
  lead_space := by simp
  isBox := by decide
  digits_ne := repr_ne_nil n
  decimal := isDecimal_repr n
  gap_ne := by simp
  gap_space := List.forall_mem_singleton.mpr (by decide)

theorem id_newFrame (n : ℕ) : (newFrame n).id = "T-" ++ n.repr := by
  show "T-" ++ String.ofList n.repr.toList = _
  rw [String.ofList_toList]

/-- The priority as it stands in front of the description. -/
def priorityPart (priority : String) : List Char := ("[" ++ priority ++ "] ").toList

theorem exists_priorityPart (h : isPriority priority = true) :
    ∃ c, isAsciiDigit c = true ∧ priorityPart priority = ['[', 'P', c, ']', ' '] := by
  unfold isPriority at h
  split at h
  · next c hc =>
    refine ⟨c, h, ?_⟩
    rw [priorityPart, String.toList_append, String.toList_append, hc]
    rfl
  · cases h

/-- What the record is made of. -/
theorem ticketRecord_ok (h : ticketRecord p ("T-" ++ n.repr) priority description needs verify regression = .ok record) :
    record.toList = (newFrame n).text ++ joinBars ((priorityPart priority ++ escapeChars description.toList) ::
      (addedFields needs regression (String.ofList (escapeChars verify.toList))).map fun x =>
        (x.1 ++ ": " ++ x.2).toList) := by
  unfold ticketRecord at h
  obtain ⟨d, hd, hrest⟩ := Checks.bind_eq_ok.mp h
  obtain ⟨v, hv, hrecord⟩ := Checks.bind_eq_ok.mp hrest
  obtain ⟨rfl, -⟩ := escapeDescription_ok hd
  obtain ⟨rfl, -⟩ := escapeDescription_ok hv
  obtain rfl := Except.ok.inj hrecord
  have hopening : (newFrame n).text = "- [ ] ".toList ++ ("T-" ++ n.repr).toList ++ [' '] := by
    rw [Frame.text, Frame.opening, String.toList_append]
    rfl
  rw [hopening, addedFields, givenFields, priorityPart]
  by_cases hneeds : needs.isEmpty <;> by_cases hregression : regression = "" <;>
    simp [hneeds, hregression, joinBars_cons_cons, bar, String.toList_append]

/-! ### Its parts -/

theorem closed_of_notMem {part : List Char} (h : '|' ∉ part) : Closed part := by
  refine closed_of_not_isInfix (fun hin => h (hin.subset (by simp [bar]))) fun hend => ?_
  have hmem : '|' ∈ part ++ [' '] := hend.subset (by simp [bar])
  rcases List.mem_append.mp hmem with hmem | hmem
  · exact h hmem
  · cases List.mem_singleton.mp hmem

/-- A list of ids as it is written: it has no edges to strip, and nothing in it is escaped. -/
structure Plainly (cs : List Char) : Prop where
  head : ∃ c ∈ cs.head?, isSpace c = false
  last : ∃ c ∈ cs.getLast?, isSpace c = false
  chars : ∀ c ∈ cs, c ≠ '\\' ∧ c ≠ '|' ∧ c ≠ pipeSentinel ∧ c ≠ '['

theorem plainly_id (f : Frame) : Plainly f.id.toList := by
  rw [f.toList_id]
  have hdigit : ∀ c ∈ f.digits, isSpace c = false ∧ c ≠ '\\' ∧ c ≠ '|' ∧ c ≠ pipeSentinel ∧ c ≠ '[' := by
    intro c hc
    have hdecimal := f.decimal c hc
    refine ⟨isSpace_of_isDecimal hdecimal, ?_, ?_, ?_, ?_⟩
    · rintro rfl
      exact absurd hdecimal (by decide)
    · rintro rfl
      exact absurd hdecimal (by decide)
    · rintro rfl
      exact absurd hdecimal (by decide)
    · rintro rfl
      exact absurd hdecimal (by decide)
  refine ⟨⟨'T', rfl, by decide⟩, ?_, ?_⟩
  · obtain ⟨init, c, hlast⟩ := (List.eq_nil_or_concat' f.digits).resolve_left f.digits_ne
    refine ⟨c, ?_, (hdigit c (by rw [hlast]; simp)).1⟩
    rw [hlast, ← List.cons_append, ← List.cons_append, List.getLast?_concat]
    rfl
  · intro c hc
    rcases List.mem_cons.mp hc with rfl | hc
    · decide
    rcases List.mem_cons.mp hc with rfl | hc
    · decide
    · exact (hdigit c hc).2

theorem plainly_needs (hne : needs ≠ []) (h : ∀ need ∈ needs, ∃ f : Frame, need = f.id) :
    Plainly (", ".intercalate needs).toList := by
  rw [String.toList_intercalate]
  show Plainly (List.intercalate [',', ' '] _)
  induction needs with
  | nil => exact absurd rfl hne
  | cons need needs ih =>
    obtain ⟨f, rfl⟩ := h need List.mem_cons_self
    have hid := plainly_id f
    cases needs with
    | nil => simpa using hid
    | cons next needs =>
      have hrest := ih (List.cons_ne_nil _ _) fun x hx => h x (List.mem_cons_of_mem _ hx)
      rw [List.map_cons, List.map_cons, List.intercalate_cons_cons, ← List.map_cons]
      have hnonempty : List.intercalate [',', ' '] (List.map String.toList (next :: needs)) ≠ [] := by
        intro hnil
        obtain ⟨c, hc, -⟩ := hrest.head
        rw [hnil] at hc
        cases hc
      refine ⟨?_, ?_, fun c hc => ?_⟩
      · obtain ⟨c, hc, hspace⟩ := hid.head
        exact ⟨c, by rw [List.append_assoc, List.head?_append, Option.mem_def.mp hc]; rfl, hspace⟩
      · rw [List.getLast?_append_of_ne_nil _ hnonempty]
        exact hrest.last
      · rcases List.mem_append.mp hc with hc | hc
        · rcases List.mem_append.mp hc with hc | hc
          · exact hid.chars c hc
          · rcases List.mem_cons.mp hc with rfl | hc
            · decide
            · obtain rfl := List.mem_singleton.mp hc
              decide
        · exact hrest.chars c hc

/-- What is plain is read back. -/
theorem Plainly.readBack {value : String} (h : Plainly value.toList) : readBack value = value := by
  have hmask : maskPipes value.toList = value.toList :=
    maskPipes_of_plain (plain_of_notMem fun hmem => (h.chars _ hmem).2.1 rfl)
  have hstrip : stripChars value.toList = value.toList := by
    obtain ⟨c, hc, hspace⟩ := h.head
    obtain ⟨more, hmore⟩ := List.head?_eq_some_iff.mp (Option.mem_def.mp hc)
    rw [stripChars_eq, hmore, List.dropWhile_cons_of_neg (by simp [hspace]), ← hmore]
    obtain ⟨d, hd, hlast⟩ := h.last
    refine rtrim_of_last fun e he => ?_
    rw [Option.mem_def.mp hd] at he
    rw [← Option.some.inj he]
    exact hlast
  have hsafe : ∀ c ∈ value.toList, c ≠ '\\' ∧ c ≠ pipeSentinel :=
    fun c hc => ⟨(h.chars c hc).1, (h.chars c hc).2.2.1⟩
  have hread := unescape_append hsafe []
  rw [List.append_nil] at hread
  rw [Board.readBack, hmask, hstrip, hread]
  show String.ofList (value.toList ++ []) = value
  rw [List.append_nil, String.ofList_toList]

theorem readBack_escaped (value : String) : readBack (String.ofList (escapeChars value.toList)) =
    String.ofList (barred (stripChars value.toList)) := by
  rw [readBack, String.toList_ofList, maskPipes_escapeChars, stripChars_veil, unescape_veil]

/-- The fields that are written as they are given, with values that are read as they are. -/
theorem given_cases (hregression : regression = "" ∨ regression = "required")
    (hneeds : ∀ need ∈ needs, ∃ f : Frame, need = f.id) {x : String × String}
    (hx : x ∈ givenFields needs regression) : x.1 ∈ knownFields ∧ Plainly x.2.toList := by
  rw [givenFields, List.mem_append] at hx
  rcases hx with hx | hx
  · split_ifs at hx with hempty
    · cases hx
    · obtain rfl := List.mem_singleton.mp hx
      have hknown : "needs" ∈ knownFields := by decide
      exact ⟨hknown, plainly_needs (fun hnil => hempty (by rw [hnil]; rfl)) hneeds⟩
  · split_ifs at hx with hempty
    · cases hx
    · obtain rfl := List.mem_singleton.mp hx
      obtain rfl := hregression.resolve_left hempty
      have hknown : "regression" ∈ knownFields := by decide
      have hplain : "required".toList.all
          (fun c => decide (c ≠ '\\' ∧ c ≠ '|' ∧ c ≠ pipeSentinel ∧ c ≠ '[')) = true := by decide
      exact ⟨hknown, ⟨'r', rfl, by decide⟩, ⟨'d', rfl, by decide⟩,
        fun c hc => of_decide_eq_true (List.all_eq_true.mp hplain c hc)⟩

/-- The names of the fields, in their order. -/
theorem names_addedFields (needs : List String) (regression value : String) :
    ((addedFields needs regression value).map (·.1)).Sublist ["needs", "regression", "verify"] := by
  rw [addedFields, givenFields]
  split_ifs <;> simp

/-- No bar stands in a part that is written. -/
theorem written_of_added (hregression : regression = "" ∨ regression = "required")
    (hneeds : ∀ need ∈ needs, ∃ f : Frame, need = f.id) {x : String × String}
    (hx : x ∈ addedFields needs regression (String.ofList (escapeChars verify.toList))) :
    FieldName x.1 ∧ '|' ∉ writtenPart x.1 x.2 := by
  have hpart : ∀ {field value : String}, field ∈ knownFields → '|' ∉ maskPipes value.toList →
      FieldName field ∧ '|' ∉ writtenPart field value := by
    intro field value hfield hvalue
    have hname := fieldName_of_known hfield
    refine ⟨hname, ?_⟩
    rw [writtenPart_eq hname]
    intro hmem
    rcases List.mem_append.mp hmem with hmem | hmem
    · exact hname.bar_notMem hmem
    · simp [hvalue] at hmem
  rw [addedFields, List.mem_append] at hx
  rcases hx with hx | hx
  · obtain ⟨hknown, hplain⟩ := given_cases hregression hneeds hx
    have hbar : '|' ∉ x.2.toList := fun hmem => (hplain.chars _ hmem).2.1 rfl
    exact hpart hknown (by rwa [maskPipes_of_plain (plain_of_notMem hbar)])
  · obtain rfl := List.mem_singleton.mp hx
    have hknown : "verify" ∈ knownFields := by decide
    refine hpart hknown ?_
    rw [String.toList_ofList, maskPipes_escapeChars]
    exact bar_notMem_veil _

/-- The new row is laid out. -/
theorem laid_record (hpriority : isPriority priority = true) (hregression : regression = "" ∨ regression = "required")
    (hneeds : ∀ need ∈ needs, ∃ f : Frame, need = f.id)
    (h : ticketRecord p ("T-" ++ n.repr) priority description needs verify regression = .ok record) :
    Laid record (newFrame n) (priorityPart priority ++ veil description.toList)
      ((addedFields needs regression (String.ofList (escapeChars verify.toList))).map fun x => writtenPart x.1 x.2) := by
  obtain ⟨c, hc, hpart⟩ := exists_priorityPart hpriority
  have hcbar : c ≠ '|' := by
    rintro rfl
    exact absurd hc (by decide)
  have hmaskPart : maskPipes (priorityPart priority ++ escapeChars description.toList) =
      priorityPart priority ++ veil description.toList := by
    have hplain : Plain (priorityPart priority) := plain_of_notMem (by rw [hpart]; simp [hcbar.symm])
    rw [maskPipes_append (by rw [hpart]; simp), maskPipes_of_plain hplain, maskPipes_escapeChars]
  have hmaskFrame : maskPipes (newFrame n).text = (newFrame n).text :=
    maskPipes_of_plain (plain_of_notMem (newFrame n).bar_notMem)
  have hlast : (newFrame n).text.getLast? = some ' ' := by
    show (_ ++ (_ ++ [' '])).getLast? = _
    rw [← List.append_assoc, List.getLast?_concat]
  have hfields : ∀ x ∈ addedFields needs regression (String.ofList (escapeChars verify.toList)),
      FieldName x.1 ∧ '|' ∉ writtenPart x.1 x.2 := fun x hx => written_of_added hregression hneeds hx
  refine ⟨⟨?_, ?_, ?_⟩, cut_of_closed ?_⟩
  · rw [ticketRecord_ok h, maskPipes_append (by rw [hlast]; simp), hmaskFrame, maskPipes_joinBars, List.map_cons,
      hmaskPart, List.map_map]
    rfl
  · rw [hpart]
    intro a ha
    obtain rfl : '[' = a := Option.some.inj ha
    decide
  · intro part hmem
    rcases List.mem_cons.mp hmem with rfl | hmem
    · intro hnil
      have := rtrim_eq_nil.mp hnil '[' (by rw [hpart]; simp)
      cases this
    · obtain ⟨x, hx, rfl⟩ := List.mem_map.mp hmem
      exact rtrim_writtenPart (hfields x hx).1 x.2
  · intro part hmem
    refine closed_of_notMem ?_
    rcases List.mem_cons.mp hmem with rfl | hmem
    · rw [hpart]
      simp [hcbar.symm, bar_notMem_veil]
    · obtain ⟨x, hx, rfl⟩ := List.mem_map.mp hmem
      exact (hfields x hx).2

/-! ### What is read -/

/-- The fields that are read of the new row. -/
theorem fieldsOf_record (hregression : regression = "" ∨ regression = "required")
    (hneeds : ∀ need ∈ needs, ∃ f : Frame, need = f.id) :
    FieldsOf (((addedFields needs regression (String.ofList (escapeChars verify.toList))).map fun x =>
        writtenPart x.1 x.2).map cleanPart)
      (addedFields needs regression (String.ofList (barred (stripChars verify.toList)))) := by
  have hread : ∀ x ∈ givenFields needs regression,
      fieldPart (cleanPart (writtenPart x.1 x.2)).toList = some x := by
    intro x hx
    obtain ⟨hknown, hplain⟩ := given_cases hregression hneeds hx
    rw [writtenPart, fieldPart_written (fieldName_of_known hknown), hplain.readBack]
  have hverify : fieldPart (cleanPart (writtenPart "verify" (String.ofList (escapeChars verify.toList)))).toList =
      some ("verify", String.ofList (barred (stripChars verify.toList))) := by
    have hknown : "verify" ∈ knownFields := by decide
    rw [writtenPart, fieldPart_written (fieldName_of_known hknown), readBack_escaped]
  have hnames := names_addedFields needs regression (String.ofList (barred (stripChars verify.toList)))
  refine ⟨?_, fun x hx => ?_, hnames.nodup (by decide)⟩
  · have hgiven : (givenFields needs regression).map (((fun part : String => fieldPart part.toList) ∘ cleanPart) ∘
        fun x => writtenPart x.1 x.2) = (givenFields needs regression).map some := by
      refine List.map_congr_left fun x hx => ?_
      rw [Function.comp_apply, Function.comp_apply, hread x hx]
    rw [List.map_map, List.map_map, addedFields, addedFields, List.map_append, List.map_append, List.map_singleton,
      List.map_singleton, hgiven, Function.comp_apply, Function.comp_apply, hverify]
  · have hmem := hnames.subset (List.mem_map_of_mem hx)
    have hall : ∀ name ∈ ["needs", "regression", "verify"], name ∈ knownFields := by decide
    exact hall x.1 hmem

/-- What the description of the new row is read as. -/
def readDescription (priority description : String) : String :=
  cleanPart (priorityPart priority ++ veil description.toList)

/-- The new row is read when no opener of a second ticket stands in it. -/
theorem readRecord_record (hpriority : isPriority priority = true) (hregression : regression = "" ∨ regression = "required")
    (hneeds : ∀ need ∈ needs, ∃ f : Frame, need = f.id)
    (h : ticketRecord p ("T-" ++ n.repr) priority description needs verify regression = .ok record) {t : Ticket} :
    readRecord "## TODO" record = some t ↔
      embedsTicket description.toList = false ∧ embedsTicket verify.toList = false ∧
        t = ⟨"T-" ++ n.repr, "## TODO", ' ', ticketRefs (((addedFields needs regression
          (String.ofList (barred (stripChars verify.toList)))).lookup "needs").getD ""),
          addedFields needs regression (String.ofList (barred (stripChars verify.toList))), record,
          readDescription priority description⟩ := by
  have hlaid := laid_record hpriority hregression hneeds h
  have hfields := @fieldsOf_record verify regression needs hregression hneeds
  obtain ⟨c, hc, hpart⟩ := exists_priorityPart hpriority
  have hcbracket : c ≠ ']' := by
    rintro rfl
    exact absurd hc (by decide)
  -- no opener begins in the priority
  have hdescription : embedsTicket (priorityPart priority ++ veil description.toList) = embedsTicket description.toList := by
    have hopen : ∀ cs, openerAt ('[' :: 'P' :: c :: cs) = false := by
      intro cs
      unfold openerAt
      split
      · next heq => exact absurd (List.cons.inj (List.cons.inj (List.cons.inj heq).2).2).1 hcbracket
      · rfl
    have hcopen : '[' ∉ ['P', c, ']', ' '] := by
      have hne : c ≠ '[' := by
        rintro rfl
        exact absurd hc (by decide)
      simp [hne.symm]
    rw [hpart, List.cons_append, embedsTicket_cons, List.cons_append, List.cons_append, hopen, Bool.false_or]
    exact (embedsTicket_of_open hcopen _).trans (embedsTicket_veil _)
  have hparts : (∀ part ∈ (priorityPart priority ++ veil description.toList) ::
      (addedFields needs regression (String.ofList (escapeChars verify.toList))).map fun x => writtenPart x.1 x.2,
        embedsTicket part = false) ↔ embedsTicket description.toList = false ∧ embedsTicket verify.toList = false := by
    have hverify : embedsTicket (writtenPart "verify" (String.ofList (escapeChars verify.toList))) =
        embedsTicket verify.toList := by
      have hknown : "verify" ∈ knownFields := by decide
      rw [embedsTicket_writtenPart (fieldName_of_known hknown), String.toList_ofList, maskPipes_escapeChars,
        embedsTicket_veil]
    have hgiven : ∀ x ∈ givenFields needs regression, embedsTicket (writtenPart x.1 x.2) = false := by
      intro x hx
      obtain ⟨hknown, hplain⟩ := given_cases hregression hneeds hx
      have hbar : '|' ∉ x.2.toList := fun hmem => (hplain.chars _ hmem).2.1 rfl
      rw [embedsTicket_writtenPart (fieldName_of_known hknown), maskPipes_of_plain (plain_of_notMem hbar)]
      have hopen : '[' ∉ x.2.toList := fun hmem => (hplain.chars _ hmem).2.2.2 rfl
      have hnone := embedsTicket_of_open hopen []
      rwa [List.append_nil] at hnone
    rw [List.forall_mem_cons, hdescription, addedFields, List.map_append, List.map_singleton, hverify.symm]
    constructor
    · rintro ⟨hd, hall⟩
      exact ⟨hd, hall _ (List.mem_append_right _ List.mem_cons_self)⟩
    · rintro ⟨hd, hv⟩
      refine ⟨hd, fun part hmem => ?_⟩
      rcases List.mem_append.mp hmem with hmem | hmem
      · obtain ⟨x, hx, rfl⟩ := List.mem_map.mp hmem
        exact hgiven x hx
      · rwa [List.mem_singleton.mp hmem]
  have hticket : ∀ fs, laidTicket "## TODO" record (newFrame n) (priorityPart priority ++ veil description.toList) fs =
      ⟨"T-" ++ n.repr, "## TODO", ' ', ticketRefs ((fs.lookup "needs").getD ""), fs, record,
        readDescription priority description⟩ := by
    intro fs
    rw [laidTicket, id_newFrame]
    rfl
  rw [hlaid.reads_iff, hparts]
  constructor
  · rintro ⟨-, ⟨hd, hv⟩, fs, hfs, rfl⟩
    -- the fields that are read are these
    have hsame : fs = addedFields needs regression (String.ofList (barred (stripChars verify.toList))) :=
      List.map_injective_iff.mpr (Option.some_injective _) (hfs.read.symm.trans hfields.read)
    exact ⟨hd, hv, by rw [hsame, hticket]⟩
  · rintro ⟨hd, hv, rfl⟩
    exact ⟨by decide, ⟨hd, hv⟩, _, hfields, (hticket _).symm⟩

/-! ### When it is read as it was given -/

theorem length_barred (cs : List Char) : (barred cs).length = cs.length := List.length_map _

theorem barred_eq_self {cs : List Char} : barred cs = cs ↔ pipeSentinel ∉ cs := by
  have hself : barred cs = cs ↔ ∀ c ∈ cs, (if c = pipeSentinel then '|' else c) = id c := by
    rw [← List.map_inj_left, List.map_id, barred]
  rw [hself]
  constructor
  · intro h hmem
    have := h _ hmem
    rw [if_pos rfl] at this
    cases this
  · intro h c hc
    have hne : c ≠ pipeSentinel := fun heq => h (heq ▸ hc)
    rw [if_neg hne]
    rfl

/-- A text is kept when neither the strip nor the masking changes it. -/
theorem barred_stripChars_iff {value : String} : String.ofList (barred (stripChars value.toList)) = value ↔
    strip value = value ∧ pipeSentinel ∉ value.toList := by
  have hstrip : strip value = value ↔ stripChars value.toList = value.toList := by
    rw [← String.toList_inj, strip, String.toList_ofList, stripChars]
  rw [hstrip, ← String.toList_inj, String.toList_ofList]
  constructor
  · intro h
    have hlen := congrArg List.length h
    rw [length_barred] at hlen
    have hsame := stripChars_of_length hlen
    rw [hsame] at h
    exact ⟨hsame, barred_eq_self.mp h⟩
  · rintro ⟨hsame, hnone⟩
    rw [hsame, barred_eq_self.mpr hnone]

/-- The description is kept when no white space stands at its end and no sentinel in it. -/
theorem readDescription_iff (hpriority : isPriority priority = true) :
    readDescription priority description = "[" ++ priority ++ "] " ++ description ↔
      (description.toList.getLast?.any fun c => !isSpace c) = true ∧ pipeSentinel ∉ description.toList := by
  obtain ⟨c, hc, hpart⟩ := exists_priorityPart hpriority
  have hcplain : isSpace c = false ∧ c ≠ '\\' ∧ c ≠ pipeSentinel := by
    refine ⟨?_, ?_, ?_⟩
    · by_contra hspace
      simp only [isAsciiDigit, Bool.and_eq_true, decide_eq_true_eq] at hc
      simp only [Bool.not_eq_false, isSpace, Bool.or_eq_true, Bool.and_eq_true, decide_eq_true_eq, beq_iff_eq] at hspace
      omega
    · rintro rfl
      exact absurd hc (by decide)
    · rintro rfl
      exact absurd hc (by decide)
  have hwhole : ("[" ++ priority ++ "] " ++ description).toList = priorityPart priority ++ description.toList := by
    rw [String.toList_append, priorityPart]
  rw [← String.toList_inj, hwhole, readDescription, cleanPart, String.toList_ofList, stripChars_eq, hpart,
    List.cons_append, List.dropWhile_cons_of_neg (by decide), ← List.cons_append]
  by_cases hblank : rtrim description.toList = []
  · -- only the priority is left
    have hspaces := rtrim_eq_nil.mp hblank
    have hveil : veil description.toList = description.toList :=
      veil_of_plain fun d hd => by
        have hd := hspaces d hd
        constructor
        · rintro rfl
          exact absurd hd (by decide)
        · rintro rfl
          exact absurd hd (by decide)
    have hread : unescape (rtrim (['[', 'P', c, ']', ' '] ++ veil description.toList)) = ['[', 'P', c, ']'] := by
      have hsplit : ['[', 'P', c, ']', ' '] ++ description.toList = ['[', 'P', c, ']'] ++ (' ' :: description.toList) := by
        simp
      rw [hveil, hsplit, rtrim_append fun d hd => ?_, rtrim_of_last fun d hd => ?_]
      · have hsafe : ∀ d ∈ ['[', 'P', c, ']'], d ≠ '\\' ∧ d ≠ pipeSentinel := by
          intro d hd
          simp only [List.mem_cons, List.not_mem_nil, or_false] at hd
          rcases hd with rfl | rfl | rfl | rfl
          · decide
          · decide
          · exact hcplain.2
          · decide
        have hkeep := unescape_append hsafe []
        rw [List.append_nil] at hkeep
        rw [hkeep]
        rfl
      · obtain rfl : ']' = d := Option.some.inj hd
        decide
      · rcases List.mem_cons.mp hd with rfl | hd
        · decide
        · exact hspaces d hd
    rw [hread]
    constructor
    · intro h
      have hlen := congrArg List.length h
      simp at hlen
    · rintro ⟨hlast, -⟩
      obtain ⟨d, hd, hspace⟩ := (Option.any_eq_true _ _).mp hlast
      rw [hspaces d (List.mem_of_getLast? hd)] at hspace
      cases hspace
  · have hread : unescape (rtrim (['[', 'P', c, ']', ' '] ++ veil description.toList)) =
        ['[', 'P', c, ']', ' '] ++ barred (rtrim description.toList) := by
      have hne : rtrim (veil description.toList) ≠ [] := by
        rw [rtrim_veil]
        obtain ⟨d, more, hmore⟩ := List.exists_cons_of_ne_nil hblank
        rw [hmore, veil_cons]
        split_ifs <;> simp
      rw [rtrim_append_of_ne_nil hne, rtrim_veil, unescape_append, unescape_veil]
      intro d hd
      simp only [List.mem_cons, List.not_mem_nil, or_false] at hd
      rcases hd with rfl | rfl | rfl | rfl | rfl
      · decide
      · decide
      · exact hcplain.2
      · decide
      · decide
    rw [hread, List.append_cancel_left_eq]
    constructor
    · intro h
      have hlen := congrArg List.length h
      rw [length_barred] at hlen
      have hsame : rtrim description.toList = description.toList := (rtrim_isPrefix _).eq_of_length hlen
      rw [hsame] at h hblank
      obtain ⟨init, d, hlast⟩ := (List.eq_nil_or_concat' description.toList).resolve_left hblank
      have hend := last_rtrim description.toList d (by rw [hsame, hlast, List.getLast?_concat]; rfl)
      refine ⟨?_, barred_eq_self.mp h⟩
      rw [hlast, List.getLast?_concat, Option.any_some, hend]
      rfl
    · rintro ⟨hlast, hnone⟩
      obtain ⟨d, hd, hspace⟩ := (Option.any_eq_true _ _).mp hlast
      have hsame : rtrim description.toList = description.toList := by
        refine rtrim_of_last fun e he => ?_
        rw [Option.mem_def.mp he] at hd
        rw [Option.some.inj hd]
        simpa using hspace
      rw [hsame, barred_eq_self.mpr hnone]

end Saipen.Board
