import Saipen.Log.Compaction

/-! # Externalised events are restored

The LOG keeps a reference to the metadata of an externalised event. Reading the reference back, the
metadata and the full line behind it gives the event as it was drafted exactly when the full line is
one line whose fields are plain, is not taken for UTF-16, and keeps the marker of its structure. -/

namespace Saipen.Log

open Text FileTree

/-! ### The characters of a parsed line -/

theorem oneLine_of_bracketed {opening cs rest : List Char} {body : Option (List Char)}
    (h : OneLine cs) (hb : bracketed opening cs = some (body, rest)) :
    (∀ b, body = some b → OneLine b) ∧ OneLine rest := by
  rcases bracketed_eq_some_iff.mp hb with ⟨rfl, -, rfl⟩ | ⟨b, rfl, -, rfl⟩
  · exact ⟨by simp, h⟩
  · obtain ⟨-, hinner⟩ := OneLine.append.mp h
    obtain ⟨hbody, hrest⟩ := OneLine.append.mp hinner
    exact ⟨fun b' hb' => Option.some.inj hb' ▸ hbody, hrest.of_cons⟩

theorem oneLine_of_ticketGroup {cs rest : List Char} {ticket : Option String} (h : OneLine cs)
    (hg : ticketGroup cs = some (ticket, rest)) :
    (∀ t, ticket = some t → OneLine t.toList) ∧ OneLine rest := by
  obtain ⟨⟨body, rest'⟩, hbody, hg⟩ := Option.map_eq_some_iff.mp hg
  obtain ⟨hb, hrest⟩ := oneLine_of_bracketed h hbody
  simp only [Prod.mk.injEq] at hg
  obtain ⟨rfl, rfl⟩ := hg
  refine ⟨fun t ht => ?_, hrest⟩
  obtain ⟨b, hb', rfl⟩ := Option.map_eq_some_iff.mp ht
  rw [String.toList_ofList]
  exact OneLine.append.mpr ⟨(oneLine_literal (by decide) : OneLine ['T', '-']), hb b hb'⟩

theorem oneLine_of_namedGroup {opening cs rest : List Char} {value : Option String} (h : OneLine cs)
    (hg : namedGroup opening cs = some (value, rest)) :
    (∀ v, value = some v → OneLine v.toList) ∧ OneLine rest := by
  obtain ⟨⟨body, rest'⟩, hbody, hg⟩ := Option.bind_eq_some_iff.mp hg
  obtain ⟨hb, hrest⟩ := oneLine_of_bracketed h hbody
  cases body with
  | none =>
    simp only [Option.some.injEq, Prod.mk.injEq] at hg
    obtain ⟨rfl, rfl⟩ := hg
    exact ⟨by simp, hrest⟩
  | some b =>
    cases b with
    | nil => simp at hg
    | cons c b =>
      simp only [Option.some.injEq, Prod.mk.injEq] at hg
      obtain ⟨rfl, rfl⟩ := hg
      refine ⟨fun v hv => ?_, hrest⟩
      rw [← Option.some.inj hv, String.toList_ofList]
      exact hb _ rfl

theorem oneLine_of_taxonomyGroup {cs : List Char} {taxonomy text : String} (h : OneLine cs)
    (hg : taxonomyGroup cs = some (taxonomy, text)) : OneLine text.toList := by
  simp only [taxonomyGroup, Option.bind_eq_bind, Option.bind_eq_some_iff] at hg
  obtain ⟨cs₁, h₁, cs₂, h₂, text', htext, hg⟩ := hg
  have hrest := ((h.of_literal h₁).dropWhile isUpper).of_literal h₂
  have htext' : text'.toList = cs₂.takeWhile (· ≠ '\n') := by
    unfold textGroup at htext
    split at htext
    · rw [← Option.some.inj htext, String.toList_ofList]
    · rw [← Option.some.inj htext, String.toList_ofList]
    · cases htext
  split at hg
  · cases hg
  · simp only [Option.some.injEq, Prod.mk.injEq] at hg
    rw [← hg.2, htext']
    exact hrest.takeWhile _

/-- The fields of a physical line end no line. -/
theorem oneLine_of_parseLogLine {line : String} {e : LogEvent} (h : parseLogLine line = some e)
    (hline : OneLine line.toList) :
    (∀ t, e.ticket = some t → OneLine t.toList) ∧ (∀ a, e.agent = some a → OneLine a.toList) ∧
      (∀ o, e.opId = some o → OneLine o.toList) ∧ OneLine e.text.toList := by
  simp only [parseLogLine, Option.bind_eq_bind, Option.bind_eq_some_iff, Prod.exists] at h
  obtain ⟨cs, hcs, event, cs₁, hevent, parent, cs₂, hparent, ticket, cs₃, hticket, agent, cs₄, hagent,
    opId, cs₅, hop, taxonomy, text, htax, he⟩ := h
  obtain rfl := Option.some.inj he
  obtain ⟨pre, hpre, -⟩ := dateGroup_append cs
  have h₁ := (hline.of_literal hcs).of_suffix ⟨pre, hpre.symm⟩
  have h₂ := (h₁.of_suffix (suffix_of_eventGroup hevent)).of_suffix (suffix_of_parentGroup hparent)
  obtain ⟨ht, h₃⟩ := oneLine_of_ticketGroup h₂ hticket
  obtain ⟨ha, h₄⟩ := oneLine_of_namedGroup h₃ hagent
  obtain ⟨ho, h₅⟩ := oneLine_of_namedGroup h₄ hop
  exact ⟨ht, ha, ho, oneLine_of_taxonomyGroup h₅ htax⟩

/-! ### The bytes of a line -/

/-- The bytes of a text that starts like a LOG line. -/
theorem encodeUtf8_dash {s : String} {cs : List Char} (hs : s.toList = '-' :: ' ' :: cs) :
    ∃ rest, encodeUtf8 s = 0x2d :: 0x20 :: rest := by
  rw [encodeUtf8_cons hs (b := 0x2d) (by decide),
    encodeUtf8_cons (String.toList_ofList) (b := 0x20) (by decide)]
  exact ⟨_, rfl⟩

/-- Such a text carries no byte-order mark, so it is UTF-8 unless its zeros say otherwise. -/
theorem decodeDoc_dash {s : String} {cs : List Char} (hs : s.toList = '-' :: ' ' :: cs) :
    decodeDoc (encodeUtf8 s) =
      match bomlessUtf16 (encodeUtf8 s) with
      | some unit => decodeUtf16 unit (encodeUtf8 s)
      | none => s := by
  have hutf8 := decodeUtf8?_encodeUtf8 s
  obtain ⟨rest, hrest⟩ := encodeUtf8_dash hs
  have hbom : boms.find? (fun bom => bom.1.isPrefixOf (encodeUtf8 s)) = none := by
    rw [hrest]
    simp [boms, List.isPrefixOf]
  rw [decodeDoc, hbom]
  cases bomlessUtf16 (encodeUtf8 s) with
  | some unit => rfl
  | none => simp only [hutf8]

theorem bomlessUtf16_some {raw : Bytes} {unit : UInt8 → UInt8 → Nat}
    (h : bomlessUtf16 raw = some unit) : unit = littleEndian ∨ unit = bigEndian := by
  unfold bomlessUtf16 at h
  split at h
  · cases h
  · simp only at h
    split at h
    · exact .inl (Option.some.inj h).symm
    · split at h
      · exact .inr (Option.some.inj h).symm
      · cases h

/-- The first code unit, when it is no surrogate, is the first character. -/
theorem fromUtf16_head (odd : Bool) (us : List Nat) {u : Nat} (hhigh : isHighSurrogate u = false)
    (hlow : isLowSurrogate u = false) : ∃ rest, fromUtf16 odd (u :: us) = Char.ofNat u :: rest := by
  cases us with
  | nil => exact ⟨_, by simp [fromUtf16, hhigh, hlow]; rfl⟩
  | cons v us => exact ⟨_, by simp [fromUtf16, hhigh, hlow]; rfl⟩

/-- A LOG line taken for UTF-16 does not begin with a dash. -/
theorem decodeUtf16_dash {s : String} {cs : List Char} (hs : s.toList = '-' :: ' ' :: cs)
    {unit : UInt8 → UInt8 → Nat} (h : unit = littleEndian ∨ unit = bigEndian) :
    ∃ c rest, (decodeUtf16 unit (encodeUtf8 s)).toList = c :: rest ∧ c ≠ '-' ∧ c ≠ '\r' ∧
      isLineBreak c = false := by
  obtain ⟨rest, hrest⟩ := encodeUtf8_dash hs
  rw [hrest, decodeUtf16, String.toList_ofList, units]
  rcases h with rfl | rfl
  · obtain ⟨tail, htail⟩ := fromUtf16_head (decide ((0x2d :: 0x20 :: rest).length % 2 = 1))
      (units littleEndian rest) (u := littleEndian 0x2d 0x20) (by decide) (by decide)
    exact ⟨_, tail, htail, by decide, by decide, by decide⟩
  · obtain ⟨tail, htail⟩ := fromUtf16_head (decide ((0x2d :: 0x20 :: rest).length % 2 = 1))
      (units bigEndian rest) (u := bigEndian 0x2d 0x20) (by decide) (by decide)
    exact ⟨_, tail, htail, by decide, by decide, by decide⟩

/-- A document that starts like a LOG line is read as it was written. -/
theorem normalisedDocText_dash {s : String} {cs : List Char} (hs : s.toList = '-' :: ' ' :: cs)
    (hutf8 : bomlessUtf16 (encodeUtf8 s) = none) (hcr : '\r' ∉ s.toList) :
    normalisedDocText (encodeUtf8 s) = s := by
  rw [normalisedDocText, decodeDoc_dash hs, hutf8, normaliseNewlines_eq_self hcr,
    String.ofList_toList]

/-- The line of a detail file, when it is one line in UTF-8. -/
theorem splitLines_full {s : String} {cs : List Char} (hs : s.toList = '-' :: ' ' :: cs)
    (hline : OneLine s.toList) (hutf8 : bomlessUtf16 (encodeUtf8 (s ++ "\n")) = none) :
    splitLines (normalisedDocText (encodeUtf8 (s ++ "\n"))) = [s] := by
  have hdash : (s ++ "\n").toList = '-' :: ' ' :: (cs ++ ['\n']) := by simp [hs]
  have hcr : '\r' ∉ (s ++ "\n").toList := by
    rw [String.toList_append, List.mem_append, not_or]
    exact ⟨fun h => absurd (hline _ h) (by decide), by decide⟩
  rw [normalisedDocText_dash hdash hutf8 hcr, splitLines_newline hline]

/-- A detail file taken for UTF-16 holds no line that parses first. -/
theorem parse_first_line_utf16 {s : String} {cs : List Char} (hs : s.toList = '-' :: ' ' :: cs)
    {unit : UInt8 → UInt8 → Nat} (hunit : bomlessUtf16 (encodeUtf8 s) = some unit) {line : String}
    (hlines : splitLines (normalisedDocText (encodeUtf8 s)) = [line]) : parseLogLine line = none := by
  obtain ⟨c, rest, hdecode, hdash, hcr, hbreak⟩ := decodeUtf16_dash hs (bomlessUtf16_some hunit)
  rw [normalisedDocText, decodeDoc_dash hs, hunit] at hlines
  simp only [hdecode, normaliseNewlines_cons hcr] at hlines
  obtain ⟨l, ls, hl, -⟩ := linesFrom_cons_head (normaliseNewlines rest) hbreak
  rw [splitLines, String.toList_ofList, hl, List.map_cons, List.cons.injEq] at hlines
  have hnone : literal "- ".toList (String.ofList (c :: l)).toList = none := by
    simp [literal, Ne.symm hdash]
  rw [← hlines.1]
  unfold parseLogLine
  rw [hnone]
  rfl

/-! ### The reference -/

section Reference

variable {w : World} {d : Draft}

/-- Characters the name of a detail file is made of. -/
def isNameChar (c : Char) : Bool := isAsciiAlnum c || c = '.' || c = '-' || c = '/'

theorem isSpace_of_isNameChar {c : Char} (h : isNameChar c = true) : isSpace c = false := by
  simp only [isNameChar, isAsciiAlnum, Bool.or_eq_true, Bool.and_eq_true, decide_eq_true_eq] at h
  have hnat : (48 ≤ c.toNat ∧ c.toNat ≤ 57) ∨ (65 ≤ c.toNat ∧ c.toNat ≤ 90) ∨
      (97 ≤ c.toNat ∧ c.toNat ≤ 122) ∨ (45 ≤ c.toNat ∧ c.toNat ≤ 47) := by
    rcases h with ((((h | h) | h) | rfl) | rfl) | rfl
    · exact .inl h
    · exact .inr (.inl h)
    · exact .inr (.inr (.inl h))
    all_goals exact .inr (.inr (.inr (by decide)))
  simp only [isSpace, Bool.or_eq_false_iff, Bool.and_eq_false_iff, decide_eq_false_iff_not,
    beq_eq_false_iff_ne]
  omega

theorem isNameChar_of_isDigit {c : Char} (h : c.isDigit = true) : isNameChar c = true := by
  have hrange := h
  simp only [Char.isDigit, Bool.and_eq_true, decide_eq_true_eq, UInt32.le_iff_toNat_le] at hrange
  obtain ⟨hlow, hhigh⟩ := hrange
  have hnat : 48 ≤ c.toNat ∧ c.toNat ≤ 57 := ⟨hlow, hhigh⟩
  simp [isNameChar, isAsciiAlnum, hnat]

theorem isNameChar_of_isLowerHex {c : Char} (h : isLowerHex c = true) : isNameChar c = true := by
  simp only [isLowerHex, Bool.or_eq_true, Bool.and_eq_true, decide_eq_true_eq] at h
  simp only [isNameChar, isAsciiAlnum, Bool.or_eq_true, Bool.and_eq_true, decide_eq_true_eq]
  have : c.toNat ≤ 57 ∨ c.toNat ≤ 122 := by omega
  rcases h with h | h
  · exact .inl (.inl (.inl (.inl (.inl h))))
  · exact .inl (.inl (.inl (.inr ⟨h.1, by omega⟩)))

theorem fileChars_of_all {cs : List Char} (h : cs.all (fun c => isNameChar c && c != '/') = true) :
    ∀ c ∈ cs, isNameChar c = true ∧ c ≠ '/' := fun c hc => by
  simpa using List.all_eq_true.mp h c hc

/-- The stem is a plain name without a slash. -/
theorem Draft.stem_chars (w : World) (d : Draft) :
    ∀ c ∈ (d.stem w).toList, isNameChar c = true ∧ c ≠ '/' := by
  intro c hc
  simp only [Draft.stem, String.toList_append, String.toList_ofList, List.mem_append] at hc
  rcases hc with ((hc | hc) | hc) | hc
  · exact fileChars_of_all (by decide) c hc
  · have hdigit := isDigit_of_mem_repr hc
    refine ⟨isNameChar_of_isDigit hdigit, ?_⟩
    rintro rfl
    exact absurd hdigit (by decide)
  · exact fileChars_of_all (by decide) c hc
  · have hhex := w.sha256_hex _ c (List.mem_of_mem_take hc)
    refine ⟨isNameChar_of_isLowerHex hhex, ?_⟩
    rintro rfl
    exact absurd hhex (by decide)

/-- A file of the detail directory, by the name it has there. -/
theorem ownedDetail_of_probe {disk : Disk} {name : String} {c : Content}
    (hname : ∀ ch ∈ name.toList, isNameChar ch = true ∧ ch ≠ '/') (hne : name ≠ "..")
    (h : probe (components (detailRoot ++ name)) disk = .found (.file c)) :
    ownedDetail disk (detailRoot ++ name) = some c := by
  have hchars : ∀ ch ∈ (detailRoot ++ name).toList, isNameChar ch = true := by
    intro ch hch
    rw [String.toList_append, List.mem_append] at hch
    rcases hch with hch | hch
    · exact List.all_eq_true.mp (by decide) ch hch
    · exact (hname ch hch).1
  have hsame : replaceChar '\\' '/' (detailRoot ++ name) = detailRoot ++ name := by
    have hmap : ∀ ch ∈ (detailRoot ++ name).toList, (if ch = '\\' then '/' else ch) = ch := by
      intro ch hch
      refine if_neg ?_
      rintro rfl
      exact absurd (hchars _ hch) (by decide)
    rw [replaceChar, List.map_congr_left hmap, List.map_id', String.ofList_toList]
  have hdrop : String.ofList ((detailRoot ++ name).toList.dropWhile (· = '/')) = detailRoot ++ name := by
    have hhead : (detailRoot ++ name).toList.dropWhile (· = '/') = (detailRoot ++ name).toList := by
      simp [detailRoot]
    rw [hhead, String.ofList_toList]
  have hsplit : split '/' (detailRoot ++ name) = [".saipen", "recovery", "log-detail", name] := by
    have hjoin : detailRoot ++ name =
        (String.singleton '/').intercalate [".saipen", "recovery", "log-detail", name] := by
      rw [← String.toList_inj, String.toList_intercalate]
      simp [detailRoot]
    rw [hjoin]
    refine split_intercalate (fun u hu => ?_) (by simp)
    simp only [List.mem_cons, List.not_mem_nil, or_false] at hu
    rcases hu with rfl | rfl | rfl | rfl
    · decide
    · decide
    · decide
    · exact fun hmem => (hname _ hmem).2 rfl
  have hdots : ".." ∉ split '/' (detailRoot ++ name) := by
    rw [hsplit]
    simp [Ne.symm hne]
  have hstart : startsWith (detailRoot ++ name) detailRoot = true := by
    rw [startsWith, List.isPrefixOf_iff_prefix, String.toList_append]
    exact List.prefix_append _ _
  rw [ownedDetail, hsame]
  simp only [hdrop, hdots, hstart, h]
  simp

/-- A text that neither begins nor ends with a space is stripped to itself. -/
theorem strip_eq_self {s : String} (hhead : ∀ c ∈ s.toList.head?, isSpace c = false)
    (hlast : ∀ c ∈ s.toList.getLast?, isSpace c = false) : strip s = s := by
  have hkeep : ∀ l : List Char, (∀ c ∈ l.head?, isSpace c = false) → l.dropWhile isSpace = l := by
    intro l hl
    cases l with
    | nil => rfl
    | cons c l =>
      have := hl c rfl
      simp [this]
  rw [strip, hkeep _ hhead, hkeep, List.reverse_reverse, String.ofList_toList]
  rw [List.head?_reverse]
  exact hlast

theorem Draft.metadataRef_chars (w : World) (d : Draft) :
    ∀ c ∈ (d.metadataRef w).toList, isSpace c = false := by
  intro c hc
  refine isSpace_of_isNameChar ?_
  simp only [Draft.metadataRef, String.toList_append, List.mem_append] at hc
  rcases hc with (hc | hc) | hc
  · exact List.all_eq_true.mp (by decide) c hc
  · exact (d.stem_chars w c hc).1
  · exact List.all_eq_true.mp (by decide) c hc

theorem Draft.metadataRef_last (w : World) (d : Draft) :
    (d.metadataRef w).toList.getLast? = some 'n' := by
  simp [Draft.metadataRef]

theorem referenceGroup_metadataRef (w : World) (d : Draft) :
    referenceGroup ("detail_ref:".toList ++ (' ' :: (d.metadataRef w).toList)) =
      some (d.metadataRef w) := by
  have hspace := d.metadataRef_chars w
  have hdrop : (' ' :: (d.metadataRef w).toList).dropWhile isSpace = (d.metadataRef w).toList := by
    rw [List.dropWhile_cons_of_pos (by decide), List.dropWhile_eq_self_iff]
    intro hlen
    simp [hspace _ (List.getElem_mem hlen)]
  have hne : (d.metadataRef w).toList ≠ [] := by
    intro h
    have hlast := d.metadataRef_last w
    rw [h] at hlast
    cases hlast
  have hall : (d.metadataRef w).toList.all (fun c => !isSpace c) = true := by
    rw [List.all_eq_true]
    exact fun c hc => by simp [hspace c hc]
  simp only [referenceGroup, literal_append, Option.bind_eq_bind, Option.bind_some, hdrop]
  rw [if_pos ⟨hne, hall⟩, String.ofList_toList]

/-- The dependency of a marker, read back. -/
theorem dependencyGroup_prefix (b : BlockStructure) (rest : List Char) :
    ∃ cs, (b.eventPrefix.toList ++ (" -- structural".toList ++ rest)) =
        activeTicketBlockMarker.toList ++ cs ∧
      dependencyGroup cs = (b.dependency, " -- structural".toList ++ rest) := by
  unfold BlockStructure.eventPrefix
  cases hb : b.dependency with
  | none => exact ⟨_, rfl, by simp [dependencyGroup, literal]⟩
  | some t =>
    have hid := b.valid t hb
    unfold isTicketId at hid
    split at hid
    case h_2 => cases hid
    case h_1 digits hdigits =>
      have ht : t.toList = ['T', '-'] ++ digits := literal_eq_some_iff.mp hdigits
      simp only [Bool.and_eq_true, decide_eq_true_eq] at hid
      have hall : ∀ c ∈ digits, isDecimal c = true := List.all_eq_true.mp hid.2
      refine ⟨" -- dependency T-".toList ++ (digits ++ (" -- structural".toList ++ rest)),
        by simp [ht], ?_⟩
      have hspace : isDecimal ' ' = false := by decide
      have htake : (digits ++ (" -- structural".toList ++ rest)).takeWhile isDecimal = digits := by
        rw [List.takeWhile_append_of_pos hall]
        simp [hspace]
      have hdrop : (digits ++ (" -- structural".toList ++ rest)).dropWhile isDecimal =
          " -- structural".toList ++ rest := by
        rw [List.dropWhile_append_of_pos hall]
        simp [hspace]
      have hname : String.ofList ('T' :: '-' :: digits) = t := by
        rw [← String.ofList_toList (s := t), ht]
        rfl
      rw [dependencyGroup, literal_append]
      simp only [htake, hdrop, if_pos hid.1, hname]

theorem activeTicketBlockStructure_dependency (b : BlockStructure) :
    activeTicketBlockStructure b.dependency = some b := by
  obtain ⟨dependency, valid⟩ := b
  cases dependency with
  | none => rfl
  | some t => simp [activeTicketBlockStructure, valid t rfl]

/-- The compact message leads back to its metadata and structure. -/
theorem compactDetailReference_compactMessage (w : World) (d : Draft)
    (structure? : Option BlockStructure) :
    compactDetailReference (d.compactMessage w structure?) =
      some (d.metadataRef w, structure?) := by
  have hlast : ∀ pre : String, ∀ c ∈ (pre ++ d.metadataRef w).toList.getLast?, isSpace c = false := by
    intro pre c hc
    rw [String.toList_append, List.getLast?_append, d.metadataRef_last] at hc
    obtain rfl : 'n' = c := by simpa using hc
    decide
  cases structure? with
  | none =>
    have hstrip : strip ("detail_ref: " ++ d.metadataRef w) = "detail_ref: " ++ d.metadataRef w := by
      refine strip_eq_self (fun c hc => ?_) (hlast _)
      obtain rfl : 'd' = c := by simpa using hc
      decide
    have hlist : ("detail_ref: " ++ d.metadataRef w).toList =
        "detail_ref:".toList ++ (' ' :: (d.metadataRef w).toList) := by simp
    have hnone : structuralDetailMessage
        ("detail_ref:".toList ++ (' ' :: (d.metadataRef w).toList)) = none := by
      simp [structuralDetailMessage, activeTicketBlockMarker, literal]
    rw [Draft.compactMessage, compactDetailReference, hstrip, hlist, hnone,
      referenceGroup_metadataRef]
    rfl
  | some b =>
    obtain ⟨tail, htail⟩ : ∃ tail, tail = ": ticket-block-active -- ".toList ++
      ("detail_ref:".toList ++ (' ' :: (d.metadataRef w).toList)) := ⟨_, rfl⟩
    have hlist : (b.eventPrefix ++ " -- " ++ structuralDetailTag ++ " -- detail_ref: " ++
        d.metadataRef w).toList = b.eventPrefix.toList ++ (" -- structural".toList ++
          ("_event".toList ++ tail)) := by
      rw [htail]
      simp [structuralDetailTag]
    obtain ⟨cs, hcs, hgroup⟩ := dependencyGroup_prefix b ("_event".toList ++ tail)
    have hstrip : strip (b.eventPrefix ++ " -- " ++ structuralDetailTag ++ " -- detail_ref: " ++
        d.metadataRef w) = b.eventPrefix ++ " -- " ++ structuralDetailTag ++ " -- detail_ref: " ++
        d.metadataRef w := by
      refine strip_eq_self (fun c hc => ?_) (hlast _)
      rw [hlist, hcs] at hc
      obtain rfl : 't' = c := by simpa [activeTicketBlockMarker] using hc
      decide
    have htag : " -- structural".toList ++ ("_event".toList ++ tail) =
        (" -- " ++ structuralDetailTag ++ " -- ").toList ++
          ("detail_ref:".toList ++ (' ' :: (d.metadataRef w).toList)) := by
      rw [htail]
      simp [structuralDetailTag]
    have hmessage : structuralDetailMessage (activeTicketBlockMarker.toList ++ cs) =
        some (b.dependency, d.metadataRef w) := by
      simp only [structuralDetailMessage, literal_append, Option.bind_eq_bind, Option.bind_some,
        hgroup, htag, referenceGroup_metadataRef]
    rw [Draft.compactMessage, compactDetailReference, hstrip, hlist, hcs, hmessage]
    simp only [activeTicketBlockStructure_dependency, Option.map_some]

end Reference

/-! ### Reading the detail -/

/-- The two files of an externalised event stand on the disk, which is still the project that wrote
them. -/
structure Written (w : World) (disk disk' : Disk) (d : Draft) (structure? : Option BlockStructure) :
    Prop where
  detail : probe (components (d.detailRef w)) disk' = .found (.file (.text d.full))
  metadata : probe (components (d.metadataRef w)) disk' =
    .found (.file (.json (.obj (d.metadata w disk structure?))))
  lineage : projectLineageIdentity w.env disk' = projectLineageIdentity w.env disk

section Read

variable {w : World} {disk disk' : Disk} {d : Draft} {structure? : Option BlockStructure}
  {parsed : LogEvent}

theorem structureFromRecord_record (b : BlockStructure) : structureFromRecord b.record = some b := by
  have hdep := activeTicketBlockStructure_dependency b
  cases hb : b.dependency with
  | none =>
    rw [hb] at hdep
    rw [BlockStructure.record, hb, ← hdep]
    rfl
  | some t =>
    rw [hb] at hdep
    rw [BlockStructure.record, hb, ← hdep]
    rfl

theorem numeral_nullable (value : Option String) : numeral (nullable value) = nullable value := by
  cases value <;> rfl

theorem historyBoundHere_binding (lineage : Option String) (identity : String) :
    historyBoundHere (.str identity) (nullable lineage) ⟨lineage, identity⟩ = true := by
  cases lineage <;> simp [historyBoundHere, nullable]

/-- The metadata proves the event it was written for. -/
theorem metadataHolds_metadata (hevent : parsed.event = nextEventId d.tail)
    (hticket : parsed.ticket = d.ticket) (hop : parsed.opId = d.opId)
    (hlineage : projectLineageIdentity w.env disk' = projectLineageIdentity w.env disk) :
    metadataHolds (w.binding disk') (d.metadataRef w) parsed structure?
      (d.metadata w disk structure?) = true := by
  have hbound := historyBoundHere_binding (projectLineageIdentity w.env disk) w.env.runtimeIdentity
  have hexpected : ((expectedMetadata (d.metadataRef w) parsed).all fun e =>
      holdsAt (d.metadata w disk structure?) e.1 e.2) = true := by
    rw [expectedMetadata, hevent, hticket]
    simp [holdsAt, Draft.metadata, Assoc.lookup_cons, numeral]
  have hbinding : w.binding disk' = ⟨projectLineageIdentity w.env disk, w.env.runtimeIdentity⟩ := by
    rw [World.binding, hlineage]
  unfold metadataHolds
  rw [hexpected, hbinding, hop]
  simp only [Bool.true_and, Bool.and_eq_true]
  refine ⟨⟨⟨⟨rfl, rfl⟩, hbound⟩, decide_eq_true rfl⟩, ?_⟩
  cases structure? with
  | none => rfl
  | some b =>
    have hlookup : (d.metadata w disk (some b)).lookup "structural_event" = some b.record := rfl
    simp [hlookup, structureFromRecord_record]

theorem Draft.file_chars (w : World) (d : Draft) {suffix : String}
    (hsuffix : ∀ c ∈ suffix.toList, isNameChar c = true ∧ c ≠ '/') :
    ∀ c ∈ (d.stem w ++ suffix).toList, isNameChar c = true ∧ c ≠ '/' := by
  intro c hc
  rw [String.toList_append, List.mem_append] at hc
  exact hc.elim (d.stem_chars w c) (hsuffix c)

theorem Draft.file_ne_dots (w : World) (d : Draft) (suffix : String) :
    d.stem w ++ suffix ≠ ".." := by
  intro heq
  have hhead := congrArg (fun u : String => u.toList.head?) heq
  simp [Draft.stem] at hhead

theorem ownedDetail_metadataRef (hw : Written w disk disk' d structure?) :
    ownedDetail disk' (d.metadataRef w) = some (.json (.obj (d.metadata w disk structure?))) := by
  have hprobe := hw.metadata
  rw [Draft.metadataRef, String.append_assoc] at hprobe ⊢
  exact ownedDetail_of_probe (d.file_chars w (fileChars_of_all (by decide))) (d.file_ne_dots w _) hprobe

theorem ownedDetail_detailRef (hw : Written w disk disk' d structure?) :
    ownedDetail disk' (d.detailRef w) = some (.text d.full) := by
  have hprobe := hw.detail
  rw [Draft.detailRef, String.append_assoc] at hprobe ⊢
  exact ownedDetail_of_probe (d.file_chars w (fileChars_of_all (by decide))) (d.file_ne_dots w _) hprobe

theorem originalBytes_written (hw : Written w disk disk' d structure?) :
    originalBytes w disk' (d.metadata w disk structure?) = some (encodeUtf8 d.full) := by
  have hpath : (d.metadata w disk structure?).lookup "original_event_path" =
      some (.str (d.detailRef w)) := rfl
  have hbytes : (d.metadata w disk structure?).lookup "original_event_bytes" =
      some (.int (encodeUtf8 d.full).length) := rfl
  have hsha : (d.metadata w disk structure?).lookup "original_event_sha256" =
      some (.str (w.sha256 (encodeUtf8 d.full))) := rfl
  simp only [originalBytes, hpath, ownedDetail_detailRef hw, Option.bind_eq_bind, Option.bind_some,
    World.bytes]
  exact if_pos ⟨by simp [holdsAt, hbytes], by simp [holdsAt, hsha]⟩

/-- The reader reaches the full line, and compares it with the event. -/
theorem readDetailText_written (hw : Written w disk disk' d structure?)
    (hevent : parsed.event = nextEventId d.tail) (hticket : parsed.ticket = d.ticket)
    (hop : parsed.opId = d.opId) :
    readDetailText w disk' (w.binding disk') (d.metadataRef w) parsed structure? =
      match splitLines (normalisedDocText (encodeUtf8 d.full)) with
      | [line] => (parseLogLine line).bind fun full =>
          if sameEvent full parsed structure? then some full.text else none
      | _ => none := by
  have hholds : metadataHolds (w.binding disk') (d.metadataRef w) parsed structure?
      (d.metadata w disk structure?) = true := metadataHolds_metadata hevent hticket hop hw.lineage
  have hloads : (Content.json (.obj (d.metadata w disk structure?))).loads =
      some (.obj (d.metadata w disk structure?)) := rfl
  generalize hlines : splitLines (normalisedDocText (encodeUtf8 d.full)) = lines
  unfold readDetailText
  rw [ownedDetail_metadataRef hw]
  rcases lines with _ | ⟨line, _ | ⟨second, rest⟩⟩ <;>
    simp only [Option.bind_eq_bind, Option.bind_some, hloads, hholds, if_true,
      originalBytes_written hw, hlines]

/-! ### The round trip -/

/-- What the restored text depends on beyond the fields of the draft. -/
structure Draft.Restorable (d : Draft) (structure? : Option BlockStructure) : Prop where
  fields : d.PlainFields
  message : OneLine d.message.toList
  utf8 : bomlessUtf16 (encodeUtf8 d.full) = none
  marked : ∀ b, structure? = some b → startsWith d.message (b.eventPrefix ++ " -- ") = true

theorem Draft.line_dash (d : Draft) : ∃ cs, d.line.toList = '-' :: ' ' :: cs :=
  ⟨_, by rw [d.toList_line]; rfl⟩

theorem Draft.full_dash (d : Draft) : ∃ cs, d.full.toList = '-' :: ' ' :: cs := by
  obtain ⟨cs, hcs⟩ := d.line_dash
  exact ⟨cs ++ ['\n'], by simp [Draft.full, hcs]⟩

/-- A physical line of a text ends no line itself. -/
theorem oneLine_of_splitLines {s line : String} (h : splitLines s = [line]) :
    OneLine line.toList := by
  have hmem : line ∈ splitLines s := by simp [h]
  obtain ⟨l, hl, rfl⟩ := List.mem_map.mp hmem
  rw [String.toList_ofList]
  exact oneLine_of_mem_linesFrom (by simp [OneLine]) hl

/-- An event that comes back with a valid detail had its message restored. -/
theorem readEvent_valid {e e' : LogEvent} {binding : Binding} (hnone : e.detailRef = none)
    (h : readEvent w disk' binding e = e') (href : e'.detailRef.isSome = true)
    (hvalid : e'.detailIntegrity = some .valid) :
    ∃ reference, restoredDetailText w disk' binding e = (some reference, some e'.text) ∧
      e'.date = e.date ∧ e'.event = e.event ∧ e'.parent = e.parent ∧ e'.ticket = e.ticket ∧
      e'.agent = e.agent ∧ e'.opId = e.opId ∧ e'.taxonomy = e.taxonomy := by
  subst h
  unfold readEvent at href hvalid ⊢
  rcases hr : restoredDetailText w disk' binding e with ⟨_ | reference, _ | text⟩
  · simp [hr, hnone] at href
  · simp [hr, hnone] at href
  · simp [hr] at hvalid
  · exact ⟨reference, by simp, rfl, rfl, rfl, rfl, rfl, rfl, rfl⟩

/-- The restored text is that of the one line of the detail file. -/
theorem restored_line {text : String} (hw : Written w disk disk' d structure?)
    (hevent : parsed.event = nextEventId d.tail) (hticket : parsed.ticket = d.ticket)
    (hop : parsed.opId = d.opId)
    (h : readDetailText w disk' (w.binding disk') (d.metadataRef w) parsed structure? = some text) :
    ∃ line full, splitLines (normalisedDocText (encodeUtf8 d.full)) = [line] ∧
      parseLogLine line = some full ∧ sameEvent full parsed structure? = true ∧ full.text = text := by
  rw [readDetailText_written hw hevent hticket hop] at h
  split at h
  case h_2 => cases h
  case h_1 line hlines =>
    obtain ⟨full, hfull, h⟩ := Option.bind_eq_some_iff.mp h
    split at h
    · rename_i hsame
      exact ⟨line, full, hlines, hfull, hsame, Option.some.inj h⟩
    · cases h

/-- What `prepare_event` answered for an event over the cap, and its files on the disk. -/
structure Externalised (w : World) (disk disk' : Disk) (d : Draft)
    (structure? : Option BlockStructure) (result : LogEventResult) : Prop where
  prepared : prepareEvent w disk d structure? = .ok result
  externalises : d.externalised structure? = true
  files : ∀ target ∈ result.targets, probe (components target.1) disk' = .found (.file target.2)
  lineage : projectLineageIdentity w.env disk' = projectLineageIdentity w.env disk

theorem Externalised.line_eq {result : LogEventResult}
    (h : Externalised w disk disk' d structure? result) :
    (d.compact w structure?).taxonomy ∈ validTaxonomies ∧
      result.line = (d.compact w structure?).line ∧ result.detailRef = d.metadataRef w := by
  obtain ⟨htax, -, -, hcompact⟩ := prepareEvent_ok h.prepared
  exact ⟨htax, (hcompact h.externalises).1, (hcompact h.externalises).2.1⟩

theorem Externalised.written {result : LogEventResult}
    (h : Externalised w disk disk' d structure? result) : Written w disk disk' d structure? := by
  obtain ⟨-, -, -, hcompact⟩ := prepareEvent_ok h.prepared
  have htargets := (hcompact h.externalises).2.2
  exact ⟨h.files (d.detailRef w, _) (by simp [htargets]),
    h.files (d.metadataRef w, _) (by simp [htargets]), h.lineage⟩

/-- An event that comes back as it was drafted is restorable. -/
theorem restorable_of_restored {result : LogEventResult}
    (h : Externalised w disk disk' d structure? result)
    (hread : (parseLogLine result.line).map (readEvent w disk' (w.binding disk')) = some
      { d.toEvent with detailRef := some result.detailRef, detailIntegrity := some .valid }) :
    d.Restorable structure? := by
  obtain ⟨htax, hline, href⟩ := h.line_eq
  have hw := h.written
  have hreference := compactDetailReference_compactMessage w d structure?
  rw [hline, href] at hread
  obtain ⟨e, he, hread⟩ := Option.map_eq_some_iff.mp hread
  obtain ⟨reference, hrestored, hdate, hevent, hparent, hticket, hagent, hop, htaxonomy⟩ :=
    readEvent_valid (legal_of_parseLogLine he).noDetail hread rfl rfl
  -- the fields came back, so the compact line is closed and its text is the compact message
  have hmessage : '\n' ∉ (d.compactMessage w structure?).toList := fun hmem =>
    absurd (d.oneLine_compactMessage w structure? _ hmem) (by decide)
  have hclosed : (d.compact w structure?).Closed :=
    Draft.closed_of_fields htax he hparent.symm hticket.symm hagent.symm hop.symm hmessage
  obtain rfl : (d.compact w structure?).toEvent = e :=
    Option.some.inj ((parseLogLine_line htax hclosed).symm.trans he)
  have htext : (d.compact w structure?).toEvent.text = d.compactMessage w structure? := rfl
  simp only [restoredDetailText, htext, hreference, Prod.mk.injEq] at hrestored
  -- the restored text is the message, and stands on the one line of the detail file
  obtain ⟨line, full, hlines, hparse, hsame, hfull⟩ := restored_line hw rfl rfl rfl hrestored.2
  have honeLine := oneLine_of_parseLogLine hparse (oneLine_of_splitLines hlines)
  simp only [sameEvent, Bool.and_eq_true, decide_eq_true_eq] at hsame
  obtain ⟨⟨⟨⟨⟨⟨⟨-, -⟩, -⟩, hticket'⟩, hagent'⟩, hop'⟩, -⟩, hmarked⟩ := hsame
  replace hfull : full.text = d.message := hfull
  have hmessage' : OneLine d.message.toList := by rw [← hfull]; exact honeLine.2.2.2
  have hclean : d.Clean :=
    ⟨⟨hclosed.tail, hclosed.ticket, hclosed.agent, hclosed.opId,
      fun hmem => absurd (hmessage' _ hmem) (by decide)⟩,
      fun t ht => honeLine.1 t (hticket'.trans ht), fun a ha => honeLine.2.1 a (hagent'.trans ha),
      fun o ho => honeLine.2.2.1 o (hop'.trans ho), hmessage'⟩
  refine ⟨(Draft.clean_iff.mp hclean).1, hmessage', ?_, fun b hb => ?_⟩
  · cases hutf8 : bomlessUtf16 (encodeUtf8 d.full) with
    | none => rfl
    | some unit =>
      obtain ⟨cs, hcs⟩ := d.full_dash
      rw [parse_first_line_utf16 hcs hutf8 hlines] at hparse
      cases hparse
  · rw [hb, Option.all_some] at hmarked
    rw [← hfull]
    exact hmarked

/-- A restorable event comes back as it was drafted. -/
theorem restored_of_restorable {result : LogEventResult}
    (h : Externalised w disk disk' d structure? result) (hrestorable : d.Restorable structure?) :
    (parseLogLine result.line).map (readEvent w disk' (w.binding disk')) = some
      { d.toEvent with detailRef := some result.detailRef, detailIntegrity := some .valid } := by
  obtain ⟨htax, hline, href⟩ := h.line_eq
  have hw := h.written
  have hreference := compactDetailReference_compactMessage w d structure?
  rw [hline, href]
  have hclean : d.Clean := Draft.clean_iff.mpr ⟨hrestorable.fields, hrestorable.message⟩
  have hclean' : (d.compact w structure?).Clean := Draft.clean_iff.mpr
    ⟨⟨hrestorable.fields.tail, hrestorable.fields.ticket, hrestorable.fields.agent,
      hrestorable.fields.opId⟩, d.oneLine_compactMessage w structure?⟩
  obtain ⟨cs, hcs⟩ := d.line_dash
  have hlines : splitLines (normalisedDocText (encodeUtf8 d.full)) = [d.line] :=
    splitLines_full hcs ((d.oneLine_line_iff htax hclean.closed).mpr hclean) hrestorable.utf8
  have hsame : sameEvent d.toEvent (d.compact w structure?).toEvent structure? = true := by
    have hmarked : (structure?.all fun b => startsWith d.message (b.eventPrefix ++ " -- ")) =
        true := by
      cases hb : structure? with
      | none => rfl
      | some b => exact hrestorable.marked b hb
    simp only [sameEvent, Draft.toEvent, Draft.compact, decide_true, Bool.true_and]
    exact hmarked
  have hdetail : readDetailText w disk' (w.binding disk') (d.metadataRef w)
      (d.compact w structure?).toEvent structure? = some d.message := by
    rw [readDetailText_written hw rfl rfl rfl, hlines]
    have htaxonomy : d.taxonomy ∈ validTaxonomies := htax
    simp only [parseLogLine_line htaxonomy hclean.closed, Option.bind_some, hsame, if_true]
    rfl
  have htext : (d.compact w structure?).toEvent.text = d.compactMessage w structure? := rfl
  rw [parseLogLine_line htax hclean'.closed, Option.map_some, readEvent, restoredDetailText, htext,
    hreference]
  simp only [hdetail]
  rfl

end Read

/-! ### A long note -/

/-- A note with a message of its own. -/
def longNote (message : List Char) : Draft :=
  { sampleNote with message := String.ofList message }

/-- The disk that holds nothing but the two files of an externalised event. -/
noncomputable def Draft.noteDisk (d : Draft) : Disk :=
  [(".saipen", .dir [("recovery", .dir [("log-detail", .dir
    [(d.stem sampleWorld ++ ".LOG.md", .file (.text d.full)),
      (d.stem sampleWorld ++ ".json", .file (.json (.obj (d.metadata sampleWorld [] none))))])])])]

theorem Draft.probe_noteDisk {d : Draft} {result : LogEventResult}
    (h : prepareEvent sampleWorld [] d none = .ok result) (hext : d.externalised none = true)
    (hstem : d.stem sampleWorld = "E-12-0123456789abcdef01234567") :
    ∀ target ∈ result.targets, probe (components target.1) d.noteDisk = .found (.file target.2) := by
  obtain ⟨-, htargets⟩ := ((prepareEvent_ok h).2.2.2 hext).2
  simp only [htargets, Draft.detailRef, Draft.metadataRef, Draft.noteDisk, hstem, List.mem_cons,
    List.not_mem_nil, or_false]
  rintro target (rfl | rfl)
  · have hpath : components (detailRoot ++ "E-12-0123456789abcdef01234567" ++ ".LOG.md") =
        [".saipen", "recovery", "log-detail", "E-12-0123456789abcdef01234567.LOG.md"] := by
      decide +kernel
    rw [hpath]
    rfl
  · have hpath : components (detailRoot ++ "E-12-0123456789abcdef01234567" ++ ".json") =
        [".saipen", "recovery", "log-detail", "E-12-0123456789abcdef01234567.json"] := by
      decide +kernel
    rw [hpath]
    rfl

theorem prepareEvent_isSome {w : World} {disk : Disk} {d : Draft}
    {structure? : Option BlockStructure}
    (h : (prepareEvent w disk d structure?).toOption.isSome = true) :
    ∃ result, prepareEvent w disk d structure? = .ok result := by
  cases hp : prepareEvent w disk d structure? with
  | error e => simp [hp, Except.toOption] at h
  | ok result => exact ⟨result, rfl⟩

/-- A message of two lines, too long for a LOG line. -/
def longLines : List Char := List.replicate 1100 'a' ++ '\n' :: ['b']

end Saipen.Log
