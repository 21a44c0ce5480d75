import Saipen.Text.Codec

/-! # Writing a document back

A document is written in the representation in which it was read: its encoding, its newlines, and with or
without a newline at its end. A text that brings nothing of its own to the representation is read back. -/

namespace Text

/-- The text that stands for a checkpoint which is not canonical UTF-8. -/
def corruptText : String := "---\nphase: CORRUPT\ncorrupt_detail: non-canonical encoding\n---\n"

/-- `read_document(path, raw).text_norm` of a checkpoint file. -/
def checkpointText (raw : Bytes) : String := if isCanonicalEncoding raw then normalisedDocText raw else corruptText

/-- `Document.newline`. -/
def newlineOf (cs : List Char) : List Char :=
  if cs.tails.any (['\r', '\n'].isPrefixOf ·) then ['\r', '\n'] else if '\r' ∈ cs then ['\r'] else ['\n']

/-- `Document.final_newline`. -/
def endsLine (cs : List Char) : Bool := cs.getLast?.any fun c => c = '\n' || c = '\r'

/-- `body.replace("\n", newline)`. -/
def spellNewlines (newline cs : List Char) : List Char := cs.flatMap fun c => if c = '\n' then newline else [c]

/-- `while body.endswith(newline): body = body[: -len(newline)]`, on the reversed text. -/
def dropNewlines (newline : List Char) : List Char → List Char
  | [] => []
  | c :: cs =>
      if newline.isPrefixOf (c :: cs) then dropNewlines newline (cs.drop (newline.length - 1)) else c :: cs
termination_by cs => cs.length
decreasing_by
  rw [List.length_drop, List.length_cons]
  omega

/-- The code units of a character in UTF-16. -/
def utf16Units (c : Char) : List Nat :=
  if c.toNat < 0x10000 then [c.toNat]
  else [0xd800 + (c.toNat - 0x10000) / 0x400, 0xdc00 + (c.toNat - 0x10000) % 0x400]

/-- `encode("utf-16-le" | "utf-16-be")`. -/
def encodeUtf16 (little : Bool) (cs : List Char) : Bytes :=
  (cs.flatMap utf16Units).flatMap fun u =>
    if little then [UInt8.ofNat (u % 256), UInt8.ofNat (u / 256)] else [UInt8.ofNat (u / 256), UInt8.ofNat (u % 256)]

/-- What `Document.encode` puts together before it is encoded. -/
def spelledBody (old text : List Char) : List Char :=
  let newline := newlineOf old
  let body := spellNewlines newline text
  if endsLine old then if newline.isSuffixOf body then body else body ++ newline
  else (dropNewlines newline.reverse body.reverse).reverse

/-- `read_document(path, raw).encode(text)` of a checkpoint file. -/
def encodeCheckpoint (raw : Bytes) (text : String) : Bytes :=
  if isCanonicalEncoding raw then
    let body := spelledBody (decodeDoc raw).toList text.toList
    match bomlessUtf16 raw with
    | some unit => encodeUtf16 (unit 1 0 == 1) body
    | none => encodeUtf8 (String.ofList body)
  else encodeUtf8 (String.ofList (spelledBody corruptText.toList text.toList))

/-! ### UTF-8 that is taken for nothing else -/

variable {c : Char} {cs old : List Char} {raw : Bytes} {text : String}

theorem toNat_val_lt (c : Char) : c.val.toNat < 0x110000 := by
  rcases c.valid with h | ⟨-, h⟩
  · have : c.val.toNat < 0xd800 := h
    omega
  · exact h

/-- The bytes of UTF-8 are below those of the marks, and a zero is a character of its own. -/
theorem mem_utf8EncodeChar {b : UInt8} (h : b ∈ String.utf8EncodeChar c) :
    b.toNat < 0xf8 ∧ (b.toNat = 0 → c.toNat = 0) := by
  have hval : c.toNat = c.val.toNat := rfl
  have hlt := toNat_val_lt c
  unfold String.utf8EncodeChar at h
  dsimp only at h
  split_ifs at h with h1 h2 h3 <;> simp only [List.mem_cons, List.not_mem_nil, or_false] at h
  · obtain rfl := h
    rw [UInt8.toNat_ofNat']
    omega
  · rcases h with rfl | rfl <;> rw [UInt8.toNat_ofNat'] <;> omega
  · rcases h with rfl | rfl | rfl <;> rw [UInt8.toNat_ofNat'] <;> omega
  · rcases h with rfl | rfl | rfl | rfl <;> rw [UInt8.toNat_ofNat'] <;> omega

theorem mem_encodeUtf8 {b : UInt8} (h : b ∈ encodeUtf8 text) :
    b.toNat < 0xf8 ∧ (b.toNat = 0 → Char.ofNat 0 ∈ text.toList) := by
  rw [← String.ofList_toList (s := text), encodeUtf8_ofList] at h
  obtain ⟨c, hc, hb⟩ := List.mem_flatMap.mp h
  obtain ⟨hlt, hzero⟩ := mem_utf8EncodeChar hb
  refine ⟨hlt, fun hb => ?_⟩
  have heq : c = Char.ofNat 0 := Char.toNat_inj.mp (hzero hb)
  rwa [← heq]

/-- The first three bytes are the mark of UTF-8 where the first character is. -/
theorem head_of_mark (h : (encodeUtf8 text).take 3 = [0xef, 0xbb, 0xbf]) :
    text.toList.head? = some (Char.ofNat 0xfeff) := by
  rw [← String.ofList_toList (s := text), encodeUtf8_ofList] at h
  cases hcs : text.toList with
  | nil => rw [hcs] at h; cases h
  | cons c cs =>
    rw [hcs, List.flatMap_cons] at h
    have hval : c.toNat = c.val.toNat := rfl
    have hmark : c.toNat = 0xfeff := by
      unfold String.utf8EncodeChar at h
      dsimp only at h
      have hlt : c.val.toNat < 0x110000 := toNat_val_lt c
      -- The first byte says how many there are, so it is a character of three bytes.
      split_ifs at h with h1 h2 h3
      · have hfirst := congrArg UInt8.toNat (List.cons.inj h).1
        rw [UInt8.toNat_ofNat'] at hfirst
        have : c.val.toNat % 256 = 0xef := hfirst
        omega
      · have hfirst := congrArg UInt8.toNat (List.cons.inj h).1
        rw [UInt8.toNat_ofNat'] at hfirst
        have : (c.val.toNat / 64 % 0x20 + 0xc0) % 256 = 0xef := hfirst
        omega
      · obtain ⟨hfirst, h⟩ := List.cons.inj h
        obtain ⟨hsecond, h⟩ := List.cons.inj h
        have hthird := congrArg UInt8.toNat (List.cons.inj h).1
        replace hfirst := congrArg UInt8.toNat hfirst
        replace hsecond := congrArg UInt8.toNat hsecond
        rw [UInt8.toNat_ofNat'] at hfirst hsecond hthird
        have h1 : (c.val.toNat / 4096 % 0x10 + 0xe0) % 256 = 0xef := hfirst
        have h2 : (c.val.toNat / 64 % 0x40 + 0x80) % 256 = 0xbb := hsecond
        have h3 : (c.val.toNat % 0x40 + 0x80) % 256 = 0xbf := hthird
        omega
      · have hfirst := congrArg UInt8.toNat (List.cons.inj h).1
        rw [UInt8.toNat_ofNat'] at hfirst
        have : (c.val.toNat / 262144 % 0x08 + 0xf0) % 256 = 0xef := hfirst
        omega
    rw [List.head?_cons, ← Char.ofNat_toNat c, hmark]

theorem bomlessUtf16_encodeUtf8 (hzero : Char.ofNat 0 ∉ text.toList) : bomlessUtf16 (encodeUtf8 text) = none := by
  have hbyte : (0 : UInt8) ∉ encodeUtf8 text := fun h => hzero ((mem_encodeUtf8 h).2 rfl)
  rw [bomlessUtf16, if_pos (.inr hbyte)]

/-- Without a zero and a mark at its head a text is read from its bytes. -/
theorem decodeDoc_encodeUtf8 (hzero : Char.ofNat 0 ∉ text.toList)
    (hmark : text.toList.head? ≠ some (Char.ofNat 0xfeff)) : decodeDoc (encodeUtf8 text) = text := by
  have hbytes : ∀ b ∈ encodeUtf8 text, b.toNat < 0xf8 ∧ b.toNat ≠ 0 := fun b hb =>
    ⟨(mem_encodeUtf8 hb).1, fun h => hzero ((mem_encodeUtf8 hb).2 h)⟩
  have hbom : boms.find? (fun bom => bom.1.isPrefixOf (encodeUtf8 text)) = none := by
    rw [List.find?_eq_none]
    intro bom hmem hprefix
    obtain ⟨rest, hrest⟩ := List.isPrefixOf_iff_prefix.mp hprefix
    have hin : ∀ b ∈ bom.1, b.toNat < 0xf8 ∧ b.toNat ≠ 0 := fun b hb =>
      hbytes b (hrest ▸ List.mem_append_left rest hb)
    simp only [boms, List.mem_cons, List.not_mem_nil, or_false] at hmem
    rcases hmem with rfl | rfl | rfl | rfl | rfl
    · exact hmark (head_of_mark (by rw [← hrest]; rfl))
    · exact absurd (hin 0xff (by simp)).1 (by decide)
    · exact absurd (hin 0xff (by simp)).1 (by decide)
    · exact absurd (hin 0xff (by simp)).1 (by decide)
    · exact absurd (hin 0xff (by simp)).1 (by decide)
  have hutf16 := bomlessUtf16_encodeUtf8 hzero
  rw [decodeDoc, hbom]
  simp only [hutf16, decodeUtf8?_encodeUtf8]

theorem isCanonicalEncoding_encodeUtf8 (hmark : text.toList.head? ≠ some (Char.ofNat 0xfeff)) :
    isCanonicalEncoding (encodeUtf8 text) = true := by
  rw [isCanonicalEncoding, Bool.and_eq_true, decodeUtf8?_encodeUtf8]
  exact ⟨decide_eq_true fun h => hmark (head_of_mark h), rfl⟩

/-! ### Newlines -/

theorem newlineOf_cases (cs : List Char) :
    newlineOf cs = ['\r', '\n'] ∨ newlineOf cs = ['\r'] ∨ newlineOf cs = ['\n'] := by
  unfold newlineOf
  split_ifs <;> simp

/-- A carriage return with no newline behind it. -/
theorem normaliseNewlines_return (h : ∀ d ∈ cs.head?, d ≠ '\n') :
    normaliseNewlines ('\r' :: cs) = '\n' :: normaliseNewlines cs := by
  cases cs with
  | nil => rfl
  | cons d cs =>
    have hd : d ≠ '\n' := h d rfl
    rw [normaliseNewlines]
    rintro _ heq
    exact absurd (List.cons.inj heq).1 hd

theorem spellNewlines_cons (newline : List Char) (c : Char) (cs : List Char) :
    spellNewlines newline (c :: cs) = (if c = '\n' then newline else [c]) ++ spellNewlines newline cs := rfl

/-- Newlines that are spelled in another way are read as newlines again. -/
theorem normaliseNewlines_spellNewlines (old : List Char) (h : '\r' ∉ cs) :
    normaliseNewlines (spellNewlines (newlineOf old) cs) = cs := by
  induction cs with
  | nil => rfl
  | cons c cs ih =>
    rw [List.mem_cons, not_or] at h
    rw [spellNewlines_cons]
    by_cases hc : c = '\n'
    · subst hc
      rw [if_pos rfl]
      rcases newlineOf_cases old with hnew | hnew | hnew <;> rw [hnew] at ih ⊢
      · show '\n' :: normaliseNewlines (spellNewlines ['\r', '\n'] cs) = _
        rw [ih h.2]
      · -- No newline is left behind the carriage return to go with it.
        have hnone : ∀ d ∈ spellNewlines ['\r'] cs, d ≠ '\n' := by
          intro d hd
          obtain ⟨e, -, he⟩ := List.mem_flatMap.mp hd
          split_ifs at he with hbreak
          · rw [List.mem_singleton.mp he]
            decide
          · rwa [List.mem_singleton.mp he]
        rw [List.singleton_append, normaliseNewlines_return fun d hd => hnone d (List.mem_of_mem_head? hd), ih h.2]
      · rw [List.singleton_append, normaliseNewlines_cons (by decide), ih h.2]
    · rw [if_neg hc, List.singleton_append, normaliseNewlines_cons (Ne.symm h.1), ih h.2]

theorem spellNewlines_concat (newline : List Char) (c : Char) (cs : List Char) :
    spellNewlines newline (cs ++ [c]) = spellNewlines newline cs ++ (if c = '\n' then newline else [c]) := by
  rw [spellNewlines, List.flatMap_append]
  simp [spellNewlines]

/-- The end of a text is left as it is when it is the end of the document. -/
theorem spelledBody_eq (hreturn : '\r' ∉ cs) (hend : endsLine old = endsLine cs) :
    spelledBody old cs = spellNewlines (newlineOf old) cs := by
  rw [spelledBody]
  rcases List.eq_nil_or_concat cs with rfl | ⟨init, last, rfl⟩
  · have hempty : spellNewlines (newlineOf old) [] = [] := rfl
    rw [hend, hempty, List.reverse_nil, dropNewlines]
    rfl
  · rw [List.concat_eq_append] at hreturn hend ⊢
    have hlast : last ≠ '\r' := fun h => hreturn (by simp [h])
    have hends : endsLine (init ++ [last]) = decide (last = '\n') := by simp [endsLine, hlast]
    rw [spellNewlines_concat, hend, hends]
    by_cases hc : last = '\n'
    · rw [if_pos (decide_eq_true hc), if_pos hc, if_pos (List.isSuffixOf_iff_suffix.mpr (List.suffix_append _ _))]
    · have hstop : (newlineOf old).reverse.isPrefixOf (last :: (spellNewlines (newlineOf old) init).reverse) = false := by
        rcases newlineOf_cases old with h | h | h <;> rw [h] <;> simp [List.isPrefixOf, Ne.symm hc, Ne.symm hlast]
      rw [if_neg (by simpa using hc), if_neg hc, List.reverse_append, List.reverse_singleton, List.singleton_append,
        dropNewlines, if_neg (by rw [hstop]; exact Bool.false_ne_true), List.reverse_cons, List.reverse_reverse]

/-! ### Round trip -/

/-- A text of plain characters is the text of its bytes. -/
theorem checkpointText_encodeUtf8 (hzero : Char.ofNat 0 ∉ text.toList) (hreturn : '\r' ∉ text.toList)
    (hmark : text.toList.head? ≠ some (Char.ofNat 0xfeff)) : checkpointText (encodeUtf8 text) = text := by
  rw [checkpointText, if_pos (isCanonicalEncoding_encodeUtf8 hmark), normalisedDocText,
    decodeDoc_encodeUtf8 hzero hmark, normaliseNewlines_eq_self hreturn, String.ofList_toList]

/-- A text that goes into a document as it is: no character of it is taken for something else. -/
structure Writable (raw : Bytes) (text : String) : Prop where
  canonical : isCanonicalEncoding raw = true
  narrow : bomlessUtf16 raw = none
  noZero : Char.ofNat 0 ∉ text.toList
  noReturn : '\r' ∉ text.toList
  noMark : text.toList.head? ≠ some (Char.ofNat 0xfeff)
  ending : endsLine (decodeDoc raw).toList = endsLine text.toList

/-- What is written back is read as it was written. -/
theorem checkpointText_encodeCheckpoint (h : Writable raw text) : checkpointText (encodeCheckpoint raw text) = text := by
  have hbody := spelledBody_eq h.noReturn h.ending
  have hmem : ∀ d ∈ spellNewlines (newlineOf (decodeDoc raw).toList) text.toList, d ∈ text.toList ∨ d = '\r' ∨ d = '\n' := by
    intro d hd
    obtain ⟨e, he, hd⟩ := List.mem_flatMap.mp hd
    split_ifs at hd with hbreak
    · right
      rcases newlineOf_cases (decodeDoc raw).toList with hnew | hnew | hnew <;> rw [hnew] at hd
      · simpa using hd
      · exact .inl (List.mem_singleton.mp hd)
      · exact .inr (List.mem_singleton.mp hd)
    · exact .inl (List.mem_singleton.mp hd ▸ he)
  have hzero : Char.ofNat 0 ∉ (String.ofList (spellNewlines (newlineOf (decodeDoc raw).toList) text.toList)).toList := by
    rw [String.toList_ofList]
    intro hin
    rcases hmem _ hin with h' | h' | h'
    · exact h.noZero h'
    · exact absurd h' (by decide)
    · exact absurd h' (by decide)
  have hmark : (String.ofList (spellNewlines (newlineOf (decodeDoc raw).toList) text.toList)).toList.head? ≠
      some (Char.ofNat 0xfeff) := by
    rw [String.toList_ofList]
    cases hcs : text.toList with
    | nil => exact fun h' => by cases h'
    | cons c cs =>
      have hc := h.noMark
      rw [hcs, List.head?_cons] at hc
      rw [spellNewlines_cons]
      split_ifs with hbreak
      · rcases newlineOf_cases (decodeDoc raw).toList with hnew | hnew | hnew <;> rw [hnew] <;>
          simp only [List.cons_append, List.head?_cons] <;> decide
      · exact hc
  rw [encodeCheckpoint, if_pos h.canonical]
  simp only [h.narrow, hbody]
  rw [checkpointText, if_pos (isCanonicalEncoding_encodeUtf8 hmark), normalisedDocText,
    decodeDoc_encodeUtf8 hzero hmark, String.toList_ofList, normaliseNewlines_spellNewlines _ h.noReturn,
    String.ofList_toList]

end Text
