import Saipen.Text.Document

/-! # Documents and their representation

A document is read with the facts of its representation: the encoding, the byte-order mark, the newline and
whether there is one at its end. What is written back has them again, and the text as it was read gives the bytes
that it was read from. -/

namespace Text

/-! ### Reading -/

/-- A clean codec name. -/
inductive Encoding where
  | utf8 | utf32le | utf32be | utf16le | utf16be | cp1251
deriving DecidableEq

/-- The codec tables: `decode(errors="strict")`, `decode(errors="replace")` and `encode`. What is decoded strictly
is encoded as it was, and the other way round. -/
structure Codecs where
  decode? : Encoding → Bytes → Option (List Char)
  replace : Encoding → Bytes → List Char
  encode? : Encoding → List Char → Option Bytes
  replace_of_decode {e : Encoding} {b : Bytes} {t : List Char} : decode? e b = some t → replace e b = t
  encode_of_decode {e : Encoding} {b : Bytes} {t : List Char} : decode? e b = some t → encode? e t = some b
  decode_of_encode {e : Encoding} {b : Bytes} {t : List Char} : encode? e t = some b → decode? e b = some t

/-- `_BOMS`. -/
def bomEncodings : List (Bytes × Encoding) :=
  [([0xef, 0xbb, 0xbf], .utf8), ([0xff, 0xfe, 0, 0], .utf32le), ([0, 0, 0xfe, 0xff], .utf32be),
    ([0xff, 0xfe], .utf16le), ([0xfe, 0xff], .utf16be)]

/-- `_bomless_utf16`, the name of the codec. -/
def bomlessEncoding (raw : Bytes) : Option Encoding :=
  (bomlessUtf16 raw).map fun unit => if unit 1 0 = 1 then .utf16le else .utf16be

/-- `Document`, less the hash of the bytes. -/
structure Document where
  text : List Char
  encoding : Encoding
  bom : Bytes
  newline : List Char
  finalNewline : Bool

variable (c : Codecs)

/-- `_decode`: the text, the codec and the mark. -/
def decodeDocument (raw : Bytes) : List Char × Encoding × Bytes :=
  match bomEncodings.find? fun bom => bom.1.isPrefixOf raw with
  | some (bom, e) => (c.replace e (raw.drop bom.length), e, bom)
  | none =>
    match bomlessEncoding raw with
    | some e => (c.replace e raw, e, [])
    | none =>
      match c.decode? .utf8 raw with
      | some text => (text, .utf8, [])
      | none =>
        match c.decode? .cp1251 raw with
        | some text => (text, .cp1251, [])
        | none => (c.replace .utf8 raw, .utf8, [])

/-- `is_canonical_encoding`. -/
def Codecs.isCanonical (raw : Bytes) : Bool := raw.take 3 ≠ [0xef, 0xbb, 0xbf] && (c.decode? .utf8 raw).isSome

/-- The document that stands for a checkpoint which is not canonical. -/
def corruptDocument : Document := ⟨corruptText.toList, .utf8, [], ['\n'], true⟩

/-- `read_document(path, raw)`, for a file of a name. -/
def readDocument (name : String) (raw : Bytes) : Document :=
  if name ∈ ["STATE.md", "BOARD.md", "LOG.md"] ∧ c.isCanonical raw = false then corruptDocument
  else
    let (text, encoding, bom) := decodeDocument c raw
    ⟨text, encoding, bom, newlineOf text, endsLine text⟩

/-! ### Writing -/

/-- `Document.text_norm`. -/
def Document.textNorm (d : Document) : List Char := normaliseNewlines d.text

/-- The text that `Document.encode` hands to the codec. -/
def Document.body (d : Document) (newText : List Char) : List Char :=
  let body := if d.newline ≠ ['\n'] then spellNewlines d.newline newText else newText
  if d.finalNewline = false then (dropNewlines d.newline.reverse body.reverse).reverse
  else if d.newline.isSuffixOf body then body else body ++ d.newline

/-- `Document.encode`; `none` where the codec has no bytes for a character. -/
def Document.encode (d : Document) (newText : List Char) : Option Bytes :=
  (c.encode? d.encoding (d.body newText)).map (d.bom ++ ·)

/-! ### Newlines of one kind -/

variable {c} {newline cs t old : List Char} {raw : Bytes} {name : String}

/-- A spelling of a newline. -/
def IsNewline (newline : List Char) : Prop := newline = ['\r', '\n'] ∨ newline = ['\r'] ∨ newline = ['\n']

/-- A text in which every newline is spelled in one way: that of a text with newlines of one character. -/
def Uniform (newline cs : List Char) : Prop := ∃ t, '\r' ∉ t ∧ spellNewlines newline t = cs

theorem isNewline_newlineOf (cs : List Char) : IsNewline (newlineOf cs) := newlineOf_cases cs

theorem newlineOf_newline (h : IsNewline newline) : newlineOf newline = newline := by
  rcases h with rfl | rfl | rfl <;> decide

theorem normaliseNewlines_spelled (h : IsNewline newline) (ht : '\r' ∉ t) :
    normaliseNewlines (spellNewlines newline t) = t := by
  rw [← newlineOf_newline h]
  exact normaliseNewlines_spellNewlines newline ht

theorem spellNewlines_plain (h : '\n' ∉ t) : spellNewlines newline t = t := by
  induction t with
  | nil => rfl
  | cons d t ih =>
    rw [List.mem_cons, not_or] at h
    rw [spellNewlines_cons, if_neg (Ne.symm h.1), ih h.2, List.singleton_append]

theorem spellNewlines_newline (t : List Char) : spellNewlines ['\n'] t = t := by
  induction t with
  | nil => rfl
  | cons d t ih =>
    rw [spellNewlines_cons, ih]
    split_ifs with hd
    · rw [hd, List.singleton_append]
    · rw [List.singleton_append]

theorem mem_spellNewlines {d : Char} (h : d ∈ spellNewlines newline t) : d ∈ newline ∨ (d ∈ t ∧ d ≠ '\n') := by
  obtain ⟨e, he, hd⟩ := List.mem_flatMap.mp h
  split_ifs at hd with hbreak
  · exact .inl hd
  · rw [List.mem_singleton.mp hd]
    exact .inr ⟨he, hbreak⟩

/-- The newline of a text is the one that it is spelled with. -/
theorem newlineOf_spelled (h : IsNewline newline) (ht : '\r' ∉ t) (hbreak : '\n' ∈ t) :
    newlineOf (spellNewlines newline t) = newline := by
  obtain ⟨front, back, rfl⟩ := List.mem_iff_append.mp hbreak
  have hspell : spellNewlines newline (front ++ '\n' :: back) =
      spellNewlines newline front ++ (newline ++ spellNewlines newline back) := by
    rw [spellNewlines, List.flatMap_append]
    rfl
  rcases h with rfl | rfl | rfl
  · -- The two characters stand where the newline was.
    rw [newlineOf, if_pos]
    rw [List.any_eq_true]
    refine ⟨['\r', '\n'] ++ spellNewlines ['\r', '\n'] back, ?_, rfl⟩
    rw [List.mem_tails, hspell]
    exact List.suffix_append _ _
  · -- No newline is left, so no two characters are one.
    have hnone : '\n' ∉ spellNewlines ['\r'] (front ++ '\n' :: back) := by
      intro hin
      rcases mem_spellNewlines hin with hin | ⟨-, hne⟩
      · exact absurd (List.mem_singleton.mp hin) (by decide)
      · exact hne rfl
    rw [newlineOf, if_neg, if_pos]
    · rw [hspell]
      simp
    · rw [List.any_eq_true]
      rintro ⟨tail, htail, hprefix⟩
      obtain ⟨rest, rfl⟩ := List.isPrefixOf_iff_prefix.mp hprefix
      exact hnone ((List.mem_tails _ _ |>.mp htail).subset (by simp))
  · have hreturn : '\r' ∉ spellNewlines ['\n'] (front ++ '\n' :: back) := by rwa [spellNewlines_newline]
    rw [newlineOf, if_neg, if_neg hreturn]
    rw [List.any_eq_true]
    rintro ⟨tail, htail, hprefix⟩
    obtain ⟨rest, rfl⟩ := List.isPrefixOf_iff_prefix.mp hprefix
    exact hreturn ((List.mem_tails _ _ |>.mp htail).subset (by simp))

theorem spellNewlines_newlineOf (h : IsNewline newline) (ht : '\r' ∉ t) :
    spellNewlines (newlineOf (spellNewlines newline t)) t = spellNewlines newline t := by
  by_cases hbreak : '\n' ∈ t
  · rw [newlineOf_spelled h ht hbreak]
  · rw [spellNewlines_plain hbreak, spellNewlines_plain hbreak]

/-! ### The end of a text -/

theorem endsLine_concat (cs : List Char) (d : Char) : endsLine (cs ++ [d]) = decide (d = '\n' ∨ d = '\r') := by
  simp [endsLine]

theorem endsLine_append_newline (h : IsNewline newline) (cs : List Char) : endsLine (cs ++ newline) = true := by
  rcases h with rfl | rfl | rfl
  · rw [← List.singleton_append, ← List.append_assoc, endsLine_concat]
    decide
  · rw [endsLine_concat]
    decide
  · rw [endsLine_concat]
    decide

theorem endsLine_spelled (h : IsNewline newline) (ht : '\r' ∉ t) : endsLine (spellNewlines newline t) = endsLine t := by
  rcases List.eq_nil_or_concat t with rfl | ⟨init, last, rfl⟩
  · rfl
  · rw [List.concat_eq_append] at ht ⊢
    rw [spellNewlines_concat]
    split_ifs with hlast
    · rw [endsLine_append_newline h, endsLine_concat, hlast]
      decide
    · rw [endsLine_concat, endsLine_concat]

/-- Newlines at the end go, and nothing else. -/
theorem dropNewlines_spelled (h : IsNewline newline) (ht : '\r' ∉ t) :
    (dropNewlines newline.reverse (spellNewlines newline t).reverse).reverse =
      spellNewlines newline (t.reverse.dropWhile (· = '\n')).reverse := by
  induction t using List.reverseRecOn with
  | nil =>
    have hempty : spellNewlines newline [] = [] := rfl
    rw [hempty, List.reverse_nil, dropNewlines]
    rfl
  | append_singleton init last ih =>
    have hinit : '\r' ∉ init := fun hin => ht (List.mem_append_left _ hin)
    have hlast : last ≠ '\r' := fun hin => ht (by simp [hin])
    rw [spellNewlines_concat, List.reverse_append, List.reverse_append, List.reverse_singleton]
    by_cases hbreak : last = '\n'
    · have hstep : ∀ x, dropNewlines newline.reverse (newline.reverse ++ x) = dropNewlines newline.reverse x := by
        intro x
        rcases h with rfl | rfl | rfl <;> exact (dropNewlines.eq_2 _ _ _).trans (if_pos (by simp))
      rw [if_pos hbreak, hstep, ih hinit, List.singleton_append, List.dropWhile_cons_of_pos (by simpa using hbreak)]
    · have hstop : newline.reverse.isPrefixOf (last :: (spellNewlines newline init).reverse) = false := by
        rcases h with rfl | rfl | rfl <;> simp [List.isPrefixOf, Ne.symm hbreak, Ne.symm hlast]
      rw [if_neg hbreak, List.reverse_singleton, List.singleton_append, dropNewlines,
        if_neg (by rw [hstop]; exact Bool.false_ne_true), List.singleton_append,
        List.dropWhile_cons_of_neg (by simpa using hbreak), List.reverse_cons, List.reverse_reverse,
        List.reverse_cons, List.reverse_reverse, spellNewlines_concat, if_neg hbreak]

theorem endsLine_dropWhile (ht : '\r' ∉ t) : endsLine (t.reverse.dropWhile (· = '\n')).reverse = false := by
  cases hdrop : t.reverse.dropWhile (· = '\n') with
  | nil => rfl
  | cons d rest =>
    have hne : d ≠ '\n' := by
      have hhead := List.head_dropWhile_not (fun x : Char => decide (x = '\n')) (l := t.reverse) (by rw [hdrop]; simp)
      simp only [hdrop, List.head_cons, decide_eq_false_iff_not] at hhead
      exact hhead
    have hmem : d ∈ t := by
      have hin : d ∈ t.reverse.dropWhile (· = '\n') := hdrop ▸ List.mem_cons_self
      exact List.mem_reverse.mp ((List.dropWhile_sublist _).subset hin)
    rw [List.reverse_cons, endsLine_concat, decide_eq_false_iff_not]
    rintro (hd | rfl)
    · exact hne hd
    · exact ht hmem

/-! ### What is written back -/

variable (c) in
/-- The bytes are read as the text of the document with no character put for what could not be read. -/
def Document.Strict (d : Document) (raw : Bytes) : Prop :=
  ∃ rest, raw = d.bom ++ rest ∧ c.decode? d.encoding rest = some d.text

/-- A text with or without a newline at its end. -/
def ended (finalNewline : Bool) (t : List Char) : List Char :=
  if finalNewline = false then (t.reverse.dropWhile (· = '\n')).reverse else if endsLine t = true then t else t ++ ['\n']

variable (c) in
/-- The bytes of a text in the representation of a document: its mark, its codec, its newlines and no other, and its
end. -/
def Document.Keeps (d : Document) (newText : List Char) (bytes : Bytes) : Prop :=
  ∃ body rest, bytes = d.bom ++ rest ∧ c.decode? d.encoding rest = some body ∧ Uniform d.newline body ∧
    endsLine body = d.finalNewline ∧ normaliseNewlines body = ended d.finalNewline newText

theorem readDocument_facts (name : String) (raw : Bytes) :
    (readDocument c name raw).newline = newlineOf (readDocument c name raw).text ∧
      (readDocument c name raw).finalNewline = endsLine (readDocument c name raw).text := by
  unfold readDocument
  split_ifs
  · exact ⟨by decide, by decide⟩
  · exact ⟨rfl, rfl⟩

theorem mem_ended (finalNewline : Bool) (ht : '\r' ∉ t) : '\r' ∉ ended finalNewline t := by
  unfold ended
  split_ifs
  · intro hin
    exact ht (List.mem_reverse.mp ((List.dropWhile_sublist _).subset (List.mem_reverse.mp hin)))
  · exact ht
  · simp [ht]

theorem endsLine_ended (finalNewline : Bool) (ht : '\r' ∉ t) : endsLine (ended finalNewline t) = finalNewline := by
  unfold ended
  split_ifs with hfinal hends
  · rw [endsLine_dropWhile ht, hfinal]
  · rw [hends, Bool.eq_true_of_not_eq_false hfinal]
  · rw [endsLine_concat, Bool.eq_true_of_not_eq_false hfinal]
    decide

/-- A text ends with the newline of the document exactly when it ends a line. -/
theorem isSuffixOf_spelled (h : IsNewline newline) (ht : '\r' ∉ t) :
    newline.isSuffixOf (spellNewlines newline t) = endsLine t := by
  rw [Bool.eq_iff_iff, List.isSuffixOf_iff_suffix]
  constructor
  · rintro ⟨front, hfront⟩
    rw [← endsLine_spelled h ht, ← hfront]
    exact endsLine_append_newline h front
  · intro hends
    rcases List.eq_nil_or_concat t with rfl | ⟨init, last, rfl⟩
    · cases hends
    · rw [List.concat_eq_append] at hends ht ⊢
      rw [endsLine_concat, decide_eq_true_iff] at hends
      have hlast : last = '\n' := hends.resolve_right fun hret => ht (by simp [hret])
      rw [spellNewlines_concat, if_pos hlast]
      exact List.suffix_append _ _

/-- What goes to the codec is the text with its end, in the newlines of the document. -/
theorem body_eq {d : Document} (h : IsNewline d.newline) (ht : '\r' ∉ t) :
    d.body t = spellNewlines d.newline (ended d.finalNewline t) := by
  have hspell : (if d.newline ≠ ['\n'] then spellNewlines d.newline t else t) = spellNewlines d.newline t := by
    split_ifs with hne
    · rfl
    · rw [not_not.mp hne, spellNewlines_newline]
  rw [Document.body, hspell, ended]
  split_ifs with hfinal hsuffix hends hends
  · exact dropNewlines_spelled h ht
  · rfl
  · exact absurd ((isSuffixOf_spelled h ht).symm.trans hsuffix) hends
  · exact absurd ((isSuffixOf_spelled h ht).trans hends) hsuffix
  · rw [spellNewlines_concat, if_pos rfl]

theorem ended_endsLine (h : IsNewline newline) (ht : '\r' ∉ t) : ended (endsLine (spellNewlines newline t)) t = t := by
  rw [endsLine_spelled h ht, ended]
  split_ifs with hfinal hends
  · rcases List.eq_nil_or_concat t with rfl | ⟨init, last, rfl⟩
    · rfl
    · rw [List.concat_eq_append] at hfinal ⊢
      rw [endsLine_concat, decide_eq_false_iff_not, not_or] at hfinal
      rw [List.reverse_append, List.reverse_singleton, List.singleton_append,
        List.dropWhile_cons_of_neg (by simpa using hfinal.1), List.reverse_cons, List.reverse_reverse]
  · rfl
  · exact absurd (Bool.eq_true_of_not_eq_false hfinal) hends

/-- Writing undoes reading. The text of a document that was read strictly and has newlines of one kind is written as
the bytes that it was read from; any other text is written with the mark, in the codec, with the newlines and with the
end of the document. -/
theorem encode_readDocument (name : String) (raw : Bytes) :
    ((readDocument c name raw).Strict c raw →
      (∃ newline, IsNewline newline ∧ Uniform newline (readDocument c name raw).text) →
      (readDocument c name raw).encode c (readDocument c name raw).textNorm = some raw) ∧
    ∀ newText bytes, '\r' ∉ newText → (readDocument c name raw).encode c newText = some bytes →
      (readDocument c name raw).Keeps c newText bytes := by
  obtain ⟨hnewline, hfinal⟩ := readDocument_facts (c := c) name raw
  have hone : IsNewline (readDocument c name raw).newline := hnewline ▸ isNewline_newlineOf _
  refine ⟨?_, fun newText bytes ht hbytes => ?_⟩
  · rintro ⟨rest, hraw, hdecode⟩ ⟨newline, hkind, t, ht, hspell⟩
    have hnorm : (readDocument c name raw).textNorm = t := by
      rw [Document.textNorm, ← hspell]
      exact normaliseNewlines_spelled hkind ht
    have hbody : (readDocument c name raw).body t = (readDocument c name raw).text := by
      rw [body_eq hone ht, hfinal, hnewline, ← hspell, ended_endsLine hkind ht, spellNewlines_newlineOf hkind ht]
    rw [hnorm, Document.encode, hbody, c.encode_of_decode hdecode, Option.map_some, ← hraw]
  · obtain ⟨rest, hencode, rfl⟩ := Option.map_eq_some_iff.mp hbytes
    have hended := mem_ended (readDocument c name raw).finalNewline ht
    rw [body_eq hone ht] at hencode
    refine ⟨_, rest, rfl, c.decode_of_encode hencode, ⟨_, hended, rfl⟩, ?_, normaliseNewlines_spelled hone hended⟩
    rw [endsLine_spelled hone hended, endsLine_ended _ ht]

/-! ### A sample -/

theorem encodeUtf8_of_decodeUtf8? {b : Bytes} {s : String} (h : decodeUtf8? b = some s) : encodeUtf8 s = b := by
  obtain ⟨cs, hcs, rfl⟩ := Option.map_eq_some_iff.mp h
  have hsome : (ByteArray.mk b.toArray).utf8Decode?.isSome = true := by rw [hcs]; rfl
  have hbytes := ByteArray.utf8Encode_get_utf8Decode? (b := ByteArray.mk b.toArray) (h := hsome)
  simp only [hcs, Option.get_some] at hbytes
  rw [encodeUtf8, String.toByteArray_ofList, hbytes]

/-- The tables of UTF-8, with none for the other codecs. -/
def utf8Codecs : Codecs where
  decode? e b := if e = .utf8 then (decodeUtf8? b).map String.toList else none
  replace e b := ((if e = .utf8 then (decodeUtf8? b).map String.toList else none) : Option (List Char)).getD []
  encode? e t := if e = .utf8 then some (encodeUtf8 (String.ofList t)) else none
  replace_of_decode h := by rw [h, Option.getD_some]
  encode_of_decode h := by
    split_ifs at h ⊢
    obtain ⟨s, hs, rfl⟩ := Option.map_eq_some_iff.mp h
    rw [String.ofList_toList, encodeUtf8_of_decodeUtf8? hs]
  decode_of_encode h := by
    split_ifs at h ⊢
    obtain rfl := Option.some.inj h
    rw [decodeUtf8?_encodeUtf8, Option.map_some, String.toList_ofList]

/-- A file with a mark and newlines of two characters. -/
def windowsBytes : Bytes := [0xef, 0xbb, 0xbf] ++ encodeUtf8 "a\r\nb\r\n"

theorem readDocument_windows : readDocument utf8Codecs "notes.md" windowsBytes =
    ⟨['a', '\r', '\n', 'b', '\r', '\n'], .utf8, [0xef, 0xbb, 0xbf], ['\r', '\n'], true⟩ := by
  have hfind : bomEncodings.find? (fun bom => bom.1.isPrefixOf windowsBytes) = some ([0xef, 0xbb, 0xbf], .utf8) := rfl
  have htext : utf8Codecs.replace .utf8 (encodeUtf8 "a\r\nb\r\n") = ['a', '\r', '\n', 'b', '\r', '\n'] := by
    show ((decodeUtf8? (encodeUtf8 "a\r\nb\r\n")).map String.toList).getD [] = _
    rw [decodeUtf8?_encodeUtf8]
    rfl
  have hdecode : decodeDocument utf8Codecs windowsBytes =
      (['a', '\r', '\n', 'b', '\r', '\n'], .utf8, [0xef, 0xbb, 0xbf]) := by
    rw [decodeDocument, hfind, ← htext]
    rfl
  rw [readDocument, if_neg fun h => absurd h.1 (by decide), hdecode]
  rfl

theorem windows_read_back : (readDocument utf8Codecs "notes.md" windowsBytes).encode utf8Codecs
    (readDocument utf8Codecs "notes.md" windowsBytes).textNorm = some windowsBytes := by
  refine (encode_readDocument "notes.md" windowsBytes).1 ?_ ?_
  · rw [readDocument_windows]
    refine ⟨encodeUtf8 "a\r\nb\r\n", rfl, ?_⟩
    show (decodeUtf8? (encodeUtf8 "a\r\nb\r\n")).map String.toList = _
    rw [decodeUtf8?_encodeUtf8]
    rfl
  · rw [readDocument_windows]
    exact ⟨['\r', '\n'], .inl rfl, ['a', '\n', 'b', '\n'], by decide, rfl⟩

end Text
