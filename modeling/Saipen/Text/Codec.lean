import Saipen.Text.Scan

/-! # Reading the bytes of a document

The decoders of a document reader that never fails: byte-order marks first, then the guess that bytes
with many zeros are UTF-16, then UTF-8, CP1251, and UTF-8 with replacement characters. What is
written is UTF-8, and UTF-8 is read back unless it is taken for something else. -/

namespace Text

/-- The bytes of a file. -/
abbrev Bytes := List UInt8

/-- `str.encode("utf-8")`. -/
def encodeUtf8 (s : String) : Bytes := s.toByteArray.data.toList

/-- `bytes.decode("utf-8")`, strict. -/
def decodeUtf8? (bytes : Bytes) : Option String :=
  (ByteArray.mk bytes.toArray).utf8Decode?.map fun cs => String.ofList cs.toList

/-- The character a decoder with `errors="replace"` puts for what it cannot read. -/
def replacement : Char := Char.ofNat 0xfffd

/-! ### UTF-16 and UTF-32 -/

/-- Whether a code unit opens, or closes, a surrogate pair. -/
def isHighSurrogate (u : Nat) : Bool := 0xd800 ≤ u && u < 0xdc00

def isLowSurrogate (u : Nat) : Bool := 0xdc00 ≤ u && u < 0xe000

/-- The characters of a sequence of code units; `odd` says that one byte is left over behind them. -/
def fromUtf16 (odd : Bool) : List Nat → List Char
  | [] => if odd then [replacement] else []
  | [u] =>
      -- a pair cut short is one error, together with the byte left over
      if isHighSurrogate u then [replacement]
      else (if isLowSurrogate u then replacement else Char.ofNat u) ::
        if odd then [replacement] else []
  | u :: v :: us =>
      if isHighSurrogate u then
        if isLowSurrogate v then
          Char.ofNat (0x10000 + (u - 0xd800) * 0x400 + (v - 0xdc00)) :: fromUtf16 odd us
        else replacement :: fromUtf16 odd (v :: us)
      else (if isLowSurrogate u then replacement else Char.ofNat u) :: fromUtf16 odd (v :: us)

/-- Two bytes to a unit. -/
def units (unit : UInt8 → UInt8 → Nat) : Bytes → List Nat
  | a :: b :: rest => unit a b :: units unit rest
  | _ => []

/-- `decode("utf-16-le" | "utf-16-be", errors="replace")`. -/
def decodeUtf16 (unit : UInt8 → UInt8 → Nat) (bytes : Bytes) : String :=
  String.ofList (fromUtf16 (bytes.length % 2 = 1) (units unit bytes))

def littleEndian (a b : UInt8) : Nat := a.toNat + 256 * b.toNat

def bigEndian (a b : UInt8) : Nat := 256 * a.toNat + b.toNat

/-- `decode("utf-32-le" | "utf-32-be", errors="replace")`. -/
def decodeUtf32 (unit : UInt8 → UInt8 → UInt8 → UInt8 → Nat) : Bytes → List Char
  | a :: b :: c :: d :: rest =>
      (if (unit a b c d).isValidChar then Char.ofNat (unit a b c d) else replacement) ::
        decodeUtf32 unit rest
  | [] => []
  | _ => [replacement]

/-! ### UTF-8 with replacement, and CP1251 -/

/-- The bounds of the byte behind a lead byte, and how many bytes the character has behind it. -/
def leadByte (n : Nat) : Option (Nat × Nat × Nat) :=
  if n < 0x80 then some (0, 0, 0)
  else if 0xc2 ≤ n ∧ n ≤ 0xdf then some (0x80, 0xbf, 1)
  else if n = 0xe0 then some (0xa0, 0xbf, 2)
  else if n = 0xed then some (0x80, 0x9f, 2)
  else if 0xe1 ≤ n ∧ n ≤ 0xef then some (0x80, 0xbf, 2)
  else if n = 0xf0 then some (0x90, 0xbf, 3)
  else if 0xf1 ≤ n ∧ n ≤ 0xf3 then some (0x80, 0xbf, 3)
  else if n = 0xf4 then some (0x80, 0x8f, 3)
  else none

/-- `decode("utf-8", errors="replace")`: `pending` bytes of the character read so far, whose value is
`value`, are still to come, the next between `lo` and `hi`; what cannot be completed is one
replacement character. -/
def replaceUtf8 (pending value lo hi : Nat) : Bytes → List Char
  | [] => if pending = 0 then [] else [replacement]
  | b :: bytes =>
      let n := b.toNat
      let restart := match leadByte n with
        | none => replacement :: replaceUtf8 0 0 0 0 bytes
        | some (_, _, 0) => Char.ofNat n :: replaceUtf8 0 0 0 0 bytes
        | some (lo, hi, 1) => replaceUtf8 1 (n - 0xc0) lo hi bytes
        | some (lo, hi, 2) => replaceUtf8 2 (n - 0xe0) lo hi bytes
        | some (lo, hi, more) => replaceUtf8 more (n - 0xf0) lo hi bytes
      match pending with
      | 0 => restart
      | more + 1 =>
          if lo ≤ n ∧ n ≤ hi then
            let value := value * 64 + (n - 0x80)
            if more = 0 then Char.ofNat value :: replaceUtf8 0 0 0 0 bytes
            else replaceUtf8 more value 0x80 0xbf bytes
          else replacement :: restart

/-- The second half of the CP1251 table up to the Cyrillic alphabet; one byte has no meaning. -/
def cp1251High : List Nat :=
  [0x402, 0x403, 0x201a, 0x453, 0x201e, 0x2026, 0x2020, 0x2021, 0x20ac, 0x2030, 0x409, 0x2039, 0x40a,
    0x40c, 0x40b, 0x40f, 0x452, 0x2018, 0x2019, 0x201c, 0x201d, 0x2022, 0x2013, 0x2014, 0, 0x2122,
    0x459, 0x203a, 0x45a, 0x45c, 0x45b, 0x45f, 0xa0, 0x40e, 0x45e, 0x408, 0xa4, 0x490, 0xa6, 0xa7,
    0x401, 0xa9, 0x404, 0xab, 0xac, 0xad, 0xae, 0x407, 0xb0, 0xb1, 0x406, 0x456, 0x491, 0xb5, 0xb6,
    0xb7, 0x451, 0x2116, 0x454, 0xbb, 0x458, 0x405, 0x455, 0x457]

/-- `decode("cp1251")`. -/
def decodeCp1251? (bytes : Bytes) : Option String :=
  (bytes.mapM fun b =>
    let n := b.toNat
    if n < 0x80 then some (Char.ofNat n)
    else if n = 0x98 then none
    else if n < 0xc0 then some (Char.ofNat (cp1251High.getD (n - 0x80) 0))
    else some (Char.ofNat (n - 0xc0 + 0x410))).map String.ofList

/-! ### The document reader -/

/-- Every second element, from the first. -/
def everySecond : Bytes → Bytes
  | [] => []
  | [a] => [a]
  | a :: _ :: rest => a :: everySecond rest

/-- `_bomless_utf16`: bytes whose zeros stand at the odd, or at the even, places. -/
def bomlessUtf16 (raw : Bytes) : Option (UInt8 → UInt8 → Nat) :=
  if raw.length < 4 ∨ 0 ∉ raw then none
  else
    let head := raw.take 4096
    let head := head.take (head.length - head.length % 2)
    let half := head.length / 2
    let even := (everySecond head).count 0
    let odd := (everySecond head.tail).count 0
    if 10 * odd > 3 * half ∧ 10 * even < half then some littleEndian
    else if 10 * even > 3 * half ∧ 10 * odd < half then some bigEndian
    else none

/-- `_BOMS`, each with the decoder of what follows it. -/
def boms : List (Bytes × (Bytes → String)) :=
  [([0xef, 0xbb, 0xbf], fun rest => String.ofList (replaceUtf8 0 0 0 0 rest)),
    ([0xff, 0xfe, 0, 0], fun rest => String.ofList
      (decodeUtf32 (fun a b c d => littleEndian a b + 65536 * littleEndian c d) rest)),
    ([0, 0, 0xfe, 0xff], fun rest => String.ofList
      (decodeUtf32 (fun a b c d => 65536 * bigEndian a b + bigEndian c d) rest)),
    ([0xff, 0xfe], decodeUtf16 littleEndian), ([0xfe, 0xff], decodeUtf16 bigEndian)]

/-- `codec._decode`, the text only. -/
def decodeDoc (raw : Bytes) : String :=
  match boms.find? fun bom => bom.1.isPrefixOf raw with
  | some (bom, decode) => decode (raw.drop bom.length)
  | none =>
    match bomlessUtf16 raw with
    | some unit => decodeUtf16 unit raw
    | none =>
      match decodeUtf8? raw with
      | some text => text
      | none =>
        match decodeCp1251? raw with
        | some text => text
        | none => String.ofList (replaceUtf8 0 0 0 0 raw)

/-- `text.replace("\r\n", "\n").replace("\r", "\n")`. -/
def normaliseNewlines : List Char → List Char
  | [] => []
  | '\r' :: '\n' :: cs => '\n' :: normaliseNewlines cs
  | '\r' :: cs => '\n' :: normaliseNewlines cs
  | c :: cs => c :: normaliseNewlines cs

/-- `_normalised_doc_text`. -/
def normalisedDocText (raw : Bytes) : String :=
  String.ofList (normaliseNewlines (decodeDoc raw).toList)

/-- `is_canonical_encoding`: strict UTF-8 without a byte-order mark. -/
def isCanonicalEncoding (raw : Bytes) : Bool :=
  raw.take 3 ≠ [0xef, 0xbb, 0xbf] && (decodeUtf8? raw).isSome

/-! ### What is written is read back -/

theorem decodeUtf8?_encodeUtf8 (s : String) : decodeUtf8? (encodeUtf8 s) = some s := by
  have hbytes : ByteArray.mk (encodeUtf8 s).toArray = s.toList.utf8Encode := by
    rw [String.utf8Encode_toList]
    rfl
  rw [decodeUtf8?, hbytes, List.utf8Decode?_utf8Encode]
  simp

/-- The bytes of a text, character by character. -/
theorem encodeUtf8_ofList (cs : List Char) :
    encodeUtf8 (String.ofList cs) = cs.flatMap String.utf8EncodeChar := by
  rw [encodeUtf8, String.toByteArray_ofList, List.utf8Encode, List.data_toByteArray]

theorem encodeUtf8_cons {s : String} {c : Char} {cs : List Char} {b : UInt8} (hs : s.toList = c :: cs)
    (hc : String.utf8EncodeChar c = [b]) :
    encodeUtf8 s = b :: encodeUtf8 (String.ofList cs) := by
  rw [← String.ofList_toList (s := s), hs, encodeUtf8_ofList, encodeUtf8_ofList, List.flatMap_cons, hc,
    List.singleton_append]

/-! ### Newlines -/

theorem normaliseNewlines_cons {c : Char} {cs : List Char} (hc : c ≠ '\r') :
    normaliseNewlines (c :: cs) = c :: normaliseNewlines cs := by
  rw [normaliseNewlines]
  · rintro _ rfl
    exact absurd rfl hc
  · rintro rfl
    exact absurd rfl hc

theorem normaliseNewlines_eq_self {cs : List Char} (h : '\r' ∉ cs) : normaliseNewlines cs = cs := by
  induction cs with
  | nil => rfl
  | cons c cs ih =>
    rw [List.mem_cons, not_or] at h
    rw [normaliseNewlines_cons (Ne.symm h.1), ih h.2]

/-! ### ASCII -/

/-- The text of ASCII bytes. -/
def asciiText (bs : Bytes) : String := String.ofList (bs.map fun b => Char.ofNat b.toNat)

theorem utf8EncodeChar_ascii {b : UInt8} (h : b.toNat < 128) :
    String.utf8EncodeChar (Char.ofNat b.toNat) = [b] := by
  have hval : (Char.ofNat b.toNat).val = b.toUInt32 := by
    have hvalid : b.toNat.isValidChar := Or.inl (by omega)
    rw [Char.ofNat, dif_pos hvalid]
    apply UInt32.toNat_inj.mp
    rfl
  have hsize : (Char.ofNat b.toNat).utf8Size = 1 := by
    have hle : (Char.ofNat b.toNat).val ≤ 0x7f := by
      rw [hval, UInt32.le_iff_toNat_le, UInt8.toNat_toUInt32]
      exact Nat.le_of_lt_succ h
    exact if_pos hle
  rw [String.utf8EncodeChar_eq_singleton hsize, hval]
  simp

/-- ASCII bytes are those of their text. -/
theorem encodeUtf8_asciiText {bs : Bytes} (h : ∀ b ∈ bs, b.toNat < 128) : encodeUtf8 (asciiText bs) = bs := by
  rw [asciiText, encodeUtf8_ofList, List.flatMap_map]
  induction bs with
  | nil => rfl
  | cons b bs ih =>
    rw [List.flatMap_cons, utf8EncodeChar_ascii (h b List.mem_cons_self),
      ih fun c hc => h c (List.mem_cons_of_mem _ hc), List.singleton_append]

theorem encodeUtf8_injective {s t : String} (h : encodeUtf8 s = encodeUtf8 t) : s = t := by
  have := decodeUtf8?_encodeUtf8 s
  rw [h, decodeUtf8?_encodeUtf8] at this
  exact (Option.some.inj this).symm

/-- A decimal number is ASCII. -/
theorem encodeUtf8_repr_ascii (n : Nat) : ∀ b ∈ encodeUtf8 n.repr, b.toNat < 128 := by
  intro b hb
  rw [← String.ofList_toList (s := n.repr), encodeUtf8_ofList] at hb
  obtain ⟨c, hc, hb⟩ := List.mem_flatMap.mp hb
  have hdigit := isDigit_of_mem_repr hc
  unfold Char.isDigit at hdigit
  have hle : c.val ≤ 57 := of_decide_eq_true (Bool.and_eq_true_iff.mp hdigit).2
  have hsize : c.utf8Size = 1 := if_pos (UInt32.le_trans hle (by decide))
  rw [String.utf8EncodeChar_eq_singleton hsize, List.mem_singleton] at hb
  have hnat : c.val.toNat ≤ 57 := UInt32.le_iff_toNat_le.mp hle
  rw [hb, UInt32.toNat_toUInt8]
  omega

end Text
