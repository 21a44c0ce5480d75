import Saipen.Board.Record

/-! # Scalars of the STATE frontmatter

`coerce` reads a scalar: quoted text, a truth value, an integer, or the text as it stands.
`_render_value` writes one, with quotes wherever the bare text would be read as something else. -/

namespace Saipen.State

open Text

/-- A scalar of the frontmatter. -/
inductive Scalar where
  | str (text : String)
  | int (n : Int)
  | bool (b : Bool)
deriving DecidableEq

/-! ### Reading -/

/-- The body of a single-quoted scalar: a doubled apostrophe is one. -/
def unquoteSingle : List Char → Option (List Char)
  | [] => some []
  | '\'' :: '\'' :: cs => (unquoteSingle cs).map ('\'' :: ·)
  | '\'' :: _ => none
  | c :: cs => (unquoteSingle cs).map (c :: ·)

/-- The body of a double-quoted scalar: the writer escapes the backslash and the quote only. -/
def unquoteDouble : List Char → List Char
  | [] => []
  | '\\' :: '\\' :: cs => '\\' :: unquoteDouble cs
  | '\\' :: '"' :: cs => '"' :: unquoteDouble cs
  | c :: cs => c :: unquoteDouble cs

/-- What stands between two quotes, when the text has at least two characters. -/
def between (quote : Char) (cs : List Char) : Option (List Char) :=
  if 2 ≤ cs.length ∧ cs.head? = some quote ∧ cs.getLast? = some quote then some cs.tail.dropLast
  else none

/-- `_decode_quoted`. -/
def decodeQuoted (raw : String) : Option String :=
  match (between '\'' raw.toList).bind unquoteSingle with
  | some body => some (String.ofList body)
  | none => (between '"' raw.toList).map fun body => String.ofList (unquoteDouble body)

/-- `-?\d+`. -/
def integer? : List Char → Option Int
  | '-' :: cs => (number? cs).map fun n => -Int.ofNat n
  | cs => (number? cs).map Int.ofNat

/-- `coerce`. -/
def coerce (raw : String) : Scalar :=
  match decodeQuoted raw with
  | some text => .str text
  | none =>
      if raw = "true" then .bool true
      else if raw = "false" then .bool false
      else
        match integer? raw.toList with
        | some n => .int n
        | none => .str raw

/-! ### Writing -/

/-- A value an operation hands to the writer. Floats, `None` and lists inside a list have no scalar of
their own: the writer writes their text. -/
inductive OwnedScalar where
  | str (text : String)
  | int (n : Int)
  | bool (b : Bool)
  | other (text : String)
deriving DecidableEq

/-- The scalar a value is. -/
def OwnedScalar.scalar? : OwnedScalar → Option Scalar
  | .str text => some (.str text)
  | .int n => some (.int n)
  | .bool b => some (.bool b)
  | .other _ => none

/-- Characters that make the writer quote. -/
def quotedChars : List Char := ":,[]\x7b\x7d&*!|>'\"%@`".toList

def needsQuote (text : String) : Bool :=
  (integer? text.toList).isSome || text = "true" || text = "false" ||
    text.toList.any (· ∈ quotedChars) || text ≠ strip text || text.toList.any isSpace

/-- The escapes of a double-quoted scalar. -/
def quoteBody (cs : List Char) : List Char :=
  cs.flatMap fun c => if c = '\\' ∨ c = '"' then ['\\', c] else [c]

/-- `_render_value` of a text. -/
def renderText (text : String) : Except String String :=
  if text = "" then .ok "\"\""
  else
    match Board.recordSeparatorIn text with
    | some (_, name) =>
        .error ("STATE scalar carries a physical record separator (" ++ name ++ "); one STATE " ++
          "field must be one frontmatter line -- a separator would inject a field no writer set")
    | none =>
        if needsQuote text then .ok ("\"" ++ String.ofList (quoteBody text.toList) ++ "\"")
        else .ok text

/-- `str(n)`. -/
def renderInt (n : Int) : String := if n < 0 then "-" ++ n.natAbs.repr else n.natAbs.repr

/-- `_render_value`. -/
def renderValue : OwnedScalar → Except String String
  | .bool true => .ok "true"
  | .bool false => .ok "false"
  | .int n => .ok (renderInt n)
  | .str text => renderText text
  | .other text => renderText text

/-! ### What is written is read back -/

theorem integer?_renderInt (n : Int) : integer? (renderInt n).toList = some n := by
  unfold renderInt
  split
  case isTrue hneg =>
    have hlist : ("-" ++ n.natAbs.repr).toList = '-' :: n.natAbs.repr.toList := by simp
    rw [hlist, integer?, number?_repr, Option.map_some]
    rw [Int.ofNat_eq_natCast]
    congr 1
    omega
  case isFalse hpos =>
    have hdash : ∀ cs, n.natAbs.repr.toList ≠ '-' :: cs := by
      intro cs hcs
      have hmem : '-' ∈ n.natAbs.repr.toList := by rw [hcs]; exact List.mem_cons_self
      exact absurd (isDigit_of_mem_repr hmem) (by decide)
    unfold integer?
    split
    case h_1 cs hcs => exact absurd hcs (hdash cs)
    case h_2 =>
      rw [number?_repr, Option.map_some]
      rw [Int.ofNat_eq_natCast]
      congr 1
      omega

theorem unquoteDouble_quoteBody (cs : List Char) : unquoteDouble (quoteBody cs) = cs := by
  induction cs with
  | nil => rfl
  | cons c cs ih =>
    have hcons : quoteBody (c :: cs) =
        (if c = '\\' ∨ c = '"' then ['\\', c] else [c]) ++ quoteBody cs := List.flatMap_cons ..
    rw [hcons]
    split
    case isTrue hc =>
      rcases hc with rfl | rfl
      · rw [List.cons_append, List.singleton_append, unquoteDouble, ih]
      · rw [List.cons_append, List.singleton_append, unquoteDouble, ih]
    case isFalse hc =>
      rw [not_or] at hc
      rw [List.singleton_append, unquoteDouble.eq_4 _ _ (by simp [hc.1]) (by simp [hc.1]), ih]

theorem between_of_notMem {quote : Char} {cs : List Char} (h : quote ∉ cs) :
    between quote cs = none := by
  rw [between, if_neg]
  rintro ⟨-, hhead, -⟩
  exact h (List.mem_of_mem_head? hhead)

theorem between_quoted (quote : Char) (cs : List Char) :
    between quote (quote :: (cs ++ [quote])) = some cs := by
  have hlast : (quote :: (cs ++ [quote])).getLast? = some quote := by
    rw [← List.cons_append, List.getLast?_concat]
  rw [between, if_pos ⟨by simp, rfl, hlast⟩]
  simp

/-- A text that needs no quotes is read as itself. -/
theorem coerce_bare {text : String} (h : needsQuote text = false) : coerce text = .str text := by
  simp only [needsQuote, Bool.or_eq_false_iff, decide_eq_false_iff_not, List.any_eq_false,
    decide_eq_true_eq] at h
  obtain ⟨⟨⟨⟨⟨hint, htrue⟩, hfalse⟩, hchars⟩, -⟩, -⟩ := h
  have hsingle : between '\'' text.toList = none :=
    between_of_notMem fun hmem => hchars _ hmem (by decide)
  have hdouble : between '"' text.toList = none :=
    between_of_notMem fun hmem => hchars _ hmem (by decide)
  have hnone : integer? text.toList = none := by simpa using hint
  simp [coerce, decodeQuoted, hsingle, hdouble, htrue, hfalse, hnone]

theorem coerce_quoted (text : String) :
    coerce ("\"" ++ String.ofList (quoteBody text.toList) ++ "\"") = .str text := by
  have hlist : ("\"" ++ String.ofList (quoteBody text.toList) ++ "\"").toList =
      '"' :: (quoteBody text.toList ++ ['"']) := by simp
  have hsingle : between '\'' ('"' :: (quoteBody text.toList ++ ['"'])) = none := by
    rw [between, if_neg]
    simp
  rw [coerce, decodeQuoted, hlist, hsingle, between_quoted]
  simp [unquoteDouble_quoteBody]

/-- The text of an integer or a truth value is read back as it. -/
theorem coerce_renderInt (n : Int) : coerce (renderInt n) = .int n := by
  have hint := integer?_renderInt n
  have hquote : ∀ quote : Char, quote ≠ '-' → isDecimal quote = false →
      between quote (renderInt n).toList = none := by
    intro quote hdash hdecimal
    refine between_of_notMem fun hmem => ?_
    unfold renderInt at hmem
    split at hmem
    · rw [String.toList_append, List.mem_append] at hmem
      rcases hmem with hmem | hmem
      · exact hdash (by simpa using hmem)
      · exact absurd ((isDecimal_of_isDigit (isDigit_of_mem_repr hmem)).symm.trans hdecimal) (by decide)
    · exact absurd ((isDecimal_of_isDigit (isDigit_of_mem_repr hmem)).symm.trans hdecimal) (by decide)
  have hword : ∀ word : String, integer? word.toList = none → renderInt n ≠ word := by
    rintro word hword rfl
    rw [hint] at hword
    cases hword
  rw [coerce, decodeQuoted, hquote _ (by decide) (by decide), hquote _ (by decide) (by decide)]
  simp [hword "true" (by decide), hword "false" (by decide), hint]

/-- What a written scalar is like: one line, not empty, no white space around it. -/
structure Rendered (s : String) : Prop where
  present : s ≠ ""
  oneLine : OneLine s.toList
  stripped : strip s = s

theorem rendered_text {text s : String} (h : renderText text = .ok s) : Rendered s := by
  unfold renderText at h
  split at h
  case isTrue hempty =>
    obtain rfl := Except.ok.inj h
    exact ⟨by decide, oneLine_literal (by decide), by decide⟩
  case isFalse hempty =>
    split at h
    case h_1 => cases h
    case h_2 hnone =>
      have hline := Board.recordSeparatorIn_eq_none_iff.mp hnone
      split at h
      case isTrue =>
        obtain rfl := Except.ok.inj h
        have hlist : ("\"" ++ String.ofList (quoteBody text.toList) ++ "\"").toList =
            '"' :: (quoteBody text.toList ++ ['"']) := by simp
        refine ⟨fun h => ?_, ?_, ?_⟩
        · rw [← String.toList_inj, hlist] at h
          cases h
        · rw [hlist]
          intro c hc
          rw [List.mem_cons, List.mem_append, List.mem_singleton, quoteBody, List.mem_flatMap] at hc
          rcases hc with rfl | ⟨d, hd, hc⟩ | rfl
          · decide
          · have hslash : isLineBreak '\\' = false := by decide
            split at hc
            · rw [List.mem_cons, List.mem_singleton] at hc
              rcases hc with rfl | rfl
              · exact hslash
              · exact hline _ hd
            · rw [List.mem_singleton.mp hc]
              exact hline _ hd
          · decide
        · refine strip_eq_self ?_ ?_
          · rw [hlist]
            simp only [List.head?_cons, Option.mem_def, Option.some.injEq]
            rintro c rfl
            decide
          · rw [hlist, ← List.cons_append, List.getLast?_concat]
            simp only [Option.mem_def, Option.some.injEq]
            rintro c rfl
            decide
      case isFalse hbare =>
        obtain rfl := Except.ok.inj h
        simp only [needsQuote, Bool.not_eq_true, Bool.or_eq_false_iff, List.any_eq_false,
          decide_eq_false_iff_not, not_not] at hbare
        exact ⟨hempty, hline, hbare.1.2.symm⟩

theorem rendered_int (n : Int) : Rendered (renderInt n) := by
  have hchars : ∀ c ∈ (renderInt n).toList, isSpace c = false ∧ isLineBreak c = false := by
    intro c hc
    have hdigit : ∀ c ∈ n.natAbs.repr.toList, isSpace c = false ∧ isLineBreak c = false := by
      intro c hc
      have hc := isDigit_of_mem_repr hc
      exact ⟨isSpace_of_isDecimal (isDecimal_of_isDigit hc),
        isLineBreak_of_isDecimal (isDecimal_of_isDigit hc)⟩
    unfold renderInt at hc
    split at hc
    · rw [String.toList_append, List.mem_append] at hc
      rcases hc with hc | hc
      · obtain rfl : c = '-' := by simpa using hc
        decide
      · exact hdigit c hc
    · exact hdigit c hc
  refine ⟨?_, fun c hc => (hchars c hc).2, strip_eq_self ?_ ?_⟩
  · intro hempty
    have hint := integer?_renderInt n
    rw [hempty] at hint
    cases hint
  · exact fun c hc => (hchars c (List.mem_of_mem_head? hc)).1
  · exact fun c hc => (hchars c (List.mem_of_getLast? hc)).1

theorem rendered_value {v : OwnedScalar} {s : String} (h : renderValue v = .ok s) : Rendered s := by
  cases v with
  | str text => exact rendered_text h
  | int n =>
    obtain rfl := Except.ok.inj h
    exact rendered_int n
  | bool b => cases b <;> obtain rfl := Except.ok.inj h <;> exact ⟨by decide, oneLine_literal (by decide), by decide⟩
  | other text => exact rendered_text h

/-- A scalar is read back as the value it was written from. -/
theorem coerce_renderValue {v : OwnedScalar} {s : String} (h : renderValue v = .ok s) :
    ∀ x, v.scalar? = some x → coerce s = x := by
  have htext : ∀ text, renderText text = .ok s → coerce s = .str text := by
    intro text h
    unfold renderText at h
    split at h
    case isTrue hempty =>
      obtain rfl := Except.ok.inj h
      rw [hempty]
      decide
    case isFalse =>
      split at h
      case h_1 => cases h
      case h_2 =>
        split at h
        case isTrue =>
          obtain rfl := Except.ok.inj h
          exact coerce_quoted text
        case isFalse hbare =>
          obtain rfl := Except.ok.inj h
          exact coerce_bare (by simpa using hbare)
  rintro x hx
  cases v with
  | str text =>
    obtain rfl := Option.some.inj hx
    exact htext text h
  | int n =>
    obtain rfl := Option.some.inj hx
    obtain rfl := Except.ok.inj h
    exact coerce_renderInt n
  | bool b =>
    obtain rfl := Option.some.inj hx
    cases b <;> obtain rfl := Except.ok.inj h <;> decide
  | other text => cases hx

end Saipen.State
