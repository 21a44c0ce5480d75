import Mathlib.Data.List.Basic
import Mathlib.Data.List.Infix
import Mathlib.Data.Nat.Digits.Defs

/-! # String operations of the engine

The `str` methods the journal code uses, on lists of characters so that they evaluate. -/

namespace Text

/-- `str.isspace` for one character. -/
def isSpace (c : Char) : Bool :=
  let n := c.toNat
  (9 ≤ n && n ≤ 13) || (28 ≤ n && n ≤ 32) || n == 0x85 || n == 0xa0 || n == 0x1680 ||
    (0x2000 ≤ n && n ≤ 0x200a) || n == 0x2028 || n == 0x2029 || n == 0x202f || n == 0x205f ||
    n == 0x3000

/-- `str.strip`. -/
def strip (s : String) : String :=
  String.ofList ((s.toList.dropWhile isSpace).reverse.dropWhile isSpace).reverse

/-- `str.startswith`. -/
def startsWith (s pre : String) : Bool := pre.toList.isPrefixOf s.toList

/-- `str.split(sep)` for a single character. -/
def split (sep : Char) (s : String) : List String := (s.toList.splitOn sep).map String.ofList

/-- `str.replace(a, b)` for single characters. -/
def replaceChar (a b : Char) (s : String) : String :=
  String.ofList (s.toList.map fun c => if c = a then b else c)

/-- Whether a character ends a line for `str.splitlines`; `\r\n` counts once. -/
def isLineBreak (c : Char) : Bool :=
  let n := c.toNat
  (10 ≤ n && n ≤ 13) || (28 ≤ n && n ≤ 30) || n == 0x85 || n == 0x2028 || n == 0x2029

/-- The lines of a list of characters, the one being read in `line`, reversed. -/
def linesFrom (line : List Char) : List Char → List (List Char)
  | [] => if line = [] then [] else [line.reverse]
  | c :: d :: cs =>
      if c = '\r' ∧ d = '\n' then line.reverse :: linesFrom [] cs
      else if isLineBreak c then line.reverse :: linesFrom [] (d :: cs)
      else linesFrom (c :: line) (d :: cs)
  | [c] => if isLineBreak c then [line.reverse] else [(c :: line).reverse]

/-- `str.splitlines`. -/
def splitLines (s : String) : List String := (linesFrom [] s.toList).map String.ofList

/-- `str.isalnum` restricted to ASCII, as the character classes of the engine's grammars have it. -/
def isAsciiAlnum (c : Char) : Bool :=
  let n := c.toNat
  (48 ≤ n && n ≤ 57) || (65 ≤ n && n ≤ 90) || (97 ≤ n && n ≤ 122)

/-- An ASCII letter. -/
def isAsciiAlpha (c : Char) : Bool :=
  let n := c.toNat
  (65 ≤ n && n ≤ 90) || (97 ≤ n && n ≤ 122)

/-- A lowercase hexadecimal digit. -/
def isLowerHex (c : Char) : Bool :=
  let n := c.toNat
  (48 ≤ n && n ≤ 57) || (97 ≤ n && n ≤ 102)

/-- `repr` of a string of plain characters. -/
def quote (s : String) : String := "'" ++ s ++ "'"

/-- No piece of a split contains the separator, and every character comes from the whole. -/
theorem mem_splitOn {sep : Char} {cs w : List Char} (hw : w ∈ cs.splitOn sep) :
    sep ∉ w ∧ ∀ c ∈ w, c ∈ cs := by
  induction cs generalizing w with
  | nil =>
    rw [List.splitOn_nil, List.mem_singleton] at hw
    simp [hw]
  | cons d cs ih =>
    rw [List.splitOn, List.splitOnP_cons_eq_if_modifyHead] at hw
    by_cases hd : d = sep
    · rw [if_pos (by simp [hd]), List.mem_cons] at hw
      rcases hw with rfl | hw
      · simp
      · exact ⟨(ih hw).1, fun c hc => List.mem_cons_of_mem _ ((ih hw).2 c hc)⟩
    · rw [if_neg (by simp [hd])] at hw
      cases hs : List.splitOnP (fun x => x == sep) cs with
      | nil => simp [hs] at hw
      | cons v vs =>
        rw [hs, List.modifyHead_cons, List.mem_cons] at hw
        have hv : ∀ u ∈ v :: vs, u ∈ cs.splitOn sep := fun u hu => by rw [List.splitOn, hs]; exact hu
        rcases hw with rfl | hw
        · obtain ⟨h1, h2⟩ := ih (hv v List.mem_cons_self)
          refine ⟨by simp [Ne.symm hd, h1], fun c hc => ?_⟩
          rcases List.mem_cons.mp hc with rfl | hc
          · exact List.mem_cons_self
          · exact List.mem_cons_of_mem _ (h2 c hc)
        · obtain ⟨h1, h2⟩ := ih (hv w (List.mem_cons_of_mem _ hw))
          exact ⟨h1, fun c hc => List.mem_cons_of_mem _ (h2 c hc)⟩

/-- Splitting a join of pieces without the separator gives the pieces back. -/
theorem split_intercalate {sep : Char} {ws : List String} (h : ∀ w ∈ ws, sep ∉ w.toList)
    (hne : ws ≠ []) : split sep ((String.singleton sep).intercalate ws) = ws := by
  have hmap : ∀ l ∈ ws.map String.toList, sep ∉ l := by simpa using h
  rw [split, String.toList_intercalate, String.toList_singleton,
    List.splitOn_intercalate sep hmap (by simpa using hne), List.map_map]
  exact (List.map_congr_left fun w _ => String.ofList_toList).trans (List.map_id ws)

/-- Joining the pieces of a text gives it back. -/
theorem intercalate_split {sep : Char} (s : String) :
    (String.singleton sep).intercalate (split sep s) = s := by
  rw [← String.toList_inj, String.toList_intercalate, split, List.map_map, String.toList_singleton]
  have hid : String.toList ∘ String.ofList = id := funext fun _ => String.toList_ofList
  rw [hid, List.map_id]
  exact List.intercalate_splitOn sep

/-- Stripping twice is stripping once. -/
theorem strip_strip (s : String) : strip (strip s) = strip s := by
  have trim : ∀ l : List Char, (l.dropWhile isSpace).dropWhile isSpace = l.dropWhile isSpace := by
    intro l
    induction l with
    | nil => rfl
    | cons c l ih =>
      by_cases h : isSpace c
      · simpa [h] using ih
      · simp [h]
  have head : ∀ l : List Char, ∀ c ∈ (l.dropWhile isSpace).head?, isSpace c = false := by
    intro l c hc
    induction l with
    | nil => simp at hc
    | cons d l ih =>
      by_cases h : isSpace d
      · exact ih (by simpa [h] using hc)
      · simp only [List.dropWhile_cons_of_neg h, List.head?_cons, Option.mem_def,
          Option.some.injEq] at hc
        simpa [hc] using h
  -- the stripped text starts with no space, so only the reverse side is trimmed again
  have keep : ∀ l : List Char, (∀ c ∈ l.head?, isSpace c = false) → l.dropWhile isSpace = l := by
    intro l hl
    cases l with
    | nil => rfl
    | cons c l =>
      have := hl c rfl
      simp [this]
  have start : ∀ l : List Char, (∀ c ∈ l.head?, isSpace c = false) →
      ∀ c ∈ (l.reverse.dropWhile isSpace).reverse.head?, isSpace c = false := by
    intro l hl c hc
    obtain ⟨t, ht⟩ := List.dropWhile_suffix isSpace (l := l.reverse)
    have hl' : l = (l.reverse.dropWhile isSpace).reverse ++ t.reverse := by
      rw [← List.reverse_append, ht, List.reverse_reverse]
    apply hl
    rw [hl', List.head?_append]
    simp only [Option.mem_def] at hc
    simp [hc]
  unfold strip
  rw [String.toList_ofList, keep _ (start _ (head s.toList)), List.reverse_reverse, trim]

end Text
