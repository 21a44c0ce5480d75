import Saipen.Binary64
import Saipen.Text.Scan

/-! # `float` and `str` of a number

`float(text)` as Python reads it: digits of any script, white space around the number, underscores
between digits, an exponent, `inf` and `nan`; the number is then taken to the nearest double. `str` of
an integer is one of its many spellings. -/

namespace Text

open Binary64

/-- White space around a number that is ASCII. -/
def isAsciiSpace (c : Char) : Bool := (9 ≤ c.toNat && c.toNat ≤ 13) || c.toNat == 32

/-- An ASCII digit. -/
def isAsciiDigit (c : Char) : Bool := 48 ≤ c.toNat && c.toNat ≤ 57

/-- Other scripts written in ASCII: their digits, their spaces, `?` for the rest. -/
def toAscii (c : Char) : Char :=
  if c.toNat < 127 then c
  else if isSpace c then ' '
  else match digit? c with
    | some d => Char.ofNat (48 + d)
    | none => '?'

/-- The underscores of a number are between digits; they are dropped. `before` is what precedes. -/
def dropUnderscores (before : Char) : List Char → Option (List Char)
  | [] => if before = '_' then none else some []
  | c :: cs =>
      if c = '_' then
        if isAsciiDigit before then dropUnderscores c cs else none
      else if before = '_' && !isAsciiDigit c then none
      else (dropUnderscores c cs).map (c :: ·)

/-- An exponent: nothing, or `e` and an integer. -/
def exponent : List Char → Option Int
  | [] => some 0
  | e :: cs =>
      if e = 'e' ∨ e = 'E' then
        let (sign, digits) : Int × List Char := match cs with
          | '-' :: cs => (-1, cs)
          | '+' :: cs => (1, cs)
          | cs => (1, cs)
        if digits ≠ [] ∧ digits.all isAsciiDigit then some (sign * toInt digits) else none
      else none

/-- Digits, perhaps a point and more digits, an exponent. -/
def decimal (cs : List Char) : Option ℚ :=
  let whole := cs.takeWhile isAsciiDigit
  let rest := cs.dropWhile isAsciiDigit
  let (fraction, rest) : List Char × List Char := match rest with
    | '.' :: rest => (rest.takeWhile isAsciiDigit, rest.dropWhile isAsciiDigit)
    | rest => ([], rest)
  if whole ++ fraction = [] then none
  else (exponent rest).map fun e => toInt (whole ++ fraction) * (10 : ℚ) ^ (e - (fraction.length : ℤ))

/-- A number with its sign. -/
def signed (negative : Bool) (cs : List Char) : Option Value :=
  let lower := cs.map Char.toLower
  if lower = "inf".toList ∨ lower = "infinity".toList then some (.infinity negative)
  else if lower = "nan".toList then some .nan
  else (decimal cs).map fun x => ofRat (if negative then -x else x)

/-- A number. -/
def number : List Char → Option Value
  | [] => none
  | c :: cs =>
      if c = '-' then signed true cs
      else if c = '+' then signed false cs
      else signed false (c :: cs)

/-- `float(text)`; `none` where it raises `ValueError`. -/
def float (s : String) : Option Value :=
  let cs := s.toList.map toAscii
  let cs := ((cs.dropWhile isAsciiSpace).reverse.dropWhile isAsciiSpace).reverse
  (dropUnderscores ' ' cs).bind number

/-- `str` of an integer. -/
def str (n : Int) : String := if n < 0 then "-" ++ n.natAbs.repr else n.natAbs.repr

/-! ### Reading `str` back -/

theorem isAsciiDigit_of_isDigit {c : Char} (h : c.isDigit = true) : isAsciiDigit c = true := by
  simp only [Char.isDigit, Bool.and_eq_true, decide_eq_true_eq, UInt32.le_iff_toNat_le] at h
  simp only [isAsciiDigit, Bool.and_eq_true, decide_eq_true_eq]
  exact h

/-- A character of `str` of an integer. -/
def isNumeral (c : Char) : Bool := isAsciiDigit c || c == '-'

theorem range_of_isNumeral {c : Char} (h : isNumeral c = true) : 45 ≤ c.toNat ∧ c.toNat ≤ 57 := by
  simp only [isNumeral, isAsciiDigit, Bool.or_eq_true, Bool.and_eq_true, decide_eq_true_eq,
    beq_iff_eq] at h
  rcases h with h | rfl
  · omega
  · decide

theorem isAsciiDigit_of_mem_repr {n : Nat} {c : Char} (h : c ∈ n.repr.toList) :
    isAsciiDigit c = true := isAsciiDigit_of_isDigit (isDigit_of_mem_repr h)

theorem isNumeral_of_mem_str {n : Int} {c : Char} (h : c ∈ (str n).toList) : isNumeral c = true := by
  unfold str at h
  split at h
  · rw [String.toList_append, List.mem_append] at h
    rcases h with h | h
    · obtain rfl : c = '-' := by simpa using h
      rfl
    · simp [isNumeral, isAsciiDigit_of_mem_repr h]
  · simp [isNumeral, isAsciiDigit_of_mem_repr h]

theorem toAscii_of_isNumeral {c : Char} (h : isNumeral c = true) : toAscii c = c := by
  rw [toAscii, if_pos]
  have := range_of_isNumeral h
  omega

theorem isAsciiSpace_of_isNumeral {c : Char} (h : isNumeral c = true) : isAsciiSpace c = false := by
  have := range_of_isNumeral h
  simp only [isAsciiSpace, Bool.or_eq_false_iff, Bool.and_eq_false_iff, decide_eq_false_iff_not,
    beq_eq_false_iff_ne]
  omega

/-- Nothing is stripped where there is no space. -/
theorem dropWhile_eq_self {p : Char → Bool} {cs : List Char} (h : ∀ c ∈ cs, p c = false) :
    cs.dropWhile p = cs := by
  cases cs with
  | nil => rfl
  | cons c cs => rw [List.dropWhile_cons_of_neg]; simp [h c List.mem_cons_self]

/-- Where there is no underscore nothing is dropped. -/
theorem dropUnderscores_eq_self {cs : List Char} (h : ∀ c ∈ cs, c ≠ '_') :
    ∀ {before : Char}, before ≠ '_' → dropUnderscores before cs = some cs := by
  induction cs with
  | nil => intro before hb; simp [dropUnderscores, hb]
  | cons c cs ih =>
    intro before hb
    have hc : c ≠ '_' := h c List.mem_cons_self
    rw [dropUnderscores, if_neg hc, if_neg (by simp [hb]),
      ih (fun d hd => h d (List.mem_cons_of_mem _ hd)) hc]
    rfl

/-- A run of digits is its number. -/
theorem decimal_digits {cs : List Char} (hne : cs ≠ []) (h : ∀ c ∈ cs, isAsciiDigit c = true) :
    decimal cs = some (toInt cs : ℚ) := by
  have htake : cs.takeWhile isAsciiDigit = cs := List.takeWhile_eq_self_iff.mpr h
  have hdrop : cs.dropWhile isAsciiDigit = [] := List.dropWhile_eq_nil_iff.mpr h
  simp [decimal, htake, hdrop, hne, exponent]

theorem toInt_repr (n : Nat) : toInt n.repr.toList = n := by
  have hnumber := number?_repr n
  unfold number? at hnumber
  split at hnumber
  · exact Option.some.inj hnumber
  · cases hnumber

/-- Digits are no letters. -/
theorem signed_digits (negative : Bool) (n : Nat) :
    signed negative n.repr.toList = some (ofRat (if negative then -(n : ℚ) else n)) := by
  have hdigits : ∀ c ∈ n.repr.toList, isAsciiDigit c = true := fun _ hc => isAsciiDigit_of_mem_repr hc
  have hne : n.repr.toList ≠ [] := by
    rw [Nat.toList_repr]
    exact Nat.toDigits_ne_nil
  have hlower : n.repr.toList.map Char.toLower = n.repr.toList := by
    refine (List.map_congr_left fun c hc => ?_).trans (List.map_id _)
    have hc := hdigits c hc
    simp only [isAsciiDigit, Bool.and_eq_true, decide_eq_true_eq] at hc
    have hupper : ¬ (c.val ≥ 65 ∧ c.val ≤ 90) := by
      simp only [ge_iff_le, UInt32.le_iff_toNat_le]
      show ¬ (65 ≤ c.toNat ∧ c.toNat ≤ 90)
      omega
    exact dif_neg hupper
  have hword : ∀ w : List Char, w.any (fun c => !isAsciiDigit c) = true → n.repr.toList ≠ w := by
    intro w hw heq
    obtain ⟨c, hc, hbad⟩ := List.any_eq_true.mp hw
    simp [hdigits c (heq ▸ hc)] at hbad
  rw [signed]
  simp only [hlower]
  rw [if_neg, if_neg (hword _ (by decide)), decimal_digits hne hdigits, toInt_repr]
  · rfl
  · rintro (h | h)
    · exact hword _ (by decide) h
    · exact hword _ (by decide) h

/-- **`float(str(n))`.** An integer is read back as the double nearest to it. -/
theorem float_str (n : Int) : float (str n) = some (ofRat n) := by
  have hnumeral : ∀ c ∈ (str n).toList, isNumeral c = true := fun _ hc => isNumeral_of_mem_str hc
  have hascii : (str n).toList.map toAscii = (str n).toList :=
    (List.map_congr_left fun c hc => toAscii_of_isNumeral (hnumeral c hc)).trans (List.map_id _)
  have hspace : ∀ c ∈ (str n).toList, isAsciiSpace c = false := fun c hc =>
    isAsciiSpace_of_isNumeral (hnumeral c hc)
  have hunder : ∀ c ∈ (str n).toList, c ≠ '_' := by
    rintro c hc rfl
    exact absurd (hnumeral _ hc) (by decide)
  rw [float]
  simp only [hascii]
  rw [dropWhile_eq_self hspace, dropWhile_eq_self (fun c hc => hspace c (List.mem_reverse.mp hc)),
    List.reverse_reverse, dropUnderscores_eq_self hunder (by decide), Option.bind_some]
  unfold str
  split
  · next hneg =>
    have hcast : -(n.natAbs : ℚ) = n := by
      rw [Nat.cast_natAbs, abs_of_neg hneg]
      simp
    rw [String.toList_append]
    show number ('-' :: n.natAbs.repr.toList) = _
    rw [number, if_pos rfl, signed_digits, if_pos rfl, hcast]
  · next hpos =>
    have hcast : (n.natAbs : ℚ) = n := by rw [Nat.cast_natAbs, abs_of_nonneg (not_lt.mp hpos)]
    have hsigned := signed_digits false n.natAbs
    rw [if_neg (by decide), hcast] at hsigned
    cases hcs : n.natAbs.repr.toList with
    | nil =>
      rw [Nat.toList_repr] at hcs
      exact absurd hcs Nat.toDigits_ne_nil
    | cons c cs =>
      have hc : isAsciiDigit c = true :=
        isAsciiDigit_of_mem_repr (n := n.natAbs) (hcs ▸ List.mem_cons_self)
      have hminus : c ≠ '-' := by rintro rfl; exact absurd hc (by decide)
      have hplus : c ≠ '+' := by rintro rfl; exact absurd hc (by decide)
      rw [number, if_neg hminus, if_neg hplus, ← hcs, hsigned]

end Text
