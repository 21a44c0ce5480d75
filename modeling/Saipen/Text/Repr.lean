import Saipen.Text.Scan

/-! # The `repr` of a string

A string in quotes, with escapes for the quote, the backslash and what cannot be shown. A pattern that
begins with a character no escape contains finds the same in a string and in its `repr`. -/

namespace Text

/-- `str.isprintable` for the characters behind ASCII, the decimal digits among them. -/
structure Printable where
  shows : Char → Bool
  decimal : ∀ c, isDecimal c = true → shows c = true

/-- Every character behind ASCII is shown. -/
def samplePrintable : Printable := ⟨fun _ => true, fun _ _ => rfl⟩

/-- A lower-case hexadecimal digit. -/
def hexDigit (n : Nat) : Char := if n < 10 then Char.ofNat (48 + n) else Char.ofNat (87 + n)

/-- A number with a fixed number of hexadecimal digits. -/
def hex (width n : Nat) : List Char :=
  (List.range width).reverse.map fun i => hexDigit (n / 16 ^ i % 16)

/-- What `repr` writes for one character inside the quotes. -/
def escape (p : Printable) (quote c : Char) : List Char :=
  let n := c.toNat
  if c = quote ∨ c = '\\' then ['\\', c]
  else if c = '\t' then ['\\', 't']
  else if c = '\n' then ['\\', 'n']
  else if c = '\r' then ['\\', 'r']
  else if n < 0x20 ∨ n = 0x7f then '\\' :: 'x' :: hex 2 n
  else if n < 0x7f ∨ p.shows c then [c]
  else if n < 0x100 then '\\' :: 'x' :: hex 2 n
  else if n < 0x10000 then '\\' :: 'u' :: hex 4 n
  else '\\' :: 'U' :: hex 8 n

/-- The quote `repr` chooses: the double one only where the string has single ones and no double. -/
def quoteFor (cs : List Char) : Char := if '\'' ∈ cs ∧ '"' ∉ cs then '"' else '\''

/-- `repr` of a string. -/
def reprStr (p : Printable) (s : String) : String :=
  let quote := quoteFor s.toList
  String.ofList (quote :: s.toList.flatMap (escape p quote) ++ [quote])

/-! ### What an escape contains -/

variable {p : Printable}

theorem quoteFor_eq (cs : List Char) : quoteFor cs = '\'' ∨ quoteFor cs = '"' := by
  unfold quoteFor
  split
  · exact .inr rfl
  · exact .inl rfl

theorem bracket_notMem_hex (width n : Nat) : '[' ∉ hex width n := by
  have hdigit : ∀ k < 16, hexDigit k ≠ '[' := by decide
  intro h
  obtain ⟨i, -, hi⟩ := List.mem_map.mp h
  exact hdigit _ (Nat.mod_lt _ (by decide)) hi

/-- A character stands for itself, or for an escape in which no bracket opens. -/
theorem escape_cases {quote : Char} (hq : quote = '\'' ∨ quote = '"') (c : Char) :
    escape p quote c = [c] ∨ ∃ tail, escape p quote c = '\\' :: tail ∧ '[' ∉ tail := by
  have hquote : '[' ≠ quote := by rcases hq with rfl | rfl <;> decide
  unfold escape
  dsimp only
  split_ifs with h₁
  · refine .inr ⟨[c], rfl, ?_⟩
    rcases h₁ with rfl | rfl
    · simpa using hquote
    · decide
  · exact .inr ⟨_, rfl, by decide⟩
  · exact .inr ⟨_, rfl, by decide⟩
  · exact .inr ⟨_, rfl, by decide⟩
  · exact .inr ⟨_, rfl, by simpa using bracket_notMem_hex 2 c.toNat⟩
  · exact .inl rfl
  · exact .inr ⟨_, rfl, by simpa using bracket_notMem_hex 2 c.toNat⟩
  · exact .inr ⟨_, rfl, by simpa using bracket_notMem_hex 4 c.toNat⟩
  · exact .inr ⟨_, rfl, by simpa using bracket_notMem_hex 8 c.toNat⟩

/-- What is shown in ASCII and needs no escape stands for itself. -/
theorem escape_ascii {quote c : Char} (hc : c ≠ quote) (hb : c ≠ '\\') (h : 0x20 ≤ c.toNat)
    (h' : c.toNat < 0x7f) : escape p quote c = [c] := by
  have hne : ∀ d : Char, d.toNat < 0x20 → c ≠ d := by
    rintro d hd rfl
    omega
  unfold escape
  rw [if_neg (by simp [hc, hb]), if_neg (hne _ (by decide)), if_neg (hne _ (by decide)),
    if_neg (hne _ (by decide)), if_neg (by omega), if_pos (.inl h')]

/-- Decimal digits of every script stand for themselves. -/
theorem escape_decimal {quote c : Char} (hq : quote = '\'' ∨ quote = '"') (h : isDecimal c = true) :
    escape p quote c = [c] := by
  have hne : ∀ d : Char, isDecimal d = false → c ≠ d := by
    rintro d hd rfl
    exact absurd (h.symm.trans hd) (by decide)
  have hquote : c ≠ quote := by
    rcases hq with rfl | rfl
    · exact hne _ (by decide)
    · exact hne _ (by decide)
  have hlow : ¬(c.toNat < 0x20 ∨ c.toNat = 0x7f) := by
    have hnone : ∀ n ∈ 0x7f :: List.range 0x20, isDecimal (Char.ofNat n) = false := by decide
    intro hlow
    have hmem : c.toNat ∈ 0x7f :: List.range 0x20 := by
      rw [List.mem_cons, List.mem_range]
      exact hlow.symm
    exact hne _ (hnone _ hmem) (Char.ofNat_toNat c).symm
  unfold escape
  rw [if_neg (by simp [hquote, hne '\\' (by decide)]), if_neg (hne _ (by decide)),
    if_neg (hne _ (by decide)), if_neg (hne _ (by decide)), if_neg hlow, if_pos (.inr (p.decimal c h))]

end Text
