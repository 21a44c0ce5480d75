import Saipen.Text.Number
import Saipen.Text.Repr

/-! # JSON on one line

`json.dumps(…, ensure_ascii=False, separators=(",", ":"))` of texts, numbers and arrays of them. The text of
a value is read in one way, whatever follows it. -/

namespace Json

open Text

/-! ### Codes that tell where they end -/

/-- A word is recognised whatever follows it. -/
def PrefixCode {α : Type} (code : α → List Char) : Prop :=
  ∀ x y r s, code x ++ r = code y ++ s → x = y ∧ r = s

variable {α β : Type} {code : α → List Char}

theorem PrefixCode.injective (h : PrefixCode code) : Function.Injective code :=
  fun x y hxy => (h x y [] [] (by rw [hxy])).1

/-- A word behind another one. -/
theorem PrefixCode.append {code' : β → List Char} (h : PrefixCode code) (h' : PrefixCode code') :
    PrefixCode fun x : α × β => code x.1 ++ code' x.2 := by
  rintro ⟨x, x'⟩ ⟨y, y'⟩ r s heq
  rw [List.append_assoc, List.append_assoc] at heq
  obtain ⟨rfl, hrest⟩ := h x y _ _ heq
  obtain ⟨rfl, hrs⟩ := h' x' y' _ _ hrest
  exact ⟨rfl, hrs⟩

/-- A word between two fixed texts. -/
theorem PrefixCode.between (h : PrefixCode code) (opening closing : List Char) :
    PrefixCode fun x => opening ++ (code x ++ closing) := by
  intro x y r s heq
  simp only [List.append_assoc] at heq
  obtain ⟨rfl, hrest⟩ := h x y _ _ (List.append_cancel_left heq)
  exact ⟨rfl, List.append_cancel_left hrest⟩

/-- What is read off the words is what they were made of. -/
theorem prefixCode_of_read {read : List Char → Option (α × List Char)}
    (h : ∀ x r, read (code x ++ r) = some (x, r)) : PrefixCode code := by
  intro x y r s heq
  have hread := h x r
  rw [heq, h y s] at hread
  obtain ⟨rfl, rfl⟩ := Prod.mk.inj (Option.some.inj hread)
  exact ⟨rfl, rfl⟩

/-- One word after another, up to a closing character that none of them begins with. -/
def sequence (closing : Char) (words : List (List Char)) : List Char := words.flatten ++ [closing]

theorem PrefixCode.sequence {closing : Char} (h : PrefixCode code) (hclosing : ∀ x, ∃ c cs, code x = c :: cs ∧ c ≠ closing) :
    PrefixCode fun xs : List α => sequence closing (xs.map code) := by
  intro xs
  induction xs with
  | nil =>
    intro ys r s heq
    cases ys with
    | nil => exact ⟨rfl, List.append_cancel_left heq⟩
    | cons y ys =>
      obtain ⟨c, cs, hc, hne⟩ := hclosing y
      simp only [Json.sequence, List.map_cons, List.flatten_cons, hc] at heq
      exact absurd (List.cons.inj heq).1.symm hne
  | cons x xs ih =>
    intro ys r s heq
    cases ys with
    | nil =>
      obtain ⟨c, cs, hc, hne⟩ := hclosing x
      simp only [Json.sequence, List.map_cons, List.flatten_cons, hc] at heq
      exact absurd (List.cons.inj heq).1 hne
    | cons y ys =>
      simp only [Json.sequence, List.map_cons, List.flatten_cons, List.append_assoc] at heq
      obtain ⟨rfl, hrest⟩ := h x y _ _ heq
      obtain ⟨rfl, hrs⟩ := ih ys r s (by simpa only [Json.sequence, List.append_assoc] using hrest)
      exact ⟨rfl, hrs⟩

/-! ### Texts -/

/-- A character of a text that is kept as it is where JSON allows it. -/
def escapedRaw (c : Char) : List Char :=
  if c = '"' ∨ c = '\\' then ['\\', c]
  else if c = '\n' then ['\\', 'n']
  else if c = '\r' then ['\\', 'r']
  else if c = '\t' then ['\\', 't']
  else if c.toNat = 8 then ['\\', 'b']
  else if c.toNat = 12 then ['\\', 'f']
  else if c.toNat < 0x20 then '\\' :: 'u' :: hex 4 c.toNat
  else [c]

/-- A text in double quotes. -/
def quotedRaw (s : String) : List Char := '"' :: sequence '"' (s.toList.map escapedRaw)

/-- The character that an escape of two characters stands for. -/
def shortEscape (c : Char) : Char :=
  if c = 'n' then '\n' else if c = 'r' then '\r' else if c = 't' then '\t' else if c = 'b' then Char.ofNat 8
  else if c = 'f' then Char.ofNat 12 else c

/-- The first character that a text was written for. -/
def readEscaped : List Char → Option (Char × List Char)
  | '\\' :: 'u' :: a :: b :: c :: d :: r =>
      ((List.range 0x20).find? fun n => hex 4 n = [a, b, c, d]).map fun n => (Char.ofNat n, r)
  | '\\' :: c :: r => some (shortEscape c, r)
  | c :: r => some (c, r)
  | [] => none

theorem readEscaped_control {n : Nat} (hn : n < 0x20) (r : List Char) :
    readEscaped ('\\' :: 'u' :: hex 4 n ++ r) = some (Char.ofNat n, r) := by
  have hall : ∀ n < 0x20, (List.range 0x20).find? (fun m => hex 4 m = hex 4 n) = some n := by decide
  have hword : hex 4 n = [hexDigit (n / 16 ^ 3 % 16), hexDigit (n / 16 ^ 2 % 16), hexDigit (n / 16 ^ 1 % 16),
      hexDigit (n / 16 ^ 0 % 16)] := rfl
  have hfind := hall n hn
  rw [hword] at hfind ⊢
  show Option.map _ _ = _
  rw [hfind, Option.map_some]
  rfl

theorem readEscaped_escapedRaw (c : Char) (r : List Char) : readEscaped (escapedRaw c ++ r) = some (c, r) := by
  unfold escapedRaw
  split_ifs with hquote hn hr ht hb hf hcontrol
  · rcases hquote with rfl | rfl <;> rfl
  · subst hn; rfl
  · subst hr; rfl
  · subst ht; rfl
  · rw [← Char.ofNat_toNat c, hb]; rfl
  · rw [← Char.ofNat_toNat c, hf]; rfl
  · rw [readEscaped_control hcontrol, Char.ofNat_toNat]
  · rw [not_or] at hquote
    rw [List.singleton_append, readEscaped]
    · simp [hquote.2]
    · simp [hquote.2]

theorem prefixCode_escapedRaw : PrefixCode escapedRaw := prefixCode_of_read readEscaped_escapedRaw

theorem prefixCode_quotedRaw : PrefixCode quotedRaw := by
  have hhead : ∀ c, ∃ d ds, escapedRaw c = d :: ds ∧ d ≠ '"' := by
    intro c
    unfold escapedRaw
    split_ifs with hquote
    case neg => exact ⟨c, [], rfl, fun h => hquote (.inl h)⟩
    all_goals exact ⟨'\\', _, rfl, by decide⟩
  have hbody := prefixCode_escapedRaw.sequence hhead
  intro s t r r' heq
  obtain ⟨hlist, hrest⟩ := hbody s.toList t.toList r r' (List.cons.inj heq).2
  exact ⟨String.toList_inj.mp hlist, hrest⟩

/-! ### Arrays -/

/-- An array of values that are written already. -/
def array : List (List Char) → List Char
  | [] => ['[', ']']
  | word :: words => '[' :: word ++ sequence ']' (words.map (',' :: ·))

theorem PrefixCode.array (h : PrefixCode code) (hclosing : ∀ x, ∃ c cs, code x = c :: cs ∧ c ≠ ']') :
    PrefixCode fun xs : List α => array (xs.map code) := by
  have hrest : PrefixCode fun xs : List α => Json.sequence ']' (xs.map fun x => ',' :: code x) := by
    have hcomma := h.between [','] []
    simp only [List.append_nil, List.singleton_append] at hcomma
    exact hcomma.sequence fun x => ⟨',', _, rfl, by decide⟩
  intro xs ys r s heq
  cases xs with
  | nil =>
    cases ys with
    | nil => exact ⟨rfl, List.append_cancel_left heq⟩
    | cons y ys =>
      obtain ⟨c, cs, hc, hne⟩ := hclosing y
      simp only [Json.array, List.map_cons, hc] at heq
      exact absurd (List.cons.inj (List.cons.inj heq).2).1.symm hne
  | cons x xs =>
    cases ys with
    | nil =>
      obtain ⟨c, cs, hc, hne⟩ := hclosing x
      simp only [Json.array, List.map_cons, hc] at heq
      exact absurd (List.cons.inj (List.cons.inj heq).2).1 hne
    | cons y ys =>
      simp only [Json.array, List.map_cons, List.map_map, List.cons_append, List.append_assoc] at heq
      obtain ⟨rfl, hmore⟩ := h x y _ _ (List.cons.inj heq).2
      obtain ⟨rfl, hrs⟩ := hrest xs ys r s hmore
      exact ⟨rfl, hrs⟩

/-- A number that an array ends with. -/
theorem prefixCode_lastNat : PrefixCode fun n : Nat => n.repr.toList ++ [']'] := by
  intro n m r s heq
  have hstop : ∀ k : Nat, ∀ t, ((k.repr.toList ++ [']']) ++ t).takeWhile isDecimal = k.repr.toList := by
    intro k t
    rw [List.append_assoc, List.takeWhile_append_of_pos fun c hc => isDecimal_of_isDigit (isDigit_of_mem_repr hc)]
    exact List.append_nil _
  have hword := hstop n r
  dsimp only at heq
  rw [heq, hstop m s] at hword
  obtain rfl : n = m := by
    have hnum := number?_repr n
    rw [← hword, number?_repr] at hnum
    exact (Option.some.inj hnum).symm
  exact ⟨rfl, List.append_cancel_left heq⟩

end Json
