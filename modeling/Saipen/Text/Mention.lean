import Saipen.Text.Scan

/-! # Numbers mentioned in brackets

`[E-12]` and `[T-7]` in running text: a bracket, a letter, a dash, decimal digits and the closing
bracket. No mention opens inside another one, so scanning the text at every place finds what a search
from left to right finds. -/

namespace Text

/-- `\d+\]` at the beginning of a text. -/
def closedNumber (cs : List Char) : Option Nat :=
  if (cs.dropWhile isDecimal).head? = some ']' then number? (cs.takeWhile isDecimal) else none

/-- A mention at the beginning of a text. -/
def mentionAt (letter : Char) : List Char → Option Nat
  | '[' :: c :: '-' :: cs => if c = letter then closedNumber cs else none
  | _ => none

/-- `re.findall(r"\[X-(\d+)\]", text)`. -/
def mentions (letter : Char) (cs : List Char) : List Nat := cs.tails.filterMap (mentionAt letter)

variable {letter : Char} {cs : List Char} {n : Nat}

theorem closedNumber_eq_some_iff :
    closedNumber cs = some n ↔ ∃ ds rest, cs = ds ++ ']' :: rest ∧ number? ds = some n := by
  unfold closedNumber
  constructor
  · intro h
    split at h
    case isFalse => cases h
    case isTrue hclose =>
      obtain ⟨rest, hrest⟩ := List.head?_eq_some_iff.mp hclose
      refine ⟨cs.takeWhile isDecimal, rest, ?_, h⟩
      rw [← hrest, List.takeWhile_append_dropWhile]
  · rintro ⟨ds, rest, rfl, hds⟩
    have hdecimal : ∀ c ∈ ds, isDecimal c = true := fun c hc => isDecimal_of_number? hds hc
    have hclose : isDecimal ']' = false := by decide
    rw [List.dropWhile_append_of_pos hdecimal, List.takeWhile_append_of_pos hdecimal,
      List.dropWhile_cons_of_neg (by simp [hclose]), List.takeWhile_cons_of_neg (by simp [hclose]),
      List.append_nil, List.head?_cons, if_pos rfl, hds]

theorem mentionAt_eq_some_iff :
    mentionAt letter cs = some n ↔
      ∃ ds rest, cs = '[' :: letter :: '-' :: (ds ++ ']' :: rest) ∧ number? ds = some n := by
  constructor
  · intro h
    unfold mentionAt at h
    split at h
    case h_2 => cases h
    case h_1 c cs =>
      split at h
      case isFalse => cases h
      case isTrue hc =>
        obtain ⟨ds, rest, rfl, hds⟩ := closedNumber_eq_some_iff.mp h
        exact ⟨ds, rest, by rw [hc], hds⟩
  · rintro ⟨ds, rest, rfl, hds⟩
    rw [mentionAt, if_pos rfl]
    exact closedNumber_eq_some_iff.mpr ⟨ds, rest, rfl, hds⟩

theorem mentions_cons (c : Char) (cs : List Char) :
    mentions letter (c :: cs) = (mentionAt letter (c :: cs)).toList ++ mentions letter cs := by
  rw [mentions, List.tails_cons, List.filterMap_cons]
  cases mentionAt letter (c :: cs) with
  | none => rfl
  | some n => rfl

theorem mentions_nil : mentions letter [] = [] := rfl

theorem mem_mentions_iff :
    n ∈ mentions letter cs ↔
      ∃ pre ds rest, cs = pre ++ '[' :: letter :: '-' :: (ds ++ ']' :: rest) ∧
        number? ds = some n := by
  rw [mentions, List.mem_filterMap]
  constructor
  · rintro ⟨t, ht, hn⟩
    obtain ⟨pre, rfl⟩ := List.mem_tails _ _ |>.mp ht
    obtain ⟨ds, rest, rfl, hds⟩ := mentionAt_eq_some_iff.mp hn
    exact ⟨pre, ds, rest, rfl, hds⟩
  · rintro ⟨pre, ds, rest, rfl, hds⟩
    exact ⟨_, (List.mem_tails _ _).mpr ⟨pre, rfl⟩, mentionAt_eq_some_iff.mpr ⟨ds, rest, rfl, hds⟩⟩

/-! ### Texts around a text -/

theorem mentionAt_of_ne {c : Char} (h : c ≠ '[') : mentionAt letter (c :: cs) = none := by
  unfold mentionAt
  split
  case h_1 heq => exact absurd (List.cons.inj heq).1 h
  case h_2 => rfl

/-- Nothing is mentioned in front of the first bracket. -/
theorem mentions_append_of_open {pre : List Char} (h : '[' ∉ pre) :
    mentions letter (pre ++ cs) = mentions letter cs := by
  induction pre with
  | nil => rfl
  | cons c pre ih =>
    rw [List.mem_cons, not_or] at h
    rw [List.cons_append, mentions_cons, mentionAt_of_ne (Ne.symm h.1), ih h.2]
    rfl

theorem mentions_eq_nil_of_open (h : '[' ∉ cs) : mentions letter cs = [] := by
  rw [← List.append_nil cs, mentions_append_of_open h, mentions_nil]

theorem mentions_eq_nil_of_close (h : ']' ∉ cs) : mentions letter cs = [] := by
  rw [List.eq_nil_iff_forall_not_mem]
  intro n hn
  obtain ⟨pre, ds, rest, rfl, -⟩ := mem_mentions_iff.mp hn
  exact h (by simp)

/-- A mention that begins in a text stands in it as a whole, or no bracket opens behind its own. -/
theorem mentionAt_append {ws : List Char} (hl : letter ≠ '[')
    (h : mentionAt letter (cs ++ ws) = some n) :
    mentionAt letter cs = some n ∨ ('[' ∉ cs.tail ∧ ']' ∈ ws) := by
  obtain ⟨ds, rest, heq, hds⟩ := mentionAt_eq_some_iff.mp h
  have hpattern : cs ++ ws = ('[' :: letter :: '-' :: ds) ++ ']' :: rest := by rw [heq]; simp
  have hopen : '[' ∉ letter :: '-' :: ds := by
    rw [List.mem_cons, List.mem_cons, not_or, not_or]
    refine ⟨Ne.symm hl, by decide, fun hmem => ?_⟩
    exact absurd (isDecimal_of_number? hds hmem) (by decide)
  have hpart : ∀ part, '[' :: letter :: '-' :: ds = cs ++ part → '[' ∉ cs.tail := by
    intro part hcs hmem
    cases cs with
    | nil => cases hmem
    | cons c cs =>
      rw [List.cons_append, List.cons.injEq] at hcs
      exact hopen (hcs.2 ▸ List.mem_append_left _ hmem)
  -- the closing bracket stands in the text, or behind it
  rcases List.append_eq_append_iff.mp hpattern with ⟨part, hcs, hws⟩ | ⟨part, hcs, hws⟩
  · exact .inr ⟨hpart part hcs, by simp [hws]⟩
  · cases part with
    | nil => 
      rw [List.append_nil] at hcs
      refine .inr ⟨hpart [] (by rw [List.append_nil, hcs]), ?_⟩
      rw [List.nil_append] at hws
      exact hws ▸ List.mem_cons_self
    | cons c part =>
      obtain ⟨rfl, -⟩ := List.cons.inj hws
      exact .inl (mentionAt_eq_some_iff.mpr ⟨ds, part, by rw [hcs]; simp, hds⟩)

theorem mentionAt_append_of_some {ws : List Char} (h : mentionAt letter cs = some n) :
    mentionAt letter (cs ++ ws) = some n := by
  obtain ⟨ds, rest, rfl, hds⟩ := mentionAt_eq_some_iff.mp h
  exact mentionAt_eq_some_iff.mpr ⟨ds, rest ++ ws, by simp, hds⟩

/-- What a text mentions is mentioned first in every text that begins with it. -/
theorem mentions_append (hl : letter ≠ '[') (cs ws : List Char) :
    ∃ more, mentions letter (cs ++ ws) = mentions letter cs ++ more := by
  induction cs with
  | nil => exact ⟨_, rfl⟩
  | cons c cs ih =>
    obtain ⟨more, hmore⟩ := ih
    rw [List.cons_append, mentions_cons, mentions_cons, hmore, ← List.cons_append]
    cases hat : mentionAt letter (c :: cs) with
    | some n =>
      rw [mentionAt_append_of_some hat]
      exact ⟨more, by simp⟩
    | none =>
      cases hat' : mentionAt letter ((c :: cs) ++ ws) with
      | none => exact ⟨more, by simp⟩
      | some m =>
        -- the mention is cut short, so the rest of the text mentions nothing
        rcases mentionAt_append hl hat' with h | ⟨hopen, -⟩
        · rw [hat] at h
          cases h
        · rw [mentions_eq_nil_of_open (by simpa using hopen)]
          exact ⟨_, rfl⟩

/-- Nothing is mentioned behind the last bracket. -/
theorem mentions_append_of_close (hl : letter ≠ '[') {ws : List Char} (h : ']' ∉ ws) :
    mentions letter (cs ++ ws) = mentions letter cs := by
  induction cs with
  | nil => rw [List.nil_append, mentions_eq_nil_of_close h, mentions_nil]
  | cons c cs ih =>
    have hat : mentionAt letter ((c :: cs) ++ ws) = mentionAt letter (c :: cs) := by
      cases hat : mentionAt letter (c :: cs) with
      | some n => exact mentionAt_append_of_some hat
      | none =>
        rw [Option.eq_none_iff_forall_ne_some]
        intro m hm
        rcases mentionAt_append hl hm with h' | ⟨-, hclose⟩
        · rw [hat] at h'
          cases h'
        · exact h hclose
    rw [List.cons_append, mentions_cons, mentions_cons, ih, ← List.cons_append, hat]

/-! ### Escaped texts -/

/-- A way of escaping characters that leaves the characters of a mention alone. -/
structure Escapes (letter : Char) (esc : Char → List Char) : Prop where
  cases : ∀ c, esc c = [c] ∨ ∃ tail, esc c = '\\' :: tail ∧ '[' ∉ tail
  own : ∀ c ∈ ['[', letter, '-', ']'], esc c = [c]
  decimal : ∀ c, isDecimal c = true → esc c = [c]

variable {esc : Char → List Char}

theorem flatMap_eq_append (he : Escapes letter esc) {u v : List Char} (hu : '\\' ∉ u) :
    ∀ cs, cs.flatMap esc = u ++ v → ∃ rest, cs = u ++ rest ∧ rest.flatMap esc = v := by
  induction u with
  | nil => exact fun cs h => ⟨cs, rfl, h⟩
  | cons d u ih =>
    intro cs h
    rw [List.mem_cons, not_or] at hu
    cases cs with
    | nil => cases h
    | cons c cs =>
      rw [List.flatMap_cons] at h
      rcases he.cases c with hc | ⟨tail, hc, -⟩
      · rw [hc, List.singleton_append, List.cons_append, List.cons.injEq] at h
        obtain ⟨rest, rfl, hrest⟩ := ih hu.2 cs h.2
        exact ⟨rest, by rw [h.1]; rfl, hrest⟩
      · rw [hc, List.cons_append, List.cons_append, List.cons.injEq] at h
        exact absurd h.1 hu.1

theorem flatMap_self {u : List Char} (hu : ∀ c ∈ u, esc c = [c]) : u.flatMap esc = u := by
  induction u with
  | nil => rfl
  | cons c u ih =>
    rw [List.flatMap_cons, hu c List.mem_cons_self, ih fun d hd => hu d (List.mem_cons_of_mem _ hd)]
    rfl

theorem mentionAt_flatMap (hl : letter ≠ '\\') (he : Escapes letter esc) (cs : List Char) :
    mentionAt letter (cs.flatMap esc) = mentionAt letter cs := by
  have hpattern : ∀ ds rest : List Char, '[' :: letter :: '-' :: (ds ++ ']' :: rest) =
      ('[' :: letter :: '-' :: (ds ++ [']'])) ++ rest := by simp
  ext n
  rw [mentionAt_eq_some_iff, mentionAt_eq_some_iff]
  constructor
  · rintro ⟨ds, rest, heq, hds⟩
    have hslash : '\\' ∉ '[' :: letter :: '-' :: (ds ++ [']']) := by
      have hmem : '\\' ∉ ds := fun h => absurd (isDecimal_of_number? hds h) (by decide)
      simp [hmem, Ne.symm hl]
    rw [hpattern] at heq
    obtain ⟨rest', rfl, -⟩ := flatMap_eq_append he hslash cs heq
    exact ⟨ds, rest', (hpattern ds rest').symm, hds⟩
  · rintro ⟨ds, rest, rfl, hds⟩
    have hself : ∀ c ∈ '[' :: letter :: '-' :: (ds ++ [']']), esc c = [c] := by
      intro c hc
      by_cases hmem : c ∈ ds
      · exact he.decimal c (isDecimal_of_number? hds hmem)
      · refine he.own c ?_
        simp only [List.mem_cons, List.mem_append, hmem, false_or, List.not_mem_nil, or_false] at hc ⊢
        exact hc
    refine ⟨ds, rest.flatMap esc, ?_, hds⟩
    rw [hpattern ds rest, List.flatMap_append, flatMap_self hself]
    exact (hpattern ds (rest.flatMap esc)).symm

/-- A text and its escaped form mention the same. -/
theorem mentions_flatMap (hl : letter ≠ '\\') (he : Escapes letter esc) (cs : List Char) :
    mentions letter (cs.flatMap esc) = mentions letter cs := by
  induction cs with
  | nil => rfl
  | cons c cs ih =>
    have hat := mentionAt_flatMap hl he (c :: cs)
    rw [List.flatMap_cons] at hat ⊢
    rcases he.cases c with hc | ⟨tail, hc, htail⟩
    · rw [hc, List.singleton_append] at hat ⊢
      rw [mentions_cons, mentions_cons, hat, ih]
    · -- an escaped character opens no mention, and neither does its escape
      have hopen : '[' ∉ esc c := by
        rw [hc, List.mem_cons, not_or]
        exact ⟨by decide, htail⟩
      have hne : c ≠ '[' := by
        rintro rfl
        rw [he.own '[' (by simp)] at hopen
        exact hopen List.mem_cons_self
      rw [mentions_append_of_open hopen, mentions_cons, mentionAt_of_ne hne, ih]
      rfl

end Text
