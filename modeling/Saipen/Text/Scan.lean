import Saipen.Text
import Mathlib.Data.List.TakeWhile
import Mathlib.Data.Nat.Digits.Defs

/-! # Scanning a list of characters

The pieces the line grammars are read with: a literal, everything up to a closing character, and a
run of decimal digits. Each has an exact inversion lemma, so that a grammar assembled from them can
be read in both directions. `isDecimal` is the `\d` of a Unicode pattern, and `toInt` is `int`. -/

namespace Text

/-! ### Literals -/

/-- What follows a literal at the start of the input. -/
def literal : List Char → List Char → Option (List Char)
  | [], cs => some cs
  | p :: ps, c :: cs => if p = c then literal ps cs else none
  | _ :: _, [] => none

theorem literal_eq_some_iff {pre cs rest : List Char} :
    literal pre cs = some rest ↔ cs = pre ++ rest := by
  induction pre generalizing cs with
  | nil => simp [literal, eq_comm]
  | cons p ps ih =>
    cases cs with
    | nil => simp [literal]
    | cons c cs =>
      by_cases h : p = c
      · subst h
        simp [literal, ih]
      · simp [literal, h, Ne.symm h]

@[simp] theorem literal_append (pre rest : List Char) : literal pre (pre ++ rest) = some rest :=
  literal_eq_some_iff.mpr rfl

/-! ### Up to a closing character -/

/-- The characters before the first `stop`, and those behind it. -/
def untilChar (stop : Char) : List Char → Option (List Char × List Char)
  | [] => none
  | c :: cs => if c = stop then some ([], cs) else (untilChar stop cs).map fun r => (c :: r.1, r.2)

theorem untilChar_eq_some_iff {stop : Char} {cs body rest : List Char} :
    untilChar stop cs = some (body, rest) ↔ stop ∉ body ∧ cs = body ++ stop :: rest := by
  induction cs generalizing body with
  | nil => simp [untilChar]
  | cons c cs ih =>
    by_cases h : c = stop
    · subst h
      cases body with
      | nil => simp [untilChar]
      | cons b body =>
        simp only [untilChar, if_true, Option.some.injEq, Prod.mk.injEq, List.mem_cons,
          List.cons_append, List.cons.injEq]
        constructor
        · rintro ⟨h, -⟩
          cases h
        · rintro ⟨hnot, rfl, -⟩
          exact absurd (Or.inl rfl) hnot
    · rw [untilChar, if_neg h]
      cases body with
      | nil =>
        simp only [Option.map_eq_some_iff, Prod.mk.injEq, reduceCtorEq, false_and, and_false,
          exists_false, List.nil_append, List.cons.injEq, h, List.not_mem_nil, not_false_iff]
      | cons b body =>
        rw [Option.map_eq_some_iff]
        constructor
        · rintro ⟨⟨body', rest'⟩, hcs, heq⟩
          simp only [Prod.mk.injEq, List.cons.injEq] at heq
          obtain ⟨⟨rfl, rfl⟩, rfl⟩ := heq
          obtain ⟨hnot, rfl⟩ := ih.mp hcs
          exact ⟨by simp [hnot, Ne.symm h], rfl⟩
        · rintro ⟨hnot, heq⟩
          simp only [List.cons_append, List.cons.injEq] at heq
          obtain ⟨rfl, rfl⟩ := heq
          exact ⟨(body, rest), ih.mpr ⟨fun hb => hnot (List.mem_cons_of_mem _ hb), rfl⟩, rfl⟩

theorem untilChar_append {stop : Char} {body : List Char} (h : stop ∉ body) (rest : List Char) :
    untilChar stop (body ++ stop :: rest) = some (body, rest) :=
  untilChar_eq_some_iff.mpr ⟨h, rfl⟩

/-! ### Lines -/

/-- No character of the text ends a line. -/
def OneLine (cs : List Char) : Prop := ∀ c ∈ cs, isLineBreak c = false

theorem OneLine.append {cs ds : List Char} : OneLine (cs ++ ds) ↔ OneLine cs ∧ OneLine ds := by
  simp only [OneLine, List.mem_append]
  exact ⟨fun h => ⟨fun c hc => h c (.inl hc), fun c hc => h c (.inr hc)⟩,
    fun h c hc => hc.elim (h.1 c) (h.2 c)⟩

theorem OneLine.of_cons {c : Char} {cs : List Char} (h : OneLine (c :: cs)) : OneLine cs :=
  fun d hd => h d (List.mem_cons_of_mem _ hd)

theorem OneLine.takeWhile {cs : List Char} (h : OneLine cs) (p : Char → Bool) :
    OneLine (cs.takeWhile p) := fun c hc => h c ((List.takeWhile_prefix p).subset hc)

theorem OneLine.dropWhile {cs : List Char} (h : OneLine cs) (p : Char → Bool) :
    OneLine (cs.dropWhile p) := fun c hc => h c ((List.dropWhile_suffix p).subset hc)

theorem oneLine_literal {cs : List Char} (h : cs.all (fun c => !isLineBreak c) = true) :
    OneLine cs := fun c hc => by simpa using List.all_eq_true.mp h c hc

theorem OneLine.of_suffix {cs rest : List Char} (h : OneLine cs) (hs : rest <:+ cs) : OneLine rest :=
  fun c hc => h c (hs.subset hc)

theorem OneLine.of_literal {pre cs rest : List Char} (h : OneLine cs)
    (hlit : literal pre cs = some rest) : OneLine rest := by
  rw [literal_eq_some_iff.mp hlit, OneLine.append] at h
  exact h.2

theorem isLineBreak_newline : isLineBreak '\n' = true := by decide

/-- The lines of a text contain no character that ends a line. -/
theorem oneLine_of_mem_linesFrom {cs : List Char} : ∀ {line l : List Char}, OneLine line →
    l ∈ linesFrom line cs → OneLine l := by
  have hreverse : ∀ {line : List Char}, OneLine line → OneLine line.reverse :=
    fun h c hc => h c (List.mem_reverse.mp hc)
  have hcons : ∀ {line : List Char} {c : Char}, OneLine line → isLineBreak c = false →
      OneLine (c :: line) := by
    intro line c h hc d hd
    rcases List.mem_cons.mp hd with rfl | hd
    · exact hc
    · exact h d hd
  induction cs using List.twoStepInduction with
  | nil =>
    intro line l hline hl
    rw [linesFrom] at hl
    split at hl
    · cases hl
    · rw [List.mem_singleton.mp hl]
      exact hreverse hline
  | singleton c =>
    intro line l hline hl
    rw [linesFrom] at hl
    split at hl
    · rw [List.mem_singleton.mp hl]
      exact hreverse hline
    · rename_i hc
      rw [List.mem_singleton.mp hl]
      exact hreverse (hcons hline (by simpa using hc))
  | cons_cons c d cs ih ih' =>
    intro line l hline hl
    rw [linesFrom] at hl
    have hnil : OneLine [] := by simp [OneLine]
    split at hl
    · rcases List.mem_cons.mp hl with rfl | hl
      · exact hreverse hline
      · exact ih hnil hl
    · split at hl
      · rcases List.mem_cons.mp hl with rfl | hl
        · exact hreverse hline
        · exact ih' d hnil hl
      · rename_i hc
        exact ih' d (hcons hline (by simpa using hc)) hl

/-- A character that is no carriage return ends the line or belongs to it. -/
theorem linesFrom_cons {c : Char} (hc : c ≠ '\r') (line cs : List Char) :
    linesFrom line (c :: cs) =
      if isLineBreak c then line.reverse :: linesFrom [] cs else linesFrom (c :: line) cs := by
  cases cs with
  | nil => simp [linesFrom]
  | cons d cs => rw [linesFrom, if_neg (fun hcd => hc hcd.1)]

theorem ne_of_isLineBreak {c : Char} (h : isLineBreak c = false) : c ≠ '\r' := by
  rintro rfl
  exact absurd h (by decide)

/-- Reading a text without line ends. -/
theorem linesFrom_of_oneLine {cs : List Char} (h : OneLine cs) : ∀ line : List Char,
    linesFrom line cs = if line.reverse ++ cs = [] then [] else [line.reverse ++ cs] := by
  induction cs with
  | nil =>
    intro line
    simp [linesFrom]
  | cons c cs ih =>
    intro line
    have hc : isLineBreak c = false := h c List.mem_cons_self
    rw [linesFrom_cons (ne_of_isLineBreak hc), if_neg (by simp [hc]), ih h.of_cons]
    simp

/-- Characters that end no line belong to the line being read. -/
theorem linesFrom_append_oneLine {cs : List Char} (h : OneLine cs) (ds : List Char) :
    ∀ line : List Char, linesFrom line (cs ++ ds) = linesFrom (cs.reverse ++ line) ds := by
  induction cs with
  | nil => exact fun _ => rfl
  | cons c cs ih =>
    intro line
    have hc : isLineBreak c = false := h c List.mem_cons_self
    rw [List.cons_append, linesFrom_cons (ne_of_isLineBreak hc), if_neg (by simp [hc]), ih h.of_cons]
    simp

/-- The first line is what has been read of it with the first characters to come. -/
theorem linesFrom_head (cs : List Char) : ∀ {line : List Char}, line ≠ [] →
    ∃ t ls, linesFrom line cs = (line.reverse ++ t) :: ls ∧ t <+: cs := by
  induction cs using List.twoStepInduction with
  | nil =>
    intro line hline
    rw [linesFrom, if_neg hline]
    exact ⟨[], [], by simp, List.prefix_refl _⟩
  | singleton c =>
    intro line hline
    rw [linesFrom]
    split
    · exact ⟨[], [], by simp, List.nil_prefix⟩
    · exact ⟨[c], [], by simp, List.prefix_refl _⟩
  | cons_cons c d cs _ ih =>
    intro line hline
    rw [linesFrom]
    split
    · exact ⟨[], linesFrom [] cs, by simp, List.nil_prefix⟩
    · split
      · exact ⟨[], linesFrom [] (d :: cs), by simp, List.nil_prefix⟩
      · obtain ⟨t, ls, hl, ht⟩ := ih d (List.cons_ne_nil c line)
        exact ⟨c :: t, ls, by simpa using hl, List.cons_prefix_cons.mpr ⟨rfl, ht⟩⟩

/-- A text that begins with a character of its first line. -/
theorem linesFrom_cons_head {c : Char} (cs : List Char) (hc : isLineBreak c = false) :
    ∃ l ls, linesFrom [] (c :: cs) = (c :: l) :: ls ∧ l <+: cs := by
  rw [linesFrom_cons (ne_of_isLineBreak hc), if_neg (by simp [hc])]
  exact linesFrom_head cs (List.cons_ne_nil c [])

/-- White space in front of a character ends lines of white space, and begins the character's line. -/
theorem linesFrom_spaces {d : Char} (hd : d ≠ '\n') (es : List Char) {ws : List Char} :
    (∀ c ∈ ws, isSpace c = true) → ∀ {line : List Char}, (∀ c ∈ line, isSpace c = true) →
    ∃ pre last, linesFrom line (ws ++ d :: es) = pre ++ linesFrom last (d :: es) ∧
      (∀ l ∈ pre, ∀ c ∈ l, isSpace c = true) ∧ ∀ c ∈ last, isSpace c = true := by
  have hcut : ∀ {line l : List Char} {pre : List (List Char)}, (∀ c ∈ line, isSpace c = true) →
      (∀ l ∈ pre, ∀ c ∈ l, isSpace c = true) → l ∈ line.reverse :: pre → ∀ c ∈ l, isSpace c = true := by
    intro line l pre hline hpre hl
    rcases List.mem_cons.mp hl with rfl | hl
    · exact fun c hc => hline c (List.mem_reverse.mp hc)
    · exact hpre l hl
  have hnil : ∀ c ∈ ([] : List Char), isSpace c = true := List.forall_mem_nil _
  have hnone : ∀ l ∈ ([] : List (List Char)), ∀ c ∈ l, isSpace c = true := List.forall_mem_nil _
  induction ws using List.twoStepInduction with
  | nil => exact fun _ {line} hline => ⟨[], line, rfl, hnone, hline⟩
  | singleton c =>
    intro hws line hline
    rw [List.singleton_append, linesFrom, if_neg fun h => hd h.2]
    split
    · exact ⟨[line.reverse], [], rfl, fun l hl => hcut hline hnone hl, hnil⟩
    · exact ⟨[], c :: line, rfl, hnone,
        (List.forall_mem_cons (p := (isSpace · = true))).mpr ⟨hws c (by simp), hline⟩⟩
  | cons_cons c b ws ih ih' =>
    intro hws line hline
    have hrest : ∀ c ∈ b :: ws, isSpace c = true := fun c hc => hws c (List.mem_cons_of_mem _ hc)
    rw [List.cons_append, List.cons_append, linesFrom]
    split
    · obtain ⟨pre, last, heq, hpre, hlast⟩ :=
        ih (fun c hc => hrest c (List.mem_cons_of_mem _ hc)) hnil
      exact ⟨line.reverse :: pre, last, by rw [heq]; rfl, fun l hl => hcut hline hpre hl, hlast⟩
    · split
      · obtain ⟨pre, last, heq, hpre, hlast⟩ := ih' b hrest hnil
        refine ⟨line.reverse :: pre, last, ?_, fun l hl => hcut hline hpre hl, hlast⟩
        rw [← List.cons_append, heq]
        rfl
      · exact ih' b hrest
          ((List.forall_mem_cons (p := (isSpace · = true))).mpr ⟨hws c List.mem_cons_self, hline⟩)

/-- A text is its own single line when it is not empty and nothing in it ends a line. -/
theorem splitLines_eq_self_iff {s : String} :
    splitLines s = [s] ↔ s ≠ "" ∧ OneLine s.toList := by
  constructor
  · intro h
    have hmem : s.toList ∈ linesFrom [] s.toList := by
      have hs : s ∈ splitLines s := by simp [h]
      obtain ⟨l, hl, rfl⟩ := List.mem_map.mp hs
      simpa using hl
    refine ⟨?_, oneLine_of_mem_linesFrom (by simp [OneLine]) hmem⟩
    rintro rfl
    simp [linesFrom] at hmem
  · rintro ⟨hne, hline⟩
    have hnil : s.toList ≠ [] := fun h => hne (String.toList_eq_nil_iff.mp h)
    rw [splitLines, linesFrom_of_oneLine hline, List.reverse_nil, List.nil_append, if_neg hnil]
    simp

/-- A line with its newline. -/
theorem linesFrom_newline {cs : List Char} (h : OneLine cs) : ∀ line : List Char,
    linesFrom line (cs ++ ['\n']) = [line.reverse ++ cs] := by
  induction cs with
  | nil =>
    intro line
    simp [linesFrom, isLineBreak_newline]
  | cons c cs ih =>
    intro line
    have hc : isLineBreak c = false := h c List.mem_cons_self
    rw [List.cons_append, linesFrom_cons (ne_of_isLineBreak hc), if_neg (by simp [hc]), ih h.of_cons]
    simp

theorem splitLines_newline {s : String} (h : OneLine s.toList) : splitLines (s ++ "\n") = [s] := by
  have hlist : (s ++ "\n").toList = s.toList ++ ['\n'] := by simp
  rw [splitLines, hlist, linesFrom_newline h]
  simp

/-! ### Joining -/

/-- `" ".join`, with every part but the first behind a space. -/
theorem toList_intercalate_space (p : String) (ps : List String) :
    (" ".intercalate (p :: ps)).toList = p.toList ++ ps.flatMap fun q => ' ' :: q.toList := by
  rw [String.toList_intercalate]
  induction ps generalizing p with
  | nil => simp
  | cons q ps ih =>
    rw [List.map_cons, List.map_cons, List.intercalate_cons_cons, ← List.map_cons, ih]
    simp

/-- What `strip` takes off is white space on both sides. -/
theorem strip_parts (s : String) : ∃ pre post, s.toList = pre ++ ((strip s).toList ++ post) ∧
    (∀ c ∈ pre, isSpace c = true) ∧ ∀ c ∈ post, isSpace c = true := by
  have hspace : ∀ cs : List Char, ∀ c ∈ cs.takeWhile isSpace, isSpace c = true :=
    fun cs c hc => List.all_eq_true.mp List.all_takeWhile c hc
  let inner := s.toList.dropWhile isSpace
  refine ⟨s.toList.takeWhile isSpace, (inner.reverse.takeWhile isSpace).reverse, ?_, hspace _, ?_⟩
  · have hinner : inner = (inner.reverse.dropWhile isSpace).reverse ++
        (inner.reverse.takeWhile isSpace).reverse := by
      rw [← List.reverse_append, List.takeWhile_append_dropWhile, List.reverse_reverse]
    rw [strip, String.toList_ofList, ← hinner, List.takeWhile_append_dropWhile]
  · intro c hc
    exact hspace _ c (List.mem_reverse.mp hc)

/-- Nothing is stripped off a text that neither begins nor ends with white space. -/
theorem strip_eq_self {s : String} (hhead : ∀ c ∈ s.toList.head?, isSpace c = false)
    (hlast : ∀ c ∈ s.toList.getLast?, isSpace c = false) : strip s = s := by
  have hkeep : ∀ cs : List Char, (∀ c ∈ cs.head?, isSpace c = false) →
      cs.dropWhile isSpace = cs := by
    intro cs hcs
    cases cs with
    | nil => rfl
    | cons c cs => exact List.dropWhile_cons_of_neg (by simp [hcs c rfl])
  rw [strip, hkeep _ hhead, hkeep _ (by rwa [List.head?_reverse]), List.reverse_reverse,
    String.ofList_toList]

/-- White space on both sides of a text is stripped. -/
theorem strip_padded {s : String} (pre mid post : List Char) (h : s.toList = pre ++ (mid ++ post))
    (hpre : ∀ c ∈ pre, isSpace c = true) (hpost : ∀ c ∈ post, isSpace c = true)
    (hhead : ∀ c ∈ mid.head?, isSpace c = false) (hlast : ∀ c ∈ mid.getLast?, isSpace c = false) :
    strip s = String.ofList mid := by
  have hkeep : ∀ cs : List Char, (∀ c ∈ cs.head?, isSpace c = false) →
      cs.dropWhile isSpace = cs := by
    intro cs hcs
    cases cs with
    | nil => rfl
    | cons c cs => exact List.dropWhile_cons_of_neg (by simp [hcs c rfl])
  have hpost' : ∀ c ∈ post.reverse, isSpace c = true := fun c hc => hpost c (List.mem_reverse.mp hc)
  cases mid with
  | nil =>
    have hall : post.dropWhile isSpace = [] := List.dropWhile_eq_nil_iff.mpr hpost
    rw [strip, h, List.dropWhile_append_of_pos hpre, List.nil_append, hall]
    rfl
  | cons m mid =>
    have hfirst : ((m :: mid) ++ post).dropWhile isSpace = (m :: mid) ++ post :=
      hkeep _ fun c hc => hhead c hc
    rw [strip, h, List.dropWhile_append_of_pos hpre, hfirst, List.reverse_append,
      List.dropWhile_append_of_pos hpost', hkeep _ (by rwa [List.head?_reverse]), List.reverse_reverse]

/-- Stripping leaves what a text opens with, and some of the rest. -/
theorem strip_opening {s : String} {opening rest : List Char} (h : s.toList = opening ++ rest)
    (hne : opening ≠ []) (hhead : ∀ c ∈ opening.head?, isSpace c = false)
    (hlast : ∀ c ∈ opening.getLast?, isSpace c = false) :
    ∃ kept, kept <+: rest ∧ (strip s).toList = opening ++ kept := by
  obtain ⟨pre, post, hparts, hpre, hpost⟩ := strip_parts s
  rw [h] at hparts
  cases pre with
  | cons c pre =>
    have hc : c ∈ opening.head? := by
      cases opening with
      | nil => exact absurd rfl hne
      | cons d opening =>
        rw [List.cons_append, List.cons_append, List.cons.injEq] at hparts
        exact hparts.1 ▸ rfl
    exact absurd (hpre c List.mem_cons_self) (by simp [hhead c hc])
  | nil =>
    rw [List.nil_append] at hparts
    rcases List.append_eq_append_iff.mp hparts.symm with ⟨extra, hwhole, hrest⟩ | ⟨kept, hwhole, hrest⟩
    · cases hextra : extra.getLast? with
      | none =>
        rw [List.getLast?_eq_none_iff] at hextra
        exact ⟨[], List.nil_prefix, by simpa [hextra] using hwhole.symm⟩
      | some c =>
        have hc : c ∈ opening.getLast? := by
          rw [hwhole, List.getLast?_append, hextra]
          rfl
        have hspace := hpost c (hrest ▸ List.mem_append_left _ (List.mem_of_getLast? hextra))
        exact absurd hspace (by simp [hlast c hc])
    · exact ⟨kept, ⟨post, hrest.symm⟩, hwhole⟩

/-- White space in front of a text is stripped. -/
theorem strip_cons {c : Char} (h : isSpace c = true) (cs : List Char) :
    strip (String.ofList (c :: cs)) = strip (String.ofList cs) := by
  rw [strip, strip, String.toList_ofList, String.toList_ofList, List.dropWhile_cons_of_pos h]

/-! ### Decimal numbers -/

/-- The code points of the zero of every script; the other nine digits follow it. -/
def decimalZeros : List Nat :=
  [0x30, 0x660, 0x6f0, 0x7c0, 0x966, 0x9e6, 0xa66, 0xae6, 0xb66, 0xbe6, 0xc66, 0xce6, 0xd66, 0xde6,
    0xe50, 0xed0, 0xf20, 0x1040, 0x1090, 0x17e0, 0x1810, 0x1946, 0x19d0, 0x1a80, 0x1a90, 0x1b50,
    0x1bb0, 0x1c40, 0x1c50, 0xa620, 0xa8d0, 0xa900, 0xa9d0, 0xa9f0, 0xaa50, 0xabf0, 0xff10, 0x104a0,
    0x10d30, 0x11066, 0x110f0, 0x11136, 0x111d0, 0x112f0, 0x11450, 0x114d0, 0x11650, 0x116c0,
    0x11730, 0x118e0, 0x11950, 0x11c50, 0x11d50, 0x11da0, 0x16a60, 0x16ac0, 0x16b50, 0x1d7ce,
    0x1d7d8, 0x1d7e2, 0x1d7ec, 0x1d7f6, 0x1e140, 0x1e2f0, 0x1e950, 0x1fbf0]

/-- The value of a decimal digit of any script. -/
def digit? (c : Char) : Option Nat :=
  (decimalZeros.find? fun z => z ≤ c.toNat && c.toNat < z + 10).map fun z => c.toNat - z

/-- `\d`. -/
def isDecimal (c : Char) : Bool := (digit? c).isSome

/-- `int` of a run of decimal digits. -/
def toInt (cs : List Char) : Nat := cs.foldl (fun n c => 10 * n + (digit? c).getD 0) 0

/-- `\d+`: the number a nonempty run of digits stands for. -/
def number? (cs : List Char) : Option Nat :=
  if cs ≠ [] ∧ cs.all isDecimal then some (toInt cs) else none

theorem isDecimal_of_number? {cs : List Char} {n : Nat} {c : Char} (h : number? cs = some n)
    (hc : c ∈ cs) : isDecimal c = true := by
  unfold number? at h
  split at h
  case isTrue hall => exact List.all_eq_true.mp hall.2 c hc
  case isFalse => cases h

/-- The digits of the decimal system are the first of the table. -/
theorem digit?_of_isDigit {c : Char} (h : c.isDigit = true) : digit? c = some (c.toNat - 48) := by
  have hrange : 48 ≤ c.toNat ∧ c.toNat < 58 := by
    simp only [Char.isDigit, Bool.and_eq_true, decide_eq_true_eq, UInt32.le_iff_toNat_le] at h
    exact ⟨h.1, Nat.lt_succ_of_le h.2⟩
  rw [digit?, decimalZeros, List.find?_cons_of_pos (by simpa using hrange)]
  rfl

theorem isDecimal_of_isDigit {c : Char} (h : c.isDigit = true) : isDecimal c = true := by
  rw [isDecimal, digit?_of_isDigit h]
  rfl

/-- No digit is white space. -/
theorem isSpace_of_isDecimal {c : Char} (h : isDecimal c = true) : isSpace c = false := by
  by_contra hspace
  have hcases : c.toNat ∈ [9, 10, 11, 12, 13, 28, 29, 30, 31, 32, 0x85, 0xa0, 0x1680, 0x2000, 0x2001,
      0x2002, 0x2003, 0x2004, 0x2005, 0x2006, 0x2007, 0x2008, 0x2009, 0x200a, 0x2028, 0x2029, 0x202f,
      0x205f, 0x3000] := by
    simp only [Bool.not_eq_false, isSpace, Bool.or_eq_true, Bool.and_eq_true, decide_eq_true_eq,
      beq_iff_eq] at hspace
    simp only [List.mem_cons, List.not_mem_nil, or_false]
    omega
  have hnone : ∀ n ∈ [9, 10, 11, 12, 13, 28, 29, 30, 31, 32, 0x85, 0xa0, 0x1680, 0x2000, 0x2001,
      0x2002, 0x2003, 0x2004, 0x2005, 0x2006, 0x2007, 0x2008, 0x2009, 0x200a, 0x2028, 0x2029, 0x202f,
      0x205f, 0x3000], isDecimal (Char.ofNat n) = false := by decide
  rw [← Char.ofNat_toNat c, hnone c.toNat hcases] at h
  cases h

theorem isSpace_of_isLineBreak {c : Char} (h : isLineBreak c = true) : isSpace c = true := by
  simp only [isLineBreak, Bool.or_eq_true, Bool.and_eq_true, decide_eq_true_eq, beq_iff_eq] at h
  simp only [isSpace, Bool.or_eq_true, Bool.and_eq_true, decide_eq_true_eq, beq_iff_eq]
  omega

/-- No digit ends a line. -/
theorem isLineBreak_of_isDecimal {c : Char} (h : isDecimal c = true) : isLineBreak c = false := by
  by_contra hbreak
  have hspace := isSpace_of_isLineBreak (by simpa using hbreak)
  rw [isSpace_of_isDecimal h] at hspace
  cases hspace

theorem toInt_eq_ofDigitChars {cs : List Char} (h : ∀ c ∈ cs, c.isDigit = true) :
    toInt cs = Nat.ofDigitChars 10 cs 0 := by
  have hfold : ∀ n, cs.foldl (fun n c => 10 * n + (digit? c).getD 0) n =
      cs.foldl (fun n c => 10 * n + (c.toNat - '0'.toNat)) n := by
    induction cs with
    | nil => exact fun n => rfl
    | cons c cs ih =>
      intro n
      rw [List.foldl_cons, List.foldl_cons, digit?_of_isDigit (h c List.mem_cons_self)]
      exact ih (fun d hd => h d (List.mem_cons_of_mem _ hd)) _
  rw [toInt, Nat.ofDigitChars_eq_foldl]
  exact hfold 0

theorem isDigit_of_mem_repr {n : Nat} {c : Char} (h : c ∈ n.repr.toList) : c.isDigit = true := by
  rw [Nat.toList_repr] at h
  exact Nat.isDigit_of_mem_toDigits (by decide) (by decide) h

theorem oneLine_repr (n : Nat) : OneLine n.repr.toList := fun _ hc =>
  isLineBreak_of_isDecimal (isDecimal_of_isDigit (isDigit_of_mem_repr hc))

/-- Reading a number back from its decimal text. -/
theorem number?_repr (n : Nat) : number? n.repr.toList = some n := by
  have hdigits : ∀ c ∈ n.repr.toList, c.isDigit = true := fun c hc => isDigit_of_mem_repr hc
  have hall : n.repr.toList.all isDecimal = true := by
    rw [List.all_eq_true]
    exact fun c hc => isDecimal_of_isDigit (hdigits c hc)
  have hne : n.repr.toList ≠ [] := by
    rw [Nat.toList_repr]
    exact Nat.toDigits_ne_nil
  rw [number?, if_pos ⟨hne, hall⟩, toInt_eq_ofDigitChars hdigits, Nat.toList_repr,
    Nat.ofDigitChars_ten_toDigits]

end Text
