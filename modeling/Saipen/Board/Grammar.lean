import Saipen.Board.Parse

/-! # Bars and escapes

A row is cut at its bars, and a bar that belongs to a value is escaped. The parts of a row that no bar
begins in are the parts it is cut into again, and what an escape stands for is what is read. -/

namespace Saipen.Board

open Text

/-! ### Cutting at bars -/

/-- The bar between two parts of a row. -/
def bar : List Char := [' ', '|', ' ']

/-- `" | ".join`. -/
def joinBars (parts : List (List Char)) : List Char := bar.intercalate parts

@[simp] theorem joinBars_singleton (part : List Char) : joinBars [part] = part :=
  List.intercalate_singleton

theorem joinBars_cons_cons (part next : List Char) (parts : List (List Char)) :
    joinBars (part :: next :: parts) = part ++ (bar ++ joinBars (next :: parts)) := by
  rw [joinBars, List.intercalate_cons_cons, List.append_assoc, joinBars]

/-- No bar begins in the part when one is put behind it. -/
def Closed (part : List Char) : Prop := ¬ bar <:+: part ++ [' ', '|']

instance (part : List Char) : Decidable (Closed part) := inferInstanceAs (Decidable (¬ _))

theorem splitBars_ne_nil (cs : List Char) : splitBars cs ≠ [] := by
  unfold splitBars
  split
  · exact List.cons_ne_nil _ _
  · split <;> exact List.cons_ne_nil _ _
  · exact List.cons_ne_nil _ _

theorem splitBars_bar (cs : List Char) : splitBars (bar ++ cs) = [] :: splitBars cs := by
  simp [bar, splitBars]

/-- A character that no bar begins at belongs to the first part. -/
theorem splitBars_cons {c : Char} {cs : List Char} (h : ¬ bar <+: c :: cs) {part : List Char}
    {parts : List (List Char)} (hcs : splitBars cs = part :: parts) :
    splitBars (c :: cs) = (c :: part) :: parts := by
  rw [splitBars.eq_def]
  split
  case h_1 heq =>
    rw [heq] at h
    exact absurd (List.prefix_append bar _) h
  case h_2 heq =>
    obtain ⟨rfl, rfl⟩ := List.cons.inj heq
    rw [hcs]
  case h_3 heq => cases heq

/-- A text without a bar is one part. -/
theorem splitBars_of_not_isInfix {cs : List Char} (h : ¬ bar <:+: cs) : splitBars cs = [cs] := by
  induction cs with
  | nil => rfl
  | cons c cs ih =>
    have htail : ¬ bar <:+: cs := fun hin => h (List.IsInfix.trans hin (List.suffix_cons c cs).isInfix)
    exact splitBars_cons (fun hpre => h hpre.isInfix) (ih htail)

/-- What is put together from its parts again. -/
theorem joinBars_splitBars (cs : List Char) : joinBars (splitBars cs) = cs := by
  induction cs using splitBars.induct with
  | case1 cs ih =>
    obtain ⟨part, parts, hparts⟩ := List.exists_cons_of_ne_nil (splitBars_ne_nil cs)
    rw [splitBars, hparts, joinBars_cons_cons, ← hparts, ih]
    rfl
  | case2 c cs hne part parts hparts ih =>
    rw [splitBars_cons _ hparts]
    · rw [hparts] at ih
      cases parts with
      | nil => simpa using ih
      | cons q parts =>
        rw [joinBars_cons_cons] at ih ⊢
        simpa using ih
    · rintro ⟨rest, hrest⟩
      obtain ⟨rfl, rfl⟩ := List.cons.inj hrest.symm
      exact hne rest rfl rfl
  | case3 c cs hne hnil ih => exact absurd hnil (splitBars_ne_nil cs)
  | case4 => rfl

theorem Closed.tail {c : Char} {part : List Char} (h : Closed (c :: part)) : Closed part :=
  fun hin => h (List.IsInfix.trans hin (List.suffix_cons c _).isInfix)

theorem Closed.not_isInfix {part : List Char} (h : Closed part) : ¬ bar <:+: part :=
  fun hin => h (List.IsInfix.trans hin (List.prefix_append part _).isInfix)

/-- A closed part is cut off at the bar behind it. -/
theorem splitBars_append {part : List Char} (h : Closed part) (cs : List Char) :
    splitBars (part ++ (bar ++ cs)) = part :: splitBars cs := by
  induction part with
  | nil => exact splitBars_bar cs
  | cons c part ih =>
    refine splitBars_cons (fun hpre => h ?_) (ih h.tail)
    have hlong : (c :: part) ++ [' ', '|'] <+: c :: (part ++ (bar ++ cs)) :=
      ⟨' ' :: cs, by simp [bar]⟩
    exact (List.prefix_of_prefix_length_le hpre hlong (by simp [bar])).isInfix

/-- The parts of a row stay apart: each one is closed, and no bar begins in the last one. -/
def Cut : List (List Char) → Prop
  | [] => True
  | [part] => ¬ bar <:+: part
  | part :: next :: parts => Closed part ∧ Cut (next :: parts)

theorem cut_cons {part : List Char} {parts : List (List Char)} (h : parts ≠ []) :
    Cut (part :: parts) ↔ Closed part ∧ Cut parts := by
  obtain ⟨next, parts, rfl⟩ := List.exists_cons_of_ne_nil h
  rfl

theorem Cut.tail {part : List Char} {parts : List (List Char)} (h : Cut (part :: parts)) : Cut parts := by
  cases parts with
  | nil => trivial
  | cons next parts => exact h.2

/-- A text without bars in front of a part lets none begin. -/
theorem not_isInfix_prepend {cs ds : List Char} (hcs : '|' ∉ cs) (h : ¬ bar <:+: ' ' :: ds) :
    ¬ bar <:+: cs ++ ds := by
  induction cs with
  | nil => exact fun hin => h (List.IsInfix.trans hin (List.suffix_cons _ _).isInfix)
  | cons c cs ih =>
    intro hin
    rw [List.cons_append, List.infix_cons_iff] at hin
    rcases hin with ⟨rest, hrest⟩ | hin
    · -- The bar itself would have to stand in front.
      cases cs with
      | nil =>
        have hc : c = ' ' := (List.cons.inj hrest).1.symm
        rw [List.nil_append, hc] at hrest
        exact h (List.IsPrefix.isInfix ⟨rest, hrest⟩)
      | cons d cs =>
        have hd : '|' = d := (List.cons.inj (List.cons.inj hrest).2).1
        exact hcs (by rw [← hd]; simp)
    · exact ih (fun hmem => hcs (List.mem_cons_of_mem _ hmem)) hin

theorem Cut.prepend {cs part : List Char} {parts : List (List Char)} (hcs : '|' ∉ cs)
    (h : Cut ((' ' :: part) :: parts)) : Cut ((cs ++ part) :: parts) := by
  cases parts with
  | nil => exact not_isInfix_prepend hcs h
  | cons next parts =>
    refine ⟨?_, h.2⟩
    have hclosed : ¬ bar <:+: ' ' :: (part ++ [' ', '|']) := h.1
    have := not_isInfix_prepend hcs hclosed
    rwa [← List.append_assoc] at this

theorem cut_concat_iff {init : List (List Char)} {last : List Char} :
    Cut (init ++ [last]) ↔ (∀ p ∈ init, Closed p) ∧ ¬ bar <:+: last := by
  induction init with
  | nil => exact ⟨fun h => ⟨List.forall_mem_nil _, h⟩, fun h => h.2⟩
  | cons part init ih =>
    rw [List.cons_append, cut_cons (by simp), ih, List.forall_mem_cons, and_assoc]

theorem cut_of_closed {parts : List (List Char)} (h : ∀ p ∈ parts, Closed p) : Cut parts := by
  induction parts with
  | nil => trivial
  | cons part parts ih =>
    have hrest := ih fun p hp => h p (List.mem_cons_of_mem _ hp)
    cases parts with
    | nil => exact (h part List.mem_cons_self).not_isInfix
    | cons next parts => exact ⟨h part List.mem_cons_self, hrest⟩

/-- Parts that stay apart and end closed are closed. -/
theorem Cut.closed {parts : List (List Char)} (h : Cut parts) (hlast : ∀ p ∈ parts.getLast?, Closed p) :
    ∀ p ∈ parts, Closed p := by
  induction parts with
  | nil => exact List.forall_mem_nil _
  | cons part parts ih =>
    cases parts with
    | nil =>
      intro p hp
      rw [List.mem_singleton.mp hp]
      exact hlast part rfl
    | cons next parts =>
      rw [List.getLast?_cons_cons] at hlast
      exact (List.forall_mem_cons (p := Closed)).mpr ⟨h.1, ih h.2 hlast⟩

/-- Parts may be left out. -/
theorem Cut.filter {part : List Char} {parts : List (List Char)} (h : Cut (part :: parts))
    (keep : List Char → Bool) : Cut (part :: parts.filter keep) := by
  induction parts generalizing part with
  | nil => exact h
  | cons next parts ih =>
    by_cases hkeep : keep next = true
    · rw [List.filter_cons_of_pos hkeep]
      exact ⟨h.1, ih h.2⟩
    · rw [List.filter_cons_of_neg hkeep]
      refine ih ?_
      cases parts with
      | nil => exact h.1.not_isInfix
      | cons later parts => exact ⟨h.1, h.2.2⟩

/-- No bar begins in a part that holds none and ends with none. -/
theorem closed_of_not_isInfix {part : List Char} (h : ¬ bar <:+: part) (hend : ¬ bar <:+ part ++ [' ']) :
    Closed part := by
  intro hin
  rw [show part ++ [' ', '|'] = part ++ [' '] ++ ['|'] by simp, List.infix_concat_iff,
    List.infix_concat_iff] at hin
  rcases hin with ⟨pre, hpre⟩ | hin | hin
  · have := congrArg List.getLast? hpre
    simp [bar] at this
  · exact hend hin
  · exact h hin

/-- A character that no bar begins at may stand in front. -/
theorem Cut.cons_char {c : Char} {part : List Char} {parts : List (List Char)} (h : Cut (part :: parts))
    (hbar : ¬ bar <+: c :: joinBars (part :: parts)) : Cut ((c :: part) :: parts) := by
  cases parts with
  | nil =>
    rw [joinBars_singleton] at hbar
    intro hin
    rcases List.infix_cons_iff.mp hin with hpre | hin
    · exact hbar hpre
    · exact h hin
  | cons next parts =>
    refine ⟨fun hin => ?_, h.2⟩
    rw [List.cons_append] at hin
    rcases List.infix_cons_iff.mp hin with hpre | hin
    · refine hbar (hpre.trans ?_)
      rw [joinBars_cons_cons]
      exact ⟨' ' :: joinBars (next :: parts), by simp [bar]⟩
    · exact h.1 hin

/-- What a text is cut into stays apart. -/
theorem cut_splitBars (cs : List Char) : Cut (splitBars cs) := by
  induction cs using splitBars.induct with
  | case1 cs ih =>
    rw [splitBars, cut_cons (splitBars_ne_nil cs)]
    exact ⟨by decide, ih⟩
  | case2 c cs hne part parts hparts ih =>
    have hbar : ¬ bar <+: c :: cs := by
      rintro ⟨rest, hrest⟩
      obtain ⟨rfl, rfl⟩ := List.cons.inj hrest.symm
      exact hne rest rfl rfl
    have hcs : joinBars (part :: parts) = cs := by rw [← hparts, joinBars_splitBars]
    rw [splitBars_cons hbar hparts]
    rw [hparts] at ih
    exact ih.cons_char (by rwa [hcs])
  | case3 c cs hne hnil ih => exact absurd hnil (splitBars_ne_nil cs)
  | case4 =>
    show ¬ bar <:+: []
    decide

/-- Parts that stay apart are what the row made of them is cut into. -/
theorem splitBars_joinBars {parts : List (List Char)} (hne : parts ≠ []) (h : Cut parts) :
    splitBars (joinBars parts) = parts := by
  induction parts with
  | nil => exact absurd rfl hne
  | cons part parts ih =>
    cases parts with
    | nil =>
      rw [joinBars_singleton]
      exact splitBars_of_not_isInfix h
    | cons next parts =>
      rw [joinBars_cons_cons, splitBars_append h.1, ih (List.cons_ne_nil _ _) h.2]

/-! ### Escapes -/

/-- `replace(PIPE_SENTINEL, "\\|")`. -/
def unmaskPipes (cs : List Char) : List Char :=
  cs.flatMap fun c => if c = pipeSentinel then ['\\', '|'] else [c]

/-- A character that does not open an escape in front of what follows stays. -/
theorem maskPipes_cons {c : Char} {cs : List Char} (h : ¬ (c = '\\' ∧ cs.head? = some '|')) :
    maskPipes (c :: cs) = c :: maskPipes cs := by
  rw [maskPipes.eq_def]
  split
  case h_1 heq =>
    obtain ⟨rfl, rfl⟩ := List.cons.inj heq
    exact absurd ⟨rfl, rfl⟩ h
  case h_2 heq =>
    obtain ⟨rfl, rfl⟩ := List.cons.inj heq
    rfl
  case h_3 heq => cases heq

/-- The case of the recursion in which the first character stays. -/
theorem maskPipes_cons_of_ne {c : Char} {cs : List Char} (h : ∀ rest, c = '\\' → cs = '|' :: rest → False) :
    maskPipes (c :: cs) = c :: maskPipes cs := by
  refine maskPipes_cons ?_
  rintro ⟨hc, hhead⟩
  obtain ⟨rest, hrest⟩ := List.head?_eq_some_iff.mp hhead
  exact h rest hc hrest

theorem maskPipes_append {cs ds : List Char} (h : ¬ (cs.getLast? = some '\\' ∧ ds.head? = some '|')) :
    maskPipes (cs ++ ds) = maskPipes cs ++ maskPipes ds := by
  induction cs using maskPipes.induct with
  | case1 cs ih =>
    have hlast : ¬ (cs.getLast? = some '\\' ∧ ds.head? = some '|') := by
      rintro ⟨hc, hd⟩
      refine h ⟨?_, hd⟩
      rw [List.getLast?_cons, List.getLast?_cons, hc]
      rfl
    rw [List.cons_append, List.cons_append, maskPipes, maskPipes, ih hlast, List.cons_append]
  | case2 c cs hne ih =>
    have hmask := maskPipes_cons_of_ne hne
    rw [List.cons_append, maskPipes_cons, ih, hmask, List.cons_append]
    · rintro ⟨hc, hd⟩
      refine h ⟨?_, hd⟩
      rw [List.getLast?_cons, hc]
      rfl
    · rintro ⟨hc, hhead⟩
      cases cs with
      | nil => exact h ⟨by rw [hc]; rfl, hhead⟩
      | cons d cs =>
        obtain rfl : d = '|' := by simpa using hhead
        exact hne cs hc rfl
  | case3 => rfl

/-- A text in which no escape stands. -/
def Plain (cs : List Char) : Prop := ¬ ['\\', '|'] <:+: cs

instance (cs : List Char) : Decidable (Plain cs) := inferInstanceAs (Decidable (¬ _))

theorem Plain.of_infix {cs ds : List Char} (h : Plain ds) (hin : cs <:+: ds) : Plain cs :=
  fun hcs => h (hcs.trans hin)

/-- A text without an escape stays as it is. -/
theorem maskPipes_of_plain {cs : List Char} (h : Plain cs) : maskPipes cs = cs := by
  induction cs with
  | nil => rfl
  | cons c cs ih =>
    rw [maskPipes_cons, ih (h.of_infix (List.suffix_cons c cs).isInfix)]
    rintro ⟨rfl, hhead⟩
    obtain ⟨rest, rfl⟩ := List.head?_eq_some_iff.mp hhead
    exact h ⟨[], rest, rfl⟩

theorem head_maskPipes {cs : List Char} (h : (maskPipes cs).head? = some '|') : cs.head? = some '|' := by
  cases cs using maskPipes.fun_cases with
  | case1 cs => cases h
  | case2 c cs hne =>
    rwa [maskPipes_cons_of_ne hne] at h
  | case3 => exact h

/-- No escape is left in a masked text. -/
theorem plain_maskPipes (cs : List Char) : Plain (maskPipes cs) := by
  induction cs using maskPipes.induct with
  | case1 cs ih =>
    intro hin
    rw [maskPipes, List.infix_cons_iff] at hin
    rcases hin with ⟨rest, hrest⟩ | hin
    · cases (List.cons.inj hrest).1
    · exact ih hin
  | case2 c cs hne ih =>
    intro hin
    rw [maskPipes_cons_of_ne hne, List.infix_cons_iff] at hin
    rcases hin with ⟨rest, hrest⟩ | hin
    · obtain ⟨hc, hrest⟩ := List.cons.inj hrest
      obtain ⟨after, hafter⟩ := List.head?_eq_some_iff.mp (head_maskPipes (by rw [← hrest]; rfl))
      exact hne after hc.symm hafter
    · exact ih hin
  | case3 =>
    show ¬ ['\\', '|'] <:+: []
    decide

/-- What is written out again reads the same. -/
theorem maskPipes_unmaskPipes (cs : List Char) : maskPipes (unmaskPipes cs) = maskPipes cs := by
  induction cs using maskPipes.induct with
  | case1 cs ih =>
    have hslash : unmaskPipes ('\\' :: '|' :: cs) = '\\' :: '|' :: unmaskPipes cs := by
      simp [unmaskPipes, pipeSentinel]
    rw [hslash, maskPipes, maskPipes, ih]
  | case2 c cs hne ih =>
    have hmask := maskPipes_cons_of_ne hne
    by_cases hc : c = pipeSentinel
    · have hwrite : unmaskPipes (c :: cs) = '\\' :: '|' :: unmaskPipes cs := by
        simp [unmaskPipes, hc]
      rw [hwrite, hmask, maskPipes, ih, hc]
    · have hwrite : unmaskPipes (c :: cs) = c :: unmaskPipes cs := by simp [unmaskPipes, hc]
      rw [hwrite, hmask, maskPipes_cons, ih]
      rintro ⟨hslash, hhead⟩
      -- What the next character is written as begins with a bar only where it is one.
      cases cs with
      | nil => simp [unmaskPipes] at hhead
      | cons d cs =>
        by_cases hd : d = pipeSentinel
        · simp [unmaskPipes, hd] at hhead
        · obtain rfl : d = '|' := by simpa [unmaskPipes, hd] using hhead
          exact hne cs hslash rfl
  | case3 => rfl

/-! ### White space at the end -/

/-- `str.rstrip`. -/
def rtrim (cs : List Char) : List Char := (cs.reverse.dropWhile isSpace).reverse

theorem stripChars_eq (cs : List Char) : stripChars cs = rtrim (cs.dropWhile isSpace) := rfl

/-- What is trimmed off is white space. -/
theorem exists_trail (cs : List Char) : ∃ trail, cs = rtrim cs ++ trail ∧ ∀ c ∈ trail, isSpace c = true := by
  refine ⟨(cs.reverse.takeWhile isSpace).reverse, ?_, fun c hc => ?_⟩
  · rw [rtrim, ← List.reverse_append, List.takeWhile_append_dropWhile, List.reverse_reverse]
  · exact List.all_eq_true.mp List.all_takeWhile c (List.mem_reverse.mp hc)

theorem rtrim_append {cs trail : List Char} (h : ∀ c ∈ trail, isSpace c = true) :
    rtrim (cs ++ trail) = rtrim cs := by
  rw [rtrim, List.reverse_append,
    List.dropWhile_append_of_pos fun c hc => h c (List.mem_reverse.mp hc), rtrim]

theorem rtrim_isPrefix (cs : List Char) : rtrim cs <+: cs := by
  obtain ⟨trail, hcs, -⟩ := exists_trail cs
  exact ⟨trail, hcs.symm⟩

/-- A text that ends with another character is not trimmed. -/
theorem rtrim_of_last {cs : List Char} (h : ∀ c ∈ cs.getLast?, isSpace c = false) : rtrim cs = cs := by
  rw [rtrim]
  cases hrev : cs.reverse with
  | nil => rw [List.reverse_eq_nil_iff.mp hrev]; rfl
  | cons c ds =>
    have hlast : cs.getLast? = some c := by rw [← List.head?_reverse, hrev]; rfl
    rw [List.dropWhile_cons_of_neg (by simp [h c hlast]), ← hrev, List.reverse_reverse]

theorem last_rtrim (cs : List Char) : ∀ c ∈ (rtrim cs).getLast?, isSpace c = false := by
  intro c hc
  rw [rtrim, List.getLast?_reverse] at hc
  cases h : cs.reverse.dropWhile isSpace with
  | nil => rw [h] at hc; cases hc
  | cons d ds =>
    rw [h] at hc
    have hd := List.head_dropWhile_not isSpace (l := cs.reverse) (by rw [h]; exact List.cons_ne_nil _ _)
    simp only [h, List.head_cons] at hd
    obtain rfl := Option.some.inj hc
    exact hd

theorem rtrim_rtrim (cs : List Char) : rtrim (rtrim cs) = rtrim cs := rtrim_of_last (last_rtrim cs)

theorem rtrim_eq_nil {cs : List Char} : rtrim cs = [] ↔ ∀ c ∈ cs, isSpace c = true := by
  rw [rtrim, List.reverse_eq_nil_iff, List.dropWhile_eq_nil_iff]
  simp

/-- Only the end of a text is trimmed. -/
theorem rtrim_append_of_ne_nil {cs ds : List Char} (h : rtrim ds ≠ []) :
    rtrim (cs ++ ds) = cs ++ rtrim ds := by
  obtain ⟨trail, hds, htrail⟩ := exists_trail ds
  conv_lhs => rw [hds]
  rw [← List.append_assoc, rtrim_append htrail]
  refine rtrim_of_last fun c hc => ?_
  rw [List.getLast?_append_of_ne_nil _ h] at hc
  exact last_rtrim ds c hc

theorem Closed.concat {part : List Char} (h : Closed part) {c : Char} (hc : isSpace c = true) :
    Closed (part ++ [c]) := by
  intro hin
  have hne : c ≠ '|' := fun heq => by rw [heq] at hc; cases hc
  rw [show part ++ [c] ++ [' ', '|'] = part ++ [c, ' '] ++ ['|'] by simp, List.infix_concat_iff] at hin
  rcases hin with ⟨pre, hpre⟩ | hin
  · have := congrArg List.getLast? hpre
    simp [bar] at this
  rw [show part ++ [c, ' '] = part ++ [c] ++ [' '] by simp, List.infix_concat_iff] at hin
  rcases hin with ⟨pre, hpre⟩ | hin
  · rw [show pre ++ bar = pre ++ [' '] ++ ['|'] ++ [' '] by simp [bar]] at hpre
    have hcut := (List.append_inj' hpre rfl).1
    exact hne (List.cons.inj (List.append_inj' hcut rfl).2).1.symm
  rw [List.infix_concat_iff] at hin
  rcases hin with ⟨pre, hpre⟩ | hin
  · rw [show pre ++ bar = pre ++ [' ', '|'] ++ [' '] by simp [bar]] at hpre
    have hcut := (List.append_inj' hpre rfl).1
    exact h ⟨pre, ['|'], by rw [← hcut]; simp [bar]⟩
  · exact h.not_isInfix hin

/-- White space at the end of a part lets no bar begin. -/
theorem Closed.append {part trail : List Char} (h : Closed part) (htrail : ∀ c ∈ trail, isSpace c = true) :
    Closed (part ++ trail) := by
  induction trail generalizing part with
  | nil => rwa [List.append_nil]
  | cons c trail ih =>
    rw [List.append_cons]
    exact ih (h.concat (htrail c List.mem_cons_self)) fun d hd => htrail d (List.mem_cons_of_mem _ hd)

theorem Closed.of_rtrim {part : List Char} (h : Closed (rtrim part)) : Closed part := by
  obtain ⟨trail, hpart, htrail⟩ := exists_trail part
  rw [hpart]
  exact h.append htrail

end Saipen.Board
