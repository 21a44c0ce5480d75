import Saipen.Text.Codec
import Saipen.Text.Insert
import Saipen.Text.Lines

/-! # Lines taken out of a text

Lines are taken out of a text with their ends, and what is left is joined. Up to empty lines it has the lines
that were left: a carriage return and a newline that come to stand together are one end where they were two. -/

namespace Text

/-- The line that is read of a line with its end. -/
def body (l : List Char) : List Char := (linesFrom [] l).headD []

/-- A line of a text, with its end or without one. -/
def IsLine (l : List Char) : Prop :=
  l ≠ [] ∧ ∃ front tail, l = front ++ tail ∧ OneLine front ∧
    (tail = [] ∨ (∃ c, isLineBreak c = true ∧ tail = [c]) ∨ tail = ['\r', '\n'])

/-- A line that has its end. -/
def Ends (l : List Char) : Prop := ∃ c ∈ l.getLast?, isLineBreak c = true

theorem oneLine_nil : OneLine [] := fun _ hc => absurd hc List.not_mem_nil

theorem isLine_of_mem {cs l : List Char} (h : l ∈ endedFrom [] cs) : IsLine l := by
  refine ⟨?_, exists_body_of_mem_endedFrom cs oneLine_nil h⟩
  rintro rfl
  exact nil_notMem_endedFrom cs [] h

/-- A line with its end is one line. -/
theorem linesFrom_line {l : List Char} (h : IsLine l) : linesFrom [] l = [body l] := by
  obtain ⟨hne, front, tail, rfl, hfront, htail⟩ := h
  rw [body, linesFrom_ended hfront hne htail]
  rfl

/-- The lines of a text are the lines of its lines with their ends. -/
theorem linesFrom_eq_map (cs : List Char) : ∀ {line : List Char}, OneLine line →
    linesFrom line cs = (endedFrom line cs).map body := by
  have hread : ∀ {front tail : List Char}, OneLine front → front ++ tail ≠ [] →
      (tail = [] ∨ (∃ c, isLineBreak c = true ∧ tail = [c]) ∨ tail = ['\r', '\n']) → body (front ++ tail) = front := by
    intro front tail hfront hne htail
    rw [body, linesFrom_ended hfront hne htail]
    rfl
  induction cs using List.twoStepInduction with
  | nil =>
    intro line hline
    rw [linesFrom, endedFrom]
    by_cases hempty : line = []
    · rw [if_pos hempty]
      rfl
    · have hne : line.reverse ++ [] ≠ [] := by simpa using hempty
      have hlast := hread (oneLine_reverse hline) hne (.inl rfl)
      rw [List.append_nil] at hlast
      rw [if_neg hempty, List.map_singleton, hlast]
  | singleton c =>
    intro line hline
    rw [linesFrom, endedFrom, List.map_singleton, List.reverse_cons]
    by_cases hc : isLineBreak c = true
    · rw [if_pos hc, hread (oneLine_reverse hline) (by simp) (.inr (.inl ⟨c, hc, rfl⟩))]
    · have hplain : OneLine (line.reverse ++ [c]) := by
        rw [OneLine.append]
        exact ⟨oneLine_reverse hline, fun b hb => by rw [List.mem_singleton.mp hb]; simpa using hc⟩
      have hlast := hread hplain (by simp) (.inl rfl)
      rw [List.append_nil] at hlast
      rw [if_neg hc, hlast]
  | cons_cons c d cs ih ih' =>
    intro line hline
    rw [linesFrom, endedFrom]
    by_cases hpair : c = '\r' ∧ d = '\n'
    · rw [if_pos hpair, if_pos hpair, List.map_cons, ih oneLine_nil,
        hread (oneLine_reverse hline) (by simp) (.inr (.inr (by rw [hpair.1, hpair.2])))]
    · rw [if_neg hpair, if_neg hpair]
      by_cases hc : isLineBreak c = true
      · rw [if_pos hc, if_pos hc, List.map_cons, ih' d oneLine_nil,
          hread (oneLine_reverse hline) (by simp) (.inr (.inl ⟨c, hc, rfl⟩))]
      · rw [if_neg hc, if_neg hc]
        refine ih' d fun b hb => ?_
        rcases List.mem_cons.mp hb with rfl | hb
        · simpa using hc
        · exact hline b hb

/-- Only the last line of a text can be without its end. -/
theorem pairwise_ends (cs : List Char) : (endedFrom [] cs).Pairwise fun l _ => Ends l := by
  have hsplit : ∀ (ls front : List (List Char)), endedFrom [] cs = front ++ ls → ls.Pairwise fun l _ => Ends l := by
    intro ls
    induction ls with
    | nil => exact fun _ _ => .nil
    | cons l ls ih =>
      intro front h
      refine List.pairwise_cons.mpr ⟨fun l' hl' => ?_, ih (front ++ [l]) (by rw [h]; simp)⟩
      have hne : l ≠ [] := by
        rintro rfl
        exact nil_notMem_endedFrom cs [] (by rw [h]; simp)
      have hcut : endedFrom [] cs = (front ++ [l]) ++ ls := by rw [h]; simp
      obtain ⟨⟨c, hc, hbreak⟩, -⟩ := broken_of_endedFrom cs hcut (by simp) (List.ne_nil_of_mem hl')
      rw [List.flatten_append, List.flatten_singleton, List.getLast?_append_of_ne_nil _ hne] at hc
      exact ⟨c, hc, hbreak⟩
  exact hsplit _ [] rfl

/-! ### What is left -/

/-- What is read behind a line with its end. -/
theorem fullFrom_ends {l : List Char} (h : IsLine l) (hends : Ends l) (ds : List Char) :
    fullFrom [] (l ++ ds) = fullFrom [] l ++ fullFrom [] ds := by
  have hone : fullFrom [] l = [body l].filter (· ≠ []) := by rw [fullFrom, linesFrom_line h]
  have hcons : ∀ ls : List (List Char), (body l :: ls).filter (· ≠ []) = [body l].filter (· ≠ []) ++ ls.filter (· ≠ []) :=
    fun ls => by rw [← List.filter_append, List.singleton_append]
  obtain ⟨hne, front, tail, rfl, hfront, htail⟩ := h
  have hbody : body (front ++ tail) = front := by
    rw [body, linesFrom_ended hfront hne htail]
    rfl
  rw [hbody] at hone hcons
  rw [hone, fullFrom, List.append_assoc]
  rcases htail with rfl | ⟨c, hc, rfl⟩ | rfl
  · -- a line without its end does not end
    obtain ⟨c, hc, hbreak⟩ := hends
    rw [List.append_nil] at hc
    rw [hfront c (List.mem_of_getLast? hc)] at hbreak
    cases hbreak
  · by_cases hnext : c = '\r' ∧ ds.head? = some '\n'
    · -- the newline in front of what follows is read as the second half of the end
      obtain ⟨rfl, hhead⟩ := hnext
      obtain ⟨es, rfl⟩ := List.head?_eq_some_iff.mp hhead
      have hnil : fullFrom [] [] = [] := rfl
      rw [List.singleton_append, linesFrom_crlf hfront, fullFrom_newline, hnil, List.nil_append]
      exact hcons _
    · rw [List.singleton_append, linesFrom_break hfront hc ds fun hcr hhead => hnext ⟨hcr, hhead⟩]
      exact hcons _
  · rw [List.cons_append, List.singleton_append, linesFrom_crlf hfront]
    exact hcons _

/-- What is left of a text has the lines that are left, up to empty ones. -/
theorem fullFrom_taken {cs : List Char} {ls : List (List Char)} (h : ls.Sublist (endedFrom [] cs)) :
    fullFrom [] ls.flatten = (ls.map body).filter (· ≠ []) := by
  have hlines : ∀ l ∈ ls, IsLine l := fun l hl => isLine_of_mem (h.subset hl)
  have hends := (pairwise_ends cs).sublist h
  clear h
  induction ls with
  | nil => rfl
  | cons l ls ih =>
    have hone : fullFrom [] l = [body l].filter (· ≠ []) := by rw [fullFrom, linesFrom_line (hlines l List.mem_cons_self)]
    have hrest := ih (fun l' hl' => hlines l' (List.mem_cons_of_mem _ hl')) hends.tail
    rw [List.flatten_cons, List.map_cons, ← List.singleton_append, List.filter_append, ← hone, ← hrest]
    by_cases hlast : ls = []
    · rw [hlast, List.flatten_nil, List.append_nil]
      exact (List.append_nil _).symm
    · obtain ⟨l', hl'⟩ := List.exists_mem_of_ne_nil _ hlast
      exact fullFrom_ends (hlines l List.mem_cons_self) (List.rel_of_pairwise_cons hends hl') _

/-- The lines of a text, one for each line with its end. -/
theorem splitLines_eq_map (s : String) :
    splitLines s = (endedFrom [] s.toList).map fun l => String.ofList (body l) := by
  rw [splitLines, linesFrom_eq_map _ oneLine_nil, List.map_map]
  rfl

theorem fullLines_join {s : String} {ls : List (List Char)} (h : ls.Sublist (endedFrom [] s.toList)) :
    fullLines (String.join (ls.map String.ofList)) = (ls.map fun l => String.ofList (body l)).filter (· ≠ "") := by
  have hchars : (String.join (ls.map String.ofList)).toList = ls.flatten := by
    rw [String.toList_join, List.flatMap_map, List.flatMap_congr fun l _ => String.toList_ofList, List.flatMap_id']
  have hempty : (fun l : List Char => decide (l ≠ [])) = (fun t => decide (t ≠ "")) ∘ String.ofList := by
    funext l
    rw [Function.comp_apply, decide_eq_decide, ne_eq, ne_eq, ← String.toList_eq_nil_iff, String.toList_ofList]
  have hmap : (ls.map fun l => String.ofList (body l)) = (ls.map body).map String.ofList := by
    rw [List.map_map]
    rfl
  rw [fullLines_eq, hchars, fullFrom_taken h, hmap, hempty, ← List.filter_map]

/-! ### Newlines of one spelling -/

/-- A text has the same lines when all its newlines are spelled alike. -/
theorem linesFrom_normaliseNewlines (cs : List Char) : ∀ line : List Char,
    linesFrom line (normaliseNewlines cs) = linesFrom line cs := by
  induction cs using normaliseNewlines.induct with
  | case1 => exact fun _ => rfl
  | case2 cs ih =>
    intro line
    rw [normaliseNewlines.eq_2, linesFrom_cons (by decide), if_pos isLineBreak_newline, ih, linesFrom, if_pos ⟨rfl, rfl⟩]
  | case3 cs hnext ih =>
    intro line
    rw [normaliseNewlines.eq_3 _ hnext, linesFrom_cons (by decide), if_pos isLineBreak_newline, ih]
    cases cs with
    | nil => rfl
    | cons d cs =>
      have hpair : ¬('\r' = '\r' ∧ d = '\n') := fun h => hnext cs (by rw [h.2])
      rw [linesFrom.eq_2, if_neg hpair, if_pos (by decide)]
  | case4 c cs h1 h2 ih =>
    intro line
    have hc : c ≠ '\r' := fun h => h2 h
    rw [normaliseNewlines.eq_4 _ _ h1 h2, linesFrom_cons hc, linesFrom_cons hc, ih, ih]

/-- A text with its newlines in one spelling. -/
def normText (s : String) : String := String.ofList (normaliseNewlines s.toList)

theorem splitLines_normText (s : String) : splitLines (normText s) = splitLines s := by
  rw [splitLines, splitLines, normText, String.toList_ofList, linesFrom_normaliseNewlines]

end Text
