import Saipen.Text.Scan

/-! # Lines appended to a text

A line is appended to a document by taking the newlines off its end and writing the line behind one of
them. Up to empty lines, the document then has its old lines and the new one. -/

namespace Text

/-- `str.rstrip("\n")`. -/
def rstripNewlines (s : String) : String :=
  String.ofList (s.toList.reverse.dropWhile (· = '\n')).reverse

/-- The lines of a text that are not empty. -/
def fullLines (s : String) : List String := (splitLines s).filter (· ≠ "")

/-- The nonempty lines of a list of characters. -/
def fullFrom (line cs : List Char) : List (List Char) := (linesFrom line cs).filter (· ≠ [])

theorem fullLines_eq (s : String) : fullLines s = (fullFrom [] s.toList).map String.ofList := by
  rw [fullLines, splitLines, fullFrom, List.filter_map]
  congr 1
  refine List.filter_congr fun cs _ => ?_
  rw [Function.comp_apply, decide_eq_decide, ne_eq, ne_eq, ← String.toList_eq_nil_iff,
    String.toList_ofList]

theorem fullFrom_newline (line cs : List Char) :
    fullFrom line ('\n' :: cs) = fullFrom line [] ++ fullFrom [] cs := by
  rw [fullFrom, linesFrom_cons (by decide), if_pos isLineBreak_newline, fullFrom, fullFrom, linesFrom]
  cases line with
  | nil => simp
  | cons c line => simp

/-- A newline ends the lines in front of it. -/
theorem fullFrom_append {cs : List Char} (ds : List Char) : ∀ line : List Char,
    fullFrom line (cs ++ '\n' :: ds) = fullFrom line cs ++ fullFrom [] ds := by
  have hcut : ∀ (l : List Char) (ls : List (List Char)),
      (l :: ls).filter (· ≠ []) = [l].filter (· ≠ []) ++ ls.filter (· ≠ []) := fun l ls => by
    rw [← List.filter_append, List.singleton_append]
  induction cs using List.twoStepInduction with
  | nil => exact fun line => fullFrom_newline line ds
  | singleton c =>
    intro line
    rw [List.singleton_append, fullFrom, fullFrom, fullFrom, linesFrom, linesFrom]
    by_cases hc : c = '\r'
    · subst hc
      rw [if_pos ⟨rfl, rfl⟩, if_pos (by decide), ← List.singleton_append, List.filter_append]
    · rw [if_neg fun h => hc h.1]
      split
      · rw [← List.singleton_append, List.filter_append, ← fullFrom, ← fullFrom, fullFrom_newline]
        rfl
      · rw [← fullFrom, fullFrom_newline, ← fullFrom]
        congr 1
  | cons_cons c d cs ih ih' =>
    intro line
    rw [List.cons_append, List.cons_append, fullFrom, fullFrom, linesFrom, linesFrom]
    split
    · rw [hcut, hcut _ (linesFrom [] cs), List.append_assoc]
      exact congrArg _ (ih [])
    · split
      · rw [hcut, hcut _ (linesFrom [] (d :: cs)), List.append_assoc]
        exact congrArg _ (ih' d [])
      · exact ih' d (c :: line)

/-- The lines of a text are those of its pieces between newlines. -/
theorem fullLines_intercalate (ms : List String) :
    fullLines ("\n".intercalate ms) = ms.flatMap fullLines := by
  have hchars : ∀ ms : List (List Char), fullFrom [] (List.intercalate ['\n'] ms) =
      ms.flatMap (fullFrom []) := by
    intro ms
    induction ms with
    | nil => rfl
    | cons m ms ih =>
      cases ms with
      | nil => simp
      | cons n ms =>
        rw [List.intercalate_cons_cons, List.append_assoc, List.singleton_append, fullFrom_append, ih]
        rfl
  rw [fullLines_eq, String.toList_intercalate]
  have hnewline : "\n".toList = ['\n'] := rfl
  rw [hnewline, hchars, List.flatMap_map, List.map_flatMap]
  exact List.flatMap_congr fun m _ => (fullLines_eq m).symm

theorem intercalate_append {ms ns : List String} (hms : ms ≠ []) (hns : ns ≠ []) :
    "\n".intercalate (ms ++ ns) = "\n".intercalate ms ++ "\n" ++ "\n".intercalate ns := by
  induction ms with
  | nil => exact absurd rfl hms
  | cons m ms ih =>
    cases ms with
    | nil =>
      cases ns with
      | nil => exact absurd rfl hns
      | cons n ns => simp
    | cons l ms =>
      have hcons : ∀ ls : List String, "\n".intercalate (m :: l :: ls) =
          m ++ "\n" ++ "\n".intercalate (l :: ls) := fun ls => by simp
      rw [List.cons_append, List.cons_append, hcons, hcons, ← List.cons_append,
        ih (List.cons_ne_nil _ _)]
      simp only [String.append_assoc]

theorem fullLines_split (s : String) : fullLines s = (split '\n' s).flatMap fullLines := by
  have hjoin : "\n".intercalate (split '\n' s) = s := intercalate_split s
  rw [← fullLines_intercalate, hjoin]

theorem fullFrom_replicate (n : Nat) : fullFrom [] (List.replicate n '\n') = [] := by
  induction n with
  | zero => rfl
  | succ n ih => rw [List.replicate_succ, fullFrom_newline, ih]; rfl

/-! ### The document with its new line -/

/-- The newlines at the end of a text are all that `rstrip` takes off. -/
theorem rstripNewlines_append (s : String) :
    ∃ n, s.toList = (rstripNewlines s).toList ++ List.replicate n '\n' := by
  let post := (s.toList.reverse.takeWhile (· = '\n')).reverse
  have hpost : ∀ c ∈ post, c = '\n' := fun c hc => by
    have := List.all_eq_true.mp List.all_takeWhile c (List.mem_reverse.mp hc)
    simpa using this
  refine ⟨post.length, ?_⟩
  rw [← List.eq_replicate_of_mem hpost, rstripNewlines, String.toList_ofList, ← List.reverse_append,
    List.takeWhile_append_dropWhile, List.reverse_reverse]

/-- A text without its last newlines has the same lines. -/
theorem fullLines_append (s t : String) :
    fullLines (rstripNewlines s ++ "\n" ++ t) = fullLines s ++ fullLines t := by
  obtain ⟨n, hn⟩ := rstripNewlines_append s
  have hs : fullFrom [] s.toList = fullFrom [] (rstripNewlines s).toList := by
    rw [hn]
    cases n with
    | zero => simp
    | succ n => rw [List.replicate_succ, fullFrom_append, fullFrom_replicate, List.append_nil]
  have hlist : (rstripNewlines s ++ "\n" ++ t).toList =
      (rstripNewlines s).toList ++ '\n' :: t.toList := by simp
  rw [fullLines_eq, hlist, fullFrom_append, List.map_append, ← hs, ← fullLines_eq, ← fullLines_eq]

/-- A line, with its newline or without. -/
theorem fullLines_line {line close : String} (h : OneLine line.toList) (hne : line ≠ "")
    (hclose : close ∈ ["", "\n"]) : fullLines (line ++ close) = [line] := by
  have hlines : splitLines (line ++ close) = [line] := by
    rw [List.mem_cons, List.mem_singleton] at hclose
    rcases hclose with rfl | rfl
    · rw [String.append_empty]
      exact splitLines_eq_self_iff.mpr ⟨hne, h⟩
    · exact splitLines_newline h
  rw [fullLines, hlines]
  simp [hne]

end Text
