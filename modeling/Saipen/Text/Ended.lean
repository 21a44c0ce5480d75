import Saipen.Text.Scan

/-! # Lines with their ends

`splitlines(keepends=True)` leaves what ends a line behind it. Joined, these lines are the text again. A
line that is written in the place of another one is read there, and the lines around it as before. -/

namespace Text

/-- The lines of a list of characters with their ends, the one being read in `line`, reversed. -/
def endedFrom (line : List Char) : List Char → List (List Char)
  | [] => if line = [] then [] else [line.reverse]
  | c :: d :: cs =>
      if c = '\r' ∧ d = '\n' then (line.reverse ++ [c, d]) :: endedFrom [] cs
      else if isLineBreak c then (line.reverse ++ [c]) :: endedFrom [] (d :: cs)
      else endedFrom (c :: line) (d :: cs)
  | [c] => [(c :: line).reverse]

/-- `str.splitlines(keepends=True)`. -/
def splitLinesEnded (s : String) : List String := (endedFrom [] s.toList).map String.ofList

/-- The lines with their ends are the text. -/
theorem flatten_endedFrom (cs : List Char) : ∀ line : List Char,
    (endedFrom line cs).flatten = line.reverse ++ cs := by
  induction cs using List.twoStepInduction with
  | nil =>
    intro line
    by_cases hline : line = [] <;> simp [endedFrom, hline]
  | singleton c =>
    intro line
    simp [endedFrom]
  | cons_cons c d cs ih ih' =>
    intro line
    rw [endedFrom]
    split
    · simp [ih]
    · split <;> simp [ih']

/-- No line is empty when its end is counted. -/
theorem nil_notMem_endedFrom (cs : List Char) : ∀ line : List Char, [] ∉ endedFrom line cs := by
  induction cs using List.twoStepInduction with
  | nil =>
    intro line
    by_cases hline : line = [] <;> simp [endedFrom, hline, Ne.symm]
  | singleton c =>
    intro line
    simp [endedFrom]
  | cons_cons c d cs ih ih' =>
    intro line
    rw [endedFrom]
    split
    · simp [ih]
    · split <;> simp [ih']

/-! ### Writing one line -/

/-- A character that ends a line, and is no carriage return in front of a newline. -/
theorem linesFrom_break {l : List Char} {c : Char} (hl : OneLine l) (hc : isLineBreak c = true)
    (cs : List Char) (hnext : c = '\r' → cs.head? ≠ some '\n') :
    linesFrom [] (l ++ c :: cs) = l :: linesFrom [] cs := by
  rw [linesFrom_append_oneLine hl]
  cases cs with
  | nil => simp [linesFrom, hc]
  | cons d cs =>
    have hpair : ¬ (c = '\r' ∧ d = '\n') := fun h => hnext h.1 (by rw [h.2]; rfl)
    rw [linesFrom, if_neg hpair, if_pos hc]
    simp

theorem linesFrom_crlf {l : List Char} (hl : OneLine l) (cs : List Char) :
    linesFrom [] (l ++ '\r' :: '\n' :: cs) = l :: linesFrom [] cs := by
  rw [linesFrom_append_oneLine hl, linesFrom, if_pos ⟨rfl, rfl⟩]
  simp

/-- What a text begins with after a line of it was written: what it began with, or the line. -/
theorem head?_set_endedFrom (d : Char) (cs : List Char) {new : List Char} (hnew : new ≠ []) (i : ℕ) :
    ((endedFrom [] (d :: cs)).set i new).flatten.head? ∈ [some d, new.head?] := by
  have hflat := flatten_endedFrom (d :: cs) []
  have hnil := nil_notMem_endedFrom (d :: cs) []
  rw [List.reverse_nil, List.nil_append] at hflat
  cases hlines : endedFrom [] (d :: cs) with
  | nil => rw [hlines] at hflat; cases hflat
  | cons first rest =>
    rw [hlines] at hflat hnil
    cases i with
    | zero =>
      obtain ⟨b, new, rfl⟩ := List.exists_cons_of_ne_nil hnew
      simp
    | succ i =>
      obtain ⟨a, first, rfl⟩ := List.exists_cons_of_ne_nil fun h => hnil (h ▸ List.mem_cons_self)
      have ha : a = d := (List.cons.inj hflat).1
      simp [ha]

/-- A line that does not begin with a newline is no second half of a line end. -/
theorem head?_ne_newline {cs : List Char} (h : OneLine cs) : cs.head? ≠ some '\n' := by
  intro hhead
  exact absurd (h '\n' (List.mem_of_head? hhead)) (by decide)

theorem oneLine_reverse {line : List Char} (h : OneLine line) : OneLine line.reverse :=
  fun c hc => h c (List.mem_reverse.mp hc)

/-- A line of a text, its end, and what is read when another line is written in its place. -/
theorem linesFrom_set (cs : List Char) : ∀ {line : List Char}, OneLine line → ∀ {i : ℕ} {l : List Char},
    (linesFrom line cs)[i]? = some l →
    ∃ tail, (endedFrom line cs)[i]? = some (l ++ tail) ∧ (∀ c ∈ tail, isLineBreak c = true) ∧
      ∀ new, OneLine new → new ≠ [] →
        linesFrom [] ((endedFrom line cs).set i (new ++ tail)).flatten = (linesFrom line cs).set i new := by
  -- the text written at the end of which nothing stands is the line alone
  have hlast : ∀ {new : List Char}, OneLine new → new ≠ [] → linesFrom [] new = [new] := by
    intro new hnew hne
    rw [linesFrom_of_oneLine hnew, List.reverse_nil, List.nil_append, if_neg hne]
  have hnil : OneLine [] := by simp [OneLine]
  induction cs using List.twoStepInduction with
  | nil =>
    intro line hline i l hl
    by_cases hempty : line = []
    · simp [linesFrom, hempty] at hl
    · cases i with
      | succ i => simp [linesFrom, hempty] at hl
      | zero =>
        simp only [linesFrom, hempty, if_false, List.getElem?_cons_zero, Option.some.injEq] at hl
        refine ⟨[], by simp [endedFrom, hempty, hl], by simp, fun new hnew hne => ?_⟩
        simp [endedFrom, linesFrom, hempty, hlast hnew hne]
  | singleton c =>
    intro line hline i l hl
    cases i with
    | succ i =>
      rw [linesFrom] at hl
      split at hl <;> simp at hl
    | zero =>
      by_cases hc : isLineBreak c = true
      · simp only [linesFrom, hc, if_true, List.getElem?_cons_zero, Option.some.injEq] at hl
        refine ⟨[c], by simp [endedFrom, hl], by simpa using hc, fun new hnew _ => ?_⟩
        have hread := linesFrom_break hnew hc [] (by simp)
        simpa [endedFrom, linesFrom, hc] using hread
      · rw [linesFrom, if_neg hc] at hl
        obtain rfl := Option.some.inj hl
        refine ⟨[], by simp [endedFrom], by simp, fun new hnew hne => ?_⟩
        simp [endedFrom, linesFrom, hc, hlast hnew hne]
  | cons_cons c d cs ih ih' =>
    intro line hline i l hl
    rw [linesFrom] at hl
    rw [linesFrom, endedFrom]
    by_cases hpair : c = '\r' ∧ d = '\n'
    · rw [if_pos hpair] at hl ⊢
      rw [if_pos hpair]
      obtain ⟨rfl, rfl⟩ := hpair
      cases i with
      | zero =>
        obtain rfl := Option.some.inj hl
        refine ⟨['\r', '\n'], rfl, by simp [isLineBreak], fun new hnew _ => ?_⟩
        have hread := linesFrom_crlf hnew cs
        simpa [flatten_endedFrom] using hread
      | succ i =>
        obtain ⟨tail, hended, hbreak, hset⟩ := ih hnil hl
        refine ⟨tail, hended, hbreak, fun new hnew hne => ?_⟩
        rw [List.set_cons_succ, List.set_cons_succ, List.flatten_cons, List.append_assoc,
          List.cons_append, List.singleton_append, linesFrom_crlf (oneLine_reverse hline),
          hset new hnew hne]
    · rw [if_neg hpair] at hl ⊢
      rw [if_neg hpair]
      by_cases hc : isLineBreak c = true
      · rw [if_pos hc] at hl ⊢
        rw [if_pos hc]
        cases i with
        | zero =>
          obtain rfl := Option.some.inj hl
          refine ⟨[c], rfl, by simpa using hc, fun new hnew _ => ?_⟩
          have hread := linesFrom_break hnew hc (d :: cs)
            fun h hd => hpair ⟨h, Option.some.inj hd⟩
          simpa [flatten_endedFrom] using hread
        | succ i =>
          obtain ⟨tail, hended, hbreak, hset⟩ := ih' d hnil hl
          refine ⟨tail, hended, hbreak, fun new hnew hne => ?_⟩
          rw [List.set_cons_succ, List.set_cons_succ, List.flatten_cons, List.append_assoc,
            List.singleton_append, linesFrom_break (oneLine_reverse hline) hc _, hset new hnew hne]
          -- what stands behind a carriage return is still no newline
          intro hcr hhead
          have hmem := head?_set_endedFrom d cs (List.append_ne_nil_of_left_ne_nil hne tail) i
          rw [hhead, List.mem_cons, List.mem_singleton] at hmem
          rcases hmem with hd | hd
          · exact hpair ⟨hcr, (Option.some.inj hd).symm⟩
          · obtain ⟨b, new, rfl⟩ := List.exists_cons_of_ne_nil hne
            exact head?_ne_newline hnew (by simpa using hd.symm)
      · rw [if_neg hc] at hl ⊢
        rw [if_neg hc]
        have hcons : OneLine (c :: line) := by
          intro b hb
          rcases List.mem_cons.mp hb with rfl | hb
          · simpa using hc
          · exact hline b hb
        exact ih' d hcons hl

/-- Put together, the lines are the text. -/
theorem join_splitLinesEnded (s : String) : String.join (splitLinesEnded s) = s := by
  apply String.toList_injective
  rw [String.toList_join, splitLinesEnded, List.flatMap_map]
  simp only [String.toList_ofList]
  rw [List.flatMap_id', flatten_endedFrom]
  rfl

/-- A line of a text, its end, and what is read when another line is written in its place. -/
theorem splitLines_set {s l : String} {i : ℕ} (hl : (splitLines s)[i]? = some l) :
    ∃ tail, (splitLinesEnded s)[i]? = some (l ++ tail) ∧ (∀ c ∈ tail.toList, isLineBreak c = true) ∧
      ∀ new : String, OneLine new.toList → new ≠ "" →
        splitLines (String.join ((splitLinesEnded s).set i (new ++ tail))) =
          (splitLines s).set i new := by
  rw [splitLines, List.getElem?_map, Option.map_eq_some_iff] at hl
  obtain ⟨cs, hcs, rfl⟩ := hl
  obtain ⟨tail, hended, hbreak, hset⟩ := linesFrom_set s.toList (by simp [OneLine]) hcs
  refine ⟨String.ofList tail, ?_, by simpa using hbreak, fun new hnew hne => ?_⟩
  · rw [splitLinesEnded, List.getElem?_map, hended, Option.map_some, String.ofList_append]
  · have hjoin : (String.join ((splitLinesEnded s).set i (new ++ String.ofList tail))).toList =
        ((endedFrom [] s.toList).set i (new.toList ++ tail)).flatten := by
      have hnewtail : new ++ String.ofList tail = String.ofList (new.toList ++ tail) := by
        rw [String.ofList_append, String.ofList_toList]
      rw [String.toList_join, splitLinesEnded, hnewtail, ← List.map_set, List.flatMap_map]
      simp only [String.toList_ofList]
      rw [List.flatMap_id']
    rw [splitLines, hjoin, hset new.toList hnew fun h => hne (String.toList_eq_nil_iff.mp h), List.map_set,
      String.ofList_toList, ← splitLines]

end Text
