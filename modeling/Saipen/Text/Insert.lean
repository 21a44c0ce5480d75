import Saipen.Text.Ended

/-! # Lines put into a text

A text is read line by line up to any line end, and from there on. So a line that is put behind a line
with its end is read there, and every other line as before; put behind a line without one, it is read as
the rest of that line. -/

namespace Text

/-- A text up to a line end that nothing behind it belongs to. -/
def Broken (cs ds : List Char) : Prop :=
  (∃ c ∈ cs.getLast?, isLineBreak c = true) ∧ ¬ (cs.getLast? = some '\r' ∧ ds.head? = some '\n')

/-- What stands in front does not matter. -/
theorem Broken.append_left {cs ds : List Char} (h : Broken cs ds) (pre : List Char) : Broken (pre ++ cs) ds := by
  have hne : cs ≠ [] := by
    rintro rfl
    obtain ⟨c, hc, -⟩ := h.1
    cases hc
  rw [Broken, List.getLast?_append_of_ne_nil _ hne]
  exact h

theorem Broken.of_append {p cs ds : List Char} (h : Broken (p ++ cs) ds) (hne : cs ≠ []) : Broken cs ds := by
  rwa [Broken, List.getLast?_append_of_ne_nil _ hne] at h

/-- A newline is a line end whatever follows it. -/
theorem broken_newline (cs ds : List Char) : Broken (cs ++ ['\n']) ds :=
  Broken.append_left ⟨⟨'\n', rfl, by decide⟩, fun h => by cases h.1⟩ cs

/-- The lines in front of a line end, and the ones behind it. -/
theorem linesFrom_append_broken {ds : List Char} (cs : List Char) : ∀ line : List Char, Broken cs ds →
    linesFrom line (cs ++ ds) = linesFrom line cs ++ linesFrom [] ds := by
  induction cs using List.twoStepInduction with
  | nil =>
    rintro line ⟨⟨c, hc, -⟩, -⟩
    cases hc
  | singleton c =>
    rintro line ⟨⟨b, hb, hbreak⟩, hnext⟩
    obtain rfl : c = b := Option.some.inj hb
    cases ds with
    | nil => simp [linesFrom]
    | cons d ds =>
      have hpair : ¬ (c = '\r' ∧ d = '\n') := fun h => hnext ⟨by rw [h.1]; rfl, by rw [h.2]; rfl⟩
      rw [List.singleton_append, linesFrom, if_neg hpair, if_pos hbreak, linesFrom, if_pos hbreak]
      rfl
  | cons_cons c d cs ih ih' =>
    intro line h
    have hrest : Broken (d :: cs) ds := h.of_append (p := [c]) (List.cons_ne_nil d cs)
    rw [List.cons_append, List.cons_append, linesFrom, linesFrom]
    by_cases hpair : c = '\r' ∧ d = '\n'
    · rw [if_pos hpair, if_pos hpair]
      cases cs with
      | nil => rfl
      | cons e cs =>
        have hlate : Broken (e :: cs) ds := hrest.of_append (p := [d]) (List.cons_ne_nil e cs)
        rw [ih [] hlate, List.cons_append]
    · rw [if_neg hpair, if_neg hpair]
      by_cases hc : isLineBreak c = true
      · rw [if_pos hc, if_pos hc, List.cons_append]
        exact congrArg _ (ih' d [] hrest)
      · rw [if_neg hc, if_neg hc]
        exact ih' d (c :: line) hrest

/-- Between two of its lines a text has a line end. -/
theorem broken_of_endedFrom (cs : List Char) : ∀ {line : List Char} {pre post : List (List Char)},
    endedFrom line cs = pre ++ post → pre ≠ [] → post ≠ [] → Broken pre.flatten post.flatten := by
  -- one line cannot be both in front and behind
  have hone : ∀ {l : List Char} {pre post : List (List Char)}, [l] = pre ++ post → pre ≠ [] → post ≠ [] → False := by
    intro l pre post h hpre hpost
    have hlen := congrArg List.length h
    rw [List.length_append, List.length_singleton] at hlen
    have h1 := List.length_pos_iff.mpr hpre
    have h2 := List.length_pos_iff.mpr hpost
    omega
  induction cs using List.twoStepInduction with
  | nil =>
    intro line pre post h hpre hpost
    by_cases hline : line = []
    · rw [endedFrom, if_pos hline] at h
      exact absurd (List.append_eq_nil_iff.mp h.symm).1 hpre
    · rw [endedFrom, if_neg hline] at h
      exact (hone h hpre hpost).elim
  | singleton c =>
    intro line pre post h hpre hpost
    exact (hone h hpre hpost).elim
  | cons_cons c d cs ih ih' =>
    intro line pre post h hpre hpost
    obtain ⟨first, pre, rfl⟩ := List.exists_cons_of_ne_nil hpre
    rw [endedFrom] at h
    by_cases hpair : c = '\r' ∧ d = '\n'
    · rw [if_pos hpair] at h
      obtain ⟨rfl, hrest⟩ := List.cons.inj h
      cases pre with
      | nil =>
        refine ⟨⟨d, by simp, by rw [hpair.2]; decide⟩, fun hcr => ?_⟩
        simp [hpair.2] at hcr
      | cons next pre => exact (ih hrest (List.cons_ne_nil _ _) hpost).append_left _
    · rw [if_neg hpair] at h
      by_cases hc : isLineBreak c = true
      · rw [if_pos hc] at h
        obtain ⟨rfl, hrest⟩ := List.cons.inj h
        cases pre with
        | nil =>
          refine ⟨⟨c, by simp, hc⟩, fun hcr => hpair ⟨by simpa using hcr.1, ?_⟩⟩
          have hpost : post = endedFrom [] (d :: cs) := hrest.symm
          rw [hpost, flatten_endedFrom] at hcr
          simpa using hcr.2
        | cons next pre => exact (ih' d hrest (List.cons_ne_nil _ _) hpost).append_left _
      · rw [if_neg hc] at h
        exact ih' d h hpre hpost

/-- A line with its end: the line, and nothing or its end. -/
theorem exists_body_of_mem_endedFrom (cs : List Char) : ∀ {line l : List Char}, OneLine line → l ∈ endedFrom line cs →
    ∃ body tail, l = body ++ tail ∧ OneLine body ∧
      (tail = [] ∨ (∃ c, isLineBreak c = true ∧ tail = [c]) ∨ tail = ['\r', '\n']) := by
  induction cs using List.twoStepInduction with
  | nil =>
    intro line l hline hl
    by_cases hempty : line = []
    · simp [endedFrom, hempty] at hl
    · rw [endedFrom, if_neg hempty] at hl
      exact ⟨line.reverse, [], by simpa using hl, oneLine_reverse hline, .inl rfl⟩
  | singleton c =>
    intro line l hline hl
    have hl : l = line.reverse ++ [c] := by simpa [endedFrom] using hl
    by_cases hc : isLineBreak c = true
    · exact ⟨line.reverse, [c], hl, oneLine_reverse hline, .inr (.inl ⟨c, hc, rfl⟩)⟩
    · refine ⟨l, [], (List.append_nil l).symm, ?_, .inl rfl⟩
      rw [hl, OneLine.append]
      exact ⟨oneLine_reverse hline, fun b hb => by rw [List.mem_singleton.mp hb]; simpa using hc⟩
  | cons_cons c d cs ih ih' =>
    intro line l hline hl
    have hnil : OneLine [] := by simp [OneLine]
    rw [endedFrom] at hl
    by_cases hpair : c = '\r' ∧ d = '\n'
    · rw [if_pos hpair] at hl
      rcases List.mem_cons.mp hl with rfl | hl
      · exact ⟨line.reverse, [c, d], rfl, oneLine_reverse hline, .inr (.inr (by rw [hpair.1, hpair.2]))⟩
      · exact ih hnil hl
    · rw [if_neg hpair] at hl
      by_cases hc : isLineBreak c = true
      · rw [if_pos hc] at hl
        rcases List.mem_cons.mp hl with rfl | hl
        · exact ⟨line.reverse, [c], rfl, oneLine_reverse hline, .inr (.inl ⟨c, hc, rfl⟩)⟩
        · exact ih' d hnil hl
      · rw [if_neg hc] at hl
        refine ih' d (fun b hb => ?_) hl
        rcases List.mem_cons.mp hb with rfl | hb
        · simpa using hc
        · exact hline b hb

/-! ### Behind one line -/

/-- A line with its end, read alone. -/
theorem linesFrom_ended {body tail : List Char} (hbody : OneLine body) (hne : body ++ tail ≠ [])
    (htail : tail = [] ∨ (∃ c, isLineBreak c = true ∧ tail = [c]) ∨ tail = ['\r', '\n']) :
    linesFrom [] (body ++ tail) = [body] := by
  rcases htail with rfl | ⟨c, hc, rfl⟩ | rfl
  · rw [List.append_nil] at hne ⊢
    rw [linesFrom_of_oneLine hbody, List.reverse_nil, List.nil_append, if_neg hne]
  · rw [linesFrom_break hbody hc [] (by simp)]
    simp [linesFrom]
  · rw [linesFrom_crlf hbody]
    simp [linesFrom]

/-- The lines in front of a line of the text, that line and the lines behind it. -/
structure Around (cs : List Char) (pre : List (List Char)) (l : List Char) (post : List (List Char))
    (body tail : List Char) : Prop where
  line : l = body ++ tail
  oneLine : OneLine body
  ne_nil : l ≠ []
  ends : tail = [] ∨ (∃ c, isLineBreak c = true ∧ tail = [c]) ∨ tail = ['\r', '\n']
  front : pre ≠ [] → ∀ ds, Broken pre.flatten (l ++ ds)
  back : post ≠ [] → Broken l post.flatten
  lines : linesFrom [] cs = linesFrom [] pre.flatten ++ body :: linesFrom [] post.flatten

/-- What is read behind the lines in front. -/
theorem Around.linesFrom_front {cs l body tail : List Char} {pre post : List (List Char)}
    (h : Around cs pre l post body tail) (ds : List Char) :
    linesFrom [] (pre.flatten ++ (l ++ ds)) = linesFrom [] pre.flatten ++ linesFrom [] (l ++ ds) := by
  by_cases hpre : pre = []
  · rw [hpre]
    simp [linesFrom]
  · exact linesFrom_append_broken _ [] (h.front hpre ds)

theorem exists_around {cs l : List Char} {pre post : List (List Char)} (h : endedFrom [] cs = pre ++ l :: post) :
    ∃ body tail, Around cs pre l post body tail := by
  have hnil := nil_notMem_endedFrom cs []
  have hne : l ≠ [] := by
    rintro rfl
    exact hnil (h ▸ List.mem_append_right _ List.mem_cons_self)
  have hopen : OneLine [] := by simp [OneLine]
  obtain ⟨body, tail, hl, hbody, htail⟩ := exists_body_of_mem_endedFrom cs hopen
    (h ▸ List.mem_append_right _ List.mem_cons_self)
  have hhead : ∀ ds ds' : List Char, (l ++ ds).head? = (l ++ ds').head? := by
    obtain ⟨c, more, rfl⟩ := List.exists_cons_of_ne_nil hne
    exact fun _ _ => rfl
  have hfront : pre ≠ [] → ∀ ds, Broken pre.flatten (l ++ ds) := by
    intro hpre ds
    have hbroken := broken_of_endedFrom cs h hpre (List.cons_ne_nil l post)
    rw [List.flatten_cons] at hbroken
    exact ⟨hbroken.1, by rw [hhead ds post.flatten]; exact hbroken.2⟩
  have hback : post ≠ [] → Broken l post.flatten := by
    intro hpost
    have hsplit : endedFrom [] cs = (pre ++ [l]) ++ post := by rw [h]; simp
    have hbroken := broken_of_endedFrom cs hsplit (by simp) hpost
    rw [List.flatten_append, List.flatten_singleton] at hbroken
    exact hbroken.of_append hne
  have hcs : cs = pre.flatten ++ (l ++ post.flatten) := by
    have hflat := flatten_endedFrom cs []
    rw [h] at hflat
    simpa using hflat.symm
  have hrest : linesFrom [] (l ++ post.flatten) = body :: linesFrom [] post.flatten := by
    have hone : linesFrom [] l = [body] := by
      rw [hl]
      exact linesFrom_ended hbody (hl ▸ hne) htail
    by_cases hpost : post = []
    · rw [hpost, List.flatten_nil, List.append_nil, hone]
      simp [linesFrom]
    · rw [linesFrom_append_broken _ [] (hback hpost), hone]
      rfl
  refine ⟨body, tail, hl, hbody, hne, htail, hfront, hback, ?_⟩
  rw [hcs]
  by_cases hpre : pre = []
  · rw [hpre, List.flatten_nil, List.nil_append, hrest]
    simp [linesFrom]
  · rw [linesFrom_append_broken _ [] (hfront hpre _), hrest]

/-- A line that is put behind a line with its end is read there. -/
theorem Around.insert {cs l body tail row : List Char} {pre post : List (List Char)}
    (h : Around cs pre l post body tail) (htail : tail ≠ []) (hrow : OneLine row) (hne : row ≠ []) :
    linesFrom [] (pre ++ l :: (row ++ ['\n']) :: post).flatten =
      linesFrom [] pre.flatten ++ body :: row :: linesFrom [] post.flatten := by
  have hbreak : ∃ c ∈ l.getLast?, isLineBreak c = true := by
    rw [h.line, List.getLast?_append_of_ne_nil _ htail]
    rcases h.ends with rfl | ⟨c, hc, rfl⟩ | rfl
    · exact absurd rfl htail
    · exact ⟨c, rfl, hc⟩
    · exact ⟨'\n', rfl, by decide⟩
  have hnext : Broken l (row ++ ['\n'] ++ post.flatten) := by
    refine ⟨hbreak, fun hcr => ?_⟩
    obtain ⟨c, more, rfl⟩ := List.exists_cons_of_ne_nil hne
    exact head?_ne_newline hrow hcr.2
  have hone : linesFrom [] l = [body] := by
    rw [h.line]
    exact linesFrom_ended h.oneLine (h.line ▸ h.ne_nil) h.ends
  have hflat : (pre ++ l :: (row ++ ['\n']) :: post).flatten =
      pre.flatten ++ (l ++ (row ++ ['\n'] ++ post.flatten)) := by simp
  rw [hflat, h.linesFrom_front, linesFrom_append_broken _ [] hnext, hone,
    linesFrom_append_broken _ [] (broken_newline row post.flatten), linesFrom_newline hrow]
  simp

/-- A line that is put behind the last line, when that has no end, is read as the rest of it. -/
theorem Around.glue {cs l body row : List Char} {pre post : List (List Char)}
    (h : Around cs pre l post body []) (hrow : OneLine row) :
    linesFrom [] (pre ++ l :: (row ++ ['\n']) :: post).flatten = linesFrom [] pre.flatten ++ [body ++ row] := by
  have hlast : post = [] := by
    by_contra hpost
    -- a line with no end is the last one
    obtain ⟨⟨c, hc, hbreak⟩, -⟩ := h.back hpost
    rw [h.line, List.append_nil] at hc
    rw [h.oneLine c (List.mem_of_getLast? hc)] at hbreak
    cases hbreak
  have hflat : (pre ++ l :: (row ++ ['\n']) :: post).flatten = pre.flatten ++ (l ++ (row ++ ['\n'])) := by
    rw [hlast]
    simp
  have hboth : OneLine (body ++ row) := OneLine.append.mpr ⟨h.oneLine, hrow⟩
  rw [hflat, h.linesFrom_front, h.line, List.append_nil, ← List.append_assoc, linesFrom_newline hboth]
  rfl

end Text
