import Saipen.State.Script

/-! # Lines of the reader and of the writers

The reader splits a text at every line separator, the writers split it at newlines. Up to blank lines,
the lines of the reader are those within the lines of the writers. When both find the same closing
fence, reading is a run over the kinds of the lines in front of it. -/

namespace Saipen.State

open Text

/-- The kinds of the reader's lines within a line of the writers. -/
def kindsOf (m : String) : List Kind := (fullLines m).map kind

/-- The reader's lines behind the opening fence, in the line that begins with it. -/
def openingRest (text : String) : List String := (fullLines ((split '\n' text).headD "")).tail

/-- No line of the reader in front of the writers' closing fence is a fence. -/
def SameFence (text : String) : Prop :=
  ∀ line ∈ openingRest text ++ (bodyLines text).flatMap fullLines, isFence line = false

/-! ### The reader runs over kinds -/

theorem readLine_toOption (p : Printable) (n : Nat) (line : String) (s : Reading) :
    (readLine p n line s).toOption = step (kind line) s := by
  unfold readLine kind
  by_cases hblank : strip line = ""
  · rw [if_pos hblank, if_pos hblank]
    rfl
  · rw [if_neg hblank, if_neg hblank]
    cases hitem : itemLine line with
    | some raw =>
      cases hcurrent : s.current with
      | none => simp [step, hcurrent, Except.toOption]
      | some key => simp [step, hcurrent, Except.toOption]
    | none =>
      cases hfield : fieldLine line with
      | none => rfl
      | some f =>
        obtain ⟨key, raw⟩ := f
        simp only [step]
        split
        case isTrue => rfl
        case isFalse =>
          unfold fieldValue fieldList
          split <;> rfl

theorem readLines_toOption (p : Printable) (lines : List String) : ∀ (n : Nat) (s : Reading),
    (readLines p n lines s).toOption =
      if lines.any isFence then
        (run ((lines.takeWhile (!isFence ·)).map kind) s).map (·.fields)
      else none := by
  induction lines with
  | nil => exact fun _ _ => rfl
  | cons line lines ih =>
    intro n s
    rw [readLines]
    split
    case isTrue h => simp [h, run, Except.toOption]
    case isFalse h =>
      have hstep := readLine_toOption p n line s
      have hfence : isFence line = false := by simpa using h
      rw [List.any_cons, hfence, Bool.false_or, List.takeWhile_cons_of_pos (by simp [hfence]),
        List.map_cons, run, ← hstep]
      cases hread : readLine p n line s with
      | error e => simp [Except.toOption]
      | ok s' => simpa [Except.toOption] using ih (n + 1) s'

theorem kind_empty : kind "" = .blank := rfl

/-- Empty lines are read over. -/
theorem run_fullLines (lines : List String) (s : Reading) :
    run ((lines.filter (· ≠ "")).map kind) s = run (lines.map kind) s := by
  induction lines generalizing s with
  | nil => rfl
  | cons line lines ih =>
    by_cases h : line = ""
    · subst h
      rw [List.filter_cons_of_neg (by simp), ih]
      rfl
    · rw [List.filter_cons_of_pos (by simpa using h), List.map_cons, List.map_cons, run, run]
      exact congrArg _ (funext ih)

theorem filter_takeWhile (lines : List String) :
    (lines.takeWhile (!isFence ·)).filter (· ≠ "") =
      (lines.filter (· ≠ "")).takeWhile (!isFence ·) := by
  induction lines with
  | nil => rfl
  | cons line lines ih =>
    by_cases h : line = ""
    · subst h
      rw [List.takeWhile_cons_of_pos (by decide), List.filter_cons_of_neg (by simp),
        List.filter_cons_of_neg (by simp), ih]
    · rw [List.filter_cons_of_pos (p := (· ≠ "")) (by simpa using h)]
      cases hfence : isFence line with
      | true => rw [List.takeWhile_cons_of_neg (by simp [hfence]), List.takeWhile_cons_of_neg (by simp [hfence])]; rfl
      | false =>
        rw [List.takeWhile_cons_of_pos (by simp [hfence]), List.takeWhile_cons_of_pos (by simp [hfence]),
          List.filter_cons_of_pos (by simpa using h), ih]

theorem any_filter (lines : List String) :
    (lines.filter (· ≠ "")).any isFence = lines.any isFence := by
  rw [Bool.eq_iff_iff, List.any_eq_true, List.any_eq_true]
  constructor
  · rintro ⟨line, hline, hfence⟩
    exact ⟨line, (List.mem_filter.mp hline).1, hfence⟩
  · rintro ⟨line, hline, hfence⟩
    refine ⟨line, List.mem_filter.mpr ⟨hline, ?_⟩, hfence⟩
    have hne : line ≠ "" := by
      rintro rfl
      exact absurd hfence (by decide)
    simpa using hne

/-! ### The closing fence -/

/-- A line of the writers that is a fence has blank lines of the reader and then a fence. -/
theorem fence_fullLines {m : String} (h : isFence m = true) : ∃ pre f post,
    fullLines m = pre ++ f :: post ∧ (∀ l ∈ pre, strip l = "") ∧ isFence f = true := by
  have hstrip : strip m = "---" := by simpa [isFence] using h
  have hdash : isLineBreak '-' = false := by decide
  obtain ⟨front, back, hm, hfront, hback⟩ := strip_parts m
  rw [hstrip] at hm
  obtain ⟨pre, last, hlines, hpre, hlast⟩ :=
    linesFrom_spaces (d := '-') (by decide) ('-' :: '-' :: back) hfront
      (by simp : ∀ c ∈ ([] : List Char), isSpace c = true)
  obtain ⟨t, ls, hhead, ht⟩ := linesFrom_head back (by simp : '-' :: '-' :: '-' :: last ≠ [])
  have hall : linesFrom [] m.toList =
      pre ++ (last.reverse ++ ("---".toList ++ t)) :: ls := by
    rw [hm]
    refine hlines.trans ?_
    rw [linesFrom_cons (by decide), if_neg (by simp [hdash]), linesFrom_cons (by decide),
      if_neg (by simp [hdash]), linesFrom_cons (by decide), if_neg (by simp [hdash]), hhead]
    simp
  refine ⟨(pre.filter (· ≠ [])).map String.ofList, String.ofList (last.reverse ++ ("---".toList ++ t)),
    (ls.filter (· ≠ [])).map String.ofList, ?_, ?_, ?_⟩
  · rw [fullLines_eq, fullFrom, hall, List.filter_append, List.filter_cons_of_pos (by simp),
      List.map_append, List.map_cons]
  · intro l hl
    obtain ⟨cs, hcs, rfl⟩ := List.mem_map.mp hl
    refine strip_padded cs [] [] (by simp) ?_ (by simp) (by simp) (by simp)
    exact hpre cs (List.mem_filter.mp hcs).1
  · rw [isFence, strip_padded last.reverse "---".toList t (by simp) ?_ ?_
      (by simp; decide) (by simp; decide)]
    · decide
    · exact fun c hc => hlast c (List.mem_reverse.mp hc)
    · exact fun c hc => hback c (ht.subset hc)

theorem isFence_of_strip {l : String} (h : strip l = "") : isFence l = false := by
  rw [isFence, h]
  decide

theorem kind_of_strip {l : String} (h : strip l = "") : kind l = .blank := by
  rw [kind, if_pos h]

/-- Nothing is read behind the closing fence. -/
theorem run_takeWhile {lines more : List String} {close : String}
    (hlines : ∀ line ∈ lines, isFence line = false) (hclose : isFence close = true) (s : Reading) :
    run (((lines ++ (fullLines close ++ more)).takeWhile (!isFence ·)).map kind) s =
      run (lines.map kind) s := by
  obtain ⟨pre, f, post, hfull, hpre, hf⟩ := fence_fullLines hclose
  rw [hfull, List.takeWhile_append_of_pos fun line hline => by simp [hlines line hline],
    List.append_assoc, List.takeWhile_append_of_pos fun line hline => by
      simp [isFence_of_strip (hpre line hline)],
    List.cons_append, List.takeWhile_cons_of_neg (by simp [hf]), List.append_nil, List.map_append,
    run_append]
  have hblank : ∀ t, run (pre.map kind) t = some t := by
    intro t
    rw [← run_filter, List.filter_eq_nil_iff.mpr ?_]
    · rfl
    · intro k hk
      obtain ⟨l, hl, rfl⟩ := List.mem_map.mp hk
      simp [kind_of_strip (hpre l hl)]
  cases run (lines.map kind) s with
  | none => rfl
  | some t => exact hblank t

/-- A text that begins with its first line. -/
theorem splitLines_opening {text : String} (h : startsWith text "---" = true) :
    ∃ first lines, splitLines text = first :: lines ∧ first ≠ "" := by
  obtain ⟨cs, hcs⟩ := List.isPrefixOf_iff_prefix.mp h
  obtain ⟨l, ls, hl, -⟩ := linesFrom_cons_head (c := '-') ('-' :: '-' :: cs) (by decide)
  have htext : text.toList = '-' :: '-' :: '-' :: cs := hcs.symm
  refine ⟨String.ofList ('-' :: l), ls.map String.ofList, by rw [splitLines, htext, hl, List.map_cons], ?_⟩
  rw [ne_eq, ← String.toList_eq_nil_iff]
  simp

/-- Reading a text whose closing fence is the writers'. -/
theorem parse_parts (p : Printable) {text m₀ first close : String} {rest body more : List String}
    (hstart : startsWith text "---" = true)
    (hsplit : split '\n' text = m₀ :: (body ++ close :: more)) (hm₀ : fullLines m₀ = first :: rest)
    (hfence : ∀ line ∈ rest ++ body.flatMap fullLines, isFence line = false)
    (hclose : isFence close = true) :
    (parseFrontmatter p text).toOption = if isFence first then
      (run ((rest ++ body.flatMap fullLines).map kind) {}).map (·.fields) else none := by
  obtain ⟨first', lines, hlines, hne⟩ := splitLines_opening hstart
  have hfull : fullLines text = first' :: lines.filter (· ≠ "") := by
    rw [fullLines, hlines, List.filter_cons_of_pos (by simpa using hne)]
  rw [fullLines_split, hsplit, List.flatMap_cons, hm₀, List.flatMap_append, List.flatMap_cons,
    List.cons_append, ← List.append_assoc, List.cons.injEq] at hfull
  obtain ⟨rfl, hrest⟩ := hfull
  rw [parseFrontmatter, hlines]
  dsimp only
  split
  case isFalse => rfl
  case isTrue =>
    have hany : lines.any isFence = true := by
      obtain ⟨pre, f, post, hf, -, hisf⟩ := fence_fullLines hclose
      rw [← any_filter, ← hrest, hf, List.any_eq_true]
      exact ⟨f, by simp, hisf⟩
    rw [readLines_toOption, if_pos hany, ← run_fullLines, filter_takeWhile, ← hrest,
      run_takeWhile hfence hclose]

/-! ### The lines of a text, and of an edited one -/

/-- What the reader finds in front of the writers' closing fence. -/
def frontKinds (text : String) : List Kind :=
  (openingRest text).map kind ++ (bodyLines text).flatMap kindsOf

theorem map_kind_flatMap (ms : List String) : (ms.flatMap fullLines).map kind = ms.flatMap kindsOf :=
  List.map_flatMap ..

theorem split_ne_nil (text : String) : ∃ m ms, split '\n' text = m :: ms := by
  rw [split]
  cases h : text.toList.splitOn '\n' with
  | nil => exact absurd h (List.splitOn_ne_nil _ _)
  | cons m ms => exact ⟨_, _, rfl⟩

/-- The line that begins with the opening fence. -/
theorem opening_fullLines {text m : String} {ms : List String} (hstart : startsWith text "---" = true)
    (hsplit : split '\n' text = m :: ms) : ∃ first, fullLines m = first :: openingRest text := by
  obtain ⟨cs, hcs⟩ := List.isPrefixOf_iff_prefix.mp hstart
  have htext : text.toList = '-' :: '-' :: '-' :: cs := hcs.symm
  have hjoin : "\n".intercalate (split '\n' text) = text := intercalate_split text
  rw [hsplit] at hjoin
  have hm : ∃ ds, m.toList = '-' :: ds := by
    have hlist := congrArg String.toList hjoin
    rw [htext, String.toList_intercalate, List.map_cons] at hlist
    cases hmm : m.toList with
    | nil =>
      rw [hmm] at hlist
      cases ms with
      | nil => simp at hlist
      | cons n ms => simp at hlist
    | cons c ds =>
      rw [hmm] at hlist
      cases ms with
      | nil =>
        simp only [List.map_nil, List.intercalate_singleton, List.cons.injEq] at hlist
        exact ⟨ds, by rw [hlist.1]⟩
      | cons n ms =>
        rw [List.map_cons, List.intercalate_cons_cons] at hlist
        simp only [List.cons_append, List.cons.injEq] at hlist
        exact ⟨ds, by rw [hlist.1]⟩
  obtain ⟨ds, hds⟩ := hm
  obtain ⟨l, ls, hl, -⟩ := linesFrom_cons_head (c := '-') ds (by decide)
  have hfull : fullLines m = String.ofList ('-' :: l) :: (ls.filter (· ≠ [])).map String.ofList := by
    rw [fullLines_eq, fullFrom, hds, hl, List.filter_cons_of_pos (by simp), List.map_cons]
  refine ⟨String.ofList ('-' :: l), ?_⟩
  rw [openingRest, hsplit, List.headD_cons, hfull]
  rfl

/-- The parts of a text that the reader accepts. -/
theorem accepted_parts {p : Printable} {text : String} {fields : Fields}
    (hstart : startsWith text "---" = true) (hparse : parseFrontmatter p text = .ok fields)
    (hsame : SameFence text) : ∃ close more t, suffixLines text = close :: more ∧
      isFence close = true ∧ run (frontKinds text) {} = some t ∧ t.fields = fields := by
  obtain ⟨m, ms, hsplit⟩ := split_ne_nil text
  obtain ⟨first, hm⟩ := opening_fullLines hstart hsplit
  have hms : ms = bodyLines text ++ suffixLines text := by
    rw [bodyLines, suffixLines, hsplit, List.tail_cons, List.takeWhile_append_dropWhile]
  have hsome : (parseFrontmatter p text).toOption = some fields := by rw [hparse]; rfl
  cases hsuffix : suffixLines text with
  | nil =>
    -- without a fence of the writers there is none of the reader
    obtain ⟨first', lines, hlines, hne⟩ := splitLines_opening hstart
    have hfull : fullLines text = first' :: lines.filter (· ≠ "") := by
      rw [fullLines, hlines, List.filter_cons_of_pos (by simpa using hne)]
    rw [fullLines_split, hsplit, List.flatMap_cons, hm, hms, hsuffix, List.append_nil, List.cons_append,
      List.cons.injEq] at hfull
    have hnone : lines.any isFence = false := by
      rw [← any_filter, ← hfull.2, List.any_eq_false]
      exact fun line hline => by simp [hsame line hline]
    rw [parseFrontmatter, hlines] at hsome
    dsimp only at hsome
    split at hsome
    · rw [readLines_toOption, hnone] at hsome
      cases hsome
    · cases hsome
  | cons close more =>
    have hclose : isFence close = true := by
      have hhead := List.head?_dropWhile_not (!isFence ·) (split '\n' text).tail
      rw [← suffixLines, hsuffix] at hhead
      simpa using hhead
    rw [parse_parts p hstart (hsplit.trans (by rw [hms, hsuffix])) hm hsame hclose] at hsome
    split at hsome
    · obtain ⟨t, ht, hfields⟩ := Option.map_eq_some_iff.mp hsome
      refine ⟨close, more, t, rfl, hclose, ?_, hfields⟩
      rw [frontKinds, ← map_kind_flatMap, ← List.map_append]
      exact ht
    · cases hsome

/-- Reading an edited text. -/
theorem parse_assemble (p : Printable) {out more : List String} {close : String}
    (hlines : ∀ m ∈ out ++ close :: more, '\n' ∉ m.toList)
    (hfence : ∀ line ∈ out.flatMap fullLines, isFence line = false) (hclose : isFence close = true) :
    (parseFrontmatter p (assemble out (close :: more))).toOption =
        (run (out.flatMap kindsOf) {}).map (·.fields) ∧
      suffixLines (assemble out (close :: more)) = close :: more := by
  -- an empty body leaves an empty line
  let body := if out = [] then [""] else out
  have hbody : body ≠ [] ∧ "\n".intercalate body = "\n".intercalate out ∧
      body.flatMap fullLines = out.flatMap fullLines ∧ ∀ m ∈ body, '\n' ∉ m.toList := by
    dsimp only [body]
    split
    case isTrue h =>
      subst h
      exact ⟨by simp, by decide, by decide, by simp⟩
    case isFalse h => exact ⟨h, rfl, rfl, fun m hm => hlines m (List.mem_append_left _ hm)⟩
  obtain ⟨hne, hjoin, hfull, hbodylines⟩ := hbody
  have htext : assemble out (close :: more) = "\n".intercalate ("---" :: (body ++ close :: more)) := by
    have hcons : "---" :: (body ++ close :: more) = ["---"] ++ (body ++ close :: more) := rfl
    rw [hcons, intercalate_append (by simp) (by simp), intercalate_append hne (by simp), hjoin, assemble,
      ← String.toList_inj]
    simp
  have hsplit : split '\n' (assemble out (close :: more)) = "---" :: (body ++ close :: more) := by
    rw [htext]
    refine split_intercalate (fun m hm => ?_) (by simp)
    rcases List.mem_cons.mp hm with rfl | hm
    · decide
    · rcases List.mem_append.mp hm with hm | hm
      · exact hbodylines m hm
      · exact hlines m (List.mem_append_right _ hm)
  have hstart : startsWith (assemble out (close :: more)) "---" = true := by
    rw [startsWith, List.isPrefixOf_iff_prefix, assemble]
    exact ⟨'\n' :: ("\n".intercalate out ++ "\n" ++ "\n".intercalate (close :: more)).toList, by simp⟩
  have hbodyfence : ∀ m ∈ body, isFence m = false := by
    intro m hm
    by_contra hf
    obtain ⟨pre, f, post, hfm, -, hisf⟩ := fence_fullLines (by simpa using hf)
    have hmem : f ∈ out.flatMap fullLines := by
      rw [← hfull]
      exact List.mem_flatMap.mpr ⟨m, hm, by rw [hfm]; simp⟩
    rw [hfence f hmem] at hisf
    cases hisf
  constructor
  · rw [parse_parts p hstart hsplit (by decide : fullLines "---" = ["---"])
      (by rw [List.nil_append, hfull]; exact hfence) hclose, if_pos (by decide), List.nil_append, hfull,
      map_kind_flatMap]
  · rw [suffixLines, hsplit, List.tail_cons, List.dropWhile_append_of_pos fun m hm => by
      simp [hbodyfence m hm], List.dropWhile_cons_of_neg (by simp [hclose])]

end Saipen.State
