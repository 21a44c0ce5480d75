import Saipen.Log.History

/-! # The ids lines claim

`declared_event_id` finds the first `[E-n]` of a text. In a legal line that is the id of the event; in
the report of a damaged line it is the first id among the characters the report shows. -/

namespace Saipen.Log

open Text FileTree

/-- An event group is a mention at the beginning of the text. -/
theorem eventGroup_fst (cs : List Char) : (eventGroup cs).map (·.1) = mentionAt 'E' cs := by
  ext n
  rw [mentionAt_eq_some_iff, Option.map_eq_some_iff]
  constructor
  · rintro ⟨⟨m, rest⟩, h, rfl⟩
    obtain ⟨ds, rfl, hds⟩ := eventGroup_eq_some_iff.mp h
    exact ⟨ds, rest, rfl, hds⟩
  · rintro ⟨ds, rest, rfl, hds⟩
    exact ⟨(n, rest), eventGroup_eq_some_iff.mpr ⟨ds, rfl, hds⟩, rfl⟩

theorem declaredEventId_eq (line : String) :
    declaredEventId line = (mentions 'E' line.toList).head? := by
  simp only [declaredEventId, eventGroup_fst, mentions, List.head?_filterMap]

/-- A legal line claims the id of its event. -/
theorem declaredEventId_of_parse {line : String} {e : LogEvent} (h : parseLogLine line = some e) :
    declaredEventId line = some e.event := by
  obtain ⟨pre, ds, rest, hline, hopen, hds⟩ := parsed_event h
  have hat : mentionAt 'E' ('[' :: 'E' :: '-' :: (ds ++ ']' :: rest)) = some e.event :=
    mentionAt_eq_some_iff.mpr ⟨ds, rest, rfl, hds⟩
  rw [declaredEventId_eq, hline, mentions_append_of_open hopen, mentions_cons, hat]
  rfl

/-! ### Names of files -/

theorem bracket_notMem_of_segmentNumber {name : String} {n : Nat} (h : segmentNumber name = some n) :
    '[' ∉ name.toList := by
  simp only [segmentNumber, Option.bind_eq_bind, Option.bind_eq_some_iff] at h
  obtain ⟨cs, hcs, h⟩ := h
  split at h
  case isFalse => cases h
  case isTrue hend =>
    have hdigits : '[' ∉ cs.takeWhile isDecimal := fun hmem =>
      absurd (isDecimal_of_number? h hmem) (by decide)
    have hrest : '[' ∉ cs.dropWhile isDecimal := by
      rw [List.mem_cons, List.mem_singleton] at hend
      rcases hend with hend | hend <;> rw [hend] <;> decide
    have hcs' : '[' ∉ cs := by
      rw [← List.takeWhile_append_dropWhile (p := isDecimal) (l := cs), List.mem_append, not_or]
      exact ⟨hdigits, hrest⟩
    rw [literal_eq_some_iff.mp hcs, List.mem_append, not_or]
    exact ⟨by decide, hcs'⟩

/-- No file of a history has a bracket in its name. -/
theorem bracket_notMem_name {h : History} {line : HistoryLine} (hline : line ∈ h.lines) :
    '[' ∉ line.1.toList := by
  obtain ⟨seg, hseg, hline⟩ := List.mem_flatMap.mp hline
  obtain ⟨l, -, rfl⟩ := List.mem_map.mp hline
  rcases List.mem_append.mp hseg with hseg | hseg
  · obtain ⟨s, -, rfl⟩ := List.mem_map.mp hseg
    exact bracket_notMem_of_segmentNumber s.numbered
  · obtain ⟨raw, -, rfl⟩ := Option.map_eq_some_iff.mp (Option.mem_toList.mp hseg)
    have hname : '[' ∉ "LOG.md".toList := by decide
    exact hname

/-! ### The report of a damaged line -/

theorem escapes (p : Printable) (cs : List Char) : Escapes 'E' (escape p (quoteFor cs)) where
  cases := escape_cases (quoteFor_eq cs)
  own := by
    have hquote := quoteFor_eq cs
    intro c hc
    simp only [List.mem_cons, List.not_mem_nil, or_false] at hc
    rcases hc with rfl | rfl | rfl | rfl <;> rcases hquote with hq | hq <;> rw [hq] <;>
      exact escape_ascii (by decide) (by decide) (by decide) (by decide)
  decimal := fun _ hc => escape_decimal (quoteFor_eq cs) hc

/-- A string and its `repr` mention the same events. -/
theorem mentions_reprStr (p : Printable) (s : String) :
    mentions 'E' (reprStr p s).toList = mentions 'E' s.toList := by
  have hopen : '[' ∉ [quoteFor s.toList] := by
    rcases quoteFor_eq s.toList with h | h <;> rw [h] <;> decide
  have hclose : ']' ∉ [quoteFor s.toList] := by
    rcases quoteFor_eq s.toList with h | h <;> rw [h] <;> decide
  have hrepr : (Text.reprStr p s).toList = [quoteFor s.toList] ++
      (s.toList.flatMap (escape p (quoteFor s.toList)) ++ [quoteFor s.toList]) := by
    rw [Text.reprStr, String.toList_ofList]
    rfl
  rw [hrepr, mentions_append_of_open hopen, mentions_append_of_close (by decide) hclose,
    mentions_flatMap (by decide) (escapes p s.toList)]

/-- The id a report claims is the first one it shows of the line. -/
theorem declaredEventId_illegalLine {name line : String} {p : Printable} {idx : Nat}
    (h : '[' ∉ name.toList) :
    declaredEventId (illegalLine p name idx line) = declaredEventId (reported line) := by
  have hindex : '[' ∉ (idx + 1).repr.toList := fun hmem =>
    absurd (isDigit_of_mem_repr hmem) (by decide)
  have hopen : '[' ∉ (name ++ ":" ++ (idx + 1).repr ++ ": not a legal LOG event: ").toList := by
    simp only [String.toList_append, List.mem_append, h, hindex, false_or, or_false, not_or]
    exact ⟨by decide, by decide⟩
  rw [declaredEventId_eq, declaredEventId_eq, illegalLine, String.toList_append,
    mentions_append_of_open hopen, mentions_reprStr]

theorem mentions_strip (s : String) : mentions 'E' (strip s).toList = mentions 'E' s.toList := by
  have hnot : ∀ {c : Char} {cs : List Char}, isSpace c = false → (∀ d ∈ cs, isSpace d = true) →
      c ∉ cs := fun hc hall hmem => absurd ((hall _ hmem).symm.trans hc) (by decide)
  obtain ⟨pre, post, hs, hpre, hpost⟩ := strip_parts s
  rw [hs, mentions_append_of_open (hnot (by decide) hpre),
    mentions_append_of_close (by decide) (hnot (by decide) hpost)]

/-- What a report shows of a line claims no other id than the line. -/
theorem declaredEventId_of_reported {line : String} {n : Nat}
    (h : declaredEventId (reported line) = some n) : declaredEventId line = some n := by
  rw [declaredEventId_eq] at h ⊢
  obtain ⟨more, hmore⟩ := mentions_append (by decide : 'E' ≠ '[') ((strip line).toList.take 80)
    ((strip line).toList.drop 80)
  rw [List.take_append_drop, mentions_strip] at hmore
  rw [reported, String.toList_ofList] at h
  rw [hmore, List.head?_append, h]
  rfl

end Saipen.Log
