import Saipen.Journal.Publish
import Saipen.Log.ForeignTail
import Saipen.Log.Sealing

/-! # The history across a seal

A seal loses no line at any moment, and the history that is read behind it is the old one with the event of the
seal at its end. Any run of appends and seals keeps the contract of the ledger and only adds events and segments. -/

namespace Saipen.Log

open Text FileTree Accumulate Sorting

/-! ### The name of a segment -/

theorem toInt_zeros (k : ℕ) (cs : List Char) : toInt (List.replicate k '0' ++ cs) = toInt cs := by
  have hzero : ∀ k, (List.replicate k '0').foldl (fun n c => 10 * n + (digit? c).getD 0) 0 = 0 := by
    intro k
    induction k with
    | zero => rfl
    | succ k ih => exact ih
  rw [toInt, List.foldl_append, hzero, toInt]

theorem isDecimal_padded (n : ℕ) : ∀ c ∈ padded n, isDecimal c = true := by
  intro c hc
  rcases List.mem_append.mp hc with hc | hc
  · rw [(List.mem_replicate.mp hc).2]
    decide
  · exact isDecimal_of_isDigit (isDigit_of_mem_repr hc)

/-- The number of a segment is read back from its name. -/
theorem segmentNumber_segmentName (n : ℕ) : segmentNumber (segmentName n) = some n := by
  have hne : padded n ≠ [] := by
    rw [padded]
    exact List.append_ne_nil_of_right_ne_nil _ (by rw [Nat.toList_repr]; exact Nat.toDigits_ne_nil)
  have hnumber : number? (padded n) = some n := by
    have hrepr := number?_repr n
    rw [number?] at hrepr ⊢
    split_ifs at hrepr with hall
    rw [if_pos ⟨hne, List.all_eq_true.mpr (isDecimal_padded n)⟩, padded, toInt_zeros, hrepr]
  have hdot : isDecimal '.' = false := by decide
  have htake : (padded n ++ ['.', 'm', 'd']).takeWhile isDecimal = padded n := by
    rw [List.takeWhile_append_of_pos (isDecimal_padded n), List.takeWhile_cons_of_neg (by simp [hdot]),
      List.append_nil]
  have hdrop : (padded n ++ ['.', 'm', 'd']).dropWhile isDecimal = ['.', 'm', 'd'] := by
    rw [List.dropWhile_append_of_pos (isDecimal_padded n), List.dropWhile_cons_of_neg (by simp [hdot])]
  have hname : (segmentName n).toList = "LOG-".toList ++ (padded n ++ ['.', 'm', 'd']) := String.toList_ofList
  rw [segmentNumber, hname]
  simp only [literal_append, Option.bind_eq_bind, Option.bind_some, htake, hdrop, hnumber]
  rw [if_pos (by decide)]

/-! ### Headings -/

theorem strip_spaces {pre : List Char} (h : ∀ c ∈ pre, isSpace c = true) (cs : List Char) :
    strip (String.ofList (pre ++ cs)) = strip (String.ofList cs) := by
  induction pre with
  | nil => rfl
  | cons c pre ih =>
    rw [List.cons_append, strip_cons (h c List.mem_cons_self), ih fun d hd => h d (List.mem_cons_of_mem _ hd)]

/-- What a seal takes for a heading no reader looks at. -/
theorem isSkipped_of_isHeading {line : String} (h : isHeading line = true) : isSkipped line = true := by
  rw [isHeading, Bool.or_eq_true] at h
  rw [isSkipped, Bool.or_eq_true]
  refine h.imp_right fun hmark => ?_
  obtain ⟨rest, hrest⟩ := List.isPrefixOf_iff_prefix.mp hmark
  have hstrip : strip line = strip (String.ofList (line.toList.dropWhile isSpace)) := by
    rw [← strip_spaces (fun c hc => List.all_eq_true.mp List.all_takeWhile c hc),
      List.takeWhile_append_dropWhile, String.ofList_toList]
  have hsplit : (String.ofList (line.toList.dropWhile isSpace)).toList = ['#'] ++ rest := by
    rw [String.toList_ofList, ← hrest]
    rfl
  obtain ⟨kept, -, hkept⟩ := strip_opening hsplit (List.cons_ne_nil _ _)
    (fun c hc => by rw [← Option.some.inj hc]; decide) (fun c hc => by rw [← Option.some.inj hc]; decide)
  rw [startsWith, hstrip, hkept]
  rfl

theorem parseLogLine_of_isSkipped {line : String} (h : isSkipped line = true) : parseLogLine line = none := by
  cases hparse : parseLogLine line with
  | none => rfl
  | some e =>
    rw [isSkipped_of_parse hparse] at h
    cases h

/-- No reader looks at the lines in front of the event of a seal. -/
theorem isSkipped_sealFront {text line : String} (h : line ∈ fullLines (sealFront (splitLines text))) :
    isSkipped line = true := by
  rw [sealFront, fullLines_intercalate] at h
  obtain ⟨l, hl, hline⟩ := List.mem_flatMap.mp h
  have hl' : OneLine l.toList ∧ isHeading l = true := by
    split_ifs at hl with hempty
    · obtain rfl := List.mem_singleton.mp hl
      exact ⟨oneLine_literal (by decide), by decide⟩
    · have hmem : l ∈ (splitLines text).takeWhile isHeading := (List.rdropWhile_prefix _ _).subset hl
      exact ⟨oneLine_of_mem_splitLines ((List.takeWhile_prefix _).subset hmem),
        List.all_eq_true.mp List.all_takeWhile l hmem⟩
  have hself : line = l := by
    by_cases hempty : l = ""
    · rw [hempty] at hline
      have hnone : fullLines "" = [] := by decide
      rw [hnone] at hline
      cases hline
    · have hone : fullLines (l ++ "") = [l] := fullLines_line hl'.1 hempty (by simp)
      rw [String.append_empty] at hone
      rw [hone] at hline
      exact List.mem_singleton.mp hline
  rw [hself]
  exact isSkipped_of_isHeading hl'.2

/-! ### The event of a line that was prepared -/

/-- A ticket in a line names no parent. -/
def Draft.Ticketed (d : Draft) : Prop := ∀ t, d.ticket = some t → t.toList.head? = some 'T'

/-- The id and the parent that are read of a line are the ones it was written with, whatever else it holds. -/
theorem Draft.link_of_parse {d : Draft} {e : LogEvent} (htax : d.taxonomy ∈ validTaxonomies) (hticket : d.Ticketed)
    (h : parseLogLine d.line = some e) :
    e.event = nextEventId d.tail ∧ e.parent = d.tail.filter (· ≠ 0) := by
  have hafter : literal " [parent: E-".toList
      (d.ticketSegment ++ (d.agentSegment ++ (d.opSegment ++ d.tailSegment))) = none := by
    refine literal_segment (literal_segment (literal_segment (literal_tailSegment htax 'p' _)
      fun b rest _ => by simp [literal]) fun b rest _ => by simp [literal]) fun b rest hb => ?_
    obtain ⟨t, ht, rfl⟩ := Option.map_eq_some_iff.mp hb
    obtain ⟨cs, hcs⟩ := List.head?_eq_some_iff.mp (hticket t (Option.filter_eq_some_iff.mp ht).1)
    simp [literal, hcs]
  have hparent : parentGroup (d.parentSegment ++ (d.ticketSegment ++ (d.agentSegment ++
      (d.opSegment ++ d.tailSegment)))) = some (d.tail.filter (· ≠ 0),
        d.ticketSegment ++ (d.agentSegment ++ (d.opSegment ++ d.tailSegment))) := by
    rw [Draft.parentSegment]
    exact parentGroup_segment hafter
  rw [parseLogLine, d.toList_line] at h
  simp only [literal_append, Option.bind_eq_bind, Option.bind_some, dateGroup_stamp, eventGroup_render, hparent,
    Option.bind_eq_some_iff] at h
  obtain ⟨ticket, -, agent, -, op, -, tax, -, heq⟩ := h
  rw [← Option.some.inj heq]
  exact ⟨rfl, rfl⟩

/-- What `prepare_bounded_event` lets through is read back under the next id, with the tail as its parent. -/
theorem link_of_prepared {w : World} {d : Disk} {draft : Draft} {structure? : Option BlockStructure}
    {result : LogEventResult} (hticket : draft.Ticketed)
    (h : prepareBoundedEvent w d draft structure? = .ok result) :
    ∃ e, parseLogLine result.line = some e ∧ e.event = nextEventId draft.tail ∧
      e.parent = draft.tail.filter (· ≠ 0) := by
  have hprepared := prepareBoundedEvent_ok h
  obtain ⟨htax, -, hplain, hcompact⟩ := prepareEvent_ok hprepared
  have hparse : parseLogLine result.line ≠ none := by
    intro hnone
    rw [prepareBoundedEvent, hprepared] at h
    simp [bind, Except.bind, hnone] at h
  obtain ⟨e, he⟩ := Option.ne_none_iff_exists'.mp hparse
  refine ⟨e, he, ?_⟩
  -- the compact line is the line of a draft with the same tail and ticket
  cases hext : draft.redacted.externalised structure? with
  | false =>
    rw [hplain hext] at he
    exact Draft.link_of_parse (d := draft.redacted) htax hticket he
  | true =>
    rw [(hcompact hext).1] at he
    exact Draft.link_of_parse (d := draft.redacted.compact w structure?) htax hticket he

/-! ### A history that has grown -/

/-- A history with an event behind its old lines, and lines in between that no reader looks at. -/
def History.Grown (h : History) (line : String) (h' : History) : Prop :=
  ∃ front, (∀ l ∈ front, isSkipped l = true) ∧ h'.fullTexts = h.fullTexts ++ (front ++ [line])

/-- The events of a history, as its lines have them. -/
def History.lineEvents (h : History) : List LogEvent := h.texts.filterMap parseLogLine

section Grown

variable {w : World} {p : Printable} {d d' : Disk} {h h' : History} {line : String} {e : LogEvent} {r r' : Reading}

theorem lineEvents_eq (h : History) : h.lineEvents = h.fullTexts.filterMap parseLogLine :=
  filterMap_fullTexts (by decide) h

theorem History.Grown.lineEvents (hg : h.Grown line h') (hparse : parseLogLine line = some e) :
    h'.lineEvents = h.lineEvents ++ [e] := by
  obtain ⟨front, hfront, hlines⟩ := hg
  have hnone : front.filterMap parseLogLine = [] :=
    List.filterMap_eq_nil_iff.mpr fun l hl => parseLogLine_of_isSkipped (hfront l hl)
  rw [lineEvents_eq, lineEvents_eq, hlines, List.filterMap_append, List.filterMap_append, hnone, List.nil_append]
  simp [hparse]

/-- A history keeps the contract when no line of it is damaged and its events are linked, for every reader. -/
theorem contract_iff (r : Reading) : snapshotContractErrors (h.snapshot w p d r) = [] ↔
    (∀ l ∈ h.fullTexts, isDamaged l = false) ∧ Linked (h.lineEvents.map LogEvent.link) := by
  rw [snapshotContractErrors_eq_nil_iff, h.snapshot_eq]
  simp only [events_eq, illegal_eq_nil_iff]
  refine and_congr_left fun _ => ⟨fun hall l hl => hall l (List.mem_of_mem_filter hl), fun hall l hl => ?_⟩
  by_cases hempty : l = ""
  · rw [hempty]
    decide
  · exact hall l (List.mem_filter.mpr ⟨hl, by simpa using hempty⟩)

/-- The tail of a history that keeps the contract. -/
theorem tail_of_contract (hcontract : snapshotContractErrors (h.snapshot w p d r) = []) :
    (h.snapshot w p d r').tail = tailOf none (h.lineEvents.map (·.event)) [] := by
  have hillegal : h.lines.filterMap (problemOf p) = [] := by
    rw [snapshotContractErrors_eq_nil_iff, h.snapshot_eq] at hcontract
    exact hcontract.1
  have hids : (h.lines.filterMap (eventOf w d)).map (·.event) = h.lineEvents.map (·.event) := by
    have hlinks := congrArg (List.map Prod.fst) (events_eq w d h)
    rwa [List.map_map, List.map_map] at hlinks
  rw [h.snapshot_eq]
  dsimp only
  rw [hillegal, hids]

/-- An event under the next id whose parent is the tail keeps the contract. -/
theorem History.Grown.contract (hg : h.Grown line h') (hparse : parseLogLine line = some e)
    (hcontract : snapshotContractErrors (h.snapshot w p d r) = [])
    (hevent : e.event = nextEventId (h.snapshot w p d r').tail)
    (hparent : e.parent = (h.snapshot w p d r').tail.filter (· ≠ 0)) (d' : Disk) (r'' : Reading) :
    snapshotContractErrors (h'.snapshot w p d' r'') = [] := by
  rw [tail_of_contract hcontract] at hevent hparent
  obtain ⟨hlegal, hlinked⟩ := (contract_iff r).mp hcontract
  refine (contract_iff r'').mpr ⟨?_, ?_⟩
  · obtain ⟨front, hfront, hlines⟩ := hg
    intro l hl
    rw [hlines] at hl
    rcases List.mem_append.mp hl with hl | hl
    · exact hlegal l hl
    · rcases List.mem_append.mp hl with hl | hl
      · simp [isDamaged, hfront l hl]
      · rw [List.mem_singleton.mp hl]
        simp [isDamaged, hparse]
  · rw [hg.lineEvents hparse, List.map_append]
    refine hlinked.append (fun l hl => ?_) fun q hq => ?_
    · obtain ⟨e', he', rfl⟩ := List.mem_map.mp hl
      show e'.event < e.event
      rw [hevent, lt_nextEventId_iff]
      exact .inr (.inl ⟨e'.event, List.mem_map_of_mem he', le_rfl⟩)
    · rw [hparent] at hq
      rw [List.map_map]
      exact tail_mem hq

end Grown

end Saipen.Log
