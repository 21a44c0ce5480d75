import Saipen.Log.Readers
import Saipen.Log.Restore
import Saipen.Text.Lines

/-! # Event ids of an append-only ledger

The next event takes the id behind the tail, which reaches every event and every id the report of a
damaged line shows. Appending under that id keeps the contract of the ledger: no damaged line, ids in
increasing order, and every parent an older event. -/

namespace Saipen.Log

open Text FileTree Accumulate

/-! ### Linked sequences -/

/-- Pairs of an id and its parent in increasing order, each parent an older id. -/
structure Linked (links : List (Nat × Option Nat)) : Prop where
  parents : ∀ l ∈ links, ∀ parent, l.2 = some parent → parent ∈ links.map (·.1) ∧ parent < l.1
  ordered : (links.map (·.1)).Pairwise (· < ·)

/-- A newer id whose parent is one of the ids can be appended. -/
theorem Linked.append {links : List (Nat × Option Nat)} (hl : Linked links) {id : Nat}
    {parent : Option Nat} (hnew : ∀ l ∈ links, l.1 < id)
    (hparent : ∀ q, parent = some q → q ∈ links.map (·.1)) : Linked (links ++ [(id, parent)]) := by
  have hids : ∀ i ∈ links.map (·.1), i < id := by
    intro i hi
    obtain ⟨l, hlinks, rfl⟩ := List.mem_map.mp hi
    exact hnew l hlinks
  constructor
  · intro l hmem q hq
    rw [List.map_append, List.mem_append]
    rcases List.mem_append.mp hmem with hmem | hmem
    · exact ⟨.inl (hl.parents l hmem q hq).1, (hl.parents l hmem q hq).2⟩
    · obtain rfl := List.mem_singleton.mp hmem
      exact ⟨.inl (hparent q hq), hids q (hparent q hq)⟩
  · rw [List.map_append, List.pairwise_append]
    exact ⟨hl.ordered, List.pairwise_singleton .., fun i hi j hj => by
      obtain rfl := List.mem_singleton.mp hj
      exact hids i hi⟩

/-! ### The contract of the ledger -/

/-- The ids that stand more than once, in order. -/
def duplicates (ids : List Nat) : List Nat :=
  (ids.filter fun id => 1 < ids.count id).dedup.insertionSort (· ≤ ·)

/-- What is wrong with the parent of an event. -/
def parentErrors (known : List Nat) (id : Nat) (parent : Option Nat) : List String :=
  match parent with
  | none => []
  | some q =>
      if q ∉ known then
        ["E-" ++ id.repr ++ " parent E-" ++ q.repr ++ " does not exist in the ledger"]
      else if id ≤ q then ["E-" ++ id.repr ++ " parent E-" ++ q.repr ++ " is not older than E-" ++ id.repr]
      else []

/-- What is wrong with the id of an event behind the id in front of it. -/
def orderErrors (prev : Option Nat) (id : Nat) : List String :=
  match prev with
  | none => []
  | some q =>
      if id ≤ q then
        ["E-" ++ id.repr ++ " is not greater than preceding E-" ++ q.repr ++ " (out of order)"]
      else []

/-- The errors of the events in their order. -/
def linkErrors (known : List Nat) (prev : Option Nat) : List LogEvent → List String
  | [] => []
  | e :: events =>
      parentErrors known e.event e.parent ++ orderErrors prev e.event ++
        linkErrors known (some e.event) events

/-- `snapshot_contract_errors`. -/
def snapshotContractErrors (s : HistorySnapshot) : List String :=
  let ids := s.events.map (·.event)
  let dupes := duplicates ids
  s.illegalLines.take 4 ++
    (if dupes = [] then []
      else ["duplicate E-ID(s) in complete history: " ++
        ", ".intercalate ((dupes.take 10).map fun id => "E-" ++ id.repr)]) ++
    linkErrors (ids ++ s.illegalLines.filterMap declaredEventId) none s.events

/-- The id and the parent of an event. -/
def LogEvent.link (e : LogEvent) : Nat × Option Nat := (e.event, e.parent)

theorem parentErrors_eq_nil_iff {known : List Nat} {id : Nat} {parent : Option Nat} :
    parentErrors known id parent = [] ↔ ∀ q, parent = some q → q ∈ known ∧ q < id := by
  unfold parentErrors
  cases parent with
  | none => simp
  | some q =>
    by_cases hknown : q ∈ known
    · by_cases hle : id ≤ q
      · simp [hknown, hle]
      · simp [hknown, hle, not_le.mp hle]
    · simp [hknown]

theorem linkErrors_eq_nil_iff {known : List Nat} {events : List LogEvent} : ∀ prev : Option Nat,
    linkErrors known prev events = [] ↔
      (∀ e ∈ events, ∀ q, e.parent = some q → q ∈ known ∧ q < e.event) ∧
        List.IsChain (· < ·) (prev.toList ++ events.map (·.event)) := by
  induction events with
  | nil =>
    intro prev
    cases prev <;> simp [linkErrors]
  | cons e events ih =>
    intro prev
    have horder : orderErrors prev e.event = [] ↔ ∀ q, prev = some q → q < e.event := by
      unfold orderErrors
      cases prev with
      | none => simp
      | some q =>
        by_cases hle : e.event ≤ q
        · simp [hle]
        · simp [hle, not_le.mp hle]
    rw [linkErrors, List.append_eq_nil_iff, List.append_eq_nil_iff, parentErrors_eq_nil_iff, horder,
      ih, List.forall_mem_cons]
    cases prev with
    | none => simp; tauto
    | some q => simp; tauto

theorem duplicates_eq_nil {ids : List Nat} (h : ids.Pairwise (· < ·)) : duplicates ids = [] := by
  have hnodup : ids.Nodup := h.imp Nat.ne_of_lt
  have hnone : ids.filter (fun id => 1 < ids.count id) = [] := by
    rw [List.filter_eq_nil_iff]
    intro id _ hcount
    exact absurd (of_decide_eq_true hcount) (not_lt.mpr (List.nodup_iff_count_le_one.mp hnodup id))
  rw [duplicates, hnone]
  rfl

/-- A history keeps the contract when no line is damaged and its events are linked. -/
theorem snapshotContractErrors_eq_nil_iff {s : HistorySnapshot} :
    snapshotContractErrors s = [] ↔ s.illegalLines = [] ∧ Linked (s.events.map LogEvent.link) := by
  have hids : (s.events.map LogEvent.link).map (·.1) = s.events.map (·.event) := by
    rw [List.map_map]
    rfl
  have hlinked : Linked (s.events.map LogEvent.link) ↔
      (∀ e ∈ s.events, ∀ q, e.parent = some q → q ∈ s.events.map (·.event) ∧ q < e.event) ∧
        (s.events.map (·.event)).Pairwise (· < ·) := by
    constructor
    · intro h
      refine ⟨fun e he q hq => ?_, hids ▸ h.ordered⟩
      have hparent := h.parents e.link (List.mem_map_of_mem he) q hq
      rwa [hids] at hparent
    · rintro ⟨hparents, hordered⟩
      refine ⟨fun l hl q hq => ?_, hids ▸ hordered⟩
      obtain ⟨e, he, rfl⟩ := List.mem_map.mp hl
      rw [hids]
      exact hparents e he q hq
  rw [hlinked]
  simp only [snapshotContractErrors, List.append_eq_nil_iff, linkErrors_eq_nil_iff,
    List.take_eq_nil_iff, Option.toList_none, List.nil_append, List.isChain_iff_pairwise]
  constructor
  · rintro ⟨⟨hillegal | hillegal, -⟩, hparents, hordered⟩
    · cases hillegal
    · rw [hillegal, List.filterMap_nil, List.append_nil] at hparents
      exact ⟨hillegal, hparents, hordered⟩
  · rintro ⟨hillegal, hparents, hordered⟩
    rw [hillegal, List.filterMap_nil, List.append_nil]
    exact ⟨⟨.inr rfl, if_pos (duplicates_eq_nil hordered)⟩, hparents, hordered⟩

/-! ### The ids a history claims -/

/-- The texts of all lines. -/
def History.texts (h : History) : List String :=
  h.segments.flatMap fun seg => splitLines (normalisedDocText seg.raw)

/-- The id a line claims, whether or not it is legal: headings and blank lines claim none. -/
def claimedEvent (line : String) : Option Nat :=
  if isSkipped line then none else declaredEventId line

/-- The id a reader takes from a line: that of the event, or the one its report shows. -/
def seenEvent (line : String) : Option Nat :=
  match parseLogLine line with
  | some e => some e.event
  | none => if isSkipped line then none else declaredEventId (reported line)

/-- Every id a damaged line claims behind the characters its report shows is reached by an id the
readers see. -/
def History.CutsReached (h : History) : Prop :=
  ∀ line ∈ h.texts, isDamaged line = true → declaredEventId (reported line) = none →
    ∀ n, declaredEventId line = some n →
      n = 0 ∨ ∃ line' ∈ h.texts, ∃ m, seenEvent line' = some m ∧ n ≤ m

section Fresh

variable {w : World} {p : Printable} {d : Disk} {h : History}

theorem map_lines (h : History) : h.lines.map (fun line => line.2.1) = h.texts := by
  have hfun : ∀ seg : Segment, ((fun line : HistoryLine => line.2.1) ∘ fun line => (seg.name, line)) =
      (Prod.fst : String × Nat → String) := fun _ => rfl
  rw [History.lines, History.texts, List.map_flatMap]
  refine List.flatMap_congr fun seg _ => ?_
  rw [Segment.historyLines, List.map_map, hfun, Segment.lines, List.zipIdx_map_fst]

theorem events_eq (w : World) (d : Disk) (h : History) :
    (h.lines.filterMap (eventOf w d)).map LogEvent.link =
      (h.texts.filterMap parseLogLine).map LogEvent.link := by
  have hlink : ∀ line : HistoryLine, (eventOf w d line).map LogEvent.link =
      (parseLogLine line.2.1).map LogEvent.link := by
    intro line
    rw [eventOf]
    generalize parseLogLine line.2.1 = parsed
    cases parsed with
    | none => rfl
    | some e =>
      simp only [Option.map_some, LogEvent.link, readEvent_event, readEvent_parent]
  rw [List.map_filterMap, List.map_filterMap, ← map_lines, List.filterMap_map]
  exact List.filterMap_congr fun line _ => hlink line

theorem illegal_eq_nil_iff :
    h.lines.filterMap (problemOf p) = [] ↔ ∀ line ∈ h.texts, isDamaged line = false := by
  rw [← map_lines, List.filterMap_eq_nil_iff, List.forall_mem_map]
  refine forall₂_congr fun line _ => ?_
  unfold problemOf
  cases isDamaged line.2.1 <;> simp

theorem lt_nextEventId_iff {ids : List Nat} {illegal : List String} {n : Nat} :
    n < nextEventId (tailOf none ids illegal) ↔
      n = 0 ∨ (∃ m ∈ ids, n ≤ m) ∨ ∃ m ∈ illegal.filterMap declaredEventId, n ≤ m := by
  have hfold : (tailOf none ids illegal).getD 0 =
      (ids ++ illegal.filterMap declaredEventId).foldl max 0 := by
    rw [tailOf, ← List.foldl_append, foldl_raiseTail_none]
    split
    case isTrue hnil => rw [hnil]; rfl
    case isFalse => rfl
  rw [nextEventId, hfold, Nat.lt_succ_iff, le_foldl_max, Nat.le_zero_eq]
  simp only [List.mem_append, or_and_right, exists_or]

/-- What a reader sees of a line is its event, or the id in the report of its damage. -/
theorem exists_seenEvent_iff {line : String} {P : Nat → Prop} :
    (∃ m, seenEvent line = some m ∧ P m) ↔
      (∃ e, parseLogLine line = some e ∧ P e.event) ∨
        isDamaged line = true ∧ ∃ m, declaredEventId (reported line) = some m ∧ P m := by
  unfold seenEvent isDamaged
  generalize parseLogLine line = parsed
  cases parsed with
  | some e => simp
  | none => cases isSkipped line <;> simp

/-- An id stands below the next one when it is zero or reached by an id the readers see. -/
theorem lt_next_iff (lean : Bool) {n : Nat} :
    n < nextEventId (h.snapshot w p d (fullReading lean)).tail ↔
      n = 0 ∨ ∃ line ∈ h.texts, ∃ m, seenEvent line = some m ∧ n ≤ m := by
  rw [h.snapshot_eq, lt_nextEventId_iff, exists_event_iff, exists_claim_iff, ← map_lines]
  simp only [List.mem_map, exists_seenEvent_iff]
  refine or_congr Iff.rfl ⟨?_, ?_⟩
  · rintro (⟨line, hline, hseen⟩ | ⟨line, hline, hseen⟩)
    · exact ⟨line.2.1, ⟨line, hline, rfl⟩, .inl hseen⟩
    · exact ⟨line.2.1, ⟨line, hline, rfl⟩, .inr hseen⟩
  · rintro ⟨-, ⟨line, hline, rfl⟩, hseen | hseen⟩
    · exact .inl ⟨line, hline, hseen⟩
    · exact .inr ⟨line, hline, hseen⟩

/-- Every id a line claims stands below the next one, where the cuts are reached. -/
theorem claimed_lt_iff (lean : Bool) :
    (∀ line ∈ h.texts, ∀ n, claimedEvent line = some n →
        n < nextEventId (h.snapshot w p d (fullReading lean)).tail) ↔ h.CutsReached := by
  simp only [lt_next_iff]
  constructor
  · intro hclaims line hline hdamaged _ n hn
    have hskip : isSkipped line = false := by
      simp only [isDamaged, Bool.and_eq_true, Bool.not_eq_true'] at hdamaged
      exact hdamaged.2
    exact hclaims line hline n (by rw [claimedEvent, hskip]; exact hn)
  · intro hreach line hline n hn
    unfold claimedEvent at hn
    split at hn
    case isTrue => cases hn
    case isFalse hskip =>
      have hself : ∀ m, seenEvent line = some m → m = n →
          n = 0 ∨ ∃ line ∈ h.texts, ∃ m, seenEvent line = some m ∧ n ≤ m :=
        fun m hm hmn => .inr ⟨line, hline, m, hm, hmn.ge⟩
      cases hparse : parseLogLine line with
      | some e =>
        refine hself e.event (by rw [seenEvent, hparse]) ?_
        exact Option.some.inj ((declaredEventId_of_parse hparse).symm.trans hn)
      | none =>
        have hseen : seenEvent line = declaredEventId (reported line) := by
          rw [seenEvent, hparse, if_neg hskip]
        cases hreported : declaredEventId (reported line) with
        | some m =>
          refine hself m (hseen.trans hreported) ?_
          exact Option.some.inj ((declaredEventId_of_reported hreported).symm.trans hn)
        | none => exact hreach line hline (by simp [isDamaged, hparse, hskip]) hreported n hn

/-! ### Appending an event -/

/-- The active LOG with a line behind its old text: what every operation writes. -/
structure History.Appended (h : History) (line : String) (h' : History) : Prop where
  sealed : h'.sealed = h.sealed
  active : ∃ raw, h'.active = some raw ∧ ∃ close ∈ ["", "\n"], normalisedDocText raw =
    rstripNewlines (normalisedDocText (h.active.getD [])) ++ "\n" ++ (line ++ close)

/-- The nonempty lines of a history. -/
def History.fullTexts (h : History) : List String := h.texts.filter (· ≠ "")

theorem fullTexts_eq (h : History) : h.fullTexts =
    (h.sealed.flatMap fun s => fullLines (normalisedDocText s.raw)) ++
      fullLines (normalisedDocText (h.active.getD [])) := by
  have hactive : ((h.active.map activeSegment).toList.flatMap fun seg =>
      fullLines (normalisedDocText seg.raw)) = fullLines (normalisedDocText (h.active.getD [])) := by
    cases h.active with
    | none =>
      have hempty : fullLines (normalisedDocText []) = [] := by decide +kernel
      exact hempty.symm
    | some raw => exact List.flatMap_singleton ..
  rw [History.fullTexts, History.texts, List.filter_flatMap, History.segments, List.flatMap_append,
    List.flatMap_map]
  exact congrArg _ hactive

/-- Appending a line adds it to the lines of the history. -/
theorem History.Appended.fullTexts {h h' : History} {line : String} (ha : h.Appended line h')
    (hline : OneLine line.toList) (hne : line ≠ "") : h'.fullTexts = h.fullTexts ++ [line] := by
  obtain ⟨raw, hraw, close, hclose, htext⟩ := ha.active
  rw [fullTexts_eq, fullTexts_eq, ha.sealed, hraw, Option.getD_some, htext,
    fullLines_append, fullLines_line hline hne hclose,
    List.append_assoc]

/-- What is read of the lines is read of the nonempty ones. -/
theorem filterMap_fullTexts {α : Type} {f : String → Option α} (hf : f "" = none) (h : History) :
    h.texts.filterMap f = h.fullTexts.filterMap f := by
  rw [History.fullTexts, List.filterMap_filter]
  refine List.filterMap_congr fun line _ => ?_
  by_cases hline : line = ""
  · simp [hline, hf]
  · simp [hline]

/-- The tail of a history whose lines are all legal is the id of an event. -/
theorem tail_mem {ids : List Nat} {q : Nat} (h : (tailOf none ids []).filter (· ≠ 0) = some q) :
    q ∈ ids := by
  obtain ⟨htail, hq⟩ := Option.filter_eq_some_iff.mp h
  rw [tailOf, List.filterMap_nil, List.foldl_nil, foldl_raiseTail_none] at htail
  split at htail
  case isTrue => cases htail
  case isFalse =>
    rcases foldl_max_mem (l := ids) (m := 0) with hzero | hmem
    · rw [hzero] at htail
      simp [← Option.some.inj htail] at hq
    · exact Option.some.inj htail ▸ hmem

/-- An event under the next id, whose parent is the tail, keeps the contract. -/
theorem appended_contract {d' : Disk} {h' : History} {line : String} {e : LogEvent} (lean : Bool)
    (ha : h.Appended line h') (hline : OneLine line.toList) (hparse : parseLogLine line = some e)
    (hevent : e.event = nextEventId (h.snapshot w p d (fullReading lean)).tail)
    (hparent : e.parent = (h.snapshot w p d (fullReading lean)).tail.filter (· ≠ 0))
    (hcontract : snapshotContractErrors (h.snapshot w p d (fullReading lean)) = []) :
    snapshotContractErrors (h'.snapshot w p d' (fullReading lean)) = [] := by
  have hne : line ≠ "" := by
    rintro rfl
    have hnone : parseLogLine "" = none := by decide
    rw [hnone] at hparse
    cases hparse
  have hfull := ha.fullTexts hline hne
  have hlt : ∀ l ∈ (h.texts.filterMap parseLogLine).map LogEvent.link, l.1 < e.event := by
    intro l hl
    obtain ⟨e', he', rfl⟩ := List.mem_map.mp hl
    obtain ⟨line', hline', he'⟩ := List.mem_filterMap.mp he'
    rw [hevent, lt_next_iff]
    exact .inr ⟨line', hline', e'.event, by rw [seenEvent, he'], le_rfl⟩
  rw [snapshotContractErrors_eq_nil_iff] at hcontract ⊢
  rw [h.snapshot_eq] at hcontract hparent
  rw [h'.snapshot_eq]
  simp only [events_eq, illegal_eq_nil_iff] at hcontract ⊢
  obtain ⟨hlegal, hlinked⟩ := hcontract
  constructor
  · intro line' hline'
    by_cases hempty : line' = ""
    · rw [hempty]
      decide
    · have hmem : line' ∈ h'.fullTexts := List.mem_filter.mpr ⟨hline', by simpa using hempty⟩
      rw [hfull, List.mem_append, List.mem_singleton] at hmem
      rcases hmem with hmem | rfl
      · exact hlegal line' (List.mem_of_mem_filter hmem)
      · simp [isDamaged, hparse]
  · have hnone : parseLogLine "" = none := by decide
    have hlast : [line].filterMap parseLogLine = [e] := by simp [hparse]
    rw [filterMap_fullTexts hnone, hfull, List.filterMap_append, hlast, List.map_append,
      ← filterMap_fullTexts hnone]
    refine hlinked.append hlt fun q hq => ?_
    have hillegal : h.lines.filterMap (problemOf p) = [] := illegal_eq_nil_iff.mpr hlegal
    rw [hparent, hillegal] at hq
    have hmem := tail_mem hq
    rw [← events_eq w d, List.map_map]
    exact hmem

/-- The next id is fresh, and appending under it keeps the contract of the ledger. -/
structure FreshIds (w : World) (p : Printable) (d : Disk) (lean : Bool) (h : History) : Prop where
  fresh : ∀ line ∈ h.texts, ∀ n, claimedEvent line = some n →
    n < nextEventId (h.snapshot w p d (fullReading lean)).tail
  append : ∀ (d' : Disk) (h' : History) (line : String) (e : LogEvent), h.Appended line h' →
    OneLine line.toList → parseLogLine line = some e →
    e.event = nextEventId (h.snapshot w p d (fullReading lean)).tail →
    e.parent = (h.snapshot w p d (fullReading lean)).tail.filter (· ≠ 0) →
    snapshotContractErrors (h.snapshot w p d (fullReading lean)) = [] →
    snapshotContractErrors (h'.snapshot w p d' (fullReading lean)) = []

/-- **Fresh event ids.** The id of the next event is greater than every id a line claims exactly when
no damaged line claims a greater one behind the characters its report shows; an event appended under
it always keeps the contract of the ledger. -/
theorem fresh_event_ids (w : World) (p : Printable) (d : Disk) (lean : Bool) (h : History) :
    FreshIds w p d lean h ↔ h.CutsReached :=
  ⟨fun hfresh => (claimed_lt_iff lean).mp hfresh.fresh, fun hreach =>
    ⟨(claimed_lt_iff lean).mpr hreach, fun _ _ _ _ ha hline hparse hevent hparent =>
      appended_contract lean ha hline hparse hevent hparent⟩⟩

/-- A clean draft on the tail of a history is such an event. -/
theorem Draft.continues {d : Draft} (htax : d.taxonomy ∈ validTaxonomies) (hclean : d.Clean) :
    parseLogLine d.line = some d.toEvent ∧ OneLine d.line.toList ∧
      d.toEvent.event = nextEventId d.tail ∧ d.toEvent.parent = d.tail.filter (· ≠ 0) := by
  refine ⟨parseLogLine_line htax hclean.closed, (d.oneLine_line_iff htax hclean.closed).mpr hclean, rfl,
    ?_⟩
  have htail := hclean.closed.tail
  cases ht : d.tail with
  | none => simp [Draft.toEvent, ht]
  | some t =>
    have hne : t ≠ 0 := fun h => htail (by rw [ht, h])
    simp [Draft.toEvent, ht, hne, Option.filter]

/-- A LOG with a damaged line that claims its id behind eighty other characters. -/
def cutLog : String :=
  "- 01.02.26 10:11 [E-1] DEC: start\n" ++ String.ofList (List.replicate 80 'x') ++ "[E-5]\n"

theorem readHistory_logDisk {text : String} (h : isCanonicalEncoding (encodeUtf8 text) = true) :
    readHistory w (logDisk text) = .ok ⟨[], some (encodeUtf8 text)⟩ := by
  have hactive : activeNode w (logDisk text) = .ok (some (encodeUtf8 text)) := rfl
  have hsealed : sealedContainer (logDisk text) = .ok [] := rfl
  simp only [readHistory, hsealed, hactive, bind, Except.bind, pure, Except.pure,
    List.insertionSort_nil, List.filterMap_nil, List.mapM_nil, Option.any_some, h, Bool.not_true,
    Bool.false_eq_true, if_false]

/-- The reader cuts the report of a long damaged line, and the next ids run into its id. -/
theorem cut_claim_reused :
    ∃ h, readHistory sampleWorld (logDisk cutLog) = .ok h ∧
      ¬FreshIds sampleWorld samplePrintable (logDisk cutLog) false h := by
  refine ⟨_, readHistory_logDisk (by decide +kernel), fun hfresh => ?_⟩
  have hdoc : normalisedDocText (encodeUtf8 cutLog) = cutLog :=
    normalisedDocText_dash (by decide +kernel : cutLog.toList = '-' :: ' ' :: cutLog.toList.drop 2)
      (by decide +kernel)
      (by decide +kernel)
  have htexts : History.texts ⟨[], some (encodeUtf8 cutLog)⟩ =
      ["- 01.02.26 10:11 [E-1] DEC: start", String.ofList (List.replicate 80 'x') ++ "[E-5]"] := by
    have hsegments : History.texts ⟨[], some (encodeUtf8 cutLog)⟩ =
        splitLines (normalisedDocText (encodeUtf8 cutLog)) := List.flatMap_singleton ..
    rw [hsegments, hdoc]
    decide +kernel
  have hclaim : claimedEvent (String.ofList (List.replicate 80 'x') ++ "[E-5]") = some 5 := by
    decide +kernel
  have hseen : ∀ line ∈ ["- 01.02.26 10:11 [E-1] DEC: start",
      String.ofList (List.replicate 80 'x') ++ "[E-5]"], ∀ m ∈ seenEvent line, ¬5 ≤ m := by
    decide +kernel
  have hlt := hfresh.fresh _ (by rw [htexts]; simp) 5 hclaim
  rw [lt_next_iff, htexts] at hlt
  rcases hlt with hzero | ⟨line, hline, m, hm, hle⟩
  · cases hzero
  · exact hseen line hline m hm hle

end Fresh

end Saipen.Log
