import Saipen.Checks
import Saipen.FileTree.Leaf
import Saipen.Log.Ledger
import Saipen.Text.Number

/-! # Cutting a foreign tail

`foreign_tail_cut` takes the lines behind the checkpointed event out of a snapshot, if nothing but they is
damaged. It works on the snapshot that was read and on the text of the active LOG, and does not read
again. -/

namespace Saipen.Log

open Text FileTree Accumulate

/-- `ForeignTail`. -/
structure ForeignTail where
  anchorLine : Nat
  keptText : String
  suffixLines : List String
  claimedIds : List Nat
  nonEventLines : Nat
  snapshot : HistorySnapshot
  journalFloor : Option Int

/-- `^LOG\.md:(\d+):`: the line of the active LOG a report is about. -/
def activeLine (problem : String) : Option Nat := do
  let cs ← literal "LOG.md:".toList problem.toList
  let _ ← literal [':'] (cs.dropWhile isDecimal)
  number? (cs.takeWhile isDecimal)

/-- `re.findall(r"T-(\d+)", text)`. No match begins inside another one. -/
def ticketMentions (cs : List Char) : List Nat :=
  cs.tails.filterMap fun cs => (literal "T-".toList cs).bind fun rest => number? (rest.takeWhile isDecimal)

/-- The tickets an event names in its ticket field and its text. -/
def LogEvent.namedTickets (e : LogEvent) : List Nat :=
  ticketMentions ("[" ++ e.ticket.getD "" ++ "] " ++ e.text).toList

/-- The boundary, and whether the journal sets it. -/
def cutBound (lastEvent journalFloor : Option Int) : Option Int × Bool :=
  match journalFloor, lastEvent with
  | some floor, some last => if floor < last then (some floor, true) else (some last, false)
  | some floor, none => (some floor, true)
  | none, last => (last, false)

/-- The first line of an event. -/
def anchorOf (bound : Int) (lines : List String) : Option Nat :=
  lines.findIdx? fun line => (parseLogLine line).any fun e => (e.event : Int) == bound

/-- The first suffix line that claims an id above the boundary, with its number. -/
def firstAbove (bound : Int) (suffix : List String) (offset : Nat) : Option (Nat × Nat) :=
  (suffix.zipIdx offset).findSome? fun line =>
    (claimedEvent line.1).bind fun id => if bound < (id : Int) then some (line.2, id) else none

/-- The events of the suffix. -/
def suffixEvents (suffix : List String) : Nat :=
  suffix.countP fun line => (claimedEvent line).isSome && (parseLogLine line).isSome

/-- A snapshot without the last events and without the damage behind a line of the active LOG. -/
def HistorySnapshot.without (s : HistorySnapshot) (text : String) (anchorLine count : Nat) : HistorySnapshot :=
  let events := s.events.take (s.events.length - count)
  let illegalLines := s.illegalLines.filter fun problem => !(activeLine problem).any (anchorLine < ·)
  { s with
    text
    events
    illegalLines
    tail := tailOf none (events.map (·.event)) illegalLines
    eventLines := if count = 0 ∨ s.eventLines = [] then s.eventLines
      else s.eventLines.take (s.eventLines.length - count)
    maxTicketId := if count = 0 then s.maxTicketId
      else (events.flatMap LogEvent.namedTickets).foldl max 0 }

/-- The combined text with another text of the active LOG, if it ends with that one. -/
def replaceActive (text active kept : String) : Option String :=
  if text = "" then some ""
  else if active.toList.isSuffixOf text.toList then
    some (String.ofList (text.toList.take (text.toList.length - active.toList.length)) ++ kept)
  else none

/-- The active LOG up to a line. -/
def keptOf (activeText : String) (anchor : Nat) : String :=
  "\n".intercalate ((splitLines activeText).take (anchor + 1)) ++ "\n"

/-- The cut behind a line of the active LOG, whose suffix is foreign. -/
def cutBehind (s : HistorySnapshot) (activeText : String) (anchor : Nat) (journalFloor : Option Int) :
    Except String ForeignTail :=
  let lines := splitLines activeText
  let suffix := lines.drop (anchor + 1)
  let claimed := suffix.filterMap claimedEvent
  let count := suffixEvents suffix
  let dropped := (s.events.drop (s.events.length - count)).map (·.event)
  let expected := suffix.filterMap fun line => (parseLogLine line).map (·.event)
  if count ≠ 0 ∧ dropped ≠ expected then
    .error "the active LOG does not end the parsed history; refusing to cut"
  else
    let keptText := keptOf activeText anchor
    match replaceActive s.text activeText keptText with
    | none => .error "the combined history does not end with the active LOG; refusing to cut"
    | some text =>
        let clean := s.without text (anchor + 1) count
        let remaining := snapshotContractErrors clean
        if remaining ≠ [] then
          .error ("the ledger is damaged before the checkpointed tail too, so a cut cannot " ++
            "repair it: " ++ "; ".intercalate (remaining.take 3))
        else
          .ok
            { anchorLine := anchor + 1
              keptText
              suffixLines := suffix
              claimedIds := claimed
              nonEventLines := (suffix.filter fun line => !isSkipped line).length - claimed.length
              snapshot := clean
              journalFloor }

/-- `foreign_tail_cut`. -/
def foreignTailCut (s : HistorySnapshot) (activeText : String) (lastEvent journalFloor : Option Int) :
    Except String ForeignTail :=
  match cutBound lastEvent journalFloor with
  | (none, _) => .error "STATE.last_event is unset, so there is no checkpointed boundary to cut at"
  | (some bound, journal) =>
      let lines := splitLines activeText
      match anchorOf bound lines with
      | none => .error ("STATE.last_event E-" ++ str bound ++ " is not a legal event line in the active " ++
          "LOG.md, so the checkpointed boundary is not provable")
      | some anchor =>
          let suffix := lines.drop (anchor + 1)
          if suffix.all isSkipped then .error ("nothing but blanks and comments follows the checkpointed E-" ++
            str bound ++ "; the ledger damage is not a tail")
          else
            match if journal then none else firstAbove bound suffix (anchor + 2) with
            | some (offset, id) => .error ("LOG.md:" ++ offset.repr ++ " claims E-" ++ id.repr ++
                ", above the checkpointed E-" ++ str bound ++ "; it may be a genuine event whose " ++
                "checkpoint never landed, so the tail is not provably foreign")
            | none => cutBehind s activeText anchor (if journal then journalFloor else none)

/-! ### Reading the kept text -/

/-- The fields of a snapshot that are read off texts and lines; all but the hash. -/
def contentsOf (w : World) (p : Printable) (d : Disk) (r : Reading) (texts : List String)
    (lines : List HistoryLine) : HistorySnapshot :=
  { hash := ""
    text := if r.retainText then "\n".intercalate texts else ""
    tail := tailOf none ((lines.filterMap (eventOf w d)).map (·.event)) (lines.filterMap (problemOf p))
    events := lines.filterMap (eventOf w d)
    illegalLines := lines.filterMap (problemOf p)
    eventLines := lines.filterMap r.retained
    maxTicketId := (lines.flatMap r.ticketsOf).foldl max 0 }

/-- A snapshot without its hash. -/
def HistorySnapshot.contents (s : HistorySnapshot) : HistorySnapshot := { s with hash := "" }

/-- The lines of the active LOG with a text. -/
def activeLines (text : String) : List HistoryLine := (splitLines text).zipIdx.map fun line => ("LOG.md", line)

/-- The lines of the sealed segments. -/
def History.sealedLines (h : History) : List HistoryLine :=
  (h.sealed.map SealedSegment.toSegment).flatMap Segment.historyLines

/-- The texts of the sealed segments. -/
def History.sealedTexts (h : History) : List String := h.sealed.map fun s => normalisedDocText s.raw

/-- What `read_history_snapshot` reads of a history whose active LOG has a text. -/
def History.reread (w : World) (p : Printable) (d : Disk) (lean : Bool) (h : History) (text : String) :
    HistorySnapshot :=
  contentsOf w p d (fullReading lean) (h.sealedTexts ++ [text]) (h.sealedLines ++ activeLines text)

variable {w : World} {p : Printable} {d : Disk} {lean : Bool} {h : History} {raw : Bytes}

/-- A reader reads a history as it reads the text of its active LOG. -/
theorem contents_snapshot (hactive : h.active = some raw) :
    (h.snapshot w p d (fullReading lean)).contents = h.reread w p d lean (normalisedDocText raw) := by
  have hlines : h.lines = h.sealedLines ++ activeLines (normalisedDocText raw) := by
    simp only [History.lines, History.segments, hactive, List.flatMap_append, Option.map_some,
      Option.toList_some, List.flatMap_singleton, History.sealedLines, activeLines, Segment.historyLines,
      Segment.lines, activeSegment]
  have htexts : (h.segments.map fun seg : Segment => normalisedDocText seg.raw) =
      h.sealedTexts ++ [normalisedDocText raw] := by
    simp only [History.segments, hactive, List.map_append, List.map_map, Option.map_some,
      Option.toList_some, List.map_singleton, History.sealedTexts, activeSegment, Function.comp_def,
      SealedSegment.toSegment]
  rw [History.snapshot_eq, HistorySnapshot.contents, History.reread, contentsOf, hlines, htexts]

/-! ### Lines of a text -/

theorem oneLine_of_mem_splitLines {text line : String} (hline : line ∈ splitLines text) : OneLine line.toList := by
  obtain ⟨cs, hcs, rfl⟩ := List.mem_map.mp hline
  rw [String.toList_ofList]
  exact oneLine_of_mem_linesFrom (fun _ hc => absurd hc List.not_mem_nil) hcs

/-- Lines joined by newlines are the lines of the text. -/
theorem splitLines_joined {lines : List String} (hone : ∀ line ∈ lines, OneLine line.toList) (hne : lines ≠ []) :
    splitLines ("\n".intercalate lines ++ "\n") = lines := by
  have hchars : ∀ ls : List String, ls ≠ [] → (∀ line ∈ ls, OneLine line.toList) →
      linesFrom [] ("\n".intercalate ls ++ "\n").toList = ls.map String.toList := by
    intro ls
    induction ls with
    | nil => exact fun h => absurd rfl h
    | cons l ls ih =>
      intro _ hls
      have hl := hls l List.mem_cons_self
      cases ls with
      | nil =>
        have hlist : ("\n".intercalate [l] ++ "\n").toList = l.toList ++ ['\n'] := by simp
        rw [hlist, linesFrom_newline hl]
        rfl
      | cons m ms =>
        have hlist : ("\n".intercalate (l :: m :: ms) ++ "\n").toList =
            l.toList ++ '\n' :: ("\n".intercalate (m :: ms) ++ "\n").toList := by simp
        rw [hlist, linesFrom_append_oneLine hl, linesFrom_cons (by decide), if_pos isLineBreak_newline,
          ih (List.cons_ne_nil _ _) fun line hline => hls line (List.mem_cons_of_mem _ hline)]
        simp
  rw [splitLines, hchars lines hne hone, List.map_map]
  simp

/-! ### The lines of the suffix -/

/-- A legal line is no heading and not blank. -/
theorem isSkipped_of_parse {line : String} {e : LogEvent} (hparse : parseLogLine line = some e) :
    isSkipped line = false := by
  have hopen : ∃ rest, line.toList = ['-'] ++ rest := by
    simp only [parseLogLine, Option.bind_eq_bind, Option.bind_eq_some_iff] at hparse
    obtain ⟨cs, hcs, -⟩ := hparse
    exact ⟨' ' :: cs, by rw [literal_eq_some_iff.mp hcs]; rfl⟩
  obtain ⟨rest, hline⟩ := hopen
  obtain ⟨kept, -, hstrip⟩ := strip_opening hline (List.cons_ne_nil _ _)
    (fun c hc => by rw [← Option.some.inj hc]; decide) (fun c hc => by rw [← Option.some.inj hc]; decide)
  have hne : strip line ≠ "" := by
    intro h
    rw [h] at hstrip
    cases hstrip
  have hno : startsWith (strip line) "#" = false := by
    rw [startsWith, hstrip]
    rfl
  rw [isSkipped, hno, Bool.or_false]
  exact decide_eq_false hne

/-- The events of a suffix are its legal lines. -/
theorem suffixEvents_eq (suffix : List String) :
    suffixEvents suffix = suffix.countP fun line => (parseLogLine line).isSome := by
  unfold suffixEvents
  refine List.countP_congr fun line _ => ?_
  cases hparse : parseLogLine line with
  | none => simp
  | some e => simp [claimedEvent, isSkipped_of_parse hparse, declaredEventId_of_parse hparse]

/-- As many lines give an event as are legal. -/
theorem length_filterMap_of_legal {β : Type} {f : HistoryLine → Option β} (lines : List (String × Nat))
    (hf : ∀ line, (f ("LOG.md", line)).isSome = (parseLogLine line.1).isSome) :
    ((lines.map fun line => ("LOG.md", line)).filterMap f).length =
      (lines.map Prod.fst).countP fun line => (parseLogLine line).isSome := by
  induction lines with
  | nil => rfl
  | cons line lines ih =>
    have hline := hf line
    rw [List.map_cons, List.filterMap_cons, List.map_cons, List.countP_cons, ← ih, ← hline]
    cases f ("LOG.md", line) <;> simp

theorem activeLine_illegalLine (idx : Nat) (line : String) :
    activeLine (illegalLine p "LOG.md" idx line) = some (idx + 1) := by
  obtain ⟨rest, hrest⟩ : ∃ rest, (illegalLine p "LOG.md" idx line).toList =
      "LOG.md:".toList ++ ((idx + 1).repr.toList ++ ':' :: rest) := by
    refine ⟨(" not a legal LOG event: " ++ reprStr p (reported line)).toList, ?_⟩
    simp [illegalLine]
  have hdigits : ∀ c ∈ (idx + 1).repr.toList, isDecimal c = true :=
    fun c hc => isDecimal_of_isDigit (isDigit_of_mem_repr hc)
  have hcolon : isDecimal ':' = false := by decide
  have htake : ((idx + 1).repr.toList ++ ':' :: rest).takeWhile isDecimal = (idx + 1).repr.toList := by
    rw [List.takeWhile_append_of_pos hdigits, List.takeWhile_cons_of_neg (by simp [hcolon]), List.append_nil]
  have hdrop : ((idx + 1).repr.toList ++ ':' :: rest).dropWhile isDecimal = ':' :: rest := by
    rw [List.dropWhile_append_of_pos hdigits, List.dropWhile_cons_of_neg (by simp [hcolon])]
  have hliteral : literal [':'] (':' :: rest) = some rest := literal_append [':'] rest
  rw [activeLine, hrest, literal_append]
  simp only [Option.bind_eq_bind, Option.bind_some, htake, hdrop, hliteral]
  exact number?_repr (idx + 1)

theorem activeLine_sealed {name : String} {n idx : Nat} {line : String} (hname : segmentNumber name = some n) :
    activeLine (illegalLine p name idx line) = none := by
  simp only [segmentNumber, Option.bind_eq_bind, Option.bind_eq_some_iff] at hname
  obtain ⟨cs, hcs, -⟩ := hname
  obtain ⟨rest, hrest⟩ : ∃ rest, (illegalLine p name idx line).toList = "LOG-".toList ++ rest := by
    rw [illegalLine, String.toList_append, String.toList_append, String.toList_append, String.toList_append,
      literal_eq_some_iff.mp hcs]
    simp
  have hliteral : literal "LOG.md:".toList ("LOG-".toList ++ rest) = none := rfl
  rw [activeLine, hrest, hliteral]
  rfl

/-! ### What a cut is made of -/

variable {s : HistorySnapshot} {active : String} {lastEvent journalFloor : Option Int} {ft : ForeignTail}

theorem cutBehind_ok {anchor : Nat} (h : cutBehind s active anchor journalFloor = .ok ft) :
    ∃ text, ft.keptText = keptOf active anchor ∧
      ft.suffixLines = (splitLines active).drop (anchor + 1) ∧
      replaceActive s.text active ft.keptText = some text ∧
      ft.snapshot = s.without text (anchor + 1) (suffixEvents ft.suffixLines) := by
  unfold cutBehind at h
  dsimp only at h
  split_ifs at h with hdropped
  cases htext : replaceActive s.text active (keptOf active anchor) with
  | none => simp [htext] at h
  | some text =>
    simp only [htext] at h
    split_ifs at h with hremaining
    obtain rfl := Except.ok.inj h
    exact ⟨text, rfl, rfl, htext, rfl⟩

/-- The line of the active LOG behind which the cut falls. -/
def cutAnchor (active : String) (lastEvent journalFloor : Option Int) : Option Nat :=
  (cutBound lastEvent journalFloor).1.bind fun bound => anchorOf bound (splitLines active)

/-- A cut is made behind the anchor. -/
theorem foreignTailCut_ok (h : foreignTailCut s active lastEvent journalFloor = .ok ft) :
    ∃ anchor floor, cutAnchor active lastEvent journalFloor = some anchor ∧
      anchor < (splitLines active).length ∧ cutBehind s active anchor floor = .ok ft := by
  unfold foreignTailCut at h
  split at h
  · cases h
  · next bound journal hbound =>
    dsimp only at h
    cases hanchor : anchorOf bound (splitLines active) with
    | none => simp [hanchor] at h
    | some anchor =>
      have hlt := (List.findIdx?_eq_some_iff_getElem.mp hanchor).1
      rw [hanchor] at h
      dsimp only at h
      by_cases hskipped : ((splitLines active).drop (anchor + 1)).all isSkipped = true
      · rw [if_pos hskipped] at h
        cases h
      · rw [if_neg hskipped] at h
        split at h
        · cases h
        · exact ⟨anchor, _, by rw [cutAnchor, hbound, Option.bind_some, hanchor], hlt, h⟩

/-! ### The snapshot without a suffix -/

/-- The lines of the active LOG up to an anchor. -/
def keptLines (active : String) (anchor : Nat) : List HistoryLine :=
  ((splitLines active).take (anchor + 1)).zipIdx.map fun line => ("LOG.md", line)

/-- The lines of the active LOG behind it. -/
def cutLines (active : String) (anchor : Nat) : List HistoryLine :=
  (((splitLines active).drop (anchor + 1)).zipIdx (anchor + 1)).map fun line => ("LOG.md", line)

theorem activeLines_eq {anchor : Nat} (hlt : anchor < (splitLines active).length) :
    activeLines active = keptLines active anchor ++ cutLines active anchor := by
  have hlen : ((splitLines active).take (anchor + 1)).length = anchor + 1 := by
    rw [List.length_take]
    omega
  rw [activeLines, keptLines, cutLines, ← List.map_append]
  conv_lhs => rw [← List.take_append_drop (anchor + 1) (splitLines active), List.zipIdx_append, hlen]
  rw [Nat.zero_add]

/-- The kept text has the kept lines. -/
theorem activeLines_kept {anchor : Nat} (hlt : anchor < (splitLines active).length) :
    activeLines (keptOf active anchor) = keptLines active anchor := by
  have hne : (splitLines active).take (anchor + 1) ≠ [] := by
    intro h
    have := congrArg List.length h
    rw [List.length_take, List.length_nil] at this
    omega
  have hone : ∀ line ∈ (splitLines active).take (anchor + 1), OneLine line.toList :=
    fun line hline => oneLine_of_mem_splitLines (List.mem_of_mem_take hline)
  rw [activeLines, keptOf, splitLines_joined hone hne]
  rfl

/-- The problems that stand in front of a line of the active LOG. -/
theorem filter_problems {n : Nat} {lines : List HistoryLine}
    (hlines : ∀ line ∈ lines, (∃ k, segmentNumber line.1 = some k) ∨ line.1 = "LOG.md" ∧ line.2.2 < n) :
    (lines.filterMap (problemOf p)).filter (fun problem => !(activeLine problem).any (n < ·)) =
      lines.filterMap (problemOf p) := by
  refine List.filter_eq_self.mpr fun problem hproblem => ?_
  obtain ⟨⟨name, line, idx⟩, hline, hproblem⟩ := List.mem_filterMap.mp hproblem
  unfold problemOf at hproblem
  split_ifs at hproblem
  obtain rfl := Option.some.inj hproblem
  rcases hlines _ hline with ⟨k, hname⟩ | ⟨hname, hidx⟩
  · rw [activeLine_sealed hname]
    rfl
  · dsimp only at hname hidx
    rw [hname, activeLine_illegalLine, Option.any_some]
    simp only [Bool.not_eq_true', decide_eq_false_iff_not]
    omega

/-- The problems behind it. -/
theorem filter_problems_nil {n : Nat} {lines : List HistoryLine}
    (hlines : ∀ line ∈ lines, line.1 = "LOG.md" ∧ n ≤ line.2.2) :
    (lines.filterMap (problemOf p)).filter (fun problem => !(activeLine problem).any (n < ·)) = [] := by
  refine List.filter_eq_nil_iff.mpr fun problem hproblem => ?_
  obtain ⟨⟨name, line, idx⟩, hline, hproblem⟩ := List.mem_filterMap.mp hproblem
  unfold problemOf at hproblem
  split_ifs at hproblem
  obtain rfl := Option.some.inj hproblem
  obtain ⟨hname, hidx⟩ := hlines _ hline
  dsimp only at hname hidx
  rw [hname, activeLine_illegalLine, Option.any_some]
  simp only [Bool.not_eq_true', decide_eq_false_iff_not, not_not]
  omega

theorem sealedLines_numbered : ∀ line ∈ h.sealedLines, ∃ k, segmentNumber line.1 = some k := by
  intro line hline
  obtain ⟨seg, hseg, hline⟩ := List.mem_flatMap.mp hline
  obtain ⟨segment, -, rfl⟩ := List.mem_map.mp hseg
  obtain ⟨l, -, rfl⟩ := List.mem_map.mp hline
  exact ⟨segment.number, segment.numbered⟩

theorem keptLines_lt {anchor : Nat} :
    ∀ line ∈ keptLines active anchor, line.1 = "LOG.md" ∧ line.2.2 < anchor + 1 := by
  intro line hline
  obtain ⟨⟨l, idx⟩, hl, rfl⟩ := List.mem_map.mp hline
  have hidx := List.snd_lt_of_mem_zipIdx hl
  rw [List.length_take] at hidx
  exact ⟨rfl, by dsimp only; omega⟩

theorem cutLines_ge {anchor : Nat} :
    ∀ line ∈ cutLines active anchor, line.1 = "LOG.md" ∧ anchor + 1 ≤ line.2.2 := by
  intro line hline
  obtain ⟨⟨l, idx⟩, hl, rfl⟩ := List.mem_map.mp hline
  exact ⟨rfl, List.le_snd_of_mem_zipIdx hl⟩

/-- A part of a list that has been gathered last is taken off by its length. -/
theorem take_gathered {α : Type} {xs ys : List α} {n : Nat} (hys : ys.length = n) :
    (xs ++ ys).take ((xs ++ ys).length - n) = xs := by
  rw [List.length_append, hys, Nat.add_sub_cancel]
  exact List.take_left

/-- The lines that are kept, and those that are cut, give a snapshot what they give a reader. -/
theorem length_cut {anchor : Nat} {β : Type} {f : HistoryLine → Option β}
    (hf : ∀ line, (f ("LOG.md", line)).isSome = (parseLogLine line.1).isSome) :
    ((cutLines active anchor).filterMap f).length = suffixEvents ((splitLines active).drop (anchor + 1)) := by
  rw [cutLines, length_filterMap_of_legal _ hf, List.zipIdx_map_fst, suffixEvents_eq]

/-- Taking off no lines, and taking lines off none, changes nothing. -/
theorem lines_without {lines : List String} {count : Nat} :
    (if count = 0 ∨ lines = [] then lines else lines.take (lines.length - count)) =
      lines.take (lines.length - count) := by
  split_ifs with hnone
  · rcases hnone with rfl | rfl
    · rw [Nat.sub_zero, List.take_length]
    · rw [List.take_nil]
  · rfl

/-- A lean reader retains no lines. -/
theorem retained_lean (lines : List HistoryLine) : lines.filterMap (fullReading true).retained = [] :=
  List.filterMap_eq_nil_iff.mpr fun _ _ => rfl

/-- A full reader retains the legal lines. -/
theorem isSome_retained (line : String × Nat) :
    ((fullReading false).retained ("LOG.md", line)).isSome = (parseLogLine line.1).isSome := by
  have hretain : (fullReading false).retainLines = true := rfl
  rw [Reading.retained, hretain, Bool.true_and]
  dsimp only
  cases (parseLogLine line.1).isSome <;> rfl

/-- The combined text ends with the active LOG, which is exchanged for what is kept. -/
theorem replaceActive_joined {texts : List String} {kept text : String}
    (htext : replaceActive ("\n".intercalate (texts ++ [active])) active kept = some text) (hne : active ≠ "") :
    text = "\n".intercalate (texts ++ [kept]) := by
  obtain ⟨front, hfront⟩ : ∃ front : String, ∀ last, "\n".intercalate (texts ++ [last]) = front ++ last := by
    by_cases hnil : texts = []
    · exact ⟨"", fun last => by rw [hnil, List.nil_append, String.intercalate_singleton, String.empty_append]⟩
    · refine ⟨"\n".intercalate texts ++ "\n", fun last => ?_⟩
      rw [String.intercalate_append_of_ne_nil hnil (List.cons_ne_nil _ _), String.intercalate_singleton]
  rw [hfront] at htext ⊢
  have hnonempty : front ++ active ≠ "" := by simp [hne]
  rw [replaceActive, if_neg hnonempty] at htext
  split_ifs at htext
  rw [← Option.some.inj htext, String.toList_append, List.length_append, Nat.add_sub_cancel, List.take_left,
    String.ofList_toList]

variable (w p d lean h) in
/-- The snapshot of a history without its suffix is what is read of the kept text, but for the tickets. -/
theorem contents_without {anchor : Nat} {text : String} (hlt : anchor < (splitLines active).length)
    (hs : s.contents = h.reread w p d lean active)
    (htext : replaceActive s.text active (keptOf active anchor) = some text) :
    (s.without text (anchor + 1) (suffixEvents ((splitLines active).drop (anchor + 1)))).contents =
      { h.reread w p d lean (keptOf active anchor) with
        maxTicketId := (s.without text (anchor + 1)
          (suffixEvents ((splitLines active).drop (anchor + 1)))).maxTicketId } := by
  obtain ⟨hash, stext, stail, sevents, sillegal, slines, stickets⟩ := s
  set count := suffixEvents ((splitLines active).drop (anchor + 1)) with hcount
  simp only [HistorySnapshot.contents, History.reread, contentsOf, activeLines_eq hlt, activeLines_kept hlt,
    List.filterMap_append, ← List.append_assoc, HistorySnapshot.mk.injEq, true_and] at hs ⊢
  obtain ⟨rfl, -, rfl, rfl, rfl, -⟩ := hs
  have hevents : ((h.sealedLines.filterMap (eventOf w d) ++ (keptLines active anchor).filterMap (eventOf w d) ++
      (cutLines active anchor).filterMap (eventOf w d)).take ((h.sealedLines.filterMap (eventOf w d) ++
        (keptLines active anchor).filterMap (eventOf w d) ++
          (cutLines active anchor).filterMap (eventOf w d)).length - count)) =
      h.sealedLines.filterMap (eventOf w d) ++ (keptLines active anchor).filterMap (eventOf w d) :=
    take_gathered (length_cut fun line => by rw [eventOf, Option.isSome_map])
  have hillegal : ((h.sealedLines.filterMap (problemOf p) ++ (keptLines active anchor).filterMap (problemOf p) ++
      (cutLines active anchor).filterMap (problemOf p)).filter
        fun problem => !(activeLine problem).any (anchor + 1 < ·)) =
      h.sealedLines.filterMap (problemOf p) ++ (keptLines active anchor).filterMap (problemOf p) := by
    rw [List.filter_append, List.filter_append, filter_problems_nil cutLines_ge, List.append_nil,
      filter_problems fun line hline => .inl (sealedLines_numbered line hline),
      filter_problems fun line hline => .inr (keptLines_lt line hline)]
  have hlines : (h.sealedLines.filterMap (fullReading lean).retained ++
      (keptLines active anchor).filterMap (fullReading lean).retained ++
        (cutLines active anchor).filterMap (fullReading lean).retained).take
          ((h.sealedLines.filterMap (fullReading lean).retained ++
            (keptLines active anchor).filterMap (fullReading lean).retained ++
              (cutLines active anchor).filterMap (fullReading lean).retained).length - count) =
      h.sealedLines.filterMap (fullReading lean).retained ++
        (keptLines active anchor).filterMap (fullReading lean).retained := by
    cases lean with
    | true => simp only [retained_lean, List.append_nil, List.take_nil]
    | false => exact take_gathered (length_cut fun line => isSome_retained line)
  have htexts : text = if (fullReading lean).retainText then
      "\n".intercalate (h.sealedTexts ++ [keptOf active anchor]) else "" := by
    have hne : active ≠ "" := by
      rintro rfl
      have hnone : (splitLines "").length = 0 := rfl
      omega
    cases lean with
    | true => exact (Option.some.inj htext).symm
    | false => exact replaceActive_joined htext hne
  simp only [HistorySnapshot.without, hevents, hillegal]
  exact ⟨htexts, trivial, trivial, trivial, lines_without.trans hlines, trivial⟩

/-! ### The tickets of the kept lines -/

theorem readEvent_ticket (binding : Binding) (e : LogEvent) : (readEvent w d binding e).ticket = e.ticket := by
  unfold readEvent
  split <;> rfl

/-- The number of the ticket field. -/
def LogEvent.ticketField (e : LogEvent) : Option Nat := e.ticket.bind ticketNumber

/-- A reader takes the ticket fields of the events. -/
theorem tickets_of_lines (lines : List HistoryLine) :
    lines.flatMap (fullReading lean).ticketsOf = (lines.filterMap (eventOf w d)).filterMap LogEvent.ticketField := by
  induction lines with
  | nil => rfl
  | cons line lines ih =>
    rw [List.flatMap_cons, ih, List.filterMap_cons, Reading.ticketsOf, eventOf]
    cases parseLogLine line.2.1 with
    | none => rfl
    | some e =>
      have hfield : (readEvent w d (w.binding d) e).ticketField = e.ticket.bind ticketNumber := by
        rw [LogEvent.ticketField, readEvent_ticket]
      simp only [Option.map_some, Option.getD_some, List.filterMap_cons, hfield, fullReading]
      cases e.ticket.bind ticketNumber <;> rfl

/-- A number behind `T-` is mentioned. -/
theorem mem_ticketMentions {pre ds rest : List Char} {n : Nat} (hds : number? ds = some n)
    (hdecimal : ∀ c ∈ ds, isDecimal c = true) (hrest : ∀ c ∈ rest.head?, isDecimal c = false) :
    n ∈ ticketMentions (pre ++ ("T-".toList ++ (ds ++ rest))) := by
  refine List.mem_filterMap.mpr ⟨"T-".toList ++ (ds ++ rest), (List.mem_tails _ _).mpr (List.suffix_append _ _), ?_⟩
  have htake : (ds ++ rest).takeWhile isDecimal = ds := by
    rw [List.takeWhile_append_of_pos hdecimal]
    cases rest with
    | nil => rw [List.takeWhile_nil, List.append_nil]
    | cons c cs => rw [List.takeWhile_cons_of_neg (by simp [hrest c rfl]), List.append_nil]
  rw [literal_append, Option.bind_some, htake, hds]

/-- An event names the ticket of its field. -/
theorem ticketField_named {e : LogEvent} {n : Nat} (h : e.ticketField = some n) : n ∈ e.namedTickets := by
  obtain ⟨ticket, hticket, h⟩ := Option.bind_eq_some_iff.mp h
  simp only [ticketNumber, Option.bind_eq_bind, Option.bind_eq_some_iff] at h
  obtain ⟨cs, hcs, h⟩ := h
  split at h
  case isFalse => cases h
  case isTrue hend =>
    have htext : ("[" ++ e.ticket.getD "" ++ "] " ++ e.text).toList =
        ['['] ++ ("T-".toList ++ (cs.takeWhile isDecimal ++
          (cs.dropWhile isDecimal ++ (']' :: ' ' :: e.text.toList)))) := by
      rw [← List.append_assoc (cs.takeWhile isDecimal), List.takeWhile_append_dropWhile, hticket,
        Option.getD_some, String.toList_append, String.toList_append, String.toList_append,
        literal_eq_some_iff.mp hcs]
      simp
    rw [LogEvent.namedTickets, htext]
    refine mem_ticketMentions h (fun c hc => List.mem_takeWhile_imp hc) fun c hc => ?_
    rw [List.mem_cons, List.mem_singleton] at hend
    rcases hend with hend | hend <;> rw [hend] at hc <;> obtain rfl := Option.some.inj hc <;> decide

/-- The tickets some events name are reached by the ticket fields of some of them. -/
def FieldsReach (events : List LogEvent) : Prop :=
  ∀ e ∈ events, ∀ n ∈ e.namedTickets,
    n = 0 ∨ ∃ e' ∈ events, ∃ m, e'.ticketField = some m ∧ n ≤ m

theorem named_eq_fields_iff {events : List LogEvent} :
    (events.flatMap LogEvent.namedTickets).foldl max 0 = (events.filterMap LogEvent.ticketField).foldl max 0 ↔
      FieldsReach events := by
  have hle : (events.filterMap LogEvent.ticketField).foldl max 0 ≤
      (events.flatMap LogEvent.namedTickets).foldl max 0 := by
    rw [foldl_max_le]
    refine ⟨Nat.zero_le _, fun n hn => le_foldl_max.mpr (.inr ⟨n, ?_, le_rfl⟩)⟩
    obtain ⟨e, he, hn⟩ := List.mem_filterMap.mp hn
    exact List.mem_flatMap.mpr ⟨e, he, ticketField_named hn⟩
  rw [← hle.ge_iff_eq', foldl_max_le]
  simp only [le_foldl_max, List.mem_flatMap, List.mem_filterMap, Nat.zero_le, true_or, true_and,
    Nat.le_zero_eq]
  constructor
  · intro h e he n hn
    rcases h n ⟨e, he, hn⟩ with hzero | ⟨m, ⟨e', he', hm⟩, hle⟩
    · exact .inl hzero
    · exact .inr ⟨e', he', m, hm, hle⟩
  · rintro h n ⟨e, he, hn⟩
    rcases h e he n hn with hzero | ⟨e', he', m, hm, hle⟩
    · exact .inl hzero
    · exact .inr ⟨m, ⟨e', he', hm⟩, hle⟩

/-- A suffix with no event has no tickets. -/
theorem cutLines_tickets (w : World) (d : Disk) {anchor : Nat}
    (hnone : suffixEvents ((splitLines active).drop (anchor + 1)) = 0) :
    (cutLines active anchor).flatMap (fullReading lean).ticketsOf = [] := by
  rw [tickets_of_lines (w := w) (d := d)]
  have hlength : ((cutLines active anchor).filterMap (eventOf w d)).length =
      suffixEvents ((splitLines active).drop (anchor + 1)) :=
    length_cut fun line => by rw [eventOf, Option.isSome_map]
  rw [hnone, List.length_eq_zero_iff] at hlength
  rw [hlength, List.filterMap_nil]

/-! ### Writing the kept text -/

/-- `.saipen/LOG.md`. -/
def logPath : Path := [".saipen", "LOG.md"]

theorem components_detail {s : String} (h : startsWith s detailRoot = true) :
    ∃ rest, components s = ".saipen" :: "recovery" :: rest := by
  obtain ⟨rest, hrest⟩ := List.isPrefixOf_iff_prefix.mp h
  have hchars : s.toList = ".saipen".toList ++ '/' :: ("recovery".toList ++ '/' :: ("log-detail/".toList ++ rest)) := by
    rw [← hrest]
    rfl
  have hsplit : Text.split '/' s = ".saipen" :: "recovery" ::
      (("log-detail/".toList ++ rest).splitOn '/').map String.ofList := by
    rw [Text.split, hchars, List.splitOn,
      List.splitOnP_append_cons_of_forall_mem (by simp) '/' (by decide),
      List.splitOnP_append_cons_of_forall_mem (by simp) '/' (by decide)]
    rfl
  rw [components, hsplit]
  exact ⟨_, rfl⟩

variable {c : Content} {d' : Disk} {text : String}

theorem probe_written {q : Path} (hwrite : writeFile c logPath d = some d') (hq : Apart q logPath) :
    probe q d' = probe q d := probe_alter_of_apart hwrite hq

/-- No detail is read from the LOG. -/
theorem ownedDetail_written (hwrite : writeFile c logPath d = some d') (reference : String) :
    ownedDetail d' reference = ownedDetail d reference := by
  unfold ownedDetail
  dsimp only
  split_ifs with hrefused
  · rfl
  · obtain ⟨rest, hrest⟩ := components_detail (not_not.mp (not_or.mp hrefused).2)
    have hapart : Apart (".saipen" :: "recovery" :: rest) logPath :=
      apart_cons_self.mpr (apart_of_head_ne (by decide) _ _)
    rw [hrest, probe_written hwrite hapart]

/-- The events of the lines do not depend on the LOG. -/
theorem eventOf_written (hwrite : writeFile c logPath d = some d') : eventOf w d' = eventOf w d := by
  have hbinding : w.binding d' = w.binding d := by
    have hapart : Apart identityPath logPath := apart_cons_self.mpr (apart_of_head_ne (by decide) _ _)
    rw [World.binding, World.binding, projectLineageIdentity, projectLineageIdentity,
      probe_written hwrite hapart]
  have hdetail : ownedDetail d' = ownedDetail d := funext (ownedDetail_written hwrite)
  have htext : readDetailText w d' = readDetailText w d := by
    funext binding reference parsed structure?
    simp only [readDetailText, originalBytes, hdetail]
  have hevent : readEvent w d' = readEvent w d := by
    funext binding parsed
    rw [readEvent, readEvent, restoredDetailText, restoredDetailText, htext]
  funext line
  rw [eventOf, eventOf, hbinding, hevent]

theorem activeNode_written (hwrite : writeFile c logPath d = some d') :
    activeNode w d' = .ok (some (w.bytes c)) := by
  have hprobe : probe logPath d' = .found (.file c) := (writeFile_isFile hwrite).1
  rw [logPath] at hprobe
  rw [activeNode, hprobe]
  rfl

/-- The LOG is read anew with the history it belongs to, when it is UTF-8. -/
theorem readHistory_written (hread : readHistory w d = .ok h) (hwrite : writeFile c logPath d = some d')
    (h' : History) :
    readHistory w d' = .ok h' ↔
      isCanonicalEncoding (w.bytes c) = true ∧ h' = { h with active := some (w.bytes c) } := by
  have hsealed : sealedContainer d' = sealedContainer d := by
    have hapart : Apart [".saipen", "logs"] logPath := apart_cons_self.mpr (apart_of_head_ne (by decide) _ _)
    rw [sealedContainer, sealedContainer, probe_written hwrite hapart]
  unfold readHistory at hread ⊢
  obtain ⟨entries, hentries, hread⟩ := Checks.bind_eq_ok.mp hread
  obtain ⟨sealed, hsegments, hread⟩ := Checks.bind_eq_ok.mp hread
  obtain ⟨active, -, hread⟩ := Checks.bind_eq_ok.mp hread
  split_ifs at hread
  obtain rfl := Checks.pure_eq_ok.mp hread
  simp only [hsealed, hentries, hsegments, activeNode_written hwrite, Checks.bind_eq_ok, Except.ok.injEq,
    exists_eq_left', Option.any_some]
  by_cases hcanonical : isCanonicalEncoding (w.bytes c) = true
  · have haccepted : ¬(!isCanonicalEncoding (w.bytes c)) = true := by simp [hcanonical]
    rw [if_neg haccepted, Checks.pure_eq_ok, and_iff_right hcanonical, eq_comm]
  · simp [hcanonical]

/-- What a reader answers once the LOG has a text. -/
theorem contents_written (hread : readHistory w d = .ok h) (hwrite : writeFile c logPath d = some d')
    (contents : HistorySnapshot) :
    (readHistorySnapshot w p d' lean).map HistorySnapshot.contents = .ok contents ↔
      isCanonicalEncoding (w.bytes c) = true ∧
        h.reread w p d lean (normalisedDocText (w.bytes c)) = contents := by
  have hcontents : (History.snapshot w p d' (fullReading lean)
      { h with active := some (w.bytes c) }).contents =
        h.reread w p d lean (normalisedDocText (w.bytes c)) := by
    rw [contents_snapshot rfl, History.reread, History.reread, contentsOf, contentsOf, eventOf_written hwrite]
    rfl
  simp only [readHistorySnapshot, Checks.map_eq_ok, readHistory_written hread hwrite]
  constructor
  · rintro ⟨s, ⟨h', ⟨hcanonical, rfl⟩, rfl⟩, rfl⟩
    exact ⟨hcanonical, hcontents.symm⟩
  · rintro ⟨hcanonical, rfl⟩
    exact ⟨_, ⟨_, ⟨hcanonical, rfl⟩, rfl⟩, hcontents⟩

/-! ### The cut and the reader -/

/-- Behind a line of the active LOG no event follows, or the ticket fields of the events up to it reach
every ticket these events name. -/
def TicketsKept (w : World) (d : Disk) (h : History) (active : String) (anchor : Nat) : Prop :=
  suffixEvents ((splitLines active).drop (anchor + 1)) = 0 ∨
    FieldsReach ((h.sealedLines ++ keptLines active anchor).filterMap (eventOf w d))

/-- A text that is written in UTF-8 is read back for what it is. -/
structure ReadsBack (w : World) (p : Printable) (d : Disk) (lean : Bool) (h : History) (text : String) : Prop where
  canonical : isCanonicalEncoding (encodeUtf8 text) = true
  reread : h.reread w p d lean (normalisedDocText (encodeUtf8 text)) = h.reread w p d lean text

variable (w p d lean h) in
/-- The largest ticket a reader finds is that of its events. -/
theorem reread_maxTicketId (text : String) : (h.reread w p d lean text).maxTicketId =
    ((h.reread w p d lean text).events.filterMap LogEvent.ticketField).foldl max 0 := by
  rw [History.reread, contentsOf, tickets_of_lines (w := w) (d := d)]

/-- The tickets of the cut are those the reader finds. -/
theorem maxTicketId_without_iff {anchor : Nat} {text : String} (hlt : anchor < (splitLines active).length)
    (hs : s.contents = h.reread w p d lean active)
    (htext : replaceActive s.text active (keptOf active anchor) = some text) :
    (s.without text (anchor + 1) (suffixEvents ((splitLines active).drop (anchor + 1)))).maxTicketId =
      (h.reread w p d lean (keptOf active anchor)).maxTicketId ↔ TicketsKept w d h active anchor := by
  have hkept : (h.reread w p d lean (keptOf active anchor)).events =
      (h.sealedLines ++ keptLines active anchor).filterMap (eventOf w d) := by
    rw [History.reread, contentsOf, activeLines_kept hlt]
  have hevents : (s.without text (anchor + 1)
      (suffixEvents ((splitLines active).drop (anchor + 1)))).events =
        (h.sealedLines ++ keptLines active anchor).filterMap (eventOf w d) := by
    have hcontents := congrArg HistorySnapshot.events (contents_without w p d lean h hlt hs htext)
    exact hcontents.trans hkept
  rw [reread_maxTicketId, hkept, TicketsKept]
  by_cases hcount : suffixEvents ((splitLines active).drop (anchor + 1)) = 0
  · refine iff_of_true ?_ (.inl hcount)
    have hall : s.contents.maxTicketId = (h.reread w p d lean active).maxTicketId := by rw [hs]
    have hlines : (h.reread w p d lean active).maxTicketId =
        ((h.sealedLines ++ keptLines active anchor ++ cutLines active anchor).flatMap
          (fullReading lean).ticketsOf).foldl max 0 := by
      rw [History.reread, contentsOf, activeLines_eq hlt, List.append_assoc]
    rw [HistorySnapshot.contents] at hall
    rw [HistorySnapshot.without, if_pos hcount, hall, hlines, List.flatMap_append,
      cutLines_tickets w d hcount, List.append_nil, tickets_of_lines (w := w) (d := d)]
  · rw [or_iff_right hcount, ← named_eq_fields_iff, ← hevents, HistorySnapshot.without, if_neg hcount]

/-- The last line repeats the event of the first, which names a ticket in its text. -/
def strayLog : String := "- 01.02.26 10:11 [E-1] DEC: after T-9\n- 01.02.26 10:11 [E-1] DEC: stray\n"

/-- Its first line. -/
def strayKept : String := "- 01.02.26 10:11 [E-1] DEC: after T-9\n"

def strayHistory : History := ⟨[], some (encodeUtf8 strayLog)⟩

theorem readHistory_strayLog : readHistory sampleWorld (logDisk strayLog) = .ok strayHistory :=
  readHistory_logDisk (by decide +kernel)

theorem strayLog_cut : ∃ ft, foreignTailCut
    (strayHistory.snapshot sampleWorld samplePrintable (logDisk strayLog) (fullReading false))
      (normalisedDocText (encodeUtf8 strayLog)) (some 1) none = .ok ft ∧
        ft.keptText = strayKept ∧ ft.snapshot.maxTicketId = 9 := by
  have hcut : (foreignTailCut
      (strayHistory.snapshot sampleWorld samplePrintable (logDisk strayLog) (fullReading false))
        (normalisedDocText (encodeUtf8 strayLog)) (some 1) none).toOption.map
          (fun ft => (ft.keptText, ft.snapshot.maxTicketId)) = some (strayKept, 9) := by
    decide +kernel
  revert hcut
  cases foreignTailCut
    (strayHistory.snapshot sampleWorld samplePrintable (logDisk strayLog) (fullReading false))
      (normalisedDocText (encodeUtf8 strayLog)) (some 1) none with
  | error e => exact fun h => by cases h
  | ok ft =>
    intro h
    obtain ⟨hkept, hmax⟩ := Prod.mk.inj (Option.some.inj h)
    exact ⟨ft, rfl, hkept, hmax⟩

end Saipen.Log
