import Saipen.Log.Claimed
import Saipen.Log.Compaction

/-! # The history readers agree

The routing summary follows the full snapshot line by line, and the two snapshots gather the same
lines. They can tell a history apart in two ways only: the snapshot with the digest takes a `[T-n]`
anywhere in a legal line for a ticket, and the routing summary takes a highest id of zero for none. -/

namespace Saipen.Log

open Text FileTree Accumulate

section Agreement

variable {w : World} {p : Printable} {d : Disk} {h : History}

/-! ### What a snapshot holds -/

theorem readEvent_event (binding : Binding) (e : LogEvent) :
    (readEvent w d binding e).event = e.event := by
  unfold readEvent
  split <;> rfl

theorem readEvent_parent (binding : Binding) (e : LogEvent) :
    (readEvent w d binding e).parent = e.parent := by
  unfold readEvent
  split <;> rfl

variable (w p d h) in
/-- The snapshot of a history, field by field. -/
theorem History.snapshot_eq (r : Reading) :
    h.snapshot w p d r =
      { hash := w.historyHash (h.segments.flatMap Segment.frame)
        text := if r.retainText then
            "\n".intercalate (h.segments.map fun seg : Segment => normalisedDocText seg.raw)
          else ""
        tail := tailOf none ((h.lines.filterMap (eventOf w d)).map (·.event))
          (h.lines.filterMap (problemOf p))
        events := h.lines.filterMap (eventOf w d)
        illegalLines := h.lines.filterMap (problemOf p)
        eventLines := h.lines.filterMap r.retained
        maxTicketId := (h.lines.flatMap r.ticketsOf).foldl max 0 } := by
  rw [History.snapshot, Pass.foldl_segment]
  cases r.retainText <;> simp [Pass.gather, History.lines]

/-! ### The routing summary follows the full snapshot -/

/-- The accumulators of the two readers after the same lines. -/
structure Follows (s : Pass) (t : RoutingPass) : Prop where
  framed : t.framed = s.framed
  illegal : t.illegal = s.illegal
  maxTicketId : t.maxTicketId = s.maxTicketId
  routing : t.routing = newest routingTailEvents s.events
  eventCount : t.eventCount = s.events.length
  highest : t.highest = (s.events.map (·.event)).foldl max 0

theorem Follows.line {s : Pass} {t : RoutingPass} (lean : Bool) (name : String) (line : String × Nat)
    (hf : Follows s t) :
    Follows (Pass.line w p d (fullReading lean) name s line) (RoutingPass.line w p d name t line) := by
  obtain hp | ⟨e, hp⟩ := Option.eq_none_or_eq_some (parseLogLine line.1)
  · simp only [Pass.line, RoutingPass.line, hp]
    cases isSkipped line.1 with
    | true => exact hf
    | false =>
      refine ⟨hf.framed, ?_, hf.maxTicketId, hf.routing, hf.eventCount, hf.highest⟩
      simp [hf.illegal]
  · simp only [Pass.line, RoutingPass.line, hp, fullReading]
    refine ⟨hf.framed, hf.illegal, ?_, ?_, ?_, ?_⟩
    · simp [hf.maxTicketId]
    · rw [hf.routing, pushBounded_newest]
    · simp [hf.eventCount]
    · simp [hf.highest, readEvent_event]

theorem Follows.segment {s : Pass} {t : RoutingPass} (lean : Bool) (seg : Segment)
    (hf : Follows s t) :
    Follows (Pass.segment w p d (fullReading lean) s seg) (RoutingPass.segment w p d t seg) := by
  unfold Pass.segment RoutingPass.segment
  refine List.foldl_rel (r := Follows) ?_ fun line _ _ _ hf => hf.line lean seg.name line
  refine ⟨?_, hf.illegal, hf.maxTicketId, hf.routing, hf.eventCount, hf.highest⟩
  rw [hf.framed]

/-- The routing summary of a history beside the full snapshot. -/
theorem follows_history (lean : Bool) :
    Follows (h.segments.foldl (Pass.segment w p d (fullReading lean)) {})
      (h.segments.foldl (RoutingPass.segment w p d) {}) :=
  List.foldl_rel ⟨rfl, rfl, rfl, rfl, rfl, rfl⟩ fun seg _ _ _ hf => hf.segment lean seg

/-! ### The tail -/

/-- A highest id of zero counts as none, unless a damaged line claims an id. -/
theorem tailOf_eq_iff {ids : List Nat} {illegal : List String} :
    tailOf (if ids.foldl max 0 = 0 then none else some (ids.foldl max 0)) [] illegal =
        tailOf none ids illegal ↔
      illegal.filterMap declaredEventId ≠ [] ∨ (∃ id ∈ ids, 0 < id) ∨ ids = [] := by
  have hpos : (∃ id ∈ ids, 0 < id) ↔ ids.foldl max 0 ≠ 0 := by
    rw [← Nat.pos_iff_ne_zero, ← Nat.succ_le_iff, le_foldl_max]
    simp [Nat.succ_le_iff]
  rw [tailOf, tailOf, List.foldl_nil, foldl_raiseTail_none, hpos]
  cases hids : decide (ids = []) with
  | true =>
    obtain rfl := of_decide_eq_true hids
    simp
  | false =>
    have hne : ids ≠ [] := of_decide_eq_false hids
    by_cases hzero : ids.foldl max 0 = 0
    · rw [if_pos hzero, if_neg hne, hzero]
      cases illegal.filterMap declaredEventId with
      | nil => simp [hne]
      | cons id rest =>
        have hstep : raiseTail (some 0) id = raiseTail none id := by
          cases id <;> simp [raiseTail]
        rw [List.foldl_cons, List.foldl_cons, hstep]
        simp
    · simp [hzero, hne]

/-! ### The tickets -/

/-- A ticket field with a number is a mention of its line. -/
theorem ticketNumber_mem_mentions {line : String} {e : LogEvent} {n : Nat}
    (hparse : parseLogLine line = some e) (hline : OneLine line.toList)
    (hn : e.ticket.bind ticketNumber = some n) : n ∈ mentions 'T' line.toList := by
  obtain ⟨ticket, hticket, hn⟩ := Option.bind_eq_some_iff.mp hn
  obtain ⟨pre, rest, hstands⟩ := parsed_ticket hparse hticket
  simp only [ticketNumber, Option.bind_eq_bind, Option.bind_eq_some_iff] at hn
  obtain ⟨cs, hcs, hn⟩ := hn
  split at hn
  case isFalse => cases hn
  case isTrue hend =>
    -- no newline ends the ticket, which stands inside one line
    have hnil : cs.dropWhile isDecimal = [] := by
      rw [List.mem_cons, List.mem_singleton] at hend
      rcases hend with hend | hend
      · exact hend
      · have hmem : '\n' ∈ line.toList := by
          have hcs' : '\n' ∈ cs := (List.dropWhile_suffix isDecimal).subset (by rw [hend]; simp)
          rw [hstands, literal_eq_some_iff.mp hcs]
          simp [hcs']
        exact absurd (hline _ hmem) (by decide)
    have hdigits : cs.takeWhile isDecimal = cs := by
      rw [← List.append_nil (cs.takeWhile isDecimal), ← hnil, List.takeWhile_append_dropWhile]
    rw [hdigits] at hn
    refine mem_mentions_iff.mpr ⟨pre, cs, rest, ?_, hn⟩
    rw [hstands, literal_eq_some_iff.mp hcs]
    rfl

/-- The lines of a history end no line inside. -/
theorem oneLine_of_mem_lines {line : HistoryLine} (hline : line ∈ h.lines) :
    OneLine line.2.1.toList := by
  obtain ⟨seg, -, hline⟩ := List.mem_flatMap.mp hline
  obtain ⟨⟨l, idx⟩, hl, rfl⟩ := List.mem_map.mp hline
  have hmem : l ∈ splitLines (normalisedDocText seg.raw) := (List.mem_zipIdx hl).2.2 ▸ List.getElem_mem _
  obtain ⟨cs, hcs, rfl⟩ := List.mem_map.mp hmem
  rw [String.toList_ofList]
  exact oneLine_of_mem_linesFrom (by simp [OneLine]) hcs

theorem mem_ticketsOf {r : Reading} {n : Nat} {line : HistoryLine} :
    n ∈ r.ticketsOf line ↔ ∃ e, parseLogLine line.2.1 = some e ∧ n ∈ r.tickets line.2.1 e := by
  unfold Reading.ticketsOf
  cases parseLogLine line.2.1 <;> simp

variable (h) in
/-- Every ticket a legal line mentions is one that the ticket fields reach. -/
def History.TicketsReached : Prop :=
  ∀ line ∈ h.lines, ∀ e, parseLogLine line.2.1 = some e → ∀ n ∈ mentions 'T' line.2.1.toList,
    n = 0 ∨ ∃ line' ∈ h.lines, ∃ e', parseLogLine line'.2.1 = some e' ∧
      ∃ m, e'.ticket.bind ticketNumber = some m ∧ n ≤ m

theorem maxTicketId_eq_iff (lean retainText : Bool) :
    (h.lines.flatMap (digestReading retainText).ticketsOf).foldl max 0 =
        (h.lines.flatMap (fullReading lean).ticketsOf).foldl max 0 ↔ h.TicketsReached := by
  have hle : (h.lines.flatMap (fullReading lean).ticketsOf).foldl max 0 ≤
      (h.lines.flatMap (digestReading retainText).ticketsOf).foldl max 0 := by
    rw [foldl_max_le]
    refine ⟨Nat.zero_le _, fun n hn => le_foldl_max.mpr (.inr ⟨n, ?_, le_rfl⟩)⟩
    obtain ⟨line, hline, hn⟩ := List.mem_flatMap.mp hn
    obtain ⟨e, he, hn⟩ := mem_ticketsOf.mp hn
    exact List.mem_flatMap.mpr ⟨line, hline, mem_ticketsOf.mpr ⟨e, he,
      ticketNumber_mem_mentions he (oneLine_of_mem_lines hline) (Option.mem_toList.mp hn)⟩⟩
  rw [← hle.ge_iff_eq', foldl_max_le]
  simp only [le_foldl_max, List.mem_flatMap, mem_ticketsOf, fullReading, digestReading,
    Option.mem_toList, Nat.zero_le, true_or, true_and, Nat.le_zero_eq]
  constructor
  · intro hreach line hline e he n hn
    rcases hreach n ⟨line, hline, e, he, hn⟩ with hn | ⟨m, ⟨line', hline', e', he', hm⟩, hnm⟩
    · exact .inl hn
    · exact .inr ⟨line', hline', e', he', m, hm, hnm⟩
  · rintro hreach n ⟨line, hline, e, he, hn⟩
    rcases hreach line hline e he n hn with hn | ⟨line', hline', e', he', m, hm, hnm⟩
    · exact .inl hn
    · exact .inr ⟨m, ⟨line', hline', e', he', hm⟩, hnm⟩

/-! ### The three readers -/

variable (h) in
/-- The highest event id is not zero, unless no line is an event or a damaged one claims an id. -/
def History.TailTold : Prop :=
  (∃ line ∈ h.lines, isDamaged line.2.1 = true ∧ declaredEventId (reported line.2.1) ≠ none) ∨
    (∃ line ∈ h.lines, ∃ e, parseLogLine line.2.1 = some e ∧ 0 < e.event) ∨
    ∀ line ∈ h.lines, parseLogLine line.2.1 = none

/-- The three answers agree in the fields they share. -/
structure Agree (lean retainText : Bool) (full digest : HistorySnapshot)
    (routing : HistoryRoutingSummary) : Prop where
  hash : digest.hash = full.hash ∧ routing.hash = full.hash
  tail : digest.tail = full.tail ∧ routing.tail = full.tail
  illegalLines : digest.illegalLines = full.illegalLines ∧ routing.illegalLines = full.illegalLines
  events : digest.events = full.events ∧
    routing.routingEvents = newest routingTailEvents full.events ∧
    routing.eventCount = full.events.length
  maxTicketId : digest.maxTicketId = full.maxTicketId ∧ routing.maxTicketId = full.maxTicketId
  text : lean = false → retainText = true → digest.text = full.text
  eventLines : lean = false → digest.eventLines = full.eventLines

/-- The three readers refuse a project for the same reason, or agree in their answers. -/
def ReadersAgree (w : World) (p : Printable) (d : Disk) (lean retainText : Bool) : Prop :=
  match readHistorySnapshot w p d lean, readHistorySnapshotAndLogsDigest w p d retainText,
    readHistoryRoutingSummary w p d with
  | .ok full, .ok (digest, _), .ok routing => Agree lean retainText full digest routing
  | .error e₁, .error e₂, .error e₃ => e₂ = e₁ ∧ e₃ = e₁
  | _, _, _ => False

/-- The ids the reports claim are those they show of the damaged lines. -/
theorem exists_claim_iff {P : Nat → Prop} :
    (∃ m ∈ (h.lines.filterMap (problemOf p)).filterMap declaredEventId, P m) ↔
      ∃ line ∈ h.lines, isDamaged line.2.1 = true ∧
        ∃ m, declaredEventId (reported line.2.1) = some m ∧ P m := by
  simp only [List.filterMap_filterMap, List.mem_filterMap, Option.bind_eq_some_iff]
  constructor
  · rintro ⟨m, ⟨line, hline, problem, hproblem, hm⟩, hP⟩
    unfold problemOf at hproblem
    split at hproblem
    case isFalse => cases hproblem
    case isTrue hdamaged =>
      obtain rfl := Option.some.inj hproblem
      rw [declaredEventId_illegalLine (bracket_notMem_name hline)] at hm
      exact ⟨line, hline, hdamaged, m, hm, hP⟩
  · rintro ⟨line, hline, hdamaged, m, hm, hP⟩
    refine ⟨m, ⟨line, hline, illegalLine p line.1 line.2.2 line.2.1, ?_, ?_⟩, hP⟩
    · rw [problemOf, if_pos hdamaged]
    · rw [declaredEventId_illegalLine (bracket_notMem_name hline), hm]

theorem exists_event_iff {P : Nat → Prop} :
    (∃ id ∈ (h.lines.filterMap (eventOf w d)).map (·.event), P id) ↔
      ∃ line ∈ h.lines, ∃ e, parseLogLine line.2.1 = some e ∧ P e.event := by
  simp only [List.mem_map, List.mem_filterMap, eventOf, Option.map_eq_some_iff]
  constructor
  · rintro ⟨-, ⟨-, ⟨line, hline, e, he, rfl⟩, rfl⟩, hP⟩
    exact ⟨line, hline, e, he, by rwa [readEvent_event] at hP⟩
  · rintro ⟨line, hline, e, he, hP⟩
    exact ⟨_, ⟨_, ⟨line, hline, e, he, rfl⟩, rfl⟩, by rwa [readEvent_event]⟩

theorem no_event_iff :
    (h.lines.filterMap (eventOf w d)).map (·.event) = [] ↔
      ∀ line ∈ h.lines, parseLogLine line.2.1 = none := by
  simp [eventOf]

/-- The routing summary has the tail of the snapshot when the highest id is told from none. -/
theorem tail_eq_iff (lean : Bool) :
    (h.routing w p d).tail = (h.snapshot w p d (fullReading lean)).tail ↔ h.TailTold := by
  have hf := follows_history (w := w) (p := p) (d := d) (h := h) lean
  have hsnapshot := h.snapshot_eq w p d (fullReading lean)
  have hevents : (h.segments.foldl (Pass.segment w p d (fullReading lean)) {}).events =
      h.lines.filterMap (eventOf w d) := congrArg HistorySnapshot.events hsnapshot
  have hillegal : (h.segments.foldl (Pass.segment w p d (fullReading lean)) {}).illegal =
      h.lines.filterMap (problemOf p) := congrArg HistorySnapshot.illegalLines hsnapshot
  have htail : (h.routing w p d).tail =
      tailOf (if ((h.lines.filterMap (eventOf w d)).map (·.event)).foldl max 0 = 0 then none
        else some (((h.lines.filterMap (eventOf w d)).map (·.event)).foldl max 0)) []
        (h.lines.filterMap (problemOf p)) := by
    simp only [History.routing, hf.highest, hf.illegal, hevents, hillegal]
  have hclaim : (h.lines.filterMap (problemOf p)).filterMap declaredEventId ≠ [] ↔
      ∃ line ∈ h.lines, isDamaged line.2.1 = true ∧ declaredEventId (reported line.2.1) ≠ none := by
    have hany := exists_claim_iff (p := p) (h := h) (P := fun _ => True)
    simp only [and_true] at hany
    simp only [ne_eq, List.eq_nil_iff_forall_not_mem, not_forall, not_not, hany,
      Option.eq_none_iff_forall_ne_some]
  rw [htail, hsnapshot, tailOf_eq_iff, hclaim, exists_event_iff, no_event_iff]
  rfl

/-- The routing summary beside the full snapshot, without the tail. -/
theorem routing_eq_snapshot (lean : Bool) :
    let s := h.snapshot w p d (fullReading lean)
    (h.routing w p d).hash = s.hash ∧ (h.routing w p d).illegalLines = s.illegalLines ∧
      (h.routing w p d).routingEvents = newest routingTailEvents s.events ∧
      (h.routing w p d).eventCount = s.events.length ∧
      (h.routing w p d).maxTicketId = s.maxTicketId := by
  have hf := follows_history (w := w) (p := p) (d := d) (h := h) lean
  simp only [History.routing, History.snapshot, hf.framed, hf.illegal, hf.routing, hf.eventCount,
    hf.maxTicketId, and_self]

theorem agree_iff (lean retainText : Bool) :
    Agree lean retainText (h.snapshot w p d (fullReading lean))
        (h.snapshot w p d (digestReading retainText)) (h.routing w p d) ↔
      h.TicketsReached ∧ h.TailTold := by
  obtain ⟨hhash, hillegal, hrouting, hcount, htickets⟩ :=
    routing_eq_snapshot (w := w) (p := p) (d := d) (h := h) lean
  have hfull := h.snapshot_eq w p d (fullReading lean)
  have hdigest := h.snapshot_eq w p d (digestReading retainText)
  rw [← tail_eq_iff (w := w) (p := p) (d := d) lean, ← maxTicketId_eq_iff lean retainText]
  constructor
  · intro ha
    have htickets := ha.maxTicketId.1
    rw [hfull, hdigest] at htickets
    exact ⟨htickets, ha.tail.2⟩
  · rintro ⟨hreach, htail⟩
    refine ⟨⟨?_, hhash⟩, ⟨?_, htail⟩, ⟨?_, hillegal⟩, ⟨?_, hrouting, hcount⟩, ⟨?_, htickets⟩, ?_, ?_⟩
    · rw [hfull, hdigest]
    · rw [hfull, hdigest]
    · rw [hfull, hdigest]
    · rw [hfull, hdigest]
    · rw [hfull, hdigest]
      exact hreach
    · rintro rfl rfl
      rw [hfull, hdigest]
      rfl
    · rintro rfl
      rw [hfull, hdigest]
      rfl

/-- What agreement says of the maximum ticket ids and of the tails. -/
theorem ReadersAgree.shared {lean retainText : Bool} (ha : ReadersAgree w p d lean retainText) :
    (readHistorySnapshot w p d lean).toOption.map (·.maxTicketId) =
        (readHistorySnapshotAndLogsDigest w p d retainText).toOption.map (·.1.maxTicketId) ∧
      (readHistorySnapshot w p d lean).toOption.map (·.tail) =
        (readHistoryRoutingSummary w p d).toOption.map (·.tail) := by
  unfold ReadersAgree at ha
  split at ha
  case h_1 hfull hdigest hrouting =>
    simp [hfull, hdigest, hrouting, Except.toOption, ha.maxTicketId.1, ha.tail.2]
  case h_2 hfull hdigest hrouting => simp [hfull, hdigest, hrouting, Except.toOption]
  case h_3 => exact ha.elim

/-- A project that has nothing but an active LOG. -/
def logDisk (text : String) : Disk := [(".saipen", .dir [("LOG.md", .file (.text text))])]

end Agreement

end Saipen.Log
