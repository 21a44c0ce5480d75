import Saipen.Journal.Sample
import Saipen.Log.Detail
import Saipen.Log.Redact
import Saipen.Log.Render

/-! # Bounded events

`prepare_event` renders an event whole when it fits, and otherwise writes the full line to a detail
file and a reference to it into the LOG; `prepare_bounded_event` redacts the message first and
refuses what does not stand on one line. Both round trips of an event are settled here: that of its
line, and that of an externalised message through the detail reader. -/

namespace Saipen.Log

open Text FileTree

/-! ### The writer -/

/-- `MAX_NEW_EVENT_BYTES`. -/
def maxNewEventBytes : Nat := 1024

/-- `needle in hay`. -/
def contains (needle hay : String) : Bool := hay.toList.tails.any needle.toList.isPrefixOf

/-- Whether an event is too long for its line, or its message could be taken for a reference. -/
def Draft.externalised (d : Draft) (structure? : Option BlockStructure) : Bool :=
  maxNewEventBytes < (encodeUtf8 d.line).length ||
    (structure?.isSome && (contains "detail_ref:" d.message || contains "structural_event:" d.message))

/-- The bytes of the detail file, as text. -/
def Draft.full (d : Draft) : String := d.line ++ "\n"

/-- `E-n-<24 digits>`, the name both files share. -/
def Draft.stem (w : World) (d : Draft) : String :=
  "E-" ++ (nextEventId d.tail).repr ++ "-" ++
    String.ofList ((w.sha256 (encodeUtf8 d.full)).toList.take 24)

def Draft.detailRef (w : World) (d : Draft) : String := detailRoot ++ d.stem w ++ ".LOG.md"

def Draft.metadataRef (w : World) (d : Draft) : String := detailRoot ++ d.stem w ++ ".json"

/-- The metadata of an externalised event. -/
def Draft.metadata (w : World) (disk : Disk) (d : Draft) (structure? : Option BlockStructure) :
    Dict :=
  [("schema_version", .int 1), ("operation", .str "log_event_externalization"),
    ("status", .str "COMMITTED"), ("event_id", .str ("E-" ++ (nextEventId d.tail).repr)),
    ("ticket_id", nullable d.ticket), ("project_identity", .str w.env.runtimeIdentity),
    ("project_lineage", nullable (projectLineageIdentity w.env disk)),
    ("source", .str ".saipen/LOG.md"), ("original_event_path", .str (d.detailRef w)),
    ("original_event_sha256", .str (w.sha256 (encodeUtf8 d.full))),
    ("original_event_bytes", .int (encodeUtf8 d.full).length),
    ("metadata_path", .str (d.metadataRef w)),
    ("externalization_event", .obj [("operation_id", nullable d.opId),
      ("reason", .str "new LOG event exceeds the live cap; canonical detail externalization")]),
    ("lossless", .bool true)] ++
  (structure?.map fun b => ("structural_event", b.record)).toList

/-- The message the LOG keeps of an externalised event. -/
def Draft.compactMessage (w : World) (d : Draft) (structure? : Option BlockStructure) : String :=
  match structure? with
  | none => "detail_ref: " ++ d.metadataRef w
  | some b => b.eventPrefix ++ " -- " ++ structuralDetailTag ++ " -- detail_ref: " ++ d.metadataRef w

/-- The event as the LOG keeps it. -/
def Draft.compact (w : World) (d : Draft) (structure? : Option BlockStructure) : Draft :=
  { d with message := d.compactMessage w structure? }

/-- `LogEventResult`; the targets are the paths and contents of the files to be written. -/
structure LogEventResult where
  event : Nat
  line : String
  targets : List (String × Content)
  detailRef : String

/-- `log_compaction.prepare_event`. -/
def prepareEvent (w : World) (disk : Disk) (d : Draft) (structure? : Option BlockStructure) :
    Except String LogEventResult := do
  let fullLine ← renderEvent d
  if d.externalised structure? = false then
    pure ⟨nextEventId d.tail, fullLine, [], ""⟩
  else if (ownedTargetPath w.env (d.detailRef w)).isNone ∨
      (ownedTargetPath w.env (d.metadataRef w)).isNone then
    .error "LOG event detail escapes the owner root"
  else
    let compact ← renderEvent (d.compact w structure?)
    let compactSize := (encodeUtf8 compact).length
    if maxNewEventBytes < compactSize then
      .error ("LOG_EVENT_OVERSIZE: compact structural event is " ++ compactSize.repr ++
        " bytes, cap is " ++ maxNewEventBytes.repr)
    else
      pure ⟨nextEventId d.tail, compact,
        [(d.detailRef w, .text d.full), (d.metadataRef w, .json (.obj (d.metadata w disk structure?)))],
        d.metadataRef w⟩

/-- The draft with its message redacted. -/
def Draft.redacted (d : Draft) : Draft := { d with message := redactCredentials d.message }

/-- `prepare_bounded_event`: the line must be one line that parses. -/
def prepareBoundedEvent (w : World) (disk : Disk) (d : Draft) (structure? : Option BlockStructure) :
    Except String LogEventResult := do
  let prepared ← prepareEvent w disk d.redacted structure?
  if (splitLines prepared.line).length ≠ 1 ∨ parseLogLine prepared.line = none then
    .error "proposed LOG event metadata does not match the LOG grammar; no event was written"
  else pure prepared

/-! ### What was prepared -/

section Prepared

variable {w : World} {disk : Disk} {d : Draft} {structure? : Option BlockStructure}
  {result : LogEventResult}

theorem renderEvent_ok {line : String} :
    renderEvent d = .ok line ↔ d.taxonomy ∈ validTaxonomies ∧ line = d.line := by
  unfold renderEvent
  split
  case isTrue h => simp [h, eq_comm]
  case isFalse h => simp [h]

/-- A prepared event is the line itself, or its compact form with the two files. -/
theorem prepareEvent_ok (h : prepareEvent w disk d structure? = .ok result) :
    d.taxonomy ∈ validTaxonomies ∧ result.event = nextEventId d.tail ∧
      (d.externalised structure? = false → result.line = d.line) ∧
      (d.externalised structure? = true → result.line = (d.compact w structure?).line ∧
        result.detailRef = d.metadataRef w ∧
        result.targets = [(d.detailRef w, .text d.full),
          (d.metadataRef w, .json (.obj (d.metadata w disk structure?)))]) := by
  unfold prepareEvent at h
  cases hrender : renderEvent d with
  | error e => simp [hrender, bind, Except.bind] at h
  | ok line =>
    obtain ⟨htax, rfl⟩ := renderEvent_ok.mp hrender
    simp only [hrender, bind, Except.bind, pure, Except.pure] at h
    split at h
    case isTrue hext =>
      obtain rfl := Except.ok.inj h
      exact ⟨htax, rfl, fun _ => rfl, fun h => absurd (hext.symm.trans h) (by decide)⟩
    case isFalse hext =>
      split at h
      case isTrue => cases h
      case isFalse =>
        have hcompact : renderEvent (d.compact w structure?) = .ok (d.compact w structure?).line :=
          renderEvent_ok.mpr ⟨htax, rfl⟩
        simp only [hcompact] at h
        split at h
        case isTrue => cases h
        case isFalse =>
          obtain rfl := Except.ok.inj h
          exact ⟨htax, rfl, fun h => absurd h hext, fun _ => ⟨rfl, rfl, rfl⟩⟩

end Prepared

/-! ### The round trip of the line -/

/-- A value that is there, closes no bracket and ends no line. -/
structure Plain (value : String) : Prop where
  present : value ≠ ""
  open_ : ']' ∉ value.toList
  oneLine : OneLine value.toList

/-- The fields of a draft stand in the brackets they are written in. -/
structure Draft.PlainFields (d : Draft) : Prop where
  tail : d.tail ≠ some 0
  ticket : ∀ t, d.ticket = some t → startsWith t "T-" = true ∧ Plain t
  agent : ∀ a, d.agent = some a → Plain a
  opId : ∀ o, d.opId = some o → Plain o

theorem startsWith_ticket {t : String} :
    startsWith t "T-" = true ↔ ∃ b, t.toList = 'T' :: '-' :: b := by
  rw [startsWith, List.isPrefixOf_iff_prefix]
  exact ⟨fun ⟨b, hb⟩ => ⟨b, hb.symm⟩, fun ⟨b, hb⟩ => ⟨b, hb.symm⟩⟩

/-- A draft is clean when its fields are plain and its message is one line. -/
theorem Draft.clean_iff {d : Draft} : d.Clean ↔ d.PlainFields ∧ OneLine d.message.toList := by
  constructor
  · rintro ⟨hclosed, hticket, hagent, hop, hmessage⟩
    refine ⟨⟨hclosed.tail, fun t ht => ?_, fun a ha => ?_, fun o ho => ?_⟩, hmessage⟩
    · obtain ⟨b, hb, hnot⟩ := hclosed.ticket t ht
      refine ⟨startsWith_ticket.mpr ⟨b, hb⟩, ?_, ?_, hticket t ht⟩
      · rintro rfl
        cases hb
      · simpa [hb] using hnot
    · exact ⟨(hclosed.agent a ha).1, (hclosed.agent a ha).2, hagent a ha⟩
    · exact ⟨(hclosed.opId o ho).1, (hclosed.opId o ho).2, hop o ho⟩
  · rintro ⟨hfields, hmessage⟩
    refine ⟨⟨hfields.tail, fun t ht => ?_, fun a ha => ?_, fun o ho => ?_, fun h => ?_⟩, ?_, ?_, ?_,
      hmessage⟩
    · obtain ⟨b, hb⟩ := startsWith_ticket.mp (hfields.ticket t ht).1
      have hopen := (hfields.ticket t ht).2.open_
      rw [hb] at hopen
      exact ⟨b, hb, fun h => hopen (by simp [h])⟩
    · exact ⟨(hfields.agent a ha).present, (hfields.agent a ha).open_⟩
    · exact ⟨(hfields.opId o ho).present, (hfields.opId o ho).open_⟩
    · exact absurd (hmessage _ h) (by decide)
    · exact fun t ht => (hfields.ticket t ht).2.oneLine
    · exact fun a ha => (hfields.agent a ha).oneLine
    · exact fun o ho => (hfields.opId o ho).oneLine

theorem isLineBreak_of_isLowerHex {c : Char} (h : isLowerHex c = true) : isLineBreak c = false := by
  simp only [isLowerHex, Bool.or_eq_true, Bool.and_eq_true, decide_eq_true_eq] at h
  simp only [isLineBreak, Bool.or_eq_false_iff, Bool.and_eq_false_iff, decide_eq_false_iff_not,
    beq_eq_false_iff_ne]
  omega

theorem oneLine_of_isTicketId {t : String} (h : isTicketId t = true) : OneLine t.toList := by
  unfold isTicketId at h
  split at h
  case h_2 => cases h
  case h_1 digits hdigits =>
    rw [literal_eq_some_iff.mp hdigits]
    simp only [Bool.and_eq_true, decide_eq_true_eq] at h
    exact OneLine.append.mpr ⟨oneLine_literal (by decide),
      fun c hc => isLineBreak_of_isDecimal (List.all_eq_true.mp h.2 c hc)⟩

theorem BlockStructure.oneLine_eventPrefix (b : BlockStructure) : OneLine b.eventPrefix.toList := by
  unfold BlockStructure.eventPrefix
  cases hb : b.dependency with
  | none => exact oneLine_literal (by decide)
  | some t =>
    rw [String.toList_append, OneLine.append]
    exact ⟨oneLine_literal (by decide), oneLine_of_isTicketId (b.valid t hb)⟩

theorem Draft.oneLine_metadataRef (w : World) (d : Draft) : OneLine (d.metadataRef w).toList := by
  have hdigest : OneLine ((w.sha256 (encodeUtf8 d.full)).toList.take 24) := fun c hc =>
    isLineBreak_of_isLowerHex (w.sha256_hex _ c (List.mem_of_mem_take hc))
  simp only [Draft.metadataRef, Draft.stem, String.toList_append, String.toList_ofList,
    OneLine.append]
  exact ⟨⟨oneLine_literal (by decide), ⟨⟨oneLine_literal (by decide), oneLine_repr _⟩,
    oneLine_literal (by decide)⟩, hdigest⟩, oneLine_literal (by decide)⟩

/-- The message the LOG keeps of an externalised event is always one line. -/
theorem Draft.oneLine_compactMessage (w : World) (d : Draft) (structure? : Option BlockStructure) :
    OneLine (d.compactMessage w structure?).toList := by
  unfold Draft.compactMessage
  cases structure? with
  | none =>
    rw [String.toList_append, OneLine.append]
    exact ⟨oneLine_literal (by decide), d.oneLine_metadataRef w⟩
  | some b =>
    simp only [String.toList_append, OneLine.append]
    exact ⟨⟨⟨⟨b.oneLine_eventPrefix, oneLine_literal (by decide)⟩, oneLine_literal (by decide)⟩,
      oneLine_literal (by decide)⟩, d.oneLine_metadataRef w⟩

/-- The text the LOG keeps of an event. -/
def Draft.liveText (w : World) (d : Draft) (structure? : Option BlockStructure) : String :=
  if d.externalised structure? then d.compactMessage w structure? else d.message

/-- The round trip of what `prepare_event` answers. -/
theorem prepared_round_trip {w : World} {disk : Disk} {d : Draft}
    {structure? : Option BlockStructure} {result : LogEventResult}
    (h : prepareEvent w disk d structure? = .ok result) :
    (splitLines result.line = [result.line] ∧
      parseLogLine result.line = some { d.toEvent with text := d.liveText w structure? }) ↔
    d.PlainFields ∧ (d.externalised structure? = false → OneLine d.message.toList) := by
  obtain ⟨htax, -, hplain, hcompact⟩ := prepareEvent_ok h
  cases hext : d.externalised structure? with
  | false =>
    have hevent : { d.toEvent with text := d.liveText w structure? } = d.toEvent := by
      rw [Draft.liveText, hext]
      rfl
    rw [hevent, hplain hext, d.round_trip htax, Draft.clean_iff]
    simp
  | true =>
    -- the compact message never ends the line, so only the fields count
    have hevent : { d.toEvent with text := d.liveText w structure? } =
        (d.compact w structure?).toEvent := by
      rw [Draft.liveText, hext]
      rfl
    have hfields : (d.compact w structure?).PlainFields ↔ d.PlainFields :=
      ⟨fun h => ⟨h.tail, h.ticket, h.agent, h.opId⟩, fun h => ⟨h.tail, h.ticket, h.agent, h.opId⟩⟩
    rw [hevent, (hcompact hext).1, (d.compact w structure?).round_trip htax, Draft.clean_iff, hfields]
    exact ⟨fun h => ⟨h.1, fun h => by cases h⟩, fun h => ⟨h.1, d.oneLine_compactMessage w structure?⟩⟩

theorem prepareBoundedEvent_ok {w : World} {disk : Disk} {d : Draft}
    {structure? : Option BlockStructure} {result : LogEventResult}
    (h : prepareBoundedEvent w disk d structure? = .ok result) :
    prepareEvent w disk d.redacted structure? = .ok result := by
  unfold prepareBoundedEvent at h
  cases hp : prepareEvent w disk d.redacted structure? with
  | error e => simp [hp, bind, Except.bind] at h
  | ok prepared =>
    simp only [hp, bind, Except.bind, pure, Except.pure] at h
    split at h
    · cases h
    · exact h

/-- **Events round-trip on their line.** What `prepare_bounded_event` accepts is one physical line
that gives back the id, the parent, the fields and the text exactly when no field closes its bracket
or ends the line, and a message that stays on the line does not end it either. -/
theorem bounded_event_round_trip {w : World} {disk : Disk} {d : Draft}
    {structure? : Option BlockStructure} {result : LogEventResult}
    (h : prepareBoundedEvent w disk d structure? = .ok result) :
    (splitLines result.line = [result.line] ∧
      parseLogLine result.line = some
        { date := some d.now.text, event := result.event, parent := d.tail, ticket := d.ticket
          agent := d.agent, opId := d.opId, taxonomy := d.taxonomy
          text := d.redacted.liveText w structure? }) ↔
    d.PlainFields ∧
      (d.redacted.externalised structure? = false → OneLine d.redacted.message.toList) := by
  have hprepared := prepareBoundedEvent_ok h
  have hfields : d.redacted.PlainFields ↔ d.PlainFields :=
    ⟨fun h => ⟨h.tail, h.ticket, h.agent, h.opId⟩, fun h => ⟨h.tail, h.ticket, h.agent, h.opId⟩⟩
  have hround := prepared_round_trip hprepared
  rw [hfields] at hround
  rw [(prepareEvent_ok hprepared).2.1]
  exact hround

/-- A digest of the right shape. -/
def sampleDigest : String := "0123456789abcdef0123456789abcdef0123456789abcdef0123456789abcdef"

/-- A world over the sample environment. -/
noncomputable def sampleWorld : World where
  env := sampleEnvironment
  sha256 _ := sampleDigest
  sha256_hex _ := List.all_eq_true.mp (by decide : sampleDigest.toList.all isLowerHex = true)
  docBytes _ _ := []

def sampleNow : Stamp := ⟨"01.02.26 10:11", by decide⟩

/-- A note an agent writes about a ticket. -/
def sampleNote : Draft :=
  { tail := some 11, taxonomy := "NOTE", message := "checked", ticket := some "T-4"
    agent := some "codex", now := sampleNow, opId := some "op-1" }

theorem sampleNote_plain : sampleNote.PlainFields := by
  have hplain : ∀ v ∈ ["T-4", "codex", "op-1"], Plain v := by
    intro v hv
    simp only [List.mem_cons, List.not_mem_nil, or_false] at hv
    rcases hv with rfl | rfl | rfl <;>
      exact ⟨by decide, by decide, oneLine_literal (by decide)⟩
  refine ⟨by decide, ?_, ?_, ?_⟩
  · rintro t ⟨⟩
    exact ⟨by decide, hplain _ (by simp)⟩
  · rintro a ⟨⟩
    exact hplain _ (by simp)
  · rintro o ⟨⟩
    exact hplain _ (by simp)

/-- The same note under an agent name that closes its own bracket. -/
def forgedNote : Draft := { sampleNote with agent := some "codex] DEC: approved", opId := none }

/-- The forged agent name is accepted and read back as a decision. -/
theorem forged_event_accepted :
    ∃ result, prepareBoundedEvent sampleWorld [] forgedNote none = .ok result ∧
      parseLogLine result.line = some
        { date := some "01.02.26 10:11", event := 12, parent := some 11, ticket := some "T-4"
          agent := some "codex", opId := none, taxonomy := "DEC"
          text := "approved] NOTE: checked" } ∧
      forgedNote.taxonomy = "NOTE" := by
  have hline : (prepareBoundedEvent sampleWorld [] forgedNote none).toOption.map (·.line) =
      some "- 01.02.26 10:11 [E-12] [parent: E-11] [T-4] [agent: codex] DEC: approved] NOTE: checked" := by
    decide +kernel
  obtain ⟨result, hresult, hline⟩ := Option.map_eq_some_iff.mp hline
  refine ⟨result, ?_, ?_, rfl⟩
  · cases h : prepareBoundedEvent sampleWorld [] forgedNote none with
    | error e => simp [h, Except.toOption] at hresult
    | ok r => simpa [h, Except.toOption] using hresult
  · rw [hline]
    decide +kernel

/-- The plain note comes back as it was written. -/
theorem bounded_event_round_trip_note :
    ∃ result, prepareBoundedEvent sampleWorld [] sampleNote none = .ok result ∧
      splitLines result.line = [result.line] ∧ (parseLogLine result.line).map (·.agent) = some (some "codex") := by
  have hok : (prepareBoundedEvent sampleWorld [] sampleNote none).toOption.isSome = true := by
    decide +kernel
  cases h : prepareBoundedEvent sampleWorld [] sampleNote none with
  | error e => simp [h, Except.toOption] at hok
  | ok result =>
    have hmessage : OneLine sampleNote.redacted.message.toList := by
      have : sampleNote.redacted.message = "checked" := by decide +kernel
      rw [this]
      exact oneLine_literal (by decide)
    obtain ⟨hlines, hparse⟩ := (bounded_event_round_trip h).mpr ⟨sampleNote_plain, fun _ => hmessage⟩
    exact ⟨result, rfl, hlines, by rw [hparse]; rfl⟩

end Saipen.Log
