import Saipen.Log.Grammar
import Mathlib.Data.List.TakeWhile

/-! # Rendering an event

`render_event` joins the parts of an event with spaces, leaving out what Python takes for false. The
parser reads the same event back exactly when no value it was given closes a bracket or ends a line:
`render_round_trip`. -/

namespace Saipen.Log

open Text

/-- A moment in the form the journal's clock writes, `dd.MM.yy HH:mm`. -/
structure Stamp where
  text : String
  wellFormed : isStamp text.toList = true
deriving DecidableEq

/-- `VALID_TAXONOMIES`. -/
def validTaxonomies : List String := ["DEC", "RUN", "WAIT", "REVERT", "NOTE", "OPS"]

/-- The value of an optional string in a condition: the empty one counts as absent. -/
def truthy (value : Option String) : Option String := value.filter (· ≠ "")

/-- `(tail or 0) + 1`. -/
def nextEventId (tail : Option Nat) : Nat := tail.getD 0 + 1

/-- The event to be rendered. -/
structure Draft where
  tail : Option Nat
  taxonomy : String
  message : String
  ticket : Option String
  agent : Option String
  now : Stamp
  opId : Option String
deriving DecidableEq

/-- The parts `render_event` joins. -/
def Draft.parts (d : Draft) : List String :=
  ("- " ++ d.now.text ++ " [E-" ++ (nextEventId d.tail).repr ++ "]") ::
    (((d.tail.filter (· ≠ 0)).map fun tail => "[parent: E-" ++ tail.repr ++ "]").toList ++
      ((truthy d.ticket).map fun ticket => "[" ++ ticket ++ "]").toList ++
      ((truthy d.agent).map fun agent => "[agent: " ++ agent ++ "]").toList ++
      ((truthy d.opId).map fun opId => "[op: " ++ opId ++ "]").toList ++
      [d.taxonomy ++ ": " ++ d.message])

/-- The line of an event. -/
def Draft.line (d : Draft) : String := " ".intercalate d.parts

/-- `render_event`: an unknown taxonomy raises `ValueError`. -/
def renderEvent (d : Draft) : Except String String :=
  if d.taxonomy ∈ validTaxonomies then .ok d.line
  else .error ("taxonomy " ++ quote d.taxonomy ++ " outside the closed set")

/-! ### The line, part by part -/

/-- The characters of an optional field. -/
def segment (opening : List Char) (body : Option (List Char)) : List Char :=
  match body with
  | none => []
  | some b => opening ++ (b ++ [']'])

def Draft.tailSegment (d : Draft) : List Char :=
  ' ' :: (d.taxonomy.toList ++ ": ".toList ++ d.message.toList)

def Draft.opSegment (d : Draft) : List Char :=
  segment " [op: ".toList ((truthy d.opId).map String.toList)

def Draft.agentSegment (d : Draft) : List Char :=
  segment " [agent: ".toList ((truthy d.agent).map String.toList)

def Draft.ticketSegment (d : Draft) : List Char :=
  segment " [".toList ((truthy d.ticket).map String.toList)

def Draft.parentSegment (d : Draft) : List Char :=
  segment " [parent: E-".toList ((d.tail.filter (· ≠ 0)).map fun tail => tail.repr.toList)

/-- A rendered line, read from left to right. -/
theorem Draft.toList_line (d : Draft) :
    d.line.toList = "- ".toList ++ (d.now.text.toList ++ ' ' :: ("[E-".toList ++
      ((nextEventId d.tail).repr.toList ++ ']' :: (d.parentSegment ++ (d.ticketSegment ++
        (d.agentSegment ++ (d.opSegment ++ d.tailSegment))))))) := by
  rw [Draft.line, Draft.parts, toList_intercalate_space]
  simp only [List.flatMap_append]
  have hparent : ((d.tail.filter (· ≠ 0)).map fun tail => "[parent: E-" ++ tail.repr ++ "]").toList.flatMap
      (fun q => ' ' :: q.toList) = d.parentSegment := by
    unfold Draft.parentSegment
    cases d.tail.filter (· ≠ 0) <;> simp [segment]
  have hticket : ((truthy d.ticket).map fun ticket => "[" ++ ticket ++ "]").toList.flatMap
      (fun q => ' ' :: q.toList) = d.ticketSegment := by
    unfold Draft.ticketSegment
    cases truthy d.ticket <;> simp [segment]
  have hagent : ((truthy d.agent).map fun agent => "[agent: " ++ agent ++ "]").toList.flatMap
      (fun q => ' ' :: q.toList) = d.agentSegment := by
    unfold Draft.agentSegment
    cases truthy d.agent <;> simp [segment]
  have hop : ((truthy d.opId).map fun opId => "[op: " ++ opId ++ "]").toList.flatMap
      (fun q => ' ' :: q.toList) = d.opSegment := by
    unfold Draft.opSegment
    cases truthy d.opId <;> simp [segment]
  rw [hparent, hticket, hagent, hop]
  simp [Draft.tailSegment]

/-! ### Reading it back -/

theorem Stamp.length (now : Stamp) : now.text.toList.length = 14 := by
  have h := now.wellFormed
  unfold isStamp at h
  split at h
  · rename_i heq
    rw [heq]
    rfl
  · cases h

theorem dateGroup_stamp (now : Stamp) (cs : List Char) :
    dateGroup (now.text.toList ++ ' ' :: cs) = (some now.text, cs) := by
  have htake : (now.text.toList ++ ' ' :: cs).take 14 = now.text.toList := by
    rw [List.take_append_of_le_length (by rw [now.length]), List.take_of_length_le (by rw [now.length])]
  have hdrop : (now.text.toList ++ ' ' :: cs).drop 14 = ' ' :: cs := by
    rw [← now.length, List.drop_left]
  have hdrop' : (now.text.toList ++ ' ' :: cs).drop 15 = cs := by
    rw [← List.drop_drop (i := 1) (j := 14)] 
    rw [hdrop]
    rfl
  rw [dateGroup, htake, hdrop, hdrop', if_pos ⟨now.wellFormed, rfl⟩, String.ofList_toList]

theorem bracket_notMem_repr (n : Nat) : ']' ∉ n.repr.toList := fun h =>
  absurd (isDigit_of_mem_repr h) (by decide)

theorem eventGroup_render (n : Nat) (cs : List Char) :
    eventGroup ("[E-".toList ++ (n.repr.toList ++ ']' :: cs)) = some (n, cs) := by
  simp only [eventGroup, literal_append, untilChar_append (bracket_notMem_repr n), number?_repr,
    Option.bind_eq_bind, Option.bind_some, Option.map_some]

theorem parentGroup_segment {parent : Option Nat} {cs : List Char}
    (h : literal " [parent: E-".toList cs = none) :
    parentGroup (segment " [parent: E-".toList (parent.map fun n => n.repr.toList) ++ cs) =
      some (parent, cs) := by
  cases parent with
  | none =>
    rw [Option.map_none, segment, List.nil_append, parentGroup, bracketed_absent h]
    rfl
  | some n =>
    rw [Option.map_some, segment, List.append_assoc, List.append_assoc, List.singleton_append,
      parentGroup, bracketed_append (bracket_notMem_repr n)]
    simp only [Option.bind_eq_bind, Option.bind_some, number?_repr, Option.map_some]

/-- An optional field whose value closes no bracket is read as it was written. -/
theorem namedGroup_segment {opening : List Char} {value : Option String} {cs : List Char}
    (hvalue : ∀ v, value = some v → v ≠ "" ∧ ']' ∉ v.toList) (h : literal opening cs = none) :
    namedGroup opening (segment opening (value.map String.toList) ++ cs) = some (value, cs) := by
  cases value with
  | none =>
    rw [Option.map_none, segment, List.nil_append, namedGroup, bracketed_absent h]
    rfl
  | some v =>
    obtain ⟨hne, hnot⟩ := hvalue v rfl
    rw [Option.map_some, segment, List.append_assoc, List.append_assoc, List.singleton_append,
      namedGroup, bracketed_append hnot]
    cases hv : v.toList with
    | nil => exact absurd (String.toList_eq_nil_iff.mp hv) hne
    | cons c b =>
      simp only [Option.bind_eq_bind, Option.bind_some, Option.some.injEq, Prod.mk.injEq, and_true]
      rw [← hv, String.ofList_toList]

theorem ticketGroup_segment {ticket : Option String} {cs : List Char}
    (hticket : ∀ t, ticket = some t → ∃ b, t.toList = 'T' :: '-' :: b ∧ ']' ∉ b)
    (h : literal " [T-".toList cs = none) :
    ticketGroup (segment " [".toList (ticket.map String.toList) ++ cs) = some (ticket, cs) := by
  cases ticket with
  | none =>
    rw [Option.map_none, segment, List.nil_append, ticketGroup, bracketed_absent h]
    rfl
  | some t =>
    obtain ⟨b, hb, hnot⟩ := hticket t rfl
    have hsplit : segment " [".toList ((some t).map String.toList) ++ cs =
        " [T-".toList ++ (b ++ ']' :: cs) := by
      simp [segment, hb]
    rw [hsplit, ticketGroup, bracketed_append hnot]
    simp only [Option.map_some, ← hb, String.ofList_toList]

theorem textGroup_message {message : String} (h : '\n' ∉ message.toList) :
    textGroup message.toList = some message := by
  have hall : ∀ c ∈ message.toList, decide (c ≠ '\n') = true := fun c hc =>
    decide_eq_true fun heq => h (heq ▸ hc)
  have hdrop : message.toList.dropWhile (· ≠ '\n') = [] := List.dropWhile_eq_nil_iff.mpr hall
  have htake : message.toList.takeWhile (· ≠ '\n') = message.toList :=
    List.takeWhile_eq_self_iff.mpr hall
  rw [textGroup, hdrop, htake, String.ofList_toList]

theorem taxonomyGroup_segment {d : Draft} (htax : d.taxonomy ∈ validTaxonomies)
    (h : '\n' ∉ d.message.toList) :
    taxonomyGroup d.tailSegment = some (d.taxonomy, d.message) := by
  have hupper : ∀ rest, (d.taxonomy.toList ++ ':' :: rest).takeWhile isUpper = d.taxonomy.toList ∧
      (d.taxonomy.toList ++ ':' :: rest).dropWhile isUpper = ':' :: rest ∧
      d.taxonomy.toList ≠ [] := by
    intro rest
    simp only [validTaxonomies, List.mem_cons, List.not_mem_nil, or_false] at htax
    rcases htax with htax | htax | htax | htax | htax | htax <;> rw [htax] <;>
      refine ⟨?_, ?_, ?_⟩ <;> simp [isUpper]
  obtain ⟨htake, hdrop, hne⟩ := hupper (' ' :: d.message.toList)
  have hseg : d.tailSegment = [' '] ++ (d.taxonomy.toList ++ ':' :: ' ' :: d.message.toList) := by
    simp [Draft.tailSegment]
  have hliteral : literal [':', ' '] (':' :: ' ' :: d.message.toList) = some d.message.toList :=
    literal_append [':', ' '] _
  rw [hseg, taxonomyGroup]
  simp only [literal_append, Option.bind_eq_bind, Option.bind_some, htake, hdrop, hliteral,
    textGroup_message h, if_neg hne, String.ofList_toList]

/-! ### The round trip -/

/-- The values of a draft close no bracket of the line. -/
structure Draft.Closed (d : Draft) : Prop where
  tail : d.tail ≠ some 0
  ticket : ∀ t, d.ticket = some t → ∃ b, t.toList = 'T' :: '-' :: b ∧ ']' ∉ b
  agent : ∀ a, d.agent = some a → a ≠ "" ∧ ']' ∉ a.toList
  opId : ∀ o, d.opId = some o → o ≠ "" ∧ ']' ∉ o.toList
  message : '\n' ∉ d.message.toList

/-- The event a draft describes. -/
def Draft.toEvent (d : Draft) : LogEvent :=
  { date := some d.now.text, event := nextEventId d.tail, parent := d.tail, ticket := d.ticket
    agent := d.agent, opId := d.opId, taxonomy := d.taxonomy, text := d.message }

theorem truthy_eq_self {value : Option String} (h : ∀ v, value = some v → v ≠ "") :
    truthy value = value := by
  cases value with
  | none => rfl
  | some v => exact Option.filter_eq_some_iff.mpr ⟨rfl, by simpa using h v rfl⟩

/-- No optional field opens where a later part of the line begins. -/
theorem literal_tailSegment {d : Draft} (htax : d.taxonomy ∈ validTaxonomies) (c : Char)
    (opening : List Char) : literal (' ' :: '[' :: c :: opening) d.tailSegment = none := by
  simp only [validTaxonomies, List.mem_cons, List.not_mem_nil, or_false] at htax
  rcases htax with htax | htax | htax | htax | htax | htax <;>
    simp [Draft.tailSegment, htax, literal]

theorem literal_segment {opening opening' cs : List Char} {body : Option (List Char)}
    (hcs : literal opening' cs = none)
    (hopen : ∀ b rest, body = some b → literal opening' (opening ++ (b ++ rest)) = none) :
    literal opening' (segment opening body ++ cs) = none := by
  cases body with
  | none => simpa [segment] using hcs
  | some b =>
    rw [segment, List.append_assoc, List.append_assoc]
    exact hopen b _ rfl

/-- A closed draft is read back. -/
theorem parseLogLine_line {d : Draft} (htax : d.taxonomy ∈ validTaxonomies) (h : d.Closed) :
    parseLogLine d.line = some d.toEvent := by
  have hticket : truthy d.ticket = d.ticket := truthy_eq_self fun t ht => by
    obtain ⟨b, hb, -⟩ := h.ticket t ht
    rintro rfl
    cases hb
  have hagent : truthy d.agent = d.agent := truthy_eq_self fun a ha => (h.agent a ha).1
  have hop : truthy d.opId = d.opId := truthy_eq_self fun o ho => (h.opId o ho).1
  have hparent : d.tail.filter (· ≠ 0) = d.tail := by
    cases htail : d.tail with
    | none => rfl
    | some n =>
      have hn : n ≠ 0 := fun h0 => h.tail (by rw [htail, h0])
      simpa using hn
  -- what follows each optional field does not open with its literal
  have hafterOp : literal " [op: ".toList d.tailSegment = none :=
    literal_tailSegment htax 'o' _
  have hafterAgent : literal " [agent: ".toList (d.opSegment ++ d.tailSegment) = none :=
    literal_segment (literal_tailSegment htax 'a' _) fun b rest _ => by simp [literal]
  have hafterTicket : literal " [T-".toList (d.agentSegment ++ (d.opSegment ++ d.tailSegment)) =
      none :=
    literal_segment (literal_segment (literal_tailSegment htax 'T' _) fun b rest _ => by
      simp [literal]) fun b rest _ => by simp [literal]
  have hafterParent : literal " [parent: E-".toList
      (d.ticketSegment ++ (d.agentSegment ++ (d.opSegment ++ d.tailSegment))) = none := by
    refine literal_segment (literal_segment (literal_segment (literal_tailSegment htax 'p' _)
      fun b rest _ => by simp [literal]) fun b rest _ => by simp [literal]) fun b rest hb => ?_
    obtain ⟨t, ht, rfl⟩ := Option.map_eq_some_iff.mp hb
    obtain ⟨b', hb', -⟩ := h.ticket t (hticket ▸ ht)
    simp [literal, hb']
  have hp : parentGroup (d.parentSegment ++ (d.ticketSegment ++ (d.agentSegment ++
      (d.opSegment ++ d.tailSegment)))) = some (d.tail,
        d.ticketSegment ++ (d.agentSegment ++ (d.opSegment ++ d.tailSegment))) := by
    rw [Draft.parentSegment, hparent]
    exact parentGroup_segment hafterParent
  have ht : ticketGroup (d.ticketSegment ++ (d.agentSegment ++ (d.opSegment ++ d.tailSegment))) =
      some (d.ticket, d.agentSegment ++ (d.opSegment ++ d.tailSegment)) := by
    rw [Draft.ticketSegment, hticket]
    exact ticketGroup_segment h.ticket hafterTicket
  have ha : namedGroup " [agent: ".toList (d.agentSegment ++ (d.opSegment ++ d.tailSegment)) =
      some (d.agent, d.opSegment ++ d.tailSegment) := by
    rw [Draft.agentSegment, hagent]
    exact namedGroup_segment h.agent hafterAgent
  have ho : namedGroup " [op: ".toList (d.opSegment ++ d.tailSegment) =
      some (d.opId, d.tailSegment) := by
    rw [Draft.opSegment, hop]
    exact namedGroup_segment h.opId hafterOp
  unfold parseLogLine
  rw [d.toList_line]
  simp only [literal_append, Option.bind_eq_bind, Option.bind_some, dateGroup_stamp,
    eventGroup_render, hp, ht, ha, ho, taxonomyGroup_segment htax h.message]
  rfl

/-- A draft whose fields are read back as they were given is closed. -/
theorem Draft.closed_of_fields {d : Draft} {e : LogEvent} (htax : d.taxonomy ∈ validTaxonomies)
    (h : parseLogLine d.line = some e) (hparent : e.parent = d.tail) (hticket : e.ticket = d.ticket)
    (hagent : e.agent = d.agent) (hop : e.opId = d.opId) (hmessage : '\n' ∉ d.message.toList) :
    d.Closed := by
  have hlegal := legal_of_parseLogLine h
  have hticket' := hticket ▸ hlegal.ticket
  have hagent' := hagent ▸ hlegal.agent
  have hop' := hop ▸ hlegal.opId
  refine ⟨fun htail => ?_, hticket', hagent', hop', hmessage⟩
  -- a tail of zero renders as no tail at all, which is read back as none
  have hclosed : ({ d with tail := none } : Draft).Closed :=
    ⟨by simp, hticket', hagent', hop', hmessage⟩
  have hline : ({ d with tail := none } : Draft).line = d.line := by
    simp only [Draft.line, Draft.parts, htail, nextEventId]
    rfl
  have hparse := parseLogLine_line (d := { d with tail := none }) htax hclosed
  rw [hline, h] at hparse
  have hnone := congrArg LogEvent.parent (Option.some.inj hparse)
  rw [hparent, htail] at hnone
  simp [Draft.toEvent] at hnone

/-- A draft that is read back as it was given is closed. -/
theorem Draft.closed_of_parse {d : Draft} (htax : d.taxonomy ∈ validTaxonomies)
    (h : parseLogLine d.line = some d.toEvent) : d.Closed :=
  d.closed_of_fields htax h rfl rfl rfl rfl (legal_of_parseLogLine h).text

theorem parseLogLine_line_iff {d : Draft} (htax : d.taxonomy ∈ validTaxonomies) :
    parseLogLine d.line = some d.toEvent ↔ d.Closed :=
  ⟨d.closed_of_parse htax, parseLogLine_line htax⟩

/-- The values of a draft close no bracket and end no line. -/
structure Draft.Clean (d : Draft) : Prop where
  closed : d.Closed
  ticket : ∀ t, d.ticket = some t → OneLine t.toList
  agent : ∀ a, d.agent = some a → OneLine a.toList
  opId : ∀ o, d.opId = some o → OneLine o.toList
  message : OneLine d.message.toList

theorem oneLine_segment {opening : List Char} (value : Option String) (hopen : OneLine opening)
    (hvalue : ∀ v, value = some v → v ≠ "") :
    OneLine (segment opening ((truthy value).map String.toList)) ↔
      ∀ v, value = some v → OneLine v.toList := by
  rw [truthy_eq_self hvalue]
  cases value with
  | none => simp [segment, OneLine]
  | some v =>
    have hclose : OneLine [']'] := by
      intro c hc
      rw [List.mem_singleton.mp hc]
      decide
    simp [segment, OneLine.append, hopen, hclose]

theorem Stamp.oneLine (now : Stamp) : OneLine now.text.toList := by
  have h := now.wellFormed
  unfold isStamp at h
  split at h
  case h_2 => cases h
  case h_1 heq =>
    rw [heq]
    simp only [List.all_cons, List.all_nil, Bool.and_true, Bool.and_eq_true, Bool.or_eq_true,
      decide_eq_true_eq] at h
    have hsep : ∀ c, c = '.' ∨ c = '/' → isLineBreak c = false := by
      rintro c (rfl | rfl) <;> decide
    have hdigit := @isLineBreak_of_isDecimal
    have hspace : isLineBreak ' ' = false := by decide
    have hcolon : isLineBreak ':' = false := by decide
    obtain ⟨⟨h1, h2, h3, h4, h5, h6, h7, h8, h9, h10⟩, hs1, hs2⟩ := h
    simp only [OneLine, List.forall_mem_cons, hdigit h1, hdigit h2, hdigit h3, hdigit h4, hdigit h5,
      hdigit h6, hdigit h7, hdigit h8, hdigit h9, hdigit h10, hsep _ hs1, hsep _ hs2, hspace, hcolon,
      List.not_mem_nil, false_implies, implies_true, and_true]

/-- A closed draft is one physical line exactly when none of its values ends a line. -/
theorem Draft.oneLine_line_iff {d : Draft} (htax : d.taxonomy ∈ validTaxonomies) (h : d.Closed) :
    OneLine d.line.toList ↔ d.Clean := by
  have hparent : OneLine d.parentSegment := by
    unfold Draft.parentSegment
    cases d.tail.filter (· ≠ 0) with
    | none => simp [segment, OneLine]
    | some n =>
      rw [Option.map_some, segment]
      exact OneLine.append.mpr ⟨oneLine_literal (by decide),
        OneLine.append.mpr ⟨oneLine_repr n, oneLine_literal (by decide)⟩⟩
  have htail : OneLine d.tailSegment ↔ OneLine d.message.toList := by
    have hname : OneLine (' ' :: (d.taxonomy.toList ++ ": ".toList)) := by
      simp only [validTaxonomies, List.mem_cons, List.not_mem_nil, or_false] at htax
      rcases htax with htax | htax | htax | htax | htax | htax <;> rw [htax] <;>
        exact oneLine_literal (by decide)
    rw [Draft.tailSegment, ← List.cons_append, OneLine.append]
    exact and_iff_right hname
  have hticket := oneLine_segment d.ticket (oneLine_literal (by decide) : OneLine " [".toList) fun t ht => by
      obtain ⟨b, hb, -⟩ := h.ticket t ht
      rintro rfl
      cases hb
  have hagent := oneLine_segment d.agent
    (oneLine_literal (by decide) : OneLine " [agent: ".toList) fun a ha => (h.agent a ha).1
  have hop := oneLine_segment d.opId
    (oneLine_literal (by decide) : OneLine " [op: ".toList) fun o ho => (h.opId o ho).1
  have hhead : ∀ rest : List Char, OneLine ("- ".toList ++ (d.now.text.toList ++
      ' ' :: ("[E-".toList ++ ((nextEventId d.tail).repr.toList ++ ']' :: rest)))) ↔ OneLine rest := by
    intro rest
    have hcons : ∀ (c : Char) (cs : List Char), isLineBreak c = false →
        (OneLine (c :: cs) ↔ OneLine cs) := fun c cs hc => by
      simp [OneLine, hc]
    rw [OneLine.append, OneLine.append, hcons ' ' _ (by decide), OneLine.append, OneLine.append,
      hcons ']' _ (by decide)]
    simp only [d.now.oneLine, oneLine_repr, oneLine_literal (show "- ".toList.all _ = true by decide),
      oneLine_literal (show "[E-".toList.all _ = true by decide), true_and]
  rw [d.toList_line, hhead, OneLine.append, OneLine.append, OneLine.append, OneLine.append, htail,
    Draft.ticketSegment, Draft.agentSegment, Draft.opSegment, hticket, hagent, hop]
  constructor
  · rintro ⟨-, ht, ha, ho, hm⟩
    exact ⟨h, ht, ha, ho, hm⟩
  · intro hclean
    exact ⟨hparent, hclean.ticket, hclean.agent, hclean.opId, hclean.message⟩

/-- **The round trip of a line.** A rendered line is one physical line that parses back to its draft
exactly when the values of the draft close no bracket and end no line. -/
theorem Draft.round_trip {d : Draft} (htax : d.taxonomy ∈ validTaxonomies) :
    (splitLines d.line = [d.line] ∧ parseLogLine d.line = some d.toEvent) ↔ d.Clean := by
  rw [parseLogLine_line_iff htax, splitLines_eq_self_iff]
  constructor
  · rintro ⟨⟨-, hline⟩, hclosed⟩
    exact (d.oneLine_line_iff htax hclosed).mp hline
  · intro hclean
    refine ⟨⟨?_, (d.oneLine_line_iff htax hclean.closed).mpr hclean⟩, hclean.closed⟩
    intro hempty
    have hlist := d.toList_line
    rw [hempty] at hlist
    cases hlist

end Saipen.Log
