import Saipen.Text.Scan

/-! # The grammar of LOG events

`LOG_RE` is a date, an event id, four optional bracketed fields in a fixed order, a taxonomy and a
text. Every optional field opens with a literal no later part can start with, and closes at the first
`]`, so the pattern never has two ways to match and is read from left to right. -/

namespace Saipen.Log

open Text

/-- What `detail_integrity` says of an externalised event. -/
inductive Integrity where
  | valid
  | invalid
deriving DecidableEq

/-- A parsed event, with the two keys the history readers add to it. -/
structure LogEvent where
  date : Option String
  event : Nat
  parent : Option Nat
  ticket : Option String
  agent : Option String
  opId : Option String
  taxonomy : String
  text : String
  detailRef : Option String := none
  detailIntegrity : Option Integrity := none
deriving DecidableEq

/-! ### The parts of a line -/

/-- `\d{2}[./]\d{2}[./]\d{2} \d{2}:\d{2}`. -/
def isStamp : List Char → Bool
  | [d₁, d₂, s₁, m₁, m₂, s₂, y₁, y₂, ' ', h₁, h₂, ':', n₁, n₂] =>
      [d₁, d₂, m₁, m₂, y₁, y₂, h₁, h₂, n₁, n₂].all isDecimal && [s₁, s₂].all fun s => s = '.' || s = '/'
  | _ => false

/-- The optional date group, without the space that closes it. -/
def dateGroup (cs : List Char) : Option String × List Char :=
  if isStamp (cs.take 14) ∧ (cs.drop 14).head? = some ' ' then
    (some (String.ofList (cs.take 14)), cs.drop 15)
  else (none, cs)

/-- An optional field: what stands between its opening and the first `]`. A field that is opened and
never closed matches nothing. -/
def bracketed (opening : List Char) (cs : List Char) : Option (Option (List Char) × List Char) :=
  match literal opening cs with
  | none => some (none, cs)
  | some cs => (untilChar ']' cs).map fun r => (some r.1, r.2)

/-- ` [parent: E-n]`. -/
def parentGroup (cs : List Char) : Option (Option Nat × List Char) := do
  let (body, cs) ← bracketed " [parent: E-".toList cs
  match body with
  | none => some (none, cs)
  | some body => (number? body).map fun n => (some n, cs)

/-- ` [T-…]`. -/
def ticketGroup (cs : List Char) : Option (Option String × List Char) :=
  (bracketed " [T-".toList cs).map fun (body, cs) =>
    (body.map fun body => String.ofList ('T' :: '-' :: body), cs)

/-- ` [agent: …]` and ` [op: …]`, whose value is not empty. -/
def namedGroup (opening : List Char) (cs : List Char) : Option (Option String × List Char) := do
  let (body, cs) ← bracketed opening cs
  match body with
  | none => some (none, cs)
  | some [] => none
  | some body => some (some (String.ofList body), cs)

/-- `[A-Z]`. -/
def isUpper (c : Char) : Bool := 65 ≤ c.toNat && c.toNat ≤ 90

/-- `(.*)$`: the text reaches the end of the line, or the newline that ends it. -/
def textGroup (cs : List Char) : Option String :=
  match cs.dropWhile (· ≠ '\n') with
  | [] | ['\n'] => some (String.ofList (cs.takeWhile (· ≠ '\n')))
  | _ => none

/-- ` ([A-Z]+): (.*)$`. -/
def taxonomyGroup (cs : List Char) : Option (String × String) := do
  let cs ← literal [' '] cs
  let taxonomy := cs.takeWhile isUpper
  let cs ← literal [':', ' '] (cs.dropWhile isUpper)
  let text ← textGroup cs
  if taxonomy = [] then none else some (String.ofList taxonomy, text)

/-- `[E-n]`. -/
def eventGroup (cs : List Char) : Option (Nat × List Char) := do
  let cs ← literal "[E-".toList cs
  let (body, cs) ← untilChar ']' cs
  (number? body).map fun n => (n, cs)

/-- `parse_log_line`. -/
def parseLogLine (line : String) : Option LogEvent := do
  let cs ← literal "- ".toList line.toList
  let (date, cs) := dateGroup cs
  let (event, cs) ← eventGroup cs
  let (parent, cs) ← parentGroup cs
  let (ticket, cs) ← ticketGroup cs
  let (agent, cs) ← namedGroup " [agent: ".toList cs
  let (opId, cs) ← namedGroup " [op: ".toList cs
  let (taxonomy, text) ← taxonomyGroup cs
  some { date, event, parent, ticket, agent, opId, taxonomy, text }

/-- `declared_event_id`: the first `[E-n]` anywhere in the line. -/
def declaredEventId (line : String) : Option Nat :=
  line.toList.tails.findSome? fun cs => (eventGroup cs).map (·.1)

/-! ### What the parts match -/

theorem bracketed_eq_some_iff {opening cs rest : List Char} {body : Option (List Char)} :
    bracketed opening cs = some (body, rest) ↔
      (body = none ∧ literal opening cs = none ∧ rest = cs) ∨
        ∃ b, body = some b ∧ ']' ∉ b ∧ cs = opening ++ (b ++ ']' :: rest) := by
  unfold bracketed
  cases hopen : literal opening cs with
  | none =>
    have hnot : ∀ b, cs ≠ opening ++ (b ++ ']' :: rest) := by
      rintro b rfl
      simp at hopen
    simp only [Option.some.injEq, Prod.mk.injEq, true_and]
    constructor
    · rintro ⟨rfl, rfl⟩
      exact .inl ⟨rfl, rfl⟩
    · rintro (⟨rfl, rfl⟩ | ⟨b, -, -, hcs⟩)
      · exact ⟨rfl, rfl⟩
      · exact absurd hcs (hnot b)
  | some inner =>
    obtain rfl := literal_eq_some_iff.mp hopen
    simp only [Option.map_eq_some_iff, Prod.mk.injEq, reduceCtorEq, false_and, and_false, false_or,
      List.append_cancel_left_eq]
    constructor
    · rintro ⟨⟨b, r⟩, hb, rfl, rfl⟩
      obtain ⟨hnot, rfl⟩ := untilChar_eq_some_iff.mp hb
      exact ⟨b, rfl, hnot, rfl⟩
    · rintro ⟨b, rfl, hnot, rfl⟩
      exact ⟨(b, rest), untilChar_append hnot rest, rfl, rfl⟩

theorem bracketed_append {opening b : List Char} (h : ']' ∉ b) (rest : List Char) :
    bracketed opening (opening ++ (b ++ ']' :: rest)) = some (some b, rest) :=
  bracketed_eq_some_iff.mpr (.inr ⟨b, rfl, h, rfl⟩)

theorem bracketed_absent {opening cs : List Char} (h : literal opening cs = none) :
    bracketed opening cs = some (none, cs) :=
  bracketed_eq_some_iff.mpr (.inl ⟨rfl, h, rfl⟩)

theorem ticketGroup_some {cs rest : List Char} {ticket : String}
    (h : ticketGroup cs = some (some ticket, rest)) :
    ∃ b, ticket.toList = 'T' :: '-' :: b ∧ ']' ∉ b := by
  obtain ⟨⟨body, r⟩, hbody, heq⟩ := Option.map_eq_some_iff.mp h
  simp only [Prod.mk.injEq, Option.map_eq_some_iff] at heq
  obtain ⟨⟨b, rfl, rfl⟩, rfl⟩ := heq
  rcases bracketed_eq_some_iff.mp hbody with ⟨hnone, -⟩ | ⟨b', hb', hnot, -⟩
  · cases hnone
  · obtain rfl := Option.some.inj hb'
    exact ⟨b, String.toList_ofList, hnot⟩

theorem namedGroup_some {opening cs rest : List Char} {value : String}
    (h : namedGroup opening cs = some (some value, rest)) : value ≠ "" ∧ ']' ∉ value.toList := by
  obtain ⟨⟨body, r⟩, hbody, heq⟩ := Option.bind_eq_some_iff.mp h
  rcases bracketed_eq_some_iff.mp hbody with ⟨rfl, -⟩ | ⟨b, rfl, hnot, -⟩
  · simp at heq
  · cases b with
    | nil => simp at heq
    | cons c b =>
      simp only [Option.some.injEq, Prod.mk.injEq] at heq
      obtain ⟨rfl, rfl⟩ := heq
      exact ⟨by simp [← String.toList_eq_nil_iff], by simpa using hnot⟩

theorem textGroup_some {cs : List Char} {text : String} (h : textGroup cs = some text) :
    '\n' ∉ text.toList := by
  have htext : text.toList = cs.takeWhile (· ≠ '\n') := by
    unfold textGroup at h
    split at h
    · rw [← Option.some.inj h, String.toList_ofList]
    · rw [← Option.some.inj h, String.toList_ofList]
    · cases h
  intro hmem
  rw [htext] at hmem
  have hall := List.all_eq_true.mp (List.all_takeWhile (p := (· ≠ '\n')) (l := cs)) _ hmem
  simp at hall

/-! ### Where the parts stand -/

theorem eventGroup_eq_some_iff {cs rest : List Char} {n : Nat} :
    eventGroup cs = some (n, rest) ↔
      ∃ ds, cs = '[' :: 'E' :: '-' :: (ds ++ ']' :: rest) ∧ number? ds = some n := by
  simp only [eventGroup, Option.bind_eq_bind, Option.bind_eq_some_iff, Prod.exists,
    Option.map_eq_some_iff, Prod.mk.injEq]
  constructor
  · rintro ⟨inner, hinner, ds, rest', huntil, m, hm, rfl, rfl⟩
    obtain ⟨-, rfl⟩ := untilChar_eq_some_iff.mp huntil
    exact ⟨ds, literal_eq_some_iff.mp hinner, hm⟩
  · rintro ⟨ds, rfl, hds⟩
    have hclose : ']' ∉ ds := fun h => absurd (isDecimal_of_number? hds h) (by decide)
    exact ⟨ds ++ ']' :: rest, literal_eq_some_iff.mpr rfl, ds, rest, untilChar_append hclose rest, n,
      hds, rfl, rfl⟩

theorem suffix_of_literal {pre cs rest : List Char} (h : literal pre cs = some rest) :
    rest <:+ cs := ⟨pre, (literal_eq_some_iff.mp h).symm⟩

theorem suffix_of_bracketed {opening cs rest : List Char} {body : Option (List Char)}
    (h : bracketed opening cs = some (body, rest)) : rest <:+ cs := by
  rcases bracketed_eq_some_iff.mp h with ⟨-, -, rfl⟩ | ⟨b, -, -, rfl⟩
  · exact List.suffix_refl _
  · exact ⟨opening ++ (b ++ [']']), by simp⟩

theorem suffix_of_eventGroup {cs rest : List Char} {n : Nat} (h : eventGroup cs = some (n, rest)) :
    rest <:+ cs := by
  obtain ⟨ds, rfl, -⟩ := eventGroup_eq_some_iff.mp h
  exact ⟨'[' :: 'E' :: '-' :: (ds ++ [']']), by simp⟩

theorem suffix_of_parentGroup {cs rest : List Char} {parent : Option Nat}
    (h : parentGroup cs = some (parent, rest)) : rest <:+ cs := by
  obtain ⟨⟨body, rest'⟩, hbody, h⟩ := Option.bind_eq_some_iff.mp h
  have hrest := suffix_of_bracketed hbody
  cases body with
  | none =>
    simp only [Option.some.injEq, Prod.mk.injEq] at h
    exact h.2 ▸ hrest
  | some b =>
    simp only [Option.map_eq_some_iff, Prod.mk.injEq] at h
    obtain ⟨n, -, -, rfl⟩ := h
    exact hrest

theorem bracket_notMem_of_isStamp {cs : List Char} (h : isStamp cs = true) : '[' ∉ cs := by
  have hdigit : isDecimal '[' = false := by decide
  unfold isStamp at h
  split at h
  case h_2 => cases h
  case h_1 =>
    intro hmem
    simp only [List.mem_cons, List.not_mem_nil, or_false, Char.reduceEq, false_or] at hmem
    rcases hmem with rfl | rfl | rfl | rfl | rfl | rfl | rfl | rfl | rfl | rfl | rfl | rfl <;>
      simp [hdigit] at h

/-- The date in front of the rest of the line opens no bracket. -/
theorem dateGroup_append (cs : List Char) : ∃ pre, cs = pre ++ (dateGroup cs).2 ∧ '[' ∉ pre := by
  unfold dateGroup
  split
  case isFalse => exact ⟨[], rfl, List.not_mem_nil⟩
  case isTrue h =>
    obtain ⟨rest, hrest⟩ := List.head?_eq_some_iff.mp h.2
    have hcs : cs = (cs.take 14 ++ [' ']) ++ cs.drop 15 := by
      have hdrop : cs.drop 15 = rest := by rw [← List.drop_drop (i := 1) (j := 14), hrest]; rfl
      rw [hdrop, List.append_assoc, List.singleton_append, ← hrest, List.take_append_drop]
    refine ⟨_, hcs, ?_⟩
    rw [List.mem_append, not_or]
    exact ⟨bracket_notMem_of_isStamp h.1, by decide⟩

/-- The id of a parsed event stands in the first brackets of the line. -/
theorem parsed_event {line : String} {e : LogEvent} (h : parseLogLine line = some e) :
    ∃ pre ds rest, line.toList = pre ++ '[' :: 'E' :: '-' :: (ds ++ ']' :: rest) ∧ '[' ∉ pre ∧
      number? ds = some e.event := by
  simp only [parseLogLine, Option.bind_eq_bind, Option.bind_eq_some_iff, Prod.exists] at h
  obtain ⟨cs, hcs, event, cs₁, hevent, parent, cs₂, -, ticket, cs₃, -, agent, cs₄, -, opId, cs₅, -,
    taxonomy, text, -, he⟩ := h
  obtain rfl := Option.some.inj he
  obtain ⟨pre, hpre, hopen⟩ := dateGroup_append cs
  obtain ⟨ds, hds, hnumber⟩ := eventGroup_eq_some_iff.mp hevent
  refine ⟨'-' :: ' ' :: pre, ds, cs₁, ?_, by simp [hopen], hnumber⟩
  rw [literal_eq_some_iff.mp hcs, hpre, hds]
  rfl

/-- The ticket of a parsed event stands in brackets of its own. -/
theorem parsed_ticket {line ticket : String} {e : LogEvent} (h : parseLogLine line = some e)
    (ht : e.ticket = some ticket) :
    ∃ pre rest, line.toList = pre ++ '[' :: (ticket.toList ++ ']' :: rest) := by
  simp only [parseLogLine, Option.bind_eq_bind, Option.bind_eq_some_iff, Prod.exists] at h
  obtain ⟨cs, hcs, event, cs₁, hevent, parent, cs₂, hparent, ticket', cs₃, hticket, agent, cs₄, -,
    opId, cs₅, -, taxonomy, text, -, he⟩ := h
  obtain rfl := Option.some.inj he
  obtain rfl : ticket' = some ticket := ht
  obtain ⟨pre, hpre, -⟩ := dateGroup_append cs
  have hsuffix : cs₂ <:+ line.toList := (suffix_of_parentGroup hparent).trans
    ((suffix_of_eventGroup hevent).trans (List.IsSuffix.trans ⟨pre, hpre.symm⟩ (suffix_of_literal hcs)))
  obtain ⟨before, hbefore⟩ := hsuffix
  obtain ⟨⟨body, rest⟩, hbody, heq⟩ := Option.map_eq_some_iff.mp hticket
  simp only [Prod.mk.injEq, Option.map_eq_some_iff] at heq
  obtain ⟨⟨b, rfl, rfl⟩, rfl⟩ := heq
  rcases bracketed_eq_some_iff.mp hbody with ⟨hnone, -⟩ | ⟨b', hb', -, hcs₂⟩
  · cases hnone
  · obtain rfl := Option.some.inj hb'
    refine ⟨before ++ [' '], rest, ?_⟩
    rw [← hbefore, hcs₂, String.toList_ofList]
    simp

/-- What every event a line parses to is made of. -/
structure LogEvent.Legal (e : LogEvent) : Prop where
  noDetail : e.detailRef = none
  ticket : ∀ t, e.ticket = some t → ∃ b, t.toList = 'T' :: '-' :: b ∧ ']' ∉ b
  agent : ∀ a, e.agent = some a → a ≠ "" ∧ ']' ∉ a.toList
  opId : ∀ o, e.opId = some o → o ≠ "" ∧ ']' ∉ o.toList
  text : '\n' ∉ e.text.toList

/-- A line that parses gives a legal event. -/
theorem legal_of_parseLogLine {line : String} {e : LogEvent} (h : parseLogLine line = some e) :
    e.Legal := by
  simp only [parseLogLine, Option.bind_eq_bind, Option.bind_eq_some_iff, Prod.exists] at h
  obtain ⟨cs, -, event, cs₁, -, parent, cs₂, -, ticket, cs₃, hticket, agent, cs₄, hagent, opId, cs₅,
    hop, taxonomy, text, htax, he⟩ := h
  obtain rfl := Option.some.inj he
  refine ⟨rfl, ?_, ?_, ?_, ?_⟩
  · rintro t rfl
    exact ticketGroup_some hticket
  · rintro a rfl
    exact namedGroup_some hagent
  · rintro o rfl
    exact namedGroup_some hop
  · simp only [taxonomyGroup, Option.bind_eq_bind, Option.bind_eq_some_iff] at htax
    obtain ⟨cs₆, _, cs₇, _, text', htext, htax⟩ := htax
    split at htax
    · cases htax
    · simp only [Option.some.injEq, Prod.mk.injEq] at htax
      exact htax.2 ▸ textGroup_some htext

end Saipen.Log
