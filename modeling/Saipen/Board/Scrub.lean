import Saipen.Board.DuplicateDecision
import Saipen.Board.Graph
import Saipen.Graph.Sweep

/-! # Which closed tickets may be pruned

`board_scrub.select` keeps a closed ticket while a receipt holds it, while no closing event proves it, or
while a ticket that stays names it. What a ticket that stays names is found by a sweep over the references. -/

namespace Saipen.Board

open Text Graph

/-! ### What a ticket names -/

section Tokens

variable (words : WordClass) (head : List Char)

/-- `head\d+\b` at the beginning of a text. A shorter run of digits would end inside a word. -/
def tokenAt (cs : List Char) : Option String := do
  let rest ← literal head cs
  let digits := rest.takeWhile isDecimal
  if digits = [] || (rest.dropWhile isDecimal).head?.any words.has then none
  else some (String.ofList (head ++ digits))

/-- The tokens in a text, given the character in front of it. -/
def tokensFrom : Option Char → List Char → List String
  | _, [] => []
  | prev, c :: cs =>
      (if prev.any words.has then none else tokenAt words head (c :: cs)).toList ++ tokensFrom (some c) cs

/-- `re.findall(r"\bT-\d+\b", value)`, and the same for receipts. No match begins inside another one. -/
def tokens (value : String) : List String := tokensFrom words head none value.toList

end Tokens

/-- `str((ticket.get("fields") or {}).get(key) or "")`. -/
def Ticket.text (t : Ticket) (key : String) : String := (t.fields.lookup key).getD ""

def Ticket.isDone (t : Ticket) : Bool := t.sectionName = "## DONE"

/-- `CLOSING_OP_CLASSES`. -/
def closingOpClasses : List String := ["finish-", "supersede-", "resolve-external-", "crew-defer-", "clear-wait-role-"]

/-- `closed_in_history`. -/
def closedInHistory (events : List Log.LogEvent) (ids : List String) : List String :=
  ids.filter fun id => events.any fun e =>
    e.ticket = some id && closingOpClasses.any (startsWith (e.opId.getD ""))

/-- `_REFERENCE_FIELDS`. -/
def referenceFields : List String := ["blocked_on", "superseded_by", "implementation_source"]

section Select

variable (words : WordClass)

/-- `_receipts_named`. -/
def Ticket.receiptsNamed (t : Ticket) : List String := tokens words "SRC-".toList (t.text "source_receipts")

/-- `by_receipt`. -/
def byReceipt (ts : Tickets) (receipt : String) : List String :=
  (ts.entries.filter fun t => receipt ∈ t.receiptsNamed words).map Ticket.id

/-- `_references`. A Source is followed to the Work it produced. -/
def Ticket.references (ts : Tickets) (t : Ticket) : List String :=
  t.needs ++ referenceFields.flatMap fun key =>
    tokens words "T-".toList (t.text key) ++
      if key = "implementation_source" then
        (tokens words "SRC-".toList (t.text key)).flatMap (byReceipt words ts)
      else []

/-- The guard that keeps a closed ticket. -/
inductive Guard where
  | receipt
  | unproven
  | reference
deriving DecidableEq

/-- `Selection`. -/
structure Selection where
  pruned : List String
  prunedBytes : ℕ
  kept : List (String × Guard)

/-- `SCRUB_DUE_BYTES`. -/
def scrubDueBytes : ℕ := 16 * 1024

/-- `Selection.due`. -/
def Selection.due (s : Selection) : Bool := scrubDueBytes < s.prunedBytes

variable (ts : Tickets) (events : List Log.LogEvent) (activeReceipts receiptWorks : List String)

/-- The closed tickets, in the order of their lines. -/
def closed : List Ticket := ts.entries.filter Ticket.isDone

/-- The guard of a closed ticket that no other ticket is needed for. -/
def guardOf (t : Ticket) : Option Guard :=
  if t.id ∈ receiptWorks ∨ (t.receiptsNamed words).any (· ∈ activeReceipts) then some .receipt
  else if t.id ∉ closedInHistory events ((closed ts).map Ticket.id) then some .unproven
  else none

/-- The tickets that are kept without a reference. -/
def guards : List (String × Guard) :=
  (closed ts).filterMap fun t => (guardOf words ts events activeReceipts receiptWorks t).map fun g => (t.id, g)

/-- What the ticket of an id names. -/
def referencesOf (id : String) : List String := ((ts.get id).map (Ticket.references words ts)).getD []

/-- The sweep starts from the tickets that are not closed and from those that are kept. -/
def frontier : List String :=
  (ts.entries.filter fun t => !t.isDone).map Ticket.id ++
    (guards words ts events activeReceipts receiptWorks).map Prod.fst

/-- The ids of the closed tickets that are kept. -/
def keptIds : Option (List String) :=
  sweep (referencesOf words ts) (fun id => (ts.get id).any Ticket.isDone)
    ((frontier words ts events activeReceipts receiptWorks).length + ts.entries.length)
    ⟨(guards words ts events activeReceipts receiptWorks).map Prod.fst,
      (frontier words ts events activeReceipts receiptWorks).reverse⟩

/-- `select`. The tickets of a BOARD come in the order of their lines, so that this order is no second sorting. -/
def select : Option Selection := do
  let kept ← keptIds words ts events activeReceipts receiptWorks
  let guards := guards words ts events activeReceipts receiptWorks
  let pruned := (closed ts).filter fun t => t.id ∉ kept
  pure ⟨pruned.map Ticket.id, (pruned.map fun t => (encodeUtf8 t.raw).length + 1).sum,
    guards ++ (kept.drop guards.length).map fun id => (id, .reference)⟩

/-! ### The retention rule -/

/-- A closed ticket that has to stay: something other than a ticket holds it, or a ticket that stays names it. -/
inductive Pinned : String → Prop
  | guarded {t : Ticket} (ht : t ∈ closed ts) (hguard : guardOf words ts events activeReceipts receiptWorks t ≠ none) :
      Pinned t.id
  | live {t u : Ticket} (ht : t ∈ ts.entries) (hlive : t.isDone = false) (hu : u ∈ closed ts)
      (hnamed : u.id ∈ t.references words ts) : Pinned u.id
  | named {t u : Ticket} (ht : t ∈ ts.entries) (hpinned : Pinned t.id) (hu : u ∈ closed ts)
      (hnamed : u.id ∈ t.references words ts) : Pinned u.id

end Select

variable {words : WordClass} {ts : Tickets} {events : List Log.LogEvent} {activeReceipts receiptWorks : List String}
  {t u : Ticket} {a b id : String}

theorem mem_closed : t ∈ closed ts ↔ t ∈ ts.entries ∧ t.isDone = true := List.mem_filter

theorem mem_guards_ids : id ∈ (guards words ts events activeReceipts receiptWorks).map Prod.fst ↔
    ∃ t ∈ closed ts, guardOf words ts events activeReceipts receiptWorks t ≠ none ∧ t.id = id := by
  rw [guards, List.map_filterMap, List.mem_filterMap]
  constructor
  · rintro ⟨t, ht, h⟩
    obtain ⟨r, hr, rfl⟩ := Option.map_eq_some_iff.mp h
    obtain ⟨g, hg, rfl⟩ := Option.map_eq_some_iff.mp hr
    exact ⟨t, ht, by rw [hg]; exact Option.some_ne_none g, rfl⟩
  · rintro ⟨t, ht, hguard, rfl⟩
    obtain ⟨g, hg⟩ := Option.ne_none_iff_exists'.mp hguard
    exact ⟨t, ht, by rw [hg]; rfl⟩

/-- An edge of the sweep goes from a ticket to a closed ticket that it names. -/
theorem marks_iff : Marks (referencesOf words ts) (fun id => (ts.get id).any Ticket.isDone) a b ↔
    ∃ t ∈ ts.entries, t.id = a ∧ ∃ u ∈ closed ts, u.id = b ∧ b ∈ t.references words ts := by
  rw [Marks, referencesOf]
  constructor
  · rintro ⟨hnamed, hdone⟩
    obtain ⟨u, hget, hclosed⟩ := (Option.any_eq_true _ _).mp hdone
    obtain ⟨hu, rfl⟩ := Tickets.get_eq_some_iff.mp hget
    cases ht : ts.get a with
    | none =>
      rw [ht] at hnamed
      cases hnamed
    | some t =>
      rw [ht] at hnamed
      obtain ⟨hmem, rfl⟩ := Tickets.get_eq_some_iff.mp ht
      exact ⟨t, hmem, rfl, u, mem_closed.mpr ⟨hu, hclosed⟩, rfl, hnamed⟩
  · rintro ⟨t, ht, rfl, u, hu, rfl, hnamed⟩
    obtain ⟨hu, hdone⟩ := mem_closed.mp hu
    rw [Tickets.get_eq_some_iff.mpr ⟨ht, rfl⟩, Tickets.get_eq_some_iff.mpr ⟨hu, rfl⟩]
    exact ⟨hnamed, hdone⟩

/-- The sweep comes to its end. -/
theorem exists_keptIds : ∃ kept, keptIds words ts events activeReceipts receiptWorks = some kept := by
  apply sweep_ends ts.ids.toFinset
  · intro id hid
    obtain ⟨u, hget, -⟩ := (Option.any_eq_true _ _).mp hid
    obtain ⟨hu, rfl⟩ := Tickets.get_eq_some_iff.mp hget
    exact List.mem_toFinset.mpr (List.mem_map_of_mem hu)
  · have hcard : (ts.ids.toFinset \
        ((guards words ts events activeReceipts receiptWorks).map Prod.fst).toFinset).card ≤ ts.entries.length := by
      refine (Finset.card_le_card Finset.sdiff_subset).trans ((List.toFinset_card_le _).trans ?_)
      rw [Tickets.ids, List.length_map]
    dsimp only
    rw [List.length_reverse]
    omega

/-- What is kept is what has to stay. -/
theorem mem_keptIds_iff {kept : List String} (h : keptIds words ts events activeReceipts receiptWorks = some kept) :
    id ∈ kept ↔ Pinned words ts events activeReceipts receiptWorks id := by
  have hwait : ∀ a ∈ (guards words ts events activeReceipts receiptWorks).map Prod.fst,
      a ∈ (frontier words ts events activeReceipts receiptWorks).reverse :=
    fun a ha => List.mem_reverse.mpr (List.mem_append_right _ ha)
  rw [mem_sweep_iff h hwait]
  have hguarded : ∀ {a}, a ∈ (guards words ts events activeReceipts receiptWorks).map Prod.fst →
      Pinned words ts events activeReceipts receiptWorks a := by
    intro a ha
    obtain ⟨t, ht, hguard, rfl⟩ := mem_guards_ids.mp ha
    exact .guarded ht hguard
  constructor
  · rintro (hmem | ⟨a, ha, hreach⟩)
    · exact hguarded hmem
    · -- along the references, from a ticket the sweep starts from
      induction hreach with
      | single hstep =>
        obtain ⟨t, ht, rfl, u, hu, rfl, hnamed⟩ := marks_iff.mp hstep
        rcases List.mem_append.mp (List.mem_reverse.mp ha) with hlive | hkept
        · obtain ⟨t', ht', hid⟩ := List.mem_map.mp hlive
          obtain ⟨hmem, hopen⟩ := List.mem_filter.mp ht'
          have hnamed : u.id ∈ t'.references words ts := by
            rwa [List.inj_on_of_nodup_map ts.distinct hmem ht hid]
          exact .live hmem (by simpa using hopen) hu hnamed
        · exact .named ht (hguarded hkept) hu hnamed
      | tail _ hstep ih =>
        obtain ⟨t, ht, rfl, u, hu, rfl, hnamed⟩ := marks_iff.mp hstep
        exact .named ht ih hu hnamed
  · intro hpinned
    induction hpinned with
    | guarded ht hguard => exact .inl (mem_guards_ids.mpr ⟨_, ht, hguard, rfl⟩)
    | @live t u ht hlive hu hnamed =>
      refine .inr ⟨t.id, List.mem_reverse.mpr (List.mem_append_left _ ?_), .single ?_⟩
      · exact List.mem_map_of_mem (List.mem_filter.mpr ⟨ht, by simp [hlive]⟩)
      · exact marks_iff.mpr ⟨t, ht, rfl, u, hu, rfl, hnamed⟩
    | @named t u ht _ hu hnamed ih =>
      have hstep := marks_iff.mpr ⟨t, ht, rfl, u, hu, rfl, hnamed⟩
      rcases ih with hmem | ⟨a, ha, hreach⟩
      · exact .inr ⟨t.id, hwait _ hmem, .single hstep⟩
      · exact .inr ⟨a, ha, hreach.tail hstep⟩

/-! ### The selection -/

/-- What is pruned is closed and does not have to stay, and comes in the order of the BOARD. -/
theorem select_eq_some {sel : Selection} (h : select words ts events activeReceipts receiptWorks = some sel) :
    ∃ kept, keptIds words ts events activeReceipts receiptWorks = some kept ∧
      sel.pruned = ((closed ts).filter fun t => t.id ∉ kept).map Ticket.id ∧
      sel.kept = guards words ts events activeReceipts receiptWorks ++
        (kept.drop (guards words ts events activeReceipts receiptWorks).length).map fun id => (id, .reference) := by
  cases hkept : keptIds words ts events activeReceipts receiptWorks with
  | none =>
    rw [select, hkept] at h
    cases h
  | some kept =>
    rw [select, hkept] at h
    obtain rfl := Option.some.inj h
    exact ⟨kept, rfl, rfl, rfl⟩

theorem mem_pruned_iff {sel : Selection} (h : select words ts events activeReceipts receiptWorks = some sel)
    (ht : t ∈ ts.entries) :
    t.id ∈ sel.pruned ↔ t.isDone = true ∧ ¬Pinned words ts events activeReceipts receiptWorks t.id := by
  obtain ⟨kept, hkept, hpruned, -⟩ := select_eq_some h
  rw [hpruned, ← mem_keptIds_iff hkept]
  constructor
  · intro hmem
    obtain ⟨u, hu, hid⟩ := List.mem_map.mp hmem
    obtain ⟨hclosed, hnot⟩ := List.mem_filter.mp hu
    obtain ⟨hmem, hdone⟩ := mem_closed.mp hclosed
    obtain rfl := List.inj_on_of_nodup_map ts.distinct hmem ht hid
    exact ⟨hdone, of_decide_eq_true hnot⟩
  · rintro ⟨hdone, hnot⟩
    exact List.mem_map_of_mem (List.mem_filter.mpr ⟨mem_closed.mpr ⟨ht, hdone⟩, decide_eq_true hnot⟩)

/-- What stays names nothing that is pruned. -/
theorem references_kept {sel : Selection} (h : select words ts events activeReceipts receiptWorks = some sel)
    (ht : t ∈ ts.entries) (hstays : t.id ∉ sel.pruned) (hu : u ∈ ts.entries) (hnamed : u.id ∈ t.references words ts) :
    u.id ∉ sel.pruned := by
  rw [mem_pruned_iff h hu]
  rw [mem_pruned_iff h ht] at hstays
  rintro ⟨hdone, hfree⟩
  have hclosed := mem_closed.mpr ⟨hu, hdone⟩
  by_cases hlive : t.isDone = true
  · by_cases hpinned : Pinned words ts events activeReceipts receiptWorks t.id
    · exact hfree (.named ht hpinned hclosed hnamed)
    · exact hstays ⟨hlive, hpinned⟩
  · exact hfree (.live ht (Bool.eq_false_iff.mpr hlive) hclosed hnamed)

/-- A closed ticket has one guard at most. -/
theorem guards_ids_sublist : ((guards words ts events activeReceipts receiptWorks).map Prod.fst).Sublist
    ((closed ts).map Ticket.id) := by
  rw [guards]
  induction closed ts with
  | nil => exact .slnil
  | cons t us ih =>
    rw [List.filterMap_cons]
    cases guardOf words ts events activeReceipts receiptWorks t with
    | none => exact ih.cons _
    | some g => exact ih.cons_cons _

theorem nodup_closed_ids : ((closed ts).map Ticket.id).Nodup := (List.filter_sublist.map _).nodup ts.distinct

/-- The ids under which something is kept are the ids that are kept. -/
theorem kept_ids {sel : Selection} {kept : List String}
    (hkept : keptIds words ts events activeReceipts receiptWorks = some kept)
    (hsel : sel.kept = guards words ts events activeReceipts receiptWorks ++
      (kept.drop (guards words ts events activeReceipts receiptWorks).length).map fun id => (id, .reference)) :
    sel.kept.map Prod.fst = kept := by
  obtain ⟨more, hmore⟩ := isPrefix_sweep hkept
  dsimp only at hmore
  rw [hsel, List.map_append, List.map_map]
  have hdrop : kept.drop (guards words ts events activeReceipts receiptWorks).length = more := by
    rw [← hmore, ← List.length_map (f := Prod.fst), List.drop_left]
  rw [hdrop, ← hmore]
  exact congrArg _ (List.map_id more)

/-- The selection comes to its end. It prunes the closed tickets that do not have to stay, in the order of the BOARD;
every other closed ticket is kept once, under its own guard if it has one; and no ticket that stays names one that
is pruned. -/
theorem selection_exact (words : WordClass) (ts : Tickets) (events : List Log.LogEvent)
    (activeReceipts receiptWorks : List String) :
    ∃ sel, select words ts events activeReceipts receiptWorks = some sel ∧ sel.pruned.Sublist ts.ids ∧
      (∀ t ∈ ts.entries, t.id ∈ sel.pruned ↔
        t.isDone = true ∧ ¬Pinned words ts events activeReceipts receiptWorks t.id) ∧
      (sel.kept.map Prod.fst).Nodup ∧
      (∀ id, id ∈ sel.kept.map Prod.fst ↔ Pinned words ts events activeReceipts receiptWorks id) ∧
      (∀ t ∈ closed ts, ∀ g, (t.id, g) ∈ sel.kept →
        g = (guardOf words ts events activeReceipts receiptWorks t).getD .reference) ∧
      ∀ t ∈ ts.entries, t.id ∉ sel.pruned → ∀ u ∈ ts.entries, u.id ∈ t.references words ts → u.id ∉ sel.pruned := by
  obtain ⟨kept, hkept⟩ := @exists_keptIds words ts events activeReceipts receiptWorks
  have hsome : ∃ sel, select words ts events activeReceipts receiptWorks = some sel := by
    rw [select, hkept]
    exact ⟨_, rfl⟩
  obtain ⟨sel, hsel⟩ := hsome
  obtain ⟨kept', hkept', hpruned, hlabels⟩ := select_eq_some hsel
  obtain rfl := Option.some.inj (hkept'.symm.trans hkept)
  have hids := kept_ids hkept hlabels
  have hnodup : kept'.Nodup := nodup_sweep hkept (guards_ids_sublist.nodup nodup_closed_ids)
  refine ⟨sel, hsel, ?_, fun t ht => mem_pruned_iff hsel ht, ?_, fun id => ?_, fun t ht g hg => ?_,
    fun t ht hstays u hu hnamed => references_kept hsel ht hstays hu hnamed⟩
  · rw [hpruned]
    exact (List.filter_sublist.trans List.filter_sublist).map _
  · rwa [hids]
  · rw [hids, mem_keptIds_iff hkept]
  · rw [hlabels] at hg
    rcases List.mem_append.mp hg with hown | hnamed
    · obtain ⟨u, hu, hguard⟩ := List.mem_filterMap.mp hown
      obtain ⟨g', hg', heq⟩ := Option.map_eq_some_iff.mp hguard
      obtain ⟨hid, rfl⟩ := Prod.mk.inj heq
      obtain rfl := List.inj_on_of_nodup_map nodup_closed_ids hu ht hid
      rw [hg', Option.getD_some]
    · -- an id with a guard of its own stands in front of the ids that are kept for a reference
      obtain ⟨id, hid, heq⟩ := List.mem_map.mp hnamed
      obtain ⟨rfl, rfl⟩ := Prod.mk.inj heq
      have hnone : guardOf words ts events activeReceipts receiptWorks t = none := by
        by_contra hguard
        have hfront := mem_guards_ids.mpr ⟨t, ht, hguard, rfl⟩
        have hsplit := hids
        rw [hlabels, List.map_append, List.map_map] at hsplit
        rw [← hsplit, List.nodup_append] at hnodup
        refine hnodup.2.2 _ hfront _ ?_ rfl
        exact List.mem_map.mpr ⟨t.id, hid, rfl⟩
      rw [hnone, Option.getD_none]

end Saipen.Board
