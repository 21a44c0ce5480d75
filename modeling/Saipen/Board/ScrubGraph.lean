import Saipen.Board.GraphLaw
import Saipen.Board.Renaming
import Saipen.Board.ScrubLaw

/-! # The graph after a scrub

A reference that the graph of the BOARD resolves is one that the selection follows, so that the graph of the
BOARD that is left has no error it did not have. Nothing more may be pruned from that BOARD. -/

namespace Saipen.Board

open Text Graph

variable {words : WordClass} {ts : Tickets} {events : List Log.LogEvent} {activeReceipts receiptWorks P : List String}
  {t u : Ticket} {id : String} {sel : Selection}

/-! ### A field that holds an id names it -/

theorem mem_tokensFrom_append {head cs : List Char} {x : String} (pre : List Char) : ∀ {prev : Option Char},
    x ∈ tokensFrom words head ((pre.reverse ++ prev.toList).head?) cs →
    x ∈ tokensFrom words head prev (pre ++ cs) := by
  induction pre with
  | nil =>
    intro prev h
    cases prev <;> exact h
  | cons c pre ih =>
    intro prev h
    rw [List.cons_append, tokensFrom]
    refine List.mem_append_right _ (ih ?_)
    have hhead : ((c :: pre).reverse ++ prev.toList).head? = (pre.reverse ++ (some c).toList).head? := by
      rw [List.reverse_cons, List.append_assoc]
      cases pre.reverse <;> rfl
    rwa [← hhead]

/-- The id of a ticket in blanks is a token. -/
theorem mem_tokens_of_strip (f : Frame) {value : String} (h : strip value = f.id) :
    f.id ∈ tokens words "T-".toList value := by
  obtain ⟨pre, post, hvalue, hpre, hpost⟩ := strip_parts value
  rw [h] at hvalue
  have hspace : ∀ c, isSpace c = true → words.has c = false := fun c hc => WordClass.has_of_isSpace hc
  have hafter : post.head?.any words.has = false := by
    cases post with
    | nil => rfl
    | cons c _ => exact hspace c (hpost c List.mem_cons_self)
  have hbefore : (pre.reverse ++ (none : Option Char).toList).head?.any words.has = false := by
    rw [Option.toList_none, List.append_nil, List.head?_reverse]
    cases hlast : pre.getLast? with
    | none => rfl
    | some c => exact hspace c (hpre c (List.mem_of_getLast? hlast))
  have hdigits : (f.digits ++ post).takeWhile isDecimal = f.digits ∧ (f.digits ++ post).dropWhile isDecimal = post := by
    cases post with
    | nil =>
      rw [List.append_nil]
      exact ⟨List.takeWhile_eq_self_iff.mpr f.decimal, List.dropWhile_eq_nil_iff.mpr f.decimal⟩
    | cons c post =>
      have hc := isDecimal_of_isSpace (hpost c List.mem_cons_self)
      exact ⟨takeWhile_append_cons f.decimal hc post, dropWhile_append_cons f.decimal hc post⟩
  have htoken : tokenAt words "T-".toList (f.id.toList ++ post) = some f.id := by
    have hsplit : f.id.toList ++ post = "T-".toList ++ (f.digits ++ post) := by
      rw [f.toList_id]
      rfl
    rw [hsplit, tokenAt, literal_append]
    simp only [Option.bind_eq_bind, Option.bind_some, hdigits.1, hdigits.2, f.digits_ne, decide_false, Bool.false_or]
    rw [hafter, if_neg Bool.false_ne_true]
    exact congrArg some (String.toList_injective (by rw [String.toList_ofList, f.toList_id]; rfl))
  rw [tokens, hvalue]
  apply mem_tokensFrom_append
  have hcons : ∃ cs, f.id.toList ++ post = 'T' :: cs := ⟨_, by rw [f.toList_id]; rfl⟩
  obtain ⟨cs, hcs⟩ := hcons
  rw [hcs] at htoken ⊢
  rw [tokensFrom, hbefore, if_neg Bool.false_ne_true, htoken]
  exact List.mem_append_left _ List.mem_cons_self

/-- The ticket that supersedes a ticket is one that it names. -/
theorem successor_mem_references (f : Frame) (h : t.successor = some f.id) : f.id ∈ t.references words ts := by
  have hstrip : strip (t.text "superseded_by") = f.id := by
    rw [Ticket.successor] at h
    split_ifs at h
    exact Option.some.inj h
  rw [Ticket.references]
  refine List.mem_append_right _ (List.mem_flatMap.mpr ⟨"superseded_by", by decide, ?_⟩)
  exact List.mem_append_left _ (mem_tokens_of_strip f hstrip)

/-! ### The selection on the BOARD that is left -/

theorem mem_byReceipt {receipt : String} :
    id ∈ byReceipt words ts receipt ↔ ∃ t ∈ ts.entries, receipt ∈ t.receiptsNamed words ∧ t.id = id := by
  rw [byReceipt, List.mem_map]
  simp only [List.mem_filter, decide_eq_true_eq, and_assoc]

/-- What a ticket names, as far as it is left. -/
theorem mem_references_without (hleft : id ∉ P) :
    id ∈ t.references words (ts.without P) ↔ id ∈ t.references words ts := by
  have hreceipt : ∀ receipt, id ∈ byReceipt words (ts.without P) receipt ↔ id ∈ byReceipt words ts receipt := by
    intro receipt
    rw [mem_byReceipt, mem_byReceipt]
    constructor
    · rintro ⟨u, hu, hnamed, rfl⟩
      exact ⟨u, (Tickets.mem_without.mp hu).1, hnamed, rfl⟩
    · rintro ⟨u, hu, hnamed, rfl⟩
      exact ⟨u, Tickets.mem_without.mpr ⟨hu, hleft⟩, hnamed, rfl⟩
  simp only [Ticket.references, List.mem_append, List.mem_flatMap]
  refine or_congr_right (exists_congr fun key => and_congr_right fun _ => or_congr_right ?_)
  split_ifs
  · simp only [List.mem_flatMap, hreceipt]
  · rfl

theorem mem_closed_without : t ∈ closed (ts.without P) ↔ t ∈ closed ts ∧ t.id ∉ P := by
  rw [mem_closed, mem_closed, Tickets.mem_without, and_right_comm]

/-- The guard of a ticket that is left. -/
theorem guardOf_without (ht : t ∈ closed ts) (hleft : t.id ∉ P) :
    guardOf words (ts.without P) events activeReceipts receiptWorks t =
      guardOf words ts events activeReceipts receiptWorks t := by
  have hids : ∀ {us : Tickets}, t ∈ closed us →
      (t.id ∈ closedInHistory events ((closed us).map Ticket.id) ↔ events.any (fun e =>
        e.ticket = some t.id && closingOpClasses.any (startsWith (e.opId.getD ""))) = true) := by
    intro us hus
    rw [closedInHistory, List.mem_filter]
    exact and_iff_right (List.mem_map_of_mem hus)
  rw [guardOf, guardOf]
  simp only [hids ht, hids (mem_closed_without.mpr ⟨ht, hleft⟩)]

/-- What has to stay is the same on the BOARD that is left. -/
theorem pinned_without (h : ∀ id, Pinned words ts events activeReceipts receiptWorks id → id ∉ P)
    (hopen : ∀ t ∈ ts.entries, t.isDone = false → t.id ∉ P) :
    Pinned words (ts.without P) events activeReceipts receiptWorks id ↔
      Pinned words ts events activeReceipts receiptWorks id := by
  constructor
  · intro hpinned
    induction hpinned with
    | @guarded t ht hguard =>
      obtain ⟨hclosed, hleft⟩ := mem_closed_without.mp ht
      exact .guarded hclosed (by rwa [← guardOf_without hclosed hleft])
    | @live t u ht hlive hu hnamed =>
      obtain ⟨hclosed, hleft⟩ := mem_closed_without.mp hu
      exact .live (Tickets.mem_without.mp ht).1 hlive hclosed ((mem_references_without hleft).mp hnamed)
    | @named t u ht _ hu hnamed ih =>
      obtain ⟨hclosed, hleft⟩ := mem_closed_without.mp hu
      exact .named (Tickets.mem_without.mp ht).1 ih hclosed ((mem_references_without hleft).mp hnamed)
  · intro hpinned
    induction hpinned with
    | @guarded t ht hguard =>
      have hleft := h t.id (.guarded ht hguard)
      exact .guarded (mem_closed_without.mpr ⟨ht, hleft⟩) (by rwa [guardOf_without ht hleft])
    | @live t u ht hlive hu hnamed =>
      have hleft := h u.id (.live ht hlive hu hnamed)
      exact .live (Tickets.mem_without.mpr ⟨ht, hopen t ht hlive⟩) hlive (mem_closed_without.mpr ⟨hu, hleft⟩)
        ((mem_references_without hleft).mpr hnamed)
    | @named t u ht hpin hu hnamed ih =>
      have hleft := h u.id (.named ht hpin hu hnamed)
      exact .named (Tickets.mem_without.mpr ⟨ht, h t.id hpin⟩) ih (mem_closed_without.mpr ⟨hu, hleft⟩)
        ((mem_references_without hleft).mpr hnamed)

/-- What has to stay stays. -/
theorem notMem_pruned_of_pinned (hsel : select words ts events activeReceipts receiptWorks = some sel)
    (h : Pinned words ts events activeReceipts receiptWorks id) : id ∉ sel.pruned := by
  have hclosed : ∃ t ∈ ts.entries, t.id = id := by
    cases h with
    | guarded ht _ => exact ⟨_, (mem_closed.mp ht).1, rfl⟩
    | live _ _ hu _ => exact ⟨_, (mem_closed.mp hu).1, rfl⟩
    | named _ _ hu _ => exact ⟨_, (mem_closed.mp hu).1, rfl⟩
  obtain ⟨t, ht, rfl⟩ := hclosed
  exact fun hmem => ((mem_pruned_iff hsel ht).mp hmem).2 h

theorem notMem_pruned_of_open (hsel : select words ts events activeReceipts receiptWorks = some sel)
    (ht : t ∈ ts.entries) (hopen : t.isDone = false) : t.id ∉ sel.pruned := by
  intro hmem
  rw [((mem_pruned_iff hsel ht).mp hmem).1] at hopen
  cases hopen

/-- A ticket that is left has to stay if it is closed. -/
theorem select_without (hsel : select words ts events activeReceipts receiptWorks = some sel) :
    ∃ sel', select words (ts.without sel.pruned) events activeReceipts receiptWorks = some sel' ∧
      sel'.pruned = [] ∧ ∀ id, id ∈ sel'.kept.map Prod.fst ↔ id ∈ sel.kept.map Prod.fst := by
  obtain ⟨sel', hsel'⟩ := exists_select words (ts.without sel.pruned) events activeReceipts receiptWorks
  have hpinned : ∀ id, Pinned words (ts.without sel.pruned) events activeReceipts receiptWorks id ↔
      Pinned words ts events activeReceipts receiptWorks id := fun id =>
    pinned_without (fun _ h => notMem_pruned_of_pinned hsel h) fun _ ht hopen => notMem_pruned_of_open hsel ht hopen
  obtain ⟨kept, hkept, -, hlabels⟩ := select_eq_some hsel
  obtain ⟨kept', hkept', hpruned', hlabels'⟩ := select_eq_some hsel'
  refine ⟨sel', hsel', List.eq_nil_iff_forall_not_mem.mpr fun id hid => ?_, fun id => ?_⟩
  · have hpruned := hid
    rw [hpruned'] at hid
    obtain ⟨t, ht, rfl⟩ := List.mem_map.mp hid
    have hmem := (mem_closed.mp (List.mem_filter.mp ht).1).1
    obtain ⟨hdone, hfree⟩ := (mem_pruned_iff hsel' hmem).mp hpruned
    obtain ⟨hold, hleft⟩ := Tickets.mem_without.mp hmem
    exact hleft ((mem_pruned_iff hsel hold).mpr ⟨hdone, fun h => hfree ((hpinned t.id).mpr h)⟩)
  · rw [kept_ids hkept hlabels, kept_ids hkept' hlabels', mem_keptIds_iff hkept, mem_keptIds_iff hkept', hpinned]

/-! ### The BOARD that is left -/

theorem exists_frame_of_boardTickets {text : String} (ht : t ∈ (boardTickets text).entries) : ∃ f : Frame, t.id = f.id := by
  have hmem : t.id ∈ ((splitLines text).foldl Walk.readLine {}).ids := List.mem_map_of_mem ht
  rcases exists_row_of_mem_ids _ hmem with hmem | ⟨line, -, row, hrow, hid⟩
  · cases hmem
  · obtain ⟨f, -, -, -, hf, -⟩ := exists_frame hrow
    exact ⟨f, by rw [← hf, hid]⟩

theorem Tickets.eq_of_entries {us : Tickets} (h : ts.entries = us.entries) : ts = us := by
  obtain ⟨entries, hdistinct⟩ := ts
  obtain ⟨entries', hdistinct'⟩ := us
  obtain rfl : entries = entries' := h
  rfl

theorem boardTickets_scrubText {text : String} (h : (parseBoard (normText text)).errors = []) :
    boardTickets (normText (scrubText text P).board) = (boardTickets (normText text)).without P := by
  have hboard := congrArg Parsed.tickets (parseBoard_scrubText (P := P) h).1
  apply Tickets.eq_of_entries
  rw [Tickets.without, boardTickets, boardTickets]
  dsimp only at hboard ⊢
  exact hboard

/-- A BOARD whose graph has no error has none after a scrub, and the selection on it finds nothing more to prune and
keeps what it kept. -/
theorem scrub_keeps_graph {text : String} (hread : (parseBoard (normText text)).errors = [])
    (hgraph : boardGraphErrors (boardTickets (normText text)) = [])
    (hsel : select words (boardTickets (normText text)) events activeReceipts receiptWorks = some sel) :
    boardGraphErrors (boardTickets (normText (scrubText text sel.pruned).board)) = [] ∧
      ∃ sel', select words (boardTickets (normText (scrubText text sel.pruned).board)) events activeReceipts receiptWorks =
          some sel' ∧ sel'.pruned = [] ∧ ∀ id, id ∈ sel'.kept.map Prod.fst ↔ id ∈ sel.kept.map Prod.fst := by
  rw [boardTickets_scrubText hread]
  refine ⟨?_, select_without hsel⟩
  rw [graphErrors_eq_nil_iff] at hgraph ⊢
  have hnamed : ∀ t ∈ (boardTickets (normText text)).entries, t.id ∉ sel.pruned →
      ∀ u ∈ (boardTickets (normText text)).entries,
        u.id ∈ t.references words (boardTickets (normText text)) → u.id ∉ sel.pruned :=
    fun t ht hleft u hu hmem => references_kept hsel ht hleft hu hmem
  refine hgraph.without (fun t ht hleft need hneed => ?_) fun t ht hleft s hs => ?_
  · obtain ⟨u, hu, rfl⟩ := List.mem_map.mp (hgraph.need t ht need hneed)
    exact hnamed t ht hleft u hu (List.mem_append_left _ hneed)
  · obtain ⟨u, hu, rfl, -⟩ := hgraph.successor t ht s hs
    obtain ⟨f, hf⟩ := exists_frame_of_boardTickets hu
    refine hnamed t ht hleft u hu ?_
    rw [hf] at hs ⊢
    exact successor_mem_references f hs

theorem scrub_keeps_graph_sample : boardGraphErrors (boardTickets (normText scrubSample)) = [] ∧
    ∃ sel, select asciiWords (boardTickets (normText scrubSample)) scrubSampleEvents [] [] = some sel ∧
      sel.pruned = ["T-1"] ∧
      boardGraphErrors (boardTickets (normText (scrubText scrubSample sel.pruned).board)) = [] := by
  have hread : (parseBoard (normText scrubSample)).errors = [] := by decide +kernel
  have hgraph : boardGraphErrors (boardTickets (normText scrubSample)) = [] := by decide +kernel
  obtain ⟨sel, hsel⟩ := exists_select asciiWords (boardTickets (normText scrubSample)) scrubSampleEvents [] []
  have hpruned : (select asciiWords (boardTickets (normText scrubSample)) scrubSampleEvents [] []).map Selection.pruned =
      some ["T-1"] := by decide +kernel
  rw [hsel] at hpruned
  exact ⟨hgraph, sel, hsel, Option.some.inj hpruned, (scrub_keeps_graph hread hgraph hsel).1⟩

end Saipen.Board
