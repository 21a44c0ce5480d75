import Saipen.Intake.LinkLaw
import Mathlib.Data.Countable.Basic
import Mathlib.Logic.Encodable.Basic
import Mathlib.Logic.Equiv.List

/-! # The linkage of a source, whole

The law of the transaction for every proposal that the BOARD gives rise to, with a linkage that takes the
metadata half of the way and one that goes through. -/

namespace Saipen.SourceLink

open Text Board Faulty

variable {ρ : Type} {w : World ρ} {d : Disk} {work receipt text : String} {fails : Nat → Bool} {details : List Detail}

/-! ### The law holds -/

theorem board_of_filter {raw : Bytes} (h : (d .board).filter (·.length ≤ boardMax) = some raw) : d .board = some raw :=
  (Option.filter_eq_some_iff.mp h).1

theorem project_already {p : Printable} {compacted proposed : String}
    (h : project p work receipt compacted = .ok (proposed, true)) : Lists compacted work receipt := by
  unfold project at h
  split at h
  · cases h
  · next t ht =>
    split_ifs at h with hlisted
    · exact ⟨t, ht, hlisted.1⟩
    · split at h
      · cases h
      · dsimp only at h
        split_ifs at h
        cases (Prod.mk.inj (Except.ok.inj h)).2

/-- A link that the proposal finds is on the BOARD. -/
theorem lists_of_alreadyLinked (h : boardLinkProposal w d work receipt = .alreadyLinked) :
    ∃ raw, d .board = some raw ∧ Lists (checkpointText raw) work receipt := by
  unfold boardLinkProposal at h
  split at h
  · cases h
  · next raw hraw =>
    split at h
    · cases h
    · next compacted details hcompacted =>
      split at h
      · cases h
      · next proposed already hproject =>
        split_ifs at h with hlinked
        · obtain ⟨rfl, rfl⟩ := hlinked
          have hsame := w.existing_unchanged _ _ _ _ hcompacted
          exact ⟨raw, board_of_filter hraw, hsame ▸ project_already hproject⟩
        · split at h <;> cases h

/-- The text of a plan names the receipt, where the row it was made from is safe. -/
theorem lists_of_planned (h : boardLinkProposal w d work receipt = .planned text details)
    (hsafe : BoardSafe w d work receipt) : ∃ raw, d .board = some raw ∧ encodeCheckpoint raw text ≠ raw ∧
      (validReceiptId receipt = true → Lists (checkpointText (encodeCheckpoint raw text)) work receipt) := by
  have hplan := h
  unfold boardLinkProposal at h
  split at h
  · cases h
  · next raw hraw =>
    obtain ⟨hwritable, hne, hrow⟩ := hsafe raw text details (board_of_filter hraw) hplan
    split at h
    · cases h
    · next compacted targets hcompacted =>
      split at h
      · cases h
      · next proposed already hproject =>
        split_ifs at h
        split at h
        · cases h
        · next grown more hgrown =>
          obtain ⟨rfl, -⟩ := Proposal.planned.inj h
          refine ⟨raw, board_of_filter hraw, hne, fun hvalid => ?_⟩
          rw [checkpointText_encodeCheckpoint hwritable]
          exact w.expanded_lists _ _ _ _ _ _ hgrown hvalid
            (project_lists (hrow compacted targets hcompacted) hvalid hproject)

/-- Bytes for the values of a type: those that are known for a value, and a number for any other. -/
noncomputable def coded {α : Type} [Countable α] (known : α → Option Bytes) (a : α) : Bytes :=
  (known a).getD (0 :: List.replicate ((exists_injective_nat α).choose a) 0)

theorem coded_injective {α : Type} [Countable α] {known : α → Option Bytes}
    (hknown : ∀ a b x, known a = some x → known b = some x → a = b)
    (hplain : ∀ a x, known a = some x → x.head? ≠ some 0) : Function.Injective (coded known) := by
  intro a b h
  rw [coded, coded] at h
  cases ha : known a with
  | some x =>
    cases hb : known b with
    | some y =>
      rw [ha, hb] at h
      exact hknown a b x ha (hb.trans (congrArg some h.symm))
    | none =>
      rw [ha, hb] at h
      exact absurd (congrArg List.head? h) (hplain a x ha)
  | none =>
    cases hb : known b with
    | some y =>
      rw [ha, hb] at h
      exact absurd (congrArg List.head? h.symm) (hplain b y hb)
    | none =>
      rw [ha, hb] at h
      have hlen := congrArg List.length h
      simp only [Option.getD_none, List.length_cons, List.length_replicate, Nat.add_right_cancel_iff] at hlen
      exact (exists_injective_nat α).choose_spec hlen

theorem countable_string : Countable String := by
  have hchar : Countable Char := Function.Injective.countable (f := Char.toNat) fun _ _ h => Char.toNat_inj.mp h
  exact Function.Injective.countable (f := String.toList) fun _ _ h => String.toList_inj.mp h

theorem countable_linkage : Countable (Linkage String) := by
  have hstring := countable_string
  refine Function.Injective.countable (f := fun m : Linkage String => (m.linkedWork, m.linkedWorks, m.rest)) ?_
  rintro ⟨a, b, c⟩ ⟨a', b', c'⟩ h
  simp only [Prod.mk.injEq] at h
  obtain ⟨rfl, rfl, rfl⟩ := h
  rfl

theorem countable_index : Countable (Index String) := by
  have hstring := countable_string
  have hlinkage := countable_linkage
  refine Function.Injective.countable (f := fun i : Index String => (i.active, i.rest)) ?_
  rintro ⟨a, b⟩ ⟨a', b'⟩ h
  simp only [Prod.mk.injEq] at h
  obtain ⟨rfl, rfl⟩ := h
  rfl

instance : Countable (Linkage String) := countable_linkage

instance : Countable (Index String) := countable_index

/-- Metadata that name no Work, and the same with the Work. -/
def unlinked : Linkage String := ⟨none, [], "\"receipt_id\": \"SRC-1\""⟩

def nowLinked : Linkage String := { unlinked with linkedWork := some "T-1" }

/-- `_json_bytes` of the two. -/
def unlinkedBytes : Bytes := encodeUtf8 "\x7b\n  \"receipt_id\": \"SRC-1\"\n\x7d\n"

def linkedBytes : Bytes := encodeUtf8 "\x7b\n  \"linked_work\": \"T-1\",\n  \"receipt_id\": \"SRC-1\"\n\x7d\n"

def indexBytes : Bytes := encodeUtf8 "\x7b\"active\": \x7b\"SRC-1\": \x7b\x7d\x7d\x7d\n"

/-- What evaluation says of these bytes. -/
structure BytesChecked : Prop where
  differ : unlinkedBytes ≠ linkedBytes
  unlinked_head : unlinkedBytes.head? ≠ some 0
  linked_head : linkedBytes.head? ≠ some 0
  index_head : indexBytes.head? ≠ some 0
  unlinked_size : unlinkedBytes.length ≤ metaMax
  index_size : indexBytes.length ≤ indexMax
  receipt : validReceiptId "SRC-1" = true

theorem bytesChecked : BytesChecked := by
  constructor <;> decide +kernel

def metaKnown (m : Linkage String) : Option Bytes :=
  if m = unlinked then some unlinkedBytes else if m = nowLinked then some linkedBytes else none

theorem metaKnown_cases {m : Linkage String} {x : Bytes} (h : metaKnown m = some x) :
    (m = unlinked ∧ x = unlinkedBytes) ∨ (m = nowLinked ∧ x = linkedBytes) := by
  unfold metaKnown at h
  split_ifs at h with h1 h2
  · exact .inl ⟨h1, (Option.some.inj h).symm⟩
  · exact .inr ⟨h2, (Option.some.inj h).symm⟩

/-- An index with the one entry. -/
def oneEntry : Index String := ⟨[("SRC-1", unlinked)], ""⟩

def indexKnown (i : Index String) : Option Bytes :=
  if i = oneEntry then some indexBytes else none

theorem metaKnown_injective : Function.Injective (coded metaKnown) := by
  have hne : unlinkedBytes ≠ linkedBytes := bytesChecked.differ
  refine coded_injective (fun a b x ha hb => ?_) fun a x ha => ?_
  · rcases metaKnown_cases ha with ⟨rfl, rfl⟩ | ⟨rfl, rfl⟩
    · exact (metaKnown_cases hb).elim (fun h => h.1.symm) fun h => absurd h.2 hne
    · exact (metaKnown_cases hb).elim (fun h => absurd h.2.symm hne) fun h => h.1.symm
  · rcases metaKnown_cases ha with ⟨-, rfl⟩ | ⟨-, rfl⟩
    · exact bytesChecked.unlinked_head
    · exact bytesChecked.linked_head

theorem indexKnown_injective : Function.Injective (coded indexKnown) := by
  refine coded_injective (fun a b x ha hb => ?_) fun a x ha => ?_
  · unfold indexKnown at ha hb
    split_ifs at ha hb with h1 h2
    rw [h1, h2]
  · unfold indexKnown at ha
    split_ifs at ha with h1
    rw [← Option.some.inj ha]
    exact bytesChecked.index_head

/-- A project whose rows are short, so that no row is compacted. -/
noncomputable def sampleWorld : World String where
  printable := samplePrintable
  prepareExisting _ text _ := .ok (text, [])
  prepareExpanded _ text _ := .ok (text, [])
  readMeta := Function.partialInv (coded metaKnown)
  metaBytes := coded metaKnown
  readIndex := Function.partialInv (coded indexKnown)
  indexBytes := coded indexKnown
  noIndex := ""
  indexSound _ := true
  readMeta_metaBytes := Function.partialInv_left metaKnown_injective
  readIndex_indexBytes i := ⟨i, Function.partialInv_left indexKnown_injective i, fun _ => rfl⟩
  existing_unchanged _ _ _ _ h := (Prod.mk.inj (Except.ok.inj h)).1.symm
  expanded_lists _ _ _ _ _ _ h _ hlists := (Prod.mk.inj (Except.ok.inj h)).1 ▸ hlists

/-- A BOARD with one row. -/
def boardTop : String := "## DOING\n## TODO\n"

def boardEnd : String := "\n## DONE\n## BLOCKED\n"

def boardWith (row : String) : String := boardTop ++ row ++ boardEnd

/-- The row of the samples without and with the link, and as it is read. -/
def freshRow : String := "- [ ] T-1 a"

def listingRow : String := "- [ ] T-1 a | source_receipts: SRC-1"

def freshTicket : Ticket := ⟨"T-1", "## TODO", ' ', [], [], freshRow, "a"⟩

def listingTicket : Ticket := ⟨"T-1", "## TODO", ' ', [], [("source_receipts", "SRC-1")], listingRow, "a"⟩

/-- What evaluation says of the two boards and their rows. -/
structure RowsChecked : Prop where
  top_head : boardTop.toList.head? = some '#'
  not_mark : ¬ some '#' = some (Char.ofNat 0xfeff)
  fresh_size : (encodeUtf8 (boardWith freshRow)).length ≤ boardMax
  listing_size : (encodeUtf8 (boardWith listingRow)).length ≤ boardMax
  fresh_zero : Char.ofNat 0 ∉ (boardWith freshRow).toList
  listing_zero : Char.ofNat 0 ∉ (boardWith listingRow).toList
  fresh_return : '\r' ∉ (boardWith freshRow).toList
  listing_return : '\r' ∉ (boardWith listingRow).toList
  fresh_read : (parseBoard (boardWith freshRow)).ticket "T-1" = some freshTicket
  listing_read : (parseBoard (boardWith listingRow)).ticket "T-1" = some listingTicket
  listing_done : "SRC-1" ∈ receiptsOf listingTicket ∧ stripPseudoLink listingTicket = none
  fresh_open : ¬ ("SRC-1" ∈ receiptsOf freshTicket ∧ stripPseudoLink freshTicket = none)
  fresh_linked : (linkedRow samplePrintable freshTicket "SRC-1").toOption = some listingRow
  replaced : replaceFirst freshRow listingRow (boardWith freshRow) = boardWith listingRow
  rows_differ : ¬ boardWith listingRow = boardWith freshRow
  ending : endsLine (boardWith freshRow).toList = endsLine (boardWith listingRow).toList
  place : partitionOn freshTicket.raw.toList (boardWith freshRow).toList = some (boardTop.toList, boardEnd.toList)
  top_line : boardTop.toList = ("## DOING\n## TODO").toList ++ ['\n']
  end_line : boardEnd.toList = '\n' :: ("## DONE\n## BLOCKED\n").toList
  section_name : (walk (String.ofList boardTop.toList)).sectionName = some freshTicket.sectionName
  none_above : freshTicket.id ∉ (walk (String.ofList boardTop.toList)).tickets.map (·.id)
  row_read : readRecord freshTicket.sectionName freshTicket.raw = some freshTicket
  bare : bareBar freshRow = false
  plain : stripPseudoLink freshTicket = none
  receipts : linkedReceipts freshTicket "SRC-1" = "SRC-1"
  known : "source_receipts" ∈ knownFields
  no_field : ∀ p ∈ fieldsSplit freshRow, partName p ≠ some "source_receipts"
  value_plain : readBack "SRC-1" = "SRC-1"
  value_bars : ¬ bar <:+: ' ' :: ("SRC-1").toList
  value_last : followed "source_receipts" (fieldsSplit freshRow) = false
  value_single : embedsTicket ("SRC-1").toList = false

theorem rowsChecked : RowsChecked := by
  constructor <;> decide +kernel

/-- The files of the samples. -/
noncomputable def sampleDisk (row : String) : Disk
  | .board => some (encodeUtf8 (boardWith row))
  | .metadata "SRC-1" => metaKnown unlinked
  | .index => indexKnown oneEntry
  | _ => none

theorem board_sampleDisk (row : String) : sampleDisk row .board = some (encodeUtf8 (boardWith row)) := rfl

theorem head_boardWith (row : String) : (boardWith row).toList.head? ≠ some (Char.ofNat 0xfeff) := by
  rw [boardWith, String.toList_append, String.toList_append, List.append_assoc, List.head?_append,
    rowsChecked.top_head]
  exact rowsChecked.not_mark

/-- The proposal for a BOARD of plain characters. -/
theorem proposal_sample {row proposed : String} {already : Bool}
    (hlen : (encodeUtf8 (boardWith row)).length ≤ boardMax) (hzero : Char.ofNat 0 ∉ (boardWith row).toList)
    (hreturn : '\r' ∉ (boardWith row).toList)
    (hproject : project samplePrintable "T-1" "SRC-1" (boardWith row) = .ok (proposed, already)) :
    boardLinkProposal sampleWorld (sampleDisk row) "T-1" "SRC-1" =
      if already = true then .alreadyLinked else .planned proposed [] := by
  have hfilter : (sampleDisk row .board).filter (·.length ≤ boardMax) = some (encodeUtf8 (boardWith row)) := by
    have hkeep : decide ((encodeUtf8 (boardWith row)).length ≤ boardMax) = true := decide_eq_true hlen
    simp only [board_sampleDisk, Option.filter_some, hkeep, if_true]
  have htext : checkpointText (encodeUtf8 (boardWith row)) = boardWith row :=
    checkpointText_encodeUtf8 hzero hreturn (head_boardWith row)
  have hexisting : ∀ text, sampleWorld.prepareExisting (sampleDisk row) text "T-1" = .ok (text, []) := fun _ => rfl
  have hexpanded : ∀ text, sampleWorld.prepareExpanded (sampleDisk row) text "T-1" = .ok (text, []) := fun _ => rfl
  have hprintable : sampleWorld.printable = samplePrintable := rfl
  rw [boardLinkProposal, hfilter]
  simp only [hexisting, htext, hprintable, hproject, hexpanded, and_true, List.append_nil]

theorem project_listing : project samplePrintable "T-1" "SRC-1" (boardWith listingRow) = .ok (boardWith listingRow, true) := by
  rw [project, rowsChecked.listing_read]
  exact if_pos rowsChecked.listing_done

theorem project_fresh : project samplePrintable "T-1" "SRC-1" (boardWith freshRow) = .ok (boardWith listingRow, false) := by
  have hrow : linkedRow samplePrintable freshTicket "SRC-1" = .ok listingRow := by
    have hoption := rowsChecked.fresh_linked
    cases hlinked : linkedRow samplePrintable freshTicket "SRC-1" with
    | error message => rw [hlinked] at hoption; cases hoption
    | ok row => rw [hlinked] at hoption; rw [Option.some.inj hoption]
  have htext : replaceFirst freshTicket.raw listingRow (boardWith freshRow) = boardWith listingRow :=
    rowsChecked.replaced
  rw [project, rowsChecked.fresh_read]
  dsimp only
  rw [if_neg rowsChecked.fresh_open, hrow]
  dsimp only
  rw [htext, if_neg rowsChecked.rows_differ]

theorem proposal_listing : boardLinkProposal sampleWorld (sampleDisk listingRow) "T-1" "SRC-1" = .alreadyLinked := by
  rw [proposal_sample rowsChecked.listing_size rowsChecked.listing_zero rowsChecked.listing_return project_listing,
    if_pos rfl]

theorem proposal_fresh : boardLinkProposal sampleWorld (sampleDisk freshRow) "T-1" "SRC-1" =
    .planned (boardWith listingRow) [] := by
  rw [proposal_sample rowsChecked.fresh_size rowsChecked.fresh_zero rowsChecked.fresh_return project_fresh,
    if_neg Bool.false_ne_true]

theorem readMetaFile_sample (row : String) : readMetaFile sampleWorld (sampleDisk row) "SRC-1" = .ok (some unlinked) := by
  have hfile : sampleDisk row (.metadata "SRC-1") = some unlinkedBytes := rfl
  have hread : sampleWorld.readMeta unlinkedBytes = some unlinked :=
    Function.partialInv_left metaKnown_injective unlinked
  have hsize : decide (unlinkedBytes.length ≤ metaMax) = true := decide_eq_true bytesChecked.unlinked_size
  rw [readMetaFile, if_neg (by simp [bytesChecked.receipt]), hfile]
  simp only [hread, Option.filter_some, hsize, if_true]

theorem readIndexFile_sample (row : String) : readIndexFile sampleWorld (sampleDisk row) = .ok oneEntry := by
  have hfile : sampleDisk row .index = some (coded indexKnown oneEntry) := rfl
  have hread : sampleWorld.readIndex (coded indexKnown oneEntry) = some oneEntry :=
    Function.partialInv_left indexKnown_injective oneEntry
  have hsound : (sampleWorld.indexSound oneEntry && decide ((coded indexKnown oneEntry).length ≤ indexMax)) = true := by
    exact decide_eq_true bytesChecked.index_size
  rw [readIndexFile, hfile]
  simp only [hread, Option.filter_some, hsound, if_true]

theorem boardSafe_fresh : BoardSafe sampleWorld (sampleDisk freshRow) "T-1" "SRC-1" := by
  intro raw text details hraw hplan
  obtain rfl : encodeUtf8 (boardWith freshRow) = raw := Option.some.inj hraw
  rw [proposal_fresh] at hplan
  obtain ⟨rfl, rfl⟩ := Proposal.planned.inj hplan
  have hzero : Char.ofNat 0 ∉ (boardWith freshRow).toList := rowsChecked.fresh_zero
  have htext : checkpointText (encodeUtf8 (boardWith freshRow)) = boardWith freshRow :=
    checkpointText_encodeUtf8 hzero rowsChecked.fresh_return (head_boardWith freshRow)
  have hwritable : Writable (encodeUtf8 (boardWith freshRow)) (boardWith listingRow) := by
    refine ⟨isCanonicalEncoding_encodeUtf8 (head_boardWith freshRow), bomlessUtf16_encodeUtf8 hzero,
      rowsChecked.listing_zero, rowsChecked.listing_return, head_boardWith listingRow, ?_⟩
    rw [decodeDoc_encodeUtf8 hzero (head_boardWith freshRow)]
    exact rowsChecked.ending
  refine ⟨hwritable, fun heq => ?_, fun compacted targets hcompacted t ht _ => ?_⟩
  · have hback := checkpointText_encodeCheckpoint hwritable
    rw [heq, htext] at hback
    exact absurd hback.symm rowsChecked.rows_differ
  · obtain ⟨rfl, -⟩ := Prod.mk.inj (Except.ok.inj hcompacted)
    rw [htext] at ht ⊢
    rw [rowsChecked.fresh_read] at ht
    obtain rfl := Option.some.inj ht
    refine ⟨⟨⟨boardTop.toList, boardEnd.toList, rowsChecked.place, .inr ⟨_, rowsChecked.top_line⟩,
      .inr ⟨_, rowsChecked.end_line⟩, rowsChecked.section_name, rowsChecked.none_above⟩, rowsChecked.row_read⟩,
      rowsChecked.bare, fun cleaned hcleaned => ?_, fun row hrow => ?_⟩
    · rw [rowsChecked.plain] at hcleaned
      cases hcleaned
    · rw [unlinkedRow, rowsChecked.plain] at hrow
      obtain rfl : freshRow = row := Except.ok.inj hrow
      rw [rowsChecked.receipts]
      exact ⟨rowsChecked.bare, rowsChecked.known,
        fun p hp hname => absurd hname (rowsChecked.no_field p hp), rowsChecked.value_plain, rowsChecked.value_bars,
        fun hfollowed => absurd hfollowed (by simp [rowsChecked.value_last]), rowsChecked.value_single⟩

end Saipen.SourceLink
