import Saipen.Board.FieldLaw
import Saipen.Board.Graph
import Saipen.Faulty
import Saipen.Assoc
import Saipen.Text.Case
import Saipen.Text.Document
import Mathlib.Data.List.Dedup

/-! # Linking a source to a Work

A link is kept in three files: the row of the Work names the receipt, and the metadata of the receipt and its
entry in the intake index name the Work. The BOARD is written first, behind the details that the compaction of
the row has put beside it, then the metadata and the index. -/

namespace Saipen.SourceLink

open Text Board Faulty

/-! ### The files -/

/-- The files that a linkage touches: `.saipen/BOARD.md`, `.saipen/intake/active/<receipt>.meta.json`,
`.saipen/intake/index.json`, and the details of the compaction. -/
inductive File where
  | board
  | metadata (receipt : String)
  | index
  | detail (path : String)
deriving DecidableEq

/-- The files of a project. -/
abbrev Disk := File → Option Bytes

/-- What the metadata and the index entry of a receipt say about its Works, with their other fields. -/
structure Linkage (ρ : Type) where
  linkedWork : Option String
  linkedWorks : List String
  rest : ρ
deriving DecidableEq

/-- The intake index. -/
structure Index (ρ : Type) where
  active : List (String × Linkage ρ)
  rest : ρ
deriving DecidableEq

/-- `_BOARD_MAX`, `_META_MAX` and `_INDEX_MAX`. -/
def boardMax : Nat := 8 * 1024 * 1024

def metaMax : Nat := 1024 * 1024

def indexMax : Nat := 4 * 1024 * 1024

/-- A detail file and its content. -/
abbrev Detail := String × Bytes

/-- `linked_works`. -/
def Linkage.works {ρ : Type} (m : Linkage ρ) : List String :=
  (m.linkedWork.getD "" :: m.linkedWorks).map strip |>.filter (· ≠ "")

/-- `INTENT_RE.fullmatch`. -/
def validReceiptId (receipt : String) : Bool :=
  match receipt.toList with
  | 'S' :: 'R' :: 'C' :: '-' :: d :: digits => (d :: digits).all isDecimal
  | _ => false

/-- `source_receipts` as the projection reads it. -/
def receiptsOf (t : Ticket) : List String :=
  (split ',' ((t.fields.lookup "source_receipts").getD "")).map strip |>.filter (· ≠ "")

/-- The row of a Work names a receipt. -/
def Lists (text work receipt : String) : Prop := ∃ t, (parseBoard text).ticket work = some t ∧ receipt ∈ receiptsOf t

/-- What linking calls: the compaction of the row, the codecs of the metadata and the index, and the checks of
an index that is read. The other fields of the metadata and of the index are of any type. -/
structure World (ρ : Type) where
  printable : Printable
  /-- `prepare_existing` for the one Work. -/
  prepareExisting : Disk → String → String → Except String (String × List Detail)
  /-- `prepare_expanded` for the one Work. -/
  prepareExpanded : Disk → String → String → Except String (String × List Detail)
  readMeta : Bytes → Option (Linkage ρ)
  metaBytes : Linkage ρ → Bytes
  readIndex : Bytes → Option (Index ρ)
  indexBytes : Index ρ → Bytes
  /-- The index where there is no file. -/
  noIndex : ρ
  /-- `_decode_index` accepts what the file says. -/
  indexSound : Index ρ → Bool
  readMeta_metaBytes : ∀ m, readMeta (metaBytes m) = some m
  /-- The entries may come back in another order. -/
  readIndex_indexBytes : ∀ i, ∃ i', readIndex (indexBytes i) = some i' ∧
    ∀ receipt, i'.active.lookup receipt = i.active.lookup receipt
  /-- A row that is not compacted stays. -/
  existing_unchanged : ∀ d text work text', prepareExisting d text work = .ok (text', []) → text' = text
  /-- The tokens of `source_receipts` are emitted again, each in full. -/
  expanded_lists : ∀ d text work text' details receipt, prepareExpanded d text work = .ok (text', details) →
    validReceiptId receipt = true → Lists text work receipt → Lists text' work receipt

/-! ### The projection -/

/-- `[A-Za-z0-9, \\-]`. -/
def isReceiptChar (c : Char) : Bool := isAsciiAlnum c || c = ',' || c = ' ' || c = '\\' || c = '-'

/-- The pseudo-link at the beginning of a text: its ids and what follows. -/
def pseudoLinkAt (cs : List Char) : Option (List Char × List Char) :=
  let cs := cs.dropWhile isSpace
  let cs := match cs with
    | c :: rest => if c = ';' ∨ c = ',' then rest.dropWhile isSpace else cs
    | [] => cs
  match literal "source_receipts:".toList cs with
  | none => none
  | some rest =>
      let rest := rest.dropWhile isSpace
      if rest.head?.any isAsciiAlnum then some (rest.takeWhile isReceiptChar, rest.dropWhile isReceiptChar) else none

/-- `pattern.search(verify)`: the text in front of the pseudo-link, its ids and the text behind it. -/
def findPseudoLink : List Char → Option (List Char × List Char × List Char)
  | [] => none
  | c :: cs =>
      match pseudoLinkAt (c :: cs) with
      | some r => some ([], r)
      | none => (findPseudoLink cs).map fun r => (c :: r.1, r.2)

/-- `_strip_source_receipts_pseudo_link`. -/
def stripPseudoLink (t : Ticket) : Option String :=
  match findPseudoLink ((t.fields.lookup "verify").getD "").toList with
  | none => none
  | some (before, ids, behind) =>
      let named := (split ',' (String.ofList ids)).map strip |>.filter (· ≠ "")
      if strip (String.ofList ids) ∉ named then none
      else
        let cleaned := ((before ++ behind).reverse.dropWhile fun c => c = ' ' || c = ';' || c = ',').reverse
        some (strip (String.ofList (cleaned ++ if before.all isSpace then [] else [' '])))

/-- `text.replace(old, new, 1)`. -/
def replaceFirst (old new text : String) : String :=
  match partitionOn old.toList text.toList with
  | some (front, back) => String.ofList (front ++ new.toList ++ back)
  | none => text

/-- Why a linkage is refused. -/
inductive Refusal where
  | orphan
  | oversize
  | invalid
deriving DecidableEq

/-- `code` of a refusal. -/
def Refusal.code : Refusal → String
  | .orphan => "ORPHAN_RECEIPT"
  | .oversize => "BOARD_RECORD_OVERSIZE"
  | .invalid => "VALIDATION_FAILED"

/-- The refusal for a `ValueError`. -/
def refusalOf (message : String) : Refusal :=
  if (partitionOn "oversize".toList (lower message).toList).isSome then .oversize else .invalid

/-- The row without its pseudo-link. -/
def unlinkedRow (p : Printable) (t : Ticket) : Except String String :=
  match stripPseudoLink t with
  | some cleaned => setTicketField p t.raw "verify" cleaned false
  | none => .ok t.raw

/-- The receipts of the row with the new one. -/
def linkedReceipts (t : Ticket) (receipt : String) : String :=
  ",".intercalate (if receipt ∈ receiptsOf t then receiptsOf t else receiptsOf t ++ [receipt])

/-- The row with its new field. -/
def linkedRow (p : Printable) (t : Ticket) (receipt : String) : Except String String := do
  let row ← unlinkedRow p t
  setTicketField p row "source_receipts" (linkedReceipts t receipt) false

/-- `project`: the text with the link, and whether it was there already. -/
def project (p : Printable) (work receipt text : String) : Except Refusal (String × Bool) :=
  match (parseBoard text).ticket work with
  | none => .error .orphan
  | some t =>
      if receipt ∈ receiptsOf t ∧ stripPseudoLink t = none then .ok (text, true)
      else
        match linkedRow p t receipt with
        | .error message => .error (refusalOf message)
        | .ok row =>
            let updated := replaceFirst t.raw row text
            if updated = text then .error .orphan else .ok (updated, false)

/-- What `_board_link_proposal` answers. -/
inductive Proposal where
  | refused (r : Refusal)
  | alreadyLinked
  | planned (text : String) (details : List Detail)

variable {ρ : Type} (w : World ρ) (d : Disk) (work receipt : String)

/-- `_board_link_proposal`. -/
def boardLinkProposal : Proposal :=
  match (d .board).filter (·.length ≤ boardMax) with
  | none => .refused .orphan
  | some raw =>
      match w.prepareExisting d (checkpointText raw) work with
      | .error message => .refused (refusalOf message)
      | .ok (compacted, details) =>
          match project w.printable work receipt compacted with
          | .error r => .refused r
          | .ok (proposed, already) =>
              if already = true ∧ details = [] then .alreadyLinked
              else
                match w.prepareExpanded d proposed work with
                | .error message => .refused (refusalOf message)
                | .ok (grown, more) => .planned grown (details ++ more)

/-! ### The transaction -/

/-- How a call ends: it answers, or an exception passes through it. -/
inductive Outcome where
  | linked
  | refused (r : Refusal)
  | raised
deriving DecidableEq

/-- The metadata of a receipt with a new Work. -/
def Linkage.link (m : Linkage ρ) : Linkage ρ :=
  let primary := strip (m.linkedWork.getD "")
  if primary = "" then { m with linkedWork := some work }
  else if primary ≠ work then
    { m with linkedWorks := ((m.linkedWorks.filter (strip · ≠ "") ++ [work]).dedup.mergeSort (· ≤ ·)) }
  else m

/-- The index entry of a receipt takes over what its metadata say. -/
def Linkage.follow (e m : Linkage ρ) : Linkage ρ :=
  { e with
    linkedWork := m.linkedWork
    linkedWorks := if m.linkedWorks = [] then e.linkedWorks else m.linkedWorks }

/-- `_read_meta`: a `ValueError`, or the metadata where there are any. -/
def readMetaFile : Except Refusal (Option (Linkage ρ)) :=
  if validReceiptId receipt = false then .error .orphan
  else
    match d (.metadata receipt) with
    | none => .ok none
    | some raw =>
        match (w.readMeta raw).filter fun _ => raw.length ≤ metaMax with
        | none => .error .orphan
        | some m => .ok (some m)

/-- `_read_index`. -/
def readIndexFile : Except Refusal (Index ρ) :=
  match d .index with
  | none => .ok ⟨[], w.noIndex⟩
  | some raw =>
      match (w.readIndex raw).filter fun i => w.indexSound i && raw.length ≤ indexMax with
      | none => .error .orphan
      | some i => .ok i

variable (fails : Nat → Bool)

/-- `_relink_authorities`. -/
def relinkAuthorities (s : Faulty.Progress File Bytes) : Outcome × Faulty.Progress File Bytes :=
  match readMetaFile w s.files receipt with
  | .error r => (.refused r, s)
  -- Metadata that are not there are None, and None has no fields to read.
  | .ok none => (.raised, s)
  | .ok (some m) =>
      let written := s.put fails (.metadata receipt) (some (w.metaBytes (m.link work)))
      if written.1 = false then (.refused .orphan, written.2)
      else
        match readIndexFile w written.2.files with
        | .error r => (.refused r, written.2)
        | .ok index =>
            match index.active.lookup receipt with
            | none => (.refused .orphan, written.2)
            | some e =>
                let active := Assoc.set receipt (e.follow (m.link work)) index.active
                let indexed := written.2.put fails .index (some (w.indexBytes { index with active }))
                (if indexed.1 then .linked else .refused .orphan, indexed.2)

/-- `_commit_source_link`: its outcome and the files behind it. -/
def commitSourceLink : Outcome × Disk :=
  match boardLinkProposal w d work receipt with
  | .refused r => (.refused r, d)
  | .alreadyLinked =>
      let linked := relinkAuthorities w work receipt fails ⟨d, 0⟩
      (linked.1, linked.2.files)
  | .planned text details =>
      match d .board with
      | none => (.refused .orphan, d)
      | some before =>
          let detailed := writeAll fails (details.map fun x => (File.detail x.1, x.2)) [(.board, some before)] ⟨d, 0⟩
          if detailed.1 = false then (.refused .orphan, detailed.2.2.files)
          else
            let projected := detailed.2.2.put fails .board (some (encodeCheckpoint before text))
            if projected.1 = false then (.refused .orphan, projected.2.files)
            else
              let undo := (.index, projected.2.files .index) ::
                (.metadata receipt, projected.2.files (.metadata receipt)) :: detailed.2.1
              let linked := relinkAuthorities w work receipt fails projected.2
              match linked.1 with
              | .refused r => (.refused r, (rollBack fails undo linked.2).files)
              | outcome => (outcome, linked.2.files)

end Saipen.SourceLink
