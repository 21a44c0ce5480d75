import Saipen.Journal.Identity

/-! # The semantic receipt snapshot

`semanticReceiptSnapshot` captures both receipt namespaces, decodes every capture and merges them by
operation id: a damaged or disagreeing copy retracts what an earlier one contributed. The decode memo
of the settled projection may answer for settled captures whose bytes it has seen. -/

namespace Saipen

open FileTree

variable (env : Environment)

/-- The state of the merge: the records by operation id, the errors, and the ids found corrupt. -/
structure Merge where
  results : List (String × Record)
  errors : List String
  corrupt : List String

namespace Merge

/-- Nothing scanned yet. -/
def empty : Merge := ⟨[], [], []⟩

/-- Report an operation id as corrupt and retract what it contributed. -/
def reject (m : Merge) (id error : String) : Merge :=
  ⟨Assoc.pop id m.results, m.errors ++ [error], id :: m.corrupt⟩

/-- Merge one decoded record: it is ignored behind a corrupt copy, and a second copy must be a
terminal receipt equivalent to the first. -/
def adopt (m : Merge) (id : String) (r : Record) : Merge :=
  if id ∈ m.corrupt then m
  else match m.results.lookup id with
    | none => { m with results := Assoc.set id r m.results }
    | some existing =>
      if existing.status.settled ∧ r.status.settled ∧ existing.terminalReceiptEquivalent r then
        { m with results := Assoc.set id r m.results }
      else m.reject id ("duplicate op_id " ++ Text.quote id ++
        " across ops/settled with non-equivalent records -- corrupt evidence")

end Merge

/-- The decode memo of the settled projection: what an earlier rebuild decoded, under the bytes it
decoded. -/
def memoLookup (decoded : List ReceiptEntry) (e : ReceiptEntry) : Option Record :=
  match decoded.find? fun c =>
      c.name = e.name ∧ c.structuralError = none ∧ c.manifest = e.manifest ∧
        c.progress = e.progress with
  | some c =>
      match decodeCaptured env c with
      | .ok r => if r.status.settled then some r else none
      | .error _ => none
  | none => none

/-- The record of a capture: from the memo, or through the strict decoder. -/
def recordOf (memo : List ReceiptEntry) (e : ReceiptEntry) : Except Refusal Record :=
  match memoLookup env memo e with
  | some r => .ok r
  | none => decodeCaptured env e

/-- `_scan_receipt_namespace` on one capture. -/
def mergeReceipt (memo : List ReceiptEntry) (m : Merge) (e : ReceiptEntry) : Merge :=
  match e.structuralError with
  | some detail => m.reject e.name (e.name ++ ": " ++ ("CORRUPT_JOURNAL: " ++ detail))
  | none =>
    match recordOf env memo e with
    | .error refused =>
        m.reject e.name (e.name ++ ": " ++ (refused.code.name ++ ": " ++ refused.detail))
    | .ok r => m.adopt (if r.opId = "" then e.name else r.opId) r

/-- `_scan_receipt_namespace`. -/
def scanReceiptNamespace (memo : List ReceiptEntry) (m : Merge) (es : List ReceiptEntry) : Merge :=
  es.foldl (mergeReceipt env memo) m

/-- `SemanticReceiptSnapshot`. -/
structure Snapshot where
  records : List Record
  errors : List String
  corruptOpIds : List String
  digest : String

/-- The binding gate of the snapshot: settled receipts without a lineage are history, every other
receipt must bind to the live project. -/
def bindsToProject (live : Option String) (r : Record) : Bool :=
  (r.projectLineage.get = none && r.status.settled) ||
    (recoveryIdentityBinding env live r matches .ok _)

/-- The sort key of a record: the instant of creation, then the operation id. -/
def recordKey (r : Record) : Nat × String :=
  ((env.strictUtcStamp (Text.strip r.createdAt)).getD 0, r.opId)

/-- Oldest first. -/
def recordBefore (a b : Record) : Bool :=
  (recordKey env a).1 < (recordKey env b).1 ∨
    ((recordKey env a).1 = (recordKey env b).1 ∧ (recordKey env a).2 ≤ (recordKey env b).2)

/-- The captures of the `ops` namespace. -/
def opsCaptures (d : Disk) : List ReceiptEntry := receiptNamespaceEntries "ops" (probe opsPath d)

/-- The captures of the `settled` namespace. -/
def settledCaptures (d : Disk) : List ReceiptEntry :=
  receiptNamespaceEntries "settled" (probe settledPath d)

/-- The merge of both namespaces, `ops` first. -/
def mergeReceipts (memo : List ReceiptEntry) (ops settled : List ReceiptEntry) : Merge :=
  scanReceiptNamespace env memo (scanReceiptNamespace env [] .empty ops) settled

/-- The error that names the receipts excluded by the binding gate. -/
def foreignErrors (foreign : List String) : List String :=
  if foreign = [] then []
  else ["foreign-lineage/identity receipt(s) excluded: " ++
    ", ".intercalate ((foreign.insertionSort (· ≤ ·)).take 5) ++
    (if foreign.length > 5 then "..." else "")]

/-- `semantic_receipt_snapshot`. -/
def semanticReceiptSnapshot (memo : List ReceiptEntry) (d : Disk) : Snapshot :=
  let live := projectLineageIdentity env d
  let ops := opsCaptures d
  let settled := settledCaptures d
  let m := mergeReceipts env memo ops settled
  let bound := m.results.filter fun e => bindsToProject env live e.2
  let foreign := (m.results.filter fun e => ¬ bindsToProject env live e.2).map Prod.fst
  { records := (bound.map Prod.snd).insertionSort fun a b => recordBefore env a b = true
    errors := m.errors ++ foreignErrors foreign
    corruptOpIds := m.corrupt
    digest := "ops-receipt-sha256:" ++ env.digestReceipts
      (ops.map (frameReceipt "ops") ++ settled.map (frameReceipt "settled")) }

/-- `semantic_receipt_digest` of the project. -/
def semanticReceiptDigest (d : Disk) : String := semanticReceiptDigestAt env d env.root

end Saipen
