import Saipen.AuditInbox.Binding

/-! # The gate in front of a deletion

`delete_gate` admits a layer whose current bytes are those of a bound generation, whose receipt is
closed or retired and whose linked Work, if any, is DONE. It reads the binding, the layer, the index
of receipts, the receipt and the board one after the other; what it decides from each read is a
function of its own here. -/

namespace Saipen.AuditInbox

/-! ### What the gate reads -/

/-- The receipt `receipt_for_digest` finds for a digest. -/
structure Receipt where
  receiptId : String
  linkedWork : Option String
  deriving DecidableEq

/-- `intake.status` of a receipt. -/
structure ReceiptStatus where
  status : String
  location : String
  linkedWork : Option String
  deriving DecidableEq

/-- The project as the gate reads it outside the inbox. -/
structure Facts where
  receiptForDigest : String → Option Receipt
  /-- `intake.status`, `none` where it is not ok. -/
  status : String → Option ReceiptStatus
  /-- `_work_is_done` for a ticket id. -/
  workIsDone : String → Bool

/-- What depends on bytes alone. -/
structure Bytes where
  /-- `hashlib.sha256(raw).hexdigest()`. -/
  sha256 : Content → String
  sizeBytes : Content → Int
  /-- Why `snapshot_layer` refuses the bytes: their size, their encoding, no bytes at all. -/
  refuses : Content → Option String

/-- `hash_bytes`: the first sixteen digits of the digest. -/
def Bytes.hashBytes (B : Bytes) (c : Content) : String := String.ofList ((B.sha256 c).toList.take 16)

/-- The answer of `snapshot_layer`. -/
inductive Snapshot where
  | absent
  | invalid (reason : String)
  | ok (content : Content)
  deriving DecidableEq

/-- `snapshot_layer`. -/
def snapshotLayer (B : Bytes) (rel : String) (slot : Slot) : Snapshot :=
  if (layerName rel).isNone then .invalid "noncanonical"
  else
    match slot with
    | .absent => .absent
    | .other _ => .invalid "unsafe-node"
    | .file c =>
      match B.refuses c with
      | some reason => .invalid reason
      | none => .ok c

/-! ### Records -/

/-- The truth value of a field. -/
def isTruthy : Json → Bool
  | .null => false
  | .bool b => b
  | .int n => n ≠ 0
  | .float repr => repr ≠ "0.0" && repr ≠ "-0.0"
  | .str s => s ≠ ""
  | .arr items => !items.isEmpty
  | .obj fields => !fields.isEmpty

/-- A field as text, empty when it is not one. -/
def textField (d : Dict) (key : String) : String := ((d.get key).bind Json.str?).getD ""

/-- A field that counts, if it does. -/
def truthyField (d : Dict) (key : String) : Option Json := (d.get key).filter isTruthy

/-- A text or null. -/
def optText (value : Option String) : Json := value.elim .null .str

/-- The record of a layer in a document, when it is one. -/
def boundRecord (doc : Dict) (rel : String) : Option Dict :=
  match (layersOf doc).get rel with
  | some (.obj record) => some record
  | _ => none

/-- The record of a layer that no binding names but whose digest resolves to a receipt. -/
def derivedRecord (B : Bytes) (rel : String) (c : Content) (receipt : Receipt) : Dict :=
  [("layer", ((layerName rel).bind layerNumber).elim .null fun n => .int n),
    ("generation", .int 1),
    ("file_sha256", .str (B.sha256 c)),
    ("receipt_sha256", .str (B.sha256 c)),
    ("binding", .str "exact"),
    ("size_bytes", .int (B.sizeBytes c)),
    ("receipt_id", .str receipt.receiptId),
    ("linked_work", optText receipt.linkedWork),
    ("state", .str "CLOSED_PENDING_DELETE"),
    ("captured_at", .null),
    ("closed_at", .null)]

/-! ### The decisions -/

/-- What the gate has admitted, so far or in the end: the layer, its record, and the bytes it saw;
no bytes when the layer is already gone. -/
structure Gate where
  rel : String
  record : Dict
  current : Option Content
  /-- The Work that must be DONE. -/
  linkedWork : Option Json
  deriving DecidableEq

/-- `record.get("receipt_id")`. -/
def Gate.receipt (g : Gate) : String := textField g.record "receipt_id"

/-- What the gate does after one of its reads. -/
inductive GateStep where
  | refused (code : String)
  /-- The layer is gone; nothing else is read. -/
  | alreadyAbsent (gate : Gate)
  /-- No record names the layer: its digest is looked up. -/
  | derive (content : Content)
  /-- The receipt is read next. -/
  | askStatus (gate : Gate)
  /-- The board is read next. -/
  | askWork (gate : Gate) (work : Json)
  | ready (gate : Gate)
  deriving DecidableEq

/-- The gate behind the read of the layer. -/
def gateSnapshot (B : Bytes) (rel : String) (doc : Dict) (slot : Slot) : GateStep :=
  match boundRecord doc rel, snapshotLayer B rel slot with
  | none, .ok c => .derive c
  | none, _ => .refused "AUDIT_NOT_BOUND"
  | some record, snap =>
    if textField record "receipt_id" = "" then .refused "AUDIT_NOT_BOUND"
    else
      match snap with
      | .absent => .alreadyAbsent ⟨rel, record, none, none⟩
      | .invalid _ => .refused "AUDIT_LAYER_INVALID"
      | .ok c =>
        if B.sha256 c = textField record "file_sha256" then
          .askStatus ⟨rel, record, some c, none⟩
        else .refused "AUDIT_GENERATION_CHANGED"

/-- The gate behind the index of receipts. -/
def gateDerive (B : Bytes) (rel : String) (c : Content) (facts : Facts) : GateStep :=
  match facts.receiptForDigest (B.sha256 c) with
  | none => .refused "AUDIT_NOT_BOUND"
  | some receipt =>
    if receipt.receiptId = "" then .refused "AUDIT_NOT_BOUND"
    else .askStatus ⟨rel, derivedRecord B rel c receipt, some c, none⟩

/-- Whether a receipt is closed or retired. -/
def ReceiptStatus.isClosed (st : ReceiptStatus) : Bool :=
  st.status = "CLOSED" || st.location = "retired"

/-- `status_out.get("linked_work") or record.get("linked_work")`, when it counts. -/
def linkedWork (st : ReceiptStatus) (record : Dict) : Option Json :=
  match st.linkedWork.filter (· ≠ "") with
  | some work => some (.str work)
  | none => truthyField record "linked_work"

/-- The gate behind the receipt. -/
def gateStatus (g : Gate) (facts : Facts) : GateStep :=
  match facts.status g.receipt with
  | none => .refused "SOURCE_CORRUPTION"
  | some st =>
    if st.isClosed then
      match linkedWork st g.record with
      | none => .ready g
      | some work => .askWork { g with linkedWork := some work } work
    else .refused "SOURCE_UNRESOLVED"

/-- `_work_is_done`. -/
def Facts.workDone (facts : Facts) : Json → Bool
  | .str work => facts.workIsDone work
  | _ => false

/-- The gate behind the board. -/
def gateWork (g : Gate) (work : Json) (facts : Facts) : GateStep :=
  if facts.workDone work then .ready g else .refused "SOURCE_UNRESOLVED"

/-! ### What consuming writes into the binding -/

/-- `record["state"] = DELETED`, closed at the moment it was or now. -/
def settledRecord (record : Dict) (utc : String) : Dict :=
  (record.set "state" (.str "DELETED")).set "closed_at"
    ((truthyField record "closed_at").getD (.str utc))

/-! ### What a gate that admitted a layer has found -/

/-- A moment of the project: its files and what is read about receipts and Work. -/
structure Moment where
  files : FileTree.Path → Slot
  facts : Facts

/-- A record of the layer: the one in the binding, or the one its digest resolves to. -/
def Moment.Binds (m : Moment) (B : Bytes) (rel : String) (c : Content) (record : Dict) : Prop :=
  (m.files bindingPath).layers.get rel = some (.obj record) ∨
    ∃ receipt, m.facts.receiptForDigest (B.sha256 c) = some receipt ∧
      record = derivedRecord B rel c receipt

/-- The bytes of a layer are those of a binding whose receipt has been closed or retired and whose
linked Work, if any, has been DONE. -/
def Proven (B : Bytes) (past : List Moment) (rel : String) (c : Content) : Prop :=
  ∃ record, (∃ m ∈ past, m.Binds B rel c record) ∧
    textField record "file_sha256" = B.sha256 c ∧
    ∃ m ∈ past, ∃ st, m.facts.status (textField record "receipt_id") = some st ∧
      st.isClosed = true ∧
      ∀ work, linkedWork st record = some work → ∃ m ∈ past, m.facts.workDone work = true

/-- What is proven stays proven. -/
theorem Proven.mono {B : Bytes} {past past' : List Moment} {rel : String} {c : Content}
    (h : Proven B past rel c) (hsub : past ⊆ past') : Proven B past' rel c := by
  obtain ⟨record, ⟨m, hm, hbinds⟩, hdigest, m', hm', st, hst, hclosed, hwork⟩ := h
  refine ⟨record, ⟨m, hsub hm, hbinds⟩, hdigest, m', hsub hm', st, hst, hclosed, ?_⟩
  intro work hlinked
  obtain ⟨n, hn, hdone⟩ := hwork work hlinked
  exact ⟨n, hsub hn, hdone⟩

/-- A record in the document that is read stands in the binding. -/
theorem boundRecord_eq_some {doc : Dict} {rel : String} {record : Dict}
    (h : boundRecord doc rel = some record) : (layersOf doc).get rel = some (.obj record) := by
  unfold boundRecord at h
  split at h
  · next r heq =>
    obtain rfl := Option.some.inj h
    exact heq
  · cases h

theorem layerName_of_snapshot {B : Bytes} {rel : String} {slot : Slot} {c : Content}
    (h : snapshotLayer B rel slot = .ok c) : (layerName rel).isSome ∧ slot = .file c := by
  unfold snapshotLayer at h
  split_ifs at h with hname
  split at h
  · cases h
  · cases h
  · split at h
    · cases h
    · obtain rfl := Snapshot.ok.inj h
      exact ⟨by simpa [Option.isSome_iff_ne_none] using hname, rfl⟩

end Saipen.AuditInbox
