import Saipen.Journal.Snapshot
import Saipen.Text.Repr
import Saipen.Text.Stamp
import Mathlib.Data.List.MinMax
import Mathlib.Data.List.Sort
import Mathlib.Data.Prod.Lex
import Mathlib.Data.String.Basic

/-! # The convergence verdict

`convergence_verdict` looks for five committed receipts, one for each stage from the test gate `E` to the
final forced hunt `I`. It takes the latest `I`, the latest `H` before it, and so on back to `E`, and then
checks what these five are bound to. -/

namespace Saipen.Convergence

open Text

/-! ### What is read off a receipt -/

/-- A source identity: the head and the fingerprint of the tree. -/
structure Identity where
  head : String
  tree : String
deriving DecidableEq

/-- `(record.get("receipt_metadata") or {}).get(key)`, which the journal keeps a text. -/
def field (key : String) (r : Record) : Option String :=
  match r.receiptMetadata.get.bind (Dict.get · key) with
  | some (.str s) => some s
  | _ => none

/-- The stage a receipt is of. -/
def stage (r : Record) : Option String := field "stage" r

/-- `_event_number`: -1 where there is no event. -/
def eventNumber (r : Record) : Int :=
  match literal "E-".toList ((field "event_id" r).getD "").toList with
  | some cs =>
      match number? (cs.takeWhile isDecimal) with
      | some n => n
      | none => -1
  | none => -1

/-- The instant, the event and the operation, in this order. -/
abbrev ChronoKey := Int ×ₗ Int ×ₗ String

/-- Keys are compared part by part. -/
instance chronoOrder : LinearOrder ChronoKey :=
  @Prod.Lex.instLinearOrder Int (Int ×ₗ String) Int.instLinearOrder
    (@Prod.Lex.instLinearOrder Int String Int.instLinearOrder String.instLinearOrder)

instance : Preorder ChronoKey := chronoOrder.toPartialOrder.toPreorder

/-- `_chrono_key`. A receipt without an instant is never compared. -/
def chronoKey (r : Record) : ChronoKey :=
  toLex ((isoUtcSortKey r.createdAt).getD 0, toLex (eventNumber r, r.opId))

/-- Both parts of an identity, when they are there. -/
def identity? (head tree : Option String) : Option Identity :=
  match head, tree with
  | some h, some t => if h = "" ∨ t = "" then none else some ⟨h, t⟩
  | _, _ => none

/-- `_identity_of`: the source a stage ran on. -/
def identityOf (r : Record) : Option Identity :=
  identity? (field "source_head" r) (field "source_tree_fingerprint" r)

/-- The source that CLEAN left behind. -/
def resultOf (r : Record) : Option Identity :=
  identity? (field "resulting_source_head" r) (field "resulting_source_tree_fingerprint" r)

/-! ### Stages -/

/-- `STAGE_VERDICTS`. -/
def stageVerdicts : List (String × List String) :=
  [("E", ["PASS"]), ("F", ["CLEAN"]), ("G", ["COMPLETED", "NOTHING_SAFE_REMAINED"]), ("H", ["PASS"]),
    ("I", ["CLEAN"])]

/-- `STAGE_NAMES`. -/
def stageNames : List (String × String) :=
  [("E", "canonical test/validate gate"), ("F", "forced HUNT"), ("G", "CLEAN"),
    ("H", "post-clean test/validate gate"), ("I", "final forced HUNT")]

/-- The name of a stage, or the stage itself. -/
def stageName (wanted : String) : String := (stageNames.lookup wanted).getD wanted

/-- The closed outcomes of the stage of a receipt. -/
def allowedVerdicts (r : Record) : List String := ((stage r).bind fun s => stageVerdicts.lookup s).getD []

/-- Whether a receipt carries a closed passing verdict of its stage. -/
def passes (r : Record) : Bool := (field "verdict" r).any (· ∈ allowedVerdicts r)

/-- The filter of `_stage_receipts`. -/
def isStageReceipt (r : Record) : Bool :=
  r.operation = "convergence_stage" ∧ r.status = .committed ∧ (isoUtcSortKey r.createdAt).isSome ∧
    field "operation" r = some "convergence_stage" ∧ field "status" r = some "COMMITTED" ∧
      0 ≤ eventNumber r

/-- `_stage_receipts`: oldest first. -/
def stageReceipts (records : List Record) : List Record :=
  (records.filter isStageReceipt).insertionSort fun a b => chronoKey a ≤ chronoKey b

/-- `_pick_latest`: the latest receipt of a stage before another one. -/
def pickLatest (receipts : List Record) (wanted : String) (before : Record) : Option Record :=
  (receipts.filter fun r => stage r = some wanted ∧ chronoKey r < chronoKey before).argmax chronoKey

/-! ### The verdict -/

/-- `ConvergenceVerdict`. -/
structure Verdict where
  ok : Bool
  reasons : List String
  stages : List Record
  source : Option Identity
  attributionProblems : List String

/-- A verdict that names no chain. -/
def refused (source : Option Identity) (reasons : List String) : Verdict := ⟨false, reasons, [], source, []⟩

/-- What `_pick_latest` reports. -/
def missingStage (wanted : String) (before : Record) : String :=
  "missing convergence stage " ++ wanted ++ " (" ++ stageName wanted ++ ") before " ++ before.opId

/-- The first characters of a text. -/
def clip (n : Nat) (s : String) : String := String.ofList (s.toList.take n)

/-- A reason, where it applies. -/
def reason (fault : Prop) [Decidable fault] (text : String) : List String := if fault then [text] else []

/-- What is wrong with the verdict of a receipt. -/
def verdictFaults (p : Printable) (r : Record) : List String :=
  reason (passes r = false) ("stage " ++ (stage r).getD "None" ++ " verdict " ++
    ((field "verdict" r).map (reprStr p)).getD "None" ++ " is not a closed " ++
    ((stage r).map stageName).getD "None" ++ " outcome (" ++ ", ".intercalate (allowedVerdicts r) ++ ")")

/-- What is wrong with the sources the receipts of a chain are bound to. -/
def sourceFaults (f g : Record) (s₀ gh s₁ : Identity) : List String :=
  reason (identityOf f ≠ some s₀) ("forced HUNT binds a different source identity than the canonical test " ++
    "gate -- a main-source mutation between E and F breaks the chain") ++
  reason (gh ≠ s₀) ("CLEAN input identity differs from the E/F identity -- CLEAN must run on the source the " ++
    "test gate and forced HUNT proved") ++
  match resultOf g with
  | none => ["CLEAN receipt lacks its resulting source identity"]
  | some result => reason (result ≠ s₁) ("CLEAN resulting identity differs from the H/I identity -- " ++
      "post-clean evidence must bind the post-CLEAN tree")

/-- What is decided about five receipts that are there. -/
def judge (p : Printable) (e f g h i : Record) (live : Identity) (attribution : List String) : Verdict :=
  let chain := [e, f, g, h, i]
  if ¬ (chain.map chronoKey).Pairwise (· < ·) then
    refused (some live) ["convergence receipts do not satisfy strict E<F<G<H<I chronology"]
  else
    match identityOf e, identityOf g, identityOf h with
    | some s₀, some gh, some s₁ =>
        -- the source compares the identity of H with `s₁`, which it has just read off H
        let reasons := sourceFaults f g s₀ gh s₁ ++
          reason (identityOf h ≠ some s₁) ("post-clean test gate binds a different source identity than the " ++
            "final forced HUNT -- a mutation between H and I breaks the chain") ++
          chain.flatMap (verdictFaults p) ++ attribution
        ⟨reasons.isEmpty, reasons, chain, some live, attribution⟩
    | _, _, _ => refused (some live) ["convergence stage receipt lacks a bound source identity"]

/-- The walk back from the latest final hunt. -/
def walkBack (p : Printable) (receipts : List Record) (i : Record) (live : Identity)
    (attribution : List String) : Verdict :=
  let h := pickLatest receipts "H" i
  let g := pickLatest receipts "G" (h.getD i)
  let f := pickLatest receipts "F" (g.getD i)
  let e := pickLatest receipts "E" (f.getD i)
  match e, f, g, h with
  | some e, some f, some g, some h => judge p e f g h i live attribution
  | _, _, _, _ => refused (some live) (reason (h = none) (missingStage "H" i) ++
      reason (g = none) (missingStage "G" (h.getD i)) ++ reason (f = none) (missingStage "F" (g.getD i)) ++
      reason (e = none) (missingStage "E" (f.getD i)))

/-- `convergence_verdict`, of the receipts that were read, the live source and what is wrong with the
attribution of the tree. -/
def convergenceVerdict (p : Printable) (s : Snapshot) (live : Identity) (attribution : List String) : Verdict :=
  if s.errors ≠ [] then
    refused none ["operation receipt corruption: " ++ "; ".intercalate (s.errors.take 3)]
  else
    let receipts := stageReceipts s.records
    if receipts = [] then
      refused (some live) ["no canonical convergence stage evidence -- E-I (test/HUNT/CLEAN/post-clean " ++
        "test/final HUNT) must be recorded against the current source identity; DONE + empty board is not " ++
        "convergence proof"]
    else
      match (receipts.filter fun r => stage r = some "I").getLast? with
      | none => refused (some live) ["missing final forced HUNT (I) -- the closure sweep must run after " ++
          "CLEAN and post-clean tests"]
      | some i =>
          match identityOf i with
          | none => refused (some live) ["final forced HUNT receipt lacks a bound source identity"]
          | some bound =>
              if bound ≠ live then
                refused (some live) ["final forced HUNT binds source " ++ clip 12 bound.head ++ "/" ++
                  clip 16 bound.tree ++ " but the CURRENT source is " ++ clip 12 live.head ++ "/" ++
                  clip 16 live.tree ++ " -- a main-source mutation after the final HUNT invalidates the " ++
                  "fixed point"]
              else walkBack p receipts i live attribution

end Saipen.Convergence
