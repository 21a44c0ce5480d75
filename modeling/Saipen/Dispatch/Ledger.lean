import Saipen.Replay
import Saipen.Text.Codec

/-! # The dispatch ledger

The lifecycle of every dispatch is kept in three files: an append-only journal of transitions, a
checkpoint into which the journal is folded when it has grown, and the mirror of accepted keys from
before there was a journal. Where the source raises `LedgerCorruptError`, nothing is returned here. -/

namespace Saipen.Dispatch

open Text Replay

/-- What the ledger takes from JSON and SHA-256. A record `ν` is a dictionary as Python compares it. -/
structure Format (ν δ : Type) where
  /-- `json.dumps` raises nothing. -/
  writable : String → ν → Bool
  /-- `json.dumps` of a transition, without the newline behind it. -/
  dumps : String → ν → Bytes
  /-- `json.loads` of a line, as far as it is a keyed transition; the record where it is a dictionary. -/
  loads : Bytes → Option (String × Option ν)
  sha256 : Bytes → δ
  /-- The status of a record is HOST_ACCEPTED, TURN_STARTED, TURN_COMPLETED or ACKNOWLEDGED. -/
  accepted : ν → Bool
  /-- The record of a key that is known from the mirror only. -/
  migrated : ν
  /-- The size of a checkpoint with these records. -/
  checkpointSize : List (String × ν) → ℕ

/-- What holds of JSON: a line is read back, it is one line that begins with a brace, and behind a text
that begins with a brace it is no JSON any more. -/
structure Format.Lawful {ν δ : Type} (F : Format ν δ) : Prop where
  loads_dumps : ∀ k r, F.writable k r = true → F.loads (F.dumps k r ++ [10]) = some (k, some r)
  newline : ∀ k r, F.writable k r = true → 10 ∉ F.dumps k r
  carriage : ∀ k r, F.writable k r = true → 13 ∉ F.dumps k r
  brace : ∀ k r, F.writable k r = true → (F.dumps k r).head? = some 123
  glued : ∀ t k r, F.writable k r = true → t.head? = some 123 → F.loads (t ++ F.dumps k r ++ [10]) = none

structure Checkpoint (ν δ : Type) where
  records : List (String × ν)
  absorbedBytes : ℕ
  absorbedSha256 : δ
deriving DecidableEq

/-- The three files; a journal that is missing is an empty one. -/
structure Disk (ν δ : Type) where
  checkpoint : Option (Checkpoint ν δ)
  journal : Bytes
  legacy : List String
deriving DecidableEq

/-- `MAX_JOURNAL_RECORD_BYTES`. -/
def maxJournalRecordBytes : ℕ := 256 * 1024

/-- `JOURNAL_COMPACT_BYTES`. -/
def journalCompactBytes : ℕ := 256 * 1024

variable {ν δ : Type} (F : Format ν δ)

/-! ### Reading -/

/-- `bytes.splitlines(keepends=True)`, behind what was read of a line. -/
def linesFrom (line : Bytes) : Bytes → List Bytes
  | [] => if line = [] then [] else [line]
  | b :: rest =>
      if b = 10 then (line ++ [b]) :: linesFrom [] rest
      -- a carriage return ends a line, unless a newline follows it
      else if line.getLast? = some 13 then line :: linesFrom [b] rest
      else linesFrom (line ++ [b]) rest

/-- `not line.strip()`. -/
def isBlank (line : Bytes) : Bool := line.all fun b => b = 32 || (9 ≤ b && b ≤ 13)

/-- What `_read_journal` finds: the transitions, and the length of an incomplete last one. -/
structure Journal (ν : Type) where
  rows : List (String × Option ν)
  tornBytes : ℕ

/-- The loop of `_read_journal`. -/
def readRows : List Bytes → Option (Journal ν)
  | [] => some ⟨[], 0⟩
  | line :: rest =>
      if line.getLast? ≠ some 10 then some ⟨[], line.length⟩
      else if isBlank line then readRows rest
      else if maxJournalRecordBytes < line.length then none
      else
        match F.loads line with
        | none => none
        | some row => (readRows rest).map fun j => { j with rows := row :: j.rows }

/-- `_read_journal`. -/
def readJournal (bytes : Bytes) : Option (Journal ν) := readRows F (linesFrom [] bytes)

/-- `_apply_journal`. -/
def applyJournal (records : List (String × ν)) : List (String × Option ν) → Option (List (String × ν))
  | [] => some records
  | (_, none) :: _ => none
  | (k, some r) :: rows => applyJournal (Assoc.set k r records) rows

/-- `_migrate_legacy_ledger`: the keys of the mirror that are not known otherwise. -/
def migrateLegacyLedger (legacy known : List String) : List (String × ν) :=
  (legacy.filter fun k => k ≠ "" && k ∉ known).map fun k => (k, F.migrated)

/-- How many transitions of the journal the checkpoint holds already. -/
def replayedFrom [DecidableEq δ] (c : Checkpoint ν δ) (bytes : Bytes) : ℕ :=
  if c.absorbedBytes ≠ 0 ∧ bytes ≠ [] ∧ F.sha256 (bytes.take c.absorbedBytes) = c.absorbedSha256 then
    (bytes.take c.absorbedBytes).count 10
  else 0

/-- `_read_checkpoint`. -/
def readCheckpoint (d : Disk ν δ) : Checkpoint ν δ := d.checkpoint.getD ⟨[], 0, F.sha256 []⟩

/-- `_load_dispatch_ledger`. -/
def loadDispatchLedger [DecidableEq δ] (d : Disk ν δ) : Option (List (String × ν)) :=
  (readJournal F d.journal).bind fun j =>
    (applyJournal (readCheckpoint F d).records
      (j.rows.drop (replayedFrom F (readCheckpoint F d) d.journal))).map fun records =>
        replay records (migrateLegacyLedger F d.legacy (j.rows.map Prod.fst ++ records.map Prod.fst))

/-! ### Writing -/

/-- The line of a transition. -/
def transitionLine (row : String × ν) : Bytes := F.dumps row.1 row.2 ++ [10]

/-- `_compaction_threshold`. -/
def compactionThreshold (checkpointBytes : ℕ) : ℕ := max journalCompactBytes checkpointBytes

/-- `_write_legacy_mirror`. -/
def legacyMirror (ledger : List (String × ν)) : List String :=
  ((ledger.filter fun row => F.accepted row.2).map Prod.fst).mergeSort fun a b => decide (a ≤ b)

/-- What `_checkpoint_journal` leaves behind after each of its writes. -/
def checkpointJournal (d : Disk ν δ) (ledger : List (String × ν)) : List (Disk ν δ) :=
  match readJournal F d.journal with
  | none => []
  | some j =>
    let body := d.journal.take (d.journal.length - j.tornBytes)
    let c : Checkpoint ν δ := ⟨ledger, body.length, F.sha256 body⟩
    [{ d with checkpoint := some c }, { d with checkpoint := some c, journal := [] },
      ⟨some c, [], legacyMirror F ledger⟩]

/-- What `_commit_transition` leaves behind after each of its writes, the last being the end of it. -/
def commitTransition (d : Disk ν δ) (ledger : List (String × ν)) (k : String) (r : ν) : List (Disk ν δ) :=
  if F.writable k r = false ∨ maxJournalRecordBytes < (transitionLine F (k, r)).length then []
  else
    let appended := { d with journal := d.journal ++ transitionLine F (k, r) }
    if compactionThreshold (d.checkpoint.elim 0 fun c => F.checkpointSize c.records) ≤
        appended.journal.length then
      appended :: checkpointJournal F appended (Assoc.set k r ledger)
    else [appended]

/-! ### What is read of what was written -/

variable {F}

/-- The lines of transitions. -/
def linesOf (F : Format ν δ) (rows : List (String × ν)) : Bytes := rows.flatMap (transitionLine F)

@[simp] theorem linesOf_nil : linesOf F [] = [] := rfl

@[simp] theorem linesOf_cons (row : String × ν) (rows : List (String × ν)) :
    linesOf F (row :: rows) = F.dumps row.1 row.2 ++ 10 :: linesOf F rows := by
  simp [linesOf, transitionLine]

theorem linesOf_concat (rows : List (String × ν)) (row : String × ν) :
    linesOf F (rows ++ [row]) = linesOf F rows ++ transitionLine F row := by
  simp [linesOf]

/-- A line without a break is read up to the newline behind it. -/
theorem linesFrom_line {body : Bytes} (rest : Bytes) :
    ∀ {line : Bytes}, 13 ∉ line → 10 ∉ body → 13 ∉ body →
      linesFrom line (body ++ 10 :: rest) = (line ++ body ++ [10]) :: linesFrom [] rest := by
  induction body with
  | nil =>
    intro line hline hten hcarriage
    simp [linesFrom]
  | cons b body ih =>
    intro line hline hten hcarriage
    rw [List.mem_cons, not_or] at hten hcarriage
    have hlast : line.getLast? ≠ some 13 := fun h => hline (List.mem_of_getLast? h)
    have hnext : 13 ∉ line ++ [b] := by
      simp [hline, hcarriage.1]
    rw [List.cons_append, linesFrom, if_neg (Ne.symm hten.1), if_neg hlast, ih hnext hten.2 hcarriage.2]
    simp

/-- What follows the last newline is read as an incomplete line. -/
theorem linesFrom_torn {t : Bytes} : ∀ {line : Bytes}, 13 ∉ line → 10 ∉ t → 13 ∉ t →
    linesFrom line t = if line ++ t = [] then [] else [line ++ t] := by
  induction t with
  | nil =>
    intro line hline hten hcarriage
    simp [linesFrom]
  | cons b t ih =>
    intro line hline hten hcarriage
    rw [List.mem_cons, not_or] at hten hcarriage
    have hlast : line.getLast? ≠ some 13 := fun h => hline (List.mem_of_getLast? h)
    have hnext : 13 ∉ line ++ [b] := by
      simp [hline, hcarriage.1]
    rw [linesFrom, if_neg (Ne.symm hten.1), if_neg hlast, ih hnext hten.2 hcarriage.2]
    simp

/-- Each row can be written, and within the limit of a line. -/
def Fits (F : Format ν δ) (rows : List (String × ν)) : Prop :=
  ∀ row ∈ rows, F.writable row.1 row.2 = true ∧ (transitionLine F row).length ≤ maxJournalRecordBytes

/-- A text that begins with a brace is not blank. -/
theorem isBlank_of_brace {t : Bytes} (h : t.head? = some 123) (rest : Bytes) : isBlank (t ++ rest) = false := by
  obtain ⟨t', rfl⟩ := List.head?_eq_some_iff.mp h
  simp [isBlank]

/-- **A journal is read back**, but for an append that was torn. -/
theorem readJournal_linesOf (hF : F.Lawful) {rows : List (String × ν)} (hfits : Fits F rows) {t : Bytes}
    (hten : 10 ∉ t) (hcarriage : 13 ∉ t) :
    readJournal F (linesOf F rows ++ t) =
      some ⟨rows.map fun row => (row.1, some row.2), t.length⟩ := by
  induction rows with
  | nil =>
    rw [readJournal, linesOf_nil, List.nil_append, linesFrom_torn (by simp) hten hcarriage, List.nil_append]
    split_ifs with ht
    · simp [readRows, ht]
    · have hlast : t.getLast? ≠ some 10 := fun h => hten (List.mem_of_getLast? h)
      rw [readRows, if_pos hlast, List.map_nil]
  | cons row rows ih =>
    have hrest : readJournal F (linesOf F rows ++ t) = _ := ih fun r hr => hfits r (List.mem_cons_of_mem _ hr)
    obtain ⟨hwrite, hfit⟩ := hfits row List.mem_cons_self
    rw [transitionLine] at hfit
    rw [readJournal] at hrest
    rw [readJournal, linesOf_cons, List.append_assoc, List.cons_append,
      linesFrom_line _ (by simp) (hF.newline _ _ hwrite) (hF.carriage _ _ hwrite), List.nil_append, readRows,
      if_neg (by simp), if_neg (by simp [isBlank_of_brace (hF.brace _ _ hwrite)]),
      if_neg (by omega), hF.loads_dumps _ _ hwrite, hrest]
    rfl

/-- **An append behind a torn one cannot be read.** -/
theorem readJournal_glued (hF : F.Lawful) {rows : List (String × ν)} (hfits : Fits F rows) {t : Bytes}
    (hten : 10 ∉ t) (hcarriage : 13 ∉ t) (hbrace : t.head? = some 123) {row : String × ν}
    (hrow : F.writable row.1 row.2 = true) :
    readJournal F (linesOf F rows ++ t ++ transitionLine F row) = none := by
  induction rows with
  | nil =>
    have hbody : linesOf F ([] : List (String × ν)) ++ t ++ transitionLine F row =
        (t ++ F.dumps row.1 row.2) ++ 10 :: [] := by
      simp [transitionLine]
    rw [readJournal, hbody, linesFrom_line _ (by simp) (by simp [hten, hF.newline _ _ hrow])
      (by simp [hcarriage, hF.carriage _ _ hrow]), List.nil_append, readRows, if_neg (by simp), List.append_assoc,
      if_neg (by simp [isBlank_of_brace hbrace])]
    split_ifs with hlong
    · rfl
    · rw [← List.append_assoc, hF.glued t _ _ hrow hbrace]
  | cons first rows ih =>
    have hrest := ih fun r hr => hfits r (List.mem_cons_of_mem _ hr)
    obtain ⟨hwrite, hfit⟩ := hfits first List.mem_cons_self
    rw [transitionLine] at hfit
    have hbody : linesOf F (first :: rows) ++ t ++ transitionLine F row =
        F.dumps first.1 first.2 ++ 10 :: (linesOf F rows ++ t ++ transitionLine F row) := by
      simp
    rw [readJournal] at hrest
    rw [readJournal, hbody, linesFrom_line _ (by simp) (hF.newline _ _ hwrite)
      (hF.carriage _ _ hwrite), List.nil_append, readRows, if_neg (by simp),
      if_neg (by simp [isBlank_of_brace (hF.brace _ _ hwrite)]), if_neg (by omega),
      hF.loads_dumps _ _ hwrite, hrest]
    rfl

theorem applyJournal_rows (records rows : List (String × ν)) :
    applyJournal records (rows.map fun row => (row.1, some row.2)) = some (replay records rows) := by
  induction rows generalizing records with
  | nil => rfl
  | cons row rows ih => exact ih _

theorem lookup_migrate {legacy known : List String} (records : List (String × ν)) {k : String} :
    (replay records (migrateLegacyLedger F legacy known)).lookup k =
      if k ∈ legacy ∧ k ≠ "" ∧ k ∉ known then some F.migrated else records.lookup k := by
  rw [migrateLegacyLedger, lookup_replay_const]
  simp

end Saipen.Dispatch
