import Saipen.Assoc
import Saipen.Journal.Hash
import Mathlib.Data.List.Sort

/-! # Append ledgers

A controlling source has a ledger of its appends, one file `SRC-###.json` under `intake/appends`. Routing
looks at all of them through `pending_append_projection`. -/

namespace Saipen.SourceAppend

/-! ### Entries -/

/-- `LEDGER_STATES`. -/
inductive EntryState where
  | received
  | projected
  | superseded
deriving DecidableEq

/-- The way of an entry through its states. -/
def EntryState.rank : EntryState → Nat
  | .received => 0
  | .projected => 1
  | .superseded => 2

/-- An entry of a ledger. -/
structure Entry where
  receipt : String
  seq : Nat
  klass : String
  delta : String
  supersedes : List String
  label : String
  state : EntryState
  receivedAt : String
  sourceSha256 : Option String
  derivedClauses : List String
  work : List String
  rewind : Option (String × String × String)
  projectedAt : Option String
  steps : List String
  supersededBy : Option String
  createdWork : Option String
  superseded : List String
  requestWitness : Option String
deriving DecidableEq

/-- The `appends` of a ledger. -/
structure Ledger where
  appends : List Entry
deriving DecidableEq

/-- `_entry`. -/
def Ledger.entry (l : Ledger) (receipt : String) : Option Entry := l.appends.find? (·.receipt = receipt)

/-- The ledger after a change of the entry that `_entry` finds. -/
def Ledger.update (l : Ledger) (receipt : String) (f : Entry → Entry) : Ledger :=
  ⟨l.appends.modify (l.appends.findIdx (·.receipt = receipt)) f⟩

/-! ### Files -/

/-- The ledger files: what each of them decodes to, or why it does not. -/
abbrev Directory := List (String × Except String Ledger)

/-- `read_ledger`. -/
def readLedger (d : Directory) (source : String) : Except String Ledger :=
  match d.lookup source with
  | none => .ok ⟨[]⟩
  | some file => file

/-- `_write_ledger`. -/
def writeLedger (d : Directory) (source : String) (l : Ledger) : Directory := Assoc.set source (.ok l) d

/-- A ledger as `ledgers` lists it. -/
structure Listed where
  source : String
  appends : List Entry
  error : Option String

/-- `ledgers`. -/
def ledgers (d : Directory) : List Listed :=
  (sortByName d).map fun file =>
    match readLedger d file.1 with
    | .ok l => ⟨file.1, l.appends, none⟩
    | .error e => ⟨file.1, [], some e⟩

/-- `find_append`. -/
def findAppend (d : Directory) (receipt : String) : Option (String × Entry) :=
  (ledgers d).findSome? fun l => ((Ledger.mk l.appends).entry receipt).map (l.source, ·)

/-! ### Observation -/

/-- A received append with the source it amends. -/
structure Pending where
  entry : Entry
  source : String

/-- The order of `pending_appends`. -/
def Pending.before (x y : Pending) : Bool :=
  if x.entry.receivedAt ≠ y.entry.receivedAt then x.entry.receivedAt ≤ y.entry.receivedAt
  else if x.source ≠ y.source then x.source ≤ y.source
  else x.entry.seq ≤ y.entry.seq

/-- `pending_appends`. -/
def pendingAppends (d : Directory) : List Pending :=
  ((ledgers d).flatMap fun l => (l.appends.filter (·.state = .received)).map (⟨·, l.source⟩)).mergeSort Pending.before

/-- What routing is told. -/
structure Projection where
  action : String
  receipt : String
  source : String
  pending : Nat
  detail : String

/-- `pending_append_projection`. -/
def pendingAppendProjection (d : Directory) : Option Projection :=
  match pendingAppends d with
  | [] => none
  | first :: rest => some {
      action := "saipen source apply-append " ++ first.entry.receipt
      receipt := first.entry.receipt
      source := first.source
      pending := rest.length + 1
      detail := "operational append " ++ first.entry.receipt ++ " to " ++ first.source ++ " is durable but " ++
        "not yet projected into the mission; project it before continuing" }

/-! ### What the observation misses -/

variable {d : Directory} {name source receipt : String} {l : Ledger}

theorem mem_sortByName {β : Type} {files : List (String × β)} {file : String × β} :
    file ∈ sortByName files ↔ file ∈ files :=
  (List.perm_insertionSort _ files).mem_iff

/-- Routing is told nothing when no ledger that decodes has a received append. -/
theorem pendingAppendProjection_eq_none_iff : pendingAppendProjection d = none ↔
    ∀ file ∈ d, ∀ l, readLedger d file.1 = .ok l → ∀ e ∈ l.appends, e.state ≠ .received := by
  have hnil : pendingAppendProjection d = none ↔ pendingAppends d = [] := by
    rw [pendingAppendProjection]
    cases pendingAppends d <;> simp
  rw [hnil, pendingAppends, ← List.length_eq_zero_iff, List.length_mergeSort, List.length_eq_zero_iff,
    List.flatMap_eq_nil_iff, ledgers, List.forall_mem_map]
  constructor
  · intro h file hfile l hread e he hreceived
    have hempty := h file (mem_sortByName.mpr hfile)
    rw [hread, List.map_eq_nil_iff, List.filter_eq_nil_iff] at hempty
    exact hempty e he (decide_eq_true hreceived)
  · intro h file hfile
    rw [List.map_eq_nil_iff, List.filter_eq_nil_iff]
    cases hread : readLedger d file.1 with
    | error e => simp
    | ok l =>
      intro e he hreceived
      exact h file (mem_sortByName.mp hfile) l hread e he (of_decide_eq_true hreceived)

/-- A ledger file of the directory decodes. -/
def Decodes (d : Directory) (name : String) : Prop := ∃ l, readLedger d name = .ok l

/-- Nothing is pending only where every ledger decodes and has no received append. -/
def ObservationSound (d : Directory) : Prop :=
  pendingAppendProjection d = none →
    ∀ file ∈ d, ∃ l, readLedger d file.1 = .ok l ∧ ∀ e ∈ l.appends, e.state ≠ .received

/-- The observation is sound when every ledger decodes, or one that decodes has a received append. -/
theorem observationSound_iff : ObservationSound d ↔ (∀ file ∈ d, Decodes d file.1) ∨
    ∃ file ∈ d, ∃ l, readLedger d file.1 = .ok l ∧ ∃ e ∈ l.appends, e.state = .received := by
  rw [ObservationSound, pendingAppendProjection_eq_none_iff]
  constructor
  · intro h
    by_cases hnone : ∀ file ∈ d, ∀ l, readLedger d file.1 = .ok l → ∀ e ∈ l.appends, e.state ≠ .received
    · refine .inl fun file hfile => ?_
      obtain ⟨l, hl, -⟩ := h hnone file hfile
      exact ⟨l, hl⟩
    · push Not at hnone
      exact .inr hnone
  · rintro (h | ⟨file, hfile, l, hl, e, he, hreceived⟩) hnone
    · intro file hfile
      obtain ⟨l, hl⟩ := h file hfile
      exact ⟨l, hl, hnone file hfile l hl⟩
    · exact absurd hreceived (hnone file hfile l hl e he)

/-! ### Reading after a change -/

theorem readLedger_writeLedger : readLedger (writeLedger d source l) source = .ok l := by
  rw [readLedger, writeLedger, Assoc.lookup_set, if_pos rfl]

theorem readLedger_writeLedger_of_ne (hne : name ≠ source) :
    readLedger (writeLedger d source l) name = readLedger d name := by
  rw [readLedger, writeLedger, Assoc.lookup_set, if_neg hne, readLedger]

theorem length_update {f : Entry → Entry} : (l.update receipt f).appends.length = l.appends.length :=
  List.length_modify ..

variable (receipt) in
/-- An entry after a change is the entry there was, or its image. -/
theorem getElem?_update (f : Entry → Entry) {i : Nat} {e : Entry} (h : l.appends[i]? = some e) :
    (l.update receipt f).appends[i]? = some e ∨
      l.entry receipt = some e ∧ (l.update receipt f).appends[i]? = some (f e) := by
  rw [Ledger.update, List.getElem?_modify, h]
  by_cases hi : l.appends.findIdx (·.receipt = receipt) = i
  · refine .inr ⟨?_, by simp [hi]⟩
    rw [Ledger.entry, List.find?_eq_getElem?_findIdx, hi, h]
  · exact .inl (by simp [hi])

end Saipen.SourceAppend
