import Saipen.Intake.Sound
import Saipen.Intake.Writers

/-! # A batch of clauses and the next revision

The clauses of a batch stand behind the old ones, sound when they name no environment. The Contract that
holds them becomes the last revision of its chain, which asks more of it than the checks before did. -/

namespace Saipen.Intake

open Checks Text

variable {receiptId rid : String} {clause entry : Dict}

/-! ### Adding clauses -/

/-- The clauses of a batch as the Contract has them. -/
def contractFields (cs : List ClauseRequest) : Dict := cs.map fun c => (c.rid, .obj c.contractClause)

/-- The clauses of a batch as the ledger has them. -/
def entryRows (linkedWork : Json) (cs : List ClauseRequest) : Dict :=
  cs.map fun c => (c.rid, .obj (c.entry linkedWork))

/-- A batch that is put in place stands behind what was there, under names that were free. -/
theorem putClauses_eq_ok {linkedWork : Json} {cs : List ClauseRequest} :
    ∀ {clauses requirements : Dict} {after : Dict × Dict}, clauses.sameKeys requirements = true →
    putClauses linkedWork cs (clauses, requirements) = .ok after →
      after = (clauses ++ contractFields cs, requirements ++ entryRows linkedWork cs) ∧
        (∀ c ∈ cs, clauses.get c.rid = none ∧ requirements.get c.rid = none) ∧ (cs.map (·.rid)).Nodup := by
  induction cs with
  | nil =>
    intro clauses requirements after _ h
    rw [putClauses] at h
    obtain rfl := Except.ok.inj h
    exact ⟨by simp [contractFields, entryRows], (fun c hc => by cases hc), List.nodup_nil⟩
  | cons c cs ih =>
    intro clauses requirements after hkeys h
    rw [putClauses, bind_eq_ok] at h
    obtain ⟨_, hfree, h⟩ := h
    rw [refuseIf_eq_ok, Option.isSome_eq_false_iff, Option.isNone_iff_eq_none] at hfree
    have hfree' : clauses.get c.rid = none := by
      rw [← Option.not_isSome_iff_eq_none, Dict.sameKeys_iff.mp hkeys, hfree]
      simp
    have hput : ∀ (d : Dict) (j : Json), d.get c.rid = none → d.set c.rid j = d ++ [(c.rid, j)] :=
      fun d j hd => Assoc.set_of_notMem j (Assoc.notMem_iff_lookup.mpr hd)
    have hkeys' : (clauses.set c.rid (.obj c.contractClause)).sameKeys
        (requirements.set c.rid (.obj (c.entry linkedWork))) = true := by
      rw [Dict.sameKeys_iff]
      intro k
      rw [Dict.get_set, Dict.get_set]
      split_ifs
      · exact Iff.rfl
      · exact Dict.sameKeys_iff.mp hkeys k
    obtain ⟨hafter, hrest, hnodup⟩ := ih hkeys' h
    refine ⟨?_, ?_, ?_⟩
    · rw [hafter, hput _ _ hfree, hput _ _ hfree', List.append_assoc, List.append_assoc]
      rfl
    · rw [List.forall_mem_cons]
      refine ⟨⟨hfree', hfree⟩, fun c' hc' => ?_⟩
      obtain ⟨h₁, h₂⟩ := hrest c' hc'
      rw [Dict.get_set] at h₁ h₂
      split_ifs at h₁ h₂
      exact ⟨h₁, h₂⟩
    · rw [List.map_cons, List.nodup_cons]
      refine ⟨fun hmem => ?_, hnodup⟩
      obtain ⟨c', hc', hrid⟩ := List.mem_map.mp hmem
      have hnone := (hrest c' hc').1
      rw [hrid, Dict.get_set_self] at hnone
      cases hnone

/-- A clause of the batch under its name. -/
theorem get_batch {β : Type} {cs : List ClauseRequest} (hnodup : (cs.map (·.rid)).Nodup)
    (f : ClauseRequest → β) {c : ClauseRequest} (hc : c ∈ cs) :
    (cs.map fun c => (c.rid, f c)).lookup c.rid = some (f c) := by
  refine (Assoc.mem_iff_lookup ?_ c.rid (f c)).mp (List.mem_map_of_mem (f := fun c => (c.rid, f c)) hc)
  rw [List.map_map]
  exact hnodup

theorem of_get_batch {β : Type} {cs : List ClauseRequest} {f : ClauseRequest → β} {k : String} {b : β}
    (h : (cs.map fun c => (c.rid, f c)).lookup k = some b) : ∃ c ∈ cs, c.rid = k ∧ f c = b := by
  obtain ⟨c, hc, heq⟩ := List.mem_map.mp (Assoc.mem_of_lookup h)
  obtain ⟨rfl, rfl⟩ := Prod.mk.inj heq
  exact ⟨c, hc, rfl, rfl⟩

/-- A clause as `validateRequirementClauses` leaves it. -/
structure NormalClause (receiptId : String) (c : ClauseRequest) : Prop where
  named : isClauseId receiptId c.rid = true
  full : strip c.text ≠ ""
  classed : c.clauseClass ∈ clauseClasses
  environment : ∀ name, c.whenEnvironment = some name → name ≠ ""

theorem validateRequirementClauses_eq_ok {items cs : List ClauseRequest}
    (h : validateRequirementClauses receiptId items = .ok cs) :
    cs = items.map (·.complete receiptId) ∧ ∀ c ∈ cs, NormalClause receiptId c := by
  unfold validateRequirementClauses at h
  simp only [bind_eq_ok] at h
  obtain ⟨-, -, -, -, h⟩ := h
  rw [mapM_eq_ok] at h
  induction h with
  | nil => exact ⟨rfl, fun c hc => by cases hc⟩
  | @cons item c items cs hitem _ ih =>
    obtain ⟨hcs, hnormal⟩ := ih
    unfold normalizeClause at hitem
    simp only [bind_eq_ok, refuseIf_eq_ok, pure_eq_ok, Bool.not_eq_false', decide_eq_false_iff_not,
      not_not, beq_eq_false_iff_ne] at hitem
    obtain ⟨-, hname, -, htext, -, hclass, -, henv, rfl⟩ := hitem
    refine ⟨by rw [hcs, List.map_cons], List.forall_mem_cons.mpr ⟨⟨hname, htext, hclass, ?_⟩, hnormal⟩⟩
    rintro name hgiven rfl
    rw [hgiven, Option.any_some] at henv
    simp [isEnvironmentName] at henv

/-- A clause of a batch is sound when it names no environment. -/
theorem soundClause_iff {c : ClauseRequest} (h : NormalClause receiptId c) (linkedWork : Json) :
    SoundClause receiptId c.rid c.contractClause (c.entry linkedWork) ↔ c.whenEnvironment = none := by
  constructor
  · intro hsound
    by_contra hne
    obtain ⟨name, hname⟩ := Option.ne_none_iff_exists'.mp hne
    have hfield : c.contractClause.get "when_environment" = some (.str name) := by
      simp [ClauseRequest.contractClause, environmentField, hname, h.environment name hname, Dict.get_cons]
    have hkey := (Dict.hasKeys_iff.mp hsound.clauseKeys "when_environment").mp (by rw [hfield]; rfl)
    revert hkey
    decide
  · intro hnone
    have hfield : environmentField c.whenEnvironment = [] := by rw [hnone]; rfl
    have hclause : c.contractClause = [("class", .str c.clauseClass), ("text", .str c.text),
        ("actionable", .bool (c.clauseClass ∈ actionableClasses))] := by
      rw [ClauseRequest.contractClause, hfield, List.append_nil]
    have hentry : c.entry linkedWork = [("class", .str c.clauseClass), ("text", .str c.text),
        ("actionable", .bool (c.clauseClass ∈ actionableClasses)), ("disposition", .str "UNKNOWN"),
        ("work", linkedWork), ("evidence", .null), ("verification", .null)] := by
      rw [ClauseRequest.entry, hfield, List.append_nil]
    rw [hclause, hentry]
    refine ⟨h.named, ?_, ?_, ?_, ?_, ?_, ?_, ?_, ?_⟩
    · simp [isStructured, isFullText, Dict.valueAt, Dict.get_cons, h.classed, h.full]
    · simp [isFlagged, Dict.valueAt, Dict.get_cons]
    · simp [Dict.hasKeys, clauseFields, Dict.get_cons]
    · simp [Dict.hasKeys, clauseFields, entryFields, Dict.get_cons]
    · simp [clauseFields, Dict.valueAt, Dict.get_cons]
    · simp [Dict.valueAt, Dict.get_cons, allDispositions]
    · simp [Dict.valueAt, Dict.get_cons, isProof]
    · simp [Dict.valueAt, Dict.get_cons, isProof]

/-- A ledger with a batch of clauses is sound when none of them names an environment. -/
theorem soundLedger_append_iff {clauses requirements : Dict} {cs : List ClauseRequest} {linkedWork : Json}
    (hsound : SoundLedger receiptId clauses requirements)
    (hfree : ∀ c ∈ cs, clauses.get c.rid = none ∧ requirements.get c.rid = none)
    (hnodup : (cs.map (·.rid)).Nodup) (hnormal : ∀ c ∈ cs, NormalClause receiptId c) :
    SoundLedger receiptId (clauses ++ contractFields cs) (requirements ++ entryRows linkedWork cs) ↔
      ∀ c ∈ cs, c.whenEnvironment = none := by
  have hclause : ∀ c ∈ cs, Dict.get (clauses ++ contractFields cs) c.rid = some (.obj c.contractClause) := by
    intro c hc
    rw [Dict.get_append, (hfree c hc).1, Option.none_or]
    exact get_batch hnodup (fun c => Json.obj c.contractClause) hc
  have hentry : ∀ c ∈ cs, Dict.get (requirements ++ entryRows linkedWork cs) c.rid =
      some (.obj (c.entry linkedWork)) := by
    intro c hc
    rw [Dict.get_append, (hfree c hc).2, Option.none_or]
    exact get_batch hnodup (fun c => Json.obj (c.entry linkedWork)) hc
  constructor
  · intro h c hc
    obtain ⟨clause, entry, heq, hget, hs⟩ := h.2 c.rid _ (hclause c hc)
    obtain rfl := Json.obj.inj heq
    rw [hentry c hc] at hget
    obtain rfl := Json.obj.inj (Option.some.inj hget)
    exact (soundClause_iff (hnormal c hc) linkedWork).mp hs
  · intro hplain
    refine ⟨?_, ?_⟩
    · rw [Dict.sameKeys_iff]
      intro k
      have hbatch : (Dict.get (contractFields cs) k).isSome = true ↔
          (Dict.get (entryRows linkedWork cs) k).isSome = true := by
        rw [Dict.get_isSome_iff, Dict.get_isSome_iff, contractFields, entryRows, List.map_map, List.map_map]
        exact Iff.rfl
      rw [Dict.get_append, Dict.get_append, Option.isSome_or, Option.isSome_or, Bool.or_eq_true,
        Bool.or_eq_true, Dict.sameKeys_iff.mp hsound.1 k, hbatch]
    · intro rid j hj
      rw [Dict.get_append] at hj
      cases hold : clauses.get rid with
      | some i =>
        -- An old clause: its entry stands where it stood.
        rw [hold, Option.some_or] at hj
        obtain rfl := Option.some.inj hj
        obtain ⟨clause, entry, rfl, hget, hs⟩ := hsound.2 rid i hold
        exact ⟨clause, entry, rfl, by rw [Dict.get_append, hget, Option.some_or], hs⟩
      | none =>
        rw [hold, Option.none_or] at hj
        obtain ⟨c, hc, rfl, rfl⟩ := of_get_batch hj
        exact ⟨_, _, rfl, hentry c hc, (soundClause_iff (hnormal c hc) linkedWork).mpr (hplain c hc)⟩

/-! ### The chain of revisions -/

theorem loadObject_eq_ok {file : Document} {maxBytes : Nat} {kind : String} {d : Dict} :
    loadObject file maxBytes kind = .ok d ↔ file.size ≤ maxBytes ∧ file.value = some (.obj d) := by
  unfold loadObject Document.load
  simp only [bind_eq_ok, refuseIf_eq_ok, orRefuse_eq_ok, dict?_eq_some, decide_eq_false_iff_not, not_lt]
  constructor
  · rintro ⟨j, ⟨-, hsize, hvalue⟩, rfl⟩
    exact ⟨hsize, hvalue⟩
  · rintro ⟨hsize, hvalue⟩
    exact ⟨_, ⟨(), hsize, hvalue⟩, rfl⟩

theorem checkRevision_eq_ok {contract : Dict} {revision number : Nat} {found : List (Nat × Document)}
    {u : Unit} :
    checkRevision receiptId contract revision found number = .ok u ↔
      ∃ named ∈ found.find? (·.1 == number), ∃ historical, named.2.size ≤ ledgerMax ∧
        named.2.value = some (.obj historical) ∧
        sameIdentity receiptId contract historical number = true ∧
        (number = revision → contractSemanticsEqual contract historical = true) := by
  unfold checkRevision
  simp only [bind_eq_ok, refuseIf_eq_ok, orRefuse_eq_ok, loadObject_eq_ok, Bool.not_eq_false',
    Option.map_eq_some_iff, Bool.and_eq_false_imp, beq_iff_eq]
  constructor
  · rintro ⟨file, ⟨named, hnamed, rfl⟩, historical, ⟨hsize, hvalue⟩, -, hident, hlast⟩
    exact ⟨named, hnamed, historical, hsize, hvalue, hident, hlast⟩
  · rintro ⟨named, hnamed, historical, hsize, hvalue, hident, hlast⟩
    exact ⟨named.2, ⟨named, hnamed, rfl⟩, historical, ⟨hsize, hvalue⟩, (), hident, hlast⟩

/-- The revisions of a Contract as `contractRevisionIntegrity` has found them. -/
structure Chain (receiptId : String) (contract : Dict) (revisions : List RevisionFile) (n : Nat)
    (found : List (Nat × Document)) : Prop where
  revision : revisionOf contract = some n
  numbered : revisions.mapM (numberOf receiptId) = .ok found
  distinct : (found.map Prod.fst).Nodup
  bounded : ∀ named ∈ found, 1 ≤ named.1 ∧ named.1 ≤ n
  complete : ∀ k ∈ List.range' 1 n, ∃ named ∈ found, named.1 = k
  checked : ∀ k ∈ List.range' 1 n, checkRevision receiptId contract n found k = .ok ()

theorem contractRevisionIntegrity_eq_ok {s : Shelf} {contract : Dict} {u : Unit} :
    s.contractRevisionIntegrity receiptId contract = .ok u ↔
      ∃ n found, Chain receiptId contract s.revisions n found := by
  unfold Shelf.contractRevisionIntegrity
  simp only [bind_eq_ok, refuseIf_eq_ok, orRefuse_eq_ok, forM_eq_ok, Bool.not_eq_false', Bool.and_eq_true,
    List.all_eq_true, List.any_eq_true, beq_iff_eq, decide_eq_true_eq]
  constructor
  · rintro ⟨n, hn, found, hfound, -, hdistinct, -, ⟨hbound, hcomplete⟩, hchecked⟩
    exact ⟨n, found, hn, hfound, hdistinct, hbound, hcomplete, hchecked⟩
  · rintro ⟨n, found, h⟩
    exact ⟨n, h.revision, found, h.numbered, (), h.distinct, (), ⟨h.bounded, h.complete⟩, h.checked⟩

/-- The number of a file the writer names. -/
theorem number?_padded (n : Nat) : number? (padded n).toList = some n := by
  have hzeros : ∀ k, (List.replicate k '0').foldl (fun n c => 10 * n + (digit? c).getD 0) 0 = 0 := by
    intro k
    induction k with
    | zero => rfl
    | succ k ih => rw [List.replicate_succ, List.foldl_cons, show 10 * 0 + (digit? '0').getD 0 = 0 from by decide, ih]
  have hrepr := number?_repr n
  unfold number? at hrepr
  split at hrepr
  case isFalse => cases hrepr
  case isTrue hdigits =>
    rw [padded, String.toList_append, String.toList_ofList, number?, if_pos ?_, toInt, List.foldl_append,
      hzeros]
    · exact hrepr
    · refine ⟨fun hnil => hdigits.1 (List.append_eq_nil_iff.mp hnil).2, ?_⟩
      rw [List.all_append, hdigits.2, Bool.and_true, List.all_eq_true]
      intro c hc
      rw [List.eq_of_mem_replicate hc]
      decide

/-- What a new revision must have of its own: it belongs to its Contract, and is its Contract. -/
def Heads (receiptId : String) (contract : Dict) (n : Nat) : Prop :=
  sameIdentity receiptId contract contract n = true ∧ contractSemanticsEqual contract contract = true

/-- A chain with one more revision. -/
theorem chain_append_iff {contract next : Dict} {revisions : List RevisionFile} {n : Nat}
    {found : List (Nat × Document)} (h : Chain receiptId contract revisions n found)
    (hnext : revisionOf next = some (n + 1))
    (hsource : next.valueAt "source_sha256" = contract.valueAt "source_sha256")
    (hschema : next.valueAt "schema_version" = contract.valueAt "schema_version") {file : Document}
    (hfile : file.value = some (.obj next)) :
    (∃ m found', Chain receiptId next (revisions ++ [⟨.contracts, padded (n + 1), file⟩]) m found') ↔
      file.size ≤ ledgerMax ∧ Heads receiptId next (n + 1) := by
  have hnumber : numberOf receiptId ⟨.contracts, padded (n + 1), file⟩ = .ok (n + 1, file) := by
    unfold numberOf
    simp only [number?_padded, bind_eq_ok, orRefuse_eq_ok, pure_eq_ok]
    exact ⟨n + 1, rfl, rfl⟩
  have hmapM : (revisions ++ [(⟨.contracts, padded (n + 1), file⟩ : RevisionFile)]).mapM
      (numberOf receiptId) = .ok (found ++ [(n + 1, file)]) := mapM_snoc h.numbered hnumber
  have hfresh : ∀ named ∈ found, named.1 ≠ n + 1 := fun named hmem heq => by
    have := (h.bounded named hmem).2
    omega
  have hlast : (found ++ [(n + 1, file)]).find? (·.1 == n + 1) = some (n + 1, file) := by
    rw [List.find?_append, List.find?_eq_none.mpr fun named hmem => by simpa using hfresh named hmem]
    simp
  constructor
  · rintro ⟨m, found', hc⟩
    obtain rfl := Option.some.inj (hnext.symm.trans hc.revision)
    obtain rfl := Except.ok.inj (hmapM.symm.trans hc.numbered)
    have hchecked := hc.checked (n + 1) (by simp)
    rw [checkRevision_eq_ok, hlast] at hchecked
    obtain ⟨named, hnamed, historical, hsize, hvalue, hident, hsem⟩ := hchecked
    obtain rfl := Option.some.inj hnamed
    obtain rfl := Json.obj.inj (Option.some.inj (hfile.symm.trans hvalue))
    exact ⟨hsize, hident, hsem rfl⟩
  · rintro ⟨hsize, hident, hsem⟩
    refine ⟨n + 1, found ++ [(n + 1, file)], hnext, hmapM, ?_, ?_, ?_, ?_⟩
    · rw [List.map_append, List.nodup_append]
      refine ⟨h.distinct, List.nodup_singleton _, fun k hk l hl => ?_⟩
      obtain ⟨named, hmem, rfl⟩ := List.mem_map.mp hk
      rw [List.map_singleton, List.mem_singleton] at hl
      rw [hl]
      exact hfresh named hmem
    · intro named hmem
      rcases List.mem_append.mp hmem with hmem | hmem
      · exact ⟨(h.bounded named hmem).1, (h.bounded named hmem).2.trans (Nat.le_succ n)⟩
      · rw [List.mem_singleton.mp hmem]
        exact ⟨Nat.le_add_left 1 n, le_rfl⟩
    · intro k hk
      by_cases hkn : k = n + 1
      · exact ⟨(n + 1, file), List.mem_append_right _ List.mem_cons_self, hkn.symm⟩
      · rw [List.mem_range'_1] at hk
        obtain ⟨named, hmem, heq⟩ := h.complete k (List.mem_range'_1.mpr (by omega))
        exact ⟨named, List.mem_append_left _ hmem, heq⟩
    · intro k hk
      rw [checkRevision_eq_ok]
      by_cases hkn : k = n + 1
      · subst hkn
        exact ⟨_, hlast, next, hsize, hfile, hident, fun _ => hsem⟩
      · -- An old revision is found where it was, and is bound to what the Contract keeps.
        rw [List.mem_range'_1] at hk
        have hchecked := h.checked k (List.mem_range'_1.mpr (by omega))
        rw [checkRevision_eq_ok] at hchecked
        obtain ⟨named, hnamed, historical, hold, hvalue, hid, -⟩ := hchecked
        refine ⟨named, ?_, historical, hold, hvalue, ?_, fun heq => absurd heq hkn⟩
        · rw [List.find?_append, Option.mem_def.mp hnamed]
          rfl
        · rw [sameIdentity, hsource, hschema]
          exact hid

/-! ### The next revision -/

/-- What a Contract needs to be continued by a revision: no field but its own, a receipt that is this
one, and a schema version that equals itself. -/
structure Renewable (receiptId : String) (contract : Dict) : Prop where
  known : ∀ k, (contract.get k).isSome = true → k ∈ knownFields
  derived : ((contract.get "derived_from").getD (.str receiptId)).same (.str receiptId) = true
  schema : (contract.valueAt "schema_version").same (contract.valueAt "schema_version") = true

theorem all_keys_iff {d : Dict} {keys : List String} :
    (d.all fun field => decide (field.1 ∈ keys)) = true ↔ ∀ k, (d.get k).isSome = true → k ∈ keys := by
  simp only [List.all_eq_true, decide_eq_true_eq, Dict.get_isSome_iff, List.mem_map]
  constructor
  · rintro h k ⟨field, hfield, rfl⟩
    exact h field hfield
  · intro h field hfield
    exact h field.1 ⟨field, hfield, rfl⟩

/-- The fields of the next revision. -/
theorem get_nextContract (contract clauses : Dict) (n : Nat) (utc k : String) :
    (nextContract contract clauses n utc).get k =
      if k = "derived_at" then some (.str utc)
      else if k = "interpretation_revision" then some (.int n)
      else if k = "clauses" then some (.obj clauses) else contract.get k := by
  rw [nextContract, Dict.get_set, Dict.get_set, Dict.get_set]

theorem revisionOf_nextContract (contract clauses : Dict) (n : Nat) (utc : String) :
    revisionOf (nextContract contract clauses n utc) = some n := by
  simp [revisionOf, get_nextContract]

/-- The clauses of a sound ledger are equal to themselves. -/
theorem SoundLedger.same_self {clauses requirements : Dict}
    (h : SoundLedger receiptId clauses requirements) : Json.same (.obj clauses) (.obj clauses) = true := by
  refine Dict.same_self fun rid j hj => ?_
  obtain ⟨clause, entry, rfl, -, hs⟩ := h.2 rid j hj
  refine Dict.same_self fun field i hi => ?_
  have hfield := (Dict.hasKeys_iff.mp hs.clauseKeys field).mp (by rw [hi]; rfl)
  have hvalue : Dict.valueAt clause field = i := by rw [Dict.valueAt, hi, Option.getD_some]
  obtain ⟨name, -, hclass, -⟩ := hs.class_eq
  obtain ⟨text, -, htext, -⟩ := hs.text_eq
  have hflag := hs.flagged
  rw [isFlagged, beq_iff_eq] at hflag
  simp only [clauseFields, List.mem_cons, List.not_mem_nil, or_false] at hfield
  rcases hfield with rfl | rfl | rfl
  · rw [← hvalue, hclass, Json.same_str, beq_self_eq_true]
  · rw [← hvalue, htext, Json.same_str, beq_self_eq_true]
  · rw [← hvalue, hflag, Json.same_bool, beq_self_eq_true]

/-- The next revision heads its chain when the Contract can be continued. -/
theorem heads_nextContract_iff {contract clauses requirements : Dict} {n : Nat} {utc digest : String}
    (hdigest : contract.valueAt "source_sha256" = .str digest)
    (hsound : SoundLedger receiptId clauses requirements) :
    Heads receiptId (nextContract contract clauses n utc) n ↔ Renewable receiptId contract := by
  have hvalue : ∀ k, k ≠ "derived_at" → k ≠ "interpretation_revision" → k ≠ "clauses" →
      (nextContract contract clauses n utc).get k = contract.get k := by
    intro k h₁ h₂ h₃
    rw [get_nextContract, if_neg h₁, if_neg h₂, if_neg h₃]
  have hrevision : (nextContract contract clauses n utc).valueAt "interpretation_revision" = .int n := by
    simp [Dict.valueAt, get_nextContract]
  have hclauses : (nextContract contract clauses n utc).valueAt "clauses" = .obj clauses := by
    simp [Dict.valueAt, get_nextContract]
  have hsource : (nextContract contract clauses n utc).valueAt "source_sha256" = .str digest := by
    rw [Dict.valueAt, hvalue _ (by decide) (by decide) (by decide)]
    exact hdigest
  have hschema : (nextContract contract clauses n utc).valueAt "schema_version" =
      contract.valueAt "schema_version" := by
    rw [Dict.valueAt, hvalue _ (by decide) (by decide) (by decide), Dict.valueAt]
  have hknown : (∀ k, ((nextContract contract clauses n utc).get k).isSome = true → k ∈ knownFields) ↔
      ∀ k, (contract.get k).isSome = true → k ∈ knownFields := by
    refine forall_congr' fun k => ?_
    by_cases h₁ : k = "derived_at"
    · subst h₁; exact iff_of_true (fun _ => by decide) fun _ => by decide
    by_cases h₂ : k = "interpretation_revision"
    · subst h₂; exact iff_of_true (fun _ => by decide) fun _ => by decide
    by_cases h₃ : k = "clauses"
    · subst h₃; exact iff_of_true (fun _ => by decide) fun _ => by decide
    rw [hvalue k h₁ h₂ h₃]
  have hderived : ∀ j : Json, j.same (.str receiptId) = true → j.same j = true := by
    intro j hj
    rw [Json.same_str_iff.mp hj, Json.same_str, beq_self_eq_true]
  unfold Heads sameIdentity contractSemanticsEqual
  rw [hrevision, hsource, hschema, hvalue "receipt_id" (by decide) (by decide) (by decide),
    hvalue "derived_from" (by decide) (by decide) (by decide), Bool.and_self]
  simp only [Bool.and_eq_true, all_keys_iff, hknown, Json.same_int_self, Json.same_str, beq_self_eq_true,
    and_true]
  constructor
  · rintro ⟨⟨⟨-, hfrom⟩, hself⟩, hkeys, -⟩
    exact ⟨hkeys, hfrom, hself⟩
  · rintro ⟨hkeys, hfrom, hself⟩
    have hnone : contract.get "receipt_id" = none := by
      rw [← Option.not_isSome_iff_eq_none]
      exact fun hsome => absurd (hkeys _ hsome) (by decide)
    refine ⟨⟨⟨?_, hfrom⟩, hself⟩, hkeys, ?_⟩
    · rw [hnone, Option.getD_none, Json.same_str, beq_self_eq_true]
    · rw [List.all_eq_true]
      intro field hfield
      simp only [semanticFields, List.mem_cons, List.not_mem_nil, or_false] at hfield
      rcases hfield with rfl | rfl | rfl | rfl | rfl
      · rw [hschema]; exact hself
      · rw [Dict.valueAt, hvalue _ (by decide) (by decide) (by decide)]
        cases hget : contract.get "derived_from" with
        | none => rfl
        | some j =>
          rw [hget, Option.getD_some] at hfrom
          exact hderived j hfrom
      · rw [hsource, Json.same_str, beq_self_eq_true]
      · rw [hrevision, Json.same_int_self]
      · rw [hclauses]; exact hsound.same_self

end Saipen.Intake
