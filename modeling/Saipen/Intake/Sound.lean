import Saipen.Intake.Coverage

/-! # Sound ledgers

What the validator accepts, clause by clause, and when a ledger it accepts decodes: the validator lets an
entry wait for an environment and lets its flag be the number one, which the summary does not. -/

namespace Saipen.Intake

open Checks Text

/-! ### Sound clauses -/

/-- A clause of the Contract and its entry in the ledger as the validator wants them. -/
structure SoundClause (receiptId rid : String) (clause entry : Dict) : Prop where
  named : isClauseId receiptId rid = true
  structured : isStructured clause = true
  flagged : isFlagged clause = true
  clauseKeys : clause.hasKeys clauseFields = true
  entryKeys : entry.hasKeys entryFields = true
  copied : ∀ field ∈ clauseFields, (entry.valueAt field).same (clause.valueAt field) = true
  disposed : (entry.valueAt "disposition").str?.any (· ∈ allDispositions) = true
  evidenced : isProof (entry.valueAt "evidence") = true
  verified : isProof (entry.valueAt "verification") = true

theorem dict?_eq_some {j : Json} {d : Dict} : j.dict? = some d ↔ j = .obj d := by
  cases j <;> simp [Json.dict?]

theorem validateClause_eq_ok {receiptId rid : String} {requirements : Dict} {j : Json} {u : Unit} :
    validateClause receiptId requirements rid j = .ok u ↔
      ∃ clause entry, j = .obj clause ∧ requirements.valueAt rid = .obj entry ∧
        SoundClause receiptId rid clause entry := by
  unfold validateClause
  simp only [bind_eq_ok, refuseIf_eq_ok, orRefuse_eq_ok, dict?_eq_some, Bool.not_eq_false',
    List.all_eq_true]
  constructor
  · rintro ⟨-, hname, clause, rfl, entry, hentry, -, hs, -, hf, -, hck, -, hek, -, hcopy, -, hd, -, he, hv⟩
    exact ⟨clause, entry, rfl, hentry, hname, hs, hf, hck, hek, hcopy, hd, he, hv⟩
  · rintro ⟨clause, entry, rfl, hentry, hsound⟩
    exact ⟨(), hsound.named, clause, rfl, entry, hentry, (), hsound.structured, (), hsound.flagged, (),
      hsound.clauseKeys, (), hsound.entryKeys, (), hsound.copied, (), hsound.disposed, (),
      hsound.evidenced, hsound.verified⟩

/-- The clauses of a Contract and the entries of its ledger are the same, and each pair is sound. -/
def SoundLedger (receiptId : String) (clauses requirements : Dict) : Prop :=
  clauses.sameKeys requirements = true ∧ ∀ rid j, clauses.get rid = some j →
    ∃ clause entry, j = .obj clause ∧ requirements.get rid = some (.obj entry) ∧
      SoundClause receiptId rid clause entry

theorem valueAt_eq_obj {d e : Dict} {k : String} : d.valueAt k = .obj e ↔ d.get k = some (.obj e) := by
  unfold Dict.valueAt
  cases d.get k <;> simp

theorem validateContractCoverage_eq_ok {receiptId : String} {contract coverage : Dict} {u : Unit} :
    validateContractCoverage receiptId contract coverage = .ok u ↔
      ∃ clauses requirements, contract.valueAt "clauses" = .obj clauses ∧
        coverage.valueAt "requirements" = .obj requirements ∧
        SoundLedger receiptId clauses requirements := by
  unfold validateContractCoverage
  simp only [bind_eq_ok, refuseIf_eq_ok, orRefuse_eq_ok, dict?_eq_some, Bool.not_eq_false', forM_eq_ok,
    validateClause_eq_ok, Prod.forall, Dict.mem_items, valueAt_eq_obj, SoundLedger]
  constructor
  · rintro ⟨clauses, hc, requirements, hr, -, hkeys, hall⟩
    exact ⟨clauses, requirements, hc, hr, hkeys, hall⟩
  · rintro ⟨clauses, requirements, hc, hr, hkeys, hall⟩
    exact ⟨clauses, hc, requirements, hr, (), hkeys, hall⟩

/-! ### An intact receipt -/

/-- The Contract and the ledger that `contractIntegrity` has read and bound to each other. -/
structure Intact (receiptId : String) (metadata : Dict) (s : Shelf)
    (contract ledger clauses requirements : Dict) : Prop where
  readsContract : s.readContract = .ok (some contract)
  readsLedger : s.readCoverage = .ok ledger
  digest : (contract.valueAt "source_sha256").same (metadata.valueAt "source_sha256") = true
  holdsClauses : contract.valueAt "clauses" = .obj clauses
  holdsRequirements : ledger.valueAt "requirements" = .obj requirements
  sound : SoundLedger receiptId clauses requirements
  revisions : s.contractRevisionIntegrity receiptId contract = .ok ()

theorem contractIntegrity_eq_ok {receiptId : String} {metadata : Dict} {s : Shelf} {u : Unit} :
    s.contractIntegrity receiptId metadata = .ok u ↔
      ∃ contract ledger clauses requirements,
        Intact receiptId metadata s contract ledger clauses requirements := by
  unfold Shelf.contractIntegrity
  simp only [bind_eq_ok, refuseIf_eq_ok, orRefuse_eq_ok, dict?_eq_some, mapError_eq_ok, Bool.or_eq_false_iff,
    Bool.not_eq_false', validateContractCoverage_eq_ok]
  constructor
  · rintro ⟨_, hcontract, contract, rfl, -, ⟨-, hdigest⟩, ledger, hledger, clauses, hclauses, requirements,
      hreqs, -, -, -, ⟨clauses', reqs', hc, hr, hsound⟩, hrev⟩
    exact ⟨contract, ledger, clauses', reqs', hcontract, hledger, hdigest, hc, hr, hsound, hrev⟩
  · rintro ⟨contract, ledger, clauses, requirements, h⟩
    have hne : contract.isEmpty = false := by
      have hclauses := h.holdsClauses
      cases contract with
      | nil => cases hclauses
      | cons => rfl
    exact ⟨_, h.readsContract, contract, rfl, (), ⟨hne, h.digest⟩, ledger, h.readsLedger, clauses,
      h.holdsClauses, requirements, h.holdsRequirements, (), h.sound.1, (), ⟨clauses, requirements,
      h.holdsClauses, h.holdsRequirements, h.sound⟩, h.revisions⟩

/-! ### Ledgers that decode -/

/-- What an entry needs beside the validator's checks for the ledger to decode: a flag that is a boolean,
and not to wait for an environment, which takes fields the validator refuses. -/
def Readable (entry : Dict) : Prop :=
  (∃ flag, entry.valueAt "actionable" = .bool flag) ∧
    entry.valueAt "disposition" ≠ .str "UNAVAILABLE_ENVIRONMENT"

variable {receiptId rid : String} {clause entry : Dict}

theorem str?_any {j : Json} {p : String → Bool} :
    j.str?.any p = true ↔ ∃ t, j = .str t ∧ p t = true := by
  cases j <;> simp [Json.str?]

theorem isFullText_iff {j : Json} : isFullText j = true ↔ ∃ t, j = .str t ∧ strip t ≠ "" := by
  rw [isFullText, str?_any]
  simp

/-- An absent field of an entry. -/
theorem SoundClause.absent (h : SoundClause receiptId rid clause entry) {field : String}
    (hfield : field ∉ entryFields) : entry.get field = none := by
  rw [← Option.not_isSome_iff_eq_none]
  exact fun hsome => hfield ((Dict.hasKeys_iff.mp h.entryKeys field).mp hsome)

/-- A field every entry has. -/
theorem SoundClause.present (h : SoundClause receiptId rid clause entry) {field : String}
    (hfield : field ∈ entryFields) : entry.get field = some (entry.valueAt field) := by
  have hsome := (Dict.hasKeys_iff.mp h.entryKeys field).mpr hfield
  unfold Dict.valueAt
  obtain ⟨j, hj⟩ := Option.isSome_iff_exists.mp hsome
  rw [hj, Option.getD_some]

/-- The class of an entry is the class of its clause. -/
theorem SoundClause.class_eq (h : SoundClause receiptId rid clause entry) :
    ∃ name ∈ clauseClasses, clause.valueAt "class" = .str name ∧ entry.valueAt "class" = .str name := by
  have hs := h.structured
  rw [isStructured, Bool.and_eq_true, str?_any] at hs
  obtain ⟨⟨name, hclass, hmem⟩, -⟩ := hs
  have hsame := h.copied "class" (by decide)
  rw [hclass, Json.same_str_iff] at hsame
  exact ⟨name, of_decide_eq_true hmem, hclass, hsame⟩

/-- The text of an entry is the text of its clause. -/
theorem SoundClause.text_eq (h : SoundClause receiptId rid clause entry) :
    ∃ text, strip text ≠ "" ∧ clause.valueAt "text" = .str text ∧ entry.valueAt "text" = .str text := by
  have hs := h.structured
  rw [isStructured, Bool.and_eq_true, isFullText_iff] at hs
  obtain ⟨-, text, htext, hfull⟩ := hs
  have hsame := h.copied "text" (by decide)
  rw [htext, Json.same_str_iff] at hsame
  exact ⟨text, hfull, htext, hsame⟩

/-- The flag of an entry, where it is a boolean, is the one its class asks for. -/
theorem SoundClause.flag_eq (h : SoundClause receiptId rid clause entry) {flag : Bool}
    (hflag : entry.valueAt "actionable" = .bool flag) : flag = asksForWork entry := by
  obtain ⟨name, -, hclause, hentry⟩ := h.class_eq
  have hflagged := h.flagged
  rw [isFlagged, beq_iff_eq, hclause] at hflagged
  have hsame := h.copied "actionable" (by decide)
  rw [hflag, hflagged, Json.same_bool, beq_iff_eq] at hsame
  rw [hsame, asksForWork, hentry]

theorem decodeEntry_iff (h : SoundClause receiptId rid clause entry) :
    decodeEntry receiptId rid (.obj entry) = .ok () ↔ Readable entry := by
  obtain ⟨name, hname, -, hclass⟩ := h.class_eq
  obtain ⟨text, -, -, htext⟩ := h.text_eq
  have henv : entry.valueAt "when_environment" = .null := by
    rw [Dict.valueAt, h.absent (by decide), Option.getD_none]
  have hproof : isAbsenceProof .null (entry.valueAt "environment_evidence") = false := by
    rw [Dict.valueAt, h.absent (by decide), Option.getD_none]
    rfl
  have hdisp : dispositionOf entry = entry.valueAt "disposition" := by
    rw [dispositionOf, h.present (by decide), Option.getD_some]
  have hflagged : (entry.get "actionable").getD (.bool (asksForWork entry)) = entry.valueAt "actionable" := by
    rw [h.present (by decide), Option.getD_some]
  have hwaits : (dispositionOf entry == .str "UNAVAILABLE_ENVIRONMENT" &&
      !isAbsenceProof (entry.valueAt "when_environment") (entry.valueAt "environment_evidence")) = false ↔
      entry.valueAt "disposition" ≠ .str "UNAVAILABLE_ENVIRONMENT" := by
    rw [hdisp, henv, hproof, Bool.not_false, Bool.and_true, beq_eq_false_iff_ne]
  unfold decodeEntry
  simp only [bind_eq_ok, refuseIf_eq_ok, orRefuse_eq_ok, dict?_eq_some, Bool.not_eq_false', beq_iff_eq]
  constructor
  · rintro ⟨_, heq, -, -, -, -, -, hflag, -, -, -, -, -, -, -, -, hwait⟩
    obtain rfl := Json.obj.inj heq
    rw [hflagged] at hflag
    exact ⟨⟨_, hflag⟩, hwaits.mp hwait⟩
  · rintro ⟨⟨flag, hflag⟩, hwait⟩
    obtain rfl := h.flag_eq hflag
    refine ⟨entry, rfl, (), h.named, (), ?_, (), hflagged.trans hflag, (), ?_, (), h.evidenced, (),
      h.verified, (), ?_, hwaits.mpr hwait⟩
    · rw [hclass, htext, Json.str?_str, Json.str?_str, Option.any_some, Option.isSome_some, Bool.and_true]
      exact decide_eq_true hname
    · rw [hdisp, h.disposed]
    · rw [henv]
      rfl

/-- A sound entry has a standing: it names no class of evidence. -/
theorem SoundClause.standing_ok (h : SoundClause receiptId rid clause entry) :
    ∃ st, standing entry = .ok st := by
  have hclass : ∀ field ∉ entryFields, ∀ otherwise, classOf (entry.valueAt field) otherwise =
      .ok (upper otherwise) := by
    intro field hfield otherwise
    rw [Dict.valueAt, h.absent hfield, Option.getD_none]
    rfl
  simp only [standing, hclass "required_evidence_class" (by decide),
    hclass "actual_evidence_class" (by decide)]
  split_ifs <;> exact ⟨_, rfl⟩

/-- A ledger bound to its Contract decodes when each of its entries is readable. -/
theorem coverageSummary_iff {clauses requirements ledger : Dict}
    (hsound : SoundLedger receiptId clauses requirements)
    (hreqs : ledger.valueAt "requirements" = .obj requirements) :
    (∃ summary, coverageSummaryFromLedger receiptId ledger = .ok summary) ↔
      ∀ rid entry, requirements.get rid = some (.obj entry) → Readable entry := by
  have hpair : ∀ {rid j}, requirements.get rid = some j →
      ∃ clause entry, j = .obj entry ∧ SoundClause receiptId rid clause entry := by
    intro rid j hj
    have hsome := (Dict.sameKeys_iff.mp hsound.1 rid).mpr (Option.isSome_of_mem hj)
    obtain ⟨c, hc⟩ := Option.isSome_iff_exists.mp hsome
    obtain ⟨clause, entry, -, hentry, hs⟩ := hsound.2 rid c hc
    exact ⟨clause, entry, Option.some.inj (hj.symm.trans hentry), hs⟩
  unfold coverageSummaryFromLedger
  simp only [bind_eq_ok, orRefuse_eq_ok, dict?_eq_some, forM_eq_ok, pure_eq_ok, Prod.forall, Dict.mem_items]
  constructor
  · rintro ⟨_, reqs, hreqs', -, hall, -⟩ rid entry hentry
    obtain rfl := Json.obj.inj (hreqs.symm.trans hreqs')
    obtain ⟨clause, entry', heq, hs⟩ := hpair hentry
    obtain rfl := Json.obj.inj heq
    exact (decodeEntry_iff hs).mp (hall rid _ hentry)
  · intro hread
    have hstandings : ∀ named ∈ (requirements.items.map fun field => (field.1, field.2.dict?.getD [])).filter
        (fun named => ((named.2.get "actionable").getD (.bool (asksForWork named.2))).truthy),
        ∃ b, ((named.1, ·) <$> standing named.2 : Except String (String × Standing)) = .ok b := by
      intro named hmem
      obtain ⟨hmem, -⟩ := List.mem_filter.mp hmem
      obtain ⟨⟨rid, j⟩, hitem, rfl⟩ := List.mem_map.mp hmem
      obtain ⟨clause, entry, rfl, hs⟩ := hpair (Dict.mem_items.mp hitem)
      obtain ⟨st, hst⟩ := hs.standing_ok
      exact ⟨(rid, st), by show (rid, ·) <$> standing entry = _; rw [hst]; rfl⟩
    obtain ⟨standings, hst⟩ := exists_mapM hstandings
    refine ⟨_, requirements, hreqs, (), fun rid j hj => ?_, standings, hst, rfl⟩
    obtain ⟨clause, entry, rfl, hs⟩ := hpair hj
    exact (decodeEntry_iff hs).mpr (hread rid entry hj)

end Saipen.Intake
