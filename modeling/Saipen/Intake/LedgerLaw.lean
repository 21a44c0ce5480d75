import Saipen.Intake.Revisions

/-! # What the writers of a ledger leave behind

A clause may wait for an environment, an entry may declare the class of its evidence, and the validator
knows neither field: such a request is answered ok and freezes its receipt. The requests that leave an
intact receipt intact are the ones that write no such field, whatever else they are. -/

namespace Saipen.Intake

open Checks Text

variable {receiptId rid : String} {clause entry : Dict}

/-! ### Requests -/

/-- The fields of the Contract of a receipt. -/
def Shelf.contractDict (s : Shelf) : Dict :=
  match s.readContract with
  | .ok (some contract) => contract
  | _ => []

/-- The fields of the ledger of a receipt. -/
def Shelf.ledgerDict (s : Shelf) : Dict :=
  match s.readCoverage with
  | .ok ledger => ledger
  | .error _ => []

/-- The clauses of the Contract. -/
def Shelf.clauses (s : Shelf) : Dict := (s.contractDict.valueAt "clauses").dict?.getD []

/-- The entries of the ledger. -/
def Shelf.requirements (s : Shelf) : Dict := (s.ledgerDict.valueAt "requirements").dict?.getD []

/-- A request to a writer of the ledger. -/
inductive Request where
  | addRequirements (items : List ClauseRequest)
  | setDisposition (d : Disposal)

/-- The files a request leaves when it is answered ok. -/
def World.answer (w : World) (receiptId : String) : Request → Shelf → Except Refusal Shelf
  | .addRequirements items => w.addRequirements receiptId items
  | .setDisposition d => w.setDisposition receiptId d

/-- The clauses a request is about. -/
def Request.names (receiptId : String) : Request → List String
  | .addRequirements items => items.map fun item => completeId receiptId item.rid
  | .setDisposition d => [completeId receiptId d.rid]

/-- What is claimed of a receipt after a request: it passes its validator and decodes, and the clauses the
request is not about are as they were. -/
structure Kept (receiptId : String) (metadata : Dict) (r : Request) (s s' : Shelf) : Prop where
  integrity : s'.contractIntegrity receiptId metadata = .ok ()
  decodes : ∃ summary, s'.coverageSummary receiptId = .ok summary
  others : ∀ rid ∉ r.names receiptId,
    s'.clauses.get rid = s.clauses.get rid ∧ s'.requirements.get rid = s.requirements.get rid

/-- Whether a value fits into a file of the ledger. -/
def Fits (d : Dict) : Prop := (Document.written (.obj d)).size ≤ ledgerMax

/-- A batch the validator can follow: no clause waits for an environment, the Contract can be continued,
every entry is readable and both files are small enough. -/
structure AddsCleanly (w : World) (receiptId : String) (metadata : Dict) (s : Shelf)
    (items : List ClauseRequest) : Prop where
  plain : ∀ item ∈ items, item.whenEnvironment = none
  renewable : Renewable receiptId s.contractDict
  readable : ∀ rid entry, s.requirements.get rid = some (.obj entry) → Readable entry
  contractFits : Fits (nextContract s.contractDict
    (s.clauses ++ contractFields (items.map (·.complete receiptId)))
    ((revisionOf s.contractDict).getD 0 + 1) w.utc)
  ledgerFits : Fits (s.ledgerDict.set "requirements" (.obj (s.requirements ++
    entryRows (metadata.valueAt "linked_work") (items.map (·.complete receiptId)))))

/-- A text that is not given, empty or not blank. -/
def NotBlank (text : Option String) : Prop := ∀ t, given text = some t → strip t ≠ ""

/-- A disposition the validator can follow: no class of evidence is declared, no text is blank, the entry
has a boolean flag and the others are readable, and the ledger is small enough. -/
structure SettlesCleanly (receiptId : String) (s : Shelf) (d : Disposal) : Prop where
  unclassed : d.evidenceClass = none
  evidence : NotBlank d.evidence
  verification : NotBlank d.verification
  flagged : ∀ entry, s.requirements.get (completeId receiptId d.rid) = some (.obj entry) →
    ∃ flag, Dict.valueAt entry "actionable" = .bool flag
  readable : ∀ rid entry, rid ≠ completeId receiptId d.rid →
    s.requirements.get rid = some (.obj entry) → Readable entry
  fits : ∀ entry, s.requirements.get (completeId receiptId d.rid) = some (.obj entry) →
    Fits (s.ledgerDict.set "requirements"
      (.obj (s.requirements.set (completeId receiptId d.rid) (.obj (d.settle none entry)))))

/-- The condition on a request and on the files before it. -/
def Request.Clean (w : World) (receiptId : String) (metadata : Dict) (s : Shelf) : Request → Prop
  | .addRequirements items => AddsCleanly w receiptId metadata s items
  | .setDisposition d => SettlesCleanly receiptId s d

/-! ### Files that were written -/

variable {metadata contract ledger clauses requirements : Dict} {s s' : Shelf} {w : World}

theorem Intact.contractDict_eq (h : Intact receiptId metadata s contract ledger clauses requirements) :
    s.contractDict = contract := by
  rw [Shelf.contractDict, h.readsContract]

theorem Intact.ledgerDict_eq (h : Intact receiptId metadata s contract ledger clauses requirements) :
    s.ledgerDict = ledger := by
  rw [Shelf.ledgerDict, h.readsLedger]

theorem Intact.clauses_eq (h : Intact receiptId metadata s contract ledger clauses requirements) :
    s.clauses = clauses := by
  rw [Shelf.clauses, h.contractDict_eq, h.holdsClauses]
  rfl

theorem Intact.requirements_eq (h : Intact receiptId metadata s contract ledger clauses requirements) :
    s.requirements = requirements := by
  rw [Shelf.requirements, h.ledgerDict_eq, h.holdsRequirements]
  rfl

theorem readContract_written {d e : Dict} (h : s.contract = some (.written (.obj d))) :
    s.readContract = .ok (some e) ↔ Fits d ∧ e = d := by
  unfold Shelf.readContract
  rw [h]
  show Except.map some (loadObject _ ledgerMax _) = _ ↔ _
  cases hload : loadObject (.written (.obj d)) ledgerMax "source Work Contract" with
  | error refusal =>
    simp only [Except.map, reduceCtorEq, false_iff, not_and]
    rintro hfits rfl
    have hok : loadObject (.written (.obj e)) ledgerMax "source Work Contract" = .ok e :=
      loadObject_eq_ok.mpr ⟨hfits, rfl⟩
    rw [hload] at hok
    cases hok
  | ok e' =>
    obtain ⟨hsize, hvalue⟩ := loadObject_eq_ok.mp hload
    obtain rfl : d = e' := Json.obj.inj (Option.some.inj hvalue)
    simp only [Except.map, Except.ok.injEq, Option.some.injEq]
    exact ⟨fun heq => ⟨hsize, heq.symm⟩, fun heq => heq.2.symm⟩

theorem readCoverage_written {d e reqs : Dict} (h : s.coverage = some (.written (.obj d)))
    (hreqs : d.get "requirements" = some (.obj reqs)) : s.readCoverage = .ok e ↔ Fits d ∧ e = d := by
  unfold Shelf.readCoverage Document.load
  rw [h]
  simp only [bind_eq_ok, refuseIf_eq_ok, orRefuse_eq_ok, dict?_eq_some, pure_eq_ok,
    decide_eq_false_iff_not, not_lt]
  constructor
  · rintro ⟨j, ⟨-, hsize, hvalue⟩, ledger, rfl, -, -, rfl⟩
    exact ⟨hsize, (Json.obj.inj (Option.some.inj hvalue)).symm⟩
  · rintro ⟨hsize, rfl⟩
    exact ⟨_, ⟨(), hsize, rfl⟩, e, rfl, (), by rw [hreqs]; rfl, rfl⟩

theorem Intact.decodes_iff (h : Intact receiptId metadata s contract ledger clauses requirements) :
    (∃ summary, s.coverageSummary receiptId = .ok summary) ↔
      ∀ rid entry, requirements.get rid = some (.obj entry) → Readable entry := by
  rw [← coverageSummary_iff h.sound h.holdsRequirements]
  unfold Shelf.coverageSummary
  rw [h.readsLedger]
  exact Iff.rfl

/-- The digest a verified receipt records is a text. -/
theorem digest_of_verifyIntegrity (hmeta : s.readMeta = .ok (some metadata))
    (h : w.verifyIntegrity receiptId s = .ok ()) :
    ∃ digest, metadata.valueAt "source_sha256" = .str digest := by
  unfold World.verifyIntegrity at h
  simp only [bind_eq_ok, refuseIf_eq_ok, orRefuse_eq_ok, mapError_eq_ok, hmeta, Except.ok.injEq] at h
  obtain ⟨-, -, _, rfl, metadata', heq, -, -, actual, -, hsame⟩ := h
  obtain rfl := Option.some.inj heq
  rw [Bool.not_eq_false', Json.same_str_iff] at hsame
  exact ⟨actual, hsame⟩

/-! ### A batch of clauses -/

/-- The files of a receipt with a batch of clauses. -/
def Shelf.added (s : Shelf) (contract ledger clauses requirements : Dict) (n : Nat) (utc : String) : Shelf :=
  { s with
    contract := some (.written (.obj (nextContract contract clauses n utc)))
    revisions := s.revisions ++
      [⟨.contracts, padded n, .written (.obj (nextContract contract clauses n utc))⟩]
    coverage := some (.written (.obj (ledger.set "requirements" (.obj requirements)))) }

theorem addRequirements_ok {items : List ClauseRequest}
    (h : Intact receiptId metadata s contract ledger clauses requirements)
    (hmeta : s.readMeta = .ok (some metadata)) (hok : w.addRequirements receiptId items s = .ok s') :
    (∃ digest, metadata.valueAt "source_sha256" = .str digest) ∧
      (∀ c ∈ items.map (·.complete receiptId), NormalClause receiptId c) ∧
      (∀ c ∈ items.map (·.complete receiptId), clauses.get c.rid = none ∧ requirements.get c.rid = none) ∧
      ((items.map (·.complete receiptId)).map (·.rid)).Nodup ∧
      s' = s.added contract ledger (clauses ++ contractFields (items.map (·.complete receiptId)))
        (requirements ++ entryRows (metadata.valueAt "linked_work") (items.map (·.complete receiptId)))
        ((revisionOf contract).getD 0 + 1) w.utc := by
  unfold World.addRequirements at hok
  simp only [bind_eq_ok, orRefuse_eq_ok, mapError_eq_ok, hmeta, h.readsLedger, h.readsContract,
    Except.ok.injEq, pure_eq_ok] at hok
  obtain ⟨cs, hcs, _, rfl, metadata', heq, -, -, ⟨⟩, hverify, -, -, _, rfl, _, rfl, contract', heq', -, -,
    after, hput, -, -, -, -, rfl⟩ := hok
  obtain rfl := Option.some.inj heq
  obtain rfl := Option.some.inj heq'
  obtain ⟨rfl, hnormal⟩ := validateRequirementClauses_eq_ok hcs
  rw [h.holdsClauses, h.holdsRequirements] at hput
  obtain ⟨rfl, hfree, hnodup⟩ := putClauses_eq_ok h.sound.1 hput
  exact ⟨digest_of_verifyIntegrity hmeta hverify, hnormal, hfree, hnodup, rfl⟩

theorem get_of_notMem_batch {β : Type} {cs : List ClauseRequest} {f : ClauseRequest → β} {k : String}
    (h : k ∉ cs.map (·.rid)) : (cs.map fun c => (c.rid, f c)).lookup k = none := by
  refine Assoc.notMem_iff_lookup.mp ?_
  rw [List.map_map]
  exact h

/-- **A batch of clauses.** It leaves a receipt that passes its validator exactly when it adds cleanly. -/
theorem kept_addRequirements_iff {items : List ClauseRequest}
    (h : Intact receiptId metadata s contract ledger clauses requirements)
    (hmeta : s.readMeta = .ok (some metadata)) (hok : w.addRequirements receiptId items s = .ok s') :
    Kept receiptId metadata (.addRequirements items) s s' ↔ AddsCleanly w receiptId metadata s items := by
  obtain ⟨⟨digest, hdigest⟩, hnormal, hfree, hnodup, rfl⟩ := addRequirements_ok h hmeta hok
  obtain ⟨n, found, hchain⟩ := contractRevisionIntegrity_eq_ok.mp h.revisions
  have hsource : contract.valueAt "source_sha256" = .str digest :=
    Json.same_str_iff.mp (hdigest ▸ h.digest)
  rw [hchain.revision, Option.getD_some]
  generalize hbatch : items.map (·.complete receiptId) = batch at hnormal hfree hnodup
  generalize hclauses' : clauses ++ contractFields batch = clauses'
  generalize hreqs' : requirements ++ entryRows (metadata.valueAt "linked_work") batch = reqs'
  have hnext : (nextContract contract clauses' (n + 1) w.utc).valueAt "clauses" = .obj clauses' := by
    simp [Dict.valueAt, get_nextContract]
  have hholds : (ledger.set "requirements" (.obj reqs')).valueAt "requirements" = .obj reqs' := by
    rw [Dict.valueAt, Dict.get_set_self, Option.getD_some]
  have hreadC : ∀ {d}, (s.added contract ledger clauses' reqs' (n + 1) w.utc).readContract = .ok (some d) ↔
      Fits (nextContract contract clauses' (n + 1) w.utc) ∧
        d = nextContract contract clauses' (n + 1) w.utc := readContract_written rfl
  have hreadL : ∀ {d}, (s.added contract ledger clauses' reqs' (n + 1) w.utc).readCoverage = .ok d ↔
      Fits (ledger.set "requirements" (.obj reqs')) ∧ d = ledger.set "requirements" (.obj reqs') :=
    readCoverage_written rfl (Dict.get_set_self _ _ _)
  have hsound' : SoundLedger receiptId clauses' reqs' ↔ ∀ c ∈ batch, c.whenEnvironment = none := by
    rw [← hclauses', ← hreqs']
    exact soundLedger_append_iff h.sound hfree hnodup hnormal
  have hplain : (∀ c ∈ batch, c.whenEnvironment = none) ↔ ∀ item ∈ items, item.whenEnvironment = none := by
    rw [← hbatch, List.forall_mem_map]
    exact Iff.rfl
  have hvalue : ∀ k, k ≠ "derived_at" → k ≠ "interpretation_revision" → k ≠ "clauses" →
      (nextContract contract clauses' (n + 1) w.utc).valueAt k = contract.valueAt k := by
    intro k h₁ h₂ h₃
    rw [Dict.valueAt, get_nextContract, if_neg h₁, if_neg h₂, if_neg h₃, Dict.valueAt]
  have hrevs : SoundLedger receiptId clauses' reqs' →
      ((s.added contract ledger clauses' reqs' (n + 1) w.utc).contractRevisionIntegrity receiptId
        (nextContract contract clauses' (n + 1) w.utc) = .ok () ↔
        Fits (nextContract contract clauses' (n + 1) w.utc) ∧ Renewable receiptId contract) := by
    intro hsound
    rw [contractRevisionIntegrity_eq_ok, ← heads_nextContract_iff hsource hsound]
    exact chain_append_iff hchain (revisionOf_nextContract _ _ _ _)
      (hvalue _ (by decide) (by decide) (by decide)) (hvalue _ (by decide) (by decide) (by decide)) rfl
  have hread : ∀ {rid j}, requirements.get rid = some j → Dict.get reqs' rid = some j := by
    intro rid j hj
    rw [← hreqs', Dict.get_append, hj, Option.some_or]
  constructor
  · rintro ⟨hintegrity, hdecodes, -⟩
    obtain ⟨c', l', clauses'', reqs'', hin⟩ := contractIntegrity_eq_ok.mp hintegrity
    obtain ⟨hfitsC, rfl⟩ := hreadC.mp hin.readsContract
    obtain ⟨hfitsL, rfl⟩ := hreadL.mp hin.readsLedger
    obtain rfl := Json.obj.inj (hnext.symm.trans hin.holdsClauses)
    obtain rfl := Json.obj.inj (hholds.symm.trans hin.holdsRequirements)
    rw [hin.decodes_iff] at hdecodes
    refine ⟨hplain.mp (hsound'.mp hin.sound), ?_, ?_, ?_, ?_⟩
    · rw [h.contractDict_eq]
      exact ((hrevs hin.sound).mp hin.revisions).2
    · rw [h.requirements_eq]
      exact fun rid entry hentry => hdecodes rid entry (hread hentry)
    · rw [h.contractDict_eq, h.clauses_eq, hchain.revision, Option.getD_some, hbatch, hclauses']
      exact hfitsC
    · rw [h.ledgerDict_eq, h.requirements_eq, hbatch, hreqs']
      exact hfitsL
  · rintro ⟨hpl, hrenew, hreadable, hfitsC, hfitsL⟩
    rw [h.contractDict_eq] at hrenew
    rw [h.requirements_eq] at hreadable
    rw [h.contractDict_eq, h.clauses_eq, hchain.revision, Option.getD_some, hbatch, hclauses'] at hfitsC
    rw [h.ledgerDict_eq, h.requirements_eq, hbatch, hreqs'] at hfitsL
    have hsound := hsound'.mpr (hplain.mpr hpl)
    have hin : Intact receiptId metadata (s.added contract ledger clauses' reqs' (n + 1) w.utc)
        (nextContract contract clauses' (n + 1) w.utc) (ledger.set "requirements" (.obj reqs')) clauses'
        reqs' := by
      refine ⟨hreadC.mpr ⟨hfitsC, rfl⟩, hreadL.mpr ⟨hfitsL, rfl⟩, ?_, hnext, hholds, hsound,
        (hrevs hsound).mpr ⟨hfitsC, hrenew⟩⟩
      rw [hvalue _ (by decide) (by decide) (by decide)]
      exact h.digest
    refine ⟨contractIntegrity_eq_ok.mpr ⟨_, _, _, _, hin⟩, hin.decodes_iff.mpr ?_, ?_⟩
    · intro rid entry hentry
      rw [← hreqs', Dict.get_append] at hentry
      cases hold : requirements.get rid with
      | some j =>
        rw [hold, Option.some_or] at hentry
        exact hreadable rid entry (hold.trans hentry)
      | none =>
        -- A new entry: its flag is a boolean and its disposition is unknown.
        rw [hold, Option.none_or] at hentry
        obtain ⟨c, hc, -, heq⟩ := of_get_batch hentry
        obtain rfl := Json.obj.inj heq
        exact ⟨⟨_, by simp [ClauseRequest.entry, Dict.valueAt, Dict.get_cons]; rfl⟩,
          by simp [ClauseRequest.entry, Dict.valueAt, Dict.get_cons]⟩
    · intro rid hrid
      have hother : rid ∉ batch.map (·.rid) := by
        rw [← hbatch, List.map_map]
        exact hrid
      rw [hin.clauses_eq, hin.requirements_eq, h.clauses_eq, h.requirements_eq, ← hclauses', ← hreqs',
        Dict.get_append, Dict.get_append]
      constructor
      · rw [show Dict.get (contractFields batch) rid = none from get_of_notMem_batch hother, Option.or_none]
      · rw [show Dict.get (entryRows _ batch) rid = none from get_of_notMem_batch hother, Option.or_none]

/-! ### A disposition -/

/-- The files of a receipt with another entry of the ledger. -/
def Shelf.settled (s : Shelf) (ledger requirements : Dict) (rid : String) (entry : Dict) : Shelf :=
  { s with coverage := some (.written (.obj (ledger.set "requirements"
      (.obj (requirements.set rid (.obj entry)))))) }

/-- No clause of an intact receipt waits for an environment, so none can be waived. -/
theorem environmentProof_ok {d : Disposal} {proof : Option Json}
    (h : Intact receiptId metadata s contract ledger clauses requirements)
    (hclause : clauses.get rid = some (.obj clause)) (hs : SoundClause receiptId rid clause entry)
    (hok : w.environmentProof s rid d = .ok proof) :
    d.disposition ≠ "UNAVAILABLE_ENVIRONMENT" ∧ proof = none := by
  unfold World.environmentProof at hok
  split at hok
  case isFalse hne =>
    exact ⟨hne, (Except.ok.inj hok).symm⟩
  case isTrue =>
    exfalso
    have hnone : (clause.valueAt "when_environment").str?.getD "" = "" := by
      have habsent : clause.get "when_environment" = none := by
        rw [← Option.not_isSome_iff_eq_none]
        exact fun hsome => absurd ((Dict.hasKeys_iff.mp hs.clauseKeys _).mp hsome) (by decide)
      rw [Dict.valueAt, habsent]
      rfl
    have hget : (((contract.valueAt "clauses").dict?.getD []).valueAt rid).dict?.getD [] = clause := by
      rw [h.holdsClauses]
      show ((Dict.valueAt clauses rid).dict?).getD [] = clause
      rw [Dict.valueAt, hclause]
      rfl
    simp only [bind_eq_ok, mapError_eq_ok, h.readsContract, Except.ok.injEq, orRefuse_eq_ok,
      refuseIf_eq_ok, decide_eq_false_iff_not, not_not] at hok
    obtain ⟨_, rfl, environment, hgiven, -, hdeclared, -⟩ := hok
    rw [Option.getD_some, hget, hnone] at hdeclared
    have hempty : strip "" = "" := by decide
    rw [hempty] at hdeclared
    rw [← hdeclared] at hgiven
    exact absurd (Option.filter_eq_some_iff.mp hgiven).2 (by decide)

theorem setDisposition_ok {d : Disposal}
    (h : Intact receiptId metadata s contract ledger clauses requirements)
    (hok : w.setDisposition receiptId d s = .ok s') :
    ∃ clause entry, clauses.get (completeId receiptId d.rid) = some (.obj clause) ∧
      requirements.get (completeId receiptId d.rid) = some (.obj entry) ∧
      SoundClause receiptId (completeId receiptId d.rid) clause entry ∧ d.disposition ∈ allDispositions ∧
      d.disposition ≠ "UNAVAILABLE_ENVIRONMENT" ∧
      (∀ name, d.evidenceClass = some name → upper name ∈ evidenceClasses) ∧
      s' = s.settled ledger requirements (completeId receiptId d.rid) (d.settle none entry) := by
  unfold World.setDisposition validateEvidenceClass at hok
  simp only [bind_eq_ok, orRefuse_eq_ok, mapError_eq_ok, refuseIf_eq_ok, h.readsLedger, Except.ok.injEq,
    dict?_eq_some, decide_eq_false_iff_not, not_not] at hok
  obtain ⟨-, -, -, hdisp, -, hclass, -, -, _, rfl, _, hentry, entry, rfl, proof, hproof, hok⟩ := hok
  rw [h.holdsRequirements] at hentry hok
  have hsome := (Dict.sameKeys_iff.mp h.sound.1 _).mpr (Option.isSome_of_mem hentry)
  obtain ⟨j, hj⟩ := Option.isSome_iff_exists.mp hsome
  obtain ⟨clause, entry', rfl, hentry', hs⟩ := h.sound.2 _ j hj
  obtain rfl := Json.obj.inj (Option.some.inj (hentry.symm.trans hentry'))
  obtain ⟨hne, rfl⟩ := environmentProof_ok h hj hs hproof
  refine ⟨clause, entry, hj, hentry, hs, hdisp, hne, ?_, ?_⟩
  · intro name hname
    rw [hname, Option.any_some] at hclass
    simpa using hclass
  · split at hok
    · rw [bind_eq_ok] at hok
      obtain ⟨-, -, hok⟩ := hok
      exact (Except.ok.inj hok).symm
    · exact (Except.ok.inj hok).symm

theorem get_setGiven (entry : Dict) (field : String) (text : Option String) (k : String) :
    (setGiven entry field text).get k =
      if k = field then ((given text).map Json.str).or (entry.get k) else entry.get k := by
  unfold setGiven
  cases given text with
  | none => simp
  | some t =>
    rw [Dict.get_set]
    split_ifs <;> simp

/-- The fields of an entry that was settled. -/
theorem get_settle {d : Disposal} (hne : d.disposition ≠ "UNAVAILABLE_ENVIRONMENT") (entry : Dict)
    (k : String) :
    (d.settle none entry).get k =
      if k = "actual_evidence_class" then ((given (d.evidenceClass.map upper)).map Json.str).or (entry.get k)
      else if k = "environment_evidence" then none
      else if k = "verification" then ((given d.verification).map Json.str).or (entry.get k)
      else if k = "evidence" then ((given d.evidence).map Json.str).or (entry.get k)
      else if k = "work" then ((given d.work).map Json.str).or (entry.get k)
      else if k = "disposition" then some (.str d.disposition) else entry.get k := by
  have hcited : d.cited = d.evidence := by rw [Disposal.cited, if_neg hne]
  simp only [Disposal.settle, hcited, hne, ne_eq, not_false_eq_true, if_true, get_setGiven, Dict.get_pop,
    Dict.get_set]
  split_ifs <;> simp_all

theorem given_eq_none_or {text : Option String} : given text = none ∨ ∃ t, given text = some t ∧ t ≠ "" := by
  cases hgiven : given text with
  | none => exact .inl rfl
  | some t => exact .inr ⟨t, rfl, by simpa using (Option.filter_eq_some_iff.mp hgiven).2⟩

theorem isProof_str {t : String} : isProof (.str t) = true ↔ strip t ≠ "" := by
  rw [isProof, Bool.or_eq_true, isFullText_iff]
  simp

/-- A text over a proof is a proof when it is not blank. -/
theorem isProof_or_iff {text : Option String} {j : Json} (hj : isProof j = true) :
    isProof ((((given text).map Json.str).or (some j)).getD .null) = true ↔ NotBlank text := by
  unfold NotBlank
  cases given text with
  | none => simp [hj]
  | some t =>
    rw [Option.map_some, Option.some_or, Option.getD_some, isProof_str]
    simp

/-- A settled entry is sound when no class is declared and no text is blank. -/
theorem soundClause_settle_iff {d : Disposal} (hs : SoundClause receiptId rid clause entry)
    (hdisp : d.disposition ∈ allDispositions) (hne : d.disposition ≠ "UNAVAILABLE_ENVIRONMENT")
    (hclass : ∀ name, d.evidenceClass = some name → upper name ∈ evidenceClasses) :
    SoundClause receiptId rid clause (d.settle none entry) ↔
      d.evidenceClass = none ∧ NotBlank d.evidence ∧ NotBlank d.verification := by
  have hevidence : (d.settle none entry).valueAt "evidence" =
      (((given d.evidence).map Json.str).or (some (entry.valueAt "evidence"))).getD .null := by
    rw [Dict.valueAt, get_settle hne, ← hs.present (by decide)]
    rfl
  have hverification : (d.settle none entry).valueAt "verification" =
      (((given d.verification).map Json.str).or (some (entry.valueAt "verification"))).getD .null := by
    rw [Dict.valueAt, get_settle hne, ← hs.present (by decide)]
    rfl
  constructor
  · intro h
    refine ⟨?_, ?_, ?_⟩
    · by_contra hsome
      obtain ⟨name, hname⟩ := Option.ne_none_iff_exists'.mp hsome
      have hfull : upper name ≠ "" := fun hempty => by
        have hmem := hclass name hname
        rw [hempty] at hmem
        revert hmem
        decide
      have hget : (d.settle none entry).get "actual_evidence_class" = some (.str (upper name)) := by
        rw [get_settle hne, if_pos rfl, hname, Option.map_some, given, Option.filter_some,
          if_pos (by simpa using hfull)]
        rfl
      exact absurd ((Dict.hasKeys_iff.mp h.entryKeys _).mp (by rw [hget]; rfl)) (by decide)
    · rw [← isProof_or_iff hs.evidenced, ← hevidence]
      exact h.evidenced
    · rw [← isProof_or_iff hs.verified, ← hverification]
      exact h.verified
  · rintro ⟨hnone, hev, hver⟩
    have hkeep : ∀ field ∈ clauseFields, (d.settle none entry).valueAt field = entry.valueAt field := by
      intro field hfield
      rw [Dict.valueAt, get_settle hne, Dict.valueAt]
      simp only [clauseFields, List.mem_cons, List.not_mem_nil, or_false] at hfield
      rcases hfield with rfl | rfl | rfl <;> rfl
    refine ⟨hs.named, hs.structured, hs.flagged, hs.clauseKeys, ?_, ?_, ?_, ?_, ?_⟩
    · rw [Dict.hasKeys_iff]
      intro k
      have hold := Dict.hasKeys_iff.mp hs.entryKeys k
      rw [get_settle hne]
      split_ifs with h₁ h₂ h₃ h₄ h₅ h₆
      · subst h₁
        rw [hnone]
        exact hold
      · subst h₂
        exact iff_of_false (by simp) (by decide)
      · rw [Option.isSome_or, hold.mpr (by rw [h₃]; decide), Bool.or_true]
        exact iff_of_true rfl (by rw [h₃]; decide)
      · rw [Option.isSome_or, hold.mpr (by rw [h₄]; decide), Bool.or_true]
        exact iff_of_true rfl (by rw [h₄]; decide)
      · rw [Option.isSome_or, hold.mpr (by rw [h₅]; decide), Bool.or_true]
        exact iff_of_true rfl (by rw [h₅]; decide)
      · exact iff_of_true rfl (by rw [h₆]; decide)
      · exact hold
    · intro field hfield
      rw [hkeep field hfield]
      exact hs.copied field hfield
    · rw [Dict.valueAt, get_settle hne]
      show (Json.str d.disposition).str?.any _ = true
      rw [Json.str?_str, Option.any_some]
      exact decide_eq_true hdisp
    · rw [hevidence]
      exact (isProof_or_iff hs.evidenced).mpr hev
    · rw [hverification]
      exact (isProof_or_iff hs.verified).mpr hver

/-- A ledger with one entry replaced is sound when the entry is. -/
theorem soundLedger_set_iff {entry' : Dict} (hsound : SoundLedger receiptId clauses requirements)
    (hclause : clauses.get rid = some (.obj clause)) :
    SoundLedger receiptId clauses (requirements.set rid (.obj entry')) ↔
      SoundClause receiptId rid clause entry' := by
  constructor
  · intro h
    obtain ⟨clause', entry'', heq, hget, hs⟩ := h.2 rid _ hclause
    obtain rfl := Json.obj.inj heq
    rw [Dict.get_set_self] at hget
    obtain rfl := Json.obj.inj (Option.some.inj hget)
    exact hs
  · intro hs
    refine ⟨?_, fun rid' j hj => ?_⟩
    · rw [Dict.sameKeys_iff]
      intro k
      rw [Dict.get_set, Dict.sameKeys_iff.mp hsound.1 k]
      split_ifs with hk
      · rw [hk, ← Dict.sameKeys_iff.mp hsound.1, hclause]
        exact Iff.rfl
      · exact Iff.rfl
    · by_cases hrid : rid' = rid
      · subst hrid
        obtain rfl := Option.some.inj (hclause.symm.trans hj)
        exact ⟨clause, entry', rfl, Dict.get_set_self _ _ _, hs⟩
      · obtain ⟨clause', entry'', rfl, hget, hs'⟩ := hsound.2 rid' j hj
        exact ⟨clause', entry'', rfl, by rw [Dict.get_set_ne _ hrid, hget], hs'⟩

/-- **A disposition.** It leaves a receipt that passes its validator exactly when it settles cleanly. -/
theorem kept_setDisposition_iff {d : Disposal}
    (h : Intact receiptId metadata s contract ledger clauses requirements)
    (hok : w.setDisposition receiptId d s = .ok s') :
    Kept receiptId metadata (.setDisposition d) s s' ↔ SettlesCleanly receiptId s d := by
  obtain ⟨clause, entry, hclause, hentry, hs, hdisp, hne, hclass, rfl⟩ := setDisposition_ok h hok
  generalize hrid : completeId receiptId d.rid = rid at hclause hentry hs
  generalize hreqs' : requirements.set rid (.obj (d.settle none entry)) = reqs'
  have hreadC : (s.settled ledger requirements rid (d.settle none entry)).readContract =
      .ok (some contract) := h.readsContract
  have hholds : (ledger.set "requirements" (.obj reqs')).valueAt "requirements" = .obj reqs' := by
    rw [Dict.valueAt, Dict.get_set_self, Option.getD_some]
  have hreadL : ∀ {e}, (s.settled ledger requirements rid (d.settle none entry)).readCoverage = .ok e ↔
      Fits (ledger.set "requirements" (.obj reqs')) ∧ e = ledger.set "requirements" (.obj reqs') := by
    rw [← hreqs']
    exact readCoverage_written rfl (Dict.get_set_self _ _ _)
  have hsound' : SoundLedger receiptId clauses reqs' ↔
      d.evidenceClass = none ∧ NotBlank d.evidence ∧ NotBlank d.verification := by
    rw [← hreqs', soundLedger_set_iff h.sound hclause, soundClause_settle_iff hs hdisp hne hclass]
  have hflag : (d.settle none entry).valueAt "actionable" = Dict.valueAt entry "actionable" := by
    rw [Dict.valueAt, get_settle hne]
    rfl
  have hset : (d.settle none entry).valueAt "disposition" = .str d.disposition := by
    rw [Dict.valueAt, get_settle hne]
    rfl
  have hwait : (d.settle none entry).valueAt "disposition" ≠ .str "UNAVAILABLE_ENVIRONMENT" := by
    rw [hset]
    exact fun heq => hne (Json.str.inj heq)
  have hself : reqs'.get rid = some (.obj (d.settle none entry)) := by
    rw [← hreqs', Dict.get_set_self]
  have hother : ∀ k, k ≠ rid → reqs'.get k = requirements.get k := by
    intro k hk
    rw [← hreqs', Dict.get_set_ne _ hk]
  have hunique : ∀ {entry'}, requirements.get rid = some (.obj entry') → entry' = entry := fun hget =>
    Json.obj.inj (Option.some.inj (hget.symm.trans hentry))
  constructor
  · rintro ⟨hintegrity, hdecodes, -⟩
    obtain ⟨c', l', clauses'', reqs'', hin⟩ := contractIntegrity_eq_ok.mp hintegrity
    obtain rfl := Option.some.inj (Except.ok.inj (hreadC.symm.trans hin.readsContract))
    obtain ⟨hfits, rfl⟩ := hreadL.mp hin.readsLedger
    obtain rfl := Json.obj.inj (h.holdsClauses.symm.trans hin.holdsClauses)
    obtain rfl := Json.obj.inj (hholds.symm.trans hin.holdsRequirements)
    rw [hin.decodes_iff] at hdecodes
    obtain ⟨hnone, hev, hver⟩ := hsound'.mp hin.sound
    refine ⟨hnone, hev, hver, ?_, ?_, ?_⟩
    · rw [h.requirements_eq, hrid]
      intro entry' hget
      rw [hunique hget, ← hflag]
      exact (hdecodes rid _ hself).1
    · rw [h.requirements_eq, hrid]
      intro k entry' hk hget
      exact hdecodes k entry' ((hother k hk).trans hget)
    · rw [h.requirements_eq, h.ledgerDict_eq, hrid]
      intro entry' hget
      rw [hunique hget, hreqs']
      exact hfits
  · rintro ⟨hnone, hev, hver, hflagged, hreadable, hfits⟩
    rw [h.requirements_eq, hrid] at hflagged hreadable
    rw [h.requirements_eq, h.ledgerDict_eq, hrid] at hfits
    have hfits' := hfits entry hentry
    rw [hreqs'] at hfits'
    have hin : Intact receiptId metadata (s.settled ledger requirements rid (d.settle none entry)) contract
        (ledger.set "requirements" (.obj reqs')) clauses reqs' :=
      ⟨hreadC, hreadL.mpr ⟨hfits', rfl⟩, h.digest, h.holdsClauses, hholds, hsound'.mpr ⟨hnone, hev, hver⟩,
        h.revisions⟩
    refine ⟨contractIntegrity_eq_ok.mpr ⟨_, _, _, _, hin⟩, hin.decodes_iff.mpr ?_, ?_⟩
    · intro k entry' hget
      by_cases hk : k = rid
      · subst hk
        obtain rfl := Json.obj.inj (Option.some.inj (hself.symm.trans hget))
        refine ⟨?_, hwait⟩
        rw [hflag]
        exact hflagged entry hentry
      · exact hreadable k entry' hk ((hother k hk).symm.trans hget)
    · intro k hk
      have hne' : k ≠ rid := fun heq => hk (by rw [heq, ← hrid]; exact List.mem_cons_self)
      rw [hin.clauses_eq, hin.requirements_eq, h.clauses_eq, h.requirements_eq]
      exact ⟨rfl, hother k hne'⟩

/-- **Ledger writers.** A request that is answered ok on an intact receipt leaves a receipt that passes its
validator, decodes and keeps its other clauses exactly when the request is clean. -/
theorem ledger_writers_valid_iff {r : Request} (hmeta : s.readMeta = .ok (some metadata))
    (h : s.contractIntegrity receiptId metadata = .ok ()) (hok : w.answer receiptId r s = .ok s') :
    Kept receiptId metadata r s s' ↔ r.Clean w receiptId metadata s := by
  obtain ⟨contract, ledger, clauses, requirements, h⟩ := contractIntegrity_eq_ok.mp h
  cases r with
  | addRequirements items => exact kept_addRequirements_iff h hmeta hok
  | setDisposition d => exact kept_setDisposition_iff h hok

/-! ### A clause that waits for an environment -/

/-- The receipt of a request, as captured. -/
def capturedShelf : Shelf where
  metadata := some (.written (.obj [("source_sha256", .str "f2ca1bb6"), ("linked_work", .str "T-1")]))
  contract := some (.written (.obj [("schema_version", .int 1), ("derived_from", .str "SRC-1"),
    ("source_sha256", .str "f2ca1bb6"), ("derived_at", .null), ("interpretation_revision", .int 0),
    ("clauses", .obj [])]))
  coverage := some (.written (.obj [("schema_version", .int 1), ("requirements", .obj [])]))
  revisions := []

/-- A world in which plans are committed and the body is intact. -/
def calmWorld : World where
  bodyDigest := .ok "f2ca1bb6"
  utc := "2026-01-01T00:00:00Z"
  commit := none
  probeEnvironmentAbsence := fun _ => .error ⟨"ENVIRONMENT_PRESENT", ""⟩
  evidenceRefusal := fun _ _ _ _ => none

/-- A clause, perhaps for one environment. -/
def addClause (whenEnvironment : Option String) : Request :=
  .addRequirements [⟨"R001", "validate Kiro when its runtime is available", "", whenEnvironment⟩]

def capturedMetadata : Dict := [("source_sha256", .str "f2ca1bb6"), ("linked_work", .str "T-1")]

theorem exists_of_isOk {ε α : Type} {x : Except ε α} (h : x.isOk = true) : ∃ a, x = .ok a := by
  cases x with
  | error e => cases h
  | ok a => exact ⟨a, rfl⟩

theorem capturedShelf_intact : capturedShelf.contractIntegrity "SRC-1" capturedMetadata = .ok () := by
  obtain ⟨⟨⟩, h⟩ := exists_of_isOk (x := capturedShelf.contractIntegrity "SRC-1" capturedMetadata)
    (by decide +kernel)
  exact h

/-- A clause without an environment leaves the receipt as its validator wants it. -/
theorem ledger_writers_valid_plain :
    ∃ s', calmWorld.answer "SRC-1" (addClause none) capturedShelf = .ok s' ∧
      Kept "SRC-1" capturedMetadata (addClause none) capturedShelf s' := by
  obtain ⟨s', hs'⟩ := exists_of_isOk (x := calmWorld.answer "SRC-1" (addClause none) capturedShelf)
    (by decide +kernel)
  refine ⟨s', hs', (ledger_writers_valid_iff (by rfl) capturedShelf_intact hs').mpr ?_⟩
  have hnone : capturedShelf.requirements = [] := by decide +kernel
  refine ⟨fun item hitem => ?_, ⟨all_keys_iff.mp (by decide +kernel), by decide +kernel, by decide +kernel⟩,
    ?_, ?_, ?_⟩
  · rw [List.mem_singleton.mp hitem]
  · intro rid entry hentry
    rw [hnone] at hentry
    cases hentry
  · unfold Fits
    decide +kernel
  · unfold Fits
    decide +kernel

/-- A clause that waits for an environment is accepted, and its receipt no longer passes its validator. -/
theorem environment_clause_drifts :
    capturedShelf.contractIntegrity "SRC-1" capturedMetadata = .ok () ∧
      ∃ s', calmWorld.answer "SRC-1" (addClause (some "kiro")) capturedShelf = .ok s' ∧
        ¬ Kept "SRC-1" capturedMetadata (addClause (some "kiro")) capturedShelf s' := by
  obtain ⟨s', hs'⟩ := exists_of_isOk (x := calmWorld.answer "SRC-1" (addClause (some "kiro")) capturedShelf)
    (by decide +kernel)
  refine ⟨capturedShelf_intact, s', hs', fun hkept => ?_⟩
  have hdrift : ((calmWorld.answer "SRC-1" (addClause (some "kiro")) capturedShelf).bind fun s =>
      (s.contractIntegrity "SRC-1" capturedMetadata)).isOk = false := by decide +kernel
  rw [hs'] at hdrift
  have hok : (s'.contractIntegrity "SRC-1" capturedMetadata).isOk = false := hdrift
  rw [hkept.integrity] at hok
  cases hok

end Saipen.Intake
