import Saipen.Journal.Effects
import Saipen.Journal.Publish
import Saipen.Journal.Sample
import Saipen.Journal.Validation

/-! # The validator against the decoder

The PREPARED record of a validated request is read back by the decoder as the record that describes
the plan, exactly when two things hold of the request that the validator does not look at: every
directory to be deleted comes with a planned hash that is a string, and the receipt metadata has
JSON's own types with the strings and the path map the decoder insists on. -/

namespace Saipen

open FileTree DurableState

variable {env : Environment}

/-! ### What it means to read a plan back -/

/-- A decoded target says what was prepared. -/
structure TargetRecord.Describes (r : TargetRecord) (t : PreparedTarget) : Prop where
  path : r.path = posix t.path
  role : r.role = t.role
  action : r.action = some t.action
  beforeHash : t.beforeHash = .str r.beforeHash
  afterHash : r.afterHash = t.afterHash
  applied : r.applied = false

/-- A decoded record says what was published. -/
structure Record.Describes (r : Record) (opId : String) (a : StartArguments) : Prop where
  opId : r.opId = opId
  status : r.status = .prepared
  operation : r.operation = a.operation
  agent : r.agent = a.agent
  projectIdentity : r.projectIdentity = a.projectIdentity
  projectLineage : r.projectLineage.get = a.projectLineage
  semanticPayloadHash : r.semanticPayloadHash = a.semanticPayloadHash
  preconditions : r.preconditions = some a.preconditions
  readPreconditions : r.readPreconditions = some a.readPreconditions
  verificationPolicy : r.verificationPolicy = some a.verificationPolicy
  targets : List.Forall₂ TargetRecord.Describes r.targets a.targets
  receiptMetadata : a.receiptMetadata = r.receiptMetadata.get.map PyVal.ofFields

/-- Metadata with the types the decoder asks for. -/
structure TypedMetadata (m : Dict) : Prop where
  strings : ∀ k ∈ metadataStringKeys, ∀ j, m.get k = some j → ∃ s, j = .str s
  paths : ∀ j, m.get "paths" = some j →
    ∃ fs, j = .obj fs ∧ ∀ e ∈ fs, e.1 ≠ "" ∧ (e.2 = .null ∨ ∃ s, e.2 = .str s)

/-- A request whose planned directory hashes are strings and whose metadata is JSON of the types the
decoder asks for. -/
structure MutationRequest.RoundTrips (request : MutationRequest) : Prop where
  deleteDir : ∀ ts, request.targets = some ts → ∀ t, some t ∈ ts →
    t.action = some (.str "delete_dir") → ∃ s, t.plannedBeforeHash = some (.str s)
  metadata : ∀ fs, canonicalRequestMetadata request.receiptMetadata = .ok (some fs) →
    ∃ m, fs = PyVal.ofFields m ∧ TypedMetadata m

/-! ### Metadata -/

theorem nonStringKey_eq_none {m : Dict} {keys : List String} :
    nonStringKey m keys = none ↔ ∀ k ∈ keys, ∀ j, m.get k = some j → ∃ s, j = .str s := by
  unfold nonStringKey
  rw [List.find?_eq_none]
  refine forall_congr' fun k => imp_congr_right fun _ => ?_
  cases hg : m.get k with
  | none => simp
  | some j => cases j <;> simp [Json.str?]

theorem metadataPathOk_iff (e : String × Json) :
    metadataPathOk e = true ↔ e.1 ≠ "" ∧ (e.2 = .null ∨ ∃ s, e.2 = .str s) := by
  obtain ⟨k, j⟩ := e
  cases j <;> simp [metadataPathOk]

/-- The decoder's checks are the typing of the metadata. -/
theorem checkMetadata_eq_ok {m : Dict} : checkMetadata m = .ok () ↔ TypedMetadata m := by
  have hpaths : checkMetadataPaths m = .ok () ↔ ∀ j, m.get "paths" = some j →
      ∃ fs, j = .obj fs ∧ ∀ e ∈ fs, e.1 ≠ "" ∧ (e.2 = .null ∨ ∃ s, e.2 = .str s) := by
    unfold checkMetadataPaths
    cases hg : m.get "paths" with
    | none => simp
    | some j =>
      cases j with
      | obj fs =>
        by_cases hall : fs.all metadataPathOk = true
        · simpa [hall] using fun a b hab => (metadataPathOk_iff (a, b)).mp
            (List.all_eq_true.mp hall _ hab)
        · simp only [hall, badField, Bool.false_eq_true, if_false, reduceCtorEq, false_iff]
          intro h
          obtain ⟨fs', heq, hfs⟩ := h _ rfl
          obtain rfl := Json.obj.inj heq
          exact hall (List.all_eq_true.mpr fun e he => (metadataPathOk_iff e).mpr (hfs e he))
      | _ => simp [badField]
  constructor
  · intro h
    unfold checkMetadata at h
    split at h
    · simp [badField] at h
    · next hn => exact ⟨nonStringKey_eq_none.mp hn, hpaths.mp h⟩
  · intro h
    unfold checkMetadata
    rw [nonStringKey_eq_none.mpr h.strings]
    exact hpaths.mpr h.paths

theorem getKey_ofFields (k : String) (m : Dict) :
    PyVal.getKey k (PyVal.ofFields m) = (m.get k).map PyVal.ofJson := by
  induction m with
  | nil => rfl
  | cons e m ih =>
    obtain ⟨l, j⟩ := e
    rw [Dict.get_cons]
    by_cases h : k = l
    · subst h
      simp [PyVal.ofFields, PyVal.getKey]
    · rw [if_neg h, ← ih]
      simp [PyVal.ofFields, PyVal.getKey, Ne.symm h]

/-- Canonical metadata has a ticket only with a name. -/
theorem canonicalRequestMetadata_ticket {v : PyVal} {fs : List (PyKey × PyVal)}
    (h : canonicalRequestMetadata v = .ok (some fs)) :
    PyVal.getKey "ticket_id" fs = none ∨
      ∃ s, s ≠ "" ∧ PyVal.getKey "ticket_id" fs = some (.str s) := by
  have hpop : ∀ gs, PyVal.getKey "ticket_id" (PyVal.popKey "ticket_id" gs) = none := by
    intro gs
    simp [PyVal.getKey, PyVal.popKey]
  cases v with
  | dict gs =>
    simp only [canonicalRequestMetadata] at h
    split at h
    · next hg =>
      obtain rfl := Option.some.inj (Except.ok.inj h)
      exact .inl hg
    · obtain rfl := Option.some.inj (Except.ok.inj h)
      exact .inl (hpop gs)
    · next s hg =>
      obtain rfl := Option.some.inj (Except.ok.inj h)
      by_cases hs : s = ""
      · rw [if_pos hs]
        exact .inl (hpop gs)
      · rw [if_neg hs]
        exact .inr ⟨s, hs, hg⟩
    · cases h
  | _ => simp [canonicalRequestMetadata] at h

/-- Metadata that validation has made canonical is canonical for the decoder. -/
theorem canonicalReceiptMetadata_of_request {v : PyVal} {m : Dict}
    (h : canonicalRequestMetadata v = .ok (some (PyVal.ofFields m))) :
    canonicalReceiptMetadata m = .ok m := by
  unfold canonicalReceiptMetadata
  have ht := canonicalRequestMetadata_ticket h
  rw [getKey_ofFields] at ht
  cases hg : m.get "ticket_id" with
  | none => rfl
  | some j =>
    rw [hg] at ht
    rcases ht with ht | ⟨s, hs, ht⟩
    · cases ht
    · cases j with
      | str s' =>
        obtain rfl : s' = s := by simpa [PyVal.ofJson] using ht
        simp [hs]
      | _ => simp [PyVal.ofJson] at ht

/-! ### The published object -/

/-- The object a prepared target is dumped as, for a dumped before token. -/
def PreparedTarget.dumped (t : PreparedTarget) (before : Json) : Dict :=
  [("path", .str (posix t.path)), ("role", .str t.role.name), ("action", .str t.action.name),
    ("before_hash", before), ("after_hash", .str t.afterHash), ("applied", .bool false)]

/-- The object a PREPARED record is dumped as, for dumped targets and metadata. -/
def StartArguments.dumped (env : Environment) (a : StartArguments) (opId : String) (now : Instant)
    (targets : List Json) (metadata : Option Dict) : Dict :=
  [("op_id", .str opId), ("operation", .str a.operation),
    ("created_at", .str (env.isoFormat now)), ("agent", .str a.agent),
    ("project_identity", .str a.projectIdentity),
    ("project_lineage", a.projectLineage.elim .null .str),
    ("semantic_payload_hash", .str a.semanticPayloadHash),
    ("preconditions", stringMap a.preconditions),
    ("read_preconditions", stringMap a.readPreconditions),
    ("verification_policy", .str a.verificationPolicy.name),
    ("status", .str Status.prepared.name), ("progress_index", .int 0), ("targets", .arr targets)] ++
    optField "receipt_metadata" (metadata.map .obj)

/-- A prepared target and what it is dumped as. -/
def DumpedTarget (t : PreparedTarget) (j : Json) : Prop :=
  ∃ before, PyVal.dumps false t.beforeHash = some before ∧ j = .obj (t.dumped before)

theorem dumps_toPy {t : PreparedTarget} {j : Json}
    (h : PyVal.dumps false (.dict t.toPy) = some j) : DumpedTarget t j := by
  simp only [PreparedTarget.toPy, PyVal.dumps, PyVal.dumpsFields, PyKey.dumps, Bool.false_and,
    Bool.false_eq_true, if_false, Option.bind_some, Option.map_some] at h
  cases hb : PyVal.dumps false t.beforeHash with
  | none => simp [hb] at h
  | some before =>
    rw [hb] at h
    exact ⟨before, hb, (Option.some.inj h).symm⟩

theorem dumpsItems_toPy {ts : List PreparedTarget} {js : List Json}
    (h : PyVal.dumpsItems false (ts.map fun t => .dict t.toPy) = some js) :
    List.Forall₂ DumpedTarget ts js := by
  induction ts generalizing js with
  | nil =>
    obtain rfl := Option.some.inj h
    exact .nil
  | cons t ts ih =>
    rw [List.map_cons, PyVal.dumpsItems, Option.bind_eq_some_iff] at h
    obtain ⟨j, hj, h⟩ := h
    obtain ⟨js, hjs, rfl⟩ := Option.map_eq_some_iff.mp h
    exact .cons (dumps_toPy hj) (ih hjs)

/-- What `json.dumps` makes of the PREPARED record. -/
theorem dumps_record {a : StartArguments} {opId : String} {now : Instant} {record : Json}
    (h : PyVal.dumps false (.dict (a.record env opId now)) = some record) :
    ∃ js m, List.Forall₂ DumpedTarget a.targets js ∧
      a.receiptMetadata.map (PyVal.dumpsFields false) = m.map some ∧
      record = .obj (a.dumped env opId now js m) := by
  rw [StartArguments.record, PyVal.dumps, dumpsFields_append] at h
  have hl : PyVal.dumps false (a.projectLineage.elim .none .str) =
      some (a.projectLineage.elim .null .str) := by
    cases a.projectLineage <;> rfl
  simp only [PyVal.dumpsFields, PyKey.dumps, dumps_pyStringMap, hl, PyVal.dumps, Bool.false_and,
    Bool.false_eq_true, if_false, Option.bind_some, Option.map_some] at h
  cases hts : PyVal.dumpsItems false (a.targets.map fun t => .dict t.toPy) with
  | none => simp [hts] at h
  | some js =>
    refine ⟨js, ?_⟩
    cases hm : a.receiptMetadata with
    | none =>
      rw [hts, hm] at h
      refine ⟨none, dumpsItems_toPy hts, rfl, ?_⟩
      exact (Option.some.inj h).symm
    | some fs =>
      rw [hts, hm] at h
      cases hd : PyVal.dumpsFields false fs with
      | none => simp [PyVal.dumpsFields, PyVal.dumps, PyKey.dumps, hd] at h
      | some m =>
        refine ⟨some m, dumpsItems_toPy hts, by simp [hd], ?_⟩
        simp only [Option.elim_some, PyVal.dumpsFields, PyVal.dumps, PyKey.dumps, hd,
          Bool.false_and, Bool.false_eq_true, if_false, Option.bind_some, Option.map_some] at h
        exact (Option.some.inj h).symm

/-! ### Reading it back -/

/-- A write target of the plan has its staged entry. -/
theorem stagedEntry_of_write (env : Environment) (index : Nat) {t : PreparedTarget}
    (hw : t.action = .write) (hc : t.content.isSome = true) :
    ∃ c, stagedEntry env index t = [(stagedName env index (posix t.path), .file c)] := by
  obtain ⟨c, hc⟩ := Option.isSome_iff_exists.mp hc
  exact ⟨c, by simp [stagedEntry, hw, hc]⟩

/-- One prepared target whose before token is a string is read back. -/
theorem decodeTarget_dumped {files : Entries Content} {index : Nat} {seen : List Path}
    {t : PreparedTarget} {s : String} (hclean : CleanPath t.path)
    (hown : ownedTargetPath env (posix t.path) = some t.path) (hnew : t.path ∉ seen)
    (hstaged : t.action = .write →
      (files.lookup (stagedName env index (posix t.path))).any Node.isFile = true)
    (hs : t.beforeHash = .str s) :
    ∃ r, decodeTarget env files .prepared index seen (t.dumped (.str s)) = .ok (r, t.path) ∧
      r.Describes t := by
  have hget : ∀ k, Dict.get (t.dumped (.str s)) k =
      if k = "path" then some (.str (posix t.path)) else
      if k = "role" then some (.str t.role.name) else
      if k = "action" then some (.str t.action.name) else
      if k = "before_hash" then some (.str s) else
      if k = "after_hash" then some (.str t.afterHash) else
      if k = "applied" then some (.bool false) else none := by
    intro k
    simp only [PreparedTarget.dumped, Dict.get_cons, Dict.get_nil]
  refine ⟨{ path := posix t.path, role := t.role, action := some t.action, beforeHash := s,
            afterHash := t.afterHash, applied := false, content := none,
            extra := (t.dumped (.str s)).filter fun e => e.1 ∉ targetKeys }, ?_,
    rfl, rfl, rfl, hs, rfl, rfl⟩
  have hstr : ∀ key v, Dict.get (t.dumped (.str s)) key = some (.str v) →
      targetString index (t.dumped (.str s)) key = .ok v := by
    intro key v hv
    rw [targetString, hv]
  have hpath : decodeTargetPath env index seen (posix t.path) = .ok t.path := by
    rw [decodeTargetPath, if_neg (posix_ne_empty hclean), hown]
    simp [hnew]
  have hcheck : ∀ r : TargetRecord, r.action = some t.action →
      checkStaged env files .prepared index t.path r = .ok () := by
    intro r ha
    unfold checkStaged
    rw [if_neg]
    rintro ⟨-, hw, hno⟩
    rw [TargetRecord.targetAction, ha, Option.getD_some] at hw
    rw [hasStaged, hstaged hw] at hno
    exact hno rfl
  unfold decodeTarget
  rw [hstr "path" (posix t.path) (by simp [hget]), hstr "role" t.role.name (by simp [hget]),
    hstr "before_hash" s (by simp [hget]), hstr "after_hash" t.afterHash (by simp [hget])]
  simp only [bind, Except.bind, hpath, decodeRole, decodeAction, decodeApplied, decodeContent, hget]
  simp only [String.reduceEq, if_true, if_false, Option.bind_some, Json.str?_str,
    Role.ofName?_name, Action.ofName?_name]
  rw [hcheck _ rfl]
  rfl

/-- The prepared targets are read back one by one, from any index on, over any directory that holds
their staged entries. -/
theorem decodeTargets_dumped {files : Entries Content} {ts : List PreparedTarget} {js : List Json}
    (hjs : List.Forall₂ DumpedTarget ts js) :
    ∀ (index : Nat) (seen : List Path),
      (∀ t ∈ ts, CleanPath t.path ∧ ownedTargetPath env (posix t.path) = some t.path ∧
        (t.action = .write → t.content.isSome = true) ∧ ∃ s, t.beforeHash = .str s) →
      (ts.map (·.path)).Nodup → (∀ t ∈ ts, t.path ∉ seen) →
      (∀ e ∈ stagedEntries env index ts, (files.lookup e.1).any Node.isFile = true) →
      ∃ rs, decodeTargets env files .prepared index seen js = .ok rs ∧
        List.Forall₂ TargetRecord.Describes rs ts := by
  induction hjs with
  | nil =>
    intro index seen _ _ _ _
    exact ⟨[], rfl, .nil⟩
  | @cons t j ts js hj _ ih =>
    intro index seen hts hnodup hnew hstaged
    obtain ⟨before, hb, rfl⟩ := hj
    obtain ⟨hclean, hown, hcontent, s, hs⟩ := hts t List.mem_cons_self
    rw [List.map_cons, List.nodup_cons] at hnodup
    -- the before token of the target is dumped as itself
    obtain rfl : Json.str s = before := by
      rw [hs] at hb
      exact Option.some.inj hb
    have hown_staged : t.action = .write →
        (files.lookup (stagedName env index (posix t.path))).any Node.isFile = true := by
      intro hw
      obtain ⟨c, hc⟩ := stagedEntry_of_write env index hw (hcontent hw)
      exact hstaged _ (by rw [stagedEntries, hc]; exact List.mem_cons_self)
    obtain ⟨r, hr, hdesc⟩ :=
      decodeTarget_dumped hclean hown (hnew t List.mem_cons_self) hown_staged hs
    obtain ⟨rs, hrs, hall⟩ := ih (index + 1) (seen ++ [t.path])
      (fun u hu => hts u (List.mem_cons_of_mem _ hu)) hnodup.2
      (fun u hu => by
        rw [List.mem_append, List.mem_singleton, not_or]
        exact ⟨hnew u (List.mem_cons_of_mem _ hu), fun he =>
          hnodup.1 (he ▸ List.mem_map_of_mem hu)⟩)
      (fun e he => hstaged e (by rw [stagedEntries]; exact List.mem_append_right _ he))
    refine ⟨r :: rs, ?_, .cons hdesc hall⟩
    rw [decodeTargets, hr]
    simp only [bind, Except.bind, hrs]
    rfl

/-- A name among entries that are all files is found, as a file. -/
theorem lookup_isFile {files : Entries Content} (hall : ∀ e ∈ files, e.2.isFile = true)
    {e : String × Node Content} (he : e ∈ files) : (files.lookup e.1).any Node.isFile = true := by
  induction files with
  | nil => cases he
  | cons f files ih =>
    obtain ⟨k, n⟩ := f
    rw [Assoc.lookup_cons]
    by_cases hk : e.1 = k
    · rw [if_pos hk, Option.any_some]
      exact hall (k, n) List.mem_cons_self
    · rw [if_neg hk]
      rcases List.mem_cons.mp he with rfl | he
      · exact absurd rfl hk
      · exact ih (fun g hg => hall g (List.mem_cons_of_mem _ hg)) he

theorem stagedEntries_isFile {index : Nat} {ts : List PreparedTarget} {e : String × Node Content}
    (h : e ∈ stagedEntries env index ts) : e.2.isFile = true := by
  induction ts generalizing index with
  | nil => cases h
  | cons t ts ih =>
    rw [stagedEntries, List.mem_append] at h
    rcases h with h | h
    · unfold stagedEntry at h
      split at h
      · obtain rfl := List.mem_singleton.mp h
        rfl
      · cases h
    · exact ih h

/-- The files of a directory as a publication leaves it. -/
abbrev publishedFiles (env : Environment) (ts : List PreparedTarget) (record : Json) :
    Entries Content :=
  stagedEntries env 0 ts ++ [manifestEntry record]

/-- The decode of a published directory is the decode of its manifest. -/
theorem decodeEntry_published {ts : List PreparedTarget} {dirName : String} {d : Dict} :
    decodeEntry env false dirName (publishedFiles env ts (.obj d)) =
      decodeRecord env dirName (publishedFiles env ts (.obj d)) d := by
  have hman : (publishedFiles env ts (.obj d)).lookup "operation.json" =
      some (.file (.json (.obj d))) := by
    rw [List.lookup_append, stagedEntries_lookup_eq_none (by decide)]
    rfl
  have hprog : (publishedFiles env ts (.obj d)).lookup "progress.json" = none := by
    rw [List.lookup_append, stagedEntries_lookup_eq_none (by decide)]
    rfl
  unfold decodeEntry
  rw [hman]
  simp only [decodeManifest, Content.loads, sidecarBytes, hprog, bind, Except.bind]
  cases decodeRecord env dirName (publishedFiles env ts (.obj d)) d <;> rfl

/-- Reading the published object: the metadata. -/
theorem get_dumped_metadata (a : StartArguments) (opId : String) (now : Instant) (js : List Json)
    (m : Option Dict) :
    Dict.get (a.dumped env opId now js m) "receipt_metadata" = m.map .obj := by
  simp [StartArguments.dumped, Dict.get_cons, get_optField]

/-- The published object decodes to a record that says the same, when its targets and its metadata
do. -/
theorem decodeRecord_dumped {a : StartArguments} {opId : String} {now : Instant} {js : List Json}
    {m : Option Dict} {files : Entries Content} {rs : List TargetRecord} {metadata : Nullable Dict}
    (hid : validateOpId opId = .ok opId ∧ opId ≠ "") (hop : a.operation ≠ "")
    (hpre : ∀ k ∈ a.preconditions.map Prod.fst, k ≠ "")
    (hread : ∀ k ∈ a.readPreconditions.map Prod.fst, k ≠ "")
    (hts : decodeTargets env files .prepared 0 [] js = .ok rs)
    (hall : List.Forall₂ TargetRecord.Describes rs a.targets)
    (hmeta : decodeMetadata (a.dumped env opId now js m) = .ok metadata)
    (hsame : a.receiptMetadata = metadata.get.map PyVal.ofFields) :
    ∃ r, decodeRecord env opId files (a.dumped env opId now js m) = .ok r ∧ r.Describes opId a := by
  have get (k : String) (j : Json) (h : Dict.get (a.dumped env opId now js none) k = some j) :
      Dict.get (a.dumped env opId now js m) k = some j := by
    rw [StartArguments.dumped, Dict.get_append] at h ⊢
    rw [Option.map_none, optField, Option.elim_none, Dict.get_nil, Option.or_none] at h
    rw [h, Option.some_or]
  have string (k s : String) (h : Dict.get (a.dumped env opId now js none) k = some (.str s)) :
      requireString (a.dumped env opId now js m) k = .ok s :=
    requireString_eq_ok.mpr (get k _ h)
  have hmap (k : String) (v : List (String × String)) (hv : ∀ k ∈ v.map Prod.fst, k ≠ "")
      (h : Dict.get (a.dumped env opId now js none) k = some (stringMap v)) :
      decodePreconditions k (a.dumped env opId now js m) = .ok (some v) := by
    rw [decodePreconditions, get k _ h]
    simp only [stringMap, decodeHashMap_stringMap hv]
  have hstamp : strictIsoUtc env (env.isoFormat now) = env.isoFormat now := by
    rw [strictIsoUtc, env.isoFormat_strip, env.strictUtcStamp_isoFormat, Option.elim_some]
  let r : Record := {
    opId, status := .prepared, operation := a.operation,
    semanticPayloadHash := a.semanticPayloadHash, createdAt := env.isoFormat now, agent := a.agent,
    projectIdentity := a.projectIdentity,
    projectLineage := a.projectLineage.elim .null .value,
    verificationPolicy := some a.verificationPolicy, preconditions := some a.preconditions,
    readPreconditions := some a.readPreconditions, receiptMetadata := metadata, progressIndex := 0,
    targets := rs, extra := (a.dumped env opId now js m).filter fun e => e.1 ∉ recordKeys }
  refine ⟨r, decodeRecord_eq_ok.mpr ?_, ?_⟩
  · exact {
      opId := decodeOpId_eq_ok.mpr ⟨get _ _ rfl, hid.2, ⟨opId, hid.1⟩, rfl⟩
      status := decodeStatus_eq_ok.mpr (get _ _ rfl)
      operation := by
        rw [decodeOperation, get "operation" (.str a.operation) rfl]
        simp only [hop, if_false]
        rfl
      payload := string _ _ rfl
      createdAt := ⟨env.isoFormat now, string _ _ rfl, by
        rw [decodeCreatedAt, hstamp, if_neg (by simp [env.isoFormat_ne]),
          if_neg (env.isoFormat_ne now)]⟩
      agent := string _ _ rfl
      projectIdentity := string _ _ rfl
      projectLineage := by
        rw [decodeLineage, get "project_lineage" (a.projectLineage.elim .null .str) rfl]
        cases h : a.projectLineage <;> simp [r, h]
      verificationPolicy := by
        rw [decodePolicy, get "verification_policy" (.str a.verificationPolicy.name) rfl]
        simp [r]
      preconditions := hmap _ _ hpre rfl
      readPreconditions := hmap _ _ hread rfl
      receiptMetadata := hmeta
      progressIndex := by
        rw [decodeProgressIndex, get "progress_index" (.int 0) rfl]
        rfl
      targets := ⟨js, get _ _ rfl, hts⟩
      extra := rfl }
  · refine ⟨rfl, rfl, rfl, rfl, rfl, ?_, rfl, rfl, rfl, rfl, hall, hsame⟩
    cases h : a.projectLineage <;> simp [r, h, Nullable.get]

/-! ### The published record of a request -/

/-- A preparation that returns a plan planned it on the disk it started from and published it. -/
theorem Journal.prepareMutation_yields {j : Journal} {ctx : MutationContext} {v : ValidRequest}
    {lineage : Option String} {ts : List PreparedTarget} {d d' : Disk}
    (h : (j.prepareMutation env ctx v lineage).Yields d (.ok ts) d') :
    planRequest env d v = .ok (.ok ts) ∧
      (j.start env (startArguments v lineage ts) ctx.now).Yields d () d' := by
  obtain ⟨u, d₁, hread, h⟩ := Prog.yields_bind.mp h
  obtain ⟨rfl, rfl⟩ := Prog.yields_read.mp hread
  split at h
  · exact absurd h Prog.yields_raise
  · have := (Prog.yields_pure.mp h).1
    cases this
  · next ts' hplan =>
    rcases Prog.yields_rescue.mp h with h | ⟨e, d₂, -, h⟩
    · obtain ⟨_, d₂, hstart, h⟩ := Prog.yields_bind.mp h
      obtain ⟨hts, rfl⟩ := Prog.yields_pure.mp h
      obtain rfl := Except.ok.inj hts
      exact ⟨hplan, hstart⟩
    · -- the handler answers with a refusal or raises again
      split at h
      · have := (Prog.yields_pure.mp h).1
        cases this
      · have := (Prog.yields_pure.mp h).1
        cases this
      · exact absurd h Prog.yields_raise

theorem validateMember_delete {t : TargetRequest} {u : ValidTarget}
    (h : ValidatedTarget env t u) :
    u.action = .deleteDir ↔ t.action = some (.str "delete_dir") := by
  have ha := h.action
  unfold validateMember at ha
  constructor
  · intro hu
    rw [hu] at ha
    split at ha
    · cases ha
    · next w hw =>
      split at ha
      · next k hk =>
        obtain rfl := Except.ok.inj ha
        obtain ⟨s, hs, hk⟩ := Option.bind_eq_some_iff.mp hk
        rw [hw]
        cases w <;> simp_all [PyVal.str?]
        simpa [Action.name] using (ofName?_eq_some hk).symm
      · cases ha
  · intro ht
    rw [ht] at ha
    exact (Except.ok.inj ha).symm

section Publication

variable {request : MutationRequest} {v : ValidRequest} {lineage : Option String} {opId : String}
  {now : Instant} {ts : List PreparedTarget} {js : List Json} {m : Option Dict} {d : Disk}

/-- A record that says what was published could only come from a request that round-trips. -/
theorem roundTrips_of_describes {r : Record} (hval : Validated env request v)
    (hplanned : List.Forall₂ (PlannedTarget env d) v.targets ts)
    (hm : v.receiptMetadata.map (PyVal.dumpsFields false) = m.map some)
    (hmeta : decodeMetadata ((startArguments v lineage ts).dumped env opId now js m) =
      .ok r.receiptMetadata)
    (hdesc : r.Describes opId (startArguments v lineage ts)) : request.RoundTrips := by
  obtain ⟨raw, hraw, hall⟩ := hval.targets
  refine ⟨fun ts' hts' t ht ha => ?_, fun fs hfs => ?_⟩
  · obtain rfl : raw = ts' := Option.some.inj (hraw.symm.trans hts')
    obtain ⟨u, hu, t', ht', hvt⟩ := exists_of_forall₂_left hall ht
    obtain rfl := Option.some.inj ht'
    obtain ⟨w, hw, hpt⟩ := exists_of_forall₂_left hplanned hu
    -- the decoded target says that the planned hash is a string
    obtain ⟨x, -, hx⟩ := exists_of_forall₂_right hdesc.targets hw
    have hb := hx.beforeHash
    rw [hpt.beforeHash, if_pos ((validateMember_delete hvt).mpr ha), hvt.plannedBeforeHash] at hb
    cases hpb : t.plannedBeforeHash with
    | none => rw [hpb] at hb; cases hb
    | some b => rw [hpb] at hb; exact ⟨_, congrArg some hb⟩
  · have hvm : v.receiptMetadata = some fs :=
      Except.ok.inj (hval.receiptMetadata.symm.trans hfs)
    have hsame := hdesc.receiptMetadata
    rw [startArguments, hvm] at hsame
    rw [hvm] at hm
    cases m with
    | none => cases hm
    | some m =>
      rw [decodeMetadata, get_dumped_metadata, Option.map_some] at hmeta
      simp only at hmeta
      split at hmeta
      · simp [badField] at hmeta
      · next m' hc =>
        split at hmeta
        · cases hmeta
        · next hcheck =>
          rw [← Except.ok.inj hmeta] at hsame
          exact ⟨m', Option.some.inj hsame, checkMetadata_eq_ok.mp hcheck⟩

/-- The metadata of a request that round-trips is read back as it was given. -/
theorem MutationRequest.RoundTrips.metadata_decodes (hq : request.RoundTrips)
    (hval : Validated env request v)
    (hm : v.receiptMetadata.map (PyVal.dumpsFields false) = m.map some) (a : StartArguments) :
    ∃ metadata, decodeMetadata (a.dumped env opId now js m) = .ok metadata ∧
      v.receiptMetadata = metadata.get.map PyVal.ofFields := by
  cases hvm : v.receiptMetadata with
  | none =>
    rw [hvm] at hm
    obtain rfl : m = none := by simpa using hm.symm
    exact ⟨.absent, by rw [decodeMetadata, get_dumped_metadata]; rfl, rfl⟩
  | some fs =>
    have hcan := hval.receiptMetadata
    rw [hvm] at hcan
    obtain ⟨md, rfl, htyped⟩ := hq.metadata fs hcan
    rw [hvm, Option.map_some, dumpsFields_ofFields] at hm
    obtain rfl : m = some md := by
      cases m with
      | none => cases hm
      | some m => rw [Option.some.inj (Option.some.inj hm)]
    refine ⟨.value md, ?_, rfl⟩
    rw [decodeMetadata, get_dumped_metadata, Option.map_some]
    simp only [canonicalReceiptMetadata_of_request hcan, checkMetadata_eq_ok.mpr htyped]

/-- The plan of a request that round-trips has a string for every before state and bytes for every
write. -/
theorem MutationRequest.RoundTrips.planned (hq : request.RoundTrips) (hval : Validated env request v)
    (hplanned : List.Forall₂ (PlannedTarget env d) v.targets ts) {w : PreparedTarget}
    (hw : w ∈ ts) :
    CleanPath w.path ∧ (w.action = .write → w.content.isSome = true) ∧
      ∃ s, w.beforeHash = .str s := by
  obtain ⟨raw, hraw, hall⟩ := hval.targets
  obtain ⟨u, hu, hpt⟩ := exists_of_forall₂_right hplanned hw
  obtain ⟨-, ht, t, rfl, hvt⟩ := exists_of_forall₂_right hall hu
  refine ⟨?_, fun ha => ?_, ?_⟩
  · rw [hpt.path]
    exact hval.clean u hu
  · rw [hpt.content ha]
    exact hvt.content (by rw [← hpt.action]; exact ha)
  · rw [hpt.beforeHash]
    split
    · next hdel =>
      obtain ⟨s, hs⟩ := hq.deleteDir raw hraw t ht ((validateMember_delete hvt).mp hdel)
      exact ⟨s, by rw [hvt.plannedBeforeHash, hs, Option.getD_some]⟩
    · exact ⟨_, rfl⟩

end Publication

/-- **The validator against the decoder.** For a validated request and the journal opened for it,
once the PREPARED record is published, the decoder reads it back as the record of the plan exactly
when the planned directory hashes are strings and the metadata has the decoder's types. -/
theorem published_record_decodes_iff {request : MutationRequest} {v : ValidRequest} {j : Journal}
    {ctx : MutationContext} {lineage : Option String} {ts : List PreparedTarget} {d₀ d d' : Disk}
    (hv : validateMutationRequest env request = .ok v) (hj : openJournal v.opId d₀ = .ok j)
    (hpub : (j.prepareMutation env ctx v lineage).Yields d (.ok ts) d') :
    (∃ r, j.decode env false d' = .ok r ∧ r.Describes j.opId (startArguments v lineage ts)) ↔
      request.RoundTrips := by
  have hval := validateMutationRequest_eq_ok hv
  obtain ⟨hplan, hstart⟩ := Journal.prepareMutation_yields hpub
  have hplanned := planRequest_eq_ok hval.clean hplan
  have hclean : ∀ w ∈ ts, CleanPath w.path := by
    intro w hw
    obtain ⟨u, hu, hp⟩ := exists_of_forall₂_right hplanned hw
    rw [hp.path]
    exact hval.clean u hu
  obtain ⟨record, hrec, -, hdir, hown⟩ := j.start_yields hclean hstart
  obtain ⟨js, m, hjs, hm, rfl⟩ := dumps_record hrec
  -- the decode of the published directory is the decode of the dumped object
  have hdecode : j.decode env false d' = decodeRecord env j.opId
      (publishedFiles env ts (.obj ((startArguments v lineage ts).dumped env j.opId ctx.now js m)))
      ((startArguments v lineage ts).dumped env j.opId ctx.now js m) := by
    rw [Journal.decode, Journal.files, dirEntries, hdir]
    exact decodeEntry_published
  rw [hdecode]
  constructor
  · rintro ⟨r, hr, hdesc⟩
    exact roundTrips_of_describes hval hplanned hm (decodeRecord_eq_ok.mp hr).receiptMetadata hdesc
  · intro hq
    have hts : ∀ w ∈ ts, CleanPath w.path ∧ ownedTargetPath env (posix w.path) = some w.path ∧
        (w.action = .write → w.content.isSome = true) ∧ ∃ s, w.beforeHash = .str s := by
      intro w hw
      obtain ⟨h1, h2, h3⟩ := hq.planned hval hplanned hw
      exact ⟨h1, hown w hw, h2, h3⟩
    have hpaths : v.targets.map (·.path) = ts.map (·.path) :=
      map_eq_of_forall₂ (hplanned.imp fun t u h => h.path.symm)
    have hfiles : ∀ record, ∀ e ∈ publishedFiles env ts record, e.2.isFile = true := by
      intro record e he
      rcases List.mem_append.mp he with he | he
      · exact stagedEntries_isFile he
      · rw [List.mem_singleton.mp he]
        rfl
    obtain ⟨rs, hrs, hdesc⟩ := decodeTargets_dumped hjs 0 [] hts (hpaths ▸ hval.nodup) (by simp)
      (fun e he => lookup_isFile (hfiles (.obj ((startArguments v lineage ts).dumped env j.opId
        ctx.now js m))) (List.mem_append_left _ he))
    obtain ⟨metadata, hmeta, hsame⟩ := hq.metadata_decodes hval hm (startArguments v lineage ts)
    exact decodeRecord_dumped (validateOpId_self (openJournal_opId hj).1) hval.operation
      hval.preconditions hval.readPreconditions hrs hdesc hmeta hsame

/-! ### A directory without a planned hash -/

/-- A request to write one file and to remove one directory, with a planned hash for it or without
one. -/
def sampleRequest (planned : Option PyVal) : MutationRequest where
  opId := .str "op-1"
  operation := .str "move"
  agent := .str "agent"
  projectIdentity := .str "/work"
  semanticPayloadHash := .str "payload"
  targets := some [
    some { path := some (.str "new/a"), role := none, action := none,
           content := .bytes (.text "a"), plannedBeforeHash := none },
    some { path := some (.str "old"), role := none, action := some (.str "delete_dir"),
           content := .none, plannedBeforeHash := planned }]
  receiptMetadata := .dict [(.str "event_id", .str "e-1"), (.str "ticket_id", .none)]

/-- What validation makes of it. -/
def sampleValid (planned : Option PyVal) : ValidRequest where
  opId := "op-1"
  operation := "move"
  agent := "agent"
  projectIdentity := "/work"
  semanticPayloadHash := "payload"
  targets := [⟨["new", "a"], .generic, .write, some (.text "a"), none⟩,
    ⟨["old"], .generic, .deleteDir, none, planned⟩]
  preconditions := []
  verificationPolicy := .none
  readPreconditions := []
  receiptMetadata := some [(.str "event_id", .str "e-1")]

/-- The plan on a project that has only the directory. -/
def samplePlan (planned : Option PyVal) : List PreparedTarget :=
  [⟨["new", "a"], .generic, .write, some (.text "a"), .str "", "ca978112ca1bbdca"⟩,
    ⟨["old"], .generic, .deleteDir, none, planned.getD .none, ""⟩]

/-- The journal of the request. -/
def sampleJournal : Journal := ⟨"op-1", opsPath ++ ["op-1"]⟩

/-- A directory without a planned hash is published as `null`, which the decoder refuses. -/
theorem delete_dir_without_hash_undecodable :
    validateMutationRequest sampleEnvironment (sampleRequest none) = .ok (sampleValid none) ∧
      openJournal "op-1" [("old", .dir [])] = .ok sampleJournal ∧
      ∃ d', (sampleJournal.prepareMutation sampleEnvironment { now := 0 } (sampleValid none)
          none).Yields [("old", .dir [])] (.ok (samplePlan none)) d' ∧
        ∀ r, sampleJournal.decode sampleEnvironment false d' ≠ .ok r := by
  refine ⟨rfl, rfl, _, ⟨rfl, rfl⟩, ?_⟩
  intro r hr
  cases hr

/-- The planned hash of an empty directory. -/
abbrev emptyTreeHash : PyVal := .str ("delete-tree-sha256:" ++ emptyTreeDigest)

/-- With the planned hash of an empty directory the record is read back. -/
theorem planned_delete_dir_decodes :
    ∃ d', (sampleJournal.prepareMutation sampleEnvironment { now := 0 }
        (sampleValid (some emptyTreeHash)) none).Yields [("old", .dir [])]
        (.ok (samplePlan (some emptyTreeHash))) d' ∧
      ∃ r, sampleJournal.decode sampleEnvironment false d' = .ok r ∧
        r.Describes "op-1" (startArguments (sampleValid (some emptyTreeHash)) none
          (samplePlan (some emptyTreeHash))) := by
  have hv : validateMutationRequest sampleEnvironment (sampleRequest (some emptyTreeHash)) =
      .ok (sampleValid (some emptyTreeHash)) := rfl
  have hj : openJournal "op-1" [("old", .dir [])] = .ok sampleJournal := rfl
  refine ⟨_, ⟨rfl, rfl⟩, (published_record_decodes_iff hv hj ⟨rfl, rfl⟩).mpr ⟨?_, ?_⟩⟩
  · rintro ts hts t ht ha
    obtain rfl := Option.some.inj hts
    rcases List.mem_cons.mp ht with h | h
    · obtain rfl := Option.some.inj h
      cases ha
    · obtain rfl := Option.some.inj (List.mem_singleton.mp h)
      exact ⟨_, rfl⟩
  · intro fs hfs
    obtain rfl := Option.some.inj (Except.ok.inj hfs)
    exact ⟨[("event_id", .str "e-1")], rfl, checkMetadata_eq_ok.mp rfl⟩

end Saipen
