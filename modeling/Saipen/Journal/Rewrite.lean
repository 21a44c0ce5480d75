import Saipen.Journal.Append
import Saipen.Journal.Codec
import Saipen.Journal.Paths

/-! # A record that is written again

Appending targets rewrites the manifest from the record it has read. The object of a legible record
is decoded to that record, whatever its targets are, as long as each of them resolves to an object
of its own and the staged evidence is there. -/

namespace Saipen

open FileTree Checks

variable {env : Environment} {files : Entries Content} {status : Status}

/-! ### Targets -/

/-- A target that can be read back: its path resolves and its unknown keys are unknown. -/
structure TargetRecord.Legible (env : Environment) (t : TargetRecord) : Prop where
  owned : (ownedTargetPath env t.path).isSome = true
  clean : ∀ e ∈ t.extra, e.1 ∉ targetKeys

theorem TargetRecord.Legible.get_extra {t : TargetRecord} (h : t.Legible env) {k : String}
    (hk : k ∈ targetKeys) : Dict.get t.extra k = none :=
  Dict.get_eq_none fun e he heq => h.clean e he (heq ▸ hk)

theorem TargetRecord.get_path (t : TargetRecord) : Dict.get t.toDict "path" = some (.str t.path) :=
  rfl

theorem TargetRecord.get_role (t : TargetRecord) :
    Dict.get t.toDict "role" = some (.str t.role.name) := rfl

theorem TargetRecord.get_beforeHash (t : TargetRecord) :
    Dict.get t.toDict "before_hash" = some (.str t.beforeHash) := by
  simp [TargetRecord.toDict, Dict.get_append, Dict.get_cons, get_optField]

theorem TargetRecord.get_afterHash (t : TargetRecord) :
    Dict.get t.toDict "after_hash" = some (.str t.afterHash) := by
  simp [TargetRecord.toDict, Dict.get_append, Dict.get_cons, get_optField]

theorem TargetRecord.get_applied (t : TargetRecord) :
    Dict.get t.toDict "applied" = some (.bool t.applied) := by
  simp [TargetRecord.toDict, Dict.get_append, Dict.get_cons, get_optField]

theorem TargetRecord.Legible.get_action {t : TargetRecord} (h : t.Legible env) :
    Dict.get t.toDict "action" = t.action.map fun a => .str a.name := by
  have hx := h.get_extra (k := "action") (by decide)
  simp [TargetRecord.toDict, Dict.get_append, Dict.get_cons, get_optField, hx]

theorem TargetRecord.Legible.get_content {t : TargetRecord} (h : t.Legible env) :
    Dict.get t.toDict "content" = t.content.map .str := by
  have hx := h.get_extra (k := "content") (by decide)
  simp [TargetRecord.toDict, Dict.get_append, Dict.get_cons, get_optField, hx]

/-- Only the unknown keys of a target are left when the known ones are taken out. -/
theorem TargetRecord.Legible.unknown {t : TargetRecord} (h : t.Legible env) :
    t.toDict.filter (fun e => e.1 ∉ targetKeys) = t.extra := by
  have hextra : t.extra.filter (fun e => e.1 ∉ targetKeys) = t.extra :=
    List.filter_eq_self.mpr fun e he => decide_eq_true (h.clean e he)
  have hopt : ∀ k v, k ∈ targetKeys → (optField k v).filter (fun e => e.1 ∉ targetKeys) = [] := by
    intro k v hk
    cases v with
    | none => rfl
    | some j => exact List.filter_cons_of_neg (by simpa using hk)
  rw [TargetRecord.toDict, List.filter_append, List.filter_append, List.filter_append,
    List.filter_append, hextra, hopt _ _ (by decide), hopt _ _ (by decide)]
  rfl

/-- What is decoded again must have its staged evidence, like what was decoded first. -/
theorem decodeTarget_toDict {index : Nat} {seen : List Path} {t : TargetRecord} {p : Path}
    (h : t.Legible env) (hp : ownedTargetPath env t.path = some p) (hnew : p ∉ seen)
    (hstaged : checkStaged env files status index p t = .ok ()) :
    decodeTarget env files status index seen t.toDict = .ok (t, p) := by
  have hpath : decodeTargetPath env index seen t.path = .ok p := by
    rw [decodeTargetPath, if_neg (ownedTargetPath_eq_some hp).1.1, hp]
    exact if_neg hnew
  have haction : decodeAction env index t.toDict = .ok t.action := by
    rw [decodeAction, h.get_action]
    cases t.action with
    | none => rfl
    | some a => simp
  have hcontent : decodeContent index t.toDict = .ok t.content := by
    rw [decodeContent, h.get_content]
    cases t.content <;> rfl
  simp only [decodeTarget, bind_eq_ok, pure_eq_ok]
  refine ⟨t.path, by rw [targetString, t.get_path], t.role.name, by rw [targetString, t.get_role],
    t.beforeHash, by rw [targetString, t.get_beforeHash], t.afterHash,
    by rw [targetString, t.get_afterHash], p, hpath, t.role, ?_, t.action, haction, t.applied, ?_,
    t.content, hcontent, (), ?_, ?_⟩
  · rw [decodeRole, t.get_role]
    simp
  · rw [decodeApplied, t.get_applied]
  · rw [h.unknown]
    exact hstaged
  · rw [h.unknown]

/-- A list of targets with one object each is decoded again. -/
theorem decodeTargets_toDict {ts : List TargetRecord} :
    ∀ {index : Nat} {seen : List Path}, (∀ t ∈ ts, t.Legible env) →
      (∀ t ∈ ts, ∀ p, ownedTargetPath env t.path = some p → p ∉ seen) →
      (ts.map fun t => ownedTargetPath env t.path).Nodup →
      (∀ i t p, ts[i]? = some t → ownedTargetPath env t.path = some p →
        checkStaged env files status (index + i) p t = .ok ()) →
      decodeTargets env files status index seen (ts.map fun t => .obj t.toDict) = .ok ts := by
  induction ts with
  | nil => intros; rfl
  | cons t ts ih =>
    intro index seen hleg hnew hnodup hstaged
    obtain ⟨p, hp⟩ := Option.isSome_iff_exists.mp (hleg t List.mem_cons_self).owned
    rw [List.map_cons, List.nodup_cons] at hnodup
    have hhead := decodeTarget_toDict (hleg t List.mem_cons_self) hp
      (hnew t List.mem_cons_self p hp) (hstaged 0 t p rfl hp)
    have htail := @ih (index + 1) (seen ++ [p]) (fun u hu => hleg u (List.mem_cons_of_mem _ hu))
      (fun u hu q hq hmem => by
        rcases List.mem_append.mp hmem with hmem | hmem
        · exact hnew u (List.mem_cons_of_mem _ hu) q hq hmem
        · obtain rfl := List.mem_singleton.mp hmem
          exact hnodup.1 (List.mem_map.mpr ⟨u, hu, hq.trans hp.symm⟩))
      hnodup.2
      (fun i u q hu hq => by
        rw [Nat.add_assoc, Nat.add_comm 1]
        exact hstaged (i + 1) u q hu hq)
    rw [List.map_cons, decodeTargets]
    simp only [bind_eq_ok, pure_eq_ok]
    exact ⟨(t, p), hhead, ts, htail, rfl⟩

/-- What a decoded target keeps of its object. -/
structure Decodes (env : Environment) (files : Entries Content) (status : Status) (index : Nat)
    (d : Dict) (t : TargetRecord) : Prop where
  legible : t.Legible env
  path : d.get "path" = some (.str t.path)
  role : d.get "role" = some (.str t.role.name)
  staged : ∀ p, ownedTargetPath env t.path = some p → checkStaged env files status index p t = .ok ()

theorem decodeTarget_decodes {index : Nat} {seen : List Path} {d : Dict} {t : TargetRecord}
    {p : Path} (h : decodeTarget env files status index seen d = .ok (t, p)) :
    Decodes env files status index d t := by
  have howned := (decodeTarget_owned h).1
  simp only [decodeTarget, bind_eq_ok, pure_eq_ok] at h
  obtain ⟨path, hpath, _, -, _, -, _, -, canonical, -, role, hrole, _, -, _, -, _, -, u, hstaged, h⟩ := h
  obtain ⟨rfl, rfl⟩ := Prod.mk.inj h
  refine ⟨⟨by rw [howned]; rfl, fun e he => ?_⟩, ?_, ?_, fun q hq => ?_⟩
  · simpa using (List.mem_filter.mp he).2
  · unfold targetString at hpath
    split at hpath
    · next hs => exact hs.trans (by rw [Except.ok.inj hpath])
    · cases hpath
  · unfold decodeRole at hrole
    split at hrole
    · next r hr =>
      obtain ⟨s, hs, hr⟩ := Option.bind_eq_some_iff.mp hr
      obtain ⟨j, hj, hs⟩ := Option.bind_eq_some_iff.mp hs
      obtain rfl := Json.str?_eq_some.mp hs
      obtain rfl := Except.ok.inj hrole
      rw [hj, ofName?_eq_some hr]
    · cases hrole
  · obtain rfl := Option.some.inj (howned.symm.trans hq)
    exact hstaged

/-- The targets of a decoded list belong to its objects, one by one. -/
theorem decodeTargets_decodes {js : List Json} {ts : List TargetRecord} :
    ∀ {index : Nat} {seen : List Path}, decodeTargets env files status index seen js = .ok ts →
      ts.length = js.length ∧ ∀ i t, ts[i]? = some t →
        ∃ d, js[i]? = some (.obj d) ∧ Decodes env files status (index + i) d t := by
  induction js generalizing ts with
  | nil =>
    intro index seen h
    obtain rfl := Except.ok.inj h
    exact ⟨rfl, fun i t ht => by cases ht⟩
  | cons j js ih =>
    intro index seen h
    cases j with
    | obj d =>
      simp only [decodeTargets, bind_eq_ok, pure_eq_ok] at h
      obtain ⟨⟨t, p⟩, ht, us, hus, rfl⟩ := h
      obtain ⟨hlen, hrest⟩ := ih hus
      refine ⟨by rw [List.length_cons, List.length_cons, hlen], fun i u hu => ?_⟩
      cases i with
      | zero =>
        obtain rfl := Option.some.inj hu
        exact ⟨d, rfl, decodeTarget_decodes ht⟩
      | succ i =>
        obtain ⟨e, he, hdec⟩ := hrest i u hu
        refine ⟨e, he, ?_⟩
        rw [show index + (i + 1) = index + 1 + i by omega]
        exact hdec
    | _ => cases h

/-! ### Records -/

/-- A record that can be read back from its object: what the decoder asks of every field but the
targets. -/
structure Record.Legible (env : Environment) (dirName : String) (r : Record) : Prop where
  opId : r.opId ≠ "" ∧ (∃ v, validateOpId r.opId = .ok v) ∧ dirName = r.opId
  operation : r.operation ≠ ""
  createdAt : decodeCreatedAt env r.status r.createdAt = .ok r.createdAt
  preconditions : ∀ m, r.preconditions = some m → ∀ k ∈ m.map Prod.fst, k ≠ ""
  readPreconditions : ∀ m, r.readPreconditions = some m → ∀ k ∈ m.map Prod.fst, k ≠ ""
  receiptMetadata : ∀ m, r.receiptMetadata = .value m →
    canonicalReceiptMetadata m = .ok m ∧ checkMetadata m = .ok ()
  clean : r.Clean

/-- The keys of a decoded map are not empty. -/
theorem decodeHashMap_keys {fs : List (String × Json)} {m : List (String × String)}
    (h : decodeHashMap fs = some m) : ∀ k ∈ m.map Prod.fst, k ≠ "" := by
  induction fs generalizing m with
  | nil =>
    obtain rfl := Option.some.inj h
    intro k hk
    cases hk
  | cons e fs ih =>
    obtain ⟨l, j⟩ := e
    cases j with
    | str v =>
      rw [decodeHashMap] at h
      split_ifs at h with hl
      obtain ⟨m', hm', rfl⟩ := Option.map_eq_some_iff.mp h
      intro k hk
      rcases List.mem_cons.mp hk with rfl | hk
      · exact hl
      · exact ih hm' k hk
    | _ => cases h

theorem decodePreconditions_keys {key : String} {d : Dict} {o : Option (List (String × String))}
    (h : decodePreconditions key d = .ok o) : ∀ m, o = some m → ∀ k ∈ m.map Prod.fst, k ≠ "" := by
  intro m hm
  subst hm
  unfold decodePreconditions at h
  split at h
  · cases h
  · split at h
    · next m' hm' =>
      obtain rfl := Option.some.inj (Except.ok.inj h)
      exact decodeHashMap_keys hm'
    · cases h
  · cases h

theorem decodePreconditions_ofPairs {key : String} {d : Dict}
    {o : Option (List (String × String))} (hd : d.get key = o.map stringMap)
    (h : ∀ m, o = some m → ∀ k ∈ m.map Prod.fst, k ≠ "") : decodePreconditions key d = .ok o := by
  unfold decodePreconditions
  cases o with
  | none => rw [hd]; rfl
  | some m =>
    rw [hd]
    simp only [Option.map_some, stringMap, decodeHashMap_stringMap (h m rfl)]

/-- Metadata that was made canonical is canonical. -/
theorem canonicalReceiptMetadata_idem {m m' : Dict} (h : canonicalReceiptMetadata m = .ok m') :
    canonicalReceiptMetadata m' = .ok m' := by
  have hpop : canonicalReceiptMetadata (m.pop "ticket_id") = .ok (m.pop "ticket_id") := by
    rw [canonicalReceiptMetadata, Dict.get_pop, if_pos rfl]
  unfold canonicalReceiptMetadata at h
  split at h
  · next hg =>
    obtain rfl := Except.ok.inj h
    rw [canonicalReceiptMetadata, hg]
  · obtain rfl := Except.ok.inj h
    exact hpop
  · next s hs =>
    obtain rfl := Except.ok.inj h
    by_cases hne : s = ""
    · rw [if_pos hne]
      exact hpop
    · rw [if_neg hne, canonicalReceiptMetadata, hs]
      simp only [if_neg hne]
  · cases h

theorem decodeMetadata_value {d m : Dict} (h : decodeMetadata d = .ok (.value m)) :
    canonicalReceiptMetadata m = .ok m ∧ checkMetadata m = .ok () := by
  unfold decodeMetadata at h
  split at h
  · cases h
  · cases h
  · split at h
    · cases h
    · next m' hm' =>
      split at h
      · cases h
      · next hcheck =>
        obtain rfl := Nullable.value.inj (Except.ok.inj h)
        exact ⟨canonicalReceiptMetadata_idem hm', hcheck⟩
  · cases h

/-- The stamp of an unresolved record is the one that is written. -/
theorem decodeCreatedAt_idem {status status' : Status} {s t : String}
    (h : decodeCreatedAt env status s = .ok t) (hs : status.unresolved = true) :
    decodeCreatedAt env status' t = .ok t := by
  unfold decodeCreatedAt at h
  simp only at h
  split_ifs at h with hbad hempty
  · cases h
  · exact absurd ⟨hs, hempty⟩ hbad
  · obtain rfl := Except.ok.inj h
    have hfix : strictIsoUtc env (strictIsoUtc env s) = strictIsoUtc env s := by
      unfold strictIsoUtc at hempty ⊢
      cases hp : env.strictUtcStamp (Text.strip s) with
      | none => rw [hp] at hempty; exact absurd rfl hempty
      | some i => rw [Option.elim_some, env.isoFormat_strip, env.strictUtcStamp_isoFormat]; rfl
    rw [decodeCreatedAt, hfix, if_neg fun hb => hempty hb.2, if_neg hempty]

/-- A PREPARED manifest, under a sidecar that leaves it PREPARED, is legible. -/
theorem RecordFields.legible {dirName : String} {d : Dict} {base : Record}
    (h : RecordFields env dirName files d base) (hs : base.status.unresolved = true) :
    base.Legible env dirName where
  opId := by
    obtain ⟨-, hne, hv, hdir⟩ := decodeOpId_eq_ok.mp h.opId
    exact ⟨hne, hv, hdir⟩
  operation := by
    have hop := h.operation
    unfold decodeOperation at hop
    split at hop
    · split_ifs at hop with hne
      · cases hop
      · exact fun heq => hne (by rw [Except.ok.inj hop, heq])
    · cases hop
  createdAt := by
    obtain ⟨s, -, hc⟩ := h.createdAt
    exact decodeCreatedAt_idem hc hs
  preconditions := decodePreconditions_keys h.preconditions
  readPreconditions := decodePreconditions_keys h.readPreconditions
  receiptMetadata := fun m hm => decodeMetadata_value (hm ▸ h.receiptMetadata)
  clean := by
    intro e he
    rw [h.extra] at he
    simpa using (List.mem_filter.mp he).2

/-- The sidecar leaves a record legible when it leaves its status unresolved. -/
theorem Record.Legible.withProgress {dirName : String} {r : Record} (h : r.Legible env dirName)
    (hs : r.status.unresolved = true) (p : Progress) : (r.withProgress p).Legible env dirName :=
  { h with createdAt := decodeCreatedAt_idem h.createdAt hs }

/-- Other targets do not matter to the header. -/
theorem Record.Legible.withTargets {dirName : String} {r : Record} (h : r.Legible env dirName)
    (ts : List TargetRecord) : ({ r with targets := ts } : Record).Legible env dirName :=
  { h with }

/-- What the object of a record holds under the optional keys and under the last ones. -/
structure Record.Written (r : Record) : Prop where
  payload : Dict.get r.toDict "semantic_payload_hash" = some (.str r.semanticPayloadHash)
  preconditions : Dict.get r.toDict "preconditions" = r.preconditions.map stringMap
  readPreconditions : Dict.get r.toDict "read_preconditions" = r.readPreconditions.map stringMap
  policy : Dict.get r.toDict "verification_policy" = r.verificationPolicy.map fun p => .str p.name
  progressIndex : Dict.get r.toDict "progress_index" = some (.int r.progressIndex)
  targets : Dict.get r.toDict "targets" = some (.arr (r.targets.map fun t => .obj t.toDict))
  receiptMetadata : Dict.get r.toDict "receipt_metadata" = r.receiptMetadata.json .obj

theorem Record.Clean.written {r : Record} (h : r.Clean) : r.Written where
  payload := by
    simp [Record.toDict, Dict.get_append, Dict.get_cons, get_nullableField]
  preconditions := by
    have hx := h.get_extra (k := "preconditions") (by decide)
    simp [Record.toDict, Dict.get_append, Dict.get_cons, get_optField, get_nullableField, hx]
  readPreconditions := by
    have hx := h.get_extra (k := "read_preconditions") (by decide)
    simp [Record.toDict, Dict.get_append, Dict.get_cons, get_optField, get_nullableField, hx]
  policy := by
    have hx := h.get_extra (k := "verification_policy") (by decide)
    simp [Record.toDict, Dict.get_append, Dict.get_cons, get_optField, get_nullableField, hx]
  progressIndex := by
    simp [Record.toDict, Dict.get_append, Dict.get_cons, get_optField, get_nullableField]
  targets := by
    simp [Record.toDict, Dict.get_append, Dict.get_cons, get_optField, get_nullableField]
  receiptMetadata := by
    have hx := h.get_extra (k := "receipt_metadata") (by decide)
    simp [Record.toDict, Dict.get_append, Dict.get_cons, get_optField, get_nullableField, hx]

/-- Only the unknown keys of a record are left when the known ones are taken out. -/
theorem Record.Clean.unknown {r : Record} (h : r.Clean) :
    r.toDict.filter (fun e => e.1 ∉ recordKeys) = r.extra := by
  have hextra : r.extra.filter (fun e => e.1 ∉ recordKeys) = r.extra :=
    List.filter_eq_self.mpr fun e he => decide_eq_true (h e he)
  have hopt : ∀ k v, k ∈ recordKeys → (optField k v).filter (fun e => e.1 ∉ recordKeys) = [] := by
    intro k v hk
    cases v with
    | none => rfl
    | some j => exact List.filter_cons_of_neg (by simpa using hk)
  have hnull : ∀ {α : Type} k (f : α → Json) v, k ∈ recordKeys →
      (nullableField k f v).filter (fun e => e.1 ∉ recordKeys) = [] := by
    intro α k f v hk
    cases v with
    | absent => rfl
    | null => exact List.filter_cons_of_neg (by simpa using hk)
    | value a => exact List.filter_cons_of_neg (by simpa using hk)
  simp only [Record.toDict, List.filter_append, hextra]
  rw [hopt _ _ (by decide), hopt _ _ (by decide), hopt _ _ (by decide), hnull _ _ _ (by decide),
    hnull _ _ _ (by decide)]
  rfl

/-- A legible record whose targets are decoded is decoded from its own object. -/
theorem decodeRecord_toDict {dirName : String} {r : Record} (h : r.Legible env dirName)
    (hts : decodeTargets env files r.status 0 [] (r.targets.map fun t => .obj t.toDict) = .ok r.targets) :
    decodeRecord env dirName files r.toDict = .ok r := by
  have hw := h.clean.written
  refine decodeRecord_eq_ok.mpr {
    opId := decodeOpId_eq_ok.mpr ⟨rfl, h.opId⟩
    status := decodeStatus_eq_ok.mpr r.get_status
    operation := ?_
    payload := requireString_eq_ok.mpr hw.payload
    createdAt := ⟨r.createdAt, requireString_eq_ok.mpr rfl, h.createdAt⟩
    agent := requireString_eq_ok.mpr rfl
    projectIdentity := requireString_eq_ok.mpr r.get_projectIdentity
    projectLineage := ?_
    verificationPolicy := ?_
    preconditions := decodePreconditions_ofPairs hw.preconditions h.preconditions
    readPreconditions := decodePreconditions_ofPairs hw.readPreconditions h.readPreconditions
    receiptMetadata := ?_
    progressIndex := ?_
    targets := ⟨_, hw.targets, hts⟩
    extra := h.clean.unknown.symm }
  · have hop : Dict.get r.toDict "operation" = some (.str r.operation) := rfl
    rw [decodeOperation, hop]
    exact if_neg h.operation
  · rw [decodeLineage, Record.get_projectLineage h.clean]
    cases r.projectLineage <;> rfl
  · rw [decodePolicy, hw.policy]
    cases r.verificationPolicy with
    | none => rfl
    | some p => simp
  · rw [decodeMetadata, hw.receiptMetadata]
    cases hm : r.receiptMetadata with
    | absent => rfl
    | null => rfl
    | value m =>
      obtain ⟨hcan, hcheck⟩ := h.receiptMetadata m hm
      simp only [Nullable.json, hcan, hcheck]
  · rw [decodeProgressIndex, hw.progressIndex]
    rfl

/-- The object of a record up to its targets. -/
def Record.header (r : Record) : Dict :=
  [("op_id", .str r.opId), ("operation", .str r.operation), ("created_at", .str r.createdAt),
    ("agent", .str r.agent), ("project_identity", .str r.projectIdentity)] ++
    nullableField "project_lineage" .str r.projectLineage ++
    [("semantic_payload_hash", .str r.semanticPayloadHash)] ++
    optField "preconditions" (r.preconditions.map stringMap) ++
    optField "read_preconditions" (r.readPreconditions.map stringMap) ++
    optField "verification_policy" (r.verificationPolicy.map fun p => .str p.name) ++
    [("status", .str r.status.name), ("progress_index", .int r.progressIndex)]

theorem Record.toDict_eq (r : Record) :
    r.toDict = r.header ++ ("targets", .arr (r.targets.map fun t => .obj t.toDict)) ::
      (nullableField "receipt_metadata" .obj r.receiptMetadata ++ r.extra) := by
  simp only [Record.toDict, Record.header, List.append_assoc, List.cons_append, List.nil_append]

theorem optField_keys {key k : String} {v : Option Json} (h : k ∈ (optField key v).map Prod.fst) :
    k = key := by
  cases v with
  | none => cases h
  | some j => exact List.mem_singleton.mp h

theorem nullableField_keys {α : Type} {key k : String} {f : α → Json} {v : Nullable α}
    (h : k ∈ (nullableField key f v).map Prod.fst) : k = key := by
  cases v with
  | absent => cases h
  | null => exact List.mem_singleton.mp h
  | value a => exact List.mem_singleton.mp h

theorem Record.targets_notMem_header (r : Record) : "targets" ∉ r.header.map Prod.fst := by
  intro h
  simp only [Record.header, List.map_append, List.mem_append] at h
  rcases h with (((((h | h) | h) | h) | h) | h) | h
  · revert h; simp
  · exact absurd (nullableField_keys h) (by decide)
  · revert h; simp
  · exact absurd (optField_keys h) (by decide)
  · exact absurd (optField_keys h) (by decide)
  · exact absurd (optField_keys h) (by decide)
  · revert h; simp

/-- The object of a record with other targets is the object of the record with these targets. -/
theorem Record.toDictWith_toDict (r : Record) (ts : List TargetRecord) :
    r.toDictWith (ts.map TargetRecord.toDict) = ({ r with targets := ts } : Record).toDict := by
  rw [Record.toDictWith, Record.toDict_eq, Record.toDict_eq, List.map_map]
  exact Assoc.set_append_cons _ _ r.targets_notMem_header _

/-! ### More files and more targets -/

/-- More files take no staged evidence away. -/
theorem decodeTargets_mono {files' : Entries Content} {js : List Json}
    (hmore : ∀ i s, (files.lookup (stagedName env i s)).any Node.isFile = true →
      (files'.lookup (stagedName env i s)).any Node.isFile = true)
    (hlegacy : ∀ i s, (files.lookup (legacyStagedName i s)).any Node.isFile = true →
      (files'.lookup (legacyStagedName i s)).any Node.isFile = true) :
    ∀ {index : Nat} {seen : List Path} {ts : List TargetRecord},
      decodeTargets env files status index seen js = .ok ts →
        decodeTargets env files' status index seen js = .ok ts := by
  have hcheck : ∀ index p t, checkStaged env files status index p t = .ok () →
      checkStaged env files' status index p t = .ok () := by
    intro index p t h
    unfold checkStaged at h ⊢
    split_ifs at h with hmissing
    · cases h
    · rw [if_neg]
      rintro ⟨hs, hw, hno⟩
      refine hmissing ⟨hs, hw, fun hhas => hno ?_⟩
      unfold hasStaged at hhas ⊢
      rcases Bool.or_eq_true _ _ ▸ hhas with h1 | h1
      · rw [hmore _ _ h1, Bool.true_or]
      · rw [hlegacy _ _ h1, Bool.or_true]
  induction js with
  | nil => exact fun h => h
  | cons j js ih =>
    intro index seen ts h
    cases j with
    | obj d =>
      simp only [decodeTargets, bind_eq_ok, pure_eq_ok] at h ⊢
      obtain ⟨⟨t, p⟩, ht, us, hus, rfl⟩ := h
      refine ⟨(t, p), ?_, us, ih hus, rfl⟩
      simp only [decodeTarget, bind_eq_ok, pure_eq_ok] at ht ⊢
      obtain ⟨path, h1, s2, h2, s3, h3, s4, h4, q, h5, r, h6, a, h7, b, h8, c, h9, u, h10, h11⟩ := ht
      exact ⟨path, h1, s2, h2, s3, h3, s4, h4, q, h5, r, h6, a, h7, b, h8, c, h9, u,
        hcheck _ _ _ h10, h11⟩
    | _ => cases h

/-- A manifest decodes to the same record over more files. -/
theorem decodeManifest_mono {files' : Entries Content} {dirName : String} {raw : Content}
    {r : Record}
    (hmore : ∀ i s, (files.lookup (stagedName env i s)).any Node.isFile = true →
      (files'.lookup (stagedName env i s)).any Node.isFile = true)
    (hlegacy : ∀ i s, (files.lookup (legacyStagedName i s)).any Node.isFile = true →
      (files'.lookup (legacyStagedName i s)).any Node.isFile = true)
    (h : decodeManifest env dirName files raw = .ok r) :
    decodeManifest env dirName files' raw = .ok r := by
  obtain ⟨d, hd, hr⟩ := decodeManifest_eq_ok.mp h
  obtain ⟨js, hjs, hts⟩ := (decodeRecord_eq_ok.mp hr).targets
  refine decodeManifest_eq_ok.mpr ⟨d, hd, decodeRecord_eq_ok.mpr ?_⟩
  exact { decodeRecord_eq_ok.mp hr with
    targets := ⟨js, hjs, decodeTargets_mono hmore hlegacy hts⟩ }

theorem markApplied_of_nonpos {n : Int} (h : n ≤ 0) (ts : List TargetRecord) :
    markApplied n ts = ts := by
  induction ts generalizing n with
  | nil => rfl
  | cons t ts ih => rw [markApplied, if_neg (by omega), ih (by omega)]

/-- A frontier within the first targets does not reach the others. -/
theorem markApplied_append {n : Int} {ts : List TargetRecord} (h : n ≤ ts.length)
    (us : List TargetRecord) : markApplied n (ts ++ us) = markApplied n ts ++ us := by
  induction ts generalizing n with
  | nil => exact markApplied_of_nonpos (by simpa using h) us
  | cons t ts ih =>
    rw [List.cons_append, markApplied, markApplied, ih (by simp at h; omega), List.cons_append]

theorem markApplied_idem (n : Int) (ts : List TargetRecord) :
    markApplied n (markApplied n ts) = markApplied n ts := by
  induction ts generalizing n with
  | nil => rfl
  | cons t ts ih =>
    rw [markApplied, markApplied, ih]
    by_cases hn : 0 < n <;> simp [hn]

theorem sidecarInt_mono {d : Dict} {key : String} {lo hi hi' : Int} {o : Option Int} (hle : hi ≤ hi')
    (h : sidecarInt d key lo hi = .ok o) : sidecarInt d key lo hi' = .ok o := by
  unfold sidecarInt at h ⊢
  split at h
  · exact h
  · exact h
  · next n hn =>
    split_ifs at h with hrange
    rw [if_neg (by omega)]
    exact h
  · cases h

theorem sidecarInt_le {d : Dict} {key : String} {lo hi n : Int}
    (h : sidecarInt d key lo hi = .ok (some n)) : n ≤ hi := by
  unfold sidecarInt at h
  split at h
  · cases h
  · cases h
  · next m hm =>
    split_ifs at h with hrange
    obtain rfl := Option.some.inj (Except.ok.inj h)
    omega
  · cases h

/-- What a sidecar says of an unresolved record it says of it again, with more targets behind. -/
theorem decodeProgressSidecar_grown {n k : Nat} {base : Status} (status : Status) {raw : Content}
    {p : Progress} (hbase : base.unresolved = true)
    (h : decodeProgressSidecar env n base false raw = .ok p) :
    decodeProgressSidecar env (n + k) status false raw = .ok p ∧
      ∀ f, p.appliedFrontier = some f → f + 1 ≤ n := by
  unfold decodeProgressSidecar at h ⊢
  split at h
  · cases h
  · next d hd =>
    simp only [decodeProgress, bind_eq_ok] at h ⊢
    obtain ⟨st, hst, pi, hpi, fr, hfr, h⟩ := h
    split at h
    · cases h
    · next hsettled =>
      obtain rfl := pure_eq_ok.mp h
      have hst' : ¬ st.any Status.settled = true := fun hs => hsettled ⟨hs, hbase, by simp⟩
      refine ⟨⟨st, hst, pi, sidecarInt_mono (by omega) hpi, fr, sidecarInt_mono (by omega) hfr, ?_⟩, ?_⟩
      · rw [if_neg fun hs => hst' hs.1]
        rfl
      · rintro f rfl
        have := sidecarInt_le hfr
        omega
  · cases h

/-- A sidecar that says what the record says leaves it as it is. -/
theorem Record.withProgress_eq_self {r : Record} {p : Progress}
    (hstatus : p.status.getD r.status = r.status)
    (hindex : p.progressIndex.getD r.progressIndex = r.progressIndex)
    (htargets : (p.appliedFrontier.elim r.targets fun f => markApplied (f + 1) r.targets) = r.targets) :
    r.withProgress p = r := by
  rw [Record.withProgress, hstatus, hindex, htargets]

/-- A record that was merged with its sidecar is merged with it again without a change, with more
targets behind the ones the sidecar counts. -/
theorem mergeProgress_grown {base r : Record} {raw : Option Content}
    (h : mergeProgress env base false raw = .ok r) (hbase : base.status.unresolved = true)
    (us : List TargetRecord) :
    mergeProgress env { r with targets := r.targets ++ us } false raw =
      .ok { r with targets := r.targets ++ us } := by
  rcases mergeProgress_eq_ok_iff.mp h with ⟨rfl, rfl⟩ | ⟨c, p, rfl, hp, rfl⟩
  · rfl
  · have hlen : (base.withProgress p).targets.length = base.targets.length := by
      have := congrArg List.length (withProgress_map TargetRecord.path (fun _ => rfl) base p)
      simpa using this
    obtain ⟨hp', hfrontier⟩ := decodeProgressSidecar_grown (k := us.length)
      (base.withProgress p).status hbase hp
    refine mergeProgress_eq_ok_iff.mpr (.inr ⟨c, p, rfl, ?_, ?_⟩)
    · rw [List.length_append, hlen]
      exact hp'
    · have hstatus : p.status.getD (base.withProgress p).status = (base.withProgress p).status := by
        rw [Record.withProgress]
        cases p.status <;> rfl
      have hindex : p.progressIndex.getD (base.withProgress p).progressIndex =
          (base.withProgress p).progressIndex := by
        rw [Record.withProgress]
        cases p.progressIndex <;> rfl
      have htargets : p.appliedFrontier.elim ((base.withProgress p).targets ++ us) (fun f =>
          markApplied (f + 1) ((base.withProgress p).targets ++ us)) =
            (base.withProgress p).targets ++ us := by
        cases hf : p.appliedFrontier with
        | none => rfl
        | some f =>
          have hts : (base.withProgress p).targets = markApplied (f + 1) base.targets := by
            rw [Record.withProgress, hf]
            rfl
          rw [Option.elim_some, markApplied_append (by rw [hlen]; exact hfrontier f hf), hts,
            markApplied_idem]
      symm
      apply Record.withProgress_eq_self
      · exact hstatus
      · exact hindex
      · exact htargets

end Saipen
