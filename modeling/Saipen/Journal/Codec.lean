import Saipen.Checks
import Saipen.Journal.Decode

/-! # What the decoder accepts

Inversion of the decoder: a record is decoded exactly when every field is, and the fields of the
record are the decoded ones. The decode of a terminal record depends on its bytes alone. -/

namespace Saipen

open FileTree Checks

variable {env : Environment}

/-- The fields of a decoded record, one by one. -/
structure RecordFields (env : Environment) (dirName : String) (files : Entries Content) (d : Dict)
    (r : Record) : Prop where
  opId : decodeOpId dirName d = .ok r.opId
  status : decodeStatus env d = .ok r.status
  operation : decodeOperation d = .ok r.operation
  payload : requireString d "semantic_payload_hash" = .ok r.semanticPayloadHash
  createdAt : ∃ s, requireString d "created_at" = .ok s ∧
    decodeCreatedAt env r.status s = .ok r.createdAt
  agent : requireString d "agent" = .ok r.agent
  projectIdentity : requireString d "project_identity" = .ok r.projectIdentity
  projectLineage : decodeLineage d = .ok r.projectLineage
  verificationPolicy : decodePolicy env d = .ok r.verificationPolicy
  preconditions : decodePreconditions "preconditions" d = .ok r.preconditions
  readPreconditions : decodePreconditions "read_preconditions" d = .ok r.readPreconditions
  receiptMetadata : decodeMetadata d = .ok r.receiptMetadata
  progressIndex : decodeProgressIndex d = .ok r.progressIndex
  targets : ∃ js, d.get "targets" = some (.arr js) ∧
    decodeTargets env files r.status 0 [] js = .ok r.targets
  extra : r.extra = d.filter fun e => e.1 ∉ recordKeys

theorem decodeRecord_eq_ok {dirName : String} {files : Entries Content} {d : Dict} {r : Record} :
    decodeRecord env dirName files d = .ok r ↔ RecordFields env dirName files d r := by
  constructor
  · intro h
    simp only [decodeRecord, bind_eq_ok] at h
    obtain ⟨_, h1, _, h2, _, h3, _, h4, s, h5, _, h6, _, h7, _, h8, _, h9, _, h10, _, h11, _, h12,
      _, h13, _, h14, h⟩ := h
    split at h
    · next js htargets =>
      simp only [bind_eq_ok, pure_eq_ok] at h
      obtain ⟨ts, hts, rfl⟩ := h
      exact ⟨h1, h2, h3, h4, ⟨s, h5, h6⟩, h7, h8, h9, h10, h11, h12, h13, h14,
        ⟨js, htargets, hts⟩, rfl⟩
    · simp [badField] at h
  · intro h
    obtain ⟨s, hs, hc⟩ := h.createdAt
    obtain ⟨js, hj, ht⟩ := h.targets
    simp only [decodeRecord, bind_eq_ok]
    refine ⟨_, h.opId, _, h.status, _, h.operation, _, h.payload, s, hs, _, hc, _, h.agent, _,
      h.projectIdentity, _, h.projectLineage, _, h.verificationPolicy, _, h.preconditions, _,
      h.readPreconditions, _, h.receiptMetadata, _, h.progressIndex, ?_⟩
    rw [hj]
    simp only [bind_eq_ok, pure_eq_ok]
    exact ⟨_, ht, by rw [← h.extra]⟩

theorem requireString_eq_ok {d : Dict} {key s : String} :
    requireString d key = .ok s ↔ d.get key = some (.str s) := by
  unfold requireString
  split <;> simp_all [badField]

theorem decodeOpId_eq_ok {dirName s : String} {d : Dict} :
    decodeOpId dirName d = .ok s ↔
      d.get "op_id" = some (.str s) ∧ s ≠ "" ∧ (∃ v, validateOpId s = .ok v) ∧ dirName = s := by
  unfold decodeOpId
  split
  · next t ht =>
    split
    · next h0 => simp only [badField, reduceCtorEq, ht, false_iff]; rintro ⟨h, h', -⟩; simp_all
    · next h0 =>
      split
      · next e he =>
        simp only [badField, reduceCtorEq, ht, false_iff]
        rintro ⟨h, -, ⟨v, hv⟩, -⟩
        simp_all
      · next v hv =>
        split
        · next h =>
          simp only [ht, Option.some.injEq, Json.str.injEq, Except.ok.injEq]
          constructor
          · rintro rfl; exact ⟨rfl, h0, ⟨v, hv⟩, h⟩
          · exact fun h => h.1
        · next h => simp only [badField, reduceCtorEq, ht, false_iff]; rintro ⟨h', -, -, h''⟩; simp_all
  · next h =>
    simp only [badField, reduceCtorEq, false_iff]
    rintro ⟨h', -⟩
    exact h s h'

theorem decodeStatus_eq_ok {d : Dict} {s : Status} :
    decodeStatus env d = .ok s ↔ d.get "status" = some (.str s.name) := by
  unfold decodeStatus
  cases hg : d.get "status" with
  | none => simp [badField]
  | some j =>
    cases j with
    | str t =>
      simp only [Option.bind_some, Json.str?_str]
      cases ht : Status.ofName? t with
      | none =>
        simp only [badField, reduceCtorEq, Option.some.injEq, Json.str.injEq, false_iff]
        rintro rfl
        simp at ht
      | some u =>
        have := ofName?_eq_some ht
        subst this
        simp only [Except.ok.injEq, Option.some.injEq, Json.str.injEq]
        constructor
        · rintro rfl; rfl
        · intro h
          have h' := congrArg Status.ofName? h
          simpa using h'
    | _ => simp [Json.str?, badField]

/-- A map with non-empty keys is read back. -/
theorem decodeHashMap_stringMap {m : List (String × String)}
    (h : ∀ k ∈ m.map Prod.fst, k ≠ "") :
    decodeHashMap (m.map fun e => (e.1, Json.str e.2)) = some m := by
  induction m with
  | nil => rfl
  | cons e m ih =>
    obtain ⟨k, v⟩ := e
    have hk : k ≠ "" := h k (by simp)
    rw [List.map_cons, decodeHashMap, if_neg hk,
      ih fun l hl => h l (List.mem_cons_of_mem _ hl)]
    rfl

/-- The staged evidence matters to unresolved records only. -/
theorem decodeTarget_of_settled {status : Status} (h : status.settled = true) (index : Nat)
    (seen : List Path) (d : Dict) (files files' : Entries Content) :
    decodeTarget env files status index seen d = decodeTarget env files' status index seen d := by
  simp [decodeTarget, checkStaged, Status.unresolved, h]

theorem decodeTargets_of_settled {status : Status} (h : status.settled = true)
    (files files' : Entries Content) (js : List Json) : ∀ (index : Nat) (seen : List Path),
    decodeTargets env files status index seen js = decodeTargets env files' status index seen js := by
  induction js with
  | nil => intro index seen; rfl
  | cons j js ih =>
    intro index seen
    cases j with
    | obj d =>
      simp only [decodeTargets]
      rw [decodeTarget_of_settled h index seen d files files']
      simp only [ih]
    | _ => rfl

/-- A terminal manifest decodes the same whatever else its directory holds. -/
theorem decodeManifest_of_settled {dirName : String} {files files' : Entries Content}
    {raw : Content} {r : Record} (h : decodeManifest env dirName files raw = .ok r)
    (hs : r.status.settled = true) : decodeManifest env dirName files' raw = .ok r := by
  unfold decodeManifest at h ⊢
  cases hl : raw.loads with
  | none => simp [hl, untrusted] at h
  | some j =>
    rw [hl] at h
    cases j with
    | obj d =>
      simp only [decodeRecord_eq_ok] at h ⊢
      obtain ⟨js, hj, ht⟩ := h.targets
      exact { h with
        targets := ⟨js, hj, by rw [decodeTargets_of_settled hs files' files, ht]⟩ }
    | _ => simp [untrusted] at h

/-- The decoded record carries the name of its directory. -/
theorem decodeManifest_opId {dirName : String} {files : Entries Content} {raw : Content}
    {r : Record} (h : decodeManifest env dirName files raw = .ok r) :
    r.opId = dirName ∧ r.opId ≠ "" := by
  unfold decodeManifest at h
  split at h
  · simp [untrusted] at h
  · have := decodeOpId_eq_ok.mp (decodeRecord_eq_ok.mp h).opId
    exact ⟨this.2.2.2.symm, this.2.1⟩
  · simp [untrusted] at h

/-! ### The object of a record -/

theorem get_optField (key k : String) (v : Option Json) :
    Dict.get (optField key v) k = if k = key then v else none := by
  cases v with
  | none => simp [optField]
  | some j => simp [optField, Dict.get_cons]

/-- The JSON value of a nullable field. -/
def Nullable.json {α : Type} (f : α → Json) : Nullable α → Option Json
  | .absent => none
  | .null => some .null
  | .value a => some (f a)

theorem get_nullableField {α : Type} (key k : String) (f : α → Json) (v : Nullable α) :
    Dict.get (nullableField key f v) k = if k = key then v.json f else none := by
  cases v <;> simp [nullableField, Dict.get_cons, Nullable.json]

/-- A record whose unknown keys are really unknown. -/
def Record.Clean (r : Record) : Prop := ∀ e ∈ r.extra, e.1 ∉ recordKeys

theorem Record.Clean.get_extra {r : Record} (h : r.Clean) {k : String} (hk : k ∈ recordKeys) :
    Dict.get r.extra k = none :=
  Dict.get_eq_none fun e he heq => h e he (heq ▸ hk)

theorem Record.get_status (r : Record) :
    Dict.get r.toDict "status" = some (.str r.status.name) := by
  simp [Record.toDict, Dict.get_append, Dict.get_cons, get_optField, get_nullableField]

theorem Record.get_projectIdentity (r : Record) :
    Dict.get r.toDict "project_identity" = some (.str r.projectIdentity) := by
  simp [Record.toDict, Dict.get_cons]

theorem Record.get_projectLineage {r : Record} (h : r.Clean) :
    Dict.get r.toDict "project_lineage" = r.projectLineage.json .str := by
  have := h.get_extra (k := "project_lineage") (by decide)
  simp [Record.toDict, Dict.get_append, Dict.get_cons, get_optField, get_nullableField, this]

/-- Equivalent receipts agree on every field of their canonical form. -/
theorem canonical_get_eq {a b : Record} (h : a.terminalReceiptEquivalent b = true) (k : String) :
    (Dict.get a.toDict k).map Json.canonical = (Dict.get b.toDict k).map Json.canonical := by
  have h' := of_decide_eq_true h
  simp only [Record.toJson, Json.canonical, Json.obj.injEq] at h'
  rw [← Dict.get_canonicalFields, ← Dict.get_canonicalFields, h']

theorem Nullable.json_str_injective {v w : Nullable String}
    (h : (v.json Json.str).map Json.canonical = (w.json Json.str).map Json.canonical) : v = w := by
  cases v <;> cases w <;> simp_all [Nullable.json, Json.canonical]

/-- Equivalent receipts have the same status, machine identity and lineage. -/
theorem binding_fields_eq {a b : Record} (ha : a.Clean) (hb : b.Clean)
    (h : a.terminalReceiptEquivalent b = true) :
    a.status = b.status ∧ a.projectIdentity = b.projectIdentity ∧
      a.projectLineage = b.projectLineage := by
  have h1 := canonical_get_eq h "status"
  have h2 := canonical_get_eq h "project_identity"
  have h3 := canonical_get_eq h "project_lineage"
  rw [Record.get_status, Record.get_status] at h1
  rw [Record.get_projectIdentity, Record.get_projectIdentity] at h2
  rw [Record.get_projectLineage ha, Record.get_projectLineage hb] at h3
  simp only [Option.map_some, Json.canonical, Option.some.injEq, Json.str.injEq] at h1 h2
  refine ⟨?_, h2, Nullable.json_str_injective h3⟩
  simpa using congrArg Status.ofName? h1

theorem decodeManifest_clean {dirName : String} {files : Entries Content} {raw : Content}
    {r : Record} (h : decodeManifest env dirName files raw = .ok r) : r.Clean := by
  unfold decodeManifest at h
  split at h
  · simp [untrusted] at h
  · intro e he
    rw [(decodeRecord_eq_ok.mp h).extra] at he
    simpa using (List.mem_filter.mp he).2
  · simp [untrusted] at h

/-! ### Merging the sidecar -/

@[simp] theorem markApplied_length (n : Int) (ts : List TargetRecord) :
    (markApplied n ts).length = ts.length := by
  induction ts generalizing n with
  | nil => rfl
  | cons t ts ih => simp [markApplied, ih]

theorem withProgress_opId (r : Record) (p : Progress) : (r.withProgress p).opId = r.opId := rfl

/-- A merged record keeps the manifest's identity and unknown keys, and is terminal only over a
terminal manifest. -/
theorem mergeProgress_eq_ok {base r : Record} {fold : Bool} {raw : Option Content}
    (h : mergeProgress env base fold raw = .ok r) :
    r.opId = base.opId ∧ r.extra = base.extra ∧
      (fold = false → r.status.settled = true → base.status.settled = true) := by
  cases raw with
  | none =>
    simp only [mergeProgress, Except.ok.injEq] at h
    subst h
    exact ⟨rfl, rfl, fun _ h => h⟩
  | some c =>
    simp only [mergeProgress] at h
    cases hp : decodeProgressSidecar env base.targets.length base.status fold c with
    | error e => simp [hp, Except.map] at h
    | ok p =>
      simp only [hp, Except.map, Except.ok.injEq] at h
      subst h
      refine ⟨rfl, rfl, fun hf hs => ?_⟩
      subst hf
      unfold decodeProgressSidecar at hp
      split at hp
      · simp [untrusted] at hp
      · simp only [decodeProgress, bind_eq_ok] at hp
        obtain ⟨st, hst, pi, hpi, fr, hfr, hp⟩ := hp
        split at hp
        · simp [untrusted] at hp
        · next hn =>
          rw [pure_eq_ok] at hp
          subst hp
          cases st with
          | none => exact hs
          | some s =>
            simp only [Option.any_some, Status.unresolved, Bool.not_eq_true',
              Bool.false_eq_true, not_false_eq_true, and_true, not_and, Bool.not_eq_false] at hn
            exact hn hs
      · simp [untrusted] at hp

theorem decodeCaptured_eq_ok {e : ReceiptEntry} {r : Record} (h : decodeCaptured env e = .ok r) :
    ∃ raw progress base, e.manifest = .inl raw ∧ e.progress = .inl progress ∧
      decodeManifest env e.name e.files raw = .ok base ∧
      mergeProgress env base false progress = .ok r := by
  unfold decodeCaptured at h
  split at h
  · next raw progress h1 h2 =>
    obtain ⟨base, hb, hm⟩ := bind_eq_ok.mp h
    exact ⟨raw, progress, base, h1, h2, hb, hm⟩
  · simp [untrusted] at h

/-- A captured record has the name of its entry. -/
theorem decodeCaptured_opId {e : ReceiptEntry} {r : Record} (h : decodeCaptured env e = .ok r) :
    r.opId = e.name ∧ r.opId ≠ "" := by
  obtain ⟨raw, progress, base, -, -, hb, hm⟩ := decodeCaptured_eq_ok h
  obtain ⟨h1, h2⟩ := decodeManifest_opId hb
  rw [(mergeProgress_eq_ok hm).1]
  exact ⟨h1, h2⟩

theorem decodeCaptured_clean {e : ReceiptEntry} {r : Record} (h : decodeCaptured env e = .ok r) :
    r.Clean := by
  obtain ⟨raw, progress, base, -, -, hb, hm⟩ := decodeCaptured_eq_ok h
  rw [Record.Clean, (mergeProgress_eq_ok hm).2.1]
  exact decodeManifest_clean hb

/-- The decode of a terminal capture depends on its name and bytes alone. -/
theorem decodeCaptured_of_settled {e e' : ReceiptEntry} {r : Record}
    (h : decodeCaptured env e = .ok r) (hs : r.status.settled = true) (hname : e'.name = e.name)
    (hman : e'.manifest = e.manifest) (hprog : e'.progress = e.progress) :
    decodeCaptured env e' = .ok r := by
  obtain ⟨raw, progress, base, h1, h2, hb, hm⟩ := decodeCaptured_eq_ok h
  unfold decodeCaptured
  rw [hman, hprog, h1, h2, hname]
  simp only [bind_eq_ok]
  exact ⟨base, decodeManifest_of_settled hb ((mergeProgress_eq_ok hm).2.2 rfl hs), hm⟩

/-! ### Both files of a directory -/

theorem decodeManifest_eq_ok {dirName : String} {files : Entries Content} {raw : Content}
    {r : Record} : decodeManifest env dirName files raw = .ok r ↔
      ∃ d, raw.loads = some (.obj d) ∧ decodeRecord env dirName files d = .ok r := by
  unfold decodeManifest
  split
  · next h => simp [untrusted, h]
  · next d h => simp [h]
  · next j hj h =>
    simp only [untrusted, reduceCtorEq, h, Option.some.injEq, false_iff]
    rintro ⟨d, rfl, -⟩
    exact hj d rfl

/-- A directory decodes when its manifest does and the sidecar merges into it. -/
theorem decodeEntry_eq_ok {fold : Bool} {dirName : String} {files : Entries Content} {r : Record} :
    decodeEntry env fold dirName files = .ok r ↔
      ∃ raw base progress, files.lookup "operation.json" = some (.file raw) ∧
        decodeManifest env dirName files raw = .ok base ∧ sidecarBytes files = .ok progress ∧
        mergeProgress env base fold progress = .ok r := by
  unfold decodeEntry
  constructor
  · intro h
    split at h
    · next raw hraw =>
      simp only [bind_eq_ok] at h
      obtain ⟨base, hbase, progress, hp, h⟩ := h
      exact ⟨raw, base, progress, hraw, hbase, hp, h⟩
    · simp [untrusted] at h
  · rintro ⟨raw, base, progress, hraw, hbase, hp, h⟩
    rw [hraw]
    simp only [bind_eq_ok]
    exact ⟨base, hbase, progress, hp, h⟩

/-- The merged record is the manifest's, or the manifest's under the decoded sidecar. -/
theorem mergeProgress_eq_ok_iff {base r : Record} {fold : Bool} {raw : Option Content} :
    mergeProgress env base fold raw = .ok r ↔
      (raw = none ∧ r = base) ∨ ∃ c p, raw = some c ∧
        decodeProgressSidecar env base.targets.length base.status fold c = .ok p ∧
        r = base.withProgress p := by
  cases raw with
  | none => simp [mergeProgress, eq_comm]
  | some c =>
    simp only [mergeProgress, reduceCtorEq, false_and, false_or, Option.some.injEq]
    constructor
    · intro h
      cases hp : decodeProgressSidecar env base.targets.length base.status fold c with
      | error e => simp [hp, Except.map] at h
      | ok p => exact ⟨c, p, rfl, hp, by simpa [hp, Except.map, eq_comm] using h⟩
    · rintro ⟨c', p, rfl, hp, rfl⟩
      rw [hp]
      rfl

/-- The status of a decoded sidecar is the one its object names. -/
theorem decodeProgressSidecar_eq_ok {n : Nat} {base : Status} {fold : Bool} {raw : Content}
    {p : Progress} (h : decodeProgressSidecar env n base fold raw = .ok p) :
    ∃ d, raw.loads = some (.obj d) ∧ sidecarStatus env d = .ok p.status := by
  unfold decodeProgressSidecar at h
  split at h
  · simp [untrusted] at h
  · next d hd =>
    simp only [decodeProgress, bind_eq_ok] at h
    obtain ⟨st, hst, _, -, _, -, h⟩ := h
    split_ifs at h
    · simp [untrusted] at h
    · obtain rfl := pure_eq_ok.mp h
      exact ⟨d, hd, hst⟩
  · simp [untrusted] at h

/-- A sidecar that merged into one record of a status merges into another record of that status with
the same result for the status. -/
theorem mergeProgress_status {base base' r r' : Record} {fold fold' : Bool} {raw : Option Content}
    (h : mergeProgress env base fold raw = .ok r) (h' : mergeProgress env base' fold' raw = .ok r')
    (hs : base'.status = r.status) : r'.status = r.status := by
  rcases mergeProgress_eq_ok_iff.mp h with ⟨rfl, -⟩ | ⟨c, p, rfl, hp, rfl⟩
  · rcases mergeProgress_eq_ok_iff.mp h' with ⟨-, rfl⟩ | ⟨c', -, hc, -⟩
    · exact hs
    · cases hc
  · rcases mergeProgress_eq_ok_iff.mp h' with ⟨hc, -⟩ | ⟨c', p', hc, hp', rfl⟩
    · cases hc
    · obtain rfl := Option.some.inj hc
      obtain ⟨d, hd, hst⟩ := decodeProgressSidecar_eq_ok hp
      obtain ⟨d', hd', hst'⟩ := decodeProgressSidecar_eq_ok hp'
      obtain rfl : d = d' := by simpa [hd] using hd'
      obtain hpp : p.status = p'.status := by simpa [hst] using hst'
      simp only [Record.withProgress] at hs ⊢
      rw [← hpp, hs]
      cases p.status <;> rfl

/-! ### Owned targets -/

/-- Every target of a record resolves, and no two resolve to one object. -/
structure Record.Owned (env : Environment) (r : Record) : Prop where
  resolves : ∀ t ∈ r.targets, (ownedTargetPath env t.path).isSome = true
  nodup : (r.targets.map fun t => ownedTargetPath env t.path).Nodup

/-- A decoded target resolves to the object that is returned with it. -/
theorem decodeTarget_owned {files : Entries Content} {status : Status} {index : Nat}
    {seen : List Path} {d : Dict} {t : TargetRecord} {p : Path}
    (h : decodeTarget env files status index seen d = .ok (t, p)) :
    ownedTargetPath env t.path = some p ∧ p ∉ seen := by
  simp only [decodeTarget, bind_eq_ok] at h
  obtain ⟨path, -, _, -, _, -, _, -, canonical, hc, _, -, _, -, _, -, _, -, _, -, h⟩ := h
  obtain ⟨rfl, rfl⟩ := Prod.mk.inj (pure_eq_ok.mp h)
  unfold decodeTargetPath at hc
  split_ifs at hc with hempty
  · simp [badField] at hc
  · split at hc
    · simp [badField] at hc
    · next q hq =>
      split_ifs at hc with hmem
      · simp [badField] at hc
      · obtain rfl := Except.ok.inj hc
        exact ⟨hq, hmem⟩

theorem decodeTargets_owned {files : Entries Content} {status : Status} {js : List Json} :
    ∀ {index : Nat} {seen : List Path} {ts : List TargetRecord},
      decodeTargets env files status index seen js = .ok ts →
        (∀ t ∈ ts, ∃ p, ownedTargetPath env t.path = some p ∧ p ∉ seen) ∧
          (ts.map fun t => ownedTargetPath env t.path).Nodup := by
  induction js with
  | nil =>
    intro index seen ts h
    obtain rfl := Except.ok.inj h
    exact ⟨by simp, List.nodup_nil⟩
  | cons j js ih =>
    intro index seen ts h
    cases j with
    | obj d =>
      simp only [decodeTargets, bind_eq_ok] at h
      obtain ⟨⟨t, p⟩, ht, us, hus, h⟩ := h
      obtain rfl := pure_eq_ok.mp h
      obtain ⟨hp, hnew⟩ := decodeTarget_owned ht
      obtain ⟨hall, hnodup⟩ := ih hus
      refine ⟨fun u hu => ?_, ?_⟩
      · rcases List.mem_cons.mp hu with rfl | hu
        · exact ⟨p, hp, hnew⟩
        · obtain ⟨q, hq, hqs⟩ := hall u hu
          exact ⟨q, hq, fun hm => hqs (List.mem_append_left _ hm)⟩
      · rw [List.map_cons, List.nodup_cons]
        refine ⟨fun hm => ?_, hnodup⟩
        obtain ⟨u, hu, heq⟩ := List.mem_map.mp hm
        obtain ⟨q, hq, hqs⟩ := hall u hu
        rw [hq, hp, Option.some.injEq] at heq
        exact hqs (by simp [heq])
    | _ => simp [decodeTargets, badField] at h

/-- Whatever is read off the parts of a target that the sidecar leaves alone. -/
theorem map_markApplied {β : Type} (f : TargetRecord → β)
    (hf : ∀ t : TargetRecord, f { t with applied := true } = f t) (n : Int)
    (ts : List TargetRecord) : (markApplied n ts).map f = ts.map f := by
  induction ts generalizing n with
  | nil => rfl
  | cons t ts ih =>
    rw [markApplied, List.map_cons, List.map_cons, ih]
    split_ifs
    · rw [hf]
    · rfl

theorem withProgress_map {β : Type} (f : TargetRecord → β)
    (hf : ∀ t : TargetRecord, f { t with applied := true } = f t) (r : Record) (p : Progress) :
    (r.withProgress p).targets.map f = r.targets.map f := by
  unfold Record.withProgress
  cases p.appliedFrontier with
  | none => rfl
  | some n => exact map_markApplied f hf (n + 1) r.targets

/-- The targets of a decoded record are owned. -/
theorem decodeEntry_owned {fold : Bool} {dirName : String} {files : Entries Content} {r : Record}
    (h : decodeEntry env fold dirName files = .ok r) : r.Owned env := by
  obtain ⟨raw, base, progress, -, hbase, -, hm⟩ := decodeEntry_eq_ok.mp h
  obtain ⟨d, -, hd⟩ := decodeManifest_eq_ok.mp hbase
  obtain ⟨js, -, hts⟩ := (decodeRecord_eq_ok.mp hd).targets
  obtain ⟨hall, hnodup⟩ := decodeTargets_owned hts
  have hpaths : r.targets.map (fun t => ownedTargetPath env t.path) =
      base.targets.map fun t => ownedTargetPath env t.path := by
    rcases mergeProgress_eq_ok_iff.mp hm with ⟨-, rfl⟩ | ⟨c, p, -, -, rfl⟩
    · rfl
    · exact withProgress_map _ (fun _ => rfl) base p
  refine ⟨fun t ht => ?_, hpaths ▸ hnodup⟩
  have hmem : ownedTargetPath env t.path ∈ base.targets.map fun t => ownedTargetPath env t.path := by
    rw [← hpaths]
    exact List.mem_map_of_mem ht
  obtain ⟨u, hu, heq⟩ := List.mem_map.mp hmem
  obtain ⟨q, hq, -⟩ := hall u hu
  rw [← heq, hq]
  rfl

end Saipen
