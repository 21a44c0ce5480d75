import Saipen.Journal.AppendSteps
import Saipen.Journal.Sample

/-! # An append that is interrupted and taken up again

Between the intent and its removal an append can stop at any effect, and a payload that was being
created can be left with some of its bytes. `Journal.During` is what the journal directory looks
like at every such point; a retry of the request or recovery's `resumeAppendIntent` carries on from
there, and finds fault with a torn payload for ever. -/

namespace Saipen

open FileTree DurableState Checks

variable {env : Environment} {j : Journal} {d d' u d₀ : Disk} {r : Record}
  {ts : List AppendTarget} {ps : List (AppendTarget × Path)}

/-! ### The operation and the two manifests -/

/-- A PREPARED operation with no append under way. -/
structure Journal.Prepared (env : Environment) (j : Journal) (d : Disk) (r : Record) : Prop where
  decode : j.decode env false d = .ok r
  status : r.status = .prepared
  manifest : ∀ raw base, (j.files d).lookup "operation.json" = some (.file raw) →
    decodeManifest env j.opId (j.files d) raw = .ok base → base.status = .prepared
  idle : (j.files d).lookup "append.intent.json" = none

/-- The intent of an append to so many targets. -/
def Journal.intent (env : Environment) (j : Journal) (base : Nat)
    (ps : List (AppendTarget × Path)) : Dict :=
  [("schema_version", .int appendIntentSchema), ("op_id", .str j.opId), ("base_targets", .int base),
    ("targets", .arr ((appendEntries env base ps).map .obj))]

/-- The object of the record with the appended targets. -/
def Record.grown (env : Environment) (r : Record) (ps : List (AppendTarget × Path)) : Dict :=
  r.toDictWith (r.targets.map TargetRecord.toDict ++ ps.map fun p => p.1.object env p.2)

/-- The record of a target whose role and action are known. -/
def AppendTarget.record (env : Environment) (t : AppendTarget) (rel : Path) : TargetRecord where
  path := posix rel
  role := (Role.ofName? t.role).getD .generic
  action := Action.ofName? t.action
  beforeHash := t.beforeHash
  afterHash := t.afterHash.getD (t.bytes.elim "" env.hashBytes)
  applied := false
  content := none
  extra := []

/-- The record with the appended targets. -/
def Record.append (env : Environment) (r : Record) (ps : List (AppendTarget × Path)) : Record :=
  { r with targets := r.targets ++ ps.map fun p => p.1.record env p.2 }

/-- Targets that the decoder reads back: their roles are known, and their canonical spellings do not
look like a drive. -/
def Readable (env : Environment) (ps : List (AppendTarget × Path)) : Prop :=
  ∀ p ∈ ps, (Role.ofName? p.1.role).isSome = true ∧
    ownedTargetPath env (posix p.2) = some p.2

/-- A target of known role and action is written as its record is. -/
theorem AppendTarget.record_toDict {t : AppendTarget} {rel : Path} (hacc : t.Accepted env rel)
    (hrole : (Role.ofName? t.role).isSome = true) :
    (t.record env rel).toDict = t.object env rel := by
  obtain ⟨role, hrole⟩ := Option.isSome_iff_exists.mp hrole
  obtain ⟨action, haction⟩ := Option.isSome_iff_exists.mp hacc.action
  have hr : role.name = t.role := ofName?_eq_some hrole
  have ha : action.name = t.action := ofName?_eq_some haction
  simp [TargetRecord.toDict, AppendTarget.record, AppendTarget.object, AppendTarget.plan, optField,
    hrole, haction, hr, ha]

theorem Record.grown_eq (hacc : ∀ p ∈ ps, p.1.Accepted env p.2) (hread : Readable env ps) :
    r.grown env ps = (r.append env ps).toDict := by
  have hobjects : ps.map (fun p => p.1.object env p.2) =
      (ps.map fun p => p.1.record env p.2).map TargetRecord.toDict := by
    rw [List.map_map]
    refine List.map_congr_left fun p hp => ?_
    exact (AppendTarget.record_toDict (hacc p hp) (hread p hp).1).symm
  rw [Record.grown, hobjects, ← List.map_append, Record.toDictWith_toDict]
  rfl

/-! ### The journal directory during an append -/

/-- The journal directory while the targets `ps` are appended to the operation that was at rest in
`d₀`: whether the intent is there, and whether the manifest has the targets already. -/
structure Journal.During (env : Environment) (j : Journal) (r : Record)
    (ps : List (AppendTarget × Path)) (d₀ : Disk) (pending appended : Bool) (d : Disk) : Prop where
  dir : IsDirAt j.dir d
  others : ∀ name, name ≠ "operation.json" → name ≠ "append.intent.json" →
    (j.files d).lookup name = (j.files d₀).lookup name ∨
      ((j.files d₀).lookup name = none ∧ (∃ i s, name = stagedName env i s) ∧
        ∃ c, (j.files d).lookup name = some (.file c))
  intent : (j.files d).lookup "append.intent.json" =
    if pending then some (.file (.json (.obj (j.intent env r.targets.length ps)))) else none
  manifest : (j.files d).lookup "operation.json" =
    if appended then some (.file (.json (.obj (r.grown env ps))))
    else (j.files d₀).lookup "operation.json"
  staged : appended = true → Holds env (j.files d) r.targets.length ps

/-- The operation at rest, before the append. -/
theorem Journal.Prepared.during (h : j.Prepared env d₀ r) : j.During env r ps d₀ false false d₀ where
  dir := Journal.isDirAt_of_decode h.decode
  others := fun _ _ _ => .inl rfl
  intent := h.idle
  manifest := rfl
  staged := fun h => by cases h

section During

variable {pending appended : Bool}

/-- No file that was there has gone. -/
theorem Journal.During.isFile (h : j.During env r ps d₀ pending appended d) {name : String}
    (hman : name ≠ "operation.json") (hint : name ≠ "append.intent.json")
    (hname : ((j.files d₀).lookup name).any Node.isFile = true) :
    ((j.files d).lookup name).any Node.isFile = true := by
  rcases h.others name hman hint with heq | ⟨hnone, -⟩
  · rw [heq]
    exact hname
  · rw [hnone] at hname
    cases hname

/-- The sidecar is the one that was there. -/
theorem Journal.During.sidecar (h : j.During env r ps d₀ pending appended d) :
    sidecarBytes (j.files d) = sidecarBytes (j.files d₀) := by
  have hlook : (j.files d).lookup "progress.json" = (j.files d₀).lookup "progress.json" := by
    rcases h.others "progress.json" (by decide) (by decide) with heq | ⟨-, ⟨i, s, hname⟩, -⟩
    · exact heq
    · exact absurd hname.symm (stagedName_ne env i s (by decide))
  unfold sidecarBytes
  rw [hlook]

theorem Journal.During.manifest_mono (h : j.During env r ps d₀ pending appended d) {raw : Content}
    {base : Record} (hbase : decodeManifest env j.opId (j.files d₀) raw = .ok base) :
    decodeManifest env j.opId (j.files d) raw = .ok base := by
  refine decodeManifest_mono (fun i s hs => ?_) (fun i s hs => ?_) hbase
  · exact h.isFile (stagedName_ne env i s (by decide)) (stagedName_ne env i s (by decide)) hs
  · exact h.isFile (legacyStagedName_ne i s (by decide)) (legacyStagedName_ne i s (by decide)) hs

/-- Until the manifest is rewritten the operation decodes as before. -/
theorem Journal.During.decode_old (h : j.During env r ps d₀ pending false d)
    (hprep : j.Prepared env d₀ r) : j.decode env false d = .ok r := by
  obtain ⟨raw, base, progress, hraw, hbase, hp, hm⟩ := decodeEntry_eq_ok.mp hprep.decode
  have hman : (j.files d).lookup "operation.json" = some (.file raw) := h.manifest.trans hraw
  refine decodeEntry_eq_ok.mpr ⟨raw, base, progress, hman, h.manifest_mono hbase, ?_, hm⟩
  rw [h.sidecar]
  exact hp

/-- The targets of a prepared record as the manifest has them, up to the applied flags. -/
theorem Journal.Prepared.targets (hprep : j.Prepared env d₀ r)
    (h : j.During env r ps d₀ pending appended d) :
    r.Legible env j.opId ∧ ∀ i t, r.targets[i]? = some t → t.Legible env ∧
      ∀ p, ownedTargetPath env t.path = some p → checkStaged env (j.files d) .prepared i p t = .ok () := by
  obtain ⟨raw, base, progress, hraw, hbase, hp, hm⟩ := decodeEntry_eq_ok.mp hprep.decode
  have hstatus := hprep.manifest raw base hraw hbase
  have hunresolved : base.status.unresolved = true := by rw [hstatus]; rfl
  obtain ⟨D, -, hD⟩ := decodeManifest_eq_ok.mp (h.manifest_mono hbase)
  have hfields := decodeRecord_eq_ok.mp hD
  have hlegible := hfields.legible hunresolved
  obtain ⟨js, -, hts⟩ := hfields.targets
  rw [hstatus] at hts
  obtain ⟨-, hdecodes⟩ := decodeTargets_decodes hts
  have hsame : r.targets.map (fun t => { t with applied := true }) =
      base.targets.map fun t => { t with applied := true } := by
    rcases mergeProgress_eq_ok_iff.mp hm with ⟨-, rfl⟩ | ⟨c, p, -, -, rfl⟩
    · rfl
    · exact withProgress_map _ (fun _ => rfl) base p
  refine ⟨?_, fun i t ht => ?_⟩
  · rcases mergeProgress_eq_ok_iff.mp hm with ⟨-, rfl⟩ | ⟨c, p, -, -, rfl⟩
    · exact hlegible
    · exact hlegible.withProgress hunresolved p
  · have hi := congrArg (·[i]?) hsame
    simp only [List.getElem?_map, ht, Option.map_some] at hi
    obtain ⟨b, hb, heq⟩ := Option.map_eq_some_iff.mp hi.symm
    obtain ⟨e, -, hdec⟩ := hdecodes i b hb
    obtain ⟨hpath, -, haction, -, -, -, -, hextra⟩ := TargetRecord.mk.inj heq
    refine ⟨⟨hpath ▸ hdec.legible.owned, hextra ▸ hdec.legible.clean⟩, fun p hp => ?_⟩
    have hcheck := hdec.staged p (hpath ▸ hp)
    unfold checkStaged TargetRecord.targetAction at hcheck ⊢
    rw [hpath, haction, Nat.zero_add] at hcheck
    exact hcheck

/-- The rewritten manifest decodes to the record with the appended targets. -/
theorem Journal.During.decode_new (h : j.During env r ps d₀ pending true d)
    (hprep : j.Prepared env d₀ r) (hreq : AcceptedFrom env (ownedIdentities env r.targets) ts ps)
    (hread : Readable env ps) : j.decode env false d = .ok (r.append env ps) := by
  obtain ⟨raw, base, progress, hraw, hbase, hp, hm⟩ := decodeEntry_eq_ok.mp hprep.decode
  obtain ⟨hlegible, hold⟩ := hprep.targets h
  have howned := decodeEntry_owned hprep.decode
  have hobject : r.grown env ps = (r.append env ps).toDict := Record.grown_eq hreq.accepted hread
  have hnew : ∀ t ∈ ps.map (fun p => p.1.record env p.2), t.Legible env := by
    intro t ht
    obtain ⟨p, hps, rfl⟩ := List.mem_map.mp ht
    exact ⟨Option.isSome_of_eq_some (hread p hps).2, fun e he => by cases he⟩
  have hpaths : (ps.map fun p => p.1.record env p.2).map (fun t => ownedTargetPath env t.path) =
      ps.map fun p => some p.2 := by
    rw [List.map_map]
    exact List.map_congr_left fun p hps => (hread p hps).2
  have hts : decodeTargets env (j.files d) (r.append env ps).status 0 []
      ((r.append env ps).targets.map fun t => .obj t.toDict) = .ok (r.append env ps).targets := by
    refine decodeTargets_toDict (fun t ht => ?_) (fun t _ p _ => List.not_mem_nil) ?_ ?_
    · rcases List.mem_append.mp ht with ht | ht
      · obtain ⟨i, hi⟩ := List.mem_iff_getElem?.mp ht
        exact (hold i t hi).1
      · exact hnew t ht
    · show ((r.targets ++ ps.map fun p => p.1.record env p.2).map fun t =>
        ownedTargetPath env t.path).Nodup
      rw [List.map_append, hpaths, List.nodup_append]
      refine ⟨howned.nodup, ?_, ?_⟩
      · have hdistinct : (ps.map Prod.snd).Nodup := by
          refine List.Nodup.of_map posix ?_
          rw [List.map_map]
          exact hreq.distinct
        have hsome := hdistinct.map (Option.some_injective Path)
        rwa [List.map_map] at hsome
      · rintro a ha b hb rfl
        obtain ⟨p, hps, rfl⟩ := List.mem_map.mp hb
        obtain ⟨t, ht, heq⟩ := List.mem_map.mp ha
        refine hreq.fresh p hps (List.mem_filterMap.mpr ⟨t, ht, ?_⟩)
        rw [heq]
        rfl
    · intro i t p ht hpath
      show checkStaged env (j.files d) r.status (0 + i) p t = .ok ()
      rw [hprep.status, Nat.zero_add]
      rcases Nat.lt_or_ge i r.targets.length with hi | hi
      · have ht' : r.targets[i]? = some t := by
          rw [← ht]
          exact (List.getElem?_append_left hi).symm
        exact (hold i t ht').2 p hpath
      · have ht' : (ps.map fun p => p.1.record env p.2)[i - r.targets.length]? = some t := by
          rw [← ht]
          exact (List.getElem?_append_right hi).symm
        rw [List.getElem?_map] at ht'
        obtain ⟨q, hq, rfl⟩ := Option.map_eq_some_iff.mp ht'
        have hqs := List.mem_of_getElem? hq
        obtain rfl := Option.some.inj ((hread q hqs).2.symm.trans hpath)
        unfold checkStaged
        rw [if_neg]
        rintro ⟨-, hwrite, hmissing⟩
        -- a write has its payload in the directory
        have haction : q.1.action = "write" := by
          obtain ⟨a, ha⟩ := Option.isSome_iff_exists.mp (hreq.accepted q hqs).action
          have hname := ofName?_eq_some ha
          rw [TargetRecord.targetAction, AppendTarget.record, ha, Option.getD_some] at hwrite
          rw [← hname, hwrite]
          rfl
        obtain ⟨c, hc, -⟩ := (hreq.accepted q hqs).bytes haction
        obtain ⟨b, hb, -⟩ := h.staged rfl _ q c hq (by rw [AppendTarget.bytes, if_pos haction, hc])
        apply hmissing
        have hlook : (j.files d).lookup (stagedName env i (posix q.2)) = some (.file b) := by
          rw [← hb, payloadName]
          congr 2
          omega
        rw [hasStaged, hlook]
        rfl
  refine decodeEntry_eq_ok.mpr ⟨_, r.append env ps, progress, h.manifest, ?_, ?_, ?_⟩
  · exact decodeManifest_eq_ok.mpr ⟨_, rfl, hobject ▸ decodeRecord_toDict (hlegible.withTargets _) hts⟩
  · rw [h.sidecar]
    exact hp
  · have hstatus := hprep.manifest raw base hraw hbase
    exact mergeProgress_grown hm (by rw [hstatus]; rfl) _

/-- The rewritten manifest decodes only when its targets can be read back. -/
theorem Journal.During.readable (h : j.During env r ps d₀ pending true d) {r' : Record}
    (hacc : ∀ p ∈ ps, p.1.Accepted env p.2) (hr' : j.decode env false d = .ok r') :
    Readable env ps := by
  obtain ⟨raw, base, progress, hraw, hbase, -, -⟩ := decodeEntry_eq_ok.mp hr'
  rw [h.manifest, if_pos rfl, Option.some.injEq, Node.file.injEq] at hraw
  subst hraw
  obtain ⟨D, hD, hrec⟩ := decodeManifest_eq_ok.mp hbase
  obtain rfl : r.grown env ps = D := Json.obj.inj (Option.some.inj hD)
  obtain ⟨js, hjs, hts⟩ := (decodeRecord_eq_ok.mp hrec).targets
  rw [Record.grown, Record.toDictWith, Dict.get_set_self, Option.some.injEq, Json.arr.injEq] at hjs
  obtain ⟨hlen, hdecodes⟩ := decodeTargets_decodes hts
  intro p hp
  obtain ⟨k, hk⟩ := List.mem_iff_getElem?.mp hp
  have hklt : k < ps.length := (List.getElem?_eq_some_iff.mp hk).1
  have hentry : js[r.targets.length + k]? = some (.obj (p.1.object env p.2)) := by
    rw [← hjs, List.getElem?_map, List.getElem?_append_right (by simp)]
    simp [hk]
  obtain ⟨t, ht⟩ : ∃ t, base.targets[r.targets.length + k]? = some t := by
    have hin : r.targets.length + k < base.targets.length := by
      rw [hlen, ← hjs]
      simpa using hklt
    exact ⟨_, List.getElem?_eq_getElem hin⟩
  obtain ⟨e, he, hdec⟩ := hdecodes _ t ht
  obtain rfl : p.1.object env p.2 = e := Json.obj.inj (Option.some.inj (hentry.symm.trans he))
  have hrole : p.1.role = t.role.name := Json.str.inj (Option.some.inj hdec.role)
  have hpath : posix p.2 = t.path := Json.str.inj (Option.some.inj hdec.path)
  refine ⟨by rw [hrole, Role.ofName?_name]; rfl, ?_⟩
  obtain ⟨q, hq⟩ := Option.isSome_iff_exists.mp hdec.legible.owned
  rw [← hpath] at hq
  rw [hq, ownedTargetPath_posix_eq (ownedTargetPath_clean (hacc p hp).owned) hq]

/-! ### Finishing the intent -/

/-- What happens to the payload names of a list: a name that is free gets its payload or stays free,
and a name that is taken stays as it is. -/
def Journal.PayloadsKept (env : Environment) (j : Journal) (base : Nat)
    (ps : List (AppendTarget × Path)) (d u : Disk) : Prop :=
  ∀ (i : Nat) (p : AppendTarget × Path) (c : Content), ps[i]? = some p → p.1.bytes = some c →
    (j.files u).lookup (payloadName env (base + i) p) =
        (j.files d).lookup (payloadName env (base + i) p) ∨
      ((j.files d).lookup (payloadName env (base + i) p) = none ∧
        (j.files u).lookup (payloadName env (base + i) p) = some (.file c))

theorem Journal.Stages.payloadsKept {base : Nat} (h : j.Stages env base ps d u) :
    j.PayloadsKept env base ps d u := by
  intro i p c hp hc
  rcases h.files (payloadName env (base + i) p) with heq | ⟨hnone, k, q, b, hq, hb, hname, hfile⟩
  · exact .inl heq
  · have hindex := stagedName_index hname
    obtain rfl : i = k := by omega
    obtain rfl := Option.some.inj (hp.symm.trans hq)
    obtain rfl := Option.some.inj (hc.symm.trans hb)
    exact .inr ⟨hnone, hfile⟩

/-- Files that are no payloads do not matter. -/
theorem Journal.PayloadsKept.congr {base : Nat} (h : j.PayloadsKept env base ps d u)
    (hsame : ∀ name, name ≠ "operation.json" → name ≠ "append.intent.json" →
      (j.files d').lookup name = (j.files u).lookup name) : j.PayloadsKept env base ps d d' := by
  intro i p c hp hc
  rw [hsame _ (payloadName_ne env _ p (by decide)) (payloadName_ne env _ p (by decide))]
  exact h i p c hp hc

/-- A state inside the append that comes from `d`. -/
def Journal.Within (env : Environment) (j : Journal) (r : Record) (ps : List (AppendTarget × Path))
    (d₀ d u : Disk) : Prop :=
  (∃ pending appended, j.During env r ps d₀ pending appended u) ∧
    j.PayloadsKept env r.targets.length ps d u

theorem Journal.PayloadsKept.refl (base : Nat) (ps : List (AppendTarget × Path)) (d : Disk) :
    j.PayloadsKept env base ps d d := fun _ _ _ _ _ => .inl rfl

/-- Staging payloads is part of an append. -/
theorem Journal.During.stages (h : j.During env r ps d₀ pending false d)
    (hs : j.Stages env r.targets.length ps d u) : j.During env r ps d₀ pending false u where
  dir := hs.dir
  others := by
    intro name hman hint
    rcases hs.files name with heq | ⟨hnone, i, p, c, -, -, rfl, hfile⟩
    · rw [heq]
      exact h.others name hman hint
    · refine .inr ⟨?_, ⟨_, _, rfl⟩, c, hfile⟩
      rcases h.others _ hman hint with heq | ⟨hfree, -⟩
      · rw [← heq, hnone]
      · exact hfree
  intent := (hs.lookup_eq (by decide)).trans h.intent
  manifest := (hs.lookup_eq (by decide)).trans h.manifest
  staged := fun ha => by cases ha

/-- The manifest of an operation at rest is a file. -/
theorem Journal.During.manifest_file (h : j.During env r ps d₀ pending appended d)
    (hprep : j.Prepared env d₀ r) :
    ∃ c, (j.files d).lookup "operation.json" = some (.file c) := by
  obtain ⟨raw, base, progress, hraw, -⟩ := decodeEntry_eq_ok.mp hprep.decode
  cases appended with
  | true => exact ⟨_, h.manifest⟩
  | false => exact ⟨raw, h.manifest.trans hraw⟩

/-- The last two effects: the manifest is rewritten and the intent goes. -/
theorem Journal.publish_wp (hprep : j.Prepared env d₀ r) (h : j.During env r ps d₀ true appended u)
    (hholds : Holds env (j.files u) r.targets.length ps) :
    wp (do atomicJson j.manifest (.obj (r.grown env ps)); suppressOs (unlinkPath j.appendIntentPath))
      (fun res v => res = .ok () ∧ j.During env r ps d₀ false true v ∧
        ∀ name, name ≠ "operation.json" → name ≠ "append.intent.json" →
          (j.files v).lookup name = (j.files u).lookup name)
      (fun v => (∃ appended, j.During env r ps d₀ true appended v) ∧
        ∀ name, name ≠ "operation.json" → name ≠ "append.intent.json" →
          (j.files v).lookup name = (j.files u).lookup name) u := by
  obtain ⟨old, hold⟩ := h.manifest_file hprep
  obtain ⟨v, hv⟩ : ∃ v, writeFile (.json (.obj (r.grown env ps))) j.manifest u = some v :=
    Journal.exists_alter h.dir (by rw [hold]; rfl)
  obtain ⟨hdirv, hman, hsamev⟩ := Journal.files_alter h.dir hv
  rw [hold] at hman
  have hv' : j.During env r ps d₀ true true v := by
    refine ⟨hdirv, fun name h1 h2 => ?_, ?_, (Option.some.inj hman).symm, fun _ i p c hp hc => ?_⟩
    · rw [hsamev name h1]
      exact h.others name h1 h2
    · rw [hsamev _ (by decide)]
      exact h.intent
    · rw [hsamev _ (payloadName_ne env _ p (by decide))]
      exact hholds i p c hp hc
  obtain ⟨w, hw⟩ : ∃ w, unlink j.appendIntentPath v = some w :=
    Journal.exists_alter hdirv (by rw [hv'.intent]; rfl)
  obtain ⟨hdirw, hint, hsamew⟩ := Journal.files_alter hdirv hw
  rw [hv'.intent] at hint
  have hw' : j.During env r ps d₀ false true w := by
    refine ⟨hdirw, fun name h1 h2 => ?_, (Option.some.inj hint).symm, ?_, fun _ i p c hp hc => ?_⟩
    · rw [hsamew name h2]
      exact hv'.others name h1 h2
    · rw [hsamew _ (by decide)]
      exact hv'.manifest
    · rw [hsamew _ (payloadName_ne env _ p (by decide))]
      exact hv'.staged rfl i p c hp hc
  rw [wp_bind, atomicJson, atomicWrite, wp_attempt, hv]
  refine ⟨⟨⟨_, h⟩, fun _ _ _ => rfl⟩, ?_⟩
  rw [suppressOs, wp_rescue, unlinkPath, wp_attempt, hw]
  refine ⟨⟨⟨_, hv'⟩, fun name h1 _ => hsamev name h1⟩, rfl, hw', fun name h1 h2 => ?_⟩
  rw [hsamew name h2, hsamev name h1]

/-- Finishing an intent over the old manifest stages every payload that finds room, and publishes. -/
theorem Journal.finish_old_wp (hprep : j.Prepared env d₀ r)
    (hacc : ∀ p ∈ ps, p.1.Accepted env p.2) (h : j.During env r ps d₀ true false d) :
    wp (j.finishAppendIntent env r (j.intent env r.targets.length ps))
      (fun res u => (res = .ok () ∧ HasRoom env (j.files d) r.targets.length ps ∧
          j.During env r ps d₀ false true u ∧ j.PayloadsKept env r.targets.length ps d u) ∨
        ∃ e, res = .error e ∧ ¬ HasRoom env (j.files d) r.targets.length ps ∧
          j.During env r ps d₀ true false u ∧ j.PayloadsKept env r.targets.length ps d u)
      (j.Within env r ps d₀ d) d := by
  have hrun : j.finishAppendIntent env r (j.intent env r.targets.length ps) =
      if (r.targets.length : Int) < r.targets.length then
        appendError "journal append intent base exceeds manifest target count"
      else (do
        let targets ← j.finishEntries env r.targets.length (r.targets.map TargetRecord.toDict)
          ((appendEntries env r.targets.length ps).map .obj)
        atomicJson j.manifest (.obj (r.toDictWith targets))
        suppressOs (unlinkPath j.appendIntentPath)) := rfl
  rw [hrun, if_neg (by omega), wp_bind]
  refine wp_mono (Journal.finishEntries_wp h.dir hacc (by simp) le_rfl) ?_
    fun u hu => ⟨⟨_, _, h.stages hu⟩, hu.payloadsKept⟩
  rintro res u ⟨hstages, ⟨rfl, hroom, hholds⟩ | ⟨e, rfl, hroom⟩⟩
  · refine wp_mono (Journal.publish_wp hprep (h.stages hstages) hholds) ?_
      fun v ⟨⟨a, hv⟩, hsame⟩ => ⟨⟨_, a, hv⟩, hstages.payloadsKept.congr hsame⟩
    rintro res v ⟨rfl, hv, hsame⟩
    exact .inl ⟨rfl, hroom, hv, hstages.payloadsKept.congr hsame⟩
  · exact .inr ⟨e, rfl, hroom, h.stages hstages, hstages.payloadsKept⟩

/-- An entry whose target the manifest has is passed over. -/
theorem Journal.finishEntry_present {base index : Nat} {acc : List Dict} {p : AppendTarget × Path}
    (hbase : base ≤ index) (hp : acc[index]? = some (p.1.object env p.2)) :
    j.finishEntry env base acc (.obj (p.1.entry env index p.2)) = pure acc := by
  have hlt : index < acc.length := (List.getElem?_eq_some_iff.mp hp).1
  have hindex : Dict.get (p.1.entry env index p.2) "index" = some (.int index) := rfl
  have htarget : Dict.get (p.1.entry env index p.2) "target" = some (.obj (p.1.plan env p.2)) := rfl
  have hkeys : (appendIdentityKeys.all fun k =>
      Dict.get (p.1.object env p.2) k = Dict.get (p.1.plan env p.2) k) = true := by
    refine List.all_eq_true.mpr fun k hk => decide_eq_true ?_
    have hne : k ≠ "applied" := fun heq => absurd (heq ▸ hk) (by decide)
    rw [AppendTarget.object, Dict.get_append, Dict.get_cons, if_neg hne, Dict.get_nil, Option.or_none]
  unfold Journal.finishEntry
  simp only [hindex, htarget, Option.bind_some, Json.int?_int, Int.toNat_natCast, hp, Option.getD_some]
  rw [if_neg (by omega), if_pos (by omega), if_pos hkeys]

theorem Journal.finishEntries_present {base : Nat} {acc : List Dict}
    {Q : Except Exn (List Dict) → Disk → Prop} {C : Disk → Prop} :
    ∀ {index : Nat}, base ≤ index →
      (∀ i p, ps[i]? = some p → acc[index + i]? = some (p.1.object env p.2)) →
      (wp (j.finishEntries env base acc ((appendEntries env index ps).map .obj)) Q C d ↔
        Q (.ok acc) d) := by
  induction ps with
  | nil => exact fun _ _ => wp_pure _
  | cons p ps ih =>
    intro index hbase hpresent
    rw [appendEntries, List.map_cons, Journal.finishEntries, wp_bind,
      Journal.finishEntry_present hbase (hpresent 0 p rfl), wp_pure]
    refine ih (by omega) fun i q hq => ?_
    rw [show index + 1 + i = index + (i + 1) by omega]
    exact hpresent (i + 1) q hq

/-- Finishing an intent over the rewritten manifest writes it once more and removes the intent. -/
theorem Journal.finish_new_wp (hprep : j.Prepared env d₀ r)
    (hacc : ∀ p ∈ ps, p.1.Accepted env p.2) (hread : Readable env ps)
    (h : j.During env r ps d₀ true true d) :
    wp (j.finishAppendIntent env (r.append env ps) (j.intent env r.targets.length ps))
      (fun res u => res = .ok () ∧ j.During env r ps d₀ false true u ∧
        j.PayloadsKept env r.targets.length ps d u)
      (j.Within env r ps d₀ d) d := by
  have hrun : j.finishAppendIntent env (r.append env ps) (j.intent env r.targets.length ps) =
      if ((r.append env ps).targets.length : Int) < r.targets.length then
        appendError "journal append intent base exceeds manifest target count"
      else (do
        let targets ← j.finishEntries env r.targets.length
          ((r.append env ps).targets.map TargetRecord.toDict)
          ((appendEntries env r.targets.length ps).map .obj)
        atomicJson j.manifest (.obj ((r.append env ps).toDictWith targets))
        suppressOs (unlinkPath j.appendIntentPath)) := rfl
  have hlen : (r.append env ps).targets.length = r.targets.length + ps.length := by
    simp [Record.append]
  have hsame : (r.append env ps).toDictWith ((r.append env ps).targets.map TargetRecord.toDict) =
      r.grown env ps := by
    rw [Record.toDictWith_toDict, Record.grown_eq hacc hread]
  have hpresent : ∀ i p, ps[i]? = some p →
      ((r.append env ps).targets.map TargetRecord.toDict)[r.targets.length + i]? =
        some (p.1.object env p.2) := by
    intro i p hp
    have hi : (r.append env ps).targets[r.targets.length + i]? = some (p.1.record env p.2) := by
      show (r.targets ++ ps.map fun p => p.1.record env p.2)[r.targets.length + i]? = _
      rw [List.getElem?_append_right (by omega), List.getElem?_map, Nat.add_sub_cancel_left, hp]
      rfl
    have hps := List.mem_of_getElem? hp
    rw [List.getElem?_map, hi, Option.map_some,
      AppendTarget.record_toDict (hacc p hps) (hread p hps).1]
  rw [hrun, if_neg (by omega), wp_bind, Journal.finishEntries_present le_rfl hpresent]
  simp only [hsame]
  refine wp_mono (Journal.publish_wp hprep h (h.staged rfl)) ?_
    fun v ⟨⟨a, hv⟩, hsame⟩ => ⟨⟨_, a, hv⟩, (Journal.PayloadsKept.refl _ _ d).congr hsame⟩
  rintro res v ⟨rfl, hv, hfiles⟩
  exact ⟨rfl, hv, (Journal.PayloadsKept.refl _ _ d).congr hfiles⟩

/-! ### The two programs -/

theorem Journal.read_wp {rec : Record} {Q : Except Exn Record → Disk → Prop} {C : Disk → Prop}
    (h : j.decode env false d = .ok rec) : wp (j.read env false) Q C d ↔ Q (.ok rec) d := by
  rw [Journal.read, wp_bind, wp_read]
  simp only [h]
  exact wp_pure rec

theorem Journal.read_wp_error {e : Refusal} {Q : Except Exn Record → Disk → Prop}
    {C : Disk → Prop} (h : j.decode env false d = .error e) :
    wp (j.read env false) Q C d ↔ Q (.error (.decode e)) d := by
  rw [Journal.read, wp_bind, wp_read]
  simp only [h]
  exact wp_raise _

/-- The text of the intent. -/
def Journal.intentContent (env : Environment) (j : Journal) (base : Nat)
    (ps : List (AppendTarget × Path)) : Content := .json (.obj (j.intent env base ps))

theorem Journal.During.readIntent_idle (h : j.During env r ps d₀ false appended d) :
    readAppendIntent env j.opId (j.files d) = .ok none := by
  rw [readAppendIntent, h.intent]
  rfl

theorem Journal.During.readIntent_pending (h : j.During env r ps d₀ true appended d)
    (hne : ps ≠ []) : readAppendIntent env j.opId (j.files d) =
      if maxEvidenceBytes < env.size (j.intentContent env r.targets.length ps) then
        .error (.value "journal append intent is unreadable")
      else .ok (some (j.intent env r.targets.length ps)) := by
  have hentries : (appendEntries env r.targets.length ps).map Json.obj ≠ [] := by
    cases ps with
    | nil => exact absurd rfl hne
    | cons p ps => exact List.cons_ne_nil _ _
  have hversion : ((j.intent env r.targets.length ps).get "schema_version").bind Json.int? =
      some appendIntentSchema := rfl
  have hop : (j.intent env r.targets.length ps).get "op_id" = some (.str j.opId) := rfl
  have hbase : ((j.intent env r.targets.length ps).get "base_targets").bind Json.int? =
      some (r.targets.length : Int) := rfl
  have hnonneg : decide ((0 : Int) ≤ r.targets.length) = true := decide_eq_true (Int.natCast_nonneg _)
  have htargets : (j.intent env r.targets.length ps).get "targets" =
      some (.arr ((appendEntries env r.targets.length ps).map .obj)) := rfl
  rw [readAppendIntent, h.intent, if_pos rfl]
  simp only [Content.loads, hversion, hop, hbase, Option.any_some, hnonneg, htargets, true_and, ne_eq, hentries, not_false_eq_true,
    if_true, Journal.intentContent]
  rfl

/-- An intent can be finished when it can be read, every payload of the old manifest finds room, and
the targets of the new one can be read back. -/
structure Journal.CanFinish (env : Environment) (j : Journal) (r : Record)
    (ps : List (AppendTarget × Path)) (d : Disk) (appended : Bool) : Prop where
  intent : env.size (j.intentContent env r.targets.length ps) ≤ maxEvidenceBytes
  room : appended = false → HasRoom env (j.files d) r.targets.length ps
  readable : appended = true → Readable env ps

/-- How a run from `d` ends: it returns and the append is complete, or it raises for want of `good`
and the append is no further. -/
def Journal.Ends {α : Type} (env : Environment) (j : Journal) (r : Record)
    (ps : List (AppendTarget × Path)) (d₀ d : Disk) (appended : Bool) (good : Prop) (a : α)
    (res : Except Exn α) (u : Disk) : Prop :=
  (res = .ok a ∧ good ∧ j.During env r ps d₀ false true u ∧
      j.PayloadsKept env r.targets.length ps d u) ∨
    (∃ e, res = .error e) ∧ ¬ good ∧ (∃ pending, j.During env r ps d₀ pending appended u) ∧
      j.PayloadsKept env r.targets.length ps d u

/-- Finishing the intent over the record that was read. -/
theorem Journal.finish_wp (hprep : j.Prepared env d₀ r)
    (hreq : AcceptedFrom env (ownedIdentities env r.targets) ts ps)
    (h : j.During env r ps d₀ true appended d) {rec : Record} (hrec : j.decode env false d = .ok rec)
    (hsmall : env.size (j.intentContent env r.targets.length ps) ≤ maxEvidenceBytes) :
    wp (j.finishAppendIntent env rec (j.intent env r.targets.length ps))
      (j.Ends env r ps d₀ d appended (j.CanFinish env r ps d appended) ())
      (j.Within env r ps d₀ d) d := by
  cases appended with
  | false =>
    obtain rfl := Except.ok.inj ((h.decode_old hprep).symm.trans hrec)
    refine wp_mono (Journal.finish_old_wp hprep hreq.accepted h) ?_ fun _ hu => hu
    rintro res u (⟨rfl, hroom, hu, hkept⟩ | ⟨e, rfl, hroom, hu, hkept⟩)
    · exact .inl ⟨rfl, ⟨hsmall, fun _ => hroom, fun ha => by cases ha⟩, hu, hkept⟩
    · exact .inr ⟨⟨e, rfl⟩, fun hc => hroom (hc.room rfl), ⟨_, hu⟩, hkept⟩
  | true =>
    have hread := h.readable hreq.accepted hrec
    obtain rfl := Except.ok.inj ((h.decode_new hprep hreq hread).symm.trans hrec)
    refine wp_mono (Journal.finish_new_wp hprep hreq.accepted hread h) ?_ fun _ hu => hu
    rintro res u ⟨rfl, hu, hkept⟩
    exact .inl ⟨rfl, ⟨hsmall, (by intro ha; cases ha), fun _ => hread⟩, hu, hkept⟩

/-- A record that does not decode is the new one, with targets that cannot be read back. -/
theorem Journal.During.not_canFinish (hprep : j.Prepared env d₀ r)
    (hreq : AcceptedFrom env (ownedIdentities env r.targets) ts ps)
    (h : j.During env r ps d₀ pending appended d) {e : Refusal}
    (he : j.decode env false d = .error e) : ¬ j.CanFinish env r ps d appended := by
  intro hc
  cases appended with
  | false =>
    rw [h.decode_old hprep] at he
    cases he
  | true =>
    rw [h.decode_new hprep hreq (hc.readable rfl)] at he
    cases he

/-- Recovery's resumption of a pending intent. -/
theorem Journal.resume_wp (hprep : j.Prepared env d₀ r)
    (hreq : AcceptedFrom env (ownedIdentities env r.targets) ts ps) (hne : ps ≠ [])
    (h : j.During env r ps d₀ true appended d) :
    wp (j.resumeAppendIntent env)
      (j.Ends env r ps d₀ d appended (j.CanFinish env r ps d appended) true)
      (j.Within env r ps d₀ d) d := by
  unfold Journal.resumeAppendIntent
  rw [wp_bind, wp_read]
  simp only [h.readIntent_pending hne]
  by_cases hsize : maxEvidenceBytes < env.size (j.intentContent env r.targets.length ps)
  · rw [if_pos hsize]
    refine (wp_raise _).mpr (.inr ⟨⟨_, rfl⟩, fun hc => ?_, ⟨_, h⟩, .refl _ _ d⟩)
    exact absurd hc.intent (Nat.not_le.mpr hsize)
  · rw [if_neg hsize]
    simp only
    rw [wp_bind]
    cases hdec : j.decode env false d with
    | error e =>
      exact (Journal.read_wp_error hdec).mpr (.inr ⟨⟨_, rfl⟩, h.not_canFinish hprep hreq hdec, ⟨_, h⟩, .refl _ _ d⟩)
    | ok rec =>
      refine (Journal.read_wp hdec).mpr ?_
      refine wp_seq (wp_mono (Journal.finish_wp hprep hreq h hdec (Nat.not_lt.mp hsize)) ?_ fun _ hu => hu)
        fun _ u hu => (wp_pure _).mpr hu
      rintro res u (⟨rfl, hend⟩ | ⟨⟨e, rfl⟩, hend⟩)
      · exact .inl ⟨rfl, hend⟩
      · exact .inr ⟨⟨e, rfl⟩, hend⟩

/-- The request is the one the intent was made from. -/
theorem AcceptedFrom.retried (howned : r.Owned env)
    (hreq : AcceptedFrom env (ownedIdentities env r.targets) ts ps) : AcceptedFrom env (targetPaths r.targets) ts ps := by
  refine { hreq with fresh := fun p hp hmem => ?_ }
  -- a spelling in the record that is canonical is the canonical spelling of its target
  obtain ⟨t, ht, heq⟩ := List.mem_map.mp hmem
  obtain ⟨q, hq⟩ := Option.isSome_iff_exists.mp (howned.resolves t ht)
  have hclean := ownedTargetPath_clean (hreq.accepted p hp).owned
  have hsame : q = p.2 := ownedTargetPath_posix_eq hclean (heq ▸ hq)
  refine hreq.fresh p hp (List.mem_filterMap.mpr ⟨t, ht, ?_⟩)
  rw [hq, hsame]
  rfl

/-- A retry of the request while the intent is there. -/
theorem Journal.append_pending_wp (hprep : j.Prepared env d₀ r)
    (hreq : AcceptedFrom env (ownedIdentities env r.targets) ts ps) (hne : ps ≠ [])
    (h : j.During env r ps d₀ true appended d) :
    wp (j.appendTargets env ts)
      (j.Ends env r ps d₀ d appended (j.CanFinish env r ps d appended) ())
      (j.Within env r ps d₀ d) d := by
  have hts : ts ≠ [] := by
    rw [← hreq.targets]
    simpa using hne
  unfold Journal.appendTargets
  rw [wp_bind]
  cases hdec : j.decode env false d with
  | error e =>
    exact (Journal.read_wp_error hdec).mpr (.inr ⟨⟨_, rfl⟩, h.not_canFinish hprep hreq hdec, ⟨_, h⟩, .refl _ _ d⟩)
  | ok rec =>
    obtain ⟨hstatus, htake⟩ : rec.status = .prepared ∧ rec.targets.take r.targets.length = r.targets := by
      cases appended with
      | false =>
        obtain rfl := Except.ok.inj ((h.decode_old hprep).symm.trans hdec)
        exact ⟨hprep.status, List.take_length⟩
      | true =>
        have hread := h.readable hreq.accepted hdec
        obtain rfl := Except.ok.inj ((h.decode_new hprep hreq hread).symm.trans hdec)
        exact ⟨hprep.status, List.take_left⟩
    have hbase : (((j.intent env r.targets.length ps).get "base_targets").bind Json.int?).getD 0 =
      (r.targets.length : Int) := rfl
    have hprepared : prepareAppendIntent env r.targets.length (targetPaths r.targets) ts =
        .ok (appendEntries env r.targets.length ps) :=
      prepareAppendIntent_eq_ok.mpr ⟨ps, hreq.retried (decodeEntry_owned hprep.decode), rfl⟩
    have htargets : (j.intent env r.targets.length ps).get "targets" =
        some (.arr ((appendEntries env r.targets.length ps).map .obj)) := rfl
    refine (Journal.read_wp hdec).mpr ?_
    simp only [hstatus, Status.settled, Bool.false_eq_true, if_false, hts]
    rw [wp_bind, wp_read]
    simp only [h.readIntent_pending hne]
    by_cases hsize : maxEvidenceBytes < env.size (j.intentContent env r.targets.length ps)
    · rw [if_pos hsize]
      refine (wp_raise _).mpr (.inr ⟨⟨_, rfl⟩, fun hc => ?_, ⟨_, h⟩, .refl _ _ d⟩)
      exact absurd hc.intent (Nat.not_le.mpr hsize)
    · rw [if_neg hsize]
      simp only [hbase, Int.toNat_natCast, htake, hprepared, htargets, if_true]
      exact Journal.finish_wp hprep hreq h hdec (Nat.not_lt.mp hsize)

/-- The first run of the request, or a retry when nothing was written. -/
theorem Journal.append_fresh_wp (hprep : j.Prepared env d₀ r)
    (hreq : AcceptedFrom env (ownedIdentities env r.targets) ts ps) (hne : ps ≠ [])
    (h : j.During env r ps d₀ false false d) :
    wp (j.appendTargets env ts)
      (j.Ends env r ps d₀ d false (HasRoom env (j.files d) r.targets.length ps) ())
      (j.Within env r ps d₀ d) d := by
  have hts : ts ≠ [] := by
    rw [← hreq.targets]
    simpa using hne
  have hdec := h.decode_old hprep
  have hprepared : prepareAppendIntent env r.targets.length (ownedIdentities env r.targets) ts =
      .ok (appendEntries env r.targets.length ps) := prepareAppendIntent_eq_ok.mpr ⟨ps, hreq, rfl⟩
  obtain ⟨d', hd'⟩ : ∃ d', writeFile (j.intentContent env r.targets.length ps) j.appendIntentPath d =
      some d' := Journal.exists_alter h.dir (by rw [h.intent]; rfl)
  obtain ⟨hdir', hint, hsame⟩ := Journal.files_alter h.dir hd'
  rw [h.intent] at hint
  have h' : j.During env r ps d₀ true false d' := by
    refine ⟨hdir', fun name h1 h2 => ?_, (Option.some.inj hint).symm, ?_, fun ha => by cases ha⟩
    · rw [hsame name h2]
      exact h.others name h1 h2
    · rw [hsame _ (by decide)]
      exact h.manifest
  have hroom : HasRoom env (j.files d') r.targets.length ps ↔
      HasRoom env (j.files d) r.targets.length ps := by
    unfold HasRoom
    simp only [hsame _ (payloadName_ne env _ _ (by decide))]
  unfold Journal.appendTargets
  rw [wp_bind]
  refine (Journal.read_wp hdec).mpr ?_
  simp only [hprep.status, Status.settled, Bool.false_eq_true, if_false, hts]
  rw [wp_bind, wp_read]
  simp only [h.readIntent_idle, hprepared]
  rw [wp_bind]
  have hwrite : atomicJson j.appendIntentPath (.obj (j.intent env r.targets.length ps)) =
      atomicWrite j.appendIntentPath (j.intentContent env r.targets.length ps) := rfl
  have hintent : ([("schema_version", .int appendIntentSchema), ("op_id", .str j.opId),
      ("base_targets", .int r.targets.length),
      ("targets", .arr ((appendEntries env r.targets.length ps).map .obj))] : Dict) =
        j.intent env r.targets.length ps := rfl
  rw [hintent, hwrite, atomicWrite, wp_attempt, hd']
  have hback : ∀ u, j.PayloadsKept env r.targets.length ps d' u →
      j.PayloadsKept env r.targets.length ps d u := by
    intro u hkept i p c hp hc
    rw [← hsame _ (payloadName_ne env (r.targets.length + i) p (by decide))]
    exact hkept i p c hp hc
  refine ⟨⟨⟨_, _, h⟩, .refl _ _ d⟩, wp_mono (Journal.finish_old_wp hprep hreq.accepted h') ?_
    fun u hu => ⟨hu.1, hback u hu.2⟩⟩
  rintro res u (⟨rfl, hfits, hu, hkept⟩ | ⟨e, rfl, hfits, hu, hkept⟩)
  · exact .inl ⟨rfl, hroom.mp hfits, hu, hback u hkept⟩
  · exact .inr ⟨⟨e, rfl⟩, fun hr => hfits (hroom.mpr hr), ⟨_, hu⟩, hback u hkept⟩

/-- A retry of an append that is complete is refused and writes nothing. -/
theorem Journal.append_done_wp (hprep : j.Prepared env d₀ r)
    (hreq : AcceptedFrom env (ownedIdentities env r.targets) ts ps) (hne : ps ≠ [])
    (h : j.During env r ps d₀ false true d) :
    wp (j.appendTargets env ts) (fun _ u => u = d) (fun _ => False) d := by
  have hts : ts ≠ [] := by
    rw [← hreq.targets]
    simpa using hne
  unfold Journal.appendTargets
  rw [wp_bind]
  cases hdec : j.decode env false d with
  | error e => exact (Journal.read_wp_error hdec).mpr rfl
  | ok rec =>
    have hread := h.readable hreq.accepted hdec
    obtain rfl := Except.ok.inj ((h.decode_new hprep hreq hread).symm.trans hdec)
    have hstatus : (r.append env ps).status = .prepared := hprep.status
    refine (Journal.read_wp hdec).mpr ?_
    simp only [hstatus, Status.settled, Bool.false_eq_true, if_false, hts]
    rw [wp_bind, wp_read]
    simp only [h.readIntent_idle]
    cases hprepared : prepareAppendIntent env (r.append env ps).targets.length
        (ownedIdentities env (r.append env ps).targets) ts with
    | error e => exact (wp_raise _).mpr rfl
    | ok es =>
      -- the first target of the request is in the manifest already
      obtain ⟨qs, hqs, -⟩ := prepareAppendIntent_eq_ok.mp hprepared
      obtain ⟨p, ps', rfl⟩ := List.exists_cons_of_ne_nil hne
      obtain ⟨q, qs', rfl⟩ := List.exists_cons_of_ne_nil (l := qs) (by
        rintro rfl
        exact hts hqs.targets.symm)
      have hsame : q.1 = p.1 := (List.cons.inj (hqs.targets.trans hreq.targets.symm)).1
      have howned := (hqs.accepted q List.mem_cons_self).owned
      rw [hsame, (hreq.accepted p List.mem_cons_self).owned] at howned
      have hpath : p.2 = q.2 := Option.some.inj howned
      refine absurd ?_ (hqs.fresh q List.mem_cons_self)
      refine List.mem_filterMap.mpr ⟨p.1.record env p.2, ?_, ?_⟩
      · exact List.mem_append_right _ List.mem_cons_self
      · show (ownedTargetPath env (posix p.2)).map posix = some (posix q.2)
        rw [(hread p List.mem_cons_self).2, hpath]
        rfl

end During

/-- Without an intent there is nothing to resume. -/
theorem Journal.resume_idle_wp (h : (j.files d).lookup "append.intent.json" = none) :
    wp (j.resumeAppendIntent env) (fun _ u => u = d) (fun _ => False) d := by
  have hread : readAppendIntent env j.opId (j.files d) = .ok none := by
    rw [readAppendIntent, h]
  unfold Journal.resumeAppendIntent
  rw [wp_bind, wp_read]
  simp only [hread]
  exact (wp_pure _).mpr rfl

/-! ### Interrupted runs -/

/-- The payload that is created between two states of a run is left with some of its bytes. -/
def Journal.Torn (env : Environment) (j : Journal) (u v w : Disk) : Prop :=
  ∃ i s c part, createFile c (j.dir ++ [stagedName env i s]) u = some v ∧
    createFile part (j.dir ++ [stagedName env i s]) u = some w

/-- The states an interrupted run of the request, or of recovery's resumption, leaves: the process
dies between two effects, or while it creates a payload. -/
inductive Journal.Stops (env : Environment) (j : Journal) (ts : List AppendTarget) :
    Disk → Disk → Prop
  | request {d u : Disk} (h : (j.appendTargets env ts).Leaves d u) : Stops env j ts d u
  | resumption {d u : Disk} (h : (j.resumeAppendIntent env).Leaves d u) : Stops env j ts d u
  | tornRequest {d u v w : Disk} (h : (j.appendTargets env ts).Next d u v)
      (ht : j.Torn env u v w) : Stops env j ts d w
  | tornResumption {d u v w : Disk} (h : (j.resumeAppendIntent env).Next d u v)
      (ht : j.Torn env u v w) : Stops env j ts d w

/-- Any number of interrupted runs. -/
def Journal.Interrupted (env : Environment) (j : Journal) (ts : List AppendTarget) :
    Disk → Disk → Prop := Relation.ReflTransGen (j.Stops env ts)

section Runs

variable {pending appended : Bool}

theorem Journal.Ends.within {α : Type} {good : Prop} {a : α} {res : Except Exn α}
    (h : j.Ends env r ps d₀ d appended good a res u) : j.Within env r ps d₀ d u := by
  rcases h with ⟨-, -, hu, hkept⟩ | ⟨-, -, ⟨pending, hu⟩, hkept⟩
  · exact ⟨⟨_, _, hu⟩, hkept⟩
  · exact ⟨⟨_, _, hu⟩, hkept⟩

/-- A torn payload takes a free name, and the append is no further. -/
theorem Journal.During.torn (h : j.During env r ps d₀ pending appended u) {i : Nat} {s : String}
    {part : Content} (ht : createFile part (j.dir ++ [stagedName env i s]) u = some d) :
    j.During env r ps d₀ pending appended d := by
  obtain ⟨hdir, hfile, hsame⟩ := Journal.files_alter h.dir ht
  have hfree : (j.files u).lookup (stagedName env i s) = none := by
    cases hl : (j.files u).lookup (stagedName env i s) with
    | none => rfl
    | some n => rw [hl] at hfile; cases hfile
  rw [hfree] at hfile
  have hne : ∀ name n, (j.files u).lookup name = some n → name ≠ stagedName env i s := by
    rintro name n hn rfl
    rw [hfree] at hn
    cases hn
  refine ⟨hdir, fun name h1 h2 => ?_, ?_, ?_, fun ha k p c hp hc => ?_⟩
  · by_cases hname : name = stagedName env i s
    · subst hname
      refine .inr ⟨?_, ⟨i, s, rfl⟩, part, (Option.some.inj hfile).symm⟩
      rcases h.others _ h1 h2 with heq | ⟨hnone, -⟩
      · rw [← heq, hfree]
      · exact hnone
    · rw [hsame name hname]
      exact h.others name h1 h2
  · rw [hsame _ (stagedName_ne env i s (by decide)).symm]
    exact h.intent
  · rw [hsame _ (stagedName_ne env i s (by decide)).symm]
    exact h.manifest
  · obtain ⟨b, hb, heq⟩ := h.staged ha k p c hp hc
    exact ⟨b, by rw [hsame _ (hne _ _ hb), hb], heq⟩

/-- Every state that a run of the request can be left in lies in the append. -/
theorem Journal.During.append_leaves (hprep : j.Prepared env d₀ r)
    (hreq : AcceptedFrom env (ownedIdentities env r.targets) ts ps) (hne : ps ≠ [])
    (h : j.During env r ps d₀ pending appended d) (hu : (j.appendTargets env ts).Leaves d u) :
    j.Within env r ps d₀ d u := by
  cases pending with
  | true => exact (Journal.append_pending_wp hprep hreq hne h).leaves (fun _ _ hw => hw.within) hu
  | false =>
    cases appended with
    | false => exact (Journal.append_fresh_wp hprep hreq hne h).leaves (fun _ _ hw => hw.within) hu
    | true =>
      obtain ⟨htrail, hfinal⟩ := Journal.append_done_wp hprep hreq hne h
      rcases hu with hu | rfl
      · exact absurd (htrail u hu) id
      · rw [hfinal]
        exact ⟨⟨_, _, h⟩, .refl _ _ d⟩

/-- Every state that a resumption can be left in lies in the append. -/
theorem Journal.During.resume_leaves (hprep : j.Prepared env d₀ r)
    (hreq : AcceptedFrom env (ownedIdentities env r.targets) ts ps) (hne : ps ≠ [])
    (h : j.During env r ps d₀ pending appended d) (hu : (j.resumeAppendIntent env).Leaves d u) :
    j.Within env r ps d₀ d u := by
  cases pending with
  | true => exact (Journal.resume_wp hprep hreq hne h).leaves (fun _ _ hw => hw.within) hu
  | false =>
    obtain ⟨htrail, hfinal⟩ := @Journal.resume_idle_wp env j d h.intent
    rcases hu with hu | rfl
    · exact absurd (htrail u hu) id
    · rw [hfinal]
      exact ⟨⟨_, _, h⟩, .refl _ _ d⟩

/-- Every state that an interrupted run leaves lies in the append. -/
theorem Journal.During.stops (hprep : j.Prepared env d₀ r)
    (hreq : AcceptedFrom env (ownedIdentities env r.targets) ts ps) (hne : ps ≠ [])
    (h : j.During env r ps d₀ pending appended d) (hs : j.Stops env ts d u) :
    ∃ pending appended, j.During env r ps d₀ pending appended u := by
  cases hs with
  | request hu => exact (h.append_leaves hprep hreq hne hu).1
  | resumption hu => exact (h.resume_leaves hprep hreq hne hu).1
  | tornRequest hn ht =>
    obtain ⟨⟨_, _, hu⟩, -⟩ := h.append_leaves hprep hreq hne hn.leaves.1
    obtain ⟨i, s, c, part, -, hpart⟩ := ht
    exact ⟨_, _, hu.torn hpart⟩
  | tornResumption hn ht =>
    obtain ⟨⟨_, _, hu⟩, -⟩ := h.resume_leaves hprep hreq hne hn.leaves.1
    obtain ⟨i, s, c, part, -, hpart⟩ := ht
    exact ⟨_, _, hu.torn hpart⟩

/-- Every state after any number of interrupted runs lies in the append. -/
theorem Journal.Interrupted.during (hprep : j.Prepared env d₀ r)
    (hreq : AcceptedFrom env (ownedIdentities env r.targets) ts ps) (hne : ps ≠ [])
    (hrun : j.Interrupted env ts d₀ d) :
    ∃ pending appended, j.During env r ps d₀ pending appended d := by
  induction hrun with
  | refl => exact ⟨_, _, hprep.during⟩
  | tail _ hs ih =>
    obtain ⟨_, _, h⟩ := ih
    exact h.stops hprep hreq hne hs

end Runs

/-! ### What a retry ends with -/

/-- A target of the manifest carries a target of the request: its path, role, action and hash, and
for a write the hash of its bytes, which are staged. -/
structure AppendTarget.Carried (env : Environment) (files : Entries Content) (index : Nat)
    (t : AppendTarget) (u : TargetRecord) : Prop where
  path : (ownedTargetPath env t.path).map posix = some u.path
  role : u.role.name = t.role
  action : u.action.map Action.name = some t.action
  beforeHash : u.beforeHash = t.beforeHash
  payload : ∀ c, t.bytes = some c →
    u.afterHash = env.hashBytes c ∧ files.lookup (stagedName env index u.path) = some (.file c)

/-- The manifest has the targets it had, and behind them the targets of the request, each once and in
order. -/
def Journal.Appended (env : Environment) (j : Journal) (r : Record) (ts : List AppendTarget)
    (d : Disk) : Prop :=
  ∃ r', j.decode env false d = .ok r' ∧ r'.targets.take r.targets.length = r.targets ∧
    r'.targets.length = r.targets.length + ts.length ∧
    ∀ i t, ts[i]? = some t → ∃ u, r'.targets[r.targets.length + i]? = some u ∧
      t.Carried env (j.files d) (r.targets.length + i) u

/-- A retry of the request ends with the targets appended; with the intent on the disk both the
retry and recovery's resumption return. -/
structure Journal.Resumes (env : Environment) (j : Journal) (r : Record) (ts : List AppendTarget)
    (d : Disk) : Prop where
  retry : j.Appended env r ts ((j.appendTargets env ts).run d).final
  pending : (j.files d).lookup "append.intent.json" ≠ none →
    (∃ u, (j.appendTargets env ts).Yields d () u ∧ j.Appended env r ts u) ∧
      ∃ u, (j.resumeAppendIntent env).Yields d true u ∧ j.Appended env r ts u

/-- The request is one that `append_targets` accepts, with roles and canonical paths the decoder reads
and no empty after-hash for a write; and on the disk every payload name is free or holds the whole
payload, and what has to be read is within the limit. -/
structure Journal.AppendReady (env : Environment) (j : Journal) (r : Record)
    (ts : List AppendTarget) (d : Disk) : Prop where
  request : ∃ es, prepareAppendIntent env r.targets.length (ownedIdentities env r.targets) ts = .ok es
  roles : ∀ t ∈ ts, (Role.ofName? t.role).isSome = true
  paths : ∀ t ∈ ts, ∀ rel, ownedTargetPath env t.path = some rel →
    driveRooted (posix rel).toList = false
  hashes : ∀ t ∈ ts, t.action = "write" → t.afterHash ≠ some ""
  payloads : ∀ i t rel c, ts[i]? = some t → ownedTargetPath env t.path = some rel → t.bytes = some c →
    (j.files d).lookup (stagedName env (r.targets.length + i) (posix rel)) = none ∨
      (j.files d).lookup (stagedName env (r.targets.length + i) (posix rel)) = some (.file c)
  limits : ∀ i t rel c, ts[i]? = some t → ownedTargetPath env t.path = some rel → t.bytes = some c →
    (j.files d).lookup (stagedName env (r.targets.length + i) (posix rel)) ≠ none →
      j.decode env false d = .ok r → env.size c ≤ maxEvidenceBytes
  intent : ∀ c, (j.files d).lookup "append.intent.json" = some (.file c) →
    env.size c ≤ maxEvidenceBytes

section Law

variable {pending appended : Bool}

/-- Every payload of the list is staged whole. -/
def StagedWhole (env : Environment) (files : Entries Content) (base : Nat)
    (ps : List (AppendTarget × Path)) : Prop :=
  ∀ (i : Nat) (p : AppendTarget × Path) (c : Content), ps[i]? = some p → p.1.bytes = some c →
    files.lookup (payloadName env (base + i) p) = some (.file c)

/-- The after-hash of every write is the hash of its bytes. -/
def HashesExact (env : Environment) (ps : List (AppendTarget × Path)) : Prop :=
  ∀ p ∈ ps, ∀ c, p.1.bytes = some c → p.1.afterHash.getD (env.hashBytes c) = env.hashBytes c

theorem getElem?_of_targets (hreq : AcceptedFrom env (ownedIdentities env r.targets) ts ps) (i : Nat) :
    ts[i]? = (ps[i]?).map Prod.fst := by
  rw [← hreq.targets, List.getElem?_map]

/-- With the new manifest the append is complete exactly when its targets are read back, its hashes
are exact and its payloads are whole. -/
theorem Journal.During.appended_iff (hprep : j.Prepared env d₀ r)
    (hreq : AcceptedFrom env (ownedIdentities env r.targets) ts ps)
    (h : j.During env r ps d₀ pending true u) :
    j.Appended env r ts u ↔
      Readable env ps ∧ HashesExact env ps ∧ StagedWhole env (j.files u) r.targets.length ps := by
  have hget := getElem?_of_targets hreq
  have hrecord : ∀ i p, ps[i]? = some p →
      (r.append env ps).targets[r.targets.length + i]? = some (p.1.record env p.2) := by
    intro i p hp
    show (r.targets ++ ps.map fun p => p.1.record env p.2)[r.targets.length + i]? = _
    rw [List.getElem?_append_right (by omega), List.getElem?_map, Nat.add_sub_cancel_left, hp]
    rfl
  constructor
  · rintro ⟨r', hr', -, -, hall⟩
    have hread := h.readable hreq.accepted hr'
    obtain rfl := Except.ok.inj ((h.decode_new hprep hreq hread).symm.trans hr')
    have hcarried : ∀ (i : Nat) (p : AppendTarget × Path), ps[i]? = some p →
        p.1.Carried env (j.files u) (r.targets.length + i) (p.1.record env p.2) := by
      intro i p hp
      obtain ⟨t, ht, hc⟩ := hall i p.1 (by rw [hget, hp]; rfl)
      obtain rfl := Option.some.inj ((hrecord i p hp).symm.trans ht)
      exact hc
    refine ⟨hread, fun p hp c hc => ?_, fun i p c hp hc => ?_⟩
    · obtain ⟨i, hi⟩ := List.mem_iff_getElem?.mp hp
      have hash := ((hcarried i p hi).payload c hc).1
      rwa [AppendTarget.record, hc] at hash
    · exact ((hcarried i p hp).payload c hc).2
  · rintro ⟨hread, hexact, hwhole⟩
    refine ⟨_, h.decode_new hprep hreq hread, List.take_left, ?_, fun i t ht => ?_⟩
    · rw [← hreq.targets]
      simp [Record.append]
    · rw [hget] at ht
      obtain ⟨p, hp, rfl⟩ := Option.map_eq_some_iff.mp ht
      have hps := List.mem_of_getElem? hp
      have hacc := hreq.accepted p hps
      refine ⟨_, hrecord i p hp, ?_, ?_, ?_, rfl, fun c hc => ⟨?_, hwhole i p c hp hc⟩⟩
      · rw [hacc.owned]
        rfl
      · obtain ⟨role, hrole⟩ := Option.isSome_iff_exists.mp (hread p hps).1
        rw [AppendTarget.record, hrole]
        exact ofName?_eq_some hrole
      · obtain ⟨a, ha⟩ := Option.isSome_iff_exists.mp hacc.action
        rw [AppendTarget.record, ha]
        exact congrArg some (ofName?_eq_some ha)
      · rw [AppendTarget.record, hc]
        exact hexact p hps c hc

/-- With the old manifest the append is not complete. -/
theorem Journal.During.not_appended (hprep : j.Prepared env d₀ r) (hts : ts ≠ [])
    (h : j.During env r ps d₀ pending false u) : ¬ j.Appended env r ts u := by
  rintro ⟨r', hr', -, hlen, -⟩
  obtain rfl := Except.ok.inj ((h.decode_old hprep).symm.trans hr')
  have : ts.length ≠ 0 := fun h0 => hts (List.length_eq_zero_iff.mp h0)
  omega

/-- The conditions on the request, for the targets with their owned paths. -/
theorem readable_iff (hreq : AcceptedFrom env (ownedIdentities env r.targets) ts ps) :
    Readable env ps ↔ (∀ t ∈ ts, (Role.ofName? t.role).isSome = true) ∧
      ∀ t ∈ ts, ∀ rel, ownedTargetPath env t.path = some rel →
        driveRooted (posix rel).toList = false := by
  rw [← hreq.targets]
  constructor
  · intro h
    refine ⟨fun t ht => ?_, fun t ht rel hrel => ?_⟩
    · obtain ⟨p, hp, rfl⟩ := List.mem_map.mp ht
      exact (h p hp).1
    · obtain ⟨p, hp, rfl⟩ := List.mem_map.mp ht
      obtain rfl := Option.some.inj ((hreq.accepted p hp).owned.symm.trans hrel)
      exact (ownedTargetPath_eq_some (h p hp).2).1.2.2.1
  · rintro ⟨hroles, hpaths⟩ p hp
    have hmem : p.1 ∈ ps.map Prod.fst := List.mem_map_of_mem hp
    have howned := (hreq.accepted p hp).owned
    exact ⟨hroles p.1 hmem,
      ownedTargetPath_posix (ownedTargetPath_clean howned) (hpaths p.1 hmem p.2 howned)⟩

theorem hashesExact_iff (hreq : AcceptedFrom env (ownedIdentities env r.targets) ts ps) :
    HashesExact env ps ↔ ∀ t ∈ ts, t.action = "write" → t.afterHash ≠ some "" := by
  rw [← hreq.targets]
  constructor
  · intro h t ht hwrite hempty
    obtain ⟨p, hp, rfl⟩ := List.mem_map.mp ht
    obtain ⟨c, hc, -⟩ := (hreq.accepted p hp).bytes hwrite
    have hexact := h p hp c (by rw [AppendTarget.bytes, if_pos hwrite, hc])
    rw [hempty] at hexact
    exact env.hashBytes_ne c hexact.symm
  · intro h p hp c hc
    have hwrite : p.1.action = "write" := by
      by_contra hn
      rw [AppendTarget.bytes, if_neg hn] at hc
      cases hc
    obtain ⟨b, hb, hall⟩ := (hreq.accepted p hp).bytes hwrite
    rw [AppendTarget.bytes, if_pos hwrite, hb] at hc
    obtain rfl := Option.some.inj hc
    cases ha : p.1.afterHash with
    | none => rfl
    | some a =>
      rcases hall a ha with rfl | rfl
      · exact absurd ha (h p.1 (List.mem_map_of_mem hp) hwrite)
      · rfl

/-- A condition on the payload names, for the targets with their owned paths. -/
theorem forall_payload_iff (hreq : AcceptedFrom env (ownedIdentities env r.targets) ts ps)
    {P : String → Content → Prop} :
    (∀ i t rel c, ts[i]? = some t → ownedTargetPath env t.path = some rel → t.bytes = some c →
      P (stagedName env (r.targets.length + i) (posix rel)) c) ↔
    ∀ (i : Nat) (p : AppendTarget × Path) (c : Content), ps[i]? = some p → p.1.bytes = some c →
      P (payloadName env (r.targets.length + i) p) c := by
  have hget := getElem?_of_targets hreq
  constructor
  · intro h i p c hp hc
    have howned := (hreq.accepted p (List.mem_of_getElem? hp)).owned
    exact h i p.1 p.2 c (by rw [hget, hp]; rfl) howned hc
  · intro h i t rel c ht hrel hc
    rw [hget] at ht
    obtain ⟨p, hp, rfl⟩ := Option.map_eq_some_iff.mp ht
    obtain rfl := Option.some.inj ((hreq.accepted p (List.mem_of_getElem? hp)).owned.symm.trans hrel)
    exact h i p c hp hc

/-- A run that ends well says so, and one that does not has failed. -/
theorem Journal.Ends.yields_iff {α : Type} {m : Engine α} {good : Prop} {a : α}
    (h : wp m (j.Ends env r ps d₀ d appended good a)
      (j.Within env r ps d₀ d) d) :
    ((∃ u, m.Yields d a u) ↔ good) ∧ ∀ u, m.Yields d a u →
      j.During env r ps d₀ false true u ∧ j.PayloadsKept env r.targets.length ps d u := by
  rcases h.2 with ⟨hres, hgood, hu, hkept⟩ | ⟨⟨e, hres⟩, hbad, -⟩
  · refine ⟨⟨fun _ => hgood, fun _ => ⟨_, hres, rfl⟩⟩, fun u hy => ?_⟩
    obtain ⟨-, rfl⟩ := hy
    exact ⟨hu, hkept⟩
  · have hno : ∀ u, ¬ m.Yields d a u := by
      rintro u ⟨hy, -⟩
      rw [hres] at hy
      cases hy
    exact ⟨⟨fun ⟨u, hy⟩ => absurd hy (hno u), fun hg => absurd hg hbad⟩, fun u hy => absurd hy (hno u)⟩

/-- Every payload name is free or holds the whole payload. -/
def Untorn (env : Environment) (files : Entries Content) (base : Nat)
    (ps : List (AppendTarget × Path)) : Prop :=
  ∀ (i : Nat) (p : AppendTarget × Path) (c : Content), ps[i]? = some p → p.1.bytes = some c →
    files.lookup (payloadName env (base + i) p) = none ∨
      files.lookup (payloadName env (base + i) p) = some (.file c)

/-- What an append stages is whole in the end exactly when nothing torn was there before. -/
theorem Journal.PayloadsKept.stagedWhole_iff {base : Nat} (h : j.PayloadsKept env base ps d u)
    (hholds : Holds env (j.files u) base ps) :
    StagedWhole env (j.files u) base ps ↔ Untorn env (j.files d) base ps := by
  constructor
  · intro hwhole i p c hp hc
    rcases h i p c hp hc with heq | ⟨hnone, -⟩
    · exact .inr (heq ▸ hwhole i p c hp hc)
    · exact .inl hnone
  · intro huntorn i p c hp hc
    rcases h i p c hp hc with heq | ⟨-, hfile⟩
    · rcases huntorn i p c hp hc with hnone | hfile
      · obtain ⟨b, hb, -⟩ := hholds i p c hp hc
        rw [heq, hnone] at hb
        cases hb
      · rw [heq, hfile]
    · exact hfile

/-- The conditions of `AppendReady` at a state of the append. -/
structure Journal.Continues (env : Environment) (j : Journal) (r : Record)
    (ps : List (AppendTarget × Path)) (d : Disk) (pending appended : Bool) : Prop where
  readable : Readable env ps
  exact : HashesExact env ps
  untorn : Untorn env (j.files d) r.targets.length ps
  room : appended = false → HasRoom env (j.files d) r.targets.length ps
  intent : pending = true → env.size (j.intentContent env r.targets.length ps) ≤ maxEvidenceBytes

theorem Journal.During.decodes_old_iff (hprep : j.Prepared env d₀ r)
    (hreq : AcceptedFrom env (ownedIdentities env r.targets) ts ps) (hne : ps ≠ [])
    (h : j.During env r ps d₀ pending appended d) :
    j.decode env false d = .ok r ↔ appended = false := by
  cases appended with
  | false => exact ⟨fun _ => rfl, fun _ => h.decode_old hprep⟩
  | true =>
    refine ⟨fun hr => ?_, fun ha => by cases ha⟩
    have hread := h.readable hreq.accepted hr
    have heq := Except.ok.inj ((h.decode_new hprep hreq hread).symm.trans hr)
    have hlen : (r.targets ++ ps.map fun p => p.1.record env p.2).length = r.targets.length :=
      congrArg (fun r => r.targets.length) heq
    have hpos : ps.length ≠ 0 := fun h0 => hne (List.length_eq_zero_iff.mp h0)
    rw [List.length_append, List.length_map] at hlen
    omega

theorem Journal.During.appendReady_iff (hprep : j.Prepared env d₀ r)
    (hreq : AcceptedFrom env (ownedIdentities env r.targets) ts ps) (hne : ps ≠ [])
    (h : j.During env r ps d₀ pending appended d) :
    j.AppendReady env r ts d ↔ j.Continues env r ps d pending appended := by
  have hold := h.decodes_old_iff hprep hreq hne
  have hintent := h.intent
  constructor
  · intro hready
    have huntorn : Untorn env (j.files d) r.targets.length ps :=
      (forall_payload_iff hreq (P := fun name c => (j.files d).lookup name = none ∨
        (j.files d).lookup name = some (.file c))).mp hready.payloads
    have hlimits := (forall_payload_iff hreq (P := fun name c => (j.files d).lookup name ≠ none →
      j.decode env false d = .ok r → env.size c ≤ maxEvidenceBytes)).mp hready.limits
    refine ⟨(readable_iff hreq).mpr ⟨hready.roles, hready.paths⟩, (hashesExact_iff hreq).mpr hready.hashes,
      huntorn, fun ha i p c hp hc => ?_, fun hpending => ?_⟩
    · rcases huntorn i p c hp hc with hnone | hfile
      · exact .inl hnone
      · exact .inr ⟨c, hfile, hlimits i p c hp hc (by rw [hfile]; simp) (hold.mpr ha), rfl⟩
    · rw [if_pos hpending] at hintent
      exact hready.intent _ hintent
  · intro hc
    obtain ⟨hroles, hpaths⟩ := (readable_iff hreq).mp hc.readable
    refine ⟨⟨_, prepareAppendIntent_eq_ok.mpr ⟨ps, hreq, rfl⟩⟩, hroles, hpaths, (hashesExact_iff hreq).mp hc.exact,
      (forall_payload_iff hreq (P := fun name c => (j.files d).lookup name = none ∨
        (j.files d).lookup name = some (.file c))).mpr hc.untorn,
      (forall_payload_iff hreq (P := fun name c => (j.files d).lookup name ≠ none →
        j.decode env false d = .ok r → env.size c ≤ maxEvidenceBytes)).mpr ?_, fun c hfile => ?_⟩
    · intro i p c hp hbytes hsome hr
      rcases hc.room (hold.mp hr) i p c hp hbytes with hnone | ⟨b, hb, hsize, -⟩
      · exact absurd hnone hsome
      · rcases hc.untorn i p c hp hbytes with hnone | hfile
        · exact absurd hnone hsome
        · obtain rfl := Node.file.inj (Option.some.inj (hfile.symm.trans hb))
          exact hsize
    · rw [hintent] at hfile
      split_ifs at hfile with hpending
      obtain rfl := Node.file.inj (Option.some.inj hfile)
      exact hc.intent hpending

/-- A retry from a state of the append ends well exactly when it can. -/
theorem Journal.During.resumes_iff (hprep : j.Prepared env d₀ r)
    (hreq : AcceptedFrom env (ownedIdentities env r.targets) ts ps) (hne : ps ≠ [])
    (h : j.During env r ps d₀ pending appended d) :
    j.Resumes env r ts d ↔ j.Continues env r ps d pending appended := by
  have hts : ts ≠ [] := by
    rw [← hreq.targets]
    simpa using hne
  -- what the end state says about the start
  have hend : ∀ u, j.During env r ps d₀ false true u → j.PayloadsKept env r.targets.length ps d u →
      (j.Appended env r ts u ↔ Readable env ps ∧ HashesExact env ps ∧
        Untorn env (j.files d) r.targets.length ps) := by
    intro u hu hkept
    rw [hu.appended_iff hprep hreq, hkept.stagedWhole_iff (hu.staged rfl)]
  cases pending with
  | true =>
    obtain ⟨happend, hafter⟩ := Journal.Ends.yields_iff (Journal.append_pending_wp hprep hreq hne h)
    obtain ⟨hresume, hafter'⟩ := Journal.Ends.yields_iff (Journal.resume_wp hprep hreq hne h)
    have hpresent : (j.files d).lookup "append.intent.json" ≠ none := by
      rw [h.intent]
      simp
    constructor
    · intro hr
      obtain ⟨⟨u, hy, happ⟩, -⟩ := hr.pending hpresent
      have hfinish := happend.mp ⟨u, hy⟩
      obtain ⟨hu, hkept⟩ := hafter u hy
      obtain ⟨hread, hexact, huntorn⟩ := (hend u hu hkept).mp happ
      exact ⟨hread, hexact, huntorn, hfinish.room, fun _ => hfinish.intent⟩
    · intro hc
      have hfinish : j.CanFinish env r ps d appended := ⟨hc.intent rfl, hc.room, fun _ => hc.readable⟩
      obtain ⟨u, hy⟩ := happend.mpr hfinish
      obtain ⟨v, hy'⟩ := hresume.mpr hfinish
      obtain ⟨hu, hkept⟩ := hafter u hy
      obtain ⟨hv, hkept'⟩ := hafter' v hy'
      have happ := (hend u hu hkept).mpr ⟨hc.readable, hc.exact, hc.untorn⟩
      have happ' := (hend v hv hkept').mpr ⟨hc.readable, hc.exact, hc.untorn⟩
      refine ⟨?_, fun _ => ⟨⟨u, hy, happ⟩, v, hy', happ'⟩⟩
      obtain ⟨-, rfl⟩ := hy
      exact happ
  | false =>
    have habsent : (j.files d).lookup "append.intent.json" = none := h.intent
    have hidle : ∀ {Q : Prop}, (j.files d).lookup "append.intent.json" ≠ none → Q :=
      fun hpresent => absurd habsent hpresent
    cases appended with
    | false =>
      have hwp := Journal.append_fresh_wp hprep hreq hne h
      constructor
      · intro hr
        rcases hwp.2 with ⟨-, hroom, hu, hkept⟩ | ⟨-, -, ⟨_, hu⟩, -⟩
        · obtain ⟨hread, hexact, huntorn⟩ := (hend _ hu hkept).mp hr.retry
          exact ⟨hread, hexact, huntorn, fun _ => hroom, fun hp => by cases hp⟩
        · exact absurd hr.retry (hu.not_appended hprep hts)
      · intro hc
        rcases hwp.2 with ⟨-, hroom, hu, hkept⟩ | ⟨-, hroom, -⟩
        · exact ⟨(hend _ hu hkept).mpr ⟨hc.readable, hc.exact, hc.untorn⟩, hidle⟩
        · exact absurd (hc.room rfl) hroom
    | true =>
      have hfinal : ((j.appendTargets env ts).run d).final = d :=
        (Journal.append_done_wp hprep hreq hne h).2
      have hself := hend d h (Journal.PayloadsKept.refl _ _ d)
      constructor
      · intro hr
        have happ := hr.retry
        rw [hfinal] at happ
        obtain ⟨hread, hexact, huntorn⟩ := hself.mp happ
        exact ⟨hread, hexact, huntorn, (by intro ha; cases ha), (by intro hp; cases hp)⟩
      · intro hc
        refine ⟨?_, hidle⟩
        rw [hfinal]
        exact hself.mpr ⟨hc.readable, hc.exact, hc.untorn⟩

/-! ### The law -/

/-- A request that writes nothing leaves the operation at rest. -/
theorem Journal.interrupted_eq (hidle : (j.files d₀).lookup "append.intent.json" = none)
    (happend : ∀ u, (j.appendTargets env ts).Leaves d₀ u → u = d₀)
    (hrun : j.Interrupted env ts d₀ d) : d = d₀ := by
  have hresume : ∀ u, (j.resumeAppendIntent env).Leaves d₀ u → u = d₀ := by
    intro u hu
    obtain ⟨htrail, hfinal⟩ := @Journal.resume_idle_wp env j d₀ hidle
    rcases hu with hu | rfl
    · exact absurd (htrail u hu) id
    · exact hfinal
  have htorn : ∀ {u v w}, j.Torn env u v w → u ≠ v := by
    rintro u v w ⟨i, s, c, part, hc, -⟩ rfl
    -- the name is free before the creation and taken behind it
    obtain ⟨v, hv, hprobe, -⟩ := alter_eq_some hc
    cases hn : (probe (j.dir ++ [stagedName env i s]) u).node with
    | some n => rw [hn] at hv; cases hv
    | none =>
      rw [hn] at hv
      obtain rfl := Option.some.inj hv
      rw [hprobe] at hn
      cases hn
  induction hrun with
  | refl => rfl
  | tail _ hs ih =>
    subst ih
    cases hs with
    | request h => exact happend _ h
    | resumption h => exact hresume _ h
    | tornRequest h ht => exact absurd ((happend _ h.leaves.1).trans (happend _ h.leaves.2).symm) (htorn ht)
    | tornResumption h ht =>
      exact absurd ((hresume _ h.leaves.1).trans (hresume _ h.leaves.2).symm) (htorn ht)

/-- An empty request, and one that is refused, write nothing. -/
theorem Journal.append_idle_wp (hprep : j.Prepared env d₀ r)
    (hts : ts = [] ∨ ∃ e, prepareAppendIntent env r.targets.length (ownedIdentities env r.targets) ts =
      .error e) : wp (j.appendTargets env ts) (fun _ u => u = d₀) (fun _ => False) d₀ := by
  unfold Journal.appendTargets
  rw [wp_bind]
  refine (Journal.read_wp hprep.decode).mpr ?_
  simp only [hprep.status, Status.settled, Bool.false_eq_true, if_false]
  rcases hts with rfl | ⟨e, he⟩
  · exact (wp_pure _).mpr rfl
  · split_ifs
    · exact (wp_pure _).mpr rfl
    · rw [wp_bind, wp_read]
      have hduring : j.During env r [] d₀ false false d₀ := hprep.during
      simp only [hduring.readIntent_idle, he]
      exact (wp_raise _).mpr rfl

theorem Untorn.kept {base : Nat} (h : Untorn env (j.files d) base ps)
    (hkept : j.PayloadsKept env base ps d u) : Untorn env (j.files u) base ps := by
  intro i p c hp hc
  rcases hkept i p c hp hc with heq | ⟨-, hfile⟩
  · rw [heq]
    exact h i p c hp hc
  · exact .inr hfile

/-- Any number of runs that are interrupted between two effects. -/
def Journal.CutBetween (env : Environment) (j : Journal) (ts : List AppendTarget) :
    Disk → Disk → Prop :=
  Relation.ReflTransGen fun d u =>
    (j.appendTargets env ts).Leaves d u ∨ (j.resumeAppendIntent env).Leaves d u

theorem Journal.CutBetween.interrupted (h : j.CutBetween env ts d u) : j.Interrupted env ts d u := by
  induction h with
  | refl => exact .refl
  | tail _ hs ih =>
    rcases hs with hs | hs
    · exact ih.tail (.request hs)
    · exact ih.tail (.resumption hs)

/-- Runs that tear no payload leave every payload name free or whole. -/
theorem Journal.CutBetween.untorn (hprep : j.Prepared env d₀ r)
    (hreq : AcceptedFrom env (ownedIdentities env r.targets) ts ps) (hne : ps ≠ [])
    (hfree : Untorn env (j.files d₀) r.targets.length ps) (h : j.CutBetween env ts d₀ d) :
    Untorn env (j.files d) r.targets.length ps := by
  induction h with
  | refl => exact hfree
  | tail hrun hs ih =>
    obtain ⟨_, _, hduring⟩ := Journal.Interrupted.during hprep hreq hne (Journal.CutBetween.interrupted hrun)
    rcases hs with hs | hs
    · exact ih.kept (hduring.append_leaves hprep hreq hne hs).2
    · exact ih.kept (hduring.resume_leaves hprep hreq hne hs).2

/-- **An append is crash-idempotent where nothing is torn.** From a PREPARED operation, after any
number of interrupted runs, a retry ends with the targets appended exactly when the request is one
the decoder reads back and no payload name holds anything but the whole payload; and as long as no
payload is torn none does. -/
theorem append_crash_idempotent (hprep : j.Prepared env d₀ r) :
    (∀ d, j.Interrupted env ts d₀ d → (j.Resumes env r ts d ↔ j.AppendReady env r ts d)) ∧
      ((∀ i t rel, ts[i]? = some t → ownedTargetPath env t.path = some rel →
          (j.files d₀).lookup (stagedName env (r.targets.length + i) (posix rel)) = none) →
        ∀ d, j.CutBetween env ts d₀ d → ∀ i t rel c, ts[i]? = some t →
          ownedTargetPath env t.path = some rel → t.bytes = some c →
            (j.files d).lookup (stagedName env (r.targets.length + i) (posix rel)) = none ∨
              (j.files d).lookup (stagedName env (r.targets.length + i) (posix rel)) = some (.file c)) := by
  cases hprepared : prepareAppendIntent env r.targets.length (ownedIdentities env r.targets) ts with
  | error e =>
    -- a refused request writes nothing, and its targets are not in the manifest
    have hwp := Journal.append_idle_wp hprep (.inr ⟨e, hprepared⟩)
    have hleaves : ∀ u, (j.appendTargets env ts).Leaves d₀ u → u = d₀ := by
      rintro u (hu | rfl)
      · exact absurd (hwp.1 u hu) id
      · exact hwp.2
    have hts : ts ≠ [] := by
      rintro rfl
      cases hprepared
    refine ⟨fun d hrun => ?_, fun hfree d hrun i t rel c ht hrel _ => ?_⟩
    · obtain rfl := Journal.interrupted_eq hprep.idle hleaves hrun
      refine iff_of_false (fun hr => ?_) fun hready => ?_
      · have happ := hr.retry
        rw [show ((j.appendTargets env ts).run d).final = d from hwp.2] at happ
        have hduring : j.During env r [] d false false d := hprep.during
        exact hduring.not_appended hprep hts happ
      · obtain ⟨es, hes⟩ := hready.request
        rw [hprepared] at hes
        cases hes
    · obtain rfl := Journal.interrupted_eq hprep.idle hleaves hrun.interrupted
      exact .inl (hfree i t rel ht hrel)
  | ok es =>
    obtain ⟨ps, hreq, rfl⟩ := prepareAppendIntent_eq_ok.mp hprepared
    rcases eq_or_ne ps [] with rfl | hne
    · obtain rfl : [] = ts := hreq.targets
      have hwp := Journal.append_idle_wp hprep (.inl rfl)
      have hleaves : ∀ u, (j.appendTargets env []).Leaves d₀ u → u = d₀ := by
        rintro u (hu | rfl)
        · exact absurd (hwp.1 u hu) id
        · exact hwp.2
      refine ⟨fun d hrun => ?_, fun _ d _ i t rel c ht => by cases ht⟩
      obtain rfl := Journal.interrupted_eq hprep.idle hleaves hrun
      have hfinal : ((j.appendTargets env []).run d).final = d := hwp.2
      refine iff_of_true ⟨?_, fun hpresent => absurd hprep.idle hpresent⟩ ?_
      · rw [hfinal]
        exact ⟨r, hprep.decode, List.take_length, rfl, fun i t ht => by cases ht⟩
      · have hnone : ∀ (i : Nat) (t : AppendTarget), ([] : List AppendTarget)[i]? ≠ some t := by
          simp
        refine ⟨⟨_, hprepared⟩, by simp, by simp, by simp, fun i t _ _ ht => absurd ht (hnone i t),
          fun i t _ _ ht => absurd ht (hnone i t), fun c hc => ?_⟩
        rw [hprep.idle] at hc
        cases hc
    · refine ⟨fun d hrun => ?_, fun hfree d hrun => ?_⟩
      · obtain ⟨_, _, h⟩ := Journal.Interrupted.during hprep hreq hne hrun
        rw [h.resumes_iff hprep hreq hne, h.appendReady_iff hprep hreq hne]
      · have huntorn : Untorn env (j.files d₀) r.targets.length ps := fun i p c hp hc =>
          .inl (hfree i p.1 p.2 (by rw [getElem?_of_targets hreq, hp]; rfl)
            (hreq.accepted p (List.mem_of_getElem? hp)).owned)
        exact (forall_payload_iff hreq (P := fun name c => (j.files d).lookup name = none ∨
          (j.files d).lookup name = some (.file c))).mpr (hrun.untorn hprep hreq hne huntorn)

end Law

/-! ### A torn payload -/

/-- A PREPARED record that writes `a`. -/
def restRecord : Record where
  opId := "op-1"
  status := .prepared
  operation := "release"
  semanticPayloadHash := "payload"
  createdAt := "0001-01-01T00:00:00Z"
  agent := "agent"
  projectIdentity := "/work"
  projectLineage := .absent
  verificationPolicy := some .none
  preconditions := some []
  readPreconditions := some []
  receiptMetadata := .absent
  progressIndex := 0
  targets := [{ path := "a", role := .generic, action := some .write, beforeHash := "",
                afterHash := "ca978112ca1bbdca", applied := false, content := none, extra := [] }]
  extra := []

/-- The journal directory of the record, with more files behind. -/
def restDisk (files : Entries Content) : Disk :=
  [(".saipen", .dir [("recovery", .dir [("ops", .dir [("op-1", .dir
    (("0_ca978112ca1bbdca.staged", .file (.text "a")) ::
      ("operation.json", .file (.json restRecord.toJson)) :: files))])])])]

/-- The journal of the record. -/
def restJournal : Journal := ⟨"op-1", opsPath ++ ["op-1"]⟩

/-- The write of `b` is appended. -/
def lateTarget : AppendTarget where
  path := "b"
  content := some (.text "b")

/-- The intent of that append. -/
noncomputable def lateIntent : Content :=
  restJournal.intentContent sampleEnvironment 1 [(lateTarget, ["b"])]

theorem rest_prepared : restJournal.Prepared sampleEnvironment (restDisk []) restRecord where
  decode := rfl
  status := rfl
  manifest := by
    intro raw base hraw hbase
    obtain rfl : Content.json restRecord.toJson = raw := Node.file.inj (Option.some.inj hraw)
    have hr : decodeManifest sampleEnvironment "op-1" (restJournal.files (restDisk []))
        (.json restRecord.toJson) = .ok restRecord := rfl
    obtain rfl := Except.ok.inj (hr.symm.trans hbase)
    rfl
  idle := rfl

/-- The payload of `b` is created behind the intent. -/
theorem late_staged : (restJournal.appendTargets sampleEnvironment [lateTarget]).Next (restDisk [])
    (restDisk [("append.intent.json", .file lateIntent)])
    (restDisk [("append.intent.json", .file lateIntent),
      ("1_3e23e8160039594a.staged", .file (.text "b"))]) := by
  have hadopt : restJournal.adoptStaged sampleEnvironment (lateTarget.entry sampleEnvironment 1 ["b"])
      "1_3e23e8160039594a.staged" (restDisk [("append.intent.json", .file lateIntent)]) =
        ⟨.ok (), restDisk [("append.intent.json", .file lateIntent),
          ("1_3e23e8160039594a.staged", .file (.text "b"))],
          [restDisk [("append.intent.json", .file lateIntent)]]⟩ :=
    Journal.adoptStaged_free (p := (lateTarget, ["b"])) rfl rfl
  have hwrite : atomicWrite restJournal.appendIntentPath lateIntent (restDisk []) =
      ⟨.ok (), restDisk [("append.intent.json", .file lateIntent)], [restDisk []]⟩ := rfl
  have hrun : restJournal.appendTargets sampleEnvironment [lateTarget] (restDisk []) =
      (do
        atomicWrite restJournal.appendIntentPath lateIntent
        restJournal.finishAppendIntent sampleEnvironment restRecord
          (restJournal.intent sampleEnvironment 1 [(lateTarget, ["b"])]) : Engine Unit) (restDisk []) := rfl
  have hentry : restJournal.finishEntries sampleEnvironment 1 (restRecord.targets.map TargetRecord.toDict)
      [.obj (lateTarget.entry sampleEnvironment 1 ["b"])] =
      (restJournal.adoptStaged sampleEnvironment (lateTarget.entry sampleEnvironment 1 ["b"])
          "1_3e23e8160039594a.staged" >>= fun _ =>
        pure (restRecord.targets.map TargetRecord.toDict ++
          [lateTarget.object sampleEnvironment ["b"]])) >>= pure := rfl
  have hentries : restJournal.finishEntries sampleEnvironment 1
      (restRecord.targets.map TargetRecord.toDict)
      [.obj (lateTarget.entry sampleEnvironment 1 ["b"])] (restDisk [("append.intent.json", .file lateIntent)]) =
      ⟨.ok (restRecord.targets.map TargetRecord.toDict ++ [lateTarget.object sampleEnvironment ["b"]]),
        restDisk [("append.intent.json", .file lateIntent), ("1_3e23e8160039594a.staged", .file (.text "b"))],
        [restDisk [("append.intent.json", .file lateIntent)]]⟩ := by
    rw [hentry, Prog.bind_run (Prog.bind_run hadopt _)]
    rfl
  have hfinish : restJournal.finishAppendIntent sampleEnvironment restRecord
      (restJournal.intent sampleEnvironment 1 [(lateTarget, ["b"])]) =
      restJournal.finishEntries sampleEnvironment 1 (restRecord.targets.map TargetRecord.toDict)
        [.obj (lateTarget.entry sampleEnvironment 1 ["b"])] >>= fun targets => (do
          atomicJson restJournal.manifest (.obj (restRecord.toDictWith targets))
          suppressOs (unlinkPath restJournal.appendIntentPath) : Engine Unit) := rfl
  rw [Prog.bind_run hwrite, hfinish, Prog.bind_run hentries] at hrun
  refine ⟨[restDisk []], ?_⟩
  rw [hrun]
  exact ⟨_, rfl⟩

/-- What is left when the creation of `b`'s payload dies before its first byte. -/
noncomputable def tornDisk : Disk :=
  restDisk [("append.intent.json", .file lateIntent), ("1_3e23e8160039594a.staged", .file (.text ""))]

/-- The torn payload is neither completed nor replaced: recovery's resumption raises. -/
theorem torn_payload_refused : restJournal.Prepared sampleEnvironment (restDisk []) restRecord ∧
    ∃ d, restJournal.Interrupted sampleEnvironment [lateTarget] (restDisk []) d ∧
      ¬ restJournal.Resumes sampleEnvironment restRecord [lateTarget] d := by
  refine ⟨rest_prepared, tornDisk, ?_, fun h => ?_⟩
  · exact .single (.tornRequest late_staged ⟨1, "b", .text "b", .text "", rfl, rfl⟩)
  · obtain ⟨-, u, hu, -⟩ := h.pending (by
      intro habsent
      cases habsent)
    have hrefused : (restJournal.resumeAppendIntent sampleEnvironment tornDisk).result =
        .error (.value "journal staged evidence disagrees with append intent") := rfl
    cases hrefused.symm.trans hu.1

/-- With nothing torn the append of `b` goes through. -/
theorem late_append_resumes : restJournal.Resumes sampleEnvironment restRecord [lateTarget] (restDisk []) := by
  have hpaths : ∀ rel, ownedTargetPath sampleEnvironment lateTarget.path = some rel → rel = ["b"] := by
    intro rel hrel
    exact (Option.some.inj hrel).symm
  have hfirst : ∀ (i : Nat) (t : AppendTarget), [lateTarget][i]? = some t → i = 0 ∧ t = lateTarget := by
    intro i t ht
    cases i with
    | zero => exact ⟨rfl, (Option.some.inj ht).symm⟩
    | succ i => simp at ht
  refine ((append_crash_idempotent rest_prepared).1 _ .refl).mpr
    ⟨⟨_, rfl⟩, ?_, ?_, ?_, ?_, ?_, ?_⟩
  · intro t ht
    obtain rfl := List.mem_singleton.mp ht
    rfl
  · intro t ht rel hrel
    obtain rfl := List.mem_singleton.mp ht
    obtain rfl := hpaths rel hrel
    rfl
  · intro t ht _ hhash
    obtain rfl := List.mem_singleton.mp ht
    cases hhash
  · intro i t rel c ht hrel _
    obtain ⟨rfl, rfl⟩ := hfirst i t ht
    obtain rfl := hpaths rel hrel
    exact .inl rfl
  · intro i t rel c ht hrel _ hpresent
    obtain ⟨rfl, rfl⟩ := hfirst i t ht
    obtain rfl := hpaths rel hrel
    exact absurd rfl hpresent
  · intro c hc
    cases hc

end Saipen
