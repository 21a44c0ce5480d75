import Saipen.XPatch.Steps

/-! # What an accepted plan proves

A receipt that loads declares canonical paths, each once. A plan that is not drift has found every
declared path in its declared state, and stages for each of them the bytes of its other state. -/

namespace Saipen.XPatch

open Checks DurableState LinkTree Prog

variable {site : Site} {t u x : Disk} {patchId rel : String}

/-! ### Checks -/

theorem require_eq_ok {condition : Bool} {message : String} {v : Unit} :
    require condition message = .ok v ↔ condition = true := by
  rw [require, refuseIf_eq_ok, Bool.not_eq_false']

theorem requireSome_eq_ok {α : Type} {value : Option α} {message : String} {a : α} :
    requireSome value message = .ok a ↔ value = some a := orRefuse_eq_ok

theorem requireObject_eq_ok {value : Json} {message : String} {fields : Dict} :
    requireObject value message = .ok fields ↔ value = .obj fields := by
  cases value <;> simp [requireObject, pure, Except.pure]

/-! ### Declared paths -/

/-- A path that may be declared. -/
structure Canonical (rel : String) : Prop where
  up : ".." ∉ segments rel
  outside : (segments rel).head? ≠ some ".saipen"

theorem canonicalTargetPath_ok {r : String} (h : site.canonicalTargetPath t rel = .ok r) :
    r = rel ∧ Canonical rel := by
  simp only [Site.canonicalTargetPath, bind_eq_ok, require_eq_ok, refuseIf_eq_ok, pure_eq_ok] at h
  obtain ⟨_, -, _, -, _, -, _, hsegments, _, hhead, _, -, rfl⟩ := h
  refine ⟨rfl, fun hup => ?_, fun hsaipen => ?_⟩
  · have hany : (segments rel).any (fun part => part == "" || part == "." || part == "..") = true :=
      List.any_eq_true.mpr ⟨"..", hup, by simp⟩
    rw [hsegments] at hany
    cases hany
  · rw [hsaipen] at hhead
    simp at hhead

theorem segments_ne_nil (rel : String) : segments rel ≠ [] := by
  rw [segments, Text.split, ne_eq, List.map_eq_nil_iff]
  exact List.splitOn_ne_nil _ _

theorem segments_injective : Function.Injective segments := by
  intro a b h
  have hjoin := congrArg (String.singleton '/').intercalate h
  rwa [segments, segments, Text.intercalate_split, Text.intercalate_split] at hjoin

/-- A declaration as a record has it. -/
def specJson (spec : PathSpec) : Json :=
  .obj [("before_sha256", digestJson spec.before), ("after_sha256", digestJson spec.after)]

/-- A declaration that reads from its record as it is. -/
def Declares (site : Site) (t : Disk) (declared : String × PathSpec) : Prop :=
  site.decodePath t declared.1 (specJson declared.2) = .ok declared

theorem decodePath_iff {declared : String} {value : Json} {r : String × PathSpec} :
    site.decodePath t declared value = .ok r ↔
      site.canonicalTargetPath t declared = .ok r.1 ∧ ∃ fields : Dict, value = .obj fields ∧
        sha256? (fields.get "before_sha256") = some r.2.before ∧
        sha256? (fields.get "after_sha256") = some r.2.after ∧
        (r.2.before.isSome || r.2.after.isSome) = true ∧ r.2.before ≠ r.2.after := by
  obtain ⟨rel, spec⟩ := r
  simp only [Site.decodePath, bind_eq_ok, requireObject_eq_ok, requireSome_eq_ok, require_eq_ok,
    pure_eq_ok]
  constructor
  · rintro ⟨rel', hrel, fields, rfl, before, hbefore, after, hafter, _, hsome, _, hne, heq⟩
    obtain ⟨rfl, rfl⟩ := Prod.mk.inj heq
    exact ⟨hrel, fields, rfl, hbefore, hafter, hsome, by simpa using hne⟩
  · rintro ⟨hrel, fields, rfl, hbefore, hafter, hsome, hne⟩
    exact ⟨rel, hrel, fields, rfl, spec.before, hbefore, spec.after, hafter, (), hsome, (),
      by simpa using hne, rfl⟩

/-- A digest that was read is read from its record. -/
theorem sha256?_digestJson {raw : Option Json} {digest : Option String} (h : sha256? raw = some digest) :
    sha256? (some (digestJson digest)) = some digest := by
  cases digest with
  | none => rfl
  | some s =>
    have hs : isSha256 s = true := by
      unfold sha256? at h
      split at h
      · cases h
      · cases h
      · split at h
        · next hs =>
          obtain rfl := Option.some.inj (Option.some.inj h)
          exact hs
        · cases h
      · cases h
    simp [digestJson, sha256?, hs]

/-- What was decoded declares itself. -/
theorem declares_of_decodePath {declared : String} {value : Json} {r : String × PathSpec}
    (h : site.decodePath t declared value = .ok r) : Declares site t r := by
  obtain ⟨hrel, fields, rfl, hbefore, hafter, hsome, hne⟩ := decodePath_iff.mp h
  obtain ⟨hsame, -⟩ := canonicalTargetPath_ok hrel
  refine decodePath_iff.mpr ⟨by rw [hsame]; rw [hsame] at hrel; exact hrel, _, rfl, ?_, ?_, hsome, hne⟩
  · exact sha256?_digestJson hbefore
  · exact sha256?_digestJson hafter

theorem Declares.canonical {declared : String × PathSpec} (h : Declares site t declared) :
    Canonical declared.1 := (canonicalTargetPath_ok (decodePath_iff.mp h).1).2

theorem Declares.differ {declared : String × PathSpec} (h : Declares site t declared) :
    declared.2.before ≠ declared.2.after := by
  obtain ⟨-, _, -, -, -, -, hne⟩ := decodePath_iff.mp h
  exact hne

theorem Declares.exists {declared : String × PathSpec} (h : Declares site t declared) :
    declared.2.before ≠ none ∨ declared.2.after ≠ none := by
  obtain ⟨-, _, -, -, -, hsome, -⟩ := decodePath_iff.mp h
  simpa [Option.isSome_iff_ne_none] using hsome

/-- Declarations a receipt may have: each once, and each as it is recorded. -/
structure Declared (site : Site) (t : Disk) (paths : List (String × PathSpec)) : Prop where
  nodup : (paths.map Prod.fst).Nodup
  ne : paths ≠ []
  declares : ∀ declared ∈ paths, Declares site t declared

theorem mem_set {α : Type} {k : String} {v : α} {d : List (String × α)} {e : String × α}
    (h : e ∈ Assoc.set k v d) : e = (k, v) ∨ e ∈ d := by
  induction d with
  | nil => exact .inl (List.mem_singleton.mp h)
  | cons head d ih =>
    obtain ⟨l, w⟩ := head
    rw [Assoc.set] at h
    split at h
    · rcases List.mem_cons.mp h with h | h
      · exact .inl h
      · exact .inr (List.mem_cons_of_mem _ h)
    · rcases List.mem_cons.mp h with rfl | h
      · exact .inr List.mem_cons_self
      · exact (ih h).imp id (List.mem_cons_of_mem _)

theorem decodeEntries_declared {raw : Dict} {out paths : List (String × PathSpec)}
    (h : site.decodeEntries t raw out = .ok paths) (hnodup : (out.map Prod.fst).Nodup)
    (hne : raw ≠ [] ∨ out ≠ []) (hout : ∀ declared ∈ out, Declares site t declared) :
    Declared site t paths := by
  induction raw generalizing out with
  | nil =>
    obtain rfl := pure_eq_ok.mp h
    exact ⟨hnodup, hne.resolve_left (by simp), hout⟩
  | cons entry raw ih =>
    simp only [Site.decodeEntries, bind_eq_ok] at h
    obtain ⟨⟨rel, spec⟩, hpath, h⟩ := h
    refine ih h (Assoc.nodup_set spec hnodup) (.inr fun hnil => ?_) fun declared hmem => ?_
    · have hkeys := Assoc.lookup_set rel rel spec out
      rw [hnil] at hkeys
      simp at hkeys
    · rcases mem_set hmem with rfl | hmem
      · exact declares_of_decodePath hpath
      · exact hout declared hmem

theorem decodePaths_declared {raw : Option Json} {paths : List (String × PathSpec)}
    (h : site.decodePaths t raw = .ok paths) : Declared site t paths := by
  unfold Site.decodePaths at h
  split at h
  · exact decodeEntries_declared h (by simp) (.inl (by simp)) (by simp)
  · cases h

/-! ### Receipts that load -/

/-- What a receipt that loads is. -/
structure Loaded (site : Site) (t : Disk) (patchId : String) (receipt : Receipt) : Prop where
  grammar : isPatchId patchId = true
  patchId_eq : receipt.patchId = patchId
  declared : Declared site t receipt.paths
  runtime : t.node (site.root ++ [".saipen"]) = some .dir

theorem lineage_runtime {live : String} (h : site.lineage t = some live) :
    t.node (site.root ++ [".saipen"]) = some .dir := by
  unfold Site.lineage at h
  split at h
  · assumption
  · cases h

theorem loadIntent_loaded {receipt : Receipt} (h : site.loadIntent t patchId = .ok receipt) :
    Loaded site t patchId receipt ∧ receipt.state = .pending := by
  simp only [Site.loadIntent, bind_eq_ok, require_eq_ok, requireObject_eq_ok, requireSome_eq_ok,
    pure_eq_ok] at h
  obtain ⟨_, hid, _, -, _, -, _, -, _, -, _, -, _, -, _, -, _, -, _, -, _, -, _, -, _, -, live, hlive, _, -, _, -,
    paths, hpaths, _, -, _, -, rfl⟩ := h
  rw [refuseIf_eq_ok, Bool.not_eq_false'] at hid
  exact ⟨⟨hid, rfl, decodePaths_declared hpaths, lineage_runtime hlive⟩, rfl⟩

/-- Reading the applied record changes neither the identity nor the declarations. -/
theorem loadApplied_same {receipt receipt' : Receipt} (h : site.loadApplied t receipt = .ok receipt') :
    receipt'.patchId = receipt.patchId ∧ receipt'.paths = receipt.paths := by
  simp only [Site.loadApplied, bind_eq_ok] at h
  obtain ⟨record, -, h⟩ := h
  cases record with
  | none =>
    obtain rfl := pure_eq_ok.mp h
    exact ⟨rfl, rfl⟩
  | some value =>
    simp only [bind_eq_ok, pure_eq_ok] at h
    obtain ⟨_, -, _, -, _, -, _, -, _, -, _, -, _, -, rfl⟩ := h
    exact ⟨rfl, rfl⟩

/-- Nor does reading the record of a disposition. -/
theorem loadDisposition_same {receipt receipt' : Receipt}
    (h : site.loadDisposition t receipt = .ok receipt') :
    receipt'.patchId = receipt.patchId ∧ receipt'.paths = receipt.paths := by
  simp only [Site.loadDisposition, bind_eq_ok] at h
  obtain ⟨record, -, h⟩ := h
  cases record with
  | none =>
    obtain rfl := pure_eq_ok.mp h
    exact ⟨rfl, rfl⟩
  | some value =>
    simp only [bind_eq_ok, pure_eq_ok] at h
    obtain ⟨_, -, _, -, _, -, _, -, _, -, _, -, _, -, _, -, rfl⟩ := h
    exact ⟨rfl, rfl⟩

theorem loadReceipt_loaded {receipt : Receipt} (h : site.loadReceipt t patchId = .ok receipt) :
    Loaded site t patchId receipt := by
  simp only [Site.loadReceipt, bind_eq_ok] at h
  obtain ⟨intent, hintent, applied, happlied, hdisposition⟩ := h
  obtain ⟨hid, hpaths⟩ := loadApplied_same happlied
  obtain ⟨hid', hpaths'⟩ := loadDisposition_same hdisposition
  have hloaded := (loadIntent_loaded hintent).1
  refine ⟨hloaded.grammar, (hid'.trans hid).trans hloaded.patchId_eq, ?_, hloaded.runtime⟩
  rw [hpaths', hpaths]
  exact hloaded.declared

theorem Loaded.isDir {receipt : Receipt} (h : Loaded site t patchId receipt) : t.IsDir site.root :=
  Tree.isDir_of_child (by rw [h.runtime]; simp)

/-! ### Staged bytes -/

theorem decodeBody_ok {noun contradiction state : String} {expected : Option String} {blob : Json}
    {body : Option Content}
    (h : site.decodeBody patchId noun contradiction state rel expected blob = .ok body) :
    body.map site.sha256 = expected := by
  cases expected with
  | none =>
    simp only [Site.decodeBody, bind_eq_ok, pure_eq_ok] at h
    obtain ⟨_, -, rfl⟩ := h
    rfl
  | some digest =>
    simp only [Site.decodeBody, bind_eq_ok, require_eq_ok, pure_eq_ok, beq_iff_eq] at h
    obtain ⟨_, -, content, -, _, hdigest, rfl⟩ := h
    exact congrArg some hdigest

/-- The declared paths stand in one of their states, and the steps have the bytes of the other. -/
structure Moves (site : Site) (t : Disk) (old new : PathSpec → Option String)
    (paths : List (String × PathSpec)) (steps : List Step) : Prop where
  stands : ∀ declared ∈ paths, site.fileSha256 t declared.1 = old declared.2
  stages : List.Forall₂ (fun declared step =>
    step.1 = declared.1 ∧ step.2.map site.sha256 = new declared.2) paths steps

theorem stage_staged {contents : Dict} {paths : List (String × PathSpec)} {steps : List Step}
    (h : site.stage t patchId contents paths = .ok (.staged steps)) :
    Moves site t PathSpec.before PathSpec.after paths steps := by
  induction paths generalizing steps with
  | nil =>
    obtain rfl := Staging.staged.inj (pure_eq_ok.mp h)
    exact ⟨by simp, .nil⟩
  | cons declared paths ih =>
    obtain ⟨rel, spec⟩ := declared
    rw [Site.stage] at h
    split_ifs at h with hlive
    · cases pure_eq_ok.mp h
    · rw [not_not] at hlive
      simp only [bind_eq_ok] at h
      obtain ⟨body, hbody, staging, hrest, h⟩ := h
      cases staging with
      | drift moved => cases pure_eq_ok.mp h
      | staged rest =>
        obtain rfl := Staging.staged.inj (pure_eq_ok.mp h)
        obtain ⟨hstands, hstages⟩ := ih hrest
        exact ⟨List.forall_mem_cons.mpr ⟨hlive, hstands⟩, .cons ⟨rfl, decodeBody_ok hbody⟩ hstages⟩

theorem restore_stages {originals : Dict} {paths : List (String × PathSpec)} {steps : List Step}
    (h : site.restore patchId originals paths = .ok steps) :
    List.Forall₂ (fun declared step =>
      step.1 = declared.1 ∧ step.2.map site.sha256 = declared.2.before) paths steps := by
  induction paths generalizing steps with
  | nil =>
    obtain rfl := pure_eq_ok.mp h
    exact .nil
  | cons declared paths ih =>
    obtain ⟨rel, spec⟩ := declared
    simp only [Site.restore, bind_eq_ok, pure_eq_ok] at h
    obtain ⟨body, hbody, rest, hrest, rfl⟩ := h
    exact .cons ⟨rfl, decodeBody_ok hbody⟩ (ih hrest)

/-- What `apply_proposal` has proven when it begins to write. -/
structure ApplyPlan (site : Site) (t : Disk) (patchId now : String) (receipt : Receipt)
    (appliedAt : String) (steps : List Step) : Prop where
  plan : site.planApply t patchId now = .ok (receipt, appliedAt, .staged steps)
  loads : site.loadReceipt t patchId = .ok receipt
  pending : receipt.state = .pending
  stamp : site.strictUtc (some (.str now)) "applied_at" = .ok appliedAt
  moves : Moves site t PathSpec.before PathSpec.after receipt.paths steps

theorem planApply_staged {now appliedAt : String} {receipt : Receipt} {steps : List Step}
    (h : site.planApply t patchId now = .ok (receipt, appliedAt, .staged steps)) :
    ApplyPlan site t patchId now receipt appliedAt steps := by
  have hplan := h
  simp only [Site.planApply, bind_eq_ok, require_eq_ok, beq_iff_eq, pure_eq_ok] at h
  obtain ⟨receipt', hload, _, hstate, appliedAt', hstamp, payload, -, contents, -, _, -, staging, hstage, heq⟩ := h
  obtain ⟨rfl, rfl, rfl⟩ := by simpa using heq
  exact ⟨hplan, hload, hstate, hstamp, stage_staged hstage⟩

/-- What `revert` has proven when it begins to write. -/
structure RevertPlan (site : Site) (t : Disk) (patchId : String) (receipt : Receipt)
    (steps : List Step) : Prop where
  loads : site.loadReceipt t patchId = .ok receipt
  applied : receipt.state = .applied
  moves : Moves site t PathSpec.after PathSpec.before receipt.paths steps

theorem planRevert_staged {receipt : Receipt} {steps : List Step}
    (h : site.planRevert t patchId = .ok (receipt, .staged steps)) :
    RevertPlan site t patchId receipt steps := by
  simp only [Site.planRevert, bind_eq_ok, require_eq_ok, beq_iff_eq] at h
  obtain ⟨receipt', hload, _, hstate, h⟩ := h
  split at h
  · cases pure_eq_ok.mp h
  · next hfind =>
    simp only [bind_eq_ok, pure_eq_ok] at h
    obtain ⟨payload, -, originals, -, _, -, steps', hrestore, heq⟩ := h
    obtain ⟨rfl, rfl⟩ := by simpa using heq
    refine ⟨hload, hstate, fun declared hmem => ?_, restore_stages hrestore⟩
    have hlive := List.find?_eq_none.mp hfind declared hmem
    simpa using hlive

/-! ### The edits of a plan -/

section Moves

variable {old new : PathSpec → Option String} {paths : List (String × PathSpec)} {steps : List Step}

theorem Moves.keys (h : Moves site t old new paths steps) :
    steps.map Prod.fst = paths.map Prod.fst := by
  have hstages := h.stages
  clear h
  induction hstages with
  | nil => rfl
  | cons hstep _ ih => rw [List.map_cons, List.map_cons, hstep.1, ih]

theorem Moves.declared_of_mem (h : Moves site t old new paths steps) {step : Step} (hmem : step ∈ steps) :
    ∃ declared ∈ paths, step.1 = declared.1 ∧ step.2.map site.sha256 = new declared.2 := by
  have hstages := h.stages
  clear h
  induction hstages with
  | nil => cases hmem
  | cons hstep _ ih =>
    rcases List.mem_cons.mp hmem with rfl | hmem
    · exact ⟨_, List.mem_cons_self, hstep⟩
    · obtain ⟨declared, hdeclared, heq⟩ := ih hmem
      exact ⟨declared, List.mem_cons_of_mem _ hdeclared, heq⟩

theorem Moves.step_of_mem (h : Moves site t old new paths steps) {declared : String × PathSpec}
    (hmem : declared ∈ paths) :
    ∃ step ∈ steps, step.1 = declared.1 ∧ step.2.map site.sha256 = new declared.2 := by
  have hstages := h.stages
  clear h
  induction hstages with
  | nil => cases hmem
  | cons hstep _ ih =>
    rcases List.mem_cons.mp hmem with rfl | hmem
    · exact ⟨_, List.mem_cons_self, hstep⟩
    · obtain ⟨step, hin, heq⟩ := ih hmem
      exact ⟨step, List.mem_cons_of_mem _ hin, heq⟩

theorem Moves.ne (h : Moves site t old new paths steps) (hpaths : paths ≠ []) : steps ≠ [] := by
  rintro rfl
  exact hpaths (List.map_eq_nil_iff.mp h.keys.symm)

theorem Moves.canonical (h : Moves site t old new paths steps) (hdeclared : Declared site t paths)
    {step : Step} (hmem : step ∈ steps) : Canonical step.1 := by
  obtain ⟨declared, hpath, heq, -⟩ := h.declared_of_mem hmem
  rw [heq]
  exact (hdeclared.declares declared hpath).canonical

theorem mem_map_edit {steps : List Step} {path : LinkTree.Path} {body : Option Content} :
    (path, body) ∈ steps.map edit ↔ ∃ rel, (rel, body) ∈ steps ∧ segments rel = path := by
  simp [edit]

theorem Moves.proper (h : Moves site t old new paths steps) (hdeclared : Declared site t paths) :
    Tree.Proper (steps.map edit) := by
  refine ⟨?_, fun e he => ?_, fun e he => ?_⟩
  · have hmap : (steps.map edit).map Prod.fst = (paths.map Prod.fst).map segments := by
      rw [← h.keys, List.map_map, List.map_map]
      rfl
    rw [hmap]
    exact hdeclared.nodup.map segments_injective
  · obtain ⟨step, hmem, rfl⟩ := List.mem_map.mp he
    exact (h.canonical hdeclared hmem).up
  · obtain ⟨step, -, rfl⟩ := List.mem_map.mp he
    exact segments_ne_nil step.1

/-- A path that is to be deleted holds a file. -/
theorem Moves.held (h : Moves site t old new paths steps)
    (hdiffer : ∀ declared ∈ paths, old declared.2 ≠ new declared.2) :
    t.Held site.links site.root (steps.map edit) := by
  intro path hmem hnone
  obtain ⟨rel, hstep, rfl⟩ := mem_map_edit.mp hmem
  obtain ⟨declared, hpath, heq, hnew⟩ := h.declared_of_mem hstep
  refine hdiffer declared hpath ?_
  rw [← hnew, ← h.stands declared hpath, ← heq, Site.fileSha256, hnone]

/-- A path that is to be written does not hold those bytes. -/
theorem Moves.fresh (h : Moves site t old new paths steps) (hdeclared : Declared site t paths)
    (hdiffer : ∀ declared ∈ paths, old declared.2 ≠ new declared.2) :
    t.Fresh site.root (steps.map edit) := by
  intro path content hmem hfile
  obtain ⟨rel, hstep, rfl⟩ := mem_map_edit.mp hmem
  obtain ⟨declared, hpath, heq, hnew⟩ := h.declared_of_mem hstep
  refine hdiffer declared hpath ?_
  have hplace : t.place site.links site.root (segments rel) = some (site.root ++ segments rel) :=
    Tree.place_of_node (by rw [hfile]; simp) (h.canonical hdeclared hstep).up
  rw [← hnew, ← h.stands declared hpath, ← heq, Site.fileSha256, (Tree.file?_of_place hplace).mpr hfile]

end Moves

theorem ApplyPlan.differ {now appliedAt : String} {receipt : Receipt} {steps : List Step}
    (h : ApplyPlan site t patchId now receipt appliedAt steps) :
    ∀ declared ∈ receipt.paths, declared.2.before ≠ declared.2.after :=
  fun declared hmem => ((loadReceipt_loaded h.loads).declared.declares declared hmem).differ

theorem RevertPlan.differ {receipt : Receipt} {steps : List Step}
    (h : RevertPlan site t patchId receipt steps) :
    ∀ declared ∈ receipt.paths, declared.2.after ≠ declared.2.before :=
  fun declared hmem => ((loadReceipt_loaded h.loads).declared.declares declared hmem).differ.symm

/-! ### What an operation runs -/

/-- `apply_proposal` once the bytes are staged. -/
def Site.writePatch (site : Site) (patchId : String) (receipt : Receipt) (appliedAt : String)
    (steps : List Step) : Op Reply := do
  site.perform steps
  site.writeBytes (receiptDir patchId ++ ["applied.json"]) (appliedRecord receipt appliedAt)
  return .applied steps.length

/-- `revert` once the bytes are staged. -/
def Site.writeBack (site : Site) (patchId now : String) (steps : List Step) : Op Reply := do
  site.perform steps
  let _ ← site.recordDisposition patchId .reverted now "reverted to recorded before-state"
  return .reverted steps.length

theorem applyProposal_run (site : Site) (patchId now : String) (t : Disk) :
    site.applyProposal patchId now t =
      (match site.planApply t patchId now with
      | .error raised => Prog.raise raised
      | .ok (_, _, .drift rel) => pure (.targetDrift (rel ++ " moved since the receipt was recorded"))
      | .ok (receipt, appliedAt, .staged steps) => site.writePatch patchId receipt appliedAt steps
        : Op Reply) t := by
  rw [Site.applyProposal, read_bind_run]
  rcases site.planApply t patchId now with raised | ⟨receipt, appliedAt, rel | steps⟩
  · rfl
  · rfl
  · rfl

theorem revert_run (site : Site) (patchId now : String) (t : Disk) :
    site.revert patchId now t =
      (match site.planRevert t patchId with
      | .error raised => Prog.raise raised
      | .ok (_, .drift rel) =>
          pure (.targetDrift (rel ++ " no longer holds the patched bytes -- repair, never clobber"))
      | .ok (_, .staged steps) => site.writeBack patchId now steps
        : Op Reply) t := by
  rw [Site.revert, read_bind_run]
  rcases site.planRevert t patchId with raised | ⟨receipt, rel | steps⟩
  · rfl
  · rfl
  · rfl

theorem recordDisposition_run (site : Site) (patchId : String) (verdict : Verdict) (now note : String)
    (t : Disk) :
    site.recordDisposition patchId verdict now note t =
      (match site.planDisposition t patchId now with
      | .error raised => Prog.raise raised
      | .ok (recordedAt, live) => do
          site.writeBytes (receiptDir patchId ++ ["disposition.json"])
            (dispositionRecord patchId verdict recordedAt live note)
          return .disposed verdict live
        : Op Reply) t := by
  rw [Site.recordDisposition, read_bind_run]
  rcases site.planDisposition t patchId now with raised | ⟨recordedAt, live⟩
  · rfl
  · rfl

theorem writeBytes_return_leaves {α : Type} {path : LinkTree.Path} {content : Content} {a : α}
    (h : (do site.writeBytes path content; return a : Op α).Leaves t x) :
    (site.writeBytes path content).Leaves t x := by
  rcases leaves_bind h with h | ⟨_, u, hwrite, h⟩
  · exact h
  · obtain rfl := leaves_pure.mp h
    exact leaves_of_yields hwrite

/-- `record_disposition` is left as it began, or on its one write. -/
theorem recordDisposition_leaves {verdict : Verdict} {now note : String}
    (h : (site.recordDisposition patchId verdict now note).Leaves t x) :
    x = t ∨ ∃ recordedAt live, site.planDisposition t patchId now = .ok (recordedAt, live) ∧
      (site.writeBytes (receiptDir patchId ++ ["disposition.json"])
        (dispositionRecord patchId verdict recordedAt live note)).Leaves t x := by
  rw [leaves_congr (recordDisposition_run site patchId verdict now note t)] at h
  cases hplan : site.planDisposition t patchId now with
  | error raised =>
    rw [hplan] at h
    exact .inl (leaves_raise.mp h)
  | ok plan =>
    rw [hplan] at h
    exact .inr ⟨plan.1, plan.2, rfl, writeBytes_return_leaves h⟩

/-- `apply_proposal` is left as it began, on its steps, or on the record behind them. -/
theorem applyProposal_leaves {now : String} (h : (site.applyProposal patchId now).Leaves t x) :
    x = t ∨ ∃ receipt appliedAt steps, ApplyPlan site t patchId now receipt appliedAt steps ∧
      ((site.perform steps).Leaves t x ∨ ∃ u, (site.perform steps).Yields t () u ∧
        (site.writeBytes (receiptDir patchId ++ ["applied.json"])
          (appliedRecord receipt appliedAt)).Leaves u x) := by
  rw [leaves_congr (applyProposal_run site patchId now t)] at h
  rcases hplan : site.planApply t patchId now with raised | ⟨receipt, appliedAt, rel | steps⟩
  · rw [hplan] at h
    exact .inl (leaves_raise.mp h)
  · rw [hplan] at h
    exact .inl (leaves_pure.mp h)
  · rw [hplan] at h
    refine .inr ⟨receipt, appliedAt, steps, planApply_staged hplan, ?_⟩
    rcases leaves_bind h with h | ⟨_, u, hperform, h⟩
    · exact .inl h
    · exact .inr ⟨u, hperform, writeBytes_return_leaves h⟩

/-- `revert` is left as it began, on its steps, or on the disposition behind them. -/
theorem revert_leaves {now : String} (h : (site.revert patchId now).Leaves t x) :
    x = t ∨ ∃ receipt steps, RevertPlan site t patchId receipt steps ∧
      ((site.perform steps).Leaves t x ∨ ∃ u, (site.perform steps).Yields t () u ∧
        (site.recordDisposition patchId .reverted now "reverted to recorded before-state").Leaves u x) := by
  rw [leaves_congr (revert_run site patchId now t)] at h
  rcases hplan : site.planRevert t patchId with raised | ⟨receipt, rel | steps⟩
  · rw [hplan] at h
    exact .inl (leaves_raise.mp h)
  · rw [hplan] at h
    exact .inl (leaves_pure.mp h)
  · rw [hplan] at h
    refine .inr ⟨receipt, steps, planRevert_staged hplan, ?_⟩
    rcases leaves_bind h with h | ⟨_, u, hperform, h⟩
    · exact .inl h
    · refine .inr ⟨u, hperform, ?_⟩
      rcases leaves_bind h with h | ⟨_, v, hrecord, h⟩
      · exact h
      · obtain rfl := leaves_pure.mp h
        exact leaves_of_yields hrecord

end Saipen.XPatch
