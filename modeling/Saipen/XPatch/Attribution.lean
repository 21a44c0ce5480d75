import Saipen.Run
import Saipen.XPatch.Atomic
import Saipen.XPatch.RoundTrip

/-! # What a receipt explains

A receipt is applied, judged and reverted while the process may die between any two writes. As long as
nobody else writes, every declared path stands in one of its two states, and the receipt claims what
stands there. -/

namespace Saipen.XPatch

open Checks DurableState LinkTree Prog

variable {site : Site} {t u x : Disk} {patchId now : String} {intent receipt : Receipt}
  {steps : List Step} {paths : List (String × PathSpec)} {old new : PathSpec → Option String}

/-! ### Paths without links -/

/-- The declared paths lead through no link. -/
def PlainPaths (site : Site) (t : Disk) (paths : List (String × PathSpec)) : Prop :=
  ∀ declared ∈ paths, Tree.Plain t site.root (segments declared.1)

theorem PlainPaths.keeps (h : PlainPaths site t paths) (hk : Tree.Keeps t u) : PlainPaths site u paths :=
  fun declared hmem => (h declared hmem).keeps hk

/-- The digest of a path without links is the one of the file at its place. -/
theorem fileSha256_congr {rel : String} (ht : Tree.Plain t site.root (segments rel))
    (hu : Tree.Plain u site.root (segments rel)) (hup : ".." ∉ segments rel)
    (hnode : ∀ content, u.node (site.root ++ segments rel) = some (.file content) ↔
      t.node (site.root ++ segments rel) = some (.file content)) :
    site.fileSha256 u rel = site.fileSha256 t rel := by
  have hfile : u.file? site.links site.root (segments rel) = t.file? site.links site.root (segments rel) := by
    refine Option.ext fun content => ?_
    rw [Tree.file?_plain ht hup, Tree.file?_plain hu hup]
    exact hnode content
  rw [Site.fileSha256, hfile, Site.fileSha256]

/-- Paths without links are deleted where they are spelled. -/
theorem Moves.spelled (h : Moves site t old new paths steps) (hdeclared : Declared site t paths)
    (hdiffer : ∀ declared ∈ paths, old declared.2 ≠ new declared.2) (hplain : PlainPaths site t paths) :
    ∀ path, (path, none) ∈ steps.map edit →
      t.place site.links site.root path = some (site.root ++ path) := by
  intro path hmem
  have hheld := h.held hdiffer path hmem
  obtain ⟨rel, hstep, rfl⟩ := mem_map_edit.mp hmem
  obtain ⟨declared, hpath, heq, -⟩ := h.declared_of_mem hstep
  have hup := (h.canonical hdeclared hstep).up
  refine Tree.place_of_node (fun hnone => hheld ?_) hup
  have hlstat : t.lstat site.links site.root (segments rel) = none := by
    rw [Tree.lstat_plain (by rw [heq]; exact hplain declared hpath) hup, hnone]
  rw [Tree.file?, hlstat]

/-! ### What the steps leave -/

/-- A tree whose runtime directory is as in another, and which keeps its directories and links. -/
structure SameRuntime (site : Site) (t u : Disk) : Prop where
  keeps : Tree.Keeps t u
  node : ∀ q, InRuntime site q → u.node q = t.node q

/-- Nothing is made in the runtime directory for a canonical path. -/
theorem node_atEdit {rest : List Step} {q : LinkTree.Path} (h : Tree.AtEdit u x site.root (rest.map edit))
    (hcanonical : ∀ step ∈ rest, Canonical step.1) (hq : InRuntime site q) : x.node q = u.node q := by
  rcases h with rfl | ⟨e, he, hensured⟩
  · rfl
  · by_cases hnone : u.node q = none
    · by_contra hmade
      obtain ⟨step, hstep, rfl⟩ := List.mem_map.mp he
      obtain ⟨-, pre, hpre, -, hplace⟩ := hensured.made q hnone fun hx => hmade (hx.trans hnone.symm)
      obtain ⟨below, rfl⟩ := hq
      obtain ⟨rest', hrest⟩ := hpre.trans (List.dropLast_prefix _)
      refine (hcanonical step hstep).outside ?_
      show (edit step).1.head? = some ".saipen"
      rw [← hrest, ← List.append_cancel_left hplace]
      rfl
    · exact hensured.same q hnone

/-- On the way of the steps the runtime directory is as it was, and every declared path is in one of its
two states. -/
theorem Moves.on_the_way (h : Moves site t old new paths steps) (hdeclared : Declared site t paths)
    (hdiffer : ∀ declared ∈ paths, old declared.2 ≠ new declared.2) (hplain : PlainPaths site t paths)
    (hx : (site.perform steps).Leaves t x) :
    SameRuntime site t x ∧ ∀ declared ∈ paths,
      site.fileSha256 x declared.1 = old declared.2 ∨ site.fileSha256 x declared.1 = new declared.2 := by
  have hheld := h.held hdiffer
  have hspelled := h.spelled hdeclared hdiffer hplain
  have hcanonical : ∀ step ∈ steps, Canonical step.1 := fun step => h.canonical hdeclared
  have hproper := h.proper hdeclared
  obtain ⟨done, rest, u, hsplit, hdone, hat⟩ := perform_leaves hx
  obtain ⟨before, after, rfl, rfl, rfl⟩ := List.map_eq_append_iff.mp hsplit
  rw [List.map_append] at hheld hspelled hproper
  have hrun := Tree.ran_of_edits (fun path hmem => hheld path (List.mem_append_left _ hmem)) hdone
  have hkeeps : Tree.Keeps t x := hrun.edited.keeps.trans hat.grown.edited.keeps
  have hlasts : u.Lasts site.links site.root (before.map edit) := by
    refine hrun.lasts ?_ fun path hmem => hspelled path (List.mem_append_left _ hmem)
    have hnodup := hproper.nodup
    rw [List.map_append] at hnodup
    exact ⟨(List.nodup_append.mp hnodup).1, fun e he => hproper.up e (List.mem_append_left _ he),
      fun e he => hproper.ne e (List.mem_append_left _ he)⟩
  refine ⟨⟨hkeeps, fun q hq => ?_⟩, fun declared hmem => ?_⟩
  · rw [node_atEdit hat (fun step hstep => hcanonical step (List.mem_append_right _ hstep)) hq]
    refine node_inRuntime hrun (fun step hstep => hcanonical step (List.mem_append_left _ hstep)) hq ?_
    rintro ⟨path, hpath, hplace⟩
    obtain rfl := Option.some.inj ((hspelled path (List.mem_append_left _ hpath)).symm.trans hplace)
    obtain ⟨rel, hstep, rfl⟩ := mem_map_edit.mp hpath
    exact (hcanonical _ (List.mem_append_left _ hstep)).not_inRuntime hq
  · have hup := (hdeclared.declares declared hmem).canonical.up
    have hplain' := hplain declared hmem
    have hsame : site.fileSha256 x declared.1 = site.fileSha256 u declared.1 :=
      fileSha256_congr (hplain'.keeps hrun.edited.keeps) (hplain'.keeps hkeeps) hup
        (hat.grown.sameFiles _)
    rw [hsame]
    by_cases hreached : ∃ step ∈ before, step.1 = declared.1
    · obtain ⟨step, hstep, heq⟩ := hreached
      obtain ⟨declared', hmem', heq', hnew⟩ := h.declared_of_mem (List.mem_append_left after hstep)
      have hlast : u.file? site.links site.root (segments step.1) = step.2 :=
        hlasts (edit step) (List.mem_map_of_mem hstep)
      obtain rfl : declared' = declared :=
        List.inj_on_of_nodup_map hdeclared.nodup hmem' hmem (heq'.symm.trans heq)
      refine .inr ?_
      rw [Site.fileSha256, ← heq, hlast, hnew]
    · refine .inl ((fileSha256_congr hplain' (hplain'.keeps hrun.edited.keeps) hup fun content => ?_).trans
        (h.stands declared hmem))
      have hother : ∀ path body, (path, body) ∈ before.map edit → site.root ++ path ≠ site.root ++ segments declared.1 := by
        intro path body hpath heq
        obtain ⟨rel, hstep, rfl⟩ := mem_map_edit.mp hpath
        exact hreached ⟨(rel, body), hstep, segments_injective (List.append_cancel_left heq)⟩
      have hremoves : ¬ t.Removes site.links site.root (before.map edit) (site.root ++ segments declared.1) := by
        rintro ⟨path, hpath, hplace⟩
        have hspell := (hspelled path (List.mem_append_left _ hpath)).symm.trans hplace
        exact hother path none hpath (Option.some.inj hspell)
      have hputs : ∀ c, ¬ Tree.Puts site.root (before.map edit) (site.root ++ segments declared.1) c := by
        rintro c ⟨path, hpath, heq⟩
        exact hother path (some c) hpath heq
      rcases hrun.kept _ hremoves hputs with hkept | ⟨hnone, hdir, -⟩
      · rw [hkept]
      · rw [hnone, hdir]
        simp

/-! ### How far a patch has come -/

/-- A stamp in canonical form. -/
def Stamp (site : Site) (stamp : String) : Prop := site.strictIsoUtc stamp = some stamp ∧ stamp ≠ ""

theorem strictUtc_ok {text label stamp : String} :
    site.strictUtc (some (.str text)) label = .ok stamp ↔
      site.strictIsoUtc text = some stamp ∧ stamp ≠ "" := by
  rw [Site.strictUtc, requireSome_eq_ok]
  simp [Option.filter_eq_some_iff, Json.str?]

theorem stamp_of_strictUtc {text label stamp : String}
    (h : site.strictUtc (some (.str text)) label = .ok stamp) : Stamp site stamp := by
  obtain ⟨hstrict, hne⟩ := strictUtc_ok.mp h
  exact ⟨site.strictIsoUtc_canonical text stamp hstrict, hne⟩

theorem Stamp.strictUtc {label stamp : String} (h : Stamp site stamp) :
    site.strictUtc (some (.str stamp)) label = .ok stamp := strictUtc_ok.mpr h

/-- The records behind an intent, and the receipt they make of it: none, the applied record, or that and
the record of a disposition with what stands at the declared paths. -/
inductive Stage (site : Site) (t : Disk) (patchId : String) (intent : Receipt) : Receipt → Prop
  | waiting :
      site.readJson t (recordPath patchId "applied.json") = .ok none →
      site.readJson t (recordPath patchId "disposition.json") = .ok none →
      Stage site t patchId intent intent
  | applied {appliedAt : String} :
      t.node (site.root ++ recordPath patchId "applied.json") = some (.file (appliedRecord intent appliedAt)) →
      Stamp site appliedAt → intent.createdAt ≤ appliedAt →
      site.readJson t (recordPath patchId "disposition.json") = .ok none →
      Stage site t patchId intent (intent.withApplied appliedAt)
  | disposed {appliedAt recordedAt note : String} {verdict : Verdict} :
      t.node (site.root ++ recordPath patchId "applied.json") = some (.file (appliedRecord intent appliedAt)) →
      Stamp site appliedAt → intent.createdAt ≤ appliedAt →
      t.node (site.root ++ recordPath patchId "disposition.json") = some (.file
        (dispositionRecord patchId verdict recordedAt
          (intent.paths.map fun declared => (declared.1, site.fileSha256 t declared.1)) note)) →
      Stamp site recordedAt →
      Stage site t patchId intent ((intent.withApplied appliedAt).withDisposition verdict recordedAt
        (intent.paths.map fun declared => (declared.1, site.fileSha256 t declared.1)) note)

/-- A patch nobody else interferes with. -/
structure Explained (site : Site) (patchId : String) (intent : Receipt) (t : Disk) : Prop where
  loads : site.loadIntent t patchId = .ok intent
  owned : OwnedReceipt site t patchId
  plain : PlainPaths site t intent.paths
  live : ∀ declared ∈ intent.paths, site.fileSha256 t declared.1 = declared.2.before ∨
    site.fileSha256 t declared.1 = declared.2.after
  stage : ∃ receipt, Stage site t patchId intent receipt

theorem Stage.paths_eq (h : Stage site t patchId intent receipt) : receipt.paths = intent.paths := by
  cases h <;> rfl

/-- A receipt that is pending is the intent, without further records. -/
theorem Stage.of_pending (h : Stage site t patchId intent receipt) (hstate : receipt.state = .pending) :
    receipt = intent ∧ site.readJson t (recordPath patchId "disposition.json") = .ok none := by
  cases h with
  | waiting _ hdisposition => exact ⟨rfl, hdisposition⟩
  | applied => cases hstate
  | disposed => cases hstate

/-- A receipt that is not pending has its applied record. -/
theorem Stage.of_recorded (h : Stage site t patchId intent receipt) (hintent : intent.state = .pending)
    (hstate : receipt.state ≠ .pending) :
    ∃ appliedAt, t.node (site.root ++ recordPath patchId "applied.json") =
        some (.file (appliedRecord intent appliedAt)) ∧ Stamp site appliedAt ∧ intent.createdAt ≤ appliedAt := by
  cases h with
  | waiting => exact absurd hintent hstate
  | applied hfile hstamp hlate => exact ⟨_, hfile, hstamp, hlate⟩
  | disposed hfile hstamp hlate => exact ⟨_, hfile, hstamp, hlate⟩

/-- A receipt that is applied has no disposition yet. -/
theorem Stage.of_applied (h : Stage site t patchId intent receipt) (hintent : intent.dispositionPaths = [])
    (hstate : receipt.state = .applied) : receipt.dispositionPaths = [] := by
  cases h with
  | waiting => exact hintent
  | applied => exact hintent
  | disposed => cases hstate

section Explained

variable (h : Explained site patchId intent t)

include h

theorem Explained.grammar : isPatchId patchId = true := (loadIntent_loaded h.loads).1.grammar

theorem Explained.declared : Declared site t intent.paths := (loadIntent_loaded h.loads).1.declared

theorem Explained.patchId_eq : intent.patchId = patchId := (loadIntent_loaded h.loads).1.patchId_eq

theorem Explained.lstat {name : String} (hname : name ≠ "..") :
    t.lstat site.links site.root (recordPath patchId name) = t.node (site.root ++ recordPath patchId name) :=
  h.owned.lstat h.grammar hname

/-- What stands at a declared path has a proper digest. -/
theorem Explained.digest {declared : String × PathSpec} (hmem : declared ∈ intent.paths) :
    sha256? (some (digestJson (site.fileSha256 t declared.1))) = some (site.fileSha256 t declared.1) := by
  obtain ⟨-, fields, -, hbefore, hafter, -⟩ := decodePath_iff.mp (h.declared.declares declared hmem)
  rcases h.live declared hmem with hlive | hlive
  · rw [hlive]
    exact sha256?_digestJson hbefore
  · rw [hlive]
    exact sha256?_digestJson hafter

/-- The receipt that loads is the one its records make of the intent. -/
theorem Explained.loadReceipt (hstage : Stage site t patchId intent receipt) :
    site.loadReceipt t patchId = .ok receipt := by
  have hid := h.patchId_eq
  simp only [Site.loadReceipt, bind_eq_ok]
  refine ⟨intent, h.loads, ?_⟩
  cases hstage with
  | waiting happlied hdisposition =>
    refine ⟨intent, ?_, ?_⟩
    · simp only [Site.loadApplied, bind_eq_ok, hid]
      exact ⟨none, happlied, rfl⟩
    · simp only [Site.loadDisposition, bind_eq_ok, hid]
      exact ⟨none, hdisposition, rfl⟩
  | @applied appliedAt hfile hstamp hlate hdisposition =>
    refine ⟨intent.withApplied appliedAt, loadApplied_again (loadIntent_intent h.loads)
      ((h.lstat (by decide)).trans hfile) hstamp.strictUtc hlate, ?_⟩
    simp only [Site.loadDisposition, bind_eq_ok]
    exact ⟨none, hid ▸ hdisposition, rfl⟩
  | @disposed appliedAt recordedAt note verdict hfile hstamp hlate hfile' hstamp' =>
    refine ⟨intent.withApplied appliedAt, loadApplied_again (loadIntent_intent h.loads)
      ((h.lstat (by decide)).trans hfile) hstamp.strictUtc hlate, ?_⟩
    refine loadDisposition_again hid h.declared rfl ?_ ?_ ((h.lstat (by decide)).trans hfile')
      hstamp'.strictUtc
    · rw [List.map_map]
      rfl
    · intro entry hmem
      obtain ⟨declared, hdeclared, rfl⟩ := List.mem_map.mp hmem
      exact h.digest hdeclared

omit h in
/-- Looking up a declared path in what was computed for each of them. -/
theorem lookup_declared {α : Type} (f : String × PathSpec → α) (hnodup : (paths.map Prod.fst).Nodup)
    {declared : String × PathSpec} (hmem : declared ∈ paths) :
    (paths.map fun declared => (declared.1, f declared)).lookup declared.1 = some (f declared) := by
  have hkeys : ((paths.map fun declared => (declared.1, f declared)).map Prod.fst).Nodup := by
    rw [List.map_map]
    exact hnodup
  exact (Assoc.mem_iff_lookup hkeys _ _).mp (List.mem_map_of_mem hmem)

/-- **What moved is claimed as it stands.** -/
theorem Explained.claims (hstage : Stage site t patchId intent receipt) {declared : String × PathSpec}
    (hmem : declared ∈ intent.paths) (hmoved : site.fileSha256 t declared.1 ≠ declared.2.before) :
    (site.claims t receipt).lookup declared.1 = some (claimHash (site.fileSha256 t declared.1)) := by
  have hafter : site.fileSha256 t declared.1 = declared.2.after := (h.live declared hmem).resolve_left hmoved
  have hintent := loadIntent_intent h.loads
  have hnodup := h.declared.nodup
  have hlookup := lookup_declared (fun declared => claimHash declared.2.after) hnodup hmem
  cases hstage with
  | waiting =>
    rw [Site.claims, if_neg (not_not.mpr hintent.fresh), if_neg (not_not.mpr hintent.pending)]
    have hkeys : ((intent.paths.map fun declared => (declared.1, claimHash declared.2.after)).map Prod.fst).Nodup := by
      rw [List.map_map]
      exact hnodup
    refine (Assoc.mem_iff_lookup (hkeys.sublist (List.filter_sublist.map _)) _ _).mp ?_
    refine List.mem_filter.mpr ⟨(Assoc.mem_iff_lookup hkeys _ _).mpr ?_, beq_self_eq_true _⟩
    rw [hafter]
    exact hlookup
  | applied =>
    rw [Site.claims, if_neg (not_not.mpr (show (intent.withApplied _).dispositionPaths = [] from hintent.fresh)),
      if_pos (show (intent.withApplied _).state ≠ .pending from by simp [Receipt.withApplied]), hafter]
    exact hlookup
  | disposed =>
    rw [Site.claims, if_pos]
    · show ((intent.paths.map _).map _).lookup declared.1 = _
      rw [List.map_map]
      exact lookup_declared (fun declared => claimHash (site.fileSha256 t declared.1)) hnodup hmem
    · exact fun hnil => h.declared.ne (List.map_eq_nil_iff.mp hnil)

/-! ### What every operation keeps -/

/-- The same record is read where the same node stands. -/
theorem Explained.readJson_same (hkeeps : Tree.Keeps t x) {name : String} (hname : name ≠ "..")
    (hnode : x.node (site.root ++ recordPath patchId name) = t.node (site.root ++ recordPath patchId name)) :
    site.readJson x (recordPath patchId name) = site.readJson t (recordPath patchId name) := by
  refine readJson_congr ?_
  rw [(h.owned.keeps hkeeps).lstat h.grammar hname, h.lstat hname]
  exact hnode

theorem Explained.loadIntent_same (hkeeps : Tree.Keeps t x)
    (hidentity : ∀ q, q = site.root ++ [".saipen"] ∨ q = site.root ++ identityRecord ∨
      q = site.root ++ recordPath patchId "intent.json" → x.node q = t.node q) :
    site.loadIntent x patchId = .ok intent := by
  rw [loadIntent_congr hkeeps (lineage_congr (hidentity _ (.inl rfl)) (hidentity _ (.inr (.inl rfl))))]
  · exact h.loads
  · rw [(h.owned.keeps hkeeps).lstat h.grammar (by decide), h.lstat (by decide)]
    exact hidentity _ (.inr (.inr rfl))

/-- Where only declared paths moved, between their states, the records explain what they did. -/
theorem Explained.moved (hstage : Stage site t patchId intent receipt)
    (hopen : receipt.dispositionPaths = []) (hruntime : SameRuntime site t x)
    (hlive : ∀ declared ∈ intent.paths, site.fileSha256 x declared.1 = declared.2.before ∨
      site.fileSha256 x declared.1 = declared.2.after) :
    Explained site patchId intent x ∧ Stage site x patchId intent receipt := by
  have hrecord : ∀ name, x.node (site.root ++ recordPath patchId name) =
      t.node (site.root ++ recordPath patchId name) := fun name => hruntime.node _ (inRuntime_record site _ _)
  have hstage' : Stage site x patchId intent receipt := by
    cases hstage with
    | waiting happlied hdisposition =>
      refine .waiting ?_ ?_
      · rw [h.readJson_same hruntime.keeps (by decide) (hrecord _)]
        exact happlied
      · rw [h.readJson_same hruntime.keeps (by decide) (hrecord _)]
        exact hdisposition
    | applied hfile hstamp hlate hdisposition =>
      refine .applied ((hrecord _).trans hfile) hstamp hlate ?_
      rw [h.readJson_same hruntime.keeps (by decide) (hrecord _)]
      exact hdisposition
    | disposed => exact absurd (List.map_eq_nil_iff.mp hopen) h.declared.ne
  refine ⟨⟨h.loadIntent_same hruntime.keeps ?_, h.owned.keeps hruntime.keeps, h.plain.keeps hruntime.keeps,
    hlive, receipt, hstage'⟩, hstage'⟩
  rintro q (rfl | rfl | rfl)
  · exact hruntime.node _ (inRuntime_top site)
  · exact hruntime.node _ (inRuntime_identity site)
  · exact hrecord _

/-- A record of the receipt is written whole or not at all, and nothing else changes. -/
theorem Explained.record_leaves {name : String} {content : Content}
    (hx : (site.writeBytes (receiptDir patchId ++ [name]) content).Leaves t x) :
    x = t ∨ Tree.Keeps t x ∧
      x.node = Function.update t.node (site.root ++ recordPath patchId name) (some (.file content)) := by
  have howned : Tree.Owned t site.root (recordPath patchId name) := ownedReceipt_iff.mp h.owned
  rcases writeBytes_leaves hx with hsame | hensure | hwrite
  · exact .inl hsame
  · have hnone : t.ensure site.root (recordPath patchId name).dropLast = some t := Tree.ensure_of_dirs howned
    exact .inl (Option.some.inj (hensure.symm.trans hnone))
  · exact .inr ⟨(Tree.write_spec hwrite).keeps, Tree.write_owned howned hwrite⟩

theorem Explained.recorded_live {name : String} {content : Content} (hkeeps : Tree.Keeps t x)
    (hnode : x.node = Function.update t.node (site.root ++ recordPath patchId name) (some (.file content)))
    {declared : String × PathSpec} (hmem : declared ∈ intent.paths) :
    site.fileSha256 x declared.1 = site.fileSha256 t declared.1 := by
  have hcanonical := (h.declared.declares declared hmem).canonical
  refine fileSha256_congr (h.plain declared hmem) ((h.plain declared hmem).keeps hkeeps) hcanonical.up
    fun c => ?_
  have hother : site.root ++ segments declared.1 ≠ site.root ++ recordPath patchId name := fun heq =>
    hcanonical.not_inRuntime (heq ▸ inRuntime_record site patchId name)
  rw [hnode, Function.update_of_ne hother]

/-- Behind a record that is not the intent, the intent and the declared paths are as before. -/
theorem Explained.recorded {name : String} {content : Content} (hkeeps : Tree.Keeps t x)
    (hnode : x.node = Function.update t.node (site.root ++ recordPath patchId name) (some (.file content)))
    (hname : name ≠ "intent.json") (hstage : ∃ receipt, Stage site x patchId intent receipt) :
    Explained site patchId intent x := by
  have hother : ∀ q, q ≠ recordPath patchId name → x.node (site.root ++ q) = t.node (site.root ++ q) := by
    intro q hq
    rw [hnode, Function.update_of_ne fun heq => hq (List.append_cancel_left heq)]
  refine ⟨h.loadIntent_same hkeeps ?_, h.owned.keeps hkeeps, h.plain.keeps hkeeps, ?_, hstage⟩
  · rintro q (rfl | rfl | rfl)
    · exact hother [".saipen"] (by simp [recordPath, receiptDir])
    · exact hother identityRecord (by simp [recordPath, receiptDir, identityRecord])
    · exact hother _ (by simp [recordPath, hname.symm])
  · intro declared hmem
    rw [h.recorded_live hkeeps hnode hmem]
    exact h.live declared hmem

/-! ### What the operations keep -/

/-- The record of an apply, written behind an intent that waits. -/
theorem Explained.applied {appliedAt : String} (hstage : Stage site t patchId intent intent)
    (hstamp : Stamp site appliedAt) (hlate : intent.createdAt ≤ appliedAt)
    (hx : (site.writeBytes (receiptDir patchId ++ ["applied.json"]) (appliedRecord intent appliedAt)).Leaves t x) :
    Explained site patchId intent x := by
  rcases h.record_leaves hx with rfl | ⟨hkeeps, hnode⟩
  · exact h
  · have hdisposition := (hstage.of_pending (loadIntent_intent h.loads).pending).2
    refine h.recorded hkeeps hnode (by decide) ⟨_, .applied ?_ hstamp hlate ?_⟩
    · rw [hnode, Function.update_self]
    · rw [h.readJson_same hkeeps (by decide)]
      · exact hdisposition
      · rw [hnode, Function.update_of_ne (by simp [recordPath])]

/-- What a staged `apply_proposal` has found is the intent. -/
theorem Explained.plan {appliedAt : String} (hp : ApplyPlan site t patchId now receipt appliedAt steps) :
    receipt = intent ∧ Stage site t patchId intent intent := by
  obtain ⟨receipt', hstage⟩ := h.stage
  obtain rfl := Except.ok.inj ((h.loadReceipt hstage).symm.trans hp.loads)
  obtain ⟨rfl, -⟩ := hstage.of_pending hp.pending
  exact ⟨rfl, hstage⟩

/-- `apply_proposal` keeps what the receipt explains, wherever it is left. -/
theorem Explained.applyProposal
    (hlate : ∀ appliedAt, site.strictUtc (some (.str now)) "applied_at" = .ok appliedAt →
      intent.createdAt ≤ appliedAt)
    (hx : (site.applyProposal patchId now).Leaves t x) : Explained site patchId intent x := by
  rcases applyProposal_leaves hx with rfl | ⟨receipt, appliedAt, steps, hp, hx⟩
  · exact h
  · obtain ⟨rfl, hstage⟩ := h.plan hp
    have hway : ∀ u, (site.perform steps).Leaves t u →
        Explained site patchId receipt u ∧ Stage site u patchId receipt receipt := by
      intro u hu
      obtain ⟨hruntime, hlive⟩ := hp.moves.on_the_way h.declared hp.differ h.plain hu
      exact h.moved hstage (loadIntent_intent h.loads).fresh hruntime hlive
    rcases hx with hx | ⟨u, hperform, hx⟩
    · exact (hway x hx).1
    · obtain ⟨hu, hstage'⟩ := hway u (leaves_of_yields hperform)
      exact hu.applied hstage' (stamp_of_strictUtc hp.stamp) (hlate appliedAt hp.stamp) hx

/-- So does `record_disposition`. -/
theorem Explained.recordDisposition {verdict : Verdict} {note : String}
    (hx : (site.recordDisposition patchId verdict now note).Leaves t x) :
    Explained site patchId intent x := by
  rcases recordDisposition_leaves hx with rfl | ⟨recordedAt, live, hplan, hwrite⟩
  · exact h
  · obtain ⟨receipt, hload, hstate, hstamp, rfl⟩ := planDisposition_ok.mp hplan
    obtain ⟨receipt', hstage⟩ := h.stage
    obtain rfl := Except.ok.inj ((h.loadReceipt hstage).symm.trans hload)
    obtain ⟨appliedAt, hfile, hstamp', hlate⟩ :=
      hstage.of_recorded (loadIntent_intent h.loads).pending hstate
    rw [hstage.paths_eq] at hwrite
    rcases h.record_leaves hwrite with rfl | ⟨hkeeps, hnode⟩
    · exact h
    · have hlive : (intent.paths.map fun declared => (declared.1, site.fileSha256 t declared.1)) =
          intent.paths.map fun declared => (declared.1, site.fileSha256 x declared.1) :=
        List.map_congr_left fun declared hmem => by rw [h.recorded_live hkeeps hnode hmem]
      have happlied : x.node (site.root ++ recordPath patchId "applied.json") =
          some (.file (appliedRecord intent appliedAt)) := by
        rw [hnode, Function.update_of_ne (by simp [recordPath])]
        exact hfile
      have hdisposition : x.node (site.root ++ recordPath patchId "disposition.json") = some (.file
          (dispositionRecord patchId verdict recordedAt
            (intent.paths.map fun declared => (declared.1, site.fileSha256 x declared.1)) note)) := by
        rw [hnode, Function.update_self, hlive]
      exact h.recorded hkeeps hnode (by decide)
        ⟨_, .disposed happlied hstamp' hlate hdisposition (stamp_of_strictUtc hstamp)⟩

/-- And so does `revert`. -/
theorem Explained.revert (hx : (site.revert patchId now).Leaves t x) : Explained site patchId intent x := by
  rcases revert_leaves hx with rfl | ⟨receipt, steps, hp, hx⟩
  · exact h
  · obtain ⟨receipt', hstage⟩ := h.stage
    obtain rfl := Except.ok.inj ((h.loadReceipt hstage).symm.trans hp.loads)
    have hway : ∀ u, (site.perform steps).Leaves t u → Explained site patchId intent u := by
      intro u hu
      have hmoves := hp.moves
      have hdiffer := hp.differ
      rw [hstage.paths_eq] at hmoves hdiffer
      obtain ⟨hruntime, hlive⟩ := hmoves.on_the_way h.declared hdiffer h.plain hu
      exact (h.moved hstage (hstage.of_applied (loadIntent_intent h.loads).fresh hp.applied) hruntime
        fun declared hmem => (hlive declared hmem).symm).1
    rcases hx with hx | ⟨u, hperform, hx⟩
    · exact hway x hx
    · exact (hway u (leaves_of_yields hperform)).recordDisposition hx

end Explained

/-! ### Runs -/

/-- A pending receipt in a directory of its own, whose declared paths lead through no link and stand as
it declares them before. -/
structure Waiting (site : Site) (t : Disk) (patchId : String) (receipt : Receipt) : Prop where
  loads : site.loadReceipt t patchId = .ok receipt
  pending : receipt.state = .pending
  before : ∀ declared ∈ receipt.paths, site.fileSha256 t declared.1 = declared.2.before
  plain : PlainPaths site t receipt.paths
  owned : OwnedReceipt site t patchId

/-- One call on the receipt, ended or cut off anywhere. Nothing is applied at a time before the receipt
was made. -/
inductive Session (site : Site) (patchId : String) (receipt : Receipt) (t u : Disk) : Prop
  | apply {now : String} :
      (∀ appliedAt, site.strictUtc (some (.str now)) "applied_at" = .ok appliedAt →
        receipt.createdAt ≤ appliedAt) →
      (site.applyProposal patchId now).Leaves t u → Session site patchId receipt t u
  | judge {verdict : Verdict} {now note : String} :
      (site.recordDisposition patchId verdict now note).Leaves t u → Session site patchId receipt t u
  | revert {now : String} : (site.revert patchId now).Leaves t u → Session site patchId receipt t u

/-- A pending receipt is its intent, and there are no other records. -/
theorem loadReceipt_pending (h : site.loadReceipt t patchId = .ok receipt) (hstate : receipt.state = .pending) :
    site.loadIntent t patchId = .ok receipt ∧ Stage site t patchId receipt receipt := by
  simp only [Site.loadReceipt, bind_eq_ok] at h
  obtain ⟨intent, hintent, applied, happlied, hdisposition⟩ := h
  obtain rfl := (loadIntent_loaded hintent).1.patchId_eq
  have hid := (loadApplied_same happlied).1
  simp only [Site.loadDisposition, bind_eq_ok] at hdisposition
  obtain ⟨record, hread, hdisposition⟩ := hdisposition
  cases record with
  | some value =>
    simp only [bind_eq_ok, pure_eq_ok] at hdisposition
    obtain ⟨_, -, _, -, _, -, _, -, _, -, _, -, _, -, _, -, rfl⟩ := hdisposition
    cases hstate
  | none =>
    obtain rfl := pure_eq_ok.mp hdisposition
    simp only [Site.loadApplied, bind_eq_ok] at happlied
    obtain ⟨record, hread', happlied⟩ := happlied
    cases record with
    | some value =>
      simp only [bind_eq_ok, pure_eq_ok] at happlied
      obtain ⟨_, -, _, -, _, -, _, -, _, -, _, -, _, -, rfl⟩ := happlied
      cases hstate
    | none =>
      obtain rfl := pure_eq_ok.mp happlied
      exact ⟨hintent, .waiting hread' hread⟩

theorem Waiting.explained (h : Waiting site t patchId receipt) : Explained site patchId receipt t := by
  obtain ⟨hintent, hstage⟩ := loadReceipt_pending h.loads h.pending
  exact ⟨hintent, h.owned, h.plain, fun declared hmem => .inl (h.before declared hmem), receipt, hstage⟩

/-- **Runs.** However often the operations are called and cut off, the records explain the tree. -/
theorem Waiting.runs (h : Waiting site t patchId receipt)
    (hrun : Run.Runs (Session site patchId receipt) t u) : Explained site patchId receipt u := by
  refine Run.keeps (fun s v hs hstep => ?_) hrun h.explained
  cases hstep with
  | apply hlate hx => exact hs.applyProposal hlate hx
  | judge hx => exact hs.recordDisposition hx
  | revert hx => exact hs.revert hx

/-- The claims are recorded under the receipt. -/
theorem Explained.claimRecords (h : Explained site patchId intent t) {names : List String}
    (hname : patchId ∈ names) {declared : String × PathSpec} (hmem : declared ∈ intent.paths)
    (hmoved : site.fileSha256 t declared.1 ≠ declared.2.before) :
    ∃ record ∈ site.claimRecords t names, record.patchId = patchId ∧
      record.paths.lookup declared.1 = some (claimHash (site.fileSha256 t declared.1)) := by
  obtain ⟨receipt, hstage⟩ := h.stage
  have hload := h.loadReceipt hstage
  have hclaims := h.claims hstage hmem hmoved
  have hne : site.claims t receipt ≠ [] := by
    intro hnil
    rw [hnil] at hclaims
    cases hclaims
  have hplain : ∀ rel, rel <+: receiptDir patchId → Tree.Plain t site.root rel := by
    intro rel hrel pre hpre hpre' target hlink
    rw [h.owned pre (hpre.trans ((List.dropLast_prefix _).trans hrel)) hpre'] at hlink
    cases hlink
  have htop : t.lstat site.links site.root [".saipen", "exchange", "xpatch"] = some .dir := by
    have hbelow : [".saipen", "exchange", "xpatch"] <+: receiptDir patchId := ⟨[patchId], rfl⟩
    rw [Tree.lstat_plain (hplain _ hbelow) (by decide)]
    exact h.owned _ hbelow (by simp)
  have hdir : t.lstat site.links site.root (receiptDir patchId) = some .dir := by
    rw [Tree.lstat_plain (hplain _ (List.prefix_refl _))
      (by simp [receiptDir, (isPatchId_ne_up h.grammar).symm])]
    exact h.owned _ (List.prefix_refl _) (by simp [receiptDir])
  refine ⟨⟨receipt.patchId, receipt.claimTime, receipt.patchId, receipt.workId, receipt.targetLineage,
    receipt.claimKind, site.claims t receipt⟩, ?_, (loadReceipt_loaded hload).patchId_eq, hclaims⟩
  refine List.mem_filterMap.mpr ⟨receipt, ?_, by rw [Site.claimRecord, if_neg hne]⟩
  rw [Site.loadReceipts, htop]
  refine List.mem_filterMap.mpr ⟨patchId, hname, ?_⟩
  simp only [hdir, h.grammar, if_true, hload]
  rfl

/-! ### Applying again -/

/-- Staging is the same where the declared paths are. -/
theorem stage_same {contents : Dict}
    (h : ∀ declared ∈ paths, site.fileSha256 u declared.1 = site.fileSha256 t declared.1) :
    site.stage u patchId contents paths = site.stage t patchId contents paths := by
  induction paths with
  | nil => rfl
  | cons declared paths ih =>
    obtain ⟨rel, spec⟩ := declared
    have hfirst := h (rel, spec) List.mem_cons_self
    rw [Site.stage, Site.stage, hfirst, ih fun declared hmem => h declared (List.mem_cons_of_mem _ hmem)]

/-- What was staged once is found to have drifted once a path has moved. -/
theorem stage_drift {contents : Dict}
    (h : site.stage t patchId contents paths = .ok (.staged steps))
    (hmoved : ∃ declared ∈ paths, site.fileSha256 u declared.1 ≠ declared.2.before) :
    ∃ rel, site.stage u patchId contents paths = .ok (.drift rel) := by
  induction paths generalizing steps with
  | nil =>
    obtain ⟨declared, hmem, -⟩ := hmoved
    cases hmem
  | cons declared paths ih =>
    obtain ⟨rel, spec⟩ := declared
    by_cases hlive : site.fileSha256 u rel = spec.before
    · rw [Site.stage] at h
      split_ifs at h
      · cases pure_eq_ok.mp h
      · simp only [bind_eq_ok] at h
        obtain ⟨body, hbody, staging, hrest, h⟩ := h
        cases staging with
        | drift moved => cases pure_eq_ok.mp h
        | staged rest =>
          obtain ⟨declared, hmem, hne⟩ := hmoved
          have hbehind : declared ∈ paths := by
            rcases List.mem_cons.mp hmem with rfl | hmem
            · exact absurd hlive hne
            · exact hmem
          obtain ⟨moved, hdrift⟩ := ih hrest ⟨declared, hbehind, hne⟩
          refine ⟨moved, ?_⟩
          rw [Site.stage, if_neg (not_not.mpr hlive)]
          simp only [bind_eq_ok]
          exact ⟨body, hbody, .drift moved, hdrift, rfl⟩
    · exact ⟨rel, by rw [Site.stage, if_pos hlive]; rfl⟩

/-- What a plan has found besides the declared paths. -/
theorem planApply_iff {appliedAt : String} {staging : Staging} :
    site.planApply t patchId now = .ok (receipt, appliedAt, staging) ↔
      site.loadReceipt t patchId = .ok receipt ∧ receipt.state = .pending ∧
      site.strictUtc (some (.str now)) "applied_at" = .ok appliedAt ∧
      ∃ payload contents, site.payload t patchId = .ok payload ∧
        requireObject ((payload.get "contents").getD .null) (patchId ++ " payload has malformed contents") =
          .ok contents ∧ sameKeys contents receipt.paths = true ∧
        site.stage t patchId contents receipt.paths = .ok staging := by
  simp only [Site.planApply, bind_eq_ok, require_eq_ok, beq_iff_eq, pure_eq_ok]
  constructor
  · rintro ⟨receipt', hload, _, hstate, appliedAt', hstamp, payload, hpayload, contents, hcontents, _, hkeys,
      staging', hstage, heq⟩
    obtain ⟨rfl, rfl, rfl⟩ := by simpa using heq
    exact ⟨hload, hstate, hstamp, payload, contents, hpayload, hcontents, hkeys, hstage⟩
  · rintro ⟨hload, hstate, hstamp, payload, contents, hpayload, hcontents, hkeys, hstage⟩
    exact ⟨receipt, hload, (), hstate, appliedAt, hstamp, payload, hpayload, contents, hcontents, (), hkeys,
      staging, hstage, rfl⟩

/-- An apply that was cut off before its record left the runtime directory as it was. -/
theorem Explained.interrupted (h : Explained site patchId intent t)
    (hlate : ∀ appliedAt, site.strictUtc (some (.str now)) "applied_at" = .ok appliedAt →
      intent.createdAt ≤ appliedAt)
    (hx : (site.applyProposal patchId now).Leaves t x) (hload : site.loadReceipt x patchId = .ok receipt)
    (hstate : receipt.state = .pending) : SameRuntime site t x := by
  rcases applyProposal_leaves hx with rfl | ⟨receipt', appliedAt, steps, hp, hx⟩
  · exact ⟨.refl x, fun _ _ => rfl⟩
  · obtain ⟨rfl, hstage⟩ := h.plan hp
    rcases hx with hx | ⟨u, hperform, hx⟩
    · exact (hp.moves.on_the_way h.declared hp.differ h.plain hx).1
    · obtain ⟨hruntime, hlive⟩ :=
        hp.moves.on_the_way h.declared hp.differ h.plain (leaves_of_yields hperform)
      obtain ⟨hu, hstage'⟩ := h.moved hstage (loadIntent_intent h.loads).fresh hruntime hlive
      rcases hu.record_leaves hx with rfl | ⟨hkeeps, hnode⟩
      · exact hruntime
      -- the record is there, so the receipt is no longer pending
      · have hx' := hu.applied hstage' (stamp_of_strictUtc hp.stamp) (hlate appliedAt hp.stamp) hx
        obtain ⟨receipt'', hstage''⟩ := hx'.stage
        obtain rfl := Except.ok.inj ((hx'.loadReceipt hstage'').symm.trans hload)
        cases hstage'' with
        | waiting happlied =>
          have hfile : x.lstat site.links site.root (recordPath patchId "applied.json") =
              some (.file (appliedRecord receipt' appliedAt)) := by
            rw [hx'.lstat (by decide), hnode, Function.update_self]
          rw [readJson_json hfile (by simp)] at happlied
          cases happlied
        | applied => cases hstate
        | disposed => cases hstate

/-- **Applying again.** Behind an apply that was cut off before its record, another one stages what the
first one staged when no path has moved, and finds drift when one has. -/
theorem Waiting.again (h : Waiting site t patchId receipt)
    (hlate : ∀ appliedAt, site.strictUtc (some (.str now)) "applied_at" = .ok appliedAt →
      receipt.createdAt ≤ appliedAt)
    (hx : (site.applyProposal patchId now).Leaves t x) {receipt' : Receipt}
    (hload : site.loadReceipt x patchId = .ok receipt') (hstate : receipt'.state = .pending)
    {now' appliedAt' : String} (hstamp : site.strictUtc (some (.str now')) "applied_at" = .ok appliedAt') :
    ((∀ declared ∈ receipt.paths, site.fileSha256 x declared.1 = declared.2.before) →
      site.planApply x patchId now' = site.planApply t patchId now') ∧
    ((∃ declared ∈ receipt.paths, site.fileSha256 x declared.1 ≠ declared.2.before) →
      ∃ detail, (site.applyProposal patchId now').Yields x (.targetDrift detail) x) := by
  have hexplained := h.explained
  have hruntime := hexplained.interrupted hlate hx hload hstate
  have hbehind := hexplained.applyProposal hlate hx
  obtain ⟨receipt'', hstage⟩ := hbehind.stage
  obtain rfl := Except.ok.inj ((hbehind.loadReceipt hstage).symm.trans hload)
  obtain ⟨rfl, -⟩ := hstage.of_pending hstate
  have hpayload : site.payload x patchId = site.payload t patchId := by
    have hread := hexplained.readJson_same hruntime.keeps (by decide)
      (hruntime.node _ (inRuntime_record site patchId "payload.json"))
    unfold recordPath at hread
    rw [Site.payload, Site.payload, hread]
  constructor
  · intro hbefore
    have hstaged : ∀ contents, site.stage x patchId contents receipt''.paths =
        site.stage t patchId contents receipt''.paths := fun contents =>
      stage_same fun declared hmem => (hbefore declared hmem).trans (h.before declared hmem).symm
    simp only [Site.planApply, hload, h.loads, hpayload, bind, Except.bind, hstaged]
  · intro hmoved
    rcases applyProposal_leaves hx with rfl | ⟨receipt', appliedAt, steps, hp, -⟩
    · obtain ⟨declared, hmem, hne⟩ := hmoved
      exact absurd (h.before declared hmem) hne
    · obtain ⟨rfl, -⟩ := hexplained.plan hp
      obtain ⟨-, -, -, payload, contents, hpayload', hcontents, hkeys, hstaged⟩ := planApply_iff.mp hp.plan
      obtain ⟨rel, hdrift⟩ := stage_drift hstaged hmoved
      have hplan : site.planApply x patchId now' = .ok (receipt', appliedAt', .drift rel) :=
        planApply_iff.mpr ⟨hload, hstate, hstamp, payload, contents, hpayload.trans hpayload', hcontents, hkeys,
          hdrift⟩
      refine ⟨rel ++ " moved since the receipt was recorded", ?_⟩
      rw [yields_congr (applyProposal_run site patchId now' x), hplan]
      exact yields_pure.mpr ⟨rfl, rfl⟩

/-- **Every moved byte stays explained.** -/
theorem moved_bytes_explained (h : Waiting site t patchId receipt) :
    (∀ u, Run.Runs (Session site patchId receipt) t u → ∀ names, patchId ∈ names →
      ∀ declared ∈ receipt.paths, site.fileSha256 u declared.1 ≠ declared.2.before →
        ∃ record ∈ site.claimRecords u names, record.patchId = patchId ∧
          record.paths.lookup declared.1 = some (claimHash (site.fileSha256 u declared.1))) ∧
    ∀ now u, (∀ appliedAt, site.strictUtc (some (.str now)) "applied_at" = .ok appliedAt →
        receipt.createdAt ≤ appliedAt) → (site.applyProposal patchId now).Leaves t u →
      ∀ receipt', site.loadReceipt u patchId = .ok receipt' → receipt'.state = .pending →
      ∀ now' appliedAt', site.strictUtc (some (.str now')) "applied_at" = .ok appliedAt' →
        ((∀ declared ∈ receipt.paths, site.fileSha256 u declared.1 = declared.2.before) →
          site.planApply u patchId now' = site.planApply t patchId now') ∧
        ((∃ declared ∈ receipt.paths, site.fileSha256 u declared.1 ≠ declared.2.before) →
          ∃ detail, (site.applyProposal patchId now').Yields u (.targetDrift detail) u) :=
  ⟨fun _ hrun _ hname _ hmem hmoved => (h.runs hrun).claimRecords hname hmem hmoved,
    fun _ _ hlate hx _ hload hstate _ _ hstamp => h.again hlate hx hload hstate hstamp⟩

/-- A patch that creates two files. -/
def twoFilesDisk : Disk :=
  .ofEntries (sampleEntries
      [("a", ⟨none, some "559aead08264d5795d3909718cdd05abd49572e84fe55590eef31a88a08fdffd"⟩),
        ("b", ⟨none, some "df7e70e5021544f4834bbee64a9e3789febc4be81470df629cad6ddb03320a5c"⟩)]
      [("a", .str "QQ=="), ("b", .str "Qg==")] [("a", .null), ("b", .null)] [])
    (by decide)

/-- The tree an apply of the two files has passed when the first one is written. -/
def interruptedDisk : Disk :=
  (sampleSite.applyProposal "XP-000001" "2026-01-01T00:00:00Z" twoFilesDisk).trail.getD 2 twoFilesDisk

theorem interruptedDisk_left :
    (sampleSite.applyProposal "XP-000001" "2026-01-01T00:00:00Z").Leaves twoFilesDisk interruptedDisk := by
  have hlength : 2 < (sampleSite.applyProposal "XP-000001" "2026-01-01T00:00:00Z" twoFilesDisk).trail.length := by
    decide +kernel
  refine .inl ?_
  rw [interruptedDisk, List.getD_eq_getElem?_getD, List.getElem?_eq_getElem hlength, Option.getD_some]
  exact List.getElem_mem hlength

/-- Cut off behind its first file, the patch is not completed by applying it again. -/
theorem interrupted_apply_drifts :
    (sampleSite.applyProposal "XP-000001" "2026-01-01T00:00:00Z").Leaves twoFilesDisk interruptedDisk ∧
      ∃ detail x, (sampleSite.applyProposal "XP-000001" "2026-01-01T00:00:00Z").Yields interruptedDisk
        (.targetDrift detail) x ∧ x.node ["p", "a"] = some (.file (.text "A")) ∧ x.node ["p", "b"] = none :=
  ⟨interruptedDisk_left, "a moved since the receipt was recorded", _, ⟨by decide +kernel, rfl⟩,
    by decide +kernel, by decide +kernel⟩

/-- The receipt of the two files. -/
def twoFilesReceipt : Receipt where
  patchId := "XP-000001"
  mode := "proposal"
  state := .pending
  sourceLineage := "lineage-fedcba9876543210fedcba9876543210"
  workId := "T-1"
  agent := "agent"
  targetLineage := "lineage-0123456789abcdef0123456789abcdef"
  reason := "fix"
  paths :=
    [("a", ⟨none, some "559aead08264d5795d3909718cdd05abd49572e84fe55590eef31a88a08fdffd"⟩),
      ("b", ⟨none, some "df7e70e5021544f4834bbee64a9e3789febc4be81470df629cad6ddb03320a5c"⟩)]
  verification := []
  createdAt := "2026-01-01T00:00:00Z"

theorem twoFiles_waiting : Waiting sampleSite twoFilesDisk "XP-000001" twoFilesReceipt where
  loads := by decide +kernel
  pending := rfl
  before := by decide +kernel
  plain := by
    intro declared hmem pre hpre hne
    have hsingle : ∀ declared ∈ twoFilesReceipt.paths, (segments declared.1).dropLast = [] := by
      decide +kernel
    rw [hsingle declared hmem] at hpre
    exact absurd (List.prefix_nil.mp hpre) hne
  owned := by
    intro pre hpre
    have hall : ∀ pre ∈ (receiptDir "XP-000001").inits, pre ≠ [] →
        twoFilesDisk.node (sampleSite.root ++ pre) = some .dir := by decide +kernel
    exact hall pre ((List.mem_inits _ _).mpr hpre)

/-- The first file of the two is claimed where the apply is cut off behind it. -/
theorem moved_bytes_explained_interrupted :
    ∃ record ∈ sampleSite.claimRecords interruptedDisk ["XP-000001"], record.patchId = "XP-000001" ∧
      record.paths.lookup "a" = some (claimHash (sampleSite.fileSha256 interruptedDisk "a")) := by
  have hlate : ∀ appliedAt, sampleSite.strictUtc (some (.str "2026-01-01T00:00:00Z")) "applied_at" = .ok appliedAt →
      twoFilesReceipt.createdAt ≤ appliedAt := by
    intro appliedAt hstamp
    have hsame : sampleSite.strictUtc (some (.str "2026-01-01T00:00:00Z")) "applied_at" =
        .ok "2026-01-01T00:00:00Z" := by decide +kernel
    obtain rfl := Except.ok.inj (hsame.symm.trans hstamp)
    exact le_refl _
  exact (moved_bytes_explained twoFiles_waiting).1 _ (.single (.apply hlate interruptedDisk_left))
    ["XP-000001"] (by simp) _ List.mem_cons_self (by decide +kernel)

end Saipen.XPatch
