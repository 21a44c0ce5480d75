import Saipen.XPatch.Boundary

/-! # What loading a receipt reads

Of the tree, a receipt depends on its three records, on the identity of the project and on the links. -/

namespace Saipen.XPatch

open Checks DurableState LinkTree Prog

variable {site : Site} {t u x : Disk} {patchId name : String} {content : Content}

/-- A record of a receipt, from the root. -/
def recordPath (patchId name : String) : LinkTree.Path := receiptDir patchId ++ [name]

/-- The identity of the project, from the root. -/
def identityRecord : LinkTree.Path := [".saipen", "IDENTITY.md"]

/-! ### The same reading in two trees -/

theorem canonicalTargetPath_keeps (h : Tree.Keeps t u) (rel : String) :
    site.canonicalTargetPath u rel = site.canonicalTargetPath t rel := by
  unfold Site.canonicalTargetPath
  rw [Tree.realpath_keeps h]

theorem decodePath_keeps (h : Tree.Keeps t u) (declared : String) (value : Json) :
    site.decodePath u declared value = site.decodePath t declared value := by
  unfold Site.decodePath
  rw [canonicalTargetPath_keeps h]

theorem Declares.keeps {declared : String × PathSpec} (h : Declares site t declared)
    (hk : Tree.Keeps t u) : Declares site u declared := by
  unfold Declares
  rw [decodePath_keeps hk]
  exact h

theorem decodeEntries_keeps (h : Tree.Keeps t u) (raw : Dict) (out : List (String × PathSpec)) :
    site.decodeEntries u raw out = site.decodeEntries t raw out := by
  induction raw generalizing out with
  | nil => rfl
  | cons entry raw ih =>
    unfold Site.decodeEntries
    simp only [decodePath_keeps h, ih]

theorem decodePaths_keeps (h : Tree.Keeps t u) (raw : Option Json) :
    site.decodePaths u raw = site.decodePaths t raw := by
  unfold Site.decodePaths
  simp only [decodeEntries_keeps h]

theorem decodeDisposition_keeps (h : Tree.Keeps t u) (receipt : Receipt) (raw : Dict)
    (out : List (String × Option String)) :
    site.decodeDisposition u receipt raw out = site.decodeDisposition t receipt raw out := by
  induction raw generalizing out with
  | nil => rfl
  | cons entry raw ih =>
    unfold Site.decodeDisposition
    simp only [canonicalTargetPath_keeps h, ih]

theorem readJson_congr {path : LinkTree.Path}
    (h : u.lstat site.links site.root path = t.lstat site.links site.root path) :
    site.readJson u path = site.readJson t path := by
  unfold Site.readJson
  rw [h]

theorem lineage_congr
    (hruntime : u.node (site.root ++ [".saipen"]) = t.node (site.root ++ [".saipen"]))
    (hidentity : u.node (site.root ++ identityRecord) = t.node (site.root ++ identityRecord)) :
    site.lineage u = site.lineage t := by
  unfold Site.lineage
  rw [hruntime]
  unfold identityRecord at hidentity
  rw [hidentity]

theorem loadIntent_congr (hk : Tree.Keeps t u) (hlineage : site.lineage u = site.lineage t)
    (hintent : u.lstat site.links site.root (recordPath patchId "intent.json") =
      t.lstat site.links site.root (recordPath patchId "intent.json")) :
    site.loadIntent u patchId = site.loadIntent t patchId := by
  have hread : site.readJson u (receiptDir patchId ++ ["intent.json"]) =
      site.readJson t (receiptDir patchId ++ ["intent.json"]) := readJson_congr hintent
  unfold Site.loadIntent
  simp only [hread, hlineage, decodePaths_keeps hk]

theorem loadApplied_congr {receipt : Receipt} (hk : Tree.Keeps t u)
    (happlied : u.lstat site.links site.root (recordPath receipt.patchId "applied.json") =
      t.lstat site.links site.root (recordPath receipt.patchId "applied.json")) :
    site.loadApplied u receipt = site.loadApplied t receipt := by
  have hread : site.readJson u (receiptDir receipt.patchId ++ ["applied.json"]) =
      site.readJson t (receiptDir receipt.patchId ++ ["applied.json"]) := readJson_congr happlied
  unfold Site.loadApplied
  simp only [hread, decodePaths_keeps hk]

theorem loadDisposition_congr {receipt : Receipt} (hk : Tree.Keeps t u)
    (hdisposition : u.lstat site.links site.root (recordPath receipt.patchId "disposition.json") =
      t.lstat site.links site.root (recordPath receipt.patchId "disposition.json")) :
    site.loadDisposition u receipt = site.loadDisposition t receipt := by
  have hread : site.readJson u (receiptDir receipt.patchId ++ ["disposition.json"]) =
      site.readJson t (receiptDir receipt.patchId ++ ["disposition.json"]) := readJson_congr hdisposition
  unfold Site.loadDisposition
  simp only [hread, decodeDisposition_keeps hk]

/-! ### What a receipt that loads has read -/

theorem readJson_some {path : LinkTree.Path} {value : Json} (h : site.readJson t path = .ok (some value)) :
    ∃ content, t.lstat site.links site.root path = some (.file content) ∧
      content.loads = some value ∧ value ≠ .null := by
  unfold Site.readJson at h
  split at h
  · cases h
  · cases h
  · next content hfile =>
    simp only [bind_eq_ok, requireSome_eq_ok, pure_eq_ok] at h
    obtain ⟨value', hloads, h⟩ := h
    split_ifs at h with hnull
    obtain rfl := Option.some.inj h
    exact ⟨content, hfile, hloads, hnull⟩
  · cases h

/-- Where no record was found, nothing or a file stands. -/
theorem readJson_none {path : LinkTree.Path} (h : site.readJson t path = .ok none) :
    t.lstat site.links site.root path = none ∨
      ∃ content, t.lstat site.links site.root path = some (.file content) := by
  unfold Site.readJson at h
  split at h
  · next hnone => exact .inl hnone
  · cases h
  · next content hfile => exact .inr ⟨content, hfile⟩
  · cases h

theorem loadIntent_reads {receipt : Receipt} (h : site.loadIntent t patchId = .ok receipt) :
    (∃ content, t.lstat site.links site.root (recordPath patchId "intent.json") = some (.file content)) ∧
      ∃ content, t.node (site.root ++ identityRecord) = some (.file content) := by
  simp only [Site.loadIntent, bind_eq_ok, requireSome_eq_ok] at h
  obtain ⟨_, -, found, hfound, value, rfl, _, -, _, -, _, -, _, -, _, -, _, -, _, -, _, -, _, -, _, -,
    live, hlive, -⟩ := h
  obtain ⟨content, hfile, -, -⟩ := readJson_some hfound
  refine ⟨⟨content, hfile⟩, ?_⟩
  unfold Site.lineage at hlive
  split at hlive
  · next content' _ hidentity => exact ⟨content', hidentity⟩
  · cases hlive

/-- A receipt in the applied state has no record of a disposition. -/
theorem disposition_free {receipt : Receipt} (h : site.loadReceipt t patchId = .ok receipt)
    (hstate : receipt.state = .applied) :
    t.lstat site.links site.root (recordPath patchId "disposition.json") = none ∨
      ∃ content, t.lstat site.links site.root (recordPath patchId "disposition.json") = some (.file content) := by
  simp only [Site.loadReceipt, bind_eq_ok] at h
  obtain ⟨intent, hintent, applied, happlied, h⟩ := h
  have hid : applied.patchId = patchId :=
    (loadApplied_same happlied).1.trans (loadIntent_loaded hintent).1.patchId_eq
  simp only [Site.loadDisposition, bind_eq_ok] at h
  obtain ⟨record, hread, h⟩ := h
  cases record with
  | none =>
    rw [hid] at hread
    exact readJson_none hread
  | some value =>
    simp only [bind_eq_ok, pure_eq_ok] at h
    obtain ⟨_, -, _, -, _, -, _, -, _, -, _, -, _, -, _, -, rfl⟩ := h
    cases hstate

/-! ### The records behind directories -/

theorem intent_ne_up : "intent.json" ≠ ".." := by decide

theorem isPatchId_ne_up (h : isPatchId patchId = true) : patchId ≠ ".." := by
  rintro rfl
  revert h
  decide

theorem up_notMem_recordPath (hid : isPatchId patchId = true) (hname : name ≠ "..") :
    ".." ∉ recordPath patchId name := by
  simp [recordPath, receiptDir, (isPatchId_ne_up hid).symm, hname.symm]

/-- The directory of a receipt is where it is spelled. -/
def OwnedReceipt (site : Site) (t : Disk) (patchId : String) : Prop :=
  ∀ pre, pre <+: receiptDir patchId → pre ≠ [] → t.node (site.root ++ pre) = some .dir

theorem ownedReceipt_iff : OwnedReceipt site t patchId ↔ Tree.Owned t site.root (recordPath patchId name) := by
  unfold OwnedReceipt Tree.Owned recordPath
  rw [List.dropLast_concat]

theorem OwnedReceipt.keeps (h : OwnedReceipt site t patchId) (hk : Tree.Keeps t u) :
    OwnedReceipt site u patchId := fun pre hpre hne => hk.dir _ (h pre hpre hne)

/-- In an owned directory a record is read as it is spelled. -/
theorem OwnedReceipt.lstat (h : OwnedReceipt site t patchId) (hid : isPatchId patchId = true)
    (hname : name ≠ "..") : t.lstat site.links site.root (recordPath patchId name) =
      t.node (site.root ++ recordPath patchId name) :=
  Tree.lstat_plain (ownedReceipt_iff.mp h).plain (up_notMem_recordPath hid hname)

/-- A record that is found in a tree whose links end in an owned directory is in an owned directory. -/
theorem OwnedReceipt.of_keeps (h : OwnedReceipt site u patchId) (hk : Tree.Keeps t u)
    (hid : isPatchId patchId = true) (hname : name ≠ "..")
    (hfound : t.lstat site.links site.root (recordPath patchId name) ≠ none) :
    OwnedReceipt site t patchId := by
  have hplain : Tree.Plain t site.root (recordPath patchId name) := by
    intro pre hpre hne target hlink
    rw [recordPath, List.dropLast_concat] at hpre
    have hdir := h pre hpre hne
    rw [(hk.link _ target).mpr hlink] at hdir
    cases hdir
  have howned : Tree.Owned t site.root (recordPath patchId name) := by
    refine Tree.owned_of_node ?_
    rwa [← Tree.lstat_plain hplain (up_notMem_recordPath hid hname)]
  exact ownedReceipt_iff.mpr howned

/-! ### Runs of canonical edits in the runtime directory -/

variable {steps : List Step}

/-- A place in the runtime directory. -/
def InRuntime (site : Site) (q : LinkTree.Path) : Prop := ∃ rest, q = site.root ++ ".saipen" :: rest

theorem inRuntime_record (site : Site) (patchId name : String) :
    InRuntime site (site.root ++ recordPath patchId name) := ⟨["exchange", "xpatch", patchId, name], rfl⟩

theorem inRuntime_identity (site : Site) : InRuntime site (site.root ++ identityRecord) :=
  ⟨["IDENTITY.md"], rfl⟩

theorem inRuntime_top (site : Site) : InRuntime site (site.root ++ [".saipen"]) := ⟨[], rfl⟩

theorem Canonical.not_inRuntime {rel : String} (h : Canonical rel) :
    ¬ InRuntime site (site.root ++ segments rel) := by
  rintro ⟨rest, heq⟩
  refine h.outside ?_
  rw [List.append_cancel_left heq]
  rfl

/-- No step writes into the runtime directory. -/
theorem not_puts_inRuntime {q : LinkTree.Path} (hcanonical : ∀ step ∈ steps, Canonical step.1)
    (hq : InRuntime site q) (c : Content) : ¬ Tree.Puts site.root (steps.map edit) q c := by
  rintro ⟨path, hmem, rfl⟩
  obtain ⟨rel, hstep, rfl⟩ := mem_map_edit.mp hmem
  exact (hcanonical _ hstep).not_inRuntime hq

/-- Steps that remove nothing in the runtime directory leave it alone. -/
theorem node_inRuntime {q : LinkTree.Path} (hran : t.Ran site.links site.root (steps.map edit) u)
    (hcanonical : ∀ step ∈ steps, Canonical step.1) (hq : InRuntime site q)
    (hremoves : ¬ t.Removes site.links site.root (steps.map edit) q) : u.node q = t.node q := by
  rcases hran.kept q hremoves (not_puts_inRuntime hcanonical hq) with
    hsame | ⟨-, -, path, c, pre, hmem, hpre, hne, hplace⟩
  · exact hsame
  · obtain ⟨rel, hstep, rfl⟩ := mem_map_edit.mp hmem
    obtain ⟨rest, rfl⟩ := hq
    have hcons : ".saipen" :: rest = pre := List.append_cancel_left hplace
    subst hcons
    obtain ⟨below, hbelow⟩ := hpre.trans (List.dropLast_prefix _)
    refine absurd ?_ (hcanonical _ hstep).outside
    rw [← hbelow]
    rfl

end Saipen.XPatch
