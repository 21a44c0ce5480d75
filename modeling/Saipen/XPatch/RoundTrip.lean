import Saipen.XPatch.Records

/-! # Records read back

What `apply_proposal` and `record_disposition` write loads as what they recorded. -/

namespace Saipen.XPatch

open Checks DurableState LinkTree Prog

variable {site : Site} {t u : Disk} {patchId : String} {receipt : Receipt}
  {paths : List (String × PathSpec)}

/-! ### Declared paths -/

theorem decodeEntries_again {out : List (String × PathSpec)}
    (hnodup : ((out ++ paths).map Prod.fst).Nodup)
    (hdeclares : ∀ declared ∈ paths, Declares site t declared) :
    site.decodeEntries t (paths.map fun (rel, spec) => (rel, specJson spec)) out = .ok (out ++ paths) := by
  induction paths generalizing out with
  | nil => rw [List.append_nil]; rfl
  | cons declared paths ih =>
    obtain ⟨rel, spec⟩ := declared
    have hnew : rel ∉ out.map Prod.fst := by
      rw [List.map_append, List.nodup_append] at hnodup
      exact fun hmem => hnodup.2.2 rel hmem rel (by simp) rfl
    have hset : Assoc.set rel spec out = out ++ [(rel, spec)] := Assoc.set_of_notMem spec hnew
    have hsplit : out ++ (rel, spec) :: paths = out ++ [(rel, spec)] ++ paths := by simp
    rw [List.map_cons, Site.decodeEntries, bind_eq_ok]
    refine ⟨(rel, spec), hdeclares _ List.mem_cons_self, ?_⟩
    show site.decodeEntries t _ (Assoc.set rel spec out) = _
    rw [hset, hsplit]
    refine ih ?_ fun declared hmem => hdeclares declared (List.mem_cons_of_mem _ hmem)
    rwa [← hsplit]

/-- Declarations read from their record as they are. -/
theorem decodePaths_again (h : Declared site t paths) :
    site.decodePaths t (some (pathsJson paths)) = .ok paths := by
  obtain ⟨declared, rest, rfl⟩ := List.exists_cons_of_ne_nil h.ne
  have hentries : site.decodeEntries t ((declared :: rest).map fun (rel, spec) => (rel, specJson spec)) [] =
      .ok ([] ++ (declared :: rest)) := decodeEntries_again h.nodup h.declares
  exact hentries

theorem sameDict_self {α : Type} [DecidableEq α] {d : List (String × α)} (h : (d.map Prod.fst).Nodup) :
    sameDict d d = true := by
  rw [sameDict, Bool.and_self, List.all_eq_true]
  rintro ⟨key, value⟩ hmem
  rw [beq_iff_eq]
  exact (Assoc.mem_iff_lookup h key value).mp hmem

/-! ### Verifications -/

/-- One entry of a verification as a record has it. -/
def verificationJson (entry : String × String) : Json :=
  .obj [("command", .str entry.1), ("result", .str entry.2)]

theorem decodeVerificationEntry_again {item : Json} {entry : String × String}
    (h : decodeVerificationEntry item = .ok entry) :
    decodeVerificationEntry (verificationJson entry) = .ok entry := by
  obtain ⟨command, result⟩ := entry
  simp only [decodeVerificationEntry, bind_eq_ok, requireText, requireSome_eq_ok, pure_eq_ok] at h ⊢
  obtain ⟨fields, -, command', hcommand, result', hresult, heq⟩ := h
  obtain ⟨rfl, rfl⟩ := Prod.mk.inj heq
  have hne := (Option.filter_eq_some_iff.mp hcommand).2
  have hknown := (Option.filter_eq_some_iff.mp hresult).2
  refine ⟨[("command", .str command'), ("result", .str result')], rfl, command', ?_, result', ?_, rfl⟩
  · exact Option.filter_eq_some_iff.mpr ⟨rfl, hne⟩
  · exact Option.filter_eq_some_iff.mpr ⟨rfl, hknown⟩

/-- A verification that was decoded decodes from its record. -/
theorem decodeVerification_again {raw : Option Json} {verification : List (String × String)}
    (h : decodeVerification raw = .ok verification) :
    decodeVerification (some (.arr (verification.map verificationJson))) = .ok verification := by
  have hentries : ∀ entry ∈ verification, decodeVerificationEntry (verificationJson entry) = .ok entry := by
    intro entry hmem
    unfold decodeVerification at h
    split at h
    · obtain rfl := pure_eq_ok.mp h
      cases hmem
    · obtain rfl := pure_eq_ok.mp h
      cases hmem
    · have hitems := mapM_eq_ok.mp h
      clear h
      induction hitems with
      | nil => cases hmem
      | cons hitem _ ih =>
        rcases List.mem_cons.mp hmem with rfl | hmem
        · exact decodeVerificationEntry_again hitem
        · exact ih hmem
    · cases h
  rw [decodeVerification, mapM_eq_ok, List.forall₂_map_left_iff]
  exact List.forall₂_same.mpr hentries

/-! ### The applied record -/

/-- What an intent that loads has in it. -/
structure Intent (site : Site) (t : Disk) (patchId : String) (receipt : Receipt) : Prop where
  loaded : Loaded site t patchId receipt
  pending : receipt.state = .pending
  fresh : receipt.dispositionPaths = []
  verification : decodeVerification (some (.arr (receipt.verification.map verificationJson))) =
    .ok receipt.verification

theorem loadIntent_intent (h : site.loadIntent t patchId = .ok receipt) : Intent site t patchId receipt := by
  obtain ⟨hloaded, hpending⟩ := loadIntent_loaded h
  simp only [Site.loadIntent, bind_eq_ok, pure_eq_ok] at h
  obtain ⟨_, -, _, -, _, -, _, -, _, -, _, -, _, -, _, -, _, -, _, -, _, -, _, -, _, -, _, -, _, -, _, -,
    _, -, _, -, verification, hverification, rfl⟩ := h
  exact ⟨hloaded, hpending, rfl, decodeVerification_again hverification⟩

/-- The receipt with its applied record. -/
def Receipt.withApplied (receipt : Receipt) (appliedAt : String) : Receipt :=
  { receipt with state := .applied, appliedAt := appliedAt }

/-- The receipt with the record of its disposition. -/
def Receipt.withDisposition (receipt : Receipt) (verdict : Verdict) (recordedAt : String)
    (live : List (String × Option String)) (note : String) : Receipt :=
  { receipt with
    state := .disposed verdict
    dispositionAt := recordedAt
    dispositionPaths := live
    note := note }

theorem readJson_json {path : LinkTree.Path} {value : Json}
    (hfile : t.lstat site.links site.root path = some (.file (.json value))) (hvalue : value ≠ .null) :
    site.readJson t path = .ok (some value) := by
  rw [Site.readJson, hfile]
  simp only [bind_eq_ok, requireSome_eq_ok, pure_eq_ok]
  exact ⟨value, rfl, if_neg hvalue⟩

theorem readJson_absent {path : LinkTree.Path} (h : t.lstat site.links site.root path = none) :
    site.readJson t path = .ok none := by rw [Site.readJson, h]; rfl

/-- The applied record loads. -/
theorem loadApplied_again {appliedAt : String} (hintent : Intent site t patchId receipt)
    (hfile : t.lstat site.links site.root (recordPath patchId "applied.json") =
      some (.file (appliedRecord receipt appliedAt)))
    (hstamp : site.strictUtc (some (.str appliedAt)) (patchId ++ " applied_at") = .ok appliedAt)
    (hlate : receipt.createdAt ≤ appliedAt) :
    site.loadApplied t receipt = .ok (receipt.withApplied appliedAt) := by
  obtain rfl := hintent.loaded.patchId_eq
  have hread := readJson_json hfile (by simp)
  simp only [Site.loadApplied, bind_eq_ok]
  refine ⟨_, hread, ?_⟩
  simp only [bind_eq_ok, requireObject_eq_ok, require_eq_ok, pure_eq_ok]
  refine ⟨_, rfl, (), beq_self_eq_true _, receipt.paths, decodePaths_again hintent.loaded.declared, (),
    sameDict_self hintent.loaded.declared.nodup, appliedAt, hstamp, (), ?_, receipt.verification,
    hintent.verification, ?_⟩
  · exact decide_eq_true hlate
  · rw [ite_self, Receipt.withApplied]

/-! ### The record of a disposition -/

theorem decodeDisposition_again {live out : List (String × Option String)}
    (hnodup : ((out ++ live).map Prod.fst).Nodup)
    (hscope : ∀ entry ∈ live, site.canonicalTargetPath t entry.1 = .ok entry.1 ∧
      (receipt.paths.lookup entry.1).isSome = true ∧
      sha256? (some (digestJson entry.2)) = some entry.2) :
    site.decodeDisposition t receipt (live.map fun (rel, digest) => (rel, digestJson digest)) out =
      .ok (out ++ live) := by
  induction live generalizing out with
  | nil => rw [List.append_nil]; rfl
  | cons entry live ih =>
    obtain ⟨rel, digest⟩ := entry
    obtain ⟨hcanonical, hdeclared, hdigest⟩ := hscope _ List.mem_cons_self
    have hnew : rel ∉ out.map Prod.fst := by
      rw [List.map_append, List.nodup_append] at hnodup
      exact fun hmem => hnodup.2.2 rel hmem rel (by simp) rfl
    have hsplit : out ++ (rel, digest) :: live = out ++ [(rel, digest)] ++ live := by simp
    rw [List.map_cons, Site.decodeDisposition]
    simp only [bind_eq_ok, require_eq_ok, requireSome_eq_ok]
    refine ⟨rel, hcanonical, (), hdeclared, digest, hdigest, ?_⟩
    rw [Assoc.set_of_notMem digest hnew, hsplit]
    refine ih ?_ fun entry hmem => hscope entry (List.mem_cons_of_mem _ hmem)
    rwa [← hsplit]

theorem verdict?_name (verdict : Verdict) : verdict? verdict.name = some verdict := by
  cases verdict <;> decide

theorem lookup_isSome_of_mem {α : Type} {k : String} {v : α} {d : List (String × α)} (h : (k, v) ∈ d) :
    (d.lookup k).isSome = true := by
  by_contra hnone
  rw [Bool.not_eq_true, Option.isSome_eq_false_iff, Option.isNone_iff_eq_none] at hnone
  exact Assoc.notMem_iff_lookup.mpr hnone (List.mem_map_of_mem h)

theorem sameKeys_of_keys {α β : Type} {d : List (String × α)} {e : List (String × β)}
    (h : d.map Prod.fst = e.map Prod.fst) : sameKeys d e = true := by
  have hmem : ∀ key, key ∈ d.map Prod.fst ↔ key ∈ e.map Prod.fst := fun key => by rw [h]
  rw [sameKeys, Bool.and_eq_true, List.all_eq_true, List.all_eq_true]
  constructor
  · rintro ⟨key, value⟩ he
    obtain ⟨⟨_, w⟩, hw, rfl⟩ := List.mem_map.mp ((hmem key).mp (List.mem_map_of_mem he))
    exact lookup_isSome_of_mem hw
  · rintro ⟨key, value⟩ he
    obtain ⟨⟨_, w⟩, hw, rfl⟩ := List.mem_map.mp ((hmem key).mpr (List.mem_map_of_mem he))
    exact lookup_isSome_of_mem hw

/-- The record of a disposition loads. -/
theorem loadDisposition_again {verdict : Verdict} {recordedAt note : String}
    {live : List (String × Option String)} (hid : receipt.patchId = patchId)
    (hdeclared : Declared site t receipt.paths) (happlied : receipt.state = .applied)
    (hkeys : live.map Prod.fst = receipt.paths.map Prod.fst)
    (hdigests : ∀ entry ∈ live, sha256? (some (digestJson entry.2)) = some entry.2)
    (hfile : t.lstat site.links site.root (recordPath patchId "disposition.json") =
      some (.file (dispositionRecord patchId verdict recordedAt live note)))
    (hstamp : site.strictUtc (some (.str recordedAt)) (patchId ++ " disposition time") = .ok recordedAt) :
    site.loadDisposition t receipt = .ok (receipt.withDisposition verdict recordedAt live note) := by
  obtain rfl := hid
  have hread := readJson_json hfile (by simp)
  have hscope : ∀ entry ∈ live, site.canonicalTargetPath t entry.1 = .ok entry.1 ∧
      (receipt.paths.lookup entry.1).isSome = true ∧ sha256? (some (digestJson entry.2)) = some entry.2 := by
    intro entry hmem
    have hkey : entry.1 ∈ receipt.paths.map Prod.fst := hkeys ▸ List.mem_map_of_mem hmem
    obtain ⟨declared, hdecl, heq⟩ := List.mem_map.mp hkey
    refine ⟨?_, ?_, hdigests entry hmem⟩
    · rw [← heq]
      exact (decodePath_iff.mp (hdeclared.declares declared hdecl)).1
    · rw [← heq]
      exact lookup_isSome_of_mem hdecl
  simp only [Site.loadDisposition, bind_eq_ok]
  refine ⟨_, hread, ?_⟩
  simp only [bind_eq_ok, requireObject_eq_ok, require_eq_ok, requireSome_eq_ok, pure_eq_ok]
  refine ⟨_, rfl, (), beq_self_eq_true _, verdict, verdict?_name verdict, (), ?_, recordedAt, hstamp, _, rfl,
    live, ?_, (), sameKeys_of_keys hkeys, rfl⟩
  · rw [happlied]
    decide
  · have hdecode : site.decodeDisposition t receipt (live.map fun (rel, digest) => (rel, digestJson digest)) [] =
        .ok ([] ++ live) :=
      decodeDisposition_again (by rw [List.nil_append, hkeys]; exact hdeclared.nodup) hscope
    exact hdecode

end Saipen.XPatch
