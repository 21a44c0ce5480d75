import Saipen.XPatch.Plans

/-! # The namespace boundary

A patch may write the declared paths and its own receipt. A declared path is written where it is
spelled, but it is deleted where it leads. -/

namespace Saipen.XPatch

open DurableState LinkTree Prog

variable {site : Site} {t u x : Disk} {patchId now : String} {p : LinkTree.Path} {steps : List Step}

/-- A place under `.saipen` that is not the receipt's own. -/
def Protected (site : Site) (patchId : String) (p : LinkTree.Path) : Prop :=
  site.root ++ [".saipen"] <+: p ∧ ¬ site.root ++ receiptDir patchId <+: p

instance (site : Site) (patchId : String) (p : LinkTree.Path) : Decidable (Protected site patchId p) :=
  inferInstanceAs (Decidable (_ ∧ _))

/-- Every file at a protected place is as it was. -/
def Untouched (site : Site) (patchId : String) (t u : Disk) : Prop :=
  ∀ p content, Protected site patchId p → t.node p = some (.file content) → u.node p = some (.file content)

theorem Untouched.refl (t : Disk) : Untouched site patchId t t := fun _ _ _ => id

theorem Untouched.trans (h : Untouched site patchId t u) (h' : Untouched site patchId u x) :
    Untouched site patchId t x := fun p content hp hfile => h' p content hp (h p content hp hfile)

theorem untouched_of_grown (h : Tree.Grown t u) : Untouched site patchId t u :=
  fun p content _ hfile => (h.sameFiles p content).mpr hfile

/-- No declared deletion leads to a protected place, unless a path declared before it cannot be
written or deleted. -/
def Spares (site : Site) (patchId : String) (t : Disk) (steps : List Step) : Prop :=
  ∀ pre rel post p, steps = pre ++ (rel, none) :: post →
    t.place site.links site.root (segments rel) = some p → Protected site patchId p →
    t.edits site.links site.root (pre.map edit) = none

/-- A canonical path is spelled outside the runtime namespace. -/
theorem Canonical.not_protected {rel : String} (h : Canonical rel) :
    ¬ Protected site patchId (site.root ++ segments rel) := by
  rintro ⟨hbelow, -⟩
  obtain ⟨rest, hrest⟩ := (List.prefix_append_right_inj _).mp hbelow
  refine h.outside ?_
  rw [← hrest]
  rfl

/-- The records of a receipt are its own. -/
theorem writeBytes_untouched {name : String} {content : Content}
    (h : (site.writeBytes (receiptDir patchId ++ [name]) content).Leaves t x) :
    Untouched site patchId t x := by
  rcases writeBytes_leaves h with rfl | hensure | hwrite
  · exact .refl x
  · exact untouched_of_grown (Tree.ensure_spec hensure).grown
  · intro p content' hp hfile
    have hother : p ≠ site.root ++ (receiptDir patchId ++ [name]) := by
      rintro rfl
      refine hp.2 ⟨[name], ?_⟩
      rw [List.append_assoc]
    rcases (Tree.write_spec hwrite).other p hother with hsame | ⟨hnone, -⟩
    · rw [hsame, hfile]
    · rw [hfile] at hnone
      cases hnone

/-- **One operation's steps.** Every tree the steps can leave has the protected files exactly when no
deletion among them leads to one. -/
theorem perform_untouched_iff (hheld : t.Held site.links site.root (steps.map edit))
    (hcanonical : ∀ step ∈ steps, Canonical step.1) :
    (∀ x, (site.perform steps).Leaves t x → Untouched site patchId t x) ↔
      Spares site patchId t steps := by
  constructor
  · rintro h pre rel post p rfl hplace hp
    by_contra hrun
    obtain ⟨u, hu⟩ := Option.ne_none_iff_exists'.mp hrun
    obtain ⟨c₀, hc₀⟩ := Option.ne_none_iff_exists'.mp (hheld (segments rel) (by simp [edit]))
    have hfile : t.node p = some (.file c₀) := (Tree.file?_of_place hplace).mp hc₀
    have hbefore : u.node p = some (.file c₀) := h u (perform_leaves_of_edits hu) p c₀ hp hfile
    have hran := Tree.ran_of_edits (fun path hmem => hheld path (by simp [hmem])) hu
    obtain ⟨v, hv⟩ := Tree.remove_isSome hbefore
    have hunlink : u.edit site.links site.root (edit (rel, none)) = some v :=
      Option.bind_eq_some_iff.mpr ⟨p, Tree.place_keeps hran.edited.keeps hplace, hv⟩
    have hpast : t.edits site.links site.root ((pre ++ [(rel, none)]).map edit) = some v := by
      rw [List.map_append]
      exact Tree.edits_concat.mpr ⟨u, hu, hunlink⟩
    have hleft : (site.perform (pre ++ (rel, none) :: post)).Leaves t v := by
      have hsplit : pre ++ (rel, none) :: post = (pre ++ [(rel, none)]) ++ post := by simp
      rw [hsplit]
      exact perform_leaves_of_edits hpast
    have hafter := h v hleft p c₀ hp hfile
    rw [(Tree.remove_spec hv).2, Function.update_self] at hafter
    cases hafter
  · intro hspares x hleaves p content hp hfile
    obtain ⟨done, rest, u, hsplit, hdone, hat⟩ := perform_leaves hleaves
    obtain ⟨before, after, rfl, rfl, rfl⟩ := List.map_eq_append_iff.mp hsplit
    have hran := Tree.ran_of_edits (fun path hmem => hheld path (by simp [hmem])) hdone
    have hremoves : ¬ t.Removes site.links site.root (before.map edit) p := by
      rintro ⟨path, hmem, hplace⟩
      obtain ⟨rel, hstep, rfl⟩ := mem_map_edit.mp hmem
      obtain ⟨pre, post, rfl⟩ := List.append_of_mem hstep
      rw [List.map_append] at hdone
      obtain ⟨v, hv, -⟩ := Tree.edits_append.mp hdone
      rw [hspares pre rel (post ++ after) p (by simp) hplace hp] at hv
      cases hv
    have hputs : ∀ c, ¬ Tree.Puts site.root (before.map edit) p c := by
      rintro c ⟨path, hmem, rfl⟩
      obtain ⟨rel, hstep, rfl⟩ := mem_map_edit.mp hmem
      exact (hcanonical _ (List.mem_append_left _ hstep)).not_protected hp
    rw [hat.grown.sameFiles p content]
    rcases hran.kept p hremoves hputs with hsame | ⟨hnone, -⟩
    · rw [hsame, hfile]
    · rw [hfile] at hnone
      cases hnone

/-! ### The operations -/

theorem writeBytes_bind_leaves_start {α : Type} {path : LinkTree.Path} {content : Content} (a : α) :
    (do site.writeBytes path content; return a : Op α).Leaves t t :=
  leaves_bind_left writeBytes_leaves_start fun _ => leaves_pure.mpr rfl

theorem recordDisposition_leaves_start {verdict : Verdict} {note : String} :
    (site.recordDisposition patchId verdict now note).Leaves t t := by
  rw [leaves_congr (recordDisposition_run site patchId verdict now note t)]
  rcases site.planDisposition t patchId now with raised | ⟨recordedAt, live⟩
  · exact leaves_raise.mpr rfl
  · exact writeBytes_bind_leaves_start _

theorem recordDisposition_untouched {verdict : Verdict} {note : String}
    (h : (site.recordDisposition patchId verdict now note).Leaves t x) :
    Untouched site patchId t x := by
  rcases recordDisposition_leaves h with rfl | ⟨recordedAt, live, -, hwrite⟩
  · exact .refl x
  · exact writeBytes_untouched hwrite

/-- What runs behind the steps and touches nothing that is protected. -/
theorem seq_untouched_iff {α : Type} {k : Op α} (hstart : ∀ u, k.Leaves u u)
    (hk : ∀ u x, k.Leaves u x → Untouched site patchId u x)
    (hheld : t.Held site.links site.root (steps.map edit))
    (hcanonical : ∀ step ∈ steps, Canonical step.1) :
    (∀ x, (do site.perform steps; k : Op α).Leaves t x → Untouched site patchId t x) ↔
      Spares site patchId t steps := by
  rw [← perform_untouched_iff hheld hcanonical]
  constructor
  · exact fun h x hx => h x (leaves_bind_left hx fun _ => hstart x)
  · intro h x hx
    rcases leaves_bind hx with hx | ⟨_, u, hperform, hx⟩
    · exact h x hx
    · exact (h u (leaves_of_yields hperform)).trans (hk u x hx)

/-- **The boundary of `apply_proposal`.** -/
theorem applyProposal_untouched_iff :
    (∀ x, (site.applyProposal patchId now).Leaves t x → Untouched site patchId t x) ↔
      ∀ receipt appliedAt steps,
        site.planApply t patchId now = .ok (receipt, appliedAt, .staged steps) →
          Spares site patchId t steps := by
  simp only [leaves_congr (applyProposal_run site patchId now t)]
  rcases hplan : site.planApply t patchId now with raised | ⟨receipt, appliedAt, rel | steps⟩
  · simp [leaves_raise, Untouched.refl]
  · simp [leaves_pure, Untouched.refl]
  · have hp := planApply_staged hplan
    have hdeclared := (loadReceipt_loaded hp.loads).declared
    have hiff : (∀ x, (site.writePatch patchId receipt appliedAt steps).Leaves t x →
        Untouched site patchId t x) ↔ Spares site patchId t steps := seq_untouched_iff
      (fun _ => writeBytes_bind_leaves_start _)
      (fun _ _ hx => writeBytes_untouched (writeBytes_return_leaves hx))
      (hp.moves.held hp.differ) (fun step => hp.moves.canonical hdeclared)
    refine hiff.trans ⟨fun h receipt' appliedAt' steps' heq => ?_, fun h => h receipt appliedAt steps rfl⟩
    obtain ⟨rfl, rfl, rfl⟩ := by simpa using heq
    exact h

/-- **The boundary of `revert`.** -/
theorem revert_untouched_iff :
    (∀ x, (site.revert patchId now).Leaves t x → Untouched site patchId t x) ↔
      ∀ receipt steps, site.planRevert t patchId = .ok (receipt, .staged steps) →
        Spares site patchId t steps := by
  simp only [leaves_congr (revert_run site patchId now t)]
  rcases hplan : site.planRevert t patchId with raised | ⟨receipt, rel | steps⟩
  · simp [leaves_raise, Untouched.refl]
  · simp [leaves_pure, Untouched.refl]
  · have hp := planRevert_staged hplan
    have hdeclared := (loadReceipt_loaded hp.loads).declared
    have hiff : (∀ x, (site.writeBack patchId now steps).Leaves t x → Untouched site patchId t x) ↔
        Spares site patchId t steps := seq_untouched_iff
      (fun _ => leaves_bind_left recordDisposition_leaves_start fun _ => leaves_pure.mpr rfl)
      (fun u x hx => by
        rcases leaves_bind hx with hx | ⟨_, v, hrecord, hx⟩
        · exact recordDisposition_untouched hx
        · obtain rfl := leaves_pure.mp hx
          exact recordDisposition_untouched (leaves_of_yields hrecord))
      (hp.moves.held hp.differ) (fun step => hp.moves.canonical hdeclared)
    refine hiff.trans ⟨fun h receipt' steps' heq => ?_, fun h => h receipt steps rfl⟩
    obtain ⟨rfl, rfl⟩ := by simpa using heq
    exact h

/-- **The boundary.** In whatever tree `apply_proposal` or `revert` can be left, every file under
`.saipen` other than the receipt's own is as it was, exactly when no path it deletes leads to one. -/
theorem protocol_files_kept_iff (site : Site) (patchId now : String) (t : Disk) :
    ((∀ x, (site.applyProposal patchId now).Leaves t x → Untouched site patchId t x) ↔
      ∀ receipt appliedAt steps,
        site.planApply t patchId now = .ok (receipt, appliedAt, .staged steps) →
          Spares site patchId t steps) ∧
    ((∀ x, (site.revert patchId now).Leaves t x → Untouched site patchId t x) ↔
      ∀ receipt steps, site.planRevert t patchId = .ok (receipt, .staged steps) →
        Spares site patchId t steps) :=
  ⟨applyProposal_untouched_iff, revert_untouched_iff⟩

/-! ### Sample projects -/

/-- A project at `/p`, with the digests and the base64 texts of a few small files. -/
def sampleSite : Site where
  root := ["p"]
  links := 40
  sha256 content :=
    if content = .text "A" then "559aead08264d5795d3909718cdd05abd49572e84fe55590eef31a88a08fdffd"
    else if content = .text "B" then "df7e70e5021544f4834bbee64a9e3789febc4be81470df629cad6ddb03320a5c"
    else if content = .text "phase: PLAN\n" then
      "a4bd789d11a9e8ba1a2ab82a062a52a9ac57e7c2289bef63e47851577dc2db52"
    else ""
  decode64 text :=
    if text = "QQ==" then some (.text "A") else if text = "Qg==" then some (.text "B")
    else if text = "cGhhc2U6IFBMQU4K" then some (.text "phase: PLAN\n") else none
  size _ := 0
  strictIsoUtc text := if text = "2026-01-01T00:00:00Z" then some text else none
  strictIsoUtc_canonical := by
    intro s c h
    split at h
    · next hs =>
      obtain rfl := Option.some.inj h
      exact if_pos hs
    · cases h
  repr := Text.quote

/-- The project with a receipt for some paths, and further files. -/
def sampleEntries (paths : List (String × PathSpec)) (contents originals : Dict)
    (files : List (LinkTree.Path × Node Content)) : List (LinkTree.Path × Node Content) :=
  [(["p"], .dir), (["p", ".saipen"], .dir),
    (["p", ".saipen", "IDENTITY.md"],
      .file (.text (identityFileContent "lineage-0123456789abcdef0123456789abcdef"))),
    (["p", ".saipen", "exchange"], .dir), (["p", ".saipen", "exchange", "xpatch"], .dir),
    (["p", ".saipen", "exchange", "xpatch", "XP-000001"], .dir),
    (["p", ".saipen", "exchange", "xpatch", "XP-000001", "intent.json"],
      .file (.json (.obj
        [("schema", .int 1), ("patch_id", .str "XP-000001"), ("mode", .str "proposal"),
          ("source", .obj [("project_lineage", .str "lineage-fedcba9876543210fedcba9876543210"),
            ("work_id", .str "T-1"), ("agent", .str "agent")]),
          ("target", .obj [("project_lineage", .str "lineage-0123456789abcdef0123456789abcdef")]),
          ("reason", .str "fix"), ("paths", pathsJson paths), ("verification", .arr []),
          ("created_at", .str "2026-01-01T00:00:00Z")]))),
    (["p", ".saipen", "exchange", "xpatch", "XP-000001", "payload.json"],
      .file (.json (.obj [("contents", .obj contents), ("originals", .obj originals)])))] ++ files

/-- A project with a directory link into its runtime, and a patch that deletes a path behind it. -/
def linkedDisk : Disk :=
  .ofEntries (sampleEntries
      [("lnk/STATE.md",
        ⟨some "a4bd789d11a9e8ba1a2ab82a062a52a9ac57e7c2289bef63e47851577dc2db52", none⟩)]
      [("lnk/STATE.md", .null)] [("lnk/STATE.md", .str "cGhhc2U6IFBMQU4K")]
      [(["p", ".saipen", "STATE.md"], .file (.text "phase: PLAN\n")), (["p", "lnk"], .link ⟨false, [".saipen"]⟩)])
    (by decide)

/-- A declared deletion behind the link deletes the state of the project. -/
theorem linked_deletion_reaches_state :
    ¬ ∀ x, (sampleSite.applyProposal "XP-000001" "2026-01-01T00:00:00Z").Leaves linkedDisk x →
      Untouched sampleSite "XP-000001" linkedDisk x := by
  intro h
  have hfinal := h _ (.inr rfl) ["p", ".saipen", "STATE.md"] (.text "phase: PLAN\n") (by decide) (by decide)
  have hgone : (sampleSite.applyProposal "XP-000001" "2026-01-01T00:00:00Z" linkedDisk).final.node
      ["p", ".saipen", "STATE.md"] = none := by decide +kernel
  rw [hgone] at hfinal
  cases hfinal

end Saipen.XPatch
