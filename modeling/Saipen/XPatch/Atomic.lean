import Saipen.XPatch.Records

/-! # All or nothing

An operation that is staged writes its paths one after the other, and what stops it is found only on
the way. It is all or nothing exactly when its first path is refused, or when nothing can stop it. -/

namespace Saipen.XPatch

open Checks DurableState LinkTree Prog

variable {site : Site} {t u x : Disk} {patchId now : String} {steps : List Step} {k : Op Reply}
  {reply : Reply} {raised : Raised}

/-- An operation ends in what it is for, or it refuses and every file is as it was. -/
def AllOrNothing (m : Op Reply) (t : Disk) (Done : Reply → Disk → Prop) : Prop :=
  (∃ reply u, m.Yields t reply u ∧ Done reply u) ∨
    ∃ u, ((∃ raised, m.Raises t raised u) ∨ ∃ detail, m.Yields t (.targetDrift detail) u) ∧
      Tree.SameFiles t u

/-- The first declared path cannot be written or deleted. -/
def RefusedAtOnce (site : Site) (t : Disk) (steps : List Step) : Prop :=
  ∃ step rest, steps = step :: rest ∧ t.edit site.links site.root (edit step) = none

theorem perform_raises_cases (h : (site.perform steps).Raises t raised x) :
    RefusedAtOnce site t steps ∧ Tree.Grown t x ∨
      ∃ pre post u, pre ≠ [] ∧ steps = pre ++ post ∧
        t.edits site.links site.root (pre.map edit) = some u ∧ Tree.Grown u x := by
  obtain ⟨pre, step, post, u, rfl, hpre, hrefused, hgrown⟩ := perform_raises h
  cases pre with
  | nil =>
    obtain rfl := Option.some.inj hpre
    exact .inl ⟨⟨step, post, rfl, hrefused⟩, hgrown⟩
  | cons first pre => exact .inr ⟨first :: pre, step :: post, u, by simp, rfl, hpre, hgrown⟩

/-- Steps the first of which is refused raise, and leave the files. -/
theorem refusedAtOnce_raises (h : RefusedAtOnce site t steps) :
    ∃ raised u, (site.perform steps).Raises t raised u ∧ Tree.Grown t u := by
  obtain ⟨step, rest, rfl, hrefused⟩ := h
  rcases yields_or_raises (site.perform (step :: rest)) t with ⟨_, u, hyields⟩ | ⟨raised, u, hraises⟩
  · obtain ⟨v, hv, -⟩ := Tree.edits_cons.mp (perform_yields.mp hyields)
    rw [hrefused] at hv
    cases hv
  · refine ⟨raised, u, hraises, ?_⟩
    rcases perform_raises_cases hraises with ⟨-, hgrown⟩ | ⟨pre, post, v, hne, hsplit, hpre, -⟩
    · exact hgrown
    · cases pre with
      | nil => exact absurd rfl hne
      | cons first pre =>
        obtain ⟨rfl, -⟩ := List.cons.inj hsplit
        obtain ⟨w, hw, -⟩ := Tree.edits_cons.mp hpre
        rw [hrefused] at hw
        cases hw

/-- Once a step is performed, the files are no longer what they were. -/
theorem not_sameFiles_of_edits {pre post : List Step} (hsplit : steps = pre ++ post) (hne : pre ≠ [])
    (hheld : t.Held site.links site.root (steps.map edit)) (hfresh : t.Fresh site.root (steps.map edit))
    (hpre : t.edits site.links site.root (pre.map edit) = some u) (hgrown : Tree.Grown u x) :
    ¬ Tree.SameFiles t x := by
  subst hsplit
  rw [List.map_append] at hheld hfresh
  have hheld' : t.Held site.links site.root (pre.map edit) :=
    fun path hmem => hheld path (List.mem_append_left _ hmem)
  have hfresh' : t.Fresh site.root (pre.map edit) :=
    fun path content hmem => hfresh path content (List.mem_append_left _ hmem)
  intro hsame
  refine (Tree.ran_of_edits hheld' hpre).changed hheld' hfresh' ?_ (hsame.trans hgrown.sameFiles.symm)
  rwa [ne_eq, List.map_eq_nil_iff]

/-- **Steps, and what records them.** The whole is all or nothing exactly when the first step is
refused, or all steps are performed and recorded. -/
theorem seq_allOrNothing_iff {Done : Reply → Disk → Prop}
    (hraises : ∀ u raised x, k.Raises u raised x → Tree.Grown u x)
    (hdrift : ∀ u detail x, ¬ k.Yields u (.targetDrift detail) x) (hne : steps ≠ [])
    (hheld : t.Held site.links site.root (steps.map edit)) (hfresh : t.Fresh site.root (steps.map edit)) :
    AllOrNothing (do site.perform steps; k) t Done ↔ RefusedAtOnce site t steps ∨
      ∃ u reply x, t.edits site.links site.root (steps.map edit) = some u ∧ k.Yields u reply x ∧
        Done reply x := by
  constructor
  · rintro (⟨reply, x, hyields, hdone⟩ | ⟨x, hrefuses, hsame⟩)
    · obtain ⟨u, hperform, hk⟩ := yields_seq.mp hyields
      exact .inr ⟨u, reply, x, perform_yields.mp hperform, hk, hdone⟩
    · rcases hrefuses with ⟨raised, hraised⟩ | ⟨detail, hyields⟩
      · rcases raises_bind.mp hraised with hraised | ⟨_, u, hperform, hraised⟩
        · rcases perform_raises_cases hraised with ⟨hrefused, -⟩ | ⟨pre, post, u, hpre, hsplit, hu, hgrown⟩
          · exact .inl hrefused
          · exact absurd hsame (not_sameFiles_of_edits hsplit hpre hheld hfresh hu hgrown)
        · exact absurd hsame (not_sameFiles_of_edits (List.append_nil steps).symm hne hheld hfresh
            (perform_yields.mp hperform) (hraises u raised x hraised))
      · obtain ⟨u, -, hk⟩ := yields_seq.mp hyields
        exact absurd hk (hdrift u detail x)
  · rintro (hrefused | ⟨u, reply, x, hsteps, hk, hdone⟩)
    · obtain ⟨raised, u, hraised, hgrown⟩ := refusedAtOnce_raises hrefused
      exact .inr ⟨u, .inl ⟨raised, raises_bind.mpr (.inl hraised)⟩, hgrown.sameFiles⟩
    · exact .inl ⟨reply, x, yields_seq.mpr ⟨u, perform_yields.mpr hsteps, hk⟩, hdone⟩

/-- A plan that refuses is nothing. -/
theorem allOrNothing_of_raise {Done : Reply → Disk → Prop} : AllOrNothing (Prog.raise raised) t Done :=
  .inr ⟨t, .inl ⟨raised, raises_raise.mpr ⟨rfl, rfl⟩⟩, .refl t⟩

/-- So is a plan that finds drift. -/
theorem allOrNothing_of_drift {Done : Reply → Disk → Prop} {detail : String} :
    AllOrNothing (pure (.targetDrift detail)) t Done :=
  .inr ⟨t, .inr ⟨detail, yields_pure.mpr ⟨rfl, rfl⟩⟩, .refl t⟩

theorem allOrNothing_congr {m m' : Op Reply} {Done : Reply → Disk → Prop} (h : m t = m' t) :
    AllOrNothing m t Done ↔ AllOrNothing m' t Done := by
  simp only [AllOrNothing, yields_congr h, raises_congr h]

/-! ### Records -/

theorem writeBytes_raises_grown {path : LinkTree.Path} {content : Content}
    (h : (site.writeBytes path content).Raises t raised x) : Tree.Grown t x := by
  obtain ⟨-, rfl | hensure⟩ := writeBytes_raises h
  · exact .refl x
  · exact (Tree.ensure_spec hensure).grown

theorem writeBytes_return_yields {path : LinkTree.Path} {content : Content} {answer : Reply} :
    (do site.writeBytes path content; return answer : Op Reply).Yields t reply x ↔
      t.write site.root path content = some x ∧ answer = reply := by
  rw [yields_seq]
  constructor
  · rintro ⟨u, hwrite, hreturn⟩
    obtain ⟨rfl, rfl⟩ := yields_pure.mp hreturn
    exact ⟨writeBytes_yields.mp hwrite, rfl⟩
  · rintro ⟨hwrite, rfl⟩
    exact ⟨x, writeBytes_yields.mpr hwrite, yields_pure.mpr ⟨rfl, rfl⟩⟩

theorem writeBytes_return_raises {path : LinkTree.Path} {content : Content} {answer : Reply}
    (h : (do site.writeBytes path content; return answer : Op Reply).Raises t raised x) :
    Tree.Grown t x := by
  rcases raises_bind.mp h with h | ⟨_, u, -, h⟩
  · exact writeBytes_raises_grown h
  · exact absurd h raises_pure

/-- Declared paths and a record are proper edits. -/
theorem proper_concat {paths : List (String × PathSpec)} {old new : PathSpec → Option String} {name : String}
    {content : Content} (hmoves : Moves site t old new paths steps) (hdeclared : Declared site t paths)
    (hid : isPatchId patchId = true) (hname : name ≠ "..") :
    Tree.Proper (steps.map edit ++ [(recordPath patchId name, some content)]) := by
  have hproper := hmoves.proper hdeclared
  refine ⟨?_, ?_, ?_⟩
  · rw [List.map_append, List.map_singleton, List.nodup_append]
    refine ⟨hproper.nodup, List.nodup_singleton _, ?_⟩
    rintro path hmem _ hlast rfl
    obtain ⟨e, he, heq⟩ := List.mem_map.mp hmem
    obtain ⟨step, hstep, rfl⟩ := List.mem_map.mp he
    refine (hmoves.canonical hdeclared hstep).outside ?_
    have hpath : segments step.1 = recordPath patchId name := heq.trans (List.mem_singleton.mp hlast)
    rw [hpath]
    rfl
  · intro e he
    rcases List.mem_append.mp he with he | he
    · exact hproper.up e he
    · rw [List.mem_singleton.mp he]
      simp [recordPath, receiptDir, (isPatchId_ne_up hid).symm, hname.symm]
  · intro e he
    rcases List.mem_append.mp he with he | he
    · exact hproper.ne e he
    · rw [List.mem_singleton.mp he]
      simp [recordPath]

/-! ### Applying -/

/-- The record a patch is applied with, as an edit. -/
def appliedEdit (patchId : String) (receipt : Receipt) (appliedAt : String) : Edit Content :=
  (recordPath patchId "applied.json", some (appliedRecord receipt appliedAt))

/-- Every declared path has the bytes of the payload, and the record says so. -/
def Applied (site : Site) (t : Disk) (patchId now : String) (reply : Reply) (u : Disk) : Prop :=
  ∃ receipt appliedAt steps,
    site.planApply t patchId now = .ok (receipt, appliedAt, .staged steps) ∧
    reply = .applied steps.length ∧ u.Lasts site.links site.root (steps.map edit) ∧
    u.node (site.root ++ recordPath patchId "applied.json") =
      some (.file (appliedRecord receipt appliedAt))

theorem held_concat {path : LinkTree.Path} {content : Content}
    (h : t.Held site.links site.root (steps.map edit)) :
    t.Held site.links site.root (steps.map edit ++ [(path, some content)]) := by
  intro rel hmem
  rcases List.mem_append.mp hmem with hmem | hlast
  · exact h rel hmem
  · cases List.mem_singleton.mp hlast

theorem lasts_concat {edits : List (Edit Content)} {e : Edit Content} :
    u.Lasts site.links site.root (edits ++ [e]) ↔
      u.Lasts site.links site.root edits ∧ u.file? site.links site.root e.1 = e.2 := by
  simp [Tree.Lasts, or_imp, forall_and]

/-- What `apply_proposal` runs when it is staged. -/
theorem writePatch_yields {receipt : Receipt} {appliedAt : String} :
    (site.writePatch patchId receipt appliedAt steps).Yields t reply x ↔
      t.edits site.links site.root (steps.map edit ++ [appliedEdit patchId receipt appliedAt]) = some x ∧
        reply = .applied steps.length := by
  rw [Site.writePatch, yields_seq, Tree.edits_concat]
  simp only [perform_yields, writeBytes_return_yields]
  constructor
  · rintro ⟨u, hsteps, hwrite, rfl⟩
    exact ⟨⟨u, hsteps, hwrite⟩, rfl⟩
  · rintro ⟨⟨u, hsteps, hwrite⟩, rfl⟩
    exact ⟨u, hsteps, hwrite, rfl⟩

/-- **Applying is all or nothing** exactly when the first declared path is refused, or the declared
paths and the record do not clash. -/
theorem applyProposal_allOrNothing_iff :
    AllOrNothing (site.applyProposal patchId now) t (Applied site t patchId now) ↔
      ∀ receipt appliedAt steps,
        site.planApply t patchId now = .ok (receipt, appliedAt, .staged steps) →
          RefusedAtOnce site t steps ∨ t.Clear site.links site.root
            (steps.map edit ++ [appliedEdit patchId receipt appliedAt]) := by
  rw [allOrNothing_congr (applyProposal_run site patchId now t)]
  rcases hplan : site.planApply t patchId now with raised | ⟨receipt, appliedAt, rel | steps⟩
  · exact iff_of_true allOrNothing_of_raise fun _ _ _ h => by cases h
  · exact iff_of_true allOrNothing_of_drift fun _ _ _ h => by cases h
  · have hp := planApply_staged hplan
    have hloaded := loadReceipt_loaded hp.loads
    have hheld := hp.moves.held hp.differ
    have hproper : Tree.Proper (steps.map edit ++ [appliedEdit patchId receipt appliedAt]) :=
      proper_concat hp.moves hloaded.declared hloaded.grammar (by decide)
    have hclear := Tree.edits_iff_clear hloaded.isDir hproper (held_concat hheld)
    have hwhole : AllOrNothing (site.writePatch patchId receipt appliedAt steps) t
        (Applied site t patchId now) ↔ RefusedAtOnce site t steps ∨
          t.Clear site.links site.root (steps.map edit ++ [appliedEdit patchId receipt appliedAt]) := by
      rw [← hclear, Site.writePatch, seq_allOrNothing_iff (fun _ _ _ => writeBytes_return_raises)
        (fun u detail x h => by cases (writeBytes_return_yields.mp h).2)
        (hp.moves.ne hloaded.declared.ne) hheld (hp.moves.fresh hloaded.declared hp.differ)]
      refine or_congr Iff.rfl ⟨?_, ?_⟩
      · rintro ⟨u, reply, x, hsteps, hwrite, receipt', appliedAt', steps', hplan', -, hlasts, hrecord⟩
        obtain ⟨rfl, rfl, rfl⟩ := by simpa using hplan.symm.trans hplan'
        have hwrite := (writeBytes_return_yields.mp hwrite).1
        have hplace : x.place site.links site.root (recordPath patchId "applied.json") =
            some (site.root ++ recordPath patchId "applied.json") :=
          Tree.place_owned (Tree.write_spec hwrite).owned
            (up_notMem_recordPath hloaded.grammar (by decide))
        exact ⟨x, Tree.edits_concat.mpr ⟨u, hsteps, hwrite⟩,
          lasts_concat.mpr ⟨hlasts, (Tree.file?_of_place hplace).mpr hrecord⟩⟩
      · rintro ⟨x, hsteps, hlasts⟩
        obtain ⟨hlasts, hrecord⟩ := lasts_concat.mp hlasts
        obtain ⟨u, hsteps, hwrite⟩ := Tree.edits_concat.mp hsteps
        exact ⟨u, _, x, hsteps, writeBytes_return_yields.mpr ⟨hwrite, rfl⟩, receipt, appliedAt, steps,
          hplan, rfl, hlasts, (Tree.write_spec hwrite).self⟩
    refine hwhole.trans ⟨fun h receipt' appliedAt' steps' heq => ?_, fun h => h receipt appliedAt steps rfl⟩
    obtain ⟨rfl, rfl, rfl⟩ := by simpa using heq
    exact h

/-! ### Reverting what was applied -/

variable {n : ℕ}

/-- What a successful `apply_proposal` leaves: its steps, and the record written behind them. -/
theorem applyProposal_yields (h : (site.applyProposal patchId now).Yields t (.applied n) u) :
    ∃ receipt appliedAt steps v, ApplyPlan site t patchId now receipt appliedAt steps ∧
      t.edits site.links site.root (steps.map edit) = some v ∧
      Tree.Written v u site.root (recordPath patchId "applied.json") (appliedRecord receipt appliedAt) := by
  rw [yields_congr (applyProposal_run site patchId now t)] at h
  rcases hplan : site.planApply t patchId now with raised | ⟨receipt, appliedAt, rel | steps⟩
  · rw [hplan] at h
    exact absurd h yields_raise
  · rw [hplan] at h
    cases (yields_pure.mp h).1
  · rw [hplan] at h
    obtain ⟨v, hsteps, hwrite⟩ := Tree.edits_concat.mp (writePatch_yields.mp h).1
    exact ⟨receipt, appliedAt, steps, v, planApply_staged hplan, hsteps, Tree.write_spec hwrite⟩

/-- A tree behind a successful `apply_proposal`. -/
structure Behind (site : Site) (t : Disk) (patchId : String) (u : Disk) : Prop where
  owned : OwnedReceipt site u patchId
  spelled : ∀ receipt, site.loadReceipt u patchId = .ok receipt → ∀ declared ∈ receipt.paths,
    declared.2.after ≠ none → Tree.Owned u site.root (segments declared.1)

/-- A receipt loads with its declarations behind the steps, or not at all. -/
theorem paths_behind {receipt receipt' : Receipt} {v : Disk} {content : Content}
    (hload : site.loadReceipt t patchId = .ok receipt)
    (hran : t.Ran site.links site.root (steps.map edit) v)
    (hcanonical : ∀ step ∈ steps, Canonical step.1)
    (hwritten : Tree.Written v u site.root (recordPath patchId "applied.json") content)
    (hload' : site.loadReceipt u patchId = .ok receipt') : receipt'.paths = receipt.paths := by
  have hid := (loadReceipt_loaded hload).grammar
  have hkeeps : Tree.Keeps t u := hran.edited.keeps.trans hwritten.keeps
  have howned : OwnedReceipt site u patchId := ownedReceipt_iff.mpr hwritten.owned
  simp only [Site.loadReceipt, bind_eq_ok] at hload hload'
  obtain ⟨intent, hintent, applied, happlied, hdisposition⟩ := hload
  obtain ⟨intent', hintent', applied', happlied', hdisposition'⟩ := hload'
  -- a file that the steps did not write was there before them
  have hold : ∀ q c, InRuntime site q → q ≠ site.root ++ recordPath patchId "applied.json" →
      u.node q = some (.file c) → t.node q = some (.file c) := by
    intro q c hq hne hfile
    refine hran.file_old (not_puts_inRuntime hcanonical hq) ?_
    rcases hwritten.other q hne with hsame | ⟨-, hdir, -⟩
    · rw [← hsame, hfile]
    · rw [hdir] at hfile
      cases hfile
  obtain ⟨⟨c₁, hread⟩, -⟩ := loadIntent_reads hintent
  obtain ⟨⟨c₂, hread'⟩, c₃, hidentity⟩ := loadIntent_reads hintent'
  have howned' : OwnedReceipt site t patchId :=
    howned.of_keeps hkeeps hid intent_ne_up (by rw [hread]; simp)
  have hintents : site.loadIntent u patchId = site.loadIntent t patchId := by
    refine loadIntent_congr hkeeps (lineage_congr ?_ ?_) ?_
    · rw [(loadIntent_loaded hintent).1.runtime, (loadIntent_loaded hintent').1.runtime]
    · rw [hidentity, hold _ c₃ (inRuntime_identity site) (by simp [identityRecord, recordPath, receiptDir]) hidentity]
    · rw [hread']
      rw [howned.lstat hid (by decide)] at hread'
      rw [howned'.lstat hid (by decide)]
      exact (hold _ c₂ (inRuntime_record site _ _) (by simp [recordPath]) hread').symm
  rw [hintents, hintent] at hintent'
  obtain rfl := Except.ok.inj hintent'
  rw [(loadDisposition_same hdisposition').2, (loadApplied_same happlied').2,
    (loadDisposition_same hdisposition).2, (loadApplied_same happlied).2]

theorem behind_of_applied (h : (site.applyProposal patchId now).Yields t (.applied n) u) :
    Behind site t patchId u := by
  obtain ⟨receipt, appliedAt, steps, v, hp, hsteps, hwritten⟩ := applyProposal_yields h
  have hdeclared := (loadReceipt_loaded hp.loads).declared
  have hran := Tree.ran_of_edits (hp.moves.held hp.differ) hsteps
  refine ⟨ownedReceipt_iff.mpr hwritten.owned, fun receipt' hload declared hmem hafter => ?_⟩
  rw [paths_behind hp.loads hran (fun step => hp.moves.canonical hdeclared) hwritten hload] at hmem
  obtain ⟨⟨_, body⟩, hstep, rfl, hbody⟩ := hp.moves.step_of_mem hmem
  cases body with
  | none => exact absurd hbody.symm hafter
  | some content =>
    exact (hran.owned _ content (mem_map_edit.mpr ⟨declared.1, hstep, rfl⟩)).keeps hwritten.keeps

/-- Every declared path is as it was in `t`, and the record says so. -/
def Restored (site : Site) (t u : Disk) (patchId : String) (reply : Reply) (x : Disk) : Prop :=
  ∃ receipt steps recordedAt live,
    site.planRevert u patchId = .ok (receipt, .staged steps) ∧ reply = .reverted steps.length ∧
    (∀ declared ∈ receipt.paths, x.file? site.links site.root (segments declared.1) =
      t.file? site.links site.root (segments declared.1)) ∧
    x.node (site.root ++ recordPath patchId "disposition.json") = some (.file
      (dispositionRecord patchId .reverted recordedAt live "reverted to recorded before-state"))

theorem recordDisposition_yields {verdict : Verdict} {note : String} :
    (site.recordDisposition patchId verdict now note).Yields u reply x ↔
      ∃ recordedAt live, site.planDisposition u patchId now = .ok (recordedAt, live) ∧
        u.write site.root (recordPath patchId "disposition.json")
          (dispositionRecord patchId verdict recordedAt live note) = some x ∧
        reply = .disposed verdict live := by
  rw [yields_congr (recordDisposition_run site patchId verdict now note u)]
  rcases site.planDisposition u patchId now with raised | ⟨recordedAt, live⟩
  · exact iff_of_false yields_raise (by simp)
  · constructor
    · intro h
      obtain ⟨hwrite, hreply⟩ := writeBytes_return_yields.mp h
      exact ⟨recordedAt, live, rfl, hwrite, hreply.symm⟩
    · rintro ⟨recordedAt', live', hplan, hwrite, rfl⟩
      obtain ⟨rfl, rfl⟩ := by simpa using hplan
      exact writeBytes_return_yields.mpr ⟨hwrite, rfl⟩

theorem recordDisposition_raises {verdict : Verdict} {note : String}
    (h : (site.recordDisposition patchId verdict now note).Raises u raised x) : Tree.Grown u x := by
  rw [raises_congr (recordDisposition_run site patchId verdict now note u)] at h
  cases hplan : site.planDisposition u patchId now with
  | error raised' =>
    rw [hplan] at h
    obtain ⟨-, rfl⟩ := raises_raise.mp h
    exact .refl u
  | ok plan =>
    rw [hplan] at h
    exact writeBytes_return_raises h

theorem planDisposition_ok {recordedAt : String} {live : List (String × Option String)} :
    site.planDisposition u patchId now = .ok (recordedAt, live) ↔
      ∃ receipt, site.loadReceipt u patchId = .ok receipt ∧ receipt.state ≠ .pending ∧
        site.strictUtc (some (.str now)) "recorded_at" = .ok recordedAt ∧
        live = receipt.paths.map fun declared => (declared.1, site.fileSha256 u declared.1) := by
  simp only [Site.planDisposition, bind_eq_ok, require_eq_ok, pure_eq_ok, bne_iff_ne]
  constructor
  · rintro ⟨receipt, hload, _, hstate, recordedAt', hstamp, heq⟩
    obtain ⟨rfl, rfl⟩ := Prod.mk.inj heq
    exact ⟨receipt, hload, hstate, hstamp, rfl⟩
  · rintro ⟨receipt, hload, hstate, hstamp, rfl⟩
    exact ⟨receipt, hload, (), hstate, recordedAt, hstamp, rfl⟩

section Behind

variable {receipt : Receipt} {v : Disk} {content : Content}

/-- Behind an apply a revert deletes where it is spelled. -/
theorem Behind.spelled_deletion (h : Behind site t patchId u) (hp : RevertPlan site u patchId receipt steps) :
    ∀ path, (path, none) ∈ steps.map edit →
      u.place site.links site.root path = some (site.root ++ path) := by
  intro path hmem
  obtain ⟨rel, hstep, rfl⟩ := mem_map_edit.mp hmem
  obtain ⟨declared, hdeclared, hrel, hbefore⟩ := hp.moves.declared_of_mem hstep
  have hafter : declared.2.after ≠ none := fun hnone =>
    hp.differ declared hdeclared (hnone.trans hbefore)
  have howned := h.spelled receipt hp.loads declared hdeclared hafter
  rw [← hrel] at howned
  exact Tree.place_owned howned (hp.moves.canonical (loadReceipt_loaded hp.loads).declared hstep).up

/-- A revert behind an apply removes nothing in the runtime directory. -/
theorem Behind.not_removes (h : Behind site t patchId u) (hp : RevertPlan site u patchId receipt steps)
    {q : LinkTree.Path} (hq : InRuntime site q) :
    ¬ u.Removes site.links site.root (steps.map edit) q := by
  rintro ⟨path, hmem, hplace⟩
  obtain rfl := Option.some.inj ((h.spelled_deletion hp path hmem).symm.trans hplace)
  obtain ⟨rel, hstep, rfl⟩ := mem_map_edit.mp hmem
  exact (hp.moves.canonical (loadReceipt_loaded hp.loads).declared hstep).not_inRuntime hq

/-- The receipt loads behind the steps of a revert as it did before them. -/
theorem Behind.loads (h : Behind site t patchId u) (hp : RevertPlan site u patchId receipt steps)
    (hran : u.Ran site.links site.root (steps.map edit) v) :
    site.loadReceipt v patchId = .ok receipt := by
  have hloaded := loadReceipt_loaded hp.loads
  have hkeeps := hran.edited.keeps
  have hsame : ∀ q, InRuntime site q → v.node q = u.node q := fun q hq =>
    node_inRuntime hran (fun step => hp.moves.canonical hloaded.declared) hq (h.not_removes hp hq)
  have hrecord : ∀ name, name ≠ ".." → v.lstat site.links site.root (recordPath patchId name) =
      u.lstat site.links site.root (recordPath patchId name) := by
    intro name hname
    rw [(h.owned.keeps hkeeps).lstat hloaded.grammar hname, h.owned.lstat hloaded.grammar hname]
    exact hsame _ (inRuntime_record site patchId name)
  have hload := hp.loads
  simp only [Site.loadReceipt, bind_eq_ok] at hload ⊢
  obtain ⟨intent, hintent, applied, happlied, hdisposition⟩ := hload
  have hid := (loadIntent_loaded hintent).1.patchId_eq
  refine ⟨intent, ?_, applied, ?_, ?_⟩
  · rw [loadIntent_congr hkeeps (lineage_congr (hsame _ (inRuntime_top site))
      (hsame _ (inRuntime_identity site))) (hrecord _ (by decide))]
    exact hintent
  · rw [loadApplied_congr hkeeps (by rw [hid]; exact hrecord _ (by decide))]
    exact happlied
  · rw [loadDisposition_congr hkeeps
      (by rw [(loadApplied_same happlied).1, hid]; exact hrecord _ (by decide))]
    exact hdisposition

/-- The record of the disposition finds room behind the steps of a revert. -/
theorem Behind.room (h : Behind site t patchId u) (hp : RevertPlan site u patchId receipt steps) :
    u.Room site.links site.root (steps.map edit) (recordPath patchId "disposition.json", some content) := by
  have hloaded := loadReceipt_loaded hp.loads
  refine ⟨h.not_removes hp (inRuntime_record site _ _), ?_, ?_, ?_⟩
  · rw [← h.owned.lstat hloaded.grammar (by decide)]
    exact disposition_free hp.loads hp.applied
  · intro e he _ hbelow'
    obtain ⟨step, hstep, rfl⟩ := List.mem_map.mp he
    obtain ⟨below, hbelow⟩ := hbelow'.trans (List.dropLast_prefix _)
    refine absurd ?_ (hp.moves.canonical hloaded.declared hstep).outside
    have hpath : segments step.1 = recordPath patchId "disposition.json" ++ below := hbelow.symm
    rw [hpath]
    rfl
  · intro pre hpre hne
    rw [recordPath, List.dropLast_concat] at hpre
    refine ⟨.inl (h.owned pre hpre hne), ?_⟩
    rintro e he - rfl
    obtain ⟨step, hstep, rfl⟩ := List.mem_map.mp he
    obtain ⟨below, hbelow⟩ := hpre
    refine absurd ?_ (hp.moves.canonical hloaded.declared hstep).outside
    have hfirst : (segments step.1 ++ below).head? = some ".saipen" := by
      show ((edit step).1 ++ below).head? = some ".saipen"
      rw [hbelow]
      rfl
    rwa [List.head?_append_of_ne_nil _ (segments_ne_nil step.1)] at hfirst

end Behind

/-- **Reverting is all or nothing.** Behind a successful `apply_proposal`, `revert` brings every
declared path back and records it, or refuses with every file as it was, exactly when its first path is
refused, or its time is strict, the paths do not clash, and the originals are what stood there. -/
theorem revert_allOrNothing_iff (h : Behind site t patchId u) :
    AllOrNothing (site.revert patchId now) u (Restored site t u patchId) ↔
      ∀ receipt steps, site.planRevert u patchId = .ok (receipt, .staged steps) →
        RefusedAtOnce site u steps ∨
          (∃ recordedAt, site.strictUtc (some (.str now)) "recorded_at" = .ok recordedAt) ∧
          u.Clear site.links site.root (steps.map edit) ∧
          ∀ step ∈ steps, t.file? site.links site.root (segments step.1) = step.2 := by
  rw [allOrNothing_congr (revert_run site patchId now u)]
  rcases hplan : site.planRevert u patchId with raised | ⟨receipt, rel | steps⟩
  · exact iff_of_true allOrNothing_of_raise fun _ _ h => by cases h
  · exact iff_of_true allOrNothing_of_drift fun _ _ h => by cases h
  · have hp := planRevert_staged hplan
    have hloaded := loadReceipt_loaded hp.loads
    have hheld := hp.moves.held hp.differ
    have hproper := hp.moves.proper hloaded.declared
    have hspelled := h.spelled_deletion hp
    have hwhole : AllOrNothing (site.writeBack patchId now steps) u (Restored site t u patchId) ↔
        RefusedAtOnce site u steps ∨
          (∃ recordedAt, site.strictUtc (some (.str now)) "recorded_at" = .ok recordedAt) ∧
          u.Clear site.links site.root (steps.map edit) ∧
          ∀ step ∈ steps, t.file? site.links site.root (segments step.1) = step.2 := by
      rw [Site.writeBack, seq_allOrNothing_iff (fun v raised x hraised => ?_)
        (fun v detail x hyields => ?_) (hp.moves.ne hloaded.declared.ne) hheld
        (hp.moves.fresh hloaded.declared hp.differ)]
      refine or_congr Iff.rfl ⟨?_, ?_⟩
      · rintro ⟨v, reply, x, hsteps, hends, receipt', steps', _, _, hplan', -, hback, -⟩
        obtain ⟨rfl, rfl⟩ := by simpa using hplan.symm.trans hplan'
        obtain ⟨_, w, hrecord, hreturn⟩ := yields_bind.mp hends
        obtain ⟨-, rfl⟩ := yields_pure.mp hreturn
        obtain ⟨recordedAt, live, hdisposition, hwrite, -⟩ := recordDisposition_yields.mp hrecord
        obtain ⟨-, -, -, hstamp, -⟩ := planDisposition_ok.mp hdisposition
        refine ⟨⟨recordedAt, hstamp⟩, ?_, fun step hstep => ?_⟩
        · exact Tree.clear_of_edits hproper hheld hsteps
            ((Tree.ran_of_edits hheld hsteps).lasts hproper hspelled)
        · have hran := Tree.ran_of_edits (held_concat hheld) (Tree.edits_concat.mpr ⟨v, hsteps, hwrite⟩)
          have hlasts := hran.lasts (proper_concat hp.moves hloaded.declared hloaded.grammar (by decide))
            fun path hmem => hspelled path (by simpa using hmem)
          obtain ⟨declared, hdeclared, heq, -⟩ := hp.moves.declared_of_mem hstep
          rw [heq, ← hback declared hdeclared, ← heq]
          exact hlasts (edit step) (List.mem_append_left _ (List.mem_map_of_mem hstep))
      · rintro ⟨⟨recordedAt, hstamp⟩, hclear, horiginal⟩
        obtain ⟨v, hsteps, hlasts⟩ := Tree.edits_of_clear hloaded.isDir hproper hheld hclear
        have hran := Tree.ran_of_edits hheld hsteps
        have hdisposition : site.planDisposition v patchId now =
            .ok (recordedAt, receipt.paths.map fun declared => (declared.1, site.fileSha256 v declared.1)) :=
          planDisposition_ok.mpr ⟨receipt, h.loads hp hran, by rw [hp.applied]; simp, hstamp, rfl⟩
        obtain ⟨x, hwrite, hlast⟩ := hran.write_room hheld
          (proper_concat hp.moves hloaded.declared hloaded.grammar (by decide)) hlasts hloaded.isDir
          (h.room hp)
        have hrecord : (site.recordDisposition patchId .reverted now
            "reverted to recorded before-state").Yields v _ x :=
          recordDisposition_yields.mpr ⟨recordedAt, _, hdisposition, hwrite, rfl⟩
        refine ⟨v, _, x, hsteps, yields_bind.mpr ⟨_, x, hrecord, yields_pure.mpr ⟨rfl, rfl⟩⟩, receipt, steps,
          recordedAt, _, hplan, rfl, fun declared hdeclared => ?_, (Tree.write_spec hwrite).self⟩
        obtain ⟨step, hstep, heq, -⟩ := hp.moves.step_of_mem hdeclared
        rw [← heq, horiginal step hstep]
        exact (lasts_concat.mp hlast).1 (edit step) (List.mem_map_of_mem hstep)
      · rcases raises_bind.mp hraised with hraised | ⟨_, w, -, hraised⟩
        · exact recordDisposition_raises hraised
        · exact absurd hraised raises_pure
      · obtain ⟨_, w, -, hreturn⟩ := yields_bind.mp hyields
        cases (yields_pure.mp hreturn).1
    refine hwhole.trans ⟨fun h receipt' steps' heq => ?_, fun h => h receipt steps rfl⟩
    obtain ⟨rfl, rfl⟩ := by simpa using heq
    exact h

/-- **All or nothing, in both directions.** -/
theorem patch_allOrNothing_iff (site : Site) (patchId now now' : String) (t : Disk) :
    (AllOrNothing (site.applyProposal patchId now) t (Applied site t patchId now) ↔
      ∀ receipt appliedAt steps,
        site.planApply t patchId now = .ok (receipt, appliedAt, .staged steps) →
          RefusedAtOnce site t steps ∨ t.Clear site.links site.root
            (steps.map edit ++ [appliedEdit patchId receipt appliedAt])) ∧
    ∀ n u, (site.applyProposal patchId now).Yields t (.applied n) u →
      (AllOrNothing (site.revert patchId now') u (Restored site t u patchId) ↔
        ∀ receipt steps, site.planRevert u patchId = .ok (receipt, .staged steps) →
          RefusedAtOnce site u steps ∨
            (∃ recordedAt, site.strictUtc (some (.str now')) "recorded_at" = .ok recordedAt) ∧
            u.Clear site.links site.root (steps.map edit) ∧
            ∀ step ∈ steps, t.file? site.links site.root (segments step.1) = step.2) :=
  ⟨applyProposal_allOrNothing_iff, fun _ _ h => revert_allOrNothing_iff (behind_of_applied h)⟩

/-- A patch that creates a file and another one below it. -/
def clashingDisk : Disk :=
  .ofEntries (sampleEntries
      [("a", ⟨none, some "559aead08264d5795d3909718cdd05abd49572e84fe55590eef31a88a08fdffd"⟩),
        ("a/b", ⟨none, some "df7e70e5021544f4834bbee64a9e3789febc4be81470df629cad6ddb03320a5c"⟩)]
      [("a", .str "QQ=="), ("a/b", .str "Qg==")] [("a", .null), ("a/b", .null)] [])
    (by decide)

/-- A patch that creates a file. -/
def creatingDisk : Disk :=
  .ofEntries (sampleEntries
      [("a", ⟨none, some "559aead08264d5795d3909718cdd05abd49572e84fe55590eef31a88a08fdffd"⟩)]
      [("a", .str "QQ==")] [("a", .null)] [])
    (by decide)

/-- Where a run that raised has changed a file, it was not all or nothing. -/
theorem not_allOrNothing {m : Op Reply} {Done : Reply → Disk → Prop} (hraised : (m t).result.isOk = false)
    (q : LinkTree.Path) (content : Content)
    (hfile : ((m t).final.node q = some (.file content)) ≠ (t.node q = some (.file content))) :
    ¬ AllOrNothing m t Done := by
  rintro (⟨reply, u, ⟨hresult, -⟩, -⟩ | ⟨u, hends, hsame⟩)
  · rw [hresult] at hraised
    cases hraised
  · have hfinal : (m t).final = u := by
      rcases hends with ⟨_, -, hfinal⟩ | ⟨_, -, hfinal⟩ <;> exact hfinal
    rw [hfinal] at hfile
    exact hfile (propext (hsame q content))

/-- The second creation is refused behind the first, and a revert that cannot be recorded has already
deleted what it was to delete. -/
theorem patch_stops_halfway :
    (¬ AllOrNothing (sampleSite.applyProposal "XP-000001" "2026-01-01T00:00:00Z") clashingDisk
      (Applied sampleSite clashingDisk "XP-000001" "2026-01-01T00:00:00Z")) ∧
    ∃ n u, (sampleSite.applyProposal "XP-000001" "2026-01-01T00:00:00Z").Yields creatingDisk (.applied n) u ∧
      ¬ AllOrNothing (sampleSite.revert "XP-000001" "later") u
        (Restored sampleSite creatingDisk u "XP-000001") := by
  refine ⟨not_allOrNothing (by decide +kernel) ["p", "a"] (.text "A") ?_, 1, _, ⟨by decide +kernel, rfl⟩,
    not_allOrNothing (by decide +kernel) ["p", "a"] (.text "A") ?_⟩
  · have hwritten : (sampleSite.applyProposal "XP-000001" "2026-01-01T00:00:00Z" clashingDisk).final.node
        ["p", "a"] = some (.file (.text "A")) := by decide +kernel
    have hbefore : clashingDisk.node ["p", "a"] = none := by decide +kernel
    simp [hwritten, hbefore]
  · have hbefore : (sampleSite.applyProposal "XP-000001" "2026-01-01T00:00:00Z" creatingDisk).final.node
        ["p", "a"] = some (.file (.text "A")) := by decide +kernel
    have hdeleted : (sampleSite.revert "XP-000001" "later" (sampleSite.applyProposal "XP-000001"
        "2026-01-01T00:00:00Z" creatingDisk).final).final.node ["p", "a"] = none := by decide +kernel
    simp [hbefore, hdeleted]

end Saipen.XPatch
