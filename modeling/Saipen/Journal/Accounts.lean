import Saipen.Journal.RollForward

/-! # What recovery changes

Recovery decides once, from the bytes on disk, and then rolls forward. Whatever it has changed when
it ends or crashes is accounted for: a leaf of the project that differs stood at the recorded
before-state of a target of the plan, a directory that is gone was a directory target, and every
other verdict leaves the project alone. -/

namespace Saipen

open FileTree DurableState Checks

variable {env : Environment} {j : Journal} {d d' : Disk}

/-- The two projects agree at every path outside the journal directories. -/
def SameProject (d t : Disk) : Prop := ∀ q, Outside q → probe q t = probe q d

theorem SameProject.refl (d : Disk) : SameProject d d := fun _ _ => rfl

theorem sameProject_blind (d : Disk) : BlindToJournals (SameProject d) :=
  fun _ hp _ _ _ _ ht hs q hq => (probe_alter_of_apart ht (hq.apart hp)).trans (hs q hq)

theorem liveHash_congr {t : TargetRecord}
    (h : probe (applyPath env t.path) d' = probe (applyPath env t.path) d) :
    liveHash env d' t = liveHash env d t := by
  unfold liveHash
  unfold applyPath at h
  cases hp : ownedTargetPath env t.path with
  | none => rfl
  | some p =>
    rw [hp, Option.getD_some] at h
    simp only [targetLiveHash, h]

/-! ### The journal during the loop -/

/-- The entries of the journal directory but for the sidecar. -/
def Journal.SameEvidence (j : Journal) (d t : Disk) : Prop :=
  ∀ name, name ≠ "progress.json" → probe (j.dir ++ [name]) t = probe (j.dir ++ [name]) d

theorem Journal.SameEvidence.stagedContent (h : j.SameEvidence d d') (index : ℕ) (path : String) :
    j.stagedContent env index path d' = j.stagedContent env index path d := by
  have hlook (name : String) (hne : name ≠ "progress.json") :
      (j.files d').lookup name = (j.files d).lookup name := by
    rw [j.files_lookup, j.files_lookup, h name hne]
  unfold Journal.stagedContent
  cases ownedTargetPath env path with
  | none => rfl
  | some canonical =>
    simp only [hlook _ (stagedName_ne env index (posix canonical) (by decide))]
    split_ifs with hs
    · rw [hlook _ (stagedName_ne env index (posix canonical) (by decide))]
    · rw [hlook _ (legacyStagedName_ne index path (by decide))]

/-- A decoded record lies in a directory. -/
theorem Journal.isDirAt_of_decode {fold : Bool} {r : Record} (h : j.decode env fold d = .ok r) :
    IsDirAt j.dir d := by
  obtain ⟨raw, base, progress, hraw, -⟩ := decodeEntry_eq_ok.mp h
  unfold Journal.files dirEntries at hraw
  split at hraw
  · next es hes => exact ⟨es, hes⟩
  · cases hraw

/-- The sidecar is not at or above a path, so the path keeps its directory when it is written. -/
theorem stableAt_isDirAt {p q : Path} (h : ¬ q <+: p) : StableAt (IsDirAt p) q := by
  intro mk f s t ht hs
  rcases path_cases p q with rfl | hap | ⟨a, r, rfl⟩ | ⟨a, r, rfl⟩
  · exact absurd List.prefix_rfl h
  · exact (isDirAt_congr (probe_alter_of_apart ht hap)).mpr hs
  · exact (isDirAt_of_alter_below ht).1
  · exact absurd (List.prefix_append _ _) h

/-- No target lies in the directory of the operation itself. -/
def Journal.OwnDirectory (env : Environment) (j : Journal) (r : Record) : Prop :=
  ∀ t ∈ r.targets, ¬ j.dir <+: applyPath env t.path

/-- A step that is carried out is apart from a journal directory that its path is not in. -/
theorem Journal.CarriesOut.apart {index : ℕ} {t : TargetRecord} (h : j.CarriesOut env index t d d')
    (hdir : IsDirAt j.dir d) (hown : ¬ j.dir <+: applyPath env t.path) :
    Apart j.dir (applyPath env t.path) := by
  obtain ⟨mk, f, hf, ha⟩ := h.gentle
  rcases path_cases j.dir (applyPath env t.path) with heq | hap | ⟨a, r, heq⟩ | ⟨a, r, heq⟩
  · exact absurd (heq ▸ List.prefix_rfl) hown
  · exact hap
  · exact absurd (heq ▸ List.prefix_append _ _) hown
  · -- a gentle change refuses a directory that holds the journal
    rw [heq] at hdir
    exact absurd hdir (probe_below_of_empty (hf.empty ha).1).2

/-! ### The invariant of the loop -/

/-- How far recovery from the frontier has come at an index: every leaf it changed is one of its
targets and stood at its before-state, every directory it removed is one of its targets, a
later target above one that was carried out is a directory, the evidence in the journal is
untouched, and the payloads written were the planned ones. -/
structure Journal.Progressed (env : Environment) (j : Journal) (d : Disk) (r : Record)
    (frontier i : ℕ) (u : Disk) : Prop where
  leaves : ∀ q, Outside q → leafAt q u ≠ leafAt q d → ∃ k t, r.targets[k]? = some t ∧
    frontier ≤ k ∧ k < i ∧ applyPath env t.path = q ∧ liveHash env d t = t.beforeHash
  directories : ∀ q, Outside q → IsDirAt q d → ¬ IsDirAt q u → ∃ k t, r.targets[k]? = some t ∧
    frontier ≤ k ∧ k < i ∧ applyPath env t.path = q ∧ t.targetAction = .deleteDir
  above : ∀ k m t owner, r.targets[k]? = some t → r.targets[m]? = some owner → frontier ≤ k →
    k < i → i ≤ m → Below env t owner → IsDirAt (applyPath env owner.path) u
  journal : IsDirAt j.dir u
  evidence : j.SameEvidence d u
  payloads : ∀ k t, r.targets[k]? = some t → frontier ≤ k → k < i → t.targetAction = .write →
    ∃ c, j.stagedContent env k t.path d = .ok c ∧ env.hashBytes c = t.afterHash

section Progressed

variable {r : Record} {frontier : ℕ}

/-- At the frontier nothing has changed. -/
theorem Journal.progressed_start (hsame : SameProject d d') (hev : j.SameEvidence d d')
    (hdir : IsDirAt j.dir d') : j.Progressed env d r frontier frontier d' where
  leaves := fun q hq hne => absurd (leafAt_congr (hsame q hq)) hne
  directories := fun q hq hd hnd => absurd ((isDirAt_congr (hsame q hq)).mpr hd) hnd
  above := fun k m t owner _ _ hk hlt _ _ => by omega
  journal := hdir
  evidence := hev
  payloads := fun k t _ hk hlt _ => by omega

/-- The invariant does not see the sidecar. -/
theorem Journal.progressed_mark (hj : InJournals j.dir) (hown : j.OwnDirectory env r) (i : ℕ) :
    StableAt (j.Progressed env d r frontier i) j.progressFile := by
  intro mk f s t ht hs
  have hout (q : Path) (hq : Outside q) : probe q t = probe q s :=
    probe_alter_of_apart ht (hq.apart (hj.append _))
  refine ⟨fun q hq hne => ?_, fun q hq hd hnd => ?_, fun k m u owner hu ho hk hlt hle hb => ?_,
    ?_, fun name hne => ?_, hs.payloads⟩
  · exact hs.leaves q hq (leafAt_congr (hout q hq) ▸ hne)
  · exact hs.directories q hq hd fun h => hnd ((isDirAt_congr (hout q hq)).mpr h)
  · refine stableAt_isDirAt (fun hp => ?_) mk f s t ht (hs.above k m u owner hu ho hk hlt hle hb)
    exact hown owner (List.mem_of_getElem? ho) ((List.prefix_append _ _).trans hp)
  · refine stableAt_isDirAt (fun hp => ?_) mk f s t ht hs.journal
    have hlen := hp.length_le
    simp [Journal.progressFile] at hlen
  · rw [probe_alter_of_apart ht (apart_sibling hne j.dir), hs.evidence name hne]

/-- A step of the plan advances the invariant. -/
theorem Journal.progressed_step (howned : r.Owned env) (hown : j.OwnDirectory env r)
    (hplain : ∀ t ∈ r.targets, PlainSpelling env t.path) (hclear : Unobstructed env d r)
    (hfrontier : frontier = prefixLength (classifications env d r.targets)) (i : ℕ)
    (t : TargetRecord) (u u' : Disk) (ht : r.targets[i]? = some t) (hi : frontier ≤ i)
    (hu : j.Progressed env d r frontier i u) (hstep : j.CarriesOut env i t u u') :
    j.Progressed env d r frontier (i + 1) u' := by
  obtain ⟨mk, f, hf, ha⟩ := hstep.gentle
  have hmem := List.mem_of_getElem? ht
  have hap := hstep.apart hu.journal (hown t hmem)
  refine ⟨fun q hq hne => ?_, fun q hq hd hnd => ?_, fun k m v owner hv ho hk hlt hle hb => ?_,
    ?_, fun name hne => ?_, fun k v hv hk hlt hw => ?_⟩
  · by_cases hqt : q = applyPath env t.path
    · subst hqt
      rcases hclear.pending hplain ht (hfrontier ▸ hi) with hbefore | ⟨k, v, hk, hv, hne', hb⟩
      · exact ⟨i, t, ht, hi, Nat.lt_succ_self i, rfl, hbefore⟩
      · -- a deferred target is a directory by now, and no leaf stands there before or after
        have hle : frontier ≤ k := hfrontier ▸ prefixLength_le_of_ne hne'
        have hdir := hu.above k i v t hv ht hle hk le_rfl hb
        have hgone := (hstep.of_isDirAt hdir).2
        have hsame : leafAt (applyPath env t.path) u' = leafAt (applyPath env t.path) u := by
          rw [leafAt_of_isDirAt hdir, leafAt, hgone]
        obtain ⟨m, w, hw, hm, hlt, hrest⟩ := hu.leaves _ hq (hsame ▸ hne)
        exact ⟨m, w, hw, hm, Nat.lt_succ_of_lt hlt, hrest⟩
    · rw [hf.leafAt ha hqt] at hne
      obtain ⟨m, w, hw, hm, hlt, hrest⟩ := hu.leaves q hq hne
      exact ⟨m, w, hw, hm, Nat.lt_succ_of_lt hlt, hrest⟩
  · by_cases hdu : IsDirAt q u
    · have hqt : q = applyPath env t.path := by
        by_contra hqt
        exact hnd (hf.isDirAt ha hqt hdu)
      subst hqt
      exact ⟨i, t, ht, hi, Nat.lt_succ_self i, rfl, (hstep.of_isDirAt hdu).1⟩
    · obtain ⟨m, w, hw, hm, hlt, hrest⟩ := hu.directories q hq hd hdu
      exact ⟨m, w, hw, hm, Nat.lt_succ_of_lt hlt, hrest⟩
  · rcases Nat.lt_succ_iff_lt_or_eq.mp hlt with hlt | rfl
    · have hdir := hu.above k m v owner hv ho hk hlt (Nat.le_of_succ_le hle) hb
      exact hf.isDirAt ha (howned.applyPath_ne ho ht (by omega)) hdir
    · -- the step was below the later target, which holds its parent now
      obtain rfl : t = v := Option.some.inj (ht.symm.trans hv)
      obtain ⟨a, rest, heq⟩ := hb
      rw [heq] at ha
      exact (isDirAt_of_alter_below ha).1
  · exact (isDirAt_congr (probe_alter_of_apart ha hap)).mpr hu.journal
  · rw [probe_alter_of_apart ha (hap.append_left [name]), hu.evidence name hne]
  · rcases Nat.lt_succ_iff_lt_or_eq.mp hlt with hlt | rfl
    · exact hu.payloads k v hv hk hlt hw
    · obtain rfl : t = v := Option.some.inj (ht.symm.trans hv)
      unfold Journal.CarriesOut at hstep
      rw [hw] at hstep
      obtain ⟨c, hc, hhash, -⟩ := hstep
      exact ⟨c, hu.evidence.stagedContent k t.path ▸ hc, hhash⟩

end Progressed

/-! ### What a run leaves -/

/-- The disk and the record recovery decides on: the ones it finds, or the ones a finished append
intent leaves. -/
inductive Journal.Decides (env : Environment) (j : Journal) (d : Disk) (r : Record) :
    Disk → Record → Prop
  | found (intent : (j.resumeIntent env).Yields d (.ok false) d) : Decides env j d r d r
  | resumed {d₁ r₁} (intent : (j.resumeIntent env).Yields d (.ok true) d₁)
      (decoded : j.decode env false d₁ = .ok r₁) : Decides env j d r d₁ r₁

/-- A target behind the frontier whose turn has come: the payload of every pending write up to it is
the planned one. -/
structure Journal.Reached (env : Environment) (j : Journal) (d : Disk) (r : Record)
    (frontier k : ℕ) (t : TargetRecord) : Prop where
  target : r.targets[k]? = some t
  pending : frontier ≤ k
  payloads : ∀ i u, r.targets[i]? = some u → frontier ≤ i → i ≤ k → u.targetAction = .write →
    ∃ c, j.stagedContent env i u.path d = .ok c ∧ env.hashBytes c = u.afterHash

/-- The changes of a project by rolling a record forward from a disk: a leaf that differs was a target
at its before-state when recovery started, and a directory that is gone was a directory
target. -/
structure Journal.Accounts (env : Environment) (j : Journal) (d d₁ : Disk) (r : Record)
    (frontier : ℕ) (t : Disk) : Prop where
  leaves : ∀ q, Outside q → leafAt q t ≠ leafAt q d → ∃ k target,
    j.Reached env d₁ r frontier k target ∧ applyPath env target.path = q ∧
      liveHash env d target = target.beforeHash
  directories : ∀ q, Outside q → IsDirAt q d → ¬ IsDirAt q t → ∃ k target,
    j.Reached env d₁ r frontier k target ∧ applyPath env target.path = q ∧
      target.targetAction = .deleteDir ∧
      (liveHash env d target = target.beforeHash ∨ Deferred env d₁ r k target)

/-- What a run of recovery leaves of the project: nothing changed outside the journals, or a release
was handed to the Git recovery, or a plan was rolled forward and accounts for every change. -/
inductive Journal.Accounted (env : Environment) (gitRecovery : Journal → Record → Engine Result)
    (j : Journal) (d : Disk) (r : Record) (t : Disk) : Prop
  | untouched (same : SameProject d t)
  | handed {d₁ r₁} (decided : j.Decides env d r d₁ r₁) (release : r₁.operation = "release")
      (same : SameProject d d₁) (left : (gitRecovery j r₁).Leaves d₁ t)
  | rolled {d₁ r₁ frontier} (decided : j.Decides env d r d₁ r₁)
      (verdict : recoveryVerdict env d₁ r₁ = .rollForward frontier)
      (changes : j.Accounts env d d₁ r₁ frontier t)

/-- A plan whose paths are spelled plainly and which leaves the operation's own directory alone. -/
structure Journal.OrdinaryPlan (env : Environment) (j : Journal) (r : Record) : Prop where
  plain : ∀ t ∈ r.targets, PlainSpelling env t.path
  own : j.OwnDirectory env r

theorem Journal.Progressed.accounts {d₁ u : Disk} {r : Record} {frontier i : ℕ}
    (h : j.Progressed env d₁ r frontier i u) (hsame : SameProject d d₁)
    (hplain : ∀ t ∈ r.targets, PlainSpelling env t.path) (hclear : Unobstructed env d₁ r)
    (hfrontier : frontier = prefixLength (classifications env d₁ r.targets)) :
    j.Accounts env d d₁ r frontier u := by
  have reached {k : ℕ} {t : TargetRecord} (ht : r.targets[k]? = some t) (hk : frontier ≤ k)
      (hlt : k < i) : j.Reached env d₁ r frontier k t :=
    ⟨ht, hk, fun m v hv hm hle hw => h.payloads m v hv hm (by omega) hw⟩
  have live {t : TargetRecord} (hout : Outside (applyPath env t.path)) :
      liveHash env d₁ t = liveHash env d t := liveHash_congr (hsame _ hout)
  refine ⟨fun q hq hne => ?_, fun q hq hd hnd => ?_⟩
  · rw [← leafAt_congr (hsame q hq)] at hne
    obtain ⟨k, t, ht, hk, hlt, rfl, hbefore⟩ := h.leaves q hq hne
    exact ⟨k, t, reached ht hk hlt, rfl, live hq ▸ hbefore⟩
  · obtain ⟨k, t, ht, hk, hlt, rfl, haction⟩ :=
      h.directories q hq ((isDirAt_congr (hsame q hq)).mpr hd) hnd
    exact ⟨k, t, reached ht hk hlt, rfl, haction,
      live hq ▸ hclear.pending hplain ht (hfrontier ▸ hk)⟩

/-- The account does not see the journal directories. -/
theorem Journal.accounts_blind {d₁ : Disk} {r : Record} {frontier : ℕ} :
    BlindToJournals (j.Accounts env d d₁ r frontier) := by
  intro p hp mk f s t ht hs
  have hsame (q : Path) (hq : Outside q) : probe q t = probe q s :=
    probe_alter_of_apart ht (hq.apart hp)
  exact ⟨fun q hq hne => hs.leaves q hq (leafAt_congr (hsame q hq) ▸ hne),
    fun q hq hd hnd => hs.directories q hq hd fun h => hnd ((isDirAt_congr (hsame q hq)).mpr h)⟩

/-- Without an intent nothing happens. -/
theorem Journal.resumeIntent_yields_false (h : (j.resumeIntent env).Yields d (.ok false) d') :
    d' = d := by
  have hresume : (j.resumeAppendIntent env).Yields d false d' := by
    rcases Prog.yields_rescue.mp h with h | ⟨e, u, -, h⟩
    · obtain ⟨b, u, hb, h⟩ := Prog.yields_bind.mp h
      obtain ⟨hb', rfl⟩ := Prog.yields_pure.mp h
      obtain rfl := Except.ok.inj hb'
      exact hb
    · cases e with
      | os detail => have := (Prog.yields_pure.mp h).1; cases this
      | value detail => have := (Prog.yields_pure.mp h).1; cases this
      | decode refused => have := (Prog.yields_pure.mp h).1; cases this
      | _ => exact absurd h Prog.yields_raise
  have hread := Prog.yields_read_bind.mp hresume
  split at hread
  · exact absurd hread Prog.yields_raise
  · exact (Prog.yields_pure.mp hread).2.symm
  · obtain ⟨record, d₁, -, hread⟩ := Prog.yields_bind.mp hread
    obtain ⟨d₂, -, hread⟩ := Prog.yields_seq.mp hread
    have := (Prog.yields_pure.mp hread).1
    cases this

/-- There is one disk and one record to decide on. -/
theorem Journal.Decides.unique {r r₁ r₂ : Record} {d₁ d₂ : Disk} (h₁ : j.Decides env d r d₁ r₁)
    (h₂ : j.Decides env d r d₂ r₂) : d₁ = d₂ ∧ r₁ = r₂ := by
  have same {b c : Bool} {u v : Disk} (h : (j.resumeIntent env).Yields d (.ok b) u)
      (h' : (j.resumeIntent env).Yields d (.ok c) v) : b = c ∧ u = v :=
    ⟨Except.ok.inj (Except.ok.inj (h.1.symm.trans h'.1)), h.2.symm.trans h'.2⟩
  cases h₁ with
  | found h =>
    cases h₂ with
    | found h' => exact ⟨rfl, rfl⟩
    | resumed h' _ => cases (same h h').1
  | resumed h hd =>
    cases h₂ with
    | found h' => cases (same h h').1
    | resumed h' hd' =>
      obtain rfl := (same h h').2
      exact ⟨rfl, Except.ok.inj (hd.symm.trans hd')⟩

section Recovery

variable {gitRecovery : Journal → Record → Engine Result} {r : Record}

/-- Recovery of the record it decided on accounts for what it leaves. -/
theorem Journal.recoverRecord_accounts {d₁ : Disk} {r₁ : Record} (hj : InJournals j.dir)
    (hdecided : j.Decides env d r d₁ r₁) (hsame : SameProject d d₁)
    (hdecode : j.decode env false d₁ = .ok r₁) (hplan : j.OrdinaryPlan env r₁) :
    wp (j.recoverRecord env gitRecovery r₁) (fun _ t => j.Accounted env gitRecovery d r t)
      (j.Accounted env gitRecovery d r) d₁ := by
  have untouched {m : Engine Result} (hm : m.Keeps (SameProject d)) :
      wp m (fun _ t => j.Accounted env gitRecovery d r t) (j.Accounted env gitRecovery d r) d₁ :=
    hm.wp hsame (fun _ h => .untouched h) (fun _ _ _ h => .untouched h) fun _ _ _ h => .untouched h
  unfold Journal.recoverRecord
  split_ifs with hcommitted hsettled hrelease
  · exact untouched (Prog.Keeps.pure _)
  · exact untouched (Prog.Keeps.pure _)
  · -- a release is final, handed to the Git recovery, or refused as incomplete
    unfold Journal.recoverRelease
    split_ifs
    · exact untouched (Prog.Keeps.pure _)
    · exact ⟨fun c hc => .handed hdecided hrelease hsame (.inl hc),
        .handed hdecided hrelease hsame (.inr rfl)⟩
    · exact untouched (Journal.refuse_keeps_blind (sameProject_blind d) hj _ _)
  · refine (wp_bind _).mpr (wp_read.mpr ?_)
    simp only
    split
    · exact untouched (Journal.refuseTarget_keeps_blind (sameProject_blind d) hj _ _ _ _ _)
    · exact untouched (Journal.refuseTarget_keeps_blind (sameProject_blind d) hj _ _ _ _ _)
    · exact untouched (Prog.Keeps.bind
        (Journal.mark_keeps_blind (sameProject_blind d) hj _ _ _) fun _ => Prog.Keeps.pure _)
    · exact untouched (Journal.refuse_keeps_blind (sameProject_blind d) hj _ _)
    · next n hverdict =>
      obtain ⟨hclear, hn⟩ := recoveryVerdict_rollForward hverdict
      have hlen : n ≤ r₁.targets.length := by
        rw [hn, ← @classifications_length env d₁ r₁.targets]
        exact prefixLength_le _
      have hrolled : wp (j.complete env r₁ n) (fun _ t => j.Accounts env d d₁ r₁ n t)
          (j.Accounts env d d₁ r₁ n) d₁ :=
        Journal.complete_wp (I := j.Progressed env d₁ r₁ n) (Journal.progressed_mark hj hplan.own)
          (Journal.progressed_step (decodeEntry_owned hdecode) hplan.own hplan.plain hclear hn)
          hlen (fun _ _ hu => hu.accounts hsame hplan.plain hclear hn)
          (Journal.finish_keeps_blind Journal.accounts_blind hj r₁)
          (Journal.progressed_start (SameProject.refl d₁) (fun _ _ => rfl)
            (Journal.isDirAt_of_decode hdecode))
      exact wp_mono hrolled (fun _ _ h => .rolled hdecided hverdict h)
        fun _ h => .rolled hdecided hverdict h

/-- Recovery behind its gates accounts for what it leaves. -/
theorem Journal.recoverBound_accounts (hj : InJournals j.dir) (hr : j.decode env false d = .ok r)
    (hplan : ∀ d₁ r₁, j.Decides env d r d₁ r₁ → j.OrdinaryPlan env r₁) :
    wp (j.recoverBound env gitRecovery r) (fun _ t => j.Accounted env gitRecovery d r t)
      (j.Accounted env gitRecovery d r) d := by
  unfold Journal.recoverBound
  refine (wp_bind _).mpr ((Journal.resumeIntent_keeps_blind (sameProject_blind d) hj).wp
    (SameProject.refl d) (fun _ h => .untouched h) (fun resumed d₁ hres hsame => ?_)
    fun _ _ _ h => .untouched h)
  dsimp only
  cases resumed with
  | error e => exact (wp_pure _).mpr (.untouched hsame)
  | ok resumed =>
    cases resumed with
    | false =>
      obtain rfl := Journal.resumeIntent_yields_false hres
      exact Journal.recoverRecord_accounts hj (.found hres) hsame hr (hplan _ _ (.found hres))
    | true =>
      refine (wp_bind _).mpr (wp_read.mpr ?_)
      dsimp only
      split
      · exact (wp_pure _).mpr (.untouched hsame)
      · next r₁ hr₁ =>
        exact Journal.recoverRecord_accounts hj (.resumed hres hr₁) hsame hr₁
          (hplan _ _ (.resumed hres hr₁))

/-- **Recovery changes nothing it cannot account for.** In every state that recovery of a decodable
record can crash or end in: every changed leaf of the project was a target at its before-state whose
turn had come, every removed directory was a directory target; a foreign record changes nothing at
all; and a target in a third state, an applied target out of order or a changed dependency leaves
the whole project as it was. -/
theorem recovery_accounts {opId : String} (hj : openJournal opId d = .ok j)
    (hr : j.decode env false d = .ok r)
    (hplan : ∀ d₁ r₁, j.Decides env d r d₁ r₁ → j.OrdinaryPlan env r₁) {t : Disk}
    (ht : (recoverLocked env gitRecovery opId).Leaves d t) :
    j.Accounted env gitRecovery d r t ∧ (bindRecord env d r ≠ .ok () → t = d) ∧
      ∀ d₁ r₁, j.Decides env d r d₁ r₁ → r₁.operation ≠ "release" → ¬ Unobstructed env d₁ r₁ →
        SameProject d t := by
  have hin := openJournal_inJournals hj
  have unbound (hb : bindRecord env d r ≠ .ok ()) : ∀ record, j.gate env d ≠ .ok record := by
    intro record hgate
    unfold Journal.gate at hgate
    simp only [bind_eq_ok, hr, Except.ok.injEq, exists_eq_left'] at hgate
    split_ifs at hgate
    simp only [bind_eq_ok] at hgate
    obtain ⟨_, hbound, -⟩ := hgate
    exact hb hbound
  have hrun : wp (recoverLocked env gitRecovery opId)
      (fun _ t => j.Accounted env gitRecovery d r t ∧ (bindRecord env d r ≠ .ok () → t = d))
      (fun t => j.Accounted env gitRecovery d r t ∧ (bindRecord env d r ≠ .ok () → t = d)) d := by
    have stays : j.Accounted env gitRecovery d r d ∧ (bindRecord env d r ≠ .ok () → d = d) :=
      ⟨.untouched (SameProject.refl d), fun _ => rfl⟩
    unfold recoverLocked
    refine (wp_bind _).mpr (wp_read.mpr ?_)
    simp only [hj]
    split_ifs
    · split
      · exact (wp_pure _).mpr stays
      · next record hgate =>
        obtain rfl : r = record := by
          have hg := hgate
          unfold Journal.gate at hg
          simp only [bind_eq_ok, hr, Except.ok.injEq, exists_eq_left'] at hg
          split_ifs at hg
          simp only [bind_eq_ok, pure_eq_ok] at hg
          exact hg.choose_spec.2
        have hbound : ∀ t, bindRecord env d r ≠ .ok () → t = d := fun t hb =>
          absurd hgate (unbound hb r)
        exact wp_mono (Journal.recoverBound_accounts hin hr hplan)
          (fun _ t h => ⟨h, hbound t⟩) fun t h => ⟨h, hbound t⟩
    · exact (wp_pure _).mpr stays
  obtain ⟨haccounted, hforeign⟩ := hrun.leaves (fun _ _ h => h) ht
  refine ⟨haccounted, hforeign, fun d₁ r₁ hdecided hop hblocked => ?_⟩
  cases haccounted with
  | untouched same => exact same
  | handed decided release =>
    obtain ⟨-, rfl⟩ := hdecided.unique decided
    exact absurd release hop
  | rolled decided verdict =>
    obtain ⟨rfl, rfl⟩ := hdecided.unique decided
    exact absurd (recoveryVerdict_rollForward verdict).1 hblocked

end Recovery

/-! ### A corrupt payload behind a good one -/

/-- A record that was applying two writes. -/
def corruptRecord : Record where
  opId := "op-1"
  status := .applying
  operation := "note"
  semanticPayloadHash := "payload"
  createdAt := "0001-01-01T00:00:00Z"
  agent := "agent"
  projectIdentity := "/work"
  projectLineage := .absent
  verificationPolicy := some .none
  preconditions := some []
  readPreconditions := some []
  receiptMetadata := .absent
  progressIndex := 0
  targets := [
    { path := "a", role := .generic, action := some .write, beforeHash := "",
      afterHash := "ca978112ca1bbdca", applied := false, content := none, extra := [] },
    { path := "b", role := .generic, action := some .write, beforeHash := "",
      afterHash := "3e23e8160039594a", applied := false, content := none, extra := [] }]
  extra := []

/-- An empty project with the journal of that record; the payload of the second write holds the bytes
of the first. -/
def corruptDisk : Disk :=
  [(".saipen", .dir [("recovery", .dir [("ops", .dir [("op-1", .dir
    [("0_ca978112ca1bbdca.staged", .file (.text "a")),
      ("1_3e23e8160039594a.staged", .file (.text "a")),
      ("operation.json", .file (.json corruptRecord.toJson))])])])])]

/-- Recovery writes the first of two pending targets before it finds the payload of the second
corrupt. -/
theorem corrupt_payload_found_late :
    conflictJournal.decode sampleEnvironment false corruptDisk = .ok corruptRecord ∧
    classifications sampleEnvironment corruptDisk corruptRecord.targets = [.pending, .pending] ∧
    (∃ c, conflictJournal.stagedContent sampleEnvironment 1 "b" corruptDisk = .ok c ∧
      sampleEnvironment.hashBytes c ≠ "3e23e8160039594a") ∧
    ∃ res d', (recoverLocked sampleEnvironment refuseRelease "op-1").Yields corruptDisk res d' ∧
      res.code = .conflict ∧ probe ["a"] corruptDisk = .absent ∧
        probe ["a"] d' = .found (.file (.text "a")) :=
  ⟨rfl, rfl, ⟨.text "a", rfl, by decide⟩, _, _, ⟨rfl, rfl⟩, rfl, rfl, rfl⟩

/-- What that run leaves is accounted for: `a` was absent, as the record says. -/
theorem corrupt_payload_accounted :
    conflictJournal.Accounted sampleEnvironment refuseRelease corruptDisk corruptRecord
      ((recoverLocked sampleEnvironment refuseRelease "op-1").run corruptDisk).final := by
  have hj : openJournal "op-1" corruptDisk = .ok conflictJournal := rfl
  have hr : conflictJournal.decode sampleEnvironment false corruptDisk = .ok corruptRecord := rfl
  have hplan : ∀ d₁ r₁, conflictJournal.Decides sampleEnvironment corruptDisk corruptRecord d₁ r₁ →
      conflictJournal.OrdinaryPlan sampleEnvironment r₁ := by
    intro d₁ r₁ hd
    obtain ⟨rfl, rfl⟩ := hd.unique (.found ⟨rfl, rfl⟩)
    refine ⟨fun t ht => ?_, fun t ht => ?_⟩
    · rcases List.mem_cons.mp ht with rfl | ht
      · rfl
      · obtain rfl := List.mem_singleton.mp ht
        rfl
    · have hne : applyPath sampleEnvironment t.path = ["a"] ∨
          applyPath sampleEnvironment t.path = ["b"] := by
        rcases List.mem_cons.mp ht with rfl | ht
        · exact .inl rfl
        · obtain rfl := List.mem_singleton.mp ht
          exact .inr rfl
      rcases hne with hne | hne
      · rw [hne]; decide
      · rw [hne]; decide
  exact (recovery_accounts hj hr hplan (.inr rfl)).1

end Saipen
