import Saipen.Checks
import Saipen.Journal.Identity

/-! # Project binding

`resolve_project_root` decides which root a run may write: an explicit one, the one a host carries, the
Git worktree or its main worktree, or the nearest ancestor with a `.saipen`. What the file system, Git
and the environment answer is given; a path that was resolved is the list of its components. -/

namespace Saipen.ProjectRoot

open Checks FileTree

/-! ### What the system answers -/

/-- The kinds of exceptions a call raises; all but the last are an `OSError`. -/
inductive RaisedKind where
  | absent
  | permission
  | osError
  | runtimeError
deriving DecidableEq

/-- An exception and its text. -/
structure Raised where
  kind : RaisedKind
  detail : String
deriving DecidableEq

/-- What `lstat` says. -/
structure Stat where
  isDir : Bool
  isRegular : Bool
  isLink : Bool
  reparse : Bool
  size : ℕ

/-- The system a run finds itself on. -/
structure Host where
  cwd : Except Raised Path
  environ : String → String
  expanduser : String → Except Raised String
  realpath : Path → Except Raised Path
  normcase : Path → String
  isDir : Path → Except Raised Bool
  isSymlink : Path → Except Raised Bool
  exists' : Path → Except Raised Bool
  lstat : Path → Except Raised Stat
  /-- `stat` and `scandir` -/
  scan : Path → Except Raised Unit
  /-- The bytes of a regular file as strict UTF-8. -/
  readText : Path → Option String
  /-- The exit status of Git and what it prints. -/
  git : Path → List String → ℤ × String
  repr : String → String

/-- `authority`. -/
inductive Authority where
  | mutation
  | observe
deriving DecidableEq

/-- The arguments of `resolve_project_root`. -/
structure Request where
  start : Option String := none
  explicit : Option String := none
  hostRoot : Option String := none
  hostLineage : Option String := none
  honorEnvironment : Bool := true
  authority : Authority := .mutation

/-- The sources of a binding. -/
inductive Provenance where
  | explicit
  | hostSession
  | gitWorktree
  | gitCommon
  | ancestor
deriving DecidableEq

/-- The name of a source. -/
def Provenance.name : Provenance → String
  | .explicit => "explicit"
  | .hostSession => "host-session"
  | .gitWorktree => "git-worktree"
  | .gitCommon => "git-common"
  | .ancestor => "ancestor"

/-- The codes of a refusal. -/
inductive Code where
  | bindingInvalid
  | lineageMismatch
  | bindingAmbiguous
  | notSaipenProject
  | runtimeUnavailable
deriving DecidableEq

/-- `ResolvedProjectRoot`. -/
inductive Resolved where
  | bound (root : Path) (source : Provenance) (lineage : Option String)
  | refused (code : Code) (detail : String) (lineage : Option String) (contextKind : Option String)
deriving DecidableEq

/-- `str` of a resolved path. -/
def showPath (p : Path) : String := "/" ++ "/".intercalate p

/-- `repr` of a lineage. -/
def Host.showLineage (h : Host) : Option String → String
  | some lineage => h.repr lineage
  | none => "None"

/-! ### Reading a root -/

/-- `_valid_saipen_dir`. -/
def Host.validSaipenDir (h : Host) (root : Path) : Except Raised Bool :=
  let saipen := root ++ [".saipen"]
  let answer : Except Raised Bool := do
    if !(← h.isDir saipen) then return false
    if ← h.isSymlink saipen then return false
    return !(← h.lstat saipen).reparse
  match answer with
  | .error ⟨.absent, _⟩ => .ok false
  | answer => answer

/-- `_refused_to_this_account`. -/
def Host.refusedToThisAccount (h : Host) (root : Path) : Bool :=
  match h.scan (root ++ [".saipen"]) with
  | .error ⟨.permission, _⟩ => true
  | _ => false

/-- `_not_granted`. -/
def notGranted (root : Path) (named : String) : String :=
  named ++ " is a project this account may not read (access denied): " ++ showPath root ++
    "; it needs a grant to this account, not a repair"

/-- `project_lineage_identity`. -/
def Host.projectLineageIdentity (h : Host) (root : Path) : Option String := do
  let saipen := root ++ [".saipen"]
  let path := saipen ++ ["IDENTITY.md"]
  let directory ← (h.lstat saipen).toOption
  let file ← (h.lstat path).toOption
  guard (!directory.isLink && !directory.reparse && directory.isDir)
  guard (!file.isLink && !file.reparse && file.isRegular && file.size ≤ 4096)
  let text ← h.readText path
  guard (!Text.startsWith text "\uFEFF")
  (parseIdentityContent text).toOption

/-- A path and the directories above it, from the path on. -/
def selfAndParents (p : Path) : List Path := p.inits.reverse

/-- The first path with a valid `.saipen`. -/
def Host.firstValid (h : Host) : List Path → Except Raised (Option Path)
  | [] => return none
  | candidate :: rest => do
      if ← h.validSaipenDir candidate then return some candidate
      else h.firstValid rest

/-- `_nearest_checkpoint_root`. -/
def Host.nearestCheckpointRoot (h : Host) (start : Path) : Except Raised (Option Path) :=
  h.firstValid (selfAndParents start)

/-- `_same_path`. -/
def Host.samePath (h : Host) (left right : Path) : Bool := h.normcase left == h.normcase right

/-- A path text resolved: one that is not absolute is taken from `base`. -/
def Host.resolveFrom (h : Host) (base : Except Raised Path) (text : String) : Except Raised Path := do
  if isAbsolute text then h.realpath (components text)
  else h.realpath ((← base) ++ components text)

/-! ### What is expected and what is carried -/

/-- A carrier of the environment; a blank one is none. -/
def Host.carried (h : Host) (name : String) : Option String :=
  let text := Text.strip (h.environ name)
  if text = "" then none else some text

/-- `expected_lineage`. -/
def Host.expectedLineage (h : Host) (q : Request) : Option String :=
  match q.hostLineage with
  | some lineage => some lineage
  | none => if q.honorEnvironment then h.carried "SAIPEN_PROJECT_LINEAGE" else none

/-- The root that is carried, and whether it is ambient. -/
def Host.carrier (h : Host) (q : Request) : Option (String × Bool) :=
  match q.hostRoot with
  | some text => some (text, false)
  | none =>
      if q.honorEnvironment then (h.carried "SAIPEN_PROJECT_ROOT").map fun text => (text, true)
      else none

/-- The working directory a request starts in. -/
def Host.startOf (h : Host) (q : Request) : Except Raised Path := do
  match q.start with
  | some text => h.resolveFrom h.cwd text
  | none => h.realpath (← h.cwd)

/-! ### The sources -/

/-- A root under the lineage that is expected. -/
def Host.judge (h : Host) (expected : Option String) (named : String) (root : Path)
    (source : Provenance) : Resolved :=
  let lineage := h.projectLineageIdentity root
  if expected.isSome && lineage != expected then
    .refused .lineageMismatch
      (named ++ " lineage " ++ h.showLineage lineage ++ " does not match expected " ++
        h.showLineage expected ++ ": " ++ showPath root)
      lineage none
  else .bound root source lineage

/-- A root that has no valid `.saipen`. -/
def Host.refuseInvalid (h : Host) (named missing : String) (root : Path) : Resolved :=
  .refused .bindingInvalid
    (if h.refusedToThisAccount root then notGranted root named
      else named ++ missing ++ showPath root)
    none none

/-- The explicit root. Observation may name a foreign project. -/
def Host.bindExplicit (h : Host) (q : Request) (start : Path) (text : String) :
    Except Raised Resolved := do
  let root ← h.resolveFrom (.ok start) (← h.expanduser text)
  if !(← h.isDir root) then
    return .refused .bindingInvalid
      ("explicit --project-root is not a directory: " ++ showPath root) none none
  if !(← h.validSaipenDir root) then
    return h.refuseInvalid "explicit --project-root" " has no .saipen/ directory: " root
  let expected := if q.authority = .mutation then h.expectedLineage q else none
  return h.judge expected "explicit project" root .explicit

/-- The root an ambient carrier names where the working directory is in another project. -/
def Host.contested (h : Host) (start candidate : Path) (lineage : String) :
    Except Raised (Option Resolved) := do
  match ← h.nearestCheckpointRoot start with
  | none => return none
  | some cwdRoot =>
      if h.samePath cwdRoot candidate then return none
      match h.projectLineageIdentity cwdRoot with
      | none => return none
      | some cwdLineage =>
          if cwdLineage = lineage then return none
          else
            return some (.refused .bindingAmbiguous
              ("SAIPEN_PROJECT_ROOT names " ++ showPath candidate ++ " (lineage " ++ h.repr lineage ++
                ") but the working directory belongs to " ++ showPath cwdRoot ++ " (lineage " ++
                h.repr cwdLineage ++ "); two different projects claim this run. Pass --project-root " ++
                "with the one you mean, or clear SAIPEN_PROJECT_ROOT")
              (some lineage) none)

/-- The root a host carries. -/
def Host.bindCarrier (h : Host) (q : Request) (start : Path) (text : String) (ambient : Bool) :
    Except Raised Resolved := do
  let candidate ← h.resolveFrom (.ok start) (← h.expanduser text)
  if !(← h.isDir candidate) then
    return .refused .bindingInvalid
      ("SAIPEN_PROJECT_ROOT is not an existing directory: " ++ showPath candidate) none none
  if !(← h.validSaipenDir candidate) then
    return h.refuseInvalid "SAIPEN_PROJECT_ROOT" " has no valid owned .saipen/ directory: " candidate
  match h.projectLineageIdentity candidate with
  | none =>
      return .refused .bindingInvalid
        ("SAIPEN_PROJECT_ROOT has missing or invalid .saipen/IDENTITY.md: " ++ showPath candidate)
        none none
  | some lineage =>
      match h.judge (h.expectedLineage q) "SAIPEN_PROJECT_ROOT" candidate .hostSession with
      | .refused code detail lineage kind => return .refused code detail lineage kind
      | judged =>
          if ambient then return (← h.contested start candidate lineage).getD judged
          else return judged

/-- The first of Git's candidates with a valid `.saipen`; a root that was seen is not asked again. -/
def Host.bindCandidates (h : Host) (q : Request) :
    List (Path × Provenance) → List String → Except Raised (Option Resolved)
  | [], _ => return none
  | (root, source) :: rest, seen => do
      if seen.contains (h.normcase root) then h.bindCandidates q rest seen
      else if ← h.validSaipenDir root then
        return some (h.judge (h.expectedLineage q) ("resolved " ++ source.name ++ " root") root source)
      else h.bindCandidates q rest (seen ++ [h.normcase root])

/-- The main worktree Git names. -/
def Host.commonRoot (h : Host) (start : Path) : Except Raised (List (Path × Provenance)) := do
  let (status, text) := h.git start ["rev-parse", "--git-common-dir"]
  if status = 0 ∧ text ≠ "" then
    let directory ← h.resolveFrom (.ok start) text
    if (directory.getLast?.getD "").toList.map Char.toLower = ".git".toList then
      return [(directory.dropLast, .gitCommon)]
    else return []
  else return []

/-- The worktree Git names, then the main one. -/
def Host.bindGit (h : Host) (q : Request) (start : Path) (top : String) : Except Raised Resolved := do
  let worktree ← h.resolveFrom h.cwd top
  let common ← h.commonRoot start
  match ← h.bindCandidates q ((worktree, .gitWorktree) :: common) [] with
  | some resolved => return resolved
  | none =>
      return .refused .notSaipenProject
        ("cwd belongs to Git worktree " ++ showPath worktree ++ " but its owning repository has no " ++
          ".saipen/; refusing to guess or create a second .saipen/. Run from the intended project " ++
          "or pass --project-root PATH")
        none (some "git-non-saipen")

/-- The nearest ancestor. -/
def Host.bindAncestor (h : Host) (q : Request) (start : Path) : Except Raised Resolved := do
  match ← h.nearestCheckpointRoot start with
  | some root => return h.judge (h.expectedLineage q) "resolved ancestor root" root .ancestor
  | none =>
      return .refused .notSaipenProject
        ("cwd has no owning .saipen/; refusing to guess or create one. Run from the intended " ++
          "project or pass --project-root PATH")
        none (some "detached")

/-- Whether the path or a directory above it has a `.git`. -/
def Host.anyGit (h : Host) : List Path → Except Raised Bool
  | [] => return false
  | p :: ps => do if ← h.exists' (p ++ [".git"]) then return true else h.anyGit ps

/-- What Git says the worktree is; it is asked only where there is a `.git`. -/
def Host.gitTop (h : Host) (start : Path) : Except Raised (ℤ × String) := do
  if ← h.anyGit (selfAndParents start) then return h.git start ["rev-parse", "--show-toplevel"]
  else return (1, "")

/-- `_resolve_project_root`. -/
def Host.resolveRoot (h : Host) (q : Request) : Except Raised Resolved := do
  let start ← h.startOf q
  match q.explicit with
  | some text => h.bindExplicit q start text
  | none =>
    match h.carrier q with
    | some (text, ambient) => h.bindCarrier q start text ambient
    | none => do
      let (status, top) ← h.gitTop start
      if status = 0 ∧ top ≠ "" then h.bindGit q start top
      else h.bindAncestor q start

/-- `resolve_project_root`: what the system denies is an unavailable runtime. -/
def Host.resolveProjectRoot (h : Host) (q : Request) : Except Raised Resolved :=
  match h.resolveRoot q with
  | .error raised =>
      if raised.kind = .runtimeError then .error raised
      else .ok (.refused .runtimeUnavailable raised.detail none none)
  | answer => answer

variable {h : Host} {q : Request} {start root : Path} {source : Provenance} {lineage : Option String}

/-! ### What is bound -/

/-- The path a text names, as a request takes it. -/
def Host.Names (h : Host) (q : Request) (text : String) (root : Path) : Prop :=
  ∃ start expanded, h.startOf q = .ok start ∧ h.expanduser text = .ok expanded ∧
    h.resolveFrom (.ok start) expanded = .ok root

/-- What a judged root is bound with. -/
theorem judge_eq_bound {expected : Option String} {named : String} {root' : Path}
    {source' : Provenance} (hb : h.judge expected named root' source' = .bound root source lineage) :
    root' = root ∧ source' = source ∧ lineage = h.projectLineageIdentity root ∧
      (expected = none ∨ lineage = expected) := by
  unfold Host.judge at hb
  simp only at hb
  split at hb
  · cases hb
  · next hexpected =>
    obtain ⟨rfl, rfl, rfl⟩ := Resolved.bound.inj hb
    refine ⟨rfl, rfl, rfl, ?_⟩
    cases expected with
    | none => exact .inl rfl
    | some expected => exact .inr (by simpa using hexpected)

theorem bindExplicit_bound {text : String}
    (hb : h.bindExplicit q start text = .ok (.bound root source lineage)) :
    (∃ expanded, h.expanduser text = .ok expanded ∧ h.resolveFrom (.ok start) expanded = .ok root) ∧
      source = .explicit ∧ lineage = h.projectLineageIdentity root ∧
      (q.authority = .mutation → h.expectedLineage q = none ∨ lineage = h.expectedLineage q) := by
  simp only [Host.bindExplicit, bind_eq_ok] at hb
  obtain ⟨expanded, hexpanded, root', hroot', isDir, -, hb⟩ := hb
  split at hb
  · cases hb
  obtain ⟨valid, -, hb⟩ := bind_eq_ok.mp hb
  split at hb
  · unfold Host.refuseInvalid at hb
    cases hb
  obtain ⟨rfl, rfl, hlineage, hexpected⟩ := judge_eq_bound (pure_eq_ok.mp hb)
  refine ⟨⟨expanded, hexpanded, hroot'⟩, rfl, hlineage, fun hmutation => ?_⟩
  rwa [if_pos hmutation] at hexpected

/-- What an ambient carrier must not contradict: the project the working directory is in. -/
def Host.Uncontested (h : Host) (start root : Path) (lineage : Option String) : Prop :=
  ∀ cwdRoot, h.nearestCheckpointRoot start = .ok (some cwdRoot) →
    h.samePath cwdRoot root = true ∨ h.projectLineageIdentity cwdRoot = none ∨
      h.projectLineageIdentity cwdRoot = lineage

/-- A working directory that contests nothing. -/
theorem contested_eq_none {candidate : Path} {lineage : String}
    (hc : h.contested start candidate lineage = .ok none) :
    h.Uncontested start candidate (some lineage) := by
  intro cwdRoot hnearest
  simp only [Host.contested, bind_eq_ok] at hc
  obtain ⟨nearest, hanswer, hc⟩ := hc
  obtain rfl := Except.ok.inj (hnearest.symm.trans hanswer)
  simp only at hc
  split at hc
  · next hsame => exact .inl hsame
  · split at hc
    · next hnone => exact .inr (.inl hnone)
    · next cwdLineage hheld =>
      split at hc
      · next hsame => exact .inr (.inr (by rw [hheld, hsame]))
      · cases pure_eq_ok.mp hc

/-- A working directory that contests a root refuses it. -/
theorem contested_eq_some {candidate : Path} {lineage : String} {resolved : Resolved}
    (hc : h.contested start candidate lineage = .ok (some resolved)) :
    ∃ detail, resolved = .refused .bindingAmbiguous detail (some lineage) none := by
  simp only [Host.contested, bind_eq_ok] at hc
  obtain ⟨nearest, -, hc⟩ := hc
  split at hc
  · cases pure_eq_ok.mp hc
  · split at hc
    · cases pure_eq_ok.mp hc
    · split at hc
      · cases pure_eq_ok.mp hc
      · split at hc
        · cases pure_eq_ok.mp hc
        · exact ⟨_, (Option.some.inj (pure_eq_ok.mp hc)).symm⟩

theorem bindCarrier_bound {text : String} {ambient : Bool}
    (hb : h.bindCarrier q start text ambient = .ok (.bound root source lineage)) :
    (∃ expanded, h.expanduser text = .ok expanded ∧ h.resolveFrom (.ok start) expanded = .ok root) ∧
      source = .hostSession ∧ lineage = h.projectLineageIdentity root ∧
      (h.expectedLineage q = none ∨ lineage = h.expectedLineage q) ∧
      (ambient = true → h.Uncontested start root lineage) := by
  simp only [Host.bindCarrier, bind_eq_ok] at hb
  obtain ⟨expanded, hexpanded, candidate, hcandidate, isDir, -, hb⟩ := hb
  split at hb
  · cases hb
  obtain ⟨valid, -, hb⟩ := bind_eq_ok.mp hb
  split at hb
  · unfold Host.refuseInvalid at hb
    cases hb
  split at hb
  · cases hb
  · next carried hcarried =>
    split at hb
    · cases hb
    · split at hb
      · obtain ⟨contested, hcontested, hb⟩ := bind_eq_ok.mp hb
        replace hb := pure_eq_ok.mp hb
        cases contested with
        | some refusal =>
          obtain ⟨detail, rfl⟩ := contested_eq_some hcontested
          cases hb
        | none =>
          obtain ⟨rfl, rfl, hlineage, hexpected⟩ := judge_eq_bound hb
          refine ⟨⟨expanded, hexpanded, hcandidate⟩, rfl, hlineage, hexpected, fun _ => ?_⟩
          rw [hlineage, hcarried]
          exact contested_eq_none hcontested
      · next hexplicit =>
        obtain ⟨rfl, rfl, hlineage, hexpected⟩ := judge_eq_bound (pure_eq_ok.mp hb)
        exact ⟨⟨expanded, hexpanded, hcandidate⟩, rfl, hlineage, hexpected,
          fun hambient => absurd hambient hexplicit⟩

theorem bindCandidates_bound {candidates : List (Path × Provenance)} {seen : List String}
    (hb : h.bindCandidates q candidates seen = .ok (some (.bound root source lineage))) :
    lineage = h.projectLineageIdentity root ∧
      (h.expectedLineage q = none ∨ lineage = h.expectedLineage q) := by
  induction candidates generalizing seen with
  | nil => cases pure_eq_ok.mp hb
  | cons candidate rest ih =>
    obtain ⟨root', source'⟩ := candidate
    unfold Host.bindCandidates at hb
    split at hb
    · exact ih hb
    · obtain ⟨valid, -, hb⟩ := bind_eq_ok.mp hb
      split at hb
      · obtain ⟨rfl, rfl, hlineage, hexpected⟩ := judge_eq_bound (Option.some.inj (pure_eq_ok.mp hb))
        exact ⟨hlineage, hexpected⟩
      · exact ih hb

theorem bindGit_bound {top : String} (hb : h.bindGit q start top = .ok (.bound root source lineage)) :
    lineage = h.projectLineageIdentity root ∧
      (h.expectedLineage q = none ∨ lineage = h.expectedLineage q) := by
  simp only [Host.bindGit, bind_eq_ok] at hb
  obtain ⟨worktree, -, common, -, candidate, hcandidate, hb⟩ := hb
  split at hb
  · obtain rfl := pure_eq_ok.mp hb
    exact bindCandidates_bound hcandidate
  · cases pure_eq_ok.mp hb

theorem bindAncestor_bound (hb : h.bindAncestor q start = .ok (.bound root source lineage)) :
    lineage = h.projectLineageIdentity root ∧
      (h.expectedLineage q = none ∨ lineage = h.expectedLineage q) := by
  simp only [Host.bindAncestor, bind_eq_ok] at hb
  obtain ⟨nearest, -, hb⟩ := hb
  split at hb
  · obtain ⟨rfl, rfl, hlineage, hexpected⟩ := judge_eq_bound (pure_eq_ok.mp hb)
    exact ⟨hlineage, hexpected⟩
  · cases pure_eq_ok.mp hb

/-- What is bound is what `_resolve_project_root` has bound. -/
theorem resolveRoot_of_bound (hb : h.resolveProjectRoot q = .ok (.bound root source lineage)) :
    h.resolveRoot q = .ok (.bound root source lineage) := by
  unfold Host.resolveProjectRoot at hb
  split at hb
  · split at hb
    · cases hb
    · cases hb
  · exact hb

/-- **Project binding.** What is bound with the authority to mutate has the lineage that is expected.
An explicit root or a carried one is bound as itself or not at all, and an ambient one only where the
working directory is in no project that is proven to be another. -/
theorem binding_never_crossed (hb : h.resolveProjectRoot q = .ok (.bound root source lineage))
    (hmutation : q.authority = .mutation) :
    lineage = h.projectLineageIdentity root ∧
    (∀ expected, h.expectedLineage q = some expected →
      h.projectLineageIdentity root = some expected) ∧
    (∀ text, q.explicit = some text → source = .explicit ∧ h.Names q text root) ∧
    ∀ text ambient, q.explicit = none → h.carrier q = some (text, ambient) →
      source = .hostSession ∧ h.Names q text root ∧
      (ambient = true → ∀ start, h.startOf q = .ok start → h.Uncontested start root lineage) := by
  have hroot := resolveRoot_of_bound hb
  simp only [Host.resolveRoot, bind_eq_ok] at hroot
  obtain ⟨start, hstart, hroot⟩ := hroot
  have hexpects : lineage = h.projectLineageIdentity root →
      (h.expectedLineage q = none ∨ lineage = h.expectedLineage q) →
      ∀ expected, h.expectedLineage q = some expected →
        h.projectLineageIdentity root = some expected := by
    intro hlineage hexpected expected hheld
    rcases hexpected with hnone | hsame
    · rw [hheld] at hnone
      cases hnone
    · rw [← hlineage, hsame, hheld]
  cases hexplicit : q.explicit with
  | some text =>
    rw [hexplicit] at hroot
    obtain ⟨⟨expanded, hexpanded, hresolved⟩, rfl, hlineage, hexpected⟩ := bindExplicit_bound hroot
    refine ⟨hlineage, hexpects hlineage (hexpected hmutation), ?_, by simp⟩
    intro text' htext
    obtain rfl := Option.some.inj htext
    exact ⟨rfl, start, expanded, hstart, hexpanded, hresolved⟩
  | none =>
    rw [hexplicit] at hroot
    simp only at hroot
    cases hcarrier : h.carrier q with
    | some carried =>
      obtain ⟨text, ambient⟩ := carried
      rw [hcarrier] at hroot
      obtain ⟨⟨expanded, hexpanded, hresolved⟩, rfl, hlineage, hexpected, hfree⟩ :=
        bindCarrier_bound hroot
      refine ⟨hlineage, hexpects hlineage hexpected, by simp, ?_⟩
      rintro text' ambient' - hsame
      obtain ⟨rfl, rfl⟩ := Prod.mk.inj (Option.some.inj hsame)
      refine ⟨rfl, ⟨start, expanded, hstart, hexpanded, hresolved⟩, fun hambient start' hstart' => ?_⟩
      obtain rfl := Except.ok.inj (hstart.symm.trans hstart')
      exact hfree hambient
    | none =>
      rw [hcarrier] at hroot
      simp only [bind_eq_ok] at hroot
      obtain ⟨top, -, hroot⟩ := hroot
      have hlineage : lineage = h.projectLineageIdentity root ∧
          (h.expectedLineage q = none ∨ lineage = h.expectedLineage q) := by
        split at hroot
        · exact bindGit_bound hroot
        · exact bindAncestor_bound hroot
      exact ⟨hlineage.1, hexpects hlineage.1 hlineage.2, by simp, by simp⟩

/-! ### Roots an ambient carrier is bound beside -/

/-- The lineage of a sample project. -/
def sampleLineage : String := "lineage-0123456789abcdef0123456789abcdef"

/-- A system whose root holds the projects it is given, each with the lineage it can prove, and a
linked worktree `wt` of the project `main`. `SAIPEN_PROJECT_ROOT` names `/b`. -/
def sampleHost (cwd : String) (projects : List (String × Option String)) : Host where
  cwd := .ok [cwd]
  environ name := if name = "SAIPEN_PROJECT_ROOT" then "/b" else ""
  expanduser := .ok
  realpath := .ok
  normcase := showPath
  isDir p :=
    match p with
    | [_] => .ok true
    | [name, ".saipen"] => .ok (projects.any (·.1 == name))
    | _ => .ok false
  isSymlink _ := .ok false
  exists' p := .ok (p == ["wt", ".git"])
  lstat p :=
    match p with
    | [_, ".saipen"] => .ok ⟨true, false, false, false, 0⟩
    | _ => .ok ⟨false, true, false, false, 64⟩
  scan _ := .ok ()
  readText p := ((projects.find? fun project => p.head? == some project.1).bind (·.2)).map identityFileContent
  git _ args := if args = ["rev-parse", "--show-toplevel"] then (0, "/wt") else (0, "/main/.git")
  repr := id

/-- The project the working directory is in may be another root: one of the same lineage or one whose
lineage cannot be proven, or one that only Git names. -/
theorem ambient_beside_another_root :
    (∀ lineage ∈ [some sampleLineage, none],
      (sampleHost "a" [("a", lineage), ("b", some sampleLineage)]).resolveProjectRoot {}
          = .ok (.bound ["b"] .hostSession (some sampleLineage)) ∧
        (sampleHost "a" [("a", lineage), ("b", some sampleLineage)]).nearestCheckpointRoot ["a"]
          = .ok (some ["a"])) ∧
      (sampleHost "wt" [("main", none), ("b", some sampleLineage)]).resolveProjectRoot {}
        = .ok (.bound ["b"] .hostSession (some sampleLineage)) ∧
      (sampleHost "wt" [("main", none), ("b", some sampleLineage)]).resolveProjectRoot
          { honorEnvironment := false }
        = .ok (.bound ["main"] .gitCommon none) := by
  refine ⟨?_, rfl, rfl⟩
  simp only [List.forall_mem_cons, List.not_mem_nil, false_imp_iff, implies_true, and_true]
  exact ⟨⟨rfl, rfl⟩, rfl, rfl⟩

theorem binding_never_crossed_ambient :
    (sampleHost "a" [("a", some sampleLineage), ("b", some sampleLineage)]).Uncontested ["a"] ["b"]
      (some sampleLineage) := by
  have hb : (sampleHost "a" [("a", some sampleLineage), ("b", some sampleLineage)]).resolveProjectRoot {}
      = .ok (.bound ["b"] .hostSession (some sampleLineage)) := rfl
  obtain ⟨-, -, -, hcarried⟩ := binding_never_crossed hb rfl
  exact (hcarried "/b" true rfl rfl).2.2 rfl ["a"] rfl

end Saipen.ProjectRoot
