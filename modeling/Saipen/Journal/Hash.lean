import Saipen.Journal.Project
import Mathlib.Data.List.Sort
import Mathlib.Data.String.Basic

/-! # Hash tokens of files, directories and receipts

Every decision of the journal compares string tokens: a digest for a readable file or directory, the
empty string or a named token for absence, and an object token for anything else. -/

namespace Saipen

open FileTree

variable (env : Environment)

/-! ### Directories to be deleted -/

/-- What the walk of a directory finds under one name. -/
inductive Visit where
  | file (content : Content)
  | linkToDir
  | unsupported
  | dir (frames : Except String (List TreeFrame))

/-- Sort by name, as `sorted` and `list.sort` do. -/
def sortByName {β : Type} (l : List (String × β)) : List (String × β) :=
  l.insertionSort fun a b => a.1 ≤ b.1

/-- The frames of a directory from what was found in it, or the token of the first object the walk
refuses: links to directories are met before files, and subdirectories come last. -/
def walkFrames (rel : Path) (found : List (String × Visit)) : Except String (List TreeFrame) :=
  let found := sortByName found
  match found.find? fun e => e.2 matches .linkToDir with
  | some e => .error ("object-reparse:" ++ posix (rel ++ [e.1]))
  | none =>
    match found.find? fun e => e.2 matches .unsupported with
    | some e => .error ("object-unsupported:" ++ posix (rel ++ [e.1]))
    | none =>
      let files := found.filterMap fun e =>
        match e.2 with
        | .file c => some (TreeFrame.file (rel ++ [e.1]) c)
        | _ => none
      found.foldl (fun acc e =>
        match acc, e.2 with
        | .ok fs, .dir (.ok gs) => .ok (fs ++ gs)
        | .ok _, .dir (.error token) => .error token
        | acc, _ => acc) (.ok (.directory rel :: files))

mutual
/-- Walk one node. -/
def visitNode (rel : Path) : Node Content → Visit
  | .file c => .file c
  | .link toDir => if toDir then .linkToDir else .unsupported
  | .special => .unsupported
  | .dir es => .dir (walkFrames rel (visitEntries rel es))

/-- Walk the entries of a directory. -/
def visitEntries (rel : Path) : List (String × Node Content) → List (String × Visit)
  | [] => []
  | (name, n) :: es => (name, visitNode (rel ++ [name]) n) :: visitEntries rel es
end

/-- `_hash_delete_tree`. -/
def hashDeleteTree : Probe Content → String
  | .absent => ""
  | .blocked => "object-unreadable"
  | .found (.dir es) =>
      match walkFrames [] (visitEntries [] es) with
      | .error token => token
      | .ok frames => "delete-tree-sha256:" ++ env.digestTree frames
  | .found n => "object:" ++ env.stMode n

/-- `hash_tree_dependency`. -/
def hashTreeDependency : Probe Content → String
  | .absent => "tree-missing-v1"
  | p => hashDeleteTree env p

/-! ### Files -/

/-- `_hash_file`: every failure to read is the empty token. -/
def hashFile : Probe Content → String
  | .found (.file c) => env.hashBytes c
  | _ => ""

/-- `hash_file_dependency`. -/
def hashFileDependency : Probe Content → String
  | .absent => "file-missing-v1"
  | .blocked => "object-unreadable"
  | .found (.file c) => env.hashBytes c
  | .found n => "object:" ++ env.stMode n

mutual
/-- The regular files below a node, with their contents. -/
def filesBelow (rel : Path) : Node Content → List (Path × Content)
  | .file c => [(rel, c)]
  | .dir es => filesIn rel es
  | _ => []

/-- The regular files below the entries of a directory. -/
def filesIn (rel : Path) : List (String × Node Content) → List (Path × Content)
  | [] => []
  | (name, n) :: es => filesBelow (rel ++ [name]) n ++ filesIn rel es
end

/-- `_hash_tree`: names and bytes of the regular files, in path order. -/
def hashTree : Probe Content → String
  | .found (.dir es) =>
      let files := (filesIn [] es).insertionSort fun a b => a.1 ≤ b.1
      "tree-sha256:" ++ env.digestTree (files.map fun f => .file f.1 f.2)
  | _ => ""

/-- The kind letter of a directory entry in a listing. -/
def listingKind : Node Content → Char
  | .link _ => 'L'
  | .file _ => 'F'
  | .dir _ => 'D'
  | .special => 'O'

/-- `hash_directory_listing_dependency`. -/
def hashDirectoryListing : Probe Content → String
  | .absent => "directory-listing-sha256:missing"
  | .blocked => "object-unreadable"
  | .found (.dir es) =>
      "directory-listing-sha256:" ++
        env.digestListing ((sortByName es).map fun e => (listingKind e.2, e.1))
  | .found n => "object:" ++ env.stMode n

/-! ### Receipts -/

/-- One captured receipt: its bytes, or the structural error found instead of them. -/
structure ReceiptEntry where
  name : String
  /-- Manifest and progress bytes and the entry's files, when the directory could be captured. -/
  manifest : Content ⊕ String
  progress : Option Content ⊕ String
  files : Entries Content
  structuralError : Option String

/-- A receipt whose structure is not that of an operation directory. -/
def ReceiptEntry.invalid (name detail : String) : ReceiptEntry :=
  ⟨name, .inr detail, .inr "unavailable", [], some detail⟩

/-- Capture one entry of a receipt namespace. -/
def captureReceipt (name : String) : Node Content → ReceiptEntry
  | .link _ => .invalid name "op directory is a symlink or reparse point"
  | .file _ | .special => .invalid name "op entry is not a directory"
  | .dir es =>
      match es.lookup "operation.json" with
      | none => .invalid name "op directory has no operation.json"
      | some (.link _) => .invalid name "operation.json is a symlink or reparse point"
      | some (.dir _) | some .special => .invalid name "operation.json is not a regular file"
      | some (.file raw) =>
        match es.lookup "progress.json" with
        | none => ⟨name, .inl raw, .inl none, es, none⟩
        | some (.file progress) => ⟨name, .inl raw, .inl (some progress), es, none⟩
        | some (.link _) =>
            let detail := "progress.json is a symlink or reparse point"
            ⟨name, .inl raw, .inr detail, es, some detail⟩
        | some _ =>
            let detail := "progress.json is not a regular file"
            ⟨name, .inl raw, .inr detail, es, some detail⟩

/-- `_receipt_namespace_entries`: the captured entries in name order. The source is a generator, so
the refusals it `return`s for a namespace that is a link, a file or unreadable yield nothing, like
an absent one. -/
def receiptNamespaceEntries (space : String) : Probe Content → List ReceiptEntry
  | .found (.dir es) =>
      ((sortByName es).filter fun e =>
          ¬ (space = "settled" ∧ (e.1 = cleanupQueueName ∨ e.1 = settledIndexName))).map
        fun e => captureReceipt e.1 e.2
  | _ => []

/-- `_frame_receipt`. -/
def frameReceipt (space : String) (e : ReceiptEntry) : ReceiptFrame :=
  ⟨space, e.name, e.manifest,
    match e.progress with
    | .inl (some c) => .inl c
    | .inl none => .inr "absent"
    | .inr token => .inr token⟩

/-- What stands at an absolute path. -/
def probeAbsolute (d : Disk) (p : Path) : Probe Content :=
  if env.root <+: p then probe (p.drop env.root.length) d else env.external p

/-- `semantic_receipt_digest` of the project at an absolute path: the framed captures of both
receipt namespaces. -/
def semanticReceiptDigestAt (d : Disk) (root : Path) : String :=
  "ops-receipt-sha256:" ++ env.digestReceipts
    ((receiptNamespaceEntries "ops" (probeAbsolute env d (root ++ opsPath))).map
        (frameReceipt "ops") ++
      (receiptNamespaceEntries "settled" (probeAbsolute env d (root ++ settledPath))).map
        (frameReceipt "settled"))

/-! ### Dependencies -/

/-- `_hash_dependency`: the token of a read-only dependency, in the form the expected one has. -/
def hashDependency (d : Disk) (path : Path) (expected : String) : String :=
  let p := probeAbsolute env d path
  if Text.startsWith expected "source-identity-v1:" then
    (env.sourceIdentity d path).elim "" ("source-identity-v1:" ++ ·)
  else if Text.startsWith expected "directory-listing-sha256:" then hashDirectoryListing env p
  else if Text.startsWith expected "ops-receipt-sha256:" then
    semanticReceiptDigestAt env d path.dropLast.dropLast
  else if expected = "tree-missing-v1" then hashTreeDependency env p
  else if expected = "file-missing-v1" then hashFileDependency env p
  else if Text.startsWith expected "delete-tree-sha256:" then hashDeleteTree env p
  else if Text.startsWith expected "tree-sha256:" then hashTree env p
  else if expected = "" then hashFile env p
  else hashFileDependency env p

/-! ### Targets -/

/-- The live token of what a lookup found, for one action. -/
def liveToken : Action → Probe Content → String
  | .deleteDir, p => hashDeleteTree env p
  | .write, p => hashFile env p
  | .deleteFile, .absent => ""
  | .deleteFile, .blocked => "object-unreadable"
  | .deleteFile, .found (.file c) => env.hashBytes c
  | .deleteFile, .found n => "object:" ++ env.stMode n

/-- `_target_live_hash` at an owned path. -/
def targetLiveHash (d : Disk) (action : Action) (path : Path) : String :=
  liveToken env action (probe path d)

/-- The three-way classification of a target. -/
inductive Classification where
  | alreadyApplied | pending | conflict
  deriving DecidableEq, Repr

/-- `classify_target`. -/
def classifyTarget (current before after : String) : Classification :=
  if current = after then .alreadyApplied
  else if current = before then .pending
  else .conflict

/-- `defer_unreached_targets`: a conflicting target that contains an earlier one which has not
materialized is not due yet. `earlier` holds the paths before the current target that have not. -/
def deferUnreached (earlier : List PurePath) : List (String × Classification) →
    List Classification
  | [] => []
  | (path, c) :: rest =>
      let owner := purePosixPath path
      let c' := if c = .conflict ∧ earlier.any owner.isParentOf then .pending else c
      c' :: deferUnreached (if c' = .alreadyApplied then earlier else owner :: earlier) rest

/-- `defer_unreached_targets` over a whole plan. -/
def deferUnreachedTargets (paths : List String) (cs : List Classification) :
    List Classification :=
  deferUnreached [] (paths.zip cs)

/-! ### First facts -/

/-- Inside the project, absolute lookups are lookups in the tree. -/
theorem probeAbsolute_root (d : Disk) (p : Path) :
    probeAbsolute env d (env.root ++ p) = probe p d := by
  simp [probeAbsolute]

theorem append_ne_empty {s t : String} (h : s ≠ "") : s ++ t ≠ "" := fun e =>
  h (by simpa using e : s = "" ∧ t = "").1

theorem walkFrames_error_ne {rel : Path} {found : List (String × Visit)} {token : String}
    (hsub : ∀ e ∈ found, ∀ t, e.2 = .dir (.error t) → t ≠ "")
    (h : walkFrames rel found = .error token) : token ≠ "" := by
  have hsub' : ∀ e ∈ sortByName found, ∀ t, e.2 = .dir (.error t) → t ≠ "" := fun e he =>
    hsub e ((List.perm_insertionSort _ _).mem_iff.mp he)
  simp only [walkFrames] at h
  split at h
  · obtain rfl := Except.error.inj h
    exact append_ne_empty (by decide)
  · split at h
    · obtain rfl := Except.error.inj h
      exact append_ne_empty (by decide)
    · -- the fold stops at the token of a subdirectory
      revert h
      generalize hl : sortByName found = l at hsub'
      generalize (List.filterMap _ l) = files
      generalize hacc : (Except.ok (TreeFrame.directory rel :: files) :
        Except String (List TreeFrame)) = acc
      have hok : ∀ t, acc = .error t → t ≠ "" := by
        intro t ht; rw [← hacc] at ht; cases ht
      clear hacc hl
      induction l generalizing acc with
      | nil => exact fun h => hok token h
      | cons e l ih =>
        intro h
        rw [List.foldl_cons] at h
        refine ih (fun e he => hsub' e (List.mem_cons_of_mem _ he)) _ ?_ h
        intro t ht
        split at ht
        · cases ht
        · next he =>
          cases ht
          exact hsub' _ List.mem_cons_self _ he
        · exact hok t ht

mutual
theorem visitNode_error_ne (rel : Path) : ∀ (n : Node Content) (t : String),
    visitNode rel n = .dir (.error t) → t ≠ ""
  | .file _, t, h => by simp [visitNode] at h
  | .link b, t, h => by cases b <;> simp [visitNode] at h
  | .special, t, h => by simp [visitNode] at h
  | .dir es, t, h => by
      rw [visitNode, Visit.dir.injEq] at h
      exact walkFrames_error_ne (visitEntries_error_ne rel es) h

theorem visitEntries_error_ne (rel : Path) : ∀ (es : List (String × Node Content)),
    ∀ e ∈ visitEntries rel es, ∀ t, e.2 = .dir (.error t) → t ≠ ""
  | [], e, he, _, _ => by simp [visitEntries] at he
  | (name, n) :: es, e, he, t, ht => by
      rw [visitEntries, List.mem_cons] at he
      rcases he with rfl | he
      · exact visitNode_error_ne _ n t ht
      · exact visitEntries_error_ne rel es e he t ht
end

/-- The token of something that is there is not the token of absence. -/
theorem hashDeleteTree_found_ne (n : Node Content) : hashDeleteTree env (.found n) ≠ "" := by
  cases n with
  | dir es =>
    simp only [hashDeleteTree]
    split
    · next h => exact walkFrames_error_ne (visitEntries_error_ne [] es) h
    · exact append_ne_empty (by decide)
  | _ => exact append_ne_empty (by decide)

/-- A target to be deleted has the empty token exactly when nothing is there. -/
theorem liveToken_delete_eq_empty {action : Action} (h : action ≠ .write) (p : Probe Content) :
    liveToken env action p = "" ↔ p = .absent := by
  cases action with
  | write => exact absurd rfl h
  | deleteFile =>
    cases p with
    | absent => simp [liveToken]
    | blocked => simp [liveToken]
    | found n =>
      cases n with
      | file c => simp [liveToken, env.hashBytes_ne]
      | _ => simp [liveToken, append_ne_empty (s := "object:") (by decide)]
  | deleteDir =>
    cases p with
    | absent => simp [liveToken, hashDeleteTree]
    | blocked => simp [liveToken, hashDeleteTree]
    | found n => simp [liveToken, hashDeleteTree_found_ne env n]

end Saipen
