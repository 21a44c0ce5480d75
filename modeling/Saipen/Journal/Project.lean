import Saipen.FileTree.Frame
import Saipen.Journal.Vocabulary
import Saipen.Text

/-! # The project on disk and the world around it

`Disk` is the project tree. `Environment` collects what the engine takes from outside its own code:
the digests of the standard library, the clock's timestamp grammar, the machine identity, the
semantic verifiers and Git. Paths of the source are strings; `ownedTargetPath` resolves one against
the project root. -/

namespace Saipen

open FileTree

/-- The bytes of a file: JSON text for a value (the layout numbers the texts of one value, `0` being
the one the engine writes), other UTF-8 text, or bytes that are not text. -/
inductive Content where
  | doc (value : Json) (layout : Nat)
  | text (s : String)
  | raw (bytes : List UInt8)
  deriving DecidableEq

/-- The JSON text the engine writes. -/
abbrev Content.json (j : Json) : Content := .doc j 0

/-- `json.loads` of the bytes. -/
def Content.loads : Content → Option Json
  | .doc j _ => some j
  | _ => none

/-- The project tree. -/
abbrev Disk := Entries Content

/-- An instant of the UTC clock, in microseconds. -/
abbrev Instant := Nat

/-- One frame of the digest of a directory that is to be deleted. -/
inductive TreeFrame where
  | directory (rel : Path)
  | file (rel : Path) (content : Content)

/-- One frame of the digest of the operation receipts: namespace, entry name, manifest bytes and
progress bytes, either of which may be a structural token. -/
structure ReceiptFrame where
  /-- The name of the namespace directory. -/
  space : String
  name : String
  manifest : Content ⊕ String
  progress : Content ⊕ String

/-- A target as a semantic verifier sees it. -/
structure ChangedTarget where
  path : String
  role : Role
  action : Action
  beforeHash : Option String
  afterHash : String

/-- A component of a resolved path: it names an entry of a directory. -/
structure CleanComponent (c : String) : Prop where
  ne_empty : c ≠ ""
  ne_dot : c ≠ "."
  ne_dotdot : c ≠ ".."
  no_slash : '/' ∉ c.toList
  no_nul : Char.ofNat 0 ∉ c.toList

/-- A resolved path. -/
def CleanPath (p : Path) : Prop := ∀ c ∈ p, CleanComponent c

/-- What the engine takes from outside its own code. -/
structure Environment where
  /-- The components of the resolved project root. -/
  root : Path
  root_clean : CleanPath root
  /-- `sha256(bytes).hexdigest()[:16]`. -/
  hashBytes : Content → String
  hashBytes_ne : ∀ c, hashBytes c ≠ ""
  /-- `sha256(text).hexdigest()[:16]`, for staged names. -/
  hashText : String → String
  /-- The full digest of a canonical JSON text. -/
  digestJson : Json → String
  /-- The digest of the frames of a directory. -/
  digestTree : List TreeFrame → String
  /-- The digest of a directory listing: kinds and names. -/
  digestListing : List (Char × String) → String
  /-- The digest of the framed receipts. -/
  digestReceipts : List ReceiptFrame → String
  /-- `freshness.compute_source_identity` at a path, framed and hashed; `none` when it raises. -/
  sourceIdentity : Disk → Path → Option String
  /-- What stands at an absolute path outside the project. -/
  external : Path → Probe Content
  /-- `info.st_mode` of a node. -/
  stMode : Node Content → String
  /-- `repr` of a JSON value in an error text. -/
  repr : Json → String
  /-- The strict UTC timestamp grammar. -/
  strictUtcStamp : String → Option Instant
  /-- `isoformat() + "Z"` of an instant. -/
  isoFormat : Instant → String
  strictUtcStamp_isoFormat : ∀ t, strictUtcStamp (isoFormat t) = some t
  isoFormat_strip : ∀ t, Text.strip (isoFormat t) = isoFormat t
  isoFormat_ne : ∀ t, isoFormat t ≠ ""
  /-- `runtime_lock_identity(root)`. -/
  runtimeIdentity : String
  runtimeIdentity_ne : runtimeIdentity ≠ ""
  /-- The registered verifier of a policy: its errors on a project, for the changed targets and the
  receipt metadata. -/
  verifier : Policy → Disk → List ChangedTarget → Option Dict → List String
  /-- `base64.b64encode` of the bytes. -/
  encode64 : Content → String
  /-- `base64.b64decode(…, validate=True)`. -/
  decode64 : String → Option Content
  decode64_encode64 : ∀ c, decode64 (encode64 c) = some c
  /-- `len` of the bytes; UTF-8 spends at most four on a character. -/
  size : Content → Nat
  size_text : ∀ s, size (.text s) ≤ 4 * s.toList.length

variable (env : Environment)

/-! ### Safe identifiers -/

/-- The device names Windows reserves. -/
def winDevices : List String :=
  ["con", "prn", "aux", "nul", "com1", "com2", "com3", "com4", "com5", "com6", "com7", "com8",
    "com9", "lpt1", "lpt2", "lpt3", "lpt4", "lpt5", "lpt6", "lpt7", "lpt8", "lpt9"]

/-- `MAX_ID_BYTES`. -/
def maxIdBytes : Nat := 128

/-- `_CONTROL_RE`. -/
def isControl (c : Char) : Bool := c.toNat < 32 || (127 ≤ c.toNat && c.toNat < 160)

/-- `^[A-Za-z]:`, the drive qualification of an identifier. -/
def driveQualified : List Char → Bool
  | c :: ':' :: _ => Text.isAsciiAlpha c
  | _ => false

/-- `_SAFE_ID_RE`. -/
def matchesSafeId : List Char → Bool
  | c :: cs => Text.isAsciiAlnum c &&
      cs.all fun d => Text.isAsciiAlnum d || d = '_' || d = '.' || d = '-'
  | [] => false

/-- `validate_safe_id`: the trimmed value, or why it is refused. -/
def validateSafeId (kind value : String) : Except String String :=
  let v := Text.strip value
  if v = "" then .error (kind ++ " is empty")
  else if v = "." ∨ v = ".." then .error (kind ++ " " ++ Text.quote v ++ " is a dot path")
  else if v.toList.any isControl then
    .error (kind ++ " contains a control character or newline")
  else if '/' ∈ v.toList ∨ '\\' ∈ v.toList then .error (kind ++ " contains a path separator")
  else if driveQualified v.toList then .error (kind ++ " is drive-qualified")
  else if ¬ matchesSafeId v.toList then
    .error (kind ++ " is not path-safe ([A-Za-z0-9][A-Za-z0-9_.-]*)")
  else if v.toList.length > maxIdBytes then
    .error (kind ++ " is " ++ toString v.toList.length ++
      " bytes; the portable path-component budget is " ++ toString maxIdBytes)
  else if (Text.split '.' v).any fun part =>
      winDevices.contains (String.ofList (part.toList.map Char.toLower)) then
    .error (kind ++ " is a Windows-reserved device name")
  else .ok v

/-- `validate_op_id`. -/
def validateOpId (opId : String) : Except String String :=
  if opId = "" then .error "op_id is empty or not a string"
  else if Text.startsWith opId ".." ∨ '/' ∈ opId.toList ∨ '\\' ∈ opId.toList then
    .error ("op_id " ++ Text.quote opId ++ " is not a single safe path component")
  else validateSafeId "op_id" opId

/-! ### Owned paths -/

/-- The components of a path string: no empty ones and no dots. -/
def components (s : String) : List String :=
  (Text.split '/' s).filter fun c => c ≠ "" ∧ c ≠ "."

/-- `os.path.realpath` on a tree without links on the way: `..` drops a component. -/
def resolve : List String → Path → Path
  | [], acc => acc.reverse
  | c :: cs, acc => if c = ".." then resolve cs acc.tail else resolve cs (c :: acc)

/-- `Path.as_posix` of a path relative to the root. -/
def posix (p : Path) : String := if p = [] then "." else "/".intercalate p

/-- `^[A-Za-z]:[\\/]`. -/
def driveRooted : List Char → Bool
  | c :: ':' :: d :: _ => Text.isAsciiAlpha c && (d = '/' || d = '\\')
  | _ => false

/-- `os.path.isabs`. -/
def isAbsolute (s : String) : Bool := Text.startsWith s "/"

/-- `owned_target_path`, relative to the root: a relative string, not drive-qualified, that resolves
inside the project. -/
def ownedTargetPath (rel : String) : Option Path :=
  if rel = "" ∨ isAbsolute rel ∨ driveRooted rel.toList ∨ Char.ofNat 0 ∈ rel.toList then none
  else
    let p := resolve (env.root ++ components rel) []
    if env.root <+: p then some (p.drop env.root.length) else none

/-- `read_dependency_path`, as an absolute path: only an absolute string may leave the project. -/
def readDependencyPath (rel : String) : Option Path :=
  if isAbsolute rel then some (resolve (components rel) []) else (ownedTargetPath env rel).map (env.root ++ ·)

/-- The parts of a `PurePosixPath`, behind its anchor: no slash, one, or exactly two. -/
structure PurePath where
  anchor : Nat
  parts : List String
  deriving DecidableEq

/-- `PurePosixPath(path.replace("\\", "/"))`. -/
def purePosixPath (s : String) : PurePath :=
  let u := Text.replaceChar '\\' '/' s
  let slashes := (u.toList.takeWhile (· = '/')).length
  ⟨if slashes = 2 then 2 else if slashes = 0 then 0 else 1, components u⟩

/-- `owner in inner.parents`. -/
def PurePath.isParentOf (owner inner : PurePath) : Bool :=
  owner.anchor = inner.anchor ∧ owner.parts <+: inner.parts ∧ owner.parts ≠ inner.parts

/-- `_slug`. -/
def slug (relPath : String) : String :=
  String.ofList (relPath.toList.flatMap fun c => if c = '/' ∨ c = '\\' then ['_', '_'] else [c])

/-- `staged_name`. -/
def stagedName (index : Nat) (canonical : String) : String :=
  toString index ++ "_" ++ env.hashText canonical ++ ".staged"

/-- The name of staged evidence in the older format. -/
def legacyStagedName (index : Nat) (path : String) : String :=
  toString index ++ "_" ++ slug path ++ ".staged"

/-! ### The journal's own directories -/

/-- `.saipen/recovery`. -/
def recoveryPath : Path := [".saipen", "recovery"]

/-- `OPS_DIR`. -/
def opsPath : Path := recoveryPath ++ ["ops"]

/-- `SETTLED_DIR`. -/
def settledPath : Path := recoveryPath ++ ["settled"]

/-- `.saipen/IDENTITY.md`, the lineage carrier. -/
def identityPath : Path := [".saipen", "IDENTITY.md"]

/-- `SETTLED_INDEX_NAME`. -/
def settledIndexName : String := ".receipt-index.json"

/-- The name of `CLEANUP_QUEUE_DIR` in the settled directory. -/
def cleanupQueueName : String := ".cleanup-needed"

/-- `LINEAGE_MIGRATION_OP`. -/
def lineageMigrationOp : String := "op-migrate-lineage"

/-- A path that touches neither journal directory. -/
def Outside (p : Path) : Prop := Apart p opsPath ∧ Apart p settledPath

instance (p : Path) : Decidable (Outside p) := inferInstanceAs (Decidable (_ ∧ _))

/-- The project without the two journal directories. -/
def project (d : Disk) : Disk := prune settledPath (prune opsPath d)

theorem probe_project {p : Path} (h : Outside p) (d : Disk) : probe p (project d) = probe p d := by
  rw [project, probe_prune h.2, probe_prune h.1]

/-- A change outside the journal is the same change of the project. -/
theorem alter_project {mk : Bool} {f : Option (Node Content) → Option (Option (Node Content))}
    {p : Path} (h : Outside p) (d : Disk) :
    alter mk f p (project d) = (alter mk f p d).map project := by
  rw [project, alter_prune h.2.symm, alter_prune h.1.symm, Option.map_map]
  rfl

end Saipen
