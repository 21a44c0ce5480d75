import Saipen.Journal.Store

/-! # The project lineage and the binding of receipts to it

The carrier `.saipen/IDENTITY.md` holds the portable identity of the project. `parseIdentityContent`
is its grammar, `readLineageStrict` the reading of the bootstrap and `projectLineageIdentity` the
stricter reading of the binding; `recoveryIdentityBinding` decides whether a receipt belongs to the
live project. -/

namespace Saipen

open FileTree

variable (env : Environment)

/-- `LINEAGE_RE`: `^lineage-[0-9a-f]{32}$`. -/
def isLineage (s : String) : Bool :=
  "lineage-".toList.isPrefixOf s.toList && (s.toList.drop 8).length = 32 &&
    (s.toList.drop 8).all Text.isLowerHex

/-- `project_lineage:\s*(\S+)\s*` on a whole line. -/
def lineageField (line : String) : Option String :=
  if "project_lineage:".toList.isPrefixOf line.toList then
    let rest := (line.toList.drop 16).dropWhile Text.isSpace
    let value := rest.takeWhile fun c => ¬ Text.isSpace c
    if value ≠ [] ∧ (rest.dropWhile fun c => ¬ Text.isSpace c).all Text.isSpace then
      some (String.ofList value)
    else none
  else none

/-- `parse_identity_content`: the lineage, or why the carrier is malformed. -/
def parseIdentityContent (text : String) : Except String String :=
  if Text.strip text = "" then .error "identity file is empty"
  else
    let lines := Text.splitLines text
    if lines.head?.map Text.strip ≠ some "---" then
      .error "missing opening --- frontmatter fence"
    else if lines.length < 3 ∨ lines.getLast?.map Text.strip ≠ some "---" then
      .error "missing closing --- frontmatter fence"
    else
      match (lines.tail.dropLast).filter fun l => Text.strip l ≠ "" with
      | [line] =>
          match lineageField line with
          | none => .error ("unexpected identity body line " ++ Text.quote line)
          | some value =>
              if isLineage value then .ok value
              else .error ("lineage value " ++ Text.quote value ++ " fails the lineage-id grammar")
      | _ => .error "canonical IDENTITY.md holds exactly one lineage field inside the fence"

/-- `identity_file_content`. -/
def identityFileContent (lineage : String) : String :=
  "---\nproject_lineage: " ++ lineage ++ "\n---\n"

/-- The carrier's parse: text that is JSON, and bytes that are no text, are malformed. -/
def parseCarrier : Content → Except String String
  | .text s => parseIdentityContent s
  | _ => .error "missing opening --- frontmatter fence"

/-- `_read_lineage_strict`: an absent carrier is neither a lineage nor an error. -/
def readLineageStrict (d : Disk) : Except String (Option String) :=
  match probe identityPath d with
  | .found (.file c) => (parseCarrier c).map some
  | _ => .ok none

/-- `project_lineage_identity`: the lineage of a small, regular, well-formed carrier. -/
def projectLineageIdentity (d : Disk) : Option String :=
  match probe identityPath d with
  | .found (.file c) => if env.size c ≤ 4096 then (parseCarrier c).toOption else none
  | _ => none

/-- `_recovery_identity_binding`: a lineage must be the live one, and a receipt without one belongs
to the machine path that wrote it. -/
def recoveryIdentityBinding (live : Option String) (r : Record) : Except Refusal Unit :=
  match r.lineage? with
  | some lineage =>
      if live = some lineage then .ok ()
      else .error ⟨.projectMismatch, "receipt lineage " ++ Text.quote lineage ++
        " does not match this project's lineage; refuse cross-project recovery with zero writes"⟩
  | none =>
      if r.projectIdentity = "" then
        .error ⟨.projectMismatch, "receipt has no project lineage and no runtime identity; " ++
          "refuse to guess which project owns it"⟩
      else if r.projectIdentity = env.runtimeIdentity then .ok ()
      else .error ⟨.projectMismatch, "legacy receipt (no lineage) was created at " ++
        Text.quote r.projectIdentity ++ ", not the current project; a moved ambiguous legacy " ++
        "receipt must refuse"⟩

/-- The binding against the lineage on disk. -/
def bindRecord (d : Disk) (r : Record) : Except Refusal Unit :=
  recoveryIdentityBinding env (projectLineageIdentity env d) r

end Saipen
