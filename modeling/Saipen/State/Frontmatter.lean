import Saipen.State.Scalar
import Saipen.Text.Lines

/-! # The STATE frontmatter

`parse_frontmatter` reads the lines between two fences: fields, the items of the list field in front
of them, and blank lines. `patch_state` and `remove_state_fields` edit the lines in place. -/

namespace Saipen.State

open Text

/-- The value of a field. -/
inductive Value where
  | scalar (x : Scalar)
  | list (items : List Scalar)
deriving DecidableEq

/-- The fields of a frontmatter, in the order of their lines. -/
abbrev Fields := List (String × Value)

/-! ### Lines -/

def isFence (line : String) : Bool := strip line = "---"

/-- `[A-Za-z_]` and `[A-Za-z0-9_]`. -/
def isNameStart (c : Char) : Bool := isAsciiAlpha c || c = '_'

def isNameChar (c : Char) : Bool := isAsciiAlnum c || c = '_'

/-- `^([A-Za-z_][A-Za-z0-9_]*):\s*(.*)$`, the rest stripped. -/
def fieldLine (line : String) : Option (String × String) :=
  let cs := line.toList
  match cs.takeWhile isNameChar, cs.dropWhile isNameChar with
  | c :: name, ':' :: rest =>
      if isNameStart c then some (String.ofList (c :: name), strip (String.ofList rest)) else none
  | _, _ => none

/-- `^\s+-\s+(.*)$`, the rest stripped. -/
def itemLine (line : String) : Option String :=
  let cs := line.toList
  match cs.takeWhile isSpace, cs.dropWhile isSpace with
  | _ :: _, '-' :: c :: rest => if isSpace c then some (strip (String.ofList rest)) else none
  | _, _ => none

/-! ### Reading -/

/-- The fields read so far, and the list field that takes the items. -/
structure Reading where
  fields : Fields := []
  current : Option String := none

/-- `fields[key].append(item)`. -/
def appendItem (key : String) (item : Scalar) (fields : Fields) : Fields :=
  fields.map fun f =>
    match f.2 with
    | .list items => if f.1 = key then (f.1, .list (items ++ [item])) else f
    | .scalar _ => f

section Reader

variable (p : Printable)

/-- One line of the frontmatter that is no fence. -/
def readLine (lineno : Nat) (line : String) (s : Reading) : Except String Reading :=
  if strip line = "" then .ok s
  else
    match itemLine line, s.current with
    | some raw, some key => .ok { s with fields := appendItem key (coerce raw) s.fields }
    | some _, none =>
        .error ("line " ++ lineno.repr ++ ": list item " ++ reprStr p (strip line) ++
          " appears outside any keyed list block")
    | none, _ =>
      match fieldLine line with
      | none => .error ("unparseable frontmatter line: " ++ reprStr p line)
      | some (key, raw) =>
          if key ∈ s.fields.map (·.1) then
            .error ("line " ++ lineno.repr ++ ": duplicate STATE field " ++ reprStr p key ++
              " (each field may appear once)")
          else if raw = "" then .ok ⟨s.fields ++ [(key, .list [])], some key⟩
          else .ok ⟨s.fields ++ [(key, .scalar (coerce raw))], none⟩

/-- The lines up to the closing fence. -/
def readLines (lineno : Nat) : List String → Reading → Except String Fields
  | [], _ => .error "no closing --- frontmatter fence"
  | line :: lines, s =>
      if isFence line then .ok s.fields
      else
        match readLine p lineno line s with
        | .error e => .error e
        | .ok s => readLines (lineno + 1) lines s

/-- `parse_frontmatter`. -/
def parseFrontmatter (text : String) : Except String Fields :=
  match splitLines text with
  | first :: lines =>
      if isFence first then readLines p 2 lines {} else .error "no opening --- frontmatter fence"
  | [] => .error "no opening --- frontmatter fence"

end Reader

/-! ### Writing -/

/-- What an operation sets a field to. -/
inductive Owned where
  | scalar (v : OwnedScalar)
  | list (items : List OwnedScalar)
deriving DecidableEq

/-- `isinstance(value, (list, tuple))`. -/
def Owned.isList : Owned → Bool
  | .scalar _ => false
  | .list _ => true

/-- `emit_block`. -/
def emitBlock (key : String) : Owned → Except String (List String)
  | .scalar v => do
      let s ← renderValue v
      pure [key ++ ": " ++ s]
  | .list items => do
      let lines ← items.mapM renderValue
      pure ((key ++ ":") :: lines.map ("  - " ++ ·))

/-- The pending fields without one. -/
def without (key : String) (pending : List (String × Owned)) : List (String × Owned) :=
  pending.filter (·.1 ≠ key)

/-- The pending value of the field a line begins. -/
def pendingAt (line : String) (pending : List (String × Owned)) : Option (String × Owned) := do
  let (key, _) ← fieldLine line
  let v ← pending.lookup key
  pure (key, v)

/-- The loop of `patch_state` over the body; `skipping` says that the items of a replaced list are
being passed over. What is still pending is emitted behind the body. -/
def patchBody (pending : List (String × Owned)) (skipping : Bool) :
    List String → Except String (List String)
  | [] => do
      let blocks ← pending.mapM fun f => emitBlock f.1 f.2
      pure blocks.flatten
  | line :: lines =>
      if skipping && (itemLine line).isSome then patchBody pending true lines
      else
        match pendingAt line pending with
        | some (key, v) => do
            let block ← emitBlock key v
            let rest ← patchBody (without key pending) v.isList lines
            pure (block ++ rest)
        | none => do
            let rest ← patchBody pending false lines
            pure (line :: rest)

/-- The loop of `remove_state_fields`. -/
def removeBody (keys : List String) (skipping : Bool) : List String → List String
  | [] => []
  | line :: lines =>
      if skipping && (itemLine line).isSome then removeBody keys true lines
      else
        match fieldLine line with
        | some (key, raw) =>
            if key ∈ keys then removeBody keys (raw = "") lines
            else line :: removeBody keys false lines
        | none => line :: removeBody keys false lines

/-- The body of a STATE text and what begins with its closing fence, by the newlines of the text. -/
def bodyLines (text : String) : List String := (split '\n' text).tail.takeWhile (!isFence ·)

def suffixLines (text : String) : List String := (split '\n' text).tail.dropWhile (!isFence ·)

/-- The checks both writers begin with. -/
def requireFrontmatter (p : Printable) (text : String) : Except String Unit :=
  if text = "" || !startsWith text "---" then .error "STATE has no opening --- frontmatter fence"
  else
    match parseFrontmatter p text with
    | .error e => .error ("state-malformed: " ++ e)
    | .ok _ =>
        if suffixLines text = [] then .error "STATE has no closing --- frontmatter fence" else .ok ()

/-- A text with an edited body. -/
def assemble (out suffix : List String) : String :=
  "---\n" ++ "\n".intercalate out ++ "\n" ++ "\n".intercalate suffix

/-- `patch_state`. -/
def patchState (p : Printable) (text : String) (owned : List (String × Owned)) :
    Except String String := do
  requireFrontmatter p text
  let out ← patchBody owned false (bodyLines text)
  pure (assemble out (suffixLines text))

/-- `remove_state_fields`. -/
def removeStateFields (p : Printable) (text : String) (keys : List String) : Except String String := do
  requireFrontmatter p text
  pure (assemble (removeBody keys false (bodyLines text)) (suffixLines text))

end Saipen.State
