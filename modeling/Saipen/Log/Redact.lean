import Saipen.Text.Scan

/-! # Credential redaction

`redact_credentials` replaces six shapes of credentials, one substitution after the other. No shape
can be matched in two ways from one place, so each is a scanner that answers the replacement and how
many characters it stands for. -/

namespace Saipen.Log

open Text

/-- A scanner: the character before the place, and the text from the place on. -/
abbrev Shape := Option Char → List Char → Option (List Char × Nat)

/-- `pattern.sub(repl, text)`: the leftmost matches that do not overlap; `skip` characters belong to
the match being replaced. -/
def substitute (shape : Shape) (before : Option Char) (skip : Nat) : List Char → List Char
  | [] => []
  | c :: cs =>
      match skip with
      | skip + 1 => substitute shape (some c) skip cs
      | 0 =>
          match shape before (c :: cs) with
          | some (replacement, length) =>
              replacement ++ substitute shape (some c) (length - 1) cs
          | none => c :: substitute shape (some c) 0 cs

/-- The ASCII letter a character is compared as under `(?i)`. -/
def foldCase (c : Char) : Char :=
  if 65 ≤ c.toNat && c.toNat ≤ 90 then Char.ofNat (c.toNat + 32)
  else match c.toNat with
    | 0x130 | 0x131 => 'i'
    | 0x17f => 's'
    | 0x212a => 'k'
    | _ => c

/-- `[a-z0-9_]` under `(?i)`. -/
def isWord (c : Char) : Bool := isAsciiAlnum (foldCase c) || c = '_'

/-- A literal under `(?i)`. -/
def foldLiteral : List Char → List Char → Option (List Char)
  | [], cs => some cs
  | p :: ps, c :: cs => if p = foldCase c then foldLiteral ps cs else none
  | _ :: _, [] => none

/-- `prefix` followed by exactly `length` characters of a class. -/
def tokenShape (opening : String) (member : Char → Bool) (length : Nat) : Shape := fun _ cs => do
  let rest ← literal opening.toList cs
  if (rest.take length).length = length ∧ (rest.take length).all member then
    some ((opening ++ "***").toList, opening.length + length)
  else none

/-- `sk-[a-zA-Z0-9]{32,}`. -/
def secretShape : Shape := fun _ cs => do
  let rest ← literal "sk-".toList cs
  let run := rest.takeWhile isAsciiAlnum
  if 32 ≤ run.length then some ("sk-***".toList, 3 + run.length) else none

/-- `(postgres(?:ql)?://[^:]+):[^@]+(@)`. -/
def postgresShape : Shape := fun _ cs => do
  let (scheme, rest) ←
    match literal "postgresql://".toList cs with
    | some rest => some ("postgresql://".toList, rest)
    | none => (literal "postgres://".toList cs).map fun rest => ("postgres://".toList, rest)
  let (user, rest) ← untilChar ':' rest
  let (password, _) ← untilChar '@' rest
  if user = [] ∨ password = [] then none
  else some (scheme ++ user ++ ":***@".toList, scheme.length + user.length + password.length + 2)

/-- `(?i)(bearer\s+)[a-zA-Z0-9_\-\.]{30,}`. -/
def bearerShape : Shape := fun _ cs => do
  let rest ← foldLiteral "bearer".toList cs
  let gap := rest.takeWhile isSpace
  let run := (rest.dropWhile isSpace).takeWhile fun c => isWord c || c = '-' || c = '.'
  if gap ≠ [] ∧ 30 ≤ run.length then
    some (cs.take (6 + gap.length) ++ "***".toList, 6 + gap.length + run.length)
  else none

/-- An optional quotation mark. -/
def optionalQuote (cs : List Char) : List Char :=
  match cs with
  | c :: rest => if c = '"' ∨ c = '\'' then rest else cs
  | [] => []

/-- The length of a quoted value of at least eight characters, or of sixteen hexadecimal digits. -/
def secretValue (cs : List Char) : Option Nat :=
  let quoted (mark : Char) (rest : List Char) : Option Nat := do
    let (value, _) ← untilChar mark rest
    if 8 ≤ value.length then some (value.length + 2) else none
  match cs with
  | '"' :: rest => quoted '"' rest
  | '\'' :: rest => quoted '\'' rest
  | cs =>
      let run := cs.takeWhile fun c => isLowerHex (foldCase c)
      if 16 ≤ run.length then some run.length else none

/-- The named private-key field: the name ends in `private_key` and starts an identifier. -/
def privateKeyShape : Shape := fun before cs => do
  if before.any isWord then none
  let name := optionalQuote cs
  let run := name.takeWhile isWord
  let rest := optionalQuote (name.dropWhile isWord)
  let _ ← foldLiteral "private_key".toList (run.drop (run.length - 11))
  match rest.dropWhile isSpace with
  | c :: rest =>
      if c = ':' ∨ c = '=' then do
        let value := rest.dropWhile isSpace
        let length ← secretValue value
        let head := cs.length - value.length
        some (cs.take head ++ "***".toList, head + length)
      else none
  | [] => none

/-- `"private_key" in text.lower()`. -/
def mentionsPrivateKey (cs : List Char) : Bool :=
  let lower (c : Char) : Char := if c.toNat = 0x130 ∨ c.toNat = 0x131 then c else foldCase c
  cs.tails.any fun cs => "private_key".toList.isPrefixOf (cs.map lower)

/-- `redact_credentials`. -/
@[irreducible] def redactCredentials (text : String) : String :=
  let isKeyId (c : Char) : Bool := (48 ≤ c.toNat && c.toNat ≤ 57) || (65 ≤ c.toNat && c.toNat ≤ 90)
  let shapes : List Shape :=
    [tokenShape "ghp_" isAsciiAlnum 36, tokenShape "AKIA" isKeyId 16, secretShape, postgresShape,
      bearerShape]
  let cs := shapes.foldl (fun cs shape => substitute shape none 0 cs) text.toList
  String.ofList (if mentionsPrivateKey cs then substitute privateKeyShape none 0 cs else cs)

end Saipen.Log
