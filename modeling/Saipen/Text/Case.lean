import Saipen.Text.Scan

/-! # Upper and lower case

The engine compares upper-cased text with ASCII words only. A character whose upper case is not made of
ASCII letters may stay as it is: such a comparison fails either way. -/

namespace Text

/-- The characters outside ASCII whose upper case is ASCII, with it. -/
def asciiUppers : List (Nat × String) :=
  [(0xdf, "SS"), (0x131, "I"), (0x17f, "S"), (0xfb00, "FF"), (0xfb01, "FI"), (0xfb02, "FL"),
    (0xfb03, "FFI"), (0xfb04, "FFL"), (0xfb05, "ST"), (0xfb06, "ST")]

def upperChar (c : Char) : List Char :=
  match asciiUppers.lookup c.toNat with
  | some cs => cs.toList
  | none => [c.toUpper]

/-- `str.upper`. -/
def upper (s : String) : String := String.ofList (s.toList.flatMap upperChar)

/-- `str.lower`; of the characters outside ASCII only the Kelvin sign has an ASCII letter. -/
def lower (s : String) : String :=
  String.ofList (s.toList.map fun c => if c.toNat = 0x212a then 'k' else c.toLower)

/-- The text in front of the first occurrence of a separator. -/
def before (sep : List Char) : List Char → List Char
  | [] => []
  | c :: cs => if sep.isPrefixOf (c :: cs) then [] else c :: before sep cs

/-- `str.partition`: the text in front of the first separator and the text behind it. -/
def partitionOn (sep : List Char) : List Char → Option (List Char × List Char)
  | [] => none
  | c :: cs =>
      match literal sep (c :: cs) with
      | some rest => some ([], rest)
      | none => (partitionOn sep cs).map fun r => (c :: r.1, r.2)

end Text
