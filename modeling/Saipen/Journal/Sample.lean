import Saipen.Journal.Project
import Mathlib.Logic.Encodable.Basic
import Mathlib.Logic.Equiv.List
import Mathlib.Data.Nat.Pairing

/-! # A world

The laws of `Environment` can hold together: `sampleEnvironment` has the digests of a few small
texts and of the empty directory, a clock whose origin is the first representable instant, and a
base64 codec that is an arbitrary injection into texts. -/

/-! ### Texts for arbitrary contents -/

/-- A number for every text. -/
def Text.code (s : String) : ℕ := Encodable.encode (s.toList.map Char.toNat)

theorem Text.code_injective {s t : String} (h : Text.code s = Text.code t) : s = t := by
  have hl : s.toList.map Char.toNat = t.toList.map Char.toNat := Encodable.encode_injective h
  have hchar : Function.Injective Char.toNat := fun a b hab => Char.toNat_inj.mp hab
  exact String.toList_inj.mp (List.map_injective_iff.mpr hchar hl)

mutual
/-- A number for every JSON value. -/
def Json.code : Json → ℕ
  | .null => Nat.pair 0 0
  | .bool b => Nat.pair 1 (if b then 1 else 0)
  | .int n => Nat.pair 2 (Encodable.encode n)
  | .float s => Nat.pair 3 (Text.code s)
  | .str s => Nat.pair 4 (Text.code s)
  | .arr items => Nat.pair 5 (codeItems items)
  | .obj fields => Nat.pair 6 (codeFields fields)

/-- A number for every list of values. -/
def Json.codeItems : List Json → ℕ
  | [] => 0
  | j :: js => Nat.pair (Json.code j) (Json.codeItems js) + 1

/-- A number for every list of fields. -/
def Json.codeFields : List (String × Json) → ℕ
  | [] => 0
  | (k, j) :: fs => Nat.pair (Text.code k) (Nat.pair (Json.code j) (Json.codeFields fs)) + 1
end

mutual
theorem Json.code_injective : ∀ a b : Json, a.code = b.code → a = b
  | .arr items, .arr items', h => by
    simp only [Json.code, Nat.pair_eq_pair, true_and] at h
    rw [Json.codeItems_injective items items' h]
  | .obj fields, .obj fields', h => by
    simp only [Json.code, Nat.pair_eq_pair, true_and] at h
    rw [Json.codeFields_injective fields fields' h]
  | .str s, .str t, h => by
    simp only [Json.code, Nat.pair_eq_pair, true_and] at h
    rw [Text.code_injective h]
  | .float s, .float t, h => by
    simp only [Json.code, Nat.pair_eq_pair, true_and] at h
    rw [Text.code_injective h]
  | .int n, .int m, h => by
    simp only [Json.code, Nat.pair_eq_pair, true_and] at h
    rw [Encodable.encode_injective h]
  | .bool b, .bool c, h => by cases b <;> cases c <;> simp_all [Json.code]
  | .null, b, h => by cases b <;> simp_all [Json.code]
  | .bool _, .null, h | .bool _, .int _, h | .bool _, .float _, h | .bool _, .str _, h
  | .bool _, .arr _, h | .bool _, .obj _, h => by simp [Json.code] at h
  | .int _, .null, h | .int _, .bool _, h | .int _, .float _, h | .int _, .str _, h
  | .int _, .arr _, h | .int _, .obj _, h => by simp [Json.code] at h
  | .float _, .null, h | .float _, .bool _, h | .float _, .int _, h | .float _, .str _, h
  | .float _, .arr _, h | .float _, .obj _, h => by simp [Json.code] at h
  | .str _, .null, h | .str _, .bool _, h | .str _, .int _, h | .str _, .float _, h
  | .str _, .arr _, h | .str _, .obj _, h => by simp [Json.code] at h
  | .arr _, .null, h | .arr _, .bool _, h | .arr _, .int _, h | .arr _, .float _, h
  | .arr _, .str _, h | .arr _, .obj _, h => by simp [Json.code] at h
  | .obj _, .null, h | .obj _, .bool _, h | .obj _, .int _, h | .obj _, .float _, h
  | .obj _, .str _, h | .obj _, .arr _, h => by simp [Json.code] at h

theorem Json.codeItems_injective : ∀ as bs : List Json,
    Json.codeItems as = Json.codeItems bs → as = bs
  | [], [], _ => rfl
  | [], _ :: _, h | _ :: _, [], h => by simp [Json.codeItems] at h
  | a :: as, b :: bs, h => by
    simp only [Json.codeItems, Nat.add_right_cancel_iff, Nat.pair_eq_pair] at h
    rw [Json.code_injective a b h.1, Json.codeItems_injective as bs h.2]

theorem Json.codeFields_injective : ∀ as bs : List (String × Json),
    Json.codeFields as = Json.codeFields bs → as = bs
  | [], [], _ => rfl
  | [], _ :: _, h | _ :: _, [], h => by simp [Json.codeFields] at h
  | (k, a) :: as, (l, b) :: bs, h => by
    simp only [Json.codeFields, Nat.add_right_cancel_iff, Nat.pair_eq_pair] at h
    rw [Text.code_injective h.1, Json.code_injective a b h.2.1, Json.codeFields_injective as bs h.2.2]
end

namespace Saipen

open FileTree

/-- A number for every content. -/
def Content.code : Content → ℕ
  | .doc j layout => Nat.pair 0 (Nat.pair j.code layout)
  | .text s => Nat.pair 1 (Text.code s)
  | .raw bytes => Nat.pair 2 (Encodable.encode (bytes.map UInt8.toNat))

theorem Content.code_injective {a b : Content} (h : a.code = b.code) : a = b := by
  cases a <;> cases b <;> simp only [Content.code, Nat.pair_eq_pair] at h
  case doc.doc =>
    obtain ⟨-, hj, rfl⟩ := h
    rw [Json.code_injective _ _ hj]
  case text.text => rw [Text.code_injective h.2]
  case raw.raw =>
    have hb : Function.Injective UInt8.toNat := fun a b hab => UInt8.toNat_inj.mp hab
    rw [List.map_injective_iff.mpr hb (Encodable.encode_injective h.2)]
  all_goals omega

/-- A number in unary. -/
def unary (n : ℕ) : String := String.ofList (List.replicate n 'A')

theorem unary_injective {m n : ℕ} (h : unary m = unary n) : m = n := by
  have hl := congrArg String.toList h
  simpa [unary] using congrArg List.length hl

/-! ### The environment -/

/-- Digests of small texts. -/
def sampleDigests : List (String × String) :=
  [("", "e3b0c44298fc1c14"), ("a", "ca978112ca1bbdca"), ("b", "3e23e8160039594a")]

/-- The digest of a text, or that of the empty one for a text outside the table. -/
def sampleHashText (s : String) : String := (sampleDigests.lookup s).getD "e3b0c44298fc1c14"

/-- The digest of the bytes of a file. -/
def sampleHashBytes : Content → String
  | .text s => sampleHashText s
  | _ => "e3b0c44298fc1c14"

theorem sampleHashText_ne (s : String) : sampleHashText s ≠ "" := by
  have h : ∀ e ∈ sampleDigests, e.2 ≠ "" := by decide
  unfold sampleHashText
  cases hl : sampleDigests.lookup s with
  | none => decide
  | some v => exact h (s, v) ((Assoc.mem_iff_lookup (by decide) s v).mpr hl)

/-- The digest of the frames of an empty directory. -/
def emptyTreeDigest : String := "a5dd37bbf01c777faca54c7017274141409aa9883e3b9d3f11f7d1cedfe28846"

/-- The first instant, and the others in unary. -/
def sampleIsoFormat : Instant → String
  | 0 => "0001-01-01T00:00:00Z"
  | n + 1 => unary (n + 1)

/-- The instant of a stamp. -/
def sampleStamp (s : String) : Option Instant :=
  if s = "0001-01-01T00:00:00Z" then some 0 else some s.toList.length

/-- An environment in which all the laws hold. -/
noncomputable def sampleEnvironment : Environment where
  root := ["work"]
  root_clean := by
    intro c hc
    obtain rfl := List.mem_singleton.mp hc
    exact ⟨by decide, by decide, by decide, by decide, by decide⟩
  hashBytes := sampleHashBytes
  hashBytes_ne := by
    intro c
    cases c with
    | text s => exact sampleHashText_ne s
    | doc _ _ => exact sampleHashText_ne ""
    | raw _ => exact sampleHashText_ne ""
  hashText := sampleHashText
  digestJson := fun j => unary j.code
  digestTree := fun _ => emptyTreeDigest
  digestListing := fun _ => ""
  digestReceipts := fun _ => ""
  sourceIdentity := fun _ _ => none
  external := fun _ => .absent
  stMode := fun n => if n.isFile then "33188" else "41471"
  repr := fun _ => ""
  strictUtcStamp := sampleStamp
  isoFormat := sampleIsoFormat
  strictUtcStamp_isoFormat := by
    intro t
    cases t with
    | zero => rfl
    | succ n =>
      have hne : unary (n + 1) ≠ "0001-01-01T00:00:00Z" := by
        intro h
        have hhead := congrArg (fun s : String => s.toList.head?) h
        rw [unary, List.replicate_succ] at hhead
        simp at hhead
      rw [sampleIsoFormat, sampleStamp, if_neg hne]
      simp [unary]
  isoFormat_strip := by
    intro t
    cases t with
    | zero => decide
    | succ n =>
      have hA : Text.isSpace 'A' = false := by decide
      rw [sampleIsoFormat, unary, Text.strip, String.toList_ofList, List.dropWhile_replicate,
        if_neg (by simp [hA]), List.reverse_replicate, List.dropWhile_replicate,
        if_neg (by simp [hA]), List.reverse_replicate]
  isoFormat_ne := by
    intro t
    cases t with
    | zero => decide
    | succ n =>
      intro h
      have := congrArg (fun s : String => s.toList.length) h
      simp [sampleIsoFormat, unary] at this
  runtimeIdentity := "/work"
  runtimeIdentity_ne := by decide
  verifier := fun _ _ _ _ => []
  encode64 := fun c => unary c.code
  decode64 := Function.partialInv fun c => unary c.code
  decode64_encode64 := by
    have hinj : Function.Injective fun c : Content => unary c.code := fun a b h =>
      Content.code_injective (unary_injective h)
    intro c
    exact Function.partialInv_left hinj c
  size := fun c =>
    match c with
    | .text s => s.toList.length
    | .raw bytes => bytes.length
    | .doc _ _ => 0
  size_text := by
    intro s
    simp only
    omega

end Saipen
