import Saipen.Text.Repr

/-! # Physical records

One physical line of the BOARD is one ticket, so no value that is written to it may hold a character
that ends a line. -/

namespace Saipen.Board

open Text

/-- `RECORD_SEPARATORS` with `RECORD_SEPARATOR_NAMES`. -/
def recordSeparators : List (Char × String) :=
  [('\n', "LF (\\n)"), ('\r', "CR (\\r)"), (Char.ofNat 0x0b, "VT (\\x0b)"),
    (Char.ofNat 0x0c, "FF (\\x0c)"), (Char.ofNat 0x1c, "FS (\\x1c)"), (Char.ofNat 0x1d, "GS (\\x1d)"),
    (Char.ofNat 0x1e, "RS (\\x1e)"), (Char.ofNat 0x85, "NEL (\\x85)"), (Char.ofNat 0x2028, "U+2028"),
    (Char.ofNat 0x2029, "U+2029")]

/-- `record_separator_in`, with the name of the separator. -/
def recordSeparatorIn (value : String) : Option (Char × String) :=
  recordSeparators.find? fun s => s.1 ∈ value.toList

/-- `assert_single_record` for a string. -/
def assertSingleRecord (p : Printable) (value field : String) : Except String String :=
  match recordSeparatorIn value with
  | none => .ok value
  | some (_, name) =>
      .error ("BOARD field " ++ reprStr p field ++ " carries a physical record separator (" ++ name ++
        "); one BOARD scalar must render as exactly one ticket record -- a separator can inject a " ++
        "ticket identity no allocator ever issued")

theorem isLineBreak_iff_mem {c : Char} :
    isLineBreak c = true ↔ c ∈ recordSeparators.map (·.1) := by
  constructor
  · intro h
    have hcases : c.toNat ∈ [10, 13, 11, 12, 28, 29, 30, 0x85, 0x2028, 0x2029] := by
      simp only [isLineBreak, Bool.or_eq_true, Bool.and_eq_true, decide_eq_true_eq, beq_iff_eq] at h
      simp only [List.mem_cons, List.not_mem_nil, or_false]
      omega
    have hall : ∀ n ∈ [10, 13, 11, 12, 28, 29, 30, 0x85, 0x2028, 0x2029],
        Char.ofNat n ∈ recordSeparators.map (·.1) := by decide
    simpa using hall c.toNat hcases
  · have hall : ∀ d ∈ recordSeparators.map (·.1), isLineBreak d = true :=
      List.all_eq_true.mp (by decide)
    exact hall c

/-- A value without a separator is one line, and the other way round. -/
theorem recordSeparatorIn_eq_none_iff {value : String} :
    recordSeparatorIn value = none ↔ OneLine value.toList := by
  rw [recordSeparatorIn, List.find?_eq_none]
  constructor
  · intro h c hc
    by_contra hbreak
    obtain ⟨s, hs, rfl⟩ := List.mem_map.mp (isLineBreak_iff_mem.mp (by simpa using hbreak))
    exact h s hs (by simpa using hc)
  · intro h s hs hmem
    have hbreak := isLineBreak_iff_mem.mpr (List.mem_map_of_mem hs)
    rw [h s.1 (by simpa using hmem)] at hbreak
    cases hbreak

theorem assertSingleRecord_ok {p : Printable} {value field out : String}
    (h : assertSingleRecord p value field = .ok out) : out = value ∧ OneLine value.toList := by
  unfold assertSingleRecord at h
  split at h
  case h_1 hnone => exact ⟨(Except.ok.inj h).symm, recordSeparatorIn_eq_none_iff.mp hnone⟩
  case h_2 => cases h

theorem assertSingleRecord_eq_ok_iff {p : Printable} {value field out : String} :
    assertSingleRecord p value field = .ok out ↔ out = value ∧ OneLine value.toList := by
  constructor
  · exact assertSingleRecord_ok
  · rintro ⟨rfl, hline⟩
    rw [assertSingleRecord, recordSeparatorIn_eq_none_iff.mpr hline]

end Saipen.Board
