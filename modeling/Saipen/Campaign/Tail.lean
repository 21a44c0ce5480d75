import Saipen.Text
import Saipen.Text.Codec
import Saipen.Text.Window

/-! # The last line of the journal

`_tail_line_bounds` looks for the last line of LOG with something on it from the end of the file, in
windows of 8192 bytes: first for the last byte that is no space, then for the newline in front of it.
`_read_tail_event` reads at most 4096 bytes of that line. -/

namespace Saipen.Campaign

open Text

/-- `TAIL_WINDOW_BYTES`. -/
def tailWindowBytes : ℕ := 8192

/-- `TAIL_PREFIX_BYTES`. -/
def tailPrefixBytes : ℕ := 4096

/-- `_TAIL_SPACE`. -/
def isTailSpace (b : UInt8) : Bool := b = 32 || b = 9 || b = 13 || b = 10 || b = 11 || b = 12

/-- `_tail_line_bounds`. -/
def tailLineBounds (bytes : Bytes) : Option (ℕ × ℕ) :=
  (Window.scanBack (!isTailSpace ·) tailWindowBytes bytes bytes.length).map fun e =>
    ((Window.scanBack (· = 10) tailWindowBytes bytes e).getD 0, e)

/-- The text of a line that is reported: `decode("utf-8", errors="replace").strip()[:80]`. -/
def tailText (line : Bytes) : String :=
  let text := strip (String.ofList (replaceUtf8 0 0 0 0 line))
  if text = "" then "none" else String.ofList (text.toList.take 80)

/-- `_read_tail_event`; without bytes, LOG is no file or cannot be read. -/
def readTailEvent (log : Option Bytes) : String :=
  match log with
  | none => "none"
  | some bytes =>
    match tailLineBounds bytes with
    | none => "none"
    | some (start, e) => tailText ((bytes.drop start).take (min (e - start) tailPrefixBytes))

/-- The last line with something on it: what is before it, what is on it, and what follows it. -/
structure LastLine (bytes pre line post : Bytes) : Prop where
  parts : bytes = pre ++ line ++ post
  begins : pre = [] ∨ pre.getLast? = some 10
  oneLine : 10 ∉ line
  ends : ∃ b, line.getLast? = some b ∧ isTailSpace b = false
  blank : ∀ b ∈ post, isTailSpace b = true

/-- The end of the line is where a search of all bytes finds it. -/
theorem scanBack_content (bytes : Bytes) :
    Window.scanBack (!isTailSpace ·) tailWindowBytes bytes bytes.length =
      Window.lastPast (!isTailSpace ·) bytes := by
  rw [Window.scanBack_eq (by decide) bytes bytes.length le_rfl, List.take_length]

/-- Nothing is found where all is blank. -/
theorem tailLineBounds_eq_none {bytes : Bytes} :
    tailLineBounds bytes = none ↔ ∀ b ∈ bytes, isTailSpace b = true := by
  rw [tailLineBounds, scanBack_content, Option.map_eq_none_iff, Window.lastPast_eq_none]
  simp

/-- The bounds that are found are those of the last line. -/
theorem lastLine_of_bounds {bytes : Bytes} {start e : ℕ} (h : tailLineBounds bytes = some (start, e)) :
    ∃ pre line post, LastLine bytes pre line post ∧ start = pre.length ∧ e = (pre ++ line).length := by
  rw [tailLineBounds, scanBack_content] at h
  obtain ⟨e', he', hpair⟩ := Option.map_eq_some_iff.mp h
  obtain ⟨hstart, rfl⟩ := Prod.mk.inj hpair
  obtain ⟨front, b, post, hbytes, he, hb, hpost⟩ := Window.lastPast_eq_some he'
  have hspace : isTailSpace b = false := by simpa using hb
  have hnewline : b ≠ 10 := fun hten => by
    rw [hten] at hspace
    exact absurd hspace (by decide)
  have hbytes : bytes = (front ++ [b]) ++ post := by
    rw [hbytes]
    simp
  have htake : bytes.take e' = front ++ [b] := by
    rw [hbytes, List.take_left' (by simp [he])]
  have hle : e' ≤ bytes.length := by
    rw [hbytes, he]
    simp
  have hblank : ∀ c ∈ post, isTailSpace c = true := fun c hc => by simpa using hpost c hc
  rw [Window.scanBack_eq (by decide) bytes e' hle, htake] at hstart
  cases hline : Window.lastPast (· = (10 : UInt8)) (front ++ [b]) with
  | none =>
    -- there is no newline in front: the line is the first of the file
    rw [hline] at hstart
    have hnone := Window.lastPast_eq_none.mp hline
    refine ⟨[], front ++ [b], post, ⟨hbytes, Or.inl rfl, fun hten => ?_, ⟨b, by simp, hspace⟩, hblank⟩,
      hstart.symm, ?_⟩
    · have := hnone 10 hten
      simp at this
    · simp [he]
  | some s =>
    rw [hline] at hstart
    obtain ⟨before, x, rest, hsplit, hs, hx, hrest⟩ := Window.lastPast_eq_some hline
    have hx : x = 10 := by simpa using hx
    -- what is behind the newline ends with the last byte, which is none
    have hlast : rest.getLast? = some b := by
      have hends := congrArg List.getLast? hsplit
      rw [List.getLast?_concat, List.getLast?_append, List.getLast?_cons] at hends
      cases hr : rest.getLast? with
      | none =>
        rw [hr] at hends
        exact absurd (hx ▸ (by simpa using hends : b = x)) hnewline
      | some c =>
        rw [hr] at hends
        simpa using hends.symm
    refine ⟨before ++ [x], rest, post, ⟨?_, Or.inr (by simp [hx]), fun hten => ?_, ⟨b, hlast, hspace⟩, hblank⟩,
      ?_, ?_⟩
    · rw [hbytes, hsplit]
      simp
    · have := hrest 10 hten
      simp at this
    · rw [← hstart]
      simpa using hs
    · have hlength := congrArg List.length hsplit
      simp only [List.length_append, List.length_cons, List.length_nil] at hlength ⊢
      omega

/-- The bounds of the last line are found. -/
theorem LastLine.bounds {bytes pre line post : Bytes} (h : LastLine bytes pre line post) :
    tailLineBounds bytes = some (pre.length, (pre ++ line).length) := by
  obtain ⟨b, hlast, hspace⟩ := h.ends
  obtain ⟨front, hfront⟩ := List.getLast?_eq_some_iff.mp hlast
  have hend : Window.lastPast (!isTailSpace ·) bytes = some (pre ++ line).length := by
    -- nothing behind the line counts, and its last byte does
    have hpost : Window.lastPast (!isTailSpace ·) post = none :=
      Window.lastPast_eq_none.mpr fun c hc => by simp [h.blank c hc]
    have hfound := @Window.lastPast_concat UInt8 (!isTailSpace ·) (pre ++ front) b (by simp [hspace])
    rw [h.parts, Window.lastPast_append, hpost, hfront, ← List.append_assoc, hfound]
    simp [Nat.add_assoc]
  have htake : bytes.take (pre ++ line).length = pre ++ line := by
    rw [h.parts, List.take_left]
  have hle : (pre ++ line).length ≤ bytes.length := by
    rw [h.parts]
    simp
  have hstart : (Window.lastPast (· = (10 : UInt8)) (pre ++ line)).getD 0 = pre.length := by
    have hnone : Window.lastPast (· = (10 : UInt8)) line = none :=
      Window.lastPast_eq_none.mpr fun c hc => decide_eq_false fun hten => h.oneLine (hten ▸ hc)
    rw [Window.lastPast_append, hnone]
    rcases h.begins with rfl | hnewline
    · simp
    · obtain ⟨before, rfl⟩ := List.getLast?_eq_some_iff.mp hnewline
      have hfound := @Window.lastPast_concat UInt8 (· = 10) before 10 (by simp)
      rw [hfound]
      simp
  rw [tailLineBounds, scanBack_content, hend, Option.map_some,
    Window.scanBack_eq (by decide) bytes _ hle, htake, hstart]

/-- **The windowed search is the plain one.** Of every LOG, the bounds that are found are those of the
last line with something on it, however long it is and wherever the windows fall, and none are found
exactly where all of it is blank. Where that line has at most 4096 bytes, what is reported is what a
reading of the whole LOG would report. -/
theorem tail_event_exact (bytes : Bytes) :
    (tailLineBounds bytes = none ↔ ∀ b ∈ bytes, isTailSpace b = true) ∧
    (∀ start e, tailLineBounds bytes = some (start, e) ↔
      ∃ pre line post, LastLine bytes pre line post ∧ start = pre.length ∧ e = (pre ++ line).length) ∧
    ∀ pre line post, LastLine bytes pre line post → line.length ≤ tailPrefixBytes →
      readTailEvent (some bytes) = tailText line := by
  refine ⟨tailLineBounds_eq_none, fun start e => ⟨lastLine_of_bounds, ?_⟩, fun pre line post h hshort => ?_⟩
  · rintro ⟨pre, line, post, h, rfl, rfl⟩
    exact h.bounds
  · have hmin : min ((pre ++ line).length - pre.length) tailPrefixBytes = line.length := by
      rw [List.length_append]
      omega
    have hread : (bytes.drop pre.length).take line.length = line := by
      rw [h.parts, List.append_assoc, List.drop_left, List.take_left]
    rw [readTailEvent, h.bounds]
    simp only [hmin, hread]

end Saipen.Campaign
