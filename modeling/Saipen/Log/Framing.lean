import Saipen.Log.Readers
import Saipen.Template

/-! # The framing of the history hash

The readers hash, for every file of the history, its path, the number of its bytes in decimal, and the
bytes, with nothing between them. Which lists of files can be told apart by what is hashed is decided by
where the digits of the numbers stand: a layout leaves open all other places. -/

namespace Saipen.Log

open Text FileTree Template

/-- What is hashed of a file: its path below the root and its bytes. -/
abbrev Part := String × Bytes

/-- The bytes of a part. -/
def framePart (p : Part) : Bytes := encodeUtf8 p.1 ++ encodeUtf8 p.2.length.repr ++ p.2

/-- What the history readers feed to the hash. -/
def historyStream (ps : List Part) : Bytes := ps.flatMap framePart

/-- The parts of a history. -/
def History.parts (h : History) : List Part := h.segments.map fun s => (s.rel, s.raw)

/-! ### The readers hash the stream -/

theorem framed_eq_historyStream (h : History) : h.segments.flatMap Segment.frame = historyStream h.parts := by
  rw [historyStream, History.parts, List.flatMap_map]
  rfl

/-- The snapshots hash the stream of the parts. -/
theorem snapshot_hash (w : World) (p : Printable) (d : Disk) (r : Reading) (h : History) :
    (h.snapshot w p d r).hash = w.historyHash (historyStream h.parts) := by
  rw [History.snapshot_eq, framed_eq_historyStream]

/-- The routing summary hashes the stream of the parts. -/
theorem routing_hash (w : World) (p : Printable) (d : Disk) (h : History) :
    (h.routing w p d).hash = w.historyHash (historyStream h.parts) := by
  have hfollows := follows_history (w := w) (p := p) (d := d) (h := h) true
  rw [History.routing, hfollows.framed, ← framed_eq_historyStream, Pass.foldl_segment]
  rfl

/-! ### Layouts -/

/-- The length of the path and the number of bytes of each part. -/
def layout (ps : List Part) : List (Nat × Nat) := ps.map fun p => ((encodeUtf8 p.1).length, p.2.length)

/-- What a part of a layout fixes of the stream: the digits of the number. -/
def partTemplate (n : Nat × Nat) : List (Option UInt8) :=
  List.replicate n.1 none ++ (encodeUtf8 n.2.repr).map some ++ List.replicate n.2 none

/-- What a layout fixes of the stream. -/
def streamTemplate (l : List (Nat × Nat)) : List (Option UInt8) := l.flatMap partTemplate

variable {l m : List (Nat × Nat)} {as bs : List Part}

theorem fills_framePart (p : Part) : Fills (partTemplate ((encodeUtf8 p.1).length, p.2.length)) (framePart p) :=
  ((fills_replicate.mpr rfl).append (fills_map_some.mpr rfl)).append (fills_replicate.mpr rfl)

/-- A stream has the digits of its layout. -/
theorem fills_historyStream (ps : List Part) : Fills (streamTemplate (layout ps)) (historyStream ps) := by
  induction ps with
  | nil => exact .nil
  | cons p ps ih => exact (fills_framePart p).append ih

/-- Parts of one layout are read off their stream. -/
theorem eq_of_layout (hlayout : layout as = layout bs) (hstream : historyStream as = historyStream bs) :
    as = bs := by
  induction as generalizing bs with
  | nil =>
    cases bs with
    | nil => rfl
    | cons b bs => cases hlayout
  | cons a as ih =>
    cases bs with
    | nil => cases hlayout
    | cons b bs =>
      obtain ⟨hsize, hlayout⟩ := List.cons.inj hlayout
      obtain ⟨hpath, hraw⟩ := Prod.mk.inj hsize
      have hframe : (framePart a).length = (framePart b).length := by
        rw [framePart, framePart, List.length_append, List.length_append, List.length_append,
          List.length_append, hpath, hraw]
      obtain ⟨hparts, hrest⟩ := List.append_inj hstream hframe
      have hdigits : encodeUtf8 a.2.length.repr = encodeUtf8 b.2.length.repr := by rw [hraw]
      obtain ⟨hhead, hbytes⟩ := List.append_inj hparts (by
        rw [List.length_append, List.length_append, hpath, hdigits])
      obtain ⟨hname, -⟩ := List.append_inj hhead hpath
      rw [ih hlayout hrest, Prod.ext (encodeUtf8_injective hname) hbytes]

/-- ASCII bytes that have the digits of a layout are the stream of parts of it. -/
theorem exists_parts {s : Bytes} (hfills : Fills (streamTemplate l) s) (hascii : ∀ b ∈ s, b.toNat < 128) :
    ∃ ps, layout ps = l ∧ historyStream ps = s := by
  induction l generalizing s with
  | nil =>
    cases hfills
    exact ⟨[], rfl, rfl⟩
  | cons n l ih =>
    obtain ⟨frame, rest, rfl, hframe, hrest⟩ := Fills.split (t := partTemplate n) hfills
    obtain ⟨head, raw, rfl, hhead, hraw⟩ := hframe.split
    obtain ⟨path, digits, rfl, hpath, hdigits⟩ := hhead.split
    obtain ⟨ps, hlayout, hstream⟩ := ih hrest fun b hb => hascii b (List.mem_append_right _ hb)
    have htext : encodeUtf8 (asciiText path) = path := encodeUtf8_asciiText fun b hb =>
      hascii b (List.mem_append_left _ (List.mem_append_left _ (List.mem_append_left _ hb)))
    rw [fills_replicate] at hpath hraw
    rw [fills_map_some] at hdigits
    refine ⟨(asciiText path, raw) :: ps, ?_, ?_⟩
    · rw [layout, List.map_cons, htext, hpath, hraw]
      exact congrArg _ hlayout
    · rw [historyStream, List.flatMap_cons, framePart, htext, hraw, ← hdigits]
      exact congrArg _ hstream

/-- The places a layout fixes are ASCII. -/
theorem ascii_of_streamTemplate {b : UInt8} (h : some b ∈ streamTemplate l) : b.toNat < 128 := by
  obtain ⟨n, -, hn⟩ := List.mem_flatMap.mp h
  rcases List.mem_append.mp hn with hn | hn
  · rcases List.mem_append.mp hn with hn | hn
    · cases List.eq_of_mem_replicate hn
    · obtain ⟨c, hc, hb⟩ := List.mem_map.mp hn
      exact Option.some.inj hb ▸ encodeUtf8_repr_ascii n.2 c hc
  · cases List.eq_of_mem_replicate hn

/-- Parts of two layouts have one stream exactly when the digits of the layouts fit. -/
theorem exists_same_stream_iff : (∃ as bs, layout as = l ∧ layout bs = m ∧ historyStream as = historyStream bs) ↔
    Fit (streamTemplate l) (streamTemplate m) := by
  constructor
  · rintro ⟨as, bs, rfl, rfl, hstream⟩
    exact (fills_historyStream as).fit (hstream ▸ fills_historyStream bs)
  · intro hfit
    obtain ⟨hl, hm⟩ := hfit.fills_overlay 97
    have hascii : ∀ b ∈ overlay 97 (streamTemplate l) (streamTemplate m), b.toNat < 128 := by
      intro b hb
      rcases mem_overlay hb with h | h | rfl
      · exact ascii_of_streamTemplate h
      · exact ascii_of_streamTemplate h
      · decide
    obtain ⟨as, has, hstream⟩ := exists_parts hl hascii
    obtain ⟨bs, hbs, hstream'⟩ := exists_parts hm hascii
    exact ⟨as, bs, has, hbs, hstream.trans hstream'.symm⟩

/-- Lists of parts of two layouts can be told apart by what is hashed, whatever their paths and bytes, exactly
when the layouts are the same or the digits they fix do not fit. -/
theorem stream_unambiguous_iff (l m : List (Nat × Nat)) :
    (∀ as bs : List Part, layout as = l → layout bs = m → historyStream as = historyStream bs → as = bs) ↔
      l = m ∨ ¬Fit (streamTemplate l) (streamTemplate m) := by
  constructor
  · intro h
    by_cases hfit : Fit (streamTemplate l) (streamTemplate m)
    · obtain ⟨as, bs, has, hbs, hstream⟩ := exists_same_stream_iff.mpr hfit
      rw [← has, ← hbs, h as bs has hbs hstream]
      exact .inl rfl
    · exact .inr hfit
  · rintro (rfl | hfit) as bs has hbs hstream
    · exact eq_of_layout (has.trans hbs.symm) hstream
    · exact absurd (exists_same_stream_iff.mp ⟨as, bs, has, hbs, hstream⟩) hfit

/-- A sealed segment of one byte and an active LOG of one byte. -/
def twoFiles : History := ⟨[⟨"LOG-1.md", 1, by decide, encodeUtf8 "6"⟩], some (encodeUtf8 "y")⟩

/-- A sealed segment alone, of sixteen bytes. -/
def oneFile : History := ⟨[⟨"LOG-1.md", 1, by decide, encodeUtf8 ".saipen/LOG.md1y"⟩], none⟩

/-- The two histories are hashed alike. -/
theorem two_files_hash_as_one :
    historyStream twoFiles.parts = historyStream oneFile.parts ∧ twoFiles.parts ≠ oneFile.parts := by
  decide +kernel

end Saipen.Log
