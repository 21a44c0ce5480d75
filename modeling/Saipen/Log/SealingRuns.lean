import Saipen.Log.SealingLaw
import Saipen.Text.Document

/-! # The history on disk across seals and appends

What the readers find on disk behind each write of a seal and of an append, and what any run of them comes to. -/

namespace Saipen.Log

open Text FileTree Accumulate Sorting

section Disk

variable {w : World} {p : Printable} {d d' : Disk} {h h' : History} {c : Content}

/-! ### The sealed container -/

/-- The container that is read is the directory, or nothing. -/
theorem sealedContainer_of_readHistory (hread : readHistory w d = .ok h) :
    sealedContainer d = .ok (logsEntries d) := by
  rw [readHistory] at hread
  rw [logsEntries]
  unfold sealedContainer at hread ⊢
  cases hprobe : probe [".saipen", "logs"] d with
  | absent => rfl
  | blocked =>
    rw [hprobe] at hread
    cases hread
  | found n =>
    rw [hprobe] at hread
    cases n with
    | dir entries => rfl
    | link _ => cases hread
    | file _ => cases hread
    | special => cases hread

/-- The sealed segments among some entries, in numeric order. -/
def sealedOf (w : World) (entries : Entries Content) : Except String (List SealedSegment) :=
  ((sortBy (fun e : String × Node Content => (segmentNumber e.1).getD 0) entries).filterMap (sealedNode w)).mapM id

/-- A history is read when its parts are. -/
theorem readHistory_eq_ok_iff : readHistory w d = .ok h ↔
    sealedContainer d = .ok (logsEntries d) ∧ sealedOf w (logsEntries d) = .ok h.sealed ∧
      activeNode w d = .ok h.active ∧ ∀ raw ∈ h.active, isCanonicalEncoding raw = true := by
  constructor
  · intro hread
    have hcontainer := sealedContainer_of_readHistory hread
    refine ⟨hcontainer, ?_⟩
    rw [readHistory, hcontainer] at hread
    simp only [bind, Except.bind] at hread
    have hsorted : (((logsEntries d).insertionSort fun a b =>
        (segmentNumber a.1).getD 0 ≤ (segmentNumber b.1).getD 0).filterMap (sealedNode w)).mapM id =
          sealedOf w (logsEntries d) := rfl
    rw [hsorted] at hread
    cases hsealed : sealedOf w (logsEntries d) with
    | error e =>
      rw [hsealed] at hread
      cases hread
    | ok sealed =>
      rw [hsealed] at hread
      cases hactive : activeNode w d with
      | error e =>
        rw [hactive] at hread
        cases hread
      | ok active =>
        rw [hactive] at hread
        dsimp only at hread
        split_ifs at hread with hcanonical
        obtain rfl := Except.ok.inj hread
        refine ⟨rfl, rfl, fun raw hraw => ?_⟩
        dsimp only at hraw
        rw [Option.mem_def.mp hraw] at hcanonical
        simpa using hcanonical
  · rintro ⟨hcontainer, hsealed, hactive, hcanonical⟩
    have hsorted : (((logsEntries d).insertionSort fun a b =>
        (segmentNumber a.1).getD 0 ≤ (segmentNumber b.1).getD 0).filterMap (sealedNode w)).mapM id =
          sealedOf w (logsEntries d) := rfl
    have hnone : (h.active.any fun raw => !isCanonicalEncoding raw) = false := by
      cases hraw : h.active with
      | none => rfl
      | some raw => simp [hcanonical raw hraw]
    rw [readHistory, hcontainer]
    simp only [bind, Except.bind]
    rw [hsorted, hsealed, hactive]
    dsimp only
    rw [hnone, if_neg Bool.false_ne_true]
    rfl

/-- The segment behind an entry with a number. -/
theorem sealedNode_file {name : String} {n : ℕ} (hn : segmentNumber name = some n) (c : Content) :
    ∃ s : SealedSegment, sealedNode w (name, .file c) = some (.ok s) ∧ s.number = n ∧ s.name = name ∧ s.raw = w.bytes c := by
  unfold sealedNode
  split
  · next hnone =>
    rw [hn] at hnone
    cases hnone
  · next number hnumber =>
    obtain rfl := Option.some.inj (hn.symm.trans hnumber)
    exact ⟨_, rfl, rfl, rfl, rfl⟩

/-- A segment that is read has a file with its number. -/
theorem isFile_of_sealedNode {e : String × Node Content} {s : SealedSegment} (hs : sealedNode w e = some (.ok s)) :
    segmentNumber e.1 = some s.number ∧ e.2.isFile = true := by
  unfold sealedNode at hs
  split at hs
  · cases hs
  · next number hnumber =>
    cases hnode : e.2 with
    | file c =>
      rw [hnode] at hs
      obtain rfl := Except.ok.inj (Option.some.inj hs)
      exact ⟨hnumber, rfl⟩
    | link _ =>
      rw [hnode] at hs
      cases hs
    | special =>
      rw [hnode] at hs
      cases hs
    | dir _ =>
      rw [hnode] at hs
      cases hs

theorem mapM_ok_iff {ε α : Type} {xs : List (Except ε α)} : ∀ {ys : List α},
    xs.mapM id = .ok ys ↔ xs = ys.map Except.ok := by
  induction xs with
  | nil =>
    intro ys
    cases ys with
    | nil => simp [pure, Except.pure]
    | cons y ys => simp [pure, Except.pure]
  | cons x xs ih =>
    intro ys
    rw [List.mapM_cons]
    cases x with
    | error e => cases ys <;> simp [bind, Except.bind]
    | ok y =>
      cases hxs : xs.mapM id with
      | error e =>
        have hnone : ∀ zs : List α, xs ≠ zs.map Except.ok := fun zs h => by
          rw [ih.mpr h] at hxs
          cases hxs
        cases ys with
        | nil => simp [bind, Except.bind]
        | cons z zs => simp [bind, Except.bind, hnone zs]
      | ok zs =>
        obtain rfl := ih.mp hxs
        cases ys with
        | nil => simp [bind, Except.bind, pure, Except.pure]
        | cons z ys =>
          have hinj : zs.map (Except.ok (ε := ε)) = ys.map Except.ok ↔ zs = ys :=
            (List.map_injective_iff.mpr fun a b => Except.ok.inj).eq_iff
          simp [bind, Except.bind, pure, Except.pure, hinj]

theorem lt_nextSegmentNumber {n : ℕ} (hn : n ∈ segmentNumbers d) : n < nextSegmentNumber d := by
  rw [nextSegmentNumber, Nat.lt_succ_iff, le_foldl_max]
  exact .inr ⟨n, hn, le_rfl⟩

/-- The entries with a number are files. -/
theorem mem_segmentNumbers {sealed : List SealedSegment} (hsealed : sealedOf w (logsEntries d) = .ok sealed) {n : ℕ} :
    n ∈ segmentNumbers d ↔ ∃ e ∈ logsEntries d, segmentNumber e.1 = some n := by
  rw [segmentNumbers, List.mem_filterMap]
  constructor
  · rintro ⟨e, he, hn⟩
    exact ⟨e, (List.mem_filter.mp he).1, hn⟩
  · rintro ⟨e, he, hn⟩
    refine ⟨e, List.mem_filter.mpr ⟨he, ?_⟩, hn⟩
    have hsome : (sealedNode w e).isSome = true := by
      unfold sealedNode
      split
      · next hnone =>
        rw [hn] at hnone
        cases hnone
      · rfl
    obtain ⟨r, hr⟩ := Option.isSome_iff_exists.mp hsome
    have hmem : r ∈ sealed.map Except.ok := by
      rw [← mapM_ok_iff.mp hsealed]
      exact List.mem_filterMap.mpr ⟨e, mem_sortBy.mpr he, hr⟩
    obtain ⟨s, -, rfl⟩ := List.mem_map.mp hmem
    exact (isFile_of_sealedNode hr).2

theorem number_mem_segmentNumbers {sealed : List SealedSegment} (hsealed : sealedOf w (logsEntries d) = .ok sealed)
    {s : SealedSegment} (hs : s ∈ sealed) : s.number ∈ segmentNumbers d := by
  have hmem : Except.ok s ∈ sealed.map (Except.ok (ε := String)) := List.mem_map_of_mem hs
  rw [← mapM_ok_iff.mp hsealed] at hmem
  obtain ⟨e, he, hnode⟩ := List.mem_filterMap.mp hmem
  exact (mem_segmentNumbers hsealed).mpr ⟨e, mem_sortBy.mp he, (isFile_of_sealedNode hnode).1⟩

/-- No entry has the name of the next segment. -/
theorem lookup_nextSegment {sealed : List SealedSegment} (hsealed : sealedOf w (logsEntries d) = .ok sealed) :
    (logsEntries d).lookup (segmentName (nextSegmentNumber d)) = none := by
  rw [← Assoc.notMem_iff_lookup]
  intro hmem
  obtain ⟨e, he, hname⟩ := List.mem_map.mp hmem
  have hnumber : segmentNumber e.1 = some (nextSegmentNumber d) := by rw [hname, segmentNumber_segmentName]
  exact (lt_nextSegmentNumber ((mem_segmentNumbers hsealed).mpr ⟨e, he, hnumber⟩)).false

/-- A segment under the next number is read behind the others. -/
theorem sealedOf_insert {sealed : List SealedSegment} (hsealed : sealedOf w (logsEntries d) = .ok sealed)
    {name : String} (hname : segmentNumber name = some (nextSegmentNumber d)) (hfree : (logsEntries d).lookup name = none)
    (c : Content) : ∃ s : SealedSegment, s.number = nextSegmentNumber d ∧ s.raw = w.bytes c ∧
      sealedOf w (insertEntry name (.file c) (logsEntries d)) = .ok (sealed ++ [s]) := by
  obtain ⟨s, hnode, hnumber, -, hraw⟩ := sealedNode_file (w := w) hname c
  refine ⟨s, hnumber, hraw, ?_⟩
  have hkeys : ∀ e ∈ logsEntries d, (segmentNumber e.1).getD 0 < (segmentNumber (name, Node.file c).1).getD 0 := by
    intro e he
    show (segmentNumber e.1).getD 0 < (segmentNumber name).getD 0
    rw [hname, Option.getD_some]
    cases hn : segmentNumber e.1 with
    | none => exact Nat.succ_pos _
    | some n => exact lt_nextSegmentNumber ((mem_segmentNumbers hsealed).mpr ⟨e, he, hn⟩)
  have hlast : [(name, Node.file c)].filterMap (sealedNode w) = [.ok s] := by
    rw [List.filterMap_cons, hnode, List.filterMap_nil]
  rw [insertEntry_of_absent hfree, sealedOf, sortBy_concat hkeys, mapM_ok_iff, List.filterMap_append, hlast,
    mapM_ok_iff.mp hsealed, List.map_append, List.map_singleton]

/-! ### Writing the segment -/

/-- The container behind the write of a segment. -/
theorem probe_logs_write {name : String}
    (hwrite : writeFile c [".saipen", "logs", name] d = some d') :
    probe [".saipen", "logs"] d' = .found (.dir (insertEntry name (.file c) (logsEntries d))) := by
  obtain ⟨sub, sub', hsub, rfl, hroot⟩ := alter_cons_eq_some (List.cons_ne_nil _ _) hwrite
  obtain ⟨logs, logs', hlogs, rfl, hdir⟩ := alter_cons_eq_some (List.cons_ne_nil _ _) hsub
  -- the entries that are changed are those of the container
  have hentries : logs = logsEntries d := by
    rw [logsEntries]
    rcases hroot with hroot | ⟨hroot, rfl, -⟩
    · rw [probe_cons_of_dir _ hroot, probe_singleton]
      rcases hdir with hdir | ⟨hdir, rfl, -⟩
      · rw [hdir]
        rfl
      · rw [hdir]
        rfl
    · rw [probe_cons_of_none _ hroot]
      rcases hdir with hdir | ⟨-, rfl, -⟩
      · cases hdir
      · rfl
  rw [alter_singleton, Option.map_eq_some_iff] at hlogs
  obtain ⟨v, hv, rfl⟩ := hlogs
  have hfile : v = some (.file c) := by
    cases hlook : logs.lookup name with
    | none =>
      rw [hlook] at hv
      exact (Option.some.inj hv).symm
    | some n =>
      rw [hlook] at hv
      cases n with
      | file _ => exact (Option.some.inj hv).symm
      | link _ => cases hv
      | special => cases hv
      | dir _ => cases hv
  rw [probe_cons_of_dir _ (lookup_insertEntry_self _ _ _), probe_singleton, lookup_insertEntry_self, hfile, hentries]
  rfl

/-- The segment can be written where the history is read. -/
theorem exists_write {raw : Bytes} (hread : readHistory w d = .ok h) (hactive : h.active = some raw) (c : Content) :
    ∃ d', writeFile c (nextSegmentRel d) d = some d' := by
  obtain ⟨hcontainer, hsealed, hnode, -⟩ := readHistory_eq_ok_iff.mp hread
  have hfree := lookup_nextSegment hsealed
  rw [hactive, activeNode] at hnode
  -- the active LOG stands in `.saipen`, which is therefore a directory
  have hroot : ∃ sub, d.lookup ".saipen" = some (.dir sub) := by
    cases hlook : d.lookup ".saipen" with
    | none =>
      rw [probe_cons_of_none _ hlook] at hnode
      cases hnode
    | some n =>
      cases n with
      | dir sub => exact ⟨sub, rfl⟩
      | file _ => simp [probe, hlook] at hnode
      | link _ => simp [probe, hlook] at hnode
      | special => simp [probe, hlook] at hnode
  obtain ⟨sub, hroot⟩ := hroot
  have hput : ∀ es : Entries Content, es.lookup (segmentName (nextSegmentNumber d)) = none →
      ∃ es', writeFile c [segmentName (nextSegmentNumber d)] es = some es' := by
    intro es hes
    rw [writeFile, alter_singleton, hes]
    exact ⟨_, rfl⟩
  have hsub : ∃ sub', writeFile c ["logs", segmentName (nextSegmentNumber d)] sub = some sub' := by
    rw [sealedContainer, probe_cons_of_dir _ hroot, probe_singleton] at hcontainer
    rw [logsEntries, probe_cons_of_dir _ hroot, probe_singleton] at hfree
    cases hlogs : sub.lookup "logs" with
    | none =>
      obtain ⟨es', hes'⟩ := hput [] rfl
      rw [writeFile, alter_cons_of_none _ (List.cons_ne_nil _ _) hlogs]
      rw [writeFile] at hes'
      rw [hes']
      exact ⟨_, rfl⟩
    | some n =>
      rw [hlogs] at hcontainer hfree
      cases n with
      | dir es =>
        obtain ⟨es', hes'⟩ := hput es hfree
        rw [writeFile, alter_cons_of_dir _ _ (List.cons_ne_nil _ _) hlogs]
        rw [writeFile] at hes'
        rw [hes']
        exact ⟨_, rfl⟩
      | file _ => cases hcontainer
      | link _ => cases hcontainer
      | special => cases hcontainer
  obtain ⟨sub', hsub'⟩ := hsub
  rw [nextSegmentRel, writeFile, alter_cons_of_dir _ _ (List.cons_ne_nil _ _) hroot]
  rw [writeFile] at hsub'
  rw [hsub']
  exact ⟨_, rfl⟩

/-- The history behind the write of the segment: the active LOG stands in it twice. -/
theorem readHistory_write {raw : Bytes} (hread : readHistory w d = .ok h) (hactive : h.active = some raw)
    (hwrite : writeFile (.raw raw) (nextSegmentRel d) d = some d') :
    ∃ s : SealedSegment, s.number = nextSegmentNumber d ∧ s.raw = raw ∧
      readHistory w d' = .ok ⟨h.sealed ++ [s], some raw⟩ := by
  obtain ⟨-, hsealed, hnode, hcanonical⟩ := readHistory_eq_ok_iff.mp hread
  obtain ⟨s, hnumber, hraw, hmore⟩ := sealedOf_insert hsealed (segmentNumber_segmentName _) (lookup_nextSegment hsealed)
    (.raw raw)
  have hprobe := probe_logs_write hwrite
  have hentries : logsEntries d' =
      insertEntry (segmentName (nextSegmentNumber d)) (.file (.raw raw)) (logsEntries d) := by
    rw [logsEntries, hprobe]
  have hapart : Apart [".saipen", "LOG.md"] (nextSegmentRel d) :=
    apart_cons_self.mpr (apart_of_head_ne (by decide) _ _)
  refine ⟨s, hnumber, hraw, readHistory_eq_ok_iff.mpr ⟨?_, ?_, ?_, ?_⟩⟩
  · rw [sealedContainer, logsEntries, hprobe]
  · rw [hentries, hmore]
  · rw [activeNode, probe_alter_of_apart hwrite hapart, ← hactive]
    exact hnode
  · rw [← hactive]
    exact hcanonical

/-! ### Writing the active LOG -/

/-- A disk on which the active LOG has been written as a text, up to the newline at its end, and the sealed container
has not been touched. -/
structure Goes (w : World) (text : String) (d d' : Disk) : Prop where
  logs : probe [".saipen", "logs"] d' = probe [".saipen", "logs"] d
  active : ∃ c, probe [".saipen", "LOG.md"] d' = .found (.file c) ∧ isCanonicalEncoding (w.bytes c) = true ∧
    ∃ front close, text = front ++ "\n" ∧ close ∈ ["", "\n"] ∧ normalisedDocText (w.bytes c) = front ++ close

/-- The history behind the write of the active LOG. -/
theorem Goes.readHistory {text : String} (hgoes : Goes w text d d') (hread : readHistory w d = .ok h) :
    ∃ raw, readHistory w d' = .ok ⟨h.sealed, some raw⟩ ∧
      ∃ front close, text = front ++ "\n" ∧ close ∈ ["", "\n"] ∧ normalisedDocText raw = front ++ close := by
  obtain ⟨hcontainer, hsealed, -, -⟩ := readHistory_eq_ok_iff.mp hread
  obtain ⟨c, hprobe, hcanonical, htext⟩ := hgoes.active
  have hentries : logsEntries d' = logsEntries d := by rw [logsEntries, logsEntries, hgoes.logs]
  refine ⟨w.bytes c, readHistory_eq_ok_iff.mpr ⟨?_, ?_, ?_, ?_⟩, htext⟩
  · rw [hentries, ← hcontainer, sealedContainer, sealedContainer, hgoes.logs]
  · rw [hentries, hsealed]
  · rw [activeNode, hprobe]
    rfl
  · rintro raw hraw
    obtain rfl := Option.some.inj hraw
    exact hcanonical

/-- The lines of an active LOG with a line behind its text. -/
theorem fullLines_behind {front front' line close : String} (hclose : close ∈ ["", "\n"]) (hline : OneLine line.toList)
    (hne : line ≠ "") (h : rstripNewlines front ++ "\n" ++ line ++ "\n" = front' ++ "\n") :
    fullLines (front' ++ close) = fullLines front ++ [line] := by
  have hfront : front' = rstripNewlines front ++ "\n" ++ line := by
    apply String.toList_injective
    have hlist := congrArg String.toList h
    rw [String.toList_append, String.toList_append (s := front')] at hlist
    exact (List.append_cancel_right hlist).symm
  rw [hfront, String.append_assoc, fullLines_append, fullLines_line hline hne hclose]

theorem ne_empty_of_parse {line : String} {e : LogEvent} (hparse : parseLogLine line = some e) : line ≠ "" := by
  rintro rfl
  have hnone : parseLogLine "" = none := by decide
  rw [hnone] at hparse
  cases hparse

/-! ### One append -/

/-- Behind an append the history has grown by the line. -/
theorem grown_of_append {line : String} {e : LogEvent} (hread : readHistory w d = .ok h) (hline : OneLine line.toList)
    (hparse : parseLogLine line = some e)
    (hgoes : Goes w (rstripNewlines (normalisedDocText (h.active.getD [])) ++ "\n" ++ line ++ "\n") d d') :
    ∃ h', readHistory w d' = .ok h' ∧ h'.sealed = h.sealed ∧ h.Grown line h' := by
  obtain ⟨raw, hread', front, close, htext, hclose, hnorm⟩ := hgoes.readHistory hread
  refine ⟨_, hread', rfl, [], fun l hl => absurd hl List.not_mem_nil, ?_⟩
  rw [fullTexts_eq, fullTexts_eq]
  dsimp only
  rw [Option.getD_some, hnorm, fullLines_behind hclose hline (ne_empty_of_parse hparse) htext, List.nil_append,
    List.append_assoc]

/-! ### One seal -/

variable {call : SealCall} {plan : SealPlan}

/-- What an accepted seal has found and writes. -/
theorem sealLog_eq_ok (hread : readHistory w d = .ok h) (hplan : sealLog w p d call = .ok plan) :
    ∃ raw draft result, h.active = some raw ∧ plan.sealed = raw ∧ plan.segment = nextSegmentRel d ∧
      snapshotContractErrors (h.snapshot w p d (digestReading true)) = [] ∧
      draft.tail = (h.snapshot w p d (digestReading true)).tail ∧ draft.ticket = none ∧
      prepareBoundedEvent w d draft none = .ok result ∧ plan.line = result.line ∧
      plan.text = rstripNewlines (sealFront (splitLines (normalisedDocText raw))) ++ "\n" ++ plan.line ++ "\n" := by
  rw [sealLog, hread] at hplan
  simp only [bind, Except.bind] at hplan
  cases hactive : h.active with
  | none =>
    rw [hactive] at hplan
    cases hplan
  | some raw =>
    rw [hactive] at hplan
    dsimp only at hplan
    split_ifs at hplan with hphase hdue hdoing hstanding hbound hfree
    cases hprep : prepareBoundedEvent w d (sealDraft w d call (h.snapshot w p d (digestReading true)).tail
        ((splitLines (normalisedDocText raw)).filterMap parseLogLine) (splitLines (normalisedDocText raw)).length raw)
        none with
    | error e =>
      rw [hprep] at hplan
      cases hplan
    | ok result =>
      rw [hprep] at hplan
      dsimp only at hplan
      split_ifs at hplan with hproposed
      obtain rfl := Except.ok.inj hplan
      rw [not_not, List.append_eq_nil_iff] at hstanding
      exact ⟨raw, _, result, rfl, rfl, rfl, hstanding.1, rfl, rfl, hprep, rfl, rfl⟩

/-- What the readers find behind the two writes of an accepted seal. -/
structure Sealed (w : World) (p : Printable) (d : Disk) (h : History) (plan : SealPlan) (s : SealedSegment)
    (e : LogEvent) : Prop where
  moved : h.active = some s.raw ∧ plan.sealed = s.raw
  newest : ∀ t ∈ h.sealed, t.number < s.number
  parsed : parseLogLine plan.line = some e
  event : e.event = nextEventId (h.snapshot w p d (digestReading true)).tail
  parent : e.parent = (h.snapshot w p d (digestReading true)).tail.filter (· ≠ 0)
  first : ∃ d₁, writeFile (.raw plan.sealed) plan.segment d = some d₁ ∧
    readHistory w d₁ = .ok ⟨h.sealed ++ [s], some s.raw⟩ ∧
    ∀ d₂, Goes w plan.text d₁ d₂ → ∃ h₂, readHistory w d₂ = .ok h₂ ∧ h₂.sealed = h.sealed ++ [s] ∧
      h.Grown plan.line h₂

theorem sealed_of_seal (hread : readHistory w d = .ok h) (hplan : sealLog w p d call = .ok plan)
    (hline : OneLine plan.line.toList) : ∃ s e, Sealed w p d h plan s e := by
  obtain ⟨raw, draft, result, hactive, hraw, hsegment, -, htail, hticket, hprep, hresult, htext⟩ :=
    sealLog_eq_ok hread hplan
  obtain ⟨-, hsealed, -, -⟩ := readHistory_eq_ok_iff.mp hread
  obtain ⟨e, hparse, hevent, hparent⟩ := link_of_prepared (fun t ht => by rw [hticket] at ht; cases ht) hprep
  obtain ⟨d₁, hwrite⟩ := exists_write hread hactive (.raw raw)
  obtain ⟨s, hnumber, hsraw, hread₁⟩ := readHistory_write hread hactive hwrite
  rw [htail] at hevent hparent
  rw [← hresult] at hparse
  refine ⟨s, e, ⟨hactive.trans (congrArg some hsraw.symm), hraw.trans hsraw.symm⟩, fun t ht => ?_, hparse, hevent,
    hparent, d₁, by rwa [hraw, hsegment], by rwa [hsraw], fun d₂ hgoes => ?_⟩
  · rw [hnumber]
    exact lt_nextSegmentNumber (number_mem_segmentNumbers hsealed ht)
  · obtain ⟨raw₂, hread₂, front, close, hfront, hclose, hnorm⟩ := hgoes.readHistory hread₁
    rw [htext] at hfront
    refine ⟨_, hread₂, rfl, fullLines (sealFront (splitLines (normalisedDocText raw))),
      fun l hl => isSkipped_sealFront hl, ?_⟩
    -- the lines of the segment are those that the active LOG had
    rw [fullTexts_eq, fullTexts_eq, hactive]
    dsimp only
    rw [Option.getD_some, Option.getD_some, hnorm,
      fullLines_behind hclose hline (ne_empty_of_parse hparse) hfront, List.flatMap_append, List.flatMap_singleton,
      hsraw]

/-! ### A LOG past the bound -/

/-- The event of the LOG that is sealed below. -/
def firstLine : String := "- 01.02.26 10:11 [E-1] DEC: start"

/-- A LOG with empty lines behind its heading. -/
def paddedLog (k : ℕ) : String :=
  String.ofList ("# Log".toList ++ '\n' :: (List.replicate k '\n' ++ (firstLine.toList ++ ['\n'])))

/-- The history that is read of it. -/
def paddedHistory (k : ℕ) : History := ⟨[], some (encodeUtf8 (paddedLog k))⟩

/-- A seal in CLEAN that no gate refuses. -/
def sampleCall : SealCall where
  phase := "CLEAN"
  doing := []
  agent := "codex"
  seated := none
  now := sampleNow
  opId := "seal-1"
  standing := []
  bound := true
  proposed := fun _ => []

section Padded

variable (k : ℕ)

theorem linesFrom_newlines (cs : List Char) :
    linesFrom [] (List.replicate k '\n' ++ cs) = List.replicate k [] ++ linesFrom [] cs := by
  induction k with
  | zero => rfl
  | succ k ih =>
    rw [List.replicate_succ, List.cons_append, linesFrom_cons (by decide), if_pos isLineBreak_newline, ih,
      List.replicate_succ]
    rfl

theorem toList_paddedLog : (paddedLog k).toList =
    "# Log".toList ++ '\n' :: (List.replicate k '\n' ++ (firstLine.toList ++ ['\n'])) := String.toList_ofList

theorem head_paddedLog : (paddedLog k).toList.head? ≠ some (Char.ofNat 0xfeff) := by
  rw [toList_paddedLog]
  show some '#' ≠ _
  decide

theorem text_paddedLog : normalisedDocText (encodeUtf8 (paddedLog k)) = paddedLog k := by
  have hclear : ∀ c ∈ (paddedLog k).toList, c ≠ Char.ofNat 0 ∧ c ≠ '\r' := by
    have hplain : ("# Log\n".toList ++ firstLine.toList).all fun c => decide (c ≠ Char.ofNat 0 ∧ c ≠ '\r') := by decide
    intro c hc
    rw [toList_paddedLog] at hc
    have hc : c ∈ "# Log\n".toList ++ firstLine.toList := by
      simp only [List.mem_append, List.mem_cons, List.mem_replicate, List.not_mem_nil, or_false] at hc
      have hnew : '\n' ∈ "# Log\n".toList := by decide
      have hhead : "# Log".toList ⊆ "# Log\n".toList := by decide
      rw [List.mem_append]
      rcases hc with hc | rfl | ⟨-, rfl⟩ | hc | rfl
      · exact .inl (hhead hc)
      · exact .inl hnew
      · exact .inl hnew
      · exact .inr hc
      · exact .inl hnew
    exact of_decide_eq_true (List.all_eq_true.mp hplain c hc)
  rw [normalisedDocText, decodeDoc_encodeUtf8 (fun h => (hclear _ h).1 rfl) (head_paddedLog k),
    normaliseNewlines_eq_self fun h => (hclear _ h).2 rfl, String.ofList_toList]

theorem lines_paddedLog : splitLines (paddedLog k) = "# Log" :: (List.replicate k "" ++ [firstLine]) := by
  have hhead : OneLine "# Log".toList := oneLine_literal (by decide)
  have hline : OneLine firstLine.toList := oneLine_literal (by decide)
  rw [splitLines, toList_paddedLog, linesFrom_append_oneLine hhead, linesFrom_cons (by decide),
    if_pos isLineBreak_newline, linesFrom_newlines, linesFrom_newline hline, List.map_cons, List.map_append,
    List.map_replicate, List.map_singleton, List.append_nil, List.reverse_reverse, List.reverse_nil, List.nil_append,
    String.ofList_toList, String.ofList_toList]

theorem length_paddedLog : (encodeUtf8 (paddedLog k)).length = k + 40 := by
  have hnew : (String.utf8EncodeChar '\n').length = 1 := rfl
  have hhead : ("# Log".toList.flatMap String.utf8EncodeChar).length = 5 := rfl
  have hline : (firstLine.toList.flatMap String.utf8EncodeChar).length = 33 := rfl
  have hpad : ((List.replicate k '\n').flatMap String.utf8EncodeChar).length = k := by
    induction k with
    | zero => rfl
    | succ k ih => rw [List.replicate_succ, List.flatMap_cons, List.length_append, ih, hnew, Nat.add_comm]
  have hbytes : encodeUtf8 (paddedLog k) = ("# Log".toList ++ '\n' :: (List.replicate k '\n' ++
      (firstLine.toList ++ ['\n']))).flatMap String.utf8EncodeChar := encodeUtf8_ofList _
  rw [hbytes, List.flatMap_append, List.flatMap_cons, List.flatMap_append, List.flatMap_append,
    List.flatMap_singleton, List.length_append, List.length_append, List.length_append, List.length_append, hhead,
    hline, hpad, hnew]
  omega

theorem read_paddedLog : readHistory sampleWorld (logDisk (paddedLog k)) = .ok (paddedHistory k) := by
  have hactive : ∀ text, activeNode sampleWorld (logDisk text) = .ok (some (encodeUtf8 text)) := fun _ => rfl
  have hlogs : ∀ text, logsEntries (logDisk text) = [] := fun _ => rfl
  have hsealed : ∀ text, sealedContainer (logDisk text) = .ok [] := fun _ => rfl
  refine readHistory_eq_ok_iff.mpr ⟨?_, ?_, hactive _, fun raw hraw => ?_⟩
  · rw [hsealed, hlogs]
  · rw [hlogs]
    rfl
  · have hbytes : some (encodeUtf8 (paddedLog k)) = some raw := hraw
    have hraw' : raw = encodeUtf8 (paddedLog k) := (Option.some.inj hbytes).symm
    rw [hraw']
    exact isCanonicalEncoding_encodeUtf8 (head_paddedLog k)

theorem fullTexts_paddedLog : (paddedHistory k).fullTexts = ["# Log", firstLine] := by
  have hempty : (List.replicate k "").filter (fun l => decide (l ≠ "")) = [] := by simp
  have hsealed : (paddedHistory k).sealed = [] := rfl
  have hactive : (paddedHistory k).active = some (encodeUtf8 (paddedLog k)) := rfl
  rw [fullTexts_eq, hsealed, hactive, List.flatMap_nil, List.nil_append, Option.getD_some, text_paddedLog,
    fullLines, lines_paddedLog, List.filter_cons_of_pos (by decide), List.filter_append, hempty]
  rfl

theorem contract_paddedLog (r : Reading) :
    snapshotContractErrors ((paddedHistory k).snapshot sampleWorld samplePrintable (logDisk (paddedLog k)) r) = [] := by
  have hlinks : (["# Log", firstLine].filterMap parseLogLine).map LogEvent.link = [(1, none)] := by decide +kernel
  refine (contract_iff r).mpr ⟨?_, ?_⟩
  · rw [fullTexts_paddedLog]
    decide +kernel
  · rw [lineEvents_eq, fullTexts_paddedLog, hlinks]
    exact ⟨by simp, List.pairwise_singleton _ _⟩

end Padded

theorem sealDraft_congr {w : World} {d d' : Disk} {raw raw' : Bytes} (c : SealCall) (tail : Option ℕ)
    (events : List LogEvent) (lines : ℕ) (hlength : raw.length = raw'.length) (hsha : w.sha256 raw = w.sha256 raw')
    (hrel : nextSegmentRel d = nextSegmentRel d') :
    sealDraft w d c tail events lines raw = sealDraft w d' c tail events lines raw' := by
  rw [sealDraft, sealDraft, hlength, hsha, hrel]

/-- An event that fits its line is prepared as it is, on every disk. -/
theorem prepareBoundedEvent_plain {w : World} {d : Draft} {structure? : Option BlockStructure}
    (htax : d.taxonomy ∈ validTaxonomies) (hplain : d.redacted.externalised structure? = false)
    (hone : (splitLines d.redacted.line).length = 1) (hparse : parseLogLine d.redacted.line ≠ none) (disk : Disk) :
    prepareBoundedEvent w disk d structure? = .ok ⟨nextEventId d.redacted.tail, d.redacted.line, [], ""⟩ := by
  have hrender : renderEvent d.redacted = .ok d.redacted.line := renderEvent_ok.mpr ⟨htax, rfl⟩
  rw [prepareBoundedEvent, prepareEvent, hrender]
  simp only [bind, Except.bind, hplain, if_true, pure, Except.pure, hone, hparse, ne_eq, not_true_eq_false, or_self,
    if_false]

/-- The event of the seal below. -/
noncomputable def sampleSealDraft : Draft :=
  sealDraft sampleWorld (logDisk "") sampleCall (some 1) ([firstLine].filterMap parseLogLine) 302 (List.replicate 340 0)

theorem line_sampleSealDraft : sampleSealDraft.redacted.line =
    "- 01.02.26 10:11 [E-2] [parent: E-1] [agent: codex] [op: seal-1] DEC: log sealed -- E-1..E-1 (1 events, " ++
      "302 lines, 340 bytes) moved verbatim into .saipen/logs/LOG-001.md sha256:" ++
      String.ofList (sampleDigest.toList.take 16) ++ "; the active tail continues here" := by
  decide +kernel

/-- The seal of a LOG past the bound is accepted. -/
theorem exists_plan {k : ℕ} (hk : 300 < k + 2)
    (hdraft : sealDraft sampleWorld (logDisk (paddedLog k)) sampleCall (some 1)
      ([firstLine].filterMap parseLogLine) (k + 2) (encodeUtf8 (paddedLog k)) = sampleSealDraft) :
    ∃ plan, sealLog sampleWorld samplePrintable (logDisk (paddedLog k)) sampleCall = .ok plan ∧
      OneLine plan.line.toList := by
  have htail : ((paddedHistory k).snapshot sampleWorld samplePrintable (logDisk (paddedLog k)) (digestReading true)).tail =
      some 1 := by
    rw [tail_of_contract (contract_paddedLog k (digestReading true)), lineEvents_eq, fullTexts_paddedLog]
    decide +kernel
  have hnone : (List.replicate k "").filterMap parseLogLine = [] := by
    have hempty : parseLogLine "" = none := by decide
    rw [List.filterMap_replicate_of_none hempty]
  have hevents : (splitLines (paddedLog k)).filterMap parseLogLine = [firstLine].filterMap parseLogLine := by
    rw [lines_paddedLog, List.filterMap_cons_none (by decide), List.filterMap_append, hnone, List.nil_append]
  have hlines : (splitLines (paddedLog k)).length = k + 2 := by
    rw [lines_paddedLog, List.length_cons, List.length_append, List.length_replicate, List.length_singleton]
  have hne : [firstLine].filterMap parseLogLine ≠ [] := by decide +kernel
  have hdue : sealDue (k + 2) (k + 40) = true := by
    have hmore : activeLogMaxLines < k + 2 := hk
    rw [sealDue, decide_eq_true hmore, Bool.true_or]
  have hfree : ∀ text, (probe (nextSegmentRel (logDisk text)) (logDisk text)).node.isSome = false := fun _ => rfl
  have hactive : (paddedHistory k).active = some (encodeUtf8 (paddedLog k)) := rfl
  have hone : (splitLines sampleSealDraft.redacted.line).length = 1 := by
    rw [line_sampleSealDraft]
    decide +kernel
  have hparse : parseLogLine sampleSealDraft.redacted.line ≠ none := by
    rw [line_sampleSealDraft]
    decide +kernel
  have hplain : sampleSealDraft.redacted.externalised none = false := by
    rw [Draft.externalised, line_sampleSealDraft]
    decide +kernel
  have hprep := @prepareBoundedEvent_plain sampleWorld sampleSealDraft none (by decide) hplain hone hparse
    (logDisk (paddedLog k))
  refine ⟨⟨nextSegmentRel (logDisk (paddedLog k)), encodeUtf8 (paddedLog k),
    rstripNewlines (sealFront (splitLines (paddedLog k))) ++ "\n" ++ sampleSealDraft.redacted.line ++ "\n",
    sampleSealDraft.redacted.line⟩, ?_, ?_⟩
  · rw [sealLog, read_paddedLog]
    simp only [bind, Except.bind]
    rw [hactive]
    dsimp only
    rw [text_paddedLog, hevents, hlines, length_paddedLog, hdue, htail, hdraft, hprep, contract_paddedLog, hfree]
    dsimp only
    rw [if_neg (by decide), if_neg (by simp [hne]), if_neg (by decide), if_neg (by decide), if_neg (by decide),
      if_neg (by decide), if_neg fun h => h rfl]
    rfl
  · show OneLine sampleSealDraft.redacted.line.toList
    have hall : (sampleSealDraft.redacted.line.toList.all fun c => !isLineBreak c) = true := by
      rw [line_sampleSealDraft]
      decide +kernel
    exact oneLine_literal hall

theorem sealDraft_paddedLog {k : ℕ} (hk : k = 300) : sealDraft sampleWorld (logDisk (paddedLog k)) sampleCall (some 1)
      ([firstLine].filterMap parseLogLine) (k + 2) (encodeUtf8 (paddedLog k)) = sampleSealDraft := by
  have hsha : ∀ raw, sampleWorld.sha256 raw = sampleDigest := fun _ => rfl
  have hrel : ∀ text, nextSegmentRel (logDisk text) = nextSegmentRel (logDisk "") := fun _ => rfl
  have hlength : (encodeUtf8 (paddedLog k)).length = (List.replicate 340 (0 : UInt8)).length := by
    rw [length_paddedLog, List.length_replicate]
    omega
  have hlines : k + 2 = 302 := by omega
  rw [hlines]
  exact sealDraft_congr sampleCall (some 1) _ _ hlength ((hsha _).trans (hsha _).symm) (hrel _)

/-- An accepted seal moves the active LOG, byte for byte, into a segment with a number greater than all others, which
can always be written. Behind that write every line of the history stands where it stood, and those of the active LOG
in the new segment too; behind the write of the active LOG the history has its old events and that of the seal, under
the next id, and keeps the contract of the ledger. -/
theorem seal_loses_nothing (hread : readHistory w d = .ok h) (hplan : sealLog w p d call = .ok plan)
    (hline : OneLine plan.line.toList) :
    ∃ s e d₁, h.active = some s.raw ∧ (∀ t ∈ h.sealed, t.number < s.number) ∧ parseLogLine plan.line = some e ∧
      e.event = nextEventId (h.snapshot w p d (digestReading true)).tail ∧
      writeFile (.raw plan.sealed) plan.segment d = some d₁ ∧
      readHistory w d₁ = .ok ⟨h.sealed ++ [s], h.active⟩ ∧
      ∀ d₂, Goes w plan.text d₁ d₂ → ∃ h₂, readHistory w d₂ = .ok h₂ ∧ h₂.sealed = h.sealed ++ [s] ∧
        h₂.lineEvents = h.lineEvents ++ [e] ∧ ∀ r, snapshotContractErrors (h₂.snapshot w p d₂ r) = [] := by
  obtain ⟨s, e, hsealed⟩ := sealed_of_seal hread hplan hline
  obtain ⟨d₁, hwrite, hread₁, hlast⟩ := hsealed.first
  obtain ⟨-, -, -, -, -, -, hcontract, -⟩ := sealLog_eq_ok hread hplan
  refine ⟨s, e, d₁, hsealed.moved.1, hsealed.newest, hsealed.parsed, hsealed.event, hwrite, ?_, fun d₂ hgoes => ?_⟩
  · rw [hread₁, hsealed.moved.1]
  · obtain ⟨h₂, hread₂, hsegments, hgrown⟩ := hlast d₂ hgoes
    exact ⟨h₂, hread₂, hsegments, hgrown.lineEvents hsealed.parsed,
      hgrown.contract hsealed.parsed hcontract hsealed.event hsealed.parent d₂⟩

theorem seal_loses_nothing_sample : ∃ h plan s d₁, readHistory sampleWorld (logDisk (paddedLog 300)) = .ok h ∧
    sealLog sampleWorld samplePrintable (logDisk (paddedLog 300)) sampleCall = .ok plan ∧ h.active = some s.raw ∧
    writeFile (.raw plan.sealed) plan.segment (logDisk (paddedLog 300)) = some d₁ ∧
    readHistory sampleWorld d₁ = .ok ⟨h.sealed ++ [s], h.active⟩ := by
  generalize hk : 300 = k
  obtain ⟨plan, hplan, hline⟩ := exists_plan (by omega) (sealDraft_paddedLog hk.symm)
  obtain ⟨s, e, d₁, hactive, -, -, -, hwrite, hread, -⟩ := seal_loses_nothing (read_paddedLog k) hplan hline
  exact ⟨_, plan, s, d₁, read_paddedLog k, hplan, hactive, hwrite, hread⟩

end Disk

/-! ### Runs -/

section Runs

variable (w : World) (p : Printable)

/-- One operation on the ledger: an event is appended to the active LOG, or the active LOG is sealed. Other files may
change with it. -/
inductive LedgerStep : Disk → LogEvent → Disk → Prop
  | append {d d' : Disk} {h : History} {draft : Draft} {structure? : Option BlockStructure} {result : LogEventResult}
      {e : LogEvent} (hread : readHistory w d = .ok h)
      (htail : draft.tail = (h.snapshot w p d (digestReading true)).tail) (hticket : draft.Ticketed)
      (hprep : prepareBoundedEvent w d draft structure? = .ok result) (hline : OneLine result.line.toList)
      (hparse : parseLogLine result.line = some e)
      (hgoes : Goes w (rstripNewlines (normalisedDocText (h.active.getD [])) ++ "\n" ++ result.line ++ "\n") d d') :
      LedgerStep d e d'
  | sealed {d d₁ d₂ : Disk} {h : History} {call : SealCall} {plan : SealPlan} {e : LogEvent}
      (hread : readHistory w d = .ok h) (hplan : sealLog w p d call = .ok plan) (hline : OneLine plan.line.toList)
      (hparse : parseLogLine plan.line = some e) (hwrite : writeFile (.raw plan.sealed) plan.segment d = some d₁)
      (hgoes : Goes w plan.text d₁ d₂) : LedgerStep d e d₂

/-- A run of operations, with the events they wrote. -/
inductive LedgerRun : Disk → List LogEvent → Disk → Prop
  | nil (d : Disk) : LedgerRun d [] d
  | concat {d d' d'' : Disk} {es : List LogEvent} {e : LogEvent} (hrun : LedgerRun d es d')
      (hstep : LedgerStep w p d' e d'') : LedgerRun d (es ++ [e]) d''

variable {w p}

/-- What one operation does to a history that keeps the contract. -/
theorem LedgerStep.law {d d' : Disk} {h : History} {e : LogEvent} (hstep : LedgerStep w p d e d')
    (hread : readHistory w d = .ok h)
    (hcontract : snapshotContractErrors (h.snapshot w p d (digestReading true)) = []) :
    ∃ h', readHistory w d' = .ok h' ∧ h'.lineEvents = h.lineEvents ++ [e] ∧
      snapshotContractErrors (h'.snapshot w p d' (digestReading true)) = [] ∧
      ∃ more, h'.sealed = h.sealed ++ more ∧ (more.map SealedSegment.number).Pairwise (· < ·) ∧
        ∀ t ∈ h.sealed, ∀ s ∈ more, t.number < s.number := by
  cases hstep with
  | append hread' htail hticket hprep hline hparse hgoes =>
    obtain rfl := Except.ok.inj (hread'.symm.trans hread)
    obtain ⟨h', hread₂, hsealed, hgrown⟩ := grown_of_append hread hline hparse hgoes
    obtain ⟨e', he', hevent, hparent⟩ := link_of_prepared hticket hprep
    obtain rfl := Option.some.inj (he'.symm.trans hparse)
    rw [htail] at hevent hparent
    exact ⟨h', hread₂, hgrown.lineEvents hparse, hgrown.contract hparse hcontract hevent hparent d' _, [],
      by rw [hsealed, List.append_nil], .nil, fun _ _ _ hs => absurd hs List.not_mem_nil⟩
  | sealed hread' hplan hline hparse hwrite hgoes =>
    obtain rfl := Except.ok.inj (hread'.symm.trans hread)
    obtain ⟨s, e', hsealed⟩ := sealed_of_seal hread hplan hline
    obtain rfl := Option.some.inj (hsealed.parsed.symm.trans hparse)
    obtain ⟨d₁, hwrite', -, hlast⟩ := hsealed.first
    obtain rfl := Option.some.inj (hwrite'.symm.trans hwrite)
    obtain ⟨h', hread₂, hsegments, hgrown⟩ := hlast d' hgoes
    refine ⟨h', hread₂, hgrown.lineEvents hparse, hgrown.contract hparse hcontract hsealed.event hsealed.parent d' _,
      [s], hsegments, List.pairwise_singleton _ _, fun t ht s' hs' => ?_⟩
    rw [List.mem_singleton.mp hs']
    exact hsealed.newest t ht

end Runs

/-- A LOG with one event. -/
def shortText : String := "- 01.02.26 10:11 [E-11] DEC: start
"

theorem read_shortText : readHistory sampleWorld (logDisk shortText) = .ok ⟨[], some (encodeUtf8 shortText)⟩ := by
  refine readHistory_eq_ok_iff.mpr ⟨rfl, rfl, rfl, fun raw hraw => ?_⟩
  have hraw' : raw = encodeUtf8 shortText := (Option.some.inj hraw).symm
  rw [hraw']
  decide +kernel

theorem run_sample : ∃ e, LedgerRun sampleWorld samplePrintable (logDisk shortText) [e]
    (logDisk (shortText ++ sampleNote.redacted.line ++ "\n")) := by
  have hline : sampleNote.redacted.line =
      "- 01.02.26 10:11 [E-12] [parent: E-11] [T-4] [agent: codex] [op: op-1] NOTE: checked" := by decide +kernel
  have hparse : ∃ e, parseLogLine sampleNote.redacted.line = some e := by
    rw [hline]
    exact Option.isSome_iff_exists.mp (by decide +kernel)
  obtain ⟨e, he⟩ := hparse
  have hprep := @prepareBoundedEvent_plain sampleWorld sampleNote none (by decide)
    (by rw [Draft.externalised, hline]; decide +kernel) (by rw [hline]; decide +kernel)
    (by rw [he]; exact Option.some_ne_none e) (logDisk shortText)
  have hnorm : rstripNewlines (normalisedDocText (encodeUtf8 shortText)) ++ "\n" = shortText := by decide +kernel
  refine ⟨e, .concat (.nil _) (.append read_shortText ?_ ?_ hprep ?_ he ⟨rfl, ?_⟩)⟩
  · decide +kernel
  · rintro t ⟨⟩
    decide
  · show OneLine sampleNote.redacted.line.toList
    rw [hline]
    exact oneLine_literal (by decide +kernel)
  · refine ⟨.text (shortText ++ sampleNote.redacted.line ++ "\n"), rfl, ?_, shortText ++ sampleNote.redacted.line,
      "\n", ?_, by simp, ?_⟩
    · rw [hline]
      decide +kernel
    · show rstripNewlines (normalisedDocText (encodeUtf8 shortText)) ++ "\n" ++ sampleNote.redacted.line ++ "\n" = _
      rw [hnorm]
    · rw [hline]
      decide +kernel

end Saipen.Log
