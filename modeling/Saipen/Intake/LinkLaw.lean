import Saipen.Intake.LinkRow

/-! # All or nothing

A linkage puts all that it says into the three files, or leaves every file as it was, exactly when the attempt
that stops it is one that the transaction can take back: the writing of the details is not taken back, nor are
the metadata of a link that the BOARD has already, metadata that are not there end the call with an exception,
and the way back ends with its first write that fails. -/

namespace Saipen.SourceLink

open Text Board Faulty

variable {ρ : Type} {w : World ρ} {d f : Disk} {work receipt : String} {fails : Nat → Bool} {n : Nat}

/-! ### The law -/

/-- The link is in all three places. -/
structure Linked (w : World ρ) (d : Disk) (work receipt : String) : Prop where
  board : ∃ raw, d .board = some raw ∧ Lists (checkpointText raw) work receipt
  metadata : ∃ raw m, d (.metadata receipt) = some raw ∧ w.readMeta raw = some m ∧ work ∈ m.works
  index : ∃ raw i e, d .index = some raw ∧ w.readIndex raw = some i ∧ i.active.lookup receipt = some e ∧
    work ∈ e.works

/-- A linkage puts the link in all three places, or leaves every file as it was. -/
def AllOrNothing (w : World ρ) (d : Disk) (work receipt : String) : Outcome × Disk → Prop
  | (.linked, d') => Linked w d' work receipt
  | (.refused _, d') => d' = d
  | (.raised, _) => False

/-- The index can be read and has an entry for the receipt. -/
def Indexed (w : World ρ) (d : Disk) (receipt : String) : Prop :=
  ∃ index e, readIndexFile w d = .ok index ∧ index.active.lookup receipt = some e

/-- Where the BOARD has the link: the metadata are there, and when they are written the index is written too, or
they stay as they were. -/
def RelinkSafe (w : World ρ) (d : Disk) (work receipt : String) (fails : Nat → Bool) : Prop :=
  match readMetaFile w d receipt with
  | .error _ => True
  | .ok none => False
  | .ok (some m) => fails 0 = true ∨ (Indexed w d receipt ∧ fails 1 = false) ∨
      d (.metadata receipt) = some (w.metaBytes (m.link work))

/-- No step of the way back fails, but for the removal of an index or of metadata that are not there. -/
def BackSafe (d : Disk) (receipt : String) (fails : Nat → Bool) (k n : Nat) : Prop :=
  ∀ i ≤ k + 2, (i = 0 → (d .index).isSome = true) → (i = 1 → (d (.metadata receipt)).isSome = true) →
    fails (n + i) = false

/-- The files that the compaction puts beside the BOARD. -/
def detailWrites (details : List Detail) : List (File × Bytes) := details.map fun x => (File.detail x.1, x.2)

/-- Where the BOARD gets the link: an attempt that fails before the BOARD is written finds that the details in
front of it were there already, the metadata are there, and the way back can be walked to its end. -/
structure PlanSafe (w : World ρ) (d : Disk) (receipt : String) (details : List Detail) (fails : Nat → Bool) : Prop where
  writes : ∀ j ≤ details.length, fails j = true → (∀ i < j, fails i = false) →
    ∀ p b, lastWrite ((detailWrites details).take j) p = some b → d p = some b
  relink : (∀ j ≤ details.length, fails j = false) →
    match readMetaFile w d receipt with
    | .error _ => BackSafe d receipt fails details.length (details.length + 1)
    | .ok none => False
    | .ok (some _) =>
        (fails (details.length + 1) = true → BackSafe d receipt fails details.length (details.length + 2)) ∧
        (fails (details.length + 1) = false →
          (¬ Indexed w d receipt → BackSafe d receipt fails details.length (details.length + 2)) ∧
          (Indexed w d receipt → fails (details.length + 2) = true →
            BackSafe d receipt fails details.length (details.length + 3)))

/-- The attempts that fail are ones that the linkage can stand. -/
def LinkSafe (w : World ρ) (d : Disk) (work receipt : String) (fails : Nat → Bool) : Prop :=
  match boardLinkProposal w d work receipt with
  | .refused _ => True
  | .alreadyLinked => RelinkSafe w d work receipt fails
  | .planned _ details => PlanSafe w d receipt details fails

/-- What a linkage can write into the BOARD is read back: the row that is edited is safe, and the text goes into
the document as it is and differs from what is there. -/
def BoardSafe (w : World ρ) (d : Disk) (work receipt : String) : Prop :=
  ∀ raw text details, d .board = some raw → boardLinkProposal w d work receipt = .planned text details →
    Writable raw text ∧ encodeCheckpoint raw text ≠ raw ∧
    ∀ compacted targets, w.prepareExisting d (checkpointText raw) work = .ok (compacted, targets) →
      ∀ t, (parseBoard compacted).ticket work = some t → ¬ (receipt ∈ receiptsOf t ∧ stripPseudoLink t = none) →
        RowSafe w.printable compacted t receipt

/-! ### Memberships -/

theorem mem_works_link (m : Linkage ρ) (h : Named work) : work ∈ (m.link work).works := by
  have hmem : ∀ xs : List String, work ∈ xs → work ∈ (xs.map strip).filter (· ≠ "") := fun xs hin =>
    List.mem_filter.mpr ⟨List.mem_map.mpr ⟨work, hin, h.1⟩, by simpa using h.2⟩
  rw [Linkage.link]
  split_ifs with hprimary hother
  · exact hmem _ List.mem_cons_self
  · refine hmem _ (List.mem_cons_of_mem _ ?_)
    rw [List.mem_mergeSort, List.mem_dedup]
    exact List.mem_append_right _ List.mem_cons_self
  · rw [not_not] at hother
    rw [Linkage.works, List.map_cons, hother]
    exact List.mem_filter.mpr ⟨List.mem_cons_self, by simpa using h.2⟩

/-- The entry names every Work that the metadata name. -/
theorem works_follow (e : Linkage ρ) {m : Linkage ρ} (h : work ∈ m.works) : work ∈ (e.follow m).works := by
  rw [Linkage.works, Linkage.follow]
  dsimp only
  split_ifs with hnil
  · rw [Linkage.works, hnil, List.map_cons, List.map_nil, List.filter_cons] at h
    rw [List.map_cons, List.filter_cons]
    split_ifs at h ⊢ with hne
    · exact List.mem_cons.mpr (.inl (List.mem_singleton.mp h))
    · cases h
  · exact h

/-! ### Relinking -/

theorem readIndexFile_update (w : World ρ) (f : Disk) (receipt : String) (content : Option Bytes) :
    readIndexFile w (Function.update f (File.metadata receipt) content) = readIndexFile w f := by
  have hsame : Function.update f (File.metadata receipt) content File.index = f File.index :=
    Function.update_of_ne (by simp) _ _
  rw [readIndexFile, readIndexFile, hsame]

theorem relink_of_error {r : Refusal} (h : readMetaFile w f receipt = .error r) :
    relinkAuthorities w work receipt fails ⟨f, n⟩ = (.refused r, ⟨f, n⟩) := by
  rw [relinkAuthorities, h]

theorem relink_of_missing (h : readMetaFile w f receipt = .ok none) :
    relinkAuthorities w work receipt fails ⟨f, n⟩ = (.raised, ⟨f, n⟩) := by
  rw [relinkAuthorities, h]

variable {m : Linkage ρ}

theorem relink_of_unwritten (h : readMetaFile w f receipt = .ok (some m)) (hn : fails n = true) :
    relinkAuthorities w work receipt fails ⟨f, n⟩ = (.refused .orphan, ⟨f, n + 1⟩) := by
  rw [relinkAuthorities, h]
  dsimp only
  rw [put_of_fails (s := ⟨f, n⟩) hn]
  rfl

theorem relink_of_unindexed (work : String) (h : readMetaFile w f receipt = .ok (some m)) (hn : fails n = false)
    (hindex : ¬ Indexed w f receipt) : ∃ r, relinkAuthorities w work receipt fails ⟨f, n⟩ =
      (.refused r, ⟨Function.update f (File.metadata receipt) (some (w.metaBytes (m.link work))), n + 1⟩) := by
  rw [relinkAuthorities, h]
  dsimp only
  rw [put_of_works (s := ⟨f, n⟩) hn]
  dsimp only
  rw [if_neg (by decide), readIndexFile_update]
  cases hread : readIndexFile w f with
  | error r => exact ⟨r, rfl⟩
  | ok index =>
    cases he : index.active.lookup receipt with
    | none => exact ⟨.orphan, by simp only [he]⟩
    | some e => exact absurd ⟨index, e, hread, he⟩ hindex

theorem relink_of_indexed {index : Index ρ} {e : Linkage ρ} (h : readMetaFile w f receipt = .ok (some m))
    (hn : fails n = false) (hread : readIndexFile w f = .ok index) (he : index.active.lookup receipt = some e) :
    relinkAuthorities w work receipt fails ⟨f, n⟩ =
      let written := Function.update f (File.metadata receipt) (some (w.metaBytes (m.link work)))
      if fails (n + 1) = true then (.refused .orphan, ⟨written, n + 2⟩)
      else (.linked, ⟨Function.update written File.index (some (w.indexBytes
        { index with active := Assoc.set receipt (e.follow (m.link work)) index.active })), n + 2⟩) := by
  rw [relinkAuthorities, h]
  dsimp only
  rw [put_of_works (s := ⟨f, n⟩) hn]
  dsimp only
  rw [if_neg (by decide), readIndexFile_update, hread]
  dsimp only
  rw [he]
  dsimp only
  by_cases hfail : fails (n + 1) = true
  · rw [put_of_fails (s := ⟨_, n + 1⟩) hfail, if_pos hfail]
    rfl
  · rw [put_of_works (s := ⟨_, n + 1⟩) (Bool.not_eq_true _ ▸ hfail), if_neg hfail]
    rfl

/-- Where both files are written they name the Work, and the BOARD is left alone. -/
theorem linked_of_relink {index : Index ρ} {e : Linkage ρ} (hnamed : Named work)
    (hboard : ∃ raw, f .board = some raw ∧ Lists (checkpointText raw) work receipt) :
    Linked w (Function.update (Function.update f (File.metadata receipt) (some (w.metaBytes (m.link work)))) File.index
      (some (w.indexBytes { index with active := Assoc.set receipt (e.follow (m.link work)) index.active })))
      work receipt := by
  refine ⟨?_, ?_, ?_⟩
  · rw [Function.update_of_ne (by simp), Function.update_of_ne (by simp)]
    exact hboard
  · refine ⟨_, m.link work, ?_, w.readMeta_metaBytes _, mem_works_link m hnamed⟩
    rw [Function.update_of_ne (by simp), Function.update_self]
  · obtain ⟨i', hread, hsame⟩ := w.readIndex_indexBytes
      { index with active := Assoc.set receipt (e.follow (m.link work)) index.active }
    refine ⟨_, i', e.follow (m.link work), Function.update_self _ _ _, hread, ?_,
      works_follow e (mem_works_link m hnamed)⟩
    rw [hsame, Assoc.lookup_set, if_pos rfl]

/-- Where the BOARD has the link already. -/
theorem relink_allOrNothing_iff (hboard : ∃ raw, d .board = some raw ∧ Lists (checkpointText raw) work receipt) :
    AllOrNothing w d work receipt ((relinkAuthorities w work receipt fails ⟨d, 0⟩).1,
      (relinkAuthorities w work receipt fails ⟨d, 0⟩).2.files) ↔ RelinkSafe w d work receipt fails := by
  have hnamed : Named work := hboard.elim fun _ h => h.2.named
  rw [RelinkSafe]
  cases hmeta : readMetaFile w d receipt with
  | error r =>
    rw [relink_of_error hmeta]
    exact iff_of_true rfl trivial
  | ok meta? =>
    cases meta? with
    | none =>
      rw [relink_of_missing hmeta]
      exact Iff.rfl
    | some m =>
      have hkept : Function.update d (File.metadata receipt) (some (w.metaBytes (m.link work))) = d ↔
          d (.metadata receipt) = some (w.metaBytes (m.link work)) := by
        rw [Function.update_eq_self_iff, eq_comm]
      dsimp only
      by_cases hfirst : fails 0 = true
      · rw [relink_of_unwritten hmeta hfirst]
        exact iff_of_true rfl (.inl hfirst)
      · rw [Bool.not_eq_true] at hfirst
        rw [hfirst]
        by_cases hindex : Indexed w d receipt
        · obtain ⟨index, e, hread, he⟩ := hindex
          rw [relink_of_indexed hmeta hfirst hread he]
          dsimp only
          by_cases hsecond : fails 1 = true
          · rw [if_pos hsecond, hsecond]
            show _ = d ↔ _
            rw [hkept]
            simp
          · rw [if_neg hsecond]
            exact iff_of_true (linked_of_relink hnamed hboard)
              (.inr (.inl ⟨⟨index, e, hread, he⟩, Bool.not_eq_true _ ▸ hsecond⟩))
        · obtain ⟨r, hr⟩ := relink_of_unindexed work hmeta hfirst hindex
          rw [hr]
          show _ = d ↔ _
          rw [hkept]
          simp [hindex]

/-! ### The way back -/

theorem detailWrites_ne {details : List Detail} (p : File) (hp : ∀ path, p ≠ File.detail path) :
    ∀ x ∈ detailWrites details, x.1 ≠ p := by
  intro x hx heq
  obtain ⟨y, -, rfl⟩ := List.mem_map.mp hx
  exact hp y.1 heq.symm

theorem length_detailWrites (details : List Detail) : (detailWrites details).length = details.length :=
  List.length_map _

/-- The files behind the details, the BOARD and a content of the metadata. -/
def behind (d : Disk) (receipt : String) (details : List Detail) (new : Bytes) (content : Option Bytes) : Disk :=
  Function.update (Function.update (overlay (detailWrites details) d) File.board (some new)) (File.metadata receipt) content

/-- The snapshots of a linkage, newest first. -/
def linkUndo (d : Disk) (receipt : String) (details : List Detail) (before : Bytes) : Stack File Bytes :=
  (File.index, d File.index) :: (File.metadata receipt, d (File.metadata receipt)) ::
    (snapshots (detailWrites details) d ++ [(File.board, some before)])

variable {details : List Detail} {before new : Bytes} {content : Option Bytes}

/-- The metadata are as they were, or have been written over. -/
def Rewritten (d : Disk) (receipt : String) (content : Option Bytes) : Prop :=
  content = d (.metadata receipt) ∨ (content.isSome = true ∧ (d (.metadata receipt)).isSome = true)

theorem undoes_linkUndo (details : List Detail) (new : Bytes) (hboard : d .board = some before) (hcontent : Rewritten d receipt content) :
    Undoes d (linkUndo d receipt details before) (behind d receipt details new content) := by
  have hplain : ∀ x ∈ detailWrites details, x.1 ≠ File.board := detailWrites_ne File.board (by simp)
  have hold : Undoes d [(File.board, some before)] (Function.update d File.board (some new)) := by
    rw [← hboard]
    exact Undoes.start.push File.board (some new) (fun _ => List.not_mem_nil) fun h => by cases h
  have hdetails := hold.snapshots fun x hx hin => absurd (List.mem_singleton.mp hin) (hplain x hx)
  rw [snapshots_update_of_ne _ hplain, overlay_update_of_ne _ hplain] at hdetails
  have hpaths : ∀ p : File, (∀ path, p ≠ File.detail path) → p ≠ File.board →
      p ∉ (snapshots (detailWrites details) d ++ [(File.board, some before)]).map Prod.fst := by
    intro p hp hne hin
    rw [List.map_append, List.mem_append, List.map_singleton, List.mem_singleton] at hin
    rcases hin with hin | hin
    · obtain ⟨x, hx, hpath⟩ := List.mem_map.mp hin
      obtain ⟨y, hy, heq⟩ := mem_snapshots hx
      exact detailWrites_ne p hp y hy (heq.symm.trans hpath)
    · exact hne hin
  have hsame : ∀ p : File, (∀ path, p ≠ File.detail path) → p ≠ File.board →
      Function.update (overlay (detailWrites details) d) File.board (some new) p = d p := fun p hp hne => by
    rw [Function.update_of_ne hne, overlay_of_ne (detailWrites_ne p hp)]
  have hwritten := hdetails.push (File.metadata receipt) content (fun _ => hpaths _ (by simp) (by simp)) fun hnone => by
    rw [hsame _ (by simp) (by simp)]
    rcases hcontent with h | h
    · rw [← h, hnone]
    · rw [hnone] at h
      cases h.1
  rw [hsame (File.metadata receipt) (by simp) (by simp)] at hwritten
  have hlast := hwritten.push File.index (d File.index) (fun _ hin => ?_) fun hnone => ?_
  · have hkept : behind d receipt details new content File.index = d .index := by
      rw [behind, Function.update_of_ne (by simp), hsame _ (by simp) (by simp)]
    have hself : Function.update (behind d receipt details new content) File.index (d File.index) =
        behind d receipt details new content := by
      rw [Function.update_eq_self_iff, hkept]
    rw [behind] at hself hkept ⊢
    rw [hself, hkept] at hlast
    exact hlast
  · rw [List.map_cons, List.mem_cons] at hin
    rcases hin with hin | hin
    · cases hin
    · exact hpaths File.index (by simp) (by simp) hin
  · rw [Function.update_of_ne (by simp), hsame _ (by simp) (by simp), hnone]

theorem behind_index : behind d receipt details new content File.index = d .index := by
  rw [behind, Function.update_of_ne (by simp), Function.update_of_ne (by simp),
    overlay_of_ne (detailWrites_ne _ (by simp))]

theorem behind_board : behind d receipt details new content File.board = some new := by
  rw [behind, Function.update_of_ne (by simp), Function.update_self]

theorem length_linkUndo : (linkUndo d receipt details before).length = details.length + 3 := by
  simp [linkUndo, length_snapshots, length_detailWrites]

/-- A step of the way back: the index, the metadata, or a file that was written. -/
theorem linkUndo_cases (new : Bytes) (content : Option Bytes) {i : Nat} {x : File × Option Bytes} (h : (linkUndo d receipt details before)[i]? = some x) :
    (i = 0 ∧ x = (File.index, d File.index)) ∨ (i = 1 ∧ x = (File.metadata receipt, d (File.metadata receipt))) ∨
      (2 ≤ i ∧ (x.2.isSome = true ∨ (behind d receipt details new content x.1).isSome = true)) := by
  rcases i with _ | _ | i
  · exact .inl ⟨rfl, (Option.some.inj h).symm⟩
  · exact .inr (.inl ⟨rfl, (Option.some.inj h).symm⟩)
  · refine .inr (.inr ⟨by omega, ?_⟩)
    have hin : x ∈ snapshots (detailWrites details) d ++ [(File.board, some before)] := List.mem_of_getElem? h
    rcases List.mem_append.mp hin with hin | hin
    · right
      obtain ⟨y, hy, heq⟩ := mem_snapshots hin
      have hboard := detailWrites_ne File.board (by simp) y hy
      have hmeta := detailWrites_ne (File.metadata receipt) (by simp) y hy
      rw [heq, behind, Function.update_of_ne hmeta, Function.update_of_ne hboard]
      exact isSome_overlay hy
    · rw [List.mem_singleton.mp hin]
      exact .inl rfl

theorem wayBack_iff (before new : Bytes) (hcontent : Rewritten d receipt content) :
    WayBack fails (linkUndo d receipt details before) (behind d receipt details new content) n ↔
      BackSafe d receipt fails details.length n := by
  constructor
  · intro h i hi hindex hmeta
    have hlt : i < (linkUndo d receipt details before).length := by
      rw [length_linkUndo]
      omega
    obtain ⟨x, hx⟩ : ∃ x, (linkUndo d receipt details before)[i]? = some x := ⟨_, List.getElem?_eq_getElem hlt⟩
    refine h i x hx ?_
    rcases linkUndo_cases new content hx with ⟨rfl, rfl⟩ | ⟨rfl, rfl⟩ | ⟨-, hthere⟩
    · exact .inl (hindex rfl)
    · exact .inl (hmeta rfl)
    · exact hthere
  · intro h i x hx hthere
    obtain ⟨hlt, -⟩ := List.getElem?_eq_some_iff.mp hx
    rw [length_linkUndo] at hlt
    refine h i (by omega) (fun hi => ?_) fun hi => ?_
    · subst hi
      obtain rfl : (File.index, d .index) = x := Option.some.inj hx
      rw [behind_index] at hthere
      exact hthere.elim id id
    · subst hi
      obtain rfl : (File.metadata receipt, d (.metadata receipt)) = x := Option.some.inj hx
      refine hthere.elim id fun hsome => ?_
      rw [behind, Function.update_self] at hsome
      rcases hcontent with hsame | hsome'
      · exact hsame ▸ hsome
      · exact hsome'.2

/-- The rollback of a linkage puts every file back exactly when its steps work. -/
theorem rollBack_iff (hboard : d .board = some before) (hne : new ≠ before) (hcontent : Rewritten d receipt content) :
    (rollBack fails (linkUndo d receipt details before) ⟨behind d receipt details new content, n⟩).files = d ↔
      BackSafe d receipt fails details.length n := by
  have hundoes := undoes_linkUndo details new hboard hcontent
  rw [← wayBack_iff before new hcontent]
  constructor
  · intro hback
    have hfront : linkUndo d receipt details before = ((File.index, d File.index) ::
        (File.metadata receipt, d (File.metadata receipt)) :: snapshots (detailWrites details) d) ++ [(File.board, some before)] := rfl
    rw [hfront] at hundoes hback ⊢
    refine wayBack_of_rollBack hundoes ?_ ?_ hback
    · rw [List.map_cons, List.map_cons, List.mem_cons, List.mem_cons, not_or, not_or]
      refine ⟨by simp, by simp, fun hin => ?_⟩
      obtain ⟨x, hx, heq⟩ := List.mem_map.mp hin
      obtain ⟨y, hy, heq'⟩ := mem_snapshots hx
      exact detailWrites_ne File.board (by simp) y hy (heq' ▸ heq)
    · rw [behind_board]
      exact fun h => hne (Option.some.inj h)
  · exact rollBack_of_wayBack hundoes

/-! ### The transaction -/

variable {text : String}

/-- The files when the BOARD has been written. -/
theorem behind_kept : behind d receipt details new (d (File.metadata receipt)) =
    Function.update (overlay (detailWrites details) d) File.board (some new) := by
  rw [behind, Function.update_eq_self_iff, Function.update_of_ne (by simp), overlay_of_ne (detailWrites_ne _ (by simp))]

/-- An attempt that fails before the BOARD is written ends the call, and the details in front of it stay. -/
theorem commit_of_unwritten {j : Nat} (hplan : boardLinkProposal w d work receipt = .planned text details)
    (hboard : d .board = some before) (hj : j ≤ details.length) (hfail : fails j = true)
    (hfirst : ∀ i < j, fails i = false) :
    commitSourceLink w d work receipt fails = (.refused .orphan, overlay ((detailWrites details).take j) d) := by
  have hlen := length_detailWrites details
  have hwrites : (details.map fun x => (File.detail x.1, x.2)) = detailWrites details := rfl
  rw [commitSourceLink, hplan]
  simp only [hboard, hwrites]
  rcases Nat.lt_or_eq_of_le hj with hlt | rfl
  · have hstop : (writeAll fails (detailWrites details) [(File.board, some before)] ⟨d, 0⟩).1 = false ∧
        (writeAll fails (detailWrites details) [(File.board, some before)] ⟨d, 0⟩).2.2.files =
          overlay ((detailWrites details).take j) d := by
      refine writeAll_of_fails _ (hlen.symm ▸ hlt) (fun i hi => ?_) ?_
      · rw [Nat.zero_add]
        exact hfirst i hi
      · rwa [Nat.zero_add]
    rw [if_pos hstop.1, hstop.2]
  · have hworks : writeAll fails (detailWrites details) [(File.board, some before)] ⟨d, 0⟩ = _ :=
      writeAll_of_works _ fun i hi => by
        rw [Nat.zero_add]
        exact hfirst i (hlen ▸ hi)
    have hstop : fails (0 + (detailWrites details).length) = true := by rwa [Nat.zero_add, hlen]
    rw [hworks]
    dsimp only
    rw [if_neg (by decide), put_of_fails (s := ⟨_, 0 + (detailWrites details).length⟩) hstop, if_pos rfl,
      List.take_of_length_le hlen.le]

/-- When the BOARD is written the call goes on to the metadata and the index, and takes everything back when they
are refused. -/
theorem commit_of_written (hplan : boardLinkProposal w d work receipt = .planned text details)
    (hboard : d .board = some before) (hall : ∀ j ≤ details.length, fails j = false) :
    commitSourceLink w d work receipt fails =
      let linked := relinkAuthorities w work receipt fails
        ⟨behind d receipt details (encodeCheckpoint before text) (d (.metadata receipt)), details.length + 1⟩
      match linked.1 with
      | .refused r => (.refused r, (rollBack fails (linkUndo d receipt details before) linked.2).files)
      | outcome => (outcome, linked.2.files) := by
  have hlen := length_detailWrites details
  have hworks : ∀ i < (detailWrites details).length, fails (0 + i) = false := fun i hi => by
    rw [Nat.zero_add]
    exact hall i (Nat.le_of_lt (hlen ▸ hi))
  have hput : fails (0 + (detailWrites details).length) = false := by
    rw [Nat.zero_add, hlen]
    exact hall _ le_rfl
  have hindex : Function.update (overlay (detailWrites details) d) File.board (some (encodeCheckpoint before text)) File.index =
      d .index := by
    rw [Function.update_of_ne (by simp), overlay_of_ne (detailWrites_ne _ (by simp))]
  have hmeta : Function.update (overlay (detailWrites details) d) File.board (some (encodeCheckpoint before text))
      (File.metadata receipt) = d (File.metadata receipt) := by
    rw [Function.update_of_ne (by simp), overlay_of_ne (detailWrites_ne _ (by simp))]
  have hwrites : (details.map fun x => (File.detail x.1, x.2)) = detailWrites details := rfl
  have hdetailed : writeAll fails (detailWrites details) [(File.board, some before)] ⟨d, 0⟩ = _ :=
    writeAll_of_works _ hworks
  rw [commitSourceLink, hplan]
  simp only [hboard, hwrites]
  rw [hdetailed]
  dsimp only
  rw [if_neg (by decide), put_of_works (s := ⟨_, 0 + (detailWrites details).length⟩) hput]
  dsimp only
  rw [if_neg (by decide), hindex, hmeta, Nat.zero_add, hlen, behind_kept]
  rfl

theorem readMetaFile_behind (w : World ρ) (d : Disk) (receipt : String) (details : List Detail) (new : Bytes) :
    readMetaFile w (behind d receipt details new (d (File.metadata receipt))) receipt = readMetaFile w d receipt := by
  have hsame : behind d receipt details new (d (File.metadata receipt)) (File.metadata receipt) = d (File.metadata receipt) := by
    rw [behind, Function.update_self]
  rw [readMetaFile, readMetaFile, hsame]

theorem indexed_behind : Indexed w (behind d receipt details new content) receipt ↔ Indexed w d receipt := by
  rw [Indexed, Indexed, readIndexFile, readIndexFile, behind_index]

theorem update_behind (d : Disk) (content content' : Option Bytes) :
    Function.update (behind d receipt details new content) (File.metadata receipt) content' =
      behind d receipt details new content' := by
  rw [behind, Function.update_idem, behind]

/-- Metadata that are read are there. -/
theorem isSome_of_readMetaFile (h : readMetaFile w d receipt = .ok (some m)) : (d (.metadata receipt)).isSome = true := by
  unfold readMetaFile at h
  split_ifs at h
  cases hd : d (.metadata receipt) with
  | none => rw [hd] at h; cases h
  | some raw => rfl

theorem valid_of_readMetaFile (h : readMetaFile w d receipt = .ok (some m)) : validReceiptId receipt = true := by
  unfold readMetaFile at h
  split_ifs at h with hvalid
  exact (Bool.not_eq_false _).mp hvalid

/-- Where every write up to the BOARD works. -/
theorem written_allOrNothing_iff (hplan : boardLinkProposal w d work receipt = .planned text details)
    (hboard : d .board = some before) (hne : encodeCheckpoint before text ≠ before)
    (hlists : validReceiptId receipt = true →
      Lists (checkpointText (encodeCheckpoint before text)) work receipt)
    (hall : ∀ j ≤ details.length, fails j = false) :
    AllOrNothing w d work receipt (commitSourceLink w d work receipt fails) ↔ PlanSafe w d receipt details fails := by
  have hsafe : ∀ {P : Prop}, (P ↔ _) → (P ↔ PlanSafe w d receipt details fails) := fun h => h.trans
    ⟨fun h => ⟨fun j hj hfail => absurd hfail (by simp [hall j hj]), fun _ => h⟩, fun h => h.relink hall⟩
  refine hsafe ?_
  rw [commit_of_written hplan hboard hall]
  have hread := readMetaFile_behind w d receipt details (encodeCheckpoint before text)
  cases hmeta : readMetaFile w d receipt with
  | error r =>
    rw [hmeta] at hread
    rw [relink_of_error hread]
    exact rollBack_iff hboard hne (.inl rfl)
  | ok meta? =>
    rw [hmeta] at hread
    cases meta? with
    | none =>
      rw [relink_of_missing hread]
      exact Iff.rfl
    | some m =>
      have hthere := isSome_of_readMetaFile hmeta
      by_cases hfirst : fails (details.length + 1) = true
      · rw [relink_of_unwritten hread hfirst]
        simp only [hfirst, true_implies, Bool.true_eq_false, false_implies, and_true]
        exact rollBack_iff hboard hne (.inl rfl)
      · rw [Bool.not_eq_true] at hfirst
        simp only [hfirst, Bool.false_eq_true, false_implies, true_and, true_implies]
        by_cases hindex : Indexed w d receipt
        · obtain ⟨index, e, hindexed, he⟩ := indexed_behind.mpr hindex
          rw [relink_of_indexed hread hfirst hindexed he, update_behind]
          dsimp only
          by_cases hsecond : fails (details.length + 1 + 1) = true
          · rw [if_pos hsecond]
            simp only [hindex, not_true_eq_false, false_implies, true_and, true_implies, hsecond]
            exact rollBack_iff hboard hne (.inr ⟨rfl, hthere⟩)
          · rw [if_neg hsecond]
            have hvalid := valid_of_readMetaFile hmeta
            refine iff_of_true ?_ ⟨fun hno => absurd hindex hno, fun _ hfail => absurd hfail hsecond⟩
            rw [← update_behind d (d (.metadata receipt))]
            exact linked_of_relink (hlists hvalid).named ⟨_, behind_board, hlists hvalid⟩
        · obtain ⟨r, hr⟩ := relink_of_unindexed work hread hfirst (indexed_behind.not.mpr hindex)
          rw [hr, update_behind]
          simp only [hindex, not_false_eq_true, true_implies, false_implies, and_true]
          exact rollBack_iff hboard hne (.inr ⟨rfl, hthere⟩)

/-- Where the BOARD gets the link. -/
theorem plan_allOrNothing_iff (hplan : boardLinkProposal w d work receipt = .planned text details)
    (hboard : d .board = some before) (hne : encodeCheckpoint before text ≠ before)
    (hlists : validReceiptId receipt = true →
      Lists (checkpointText (encodeCheckpoint before text)) work receipt) :
    AllOrNothing w d work receipt (commitSourceLink w d work receipt fails) ↔ PlanSafe w d receipt details fails := by
  by_cases hall : ∀ j ≤ details.length, fails j = false
  · exact written_allOrNothing_iff hplan hboard hne hlists hall
  · -- The first attempt that fails ends the call.
    have hex : ∃ j, j ≤ details.length ∧ fails j = true := by
      by_contra hnone
      exact hall fun j hj => (Bool.not_eq_true _).mp fun hfail => hnone ⟨j, hj, hfail⟩
    obtain ⟨hj, hfail⟩ := Nat.find_spec hex
    have hfirst : ∀ i < Nat.find hex, fails i = false := fun i hi =>
      (Bool.not_eq_true _).mp fun h => Nat.find_min hex hi ⟨hi.le.trans hj, h⟩
    rw [commit_of_unwritten hplan hboard hj hfail hfirst]
    show overlay _ d = d ↔ _
    rw [overlay_eq_iff]
    constructor
    · intro h
      refine ⟨fun j hj' hfail' hfirst' => ?_, fun hworks => absurd hworks hall⟩
      have heq : j = Nat.find hex := by
        rcases Nat.lt_trichotomy j (Nat.find hex) with hlt | heq | hgt
        · exact absurd hfail' (by simp [hfirst j hlt])
        · exact heq
        · exact absurd hfail (by simp [hfirst' _ hgt])
      rwa [heq]
    · intro h
      exact h.writes _ hj hfail hfirst

end Saipen.SourceLink
