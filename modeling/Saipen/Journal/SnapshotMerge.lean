import Saipen.Journal.Codec
import Saipen.Journal.Snapshot

/-! # The snapshot merge is sound and complete

The scan keeps one invariant: over the captures seen so far, an operation id is corrupt exactly when
some copy of it does not decode or two copies disagree, and otherwise the last copy stands for it.
`MergeInvariant.step` is its step, one capture at a time, and the snapshot's records follow. -/

namespace Saipen

open FileTree

variable (env : Environment)

/-! ### Copies of an operation -/

/-- The record of a capture without structural error that decodes. -/
def captureRecord (e : ReceiptEntry) : Option Record :=
  match e.structuralError with
  | some _ => none
  | none => (decodeCaptured env e).toOption

/-- The captures that name an operation, in scan order. -/
def copies (es : List ReceiptEntry) (id : String) : List ReceiptEntry :=
  es.filter fun e => e.name = id

/-- Two copies agree when both are terminal and mean the same. -/
def CopiesAgree (a b : Record) : Prop :=
  a.status.settled ∧ b.status.settled ∧ a.terminalReceiptEquivalent b

/-- The decoded copies of an operation. -/
def copyRecords (es : List ReceiptEntry) (id : String) : List Record :=
  (copies es id).filterMap (captureRecord env)

/-- Every copy decodes and any two agree. -/
def Consistent (es : List ReceiptEntry) (id : String) : Prop :=
  (∀ e ∈ copies es id, (captureRecord env e).isSome) ∧ (copyRecords env es id).Pairwise CopiesAgree

theorem CopiesAgree.trans {a b c : Record} (hab : CopiesAgree a b) (hbc : CopiesAgree b c) :
    CopiesAgree a c :=
  ⟨hab.1, hbc.2.1, decide_eq_true ((of_decide_eq_true hab.2.2).trans (of_decide_eq_true hbc.2.2))⟩

theorem captureRecord_opId {e : ReceiptEntry} {r : Record} (h : captureRecord env e = some r) :
    r.opId = e.name ∧ r.opId ≠ "" := by
  unfold captureRecord at h
  split at h
  · cases h
  · cases hd : decodeCaptured env e with
    | error _ => simp [hd, Except.toOption] at h
    | ok q =>
      simp only [hd, Except.toOption, Option.some.injEq] at h
      subst h
      exact decodeCaptured_opId hd

/-- The memo only answers what the decoder would. -/
theorem recordOf_eq (memo : List ReceiptEntry) (e : ReceiptEntry) :
    recordOf env memo e = decodeCaptured env e := by
  unfold recordOf
  cases hm : memoLookup env memo e with
  | none => rfl
  | some r =>
    unfold memoLookup at hm
    split at hm
    · next c hc =>
      have hc' := List.find?_some hc
      simp only [Bool.decide_and, Bool.and_eq_true, decide_eq_true_eq] at hc'
      split at hm
      · next q hq =>
        split at hm
        · next hs =>
          obtain rfl := Option.some.inj hm
          exact (decodeCaptured_of_settled hq hs hc'.1.symm hc'.2.2.1.symm hc'.2.2.2.symm).symm
        · cases hm
      · cases hm
    · cases hm

/-- One capture of the scan, by whether it decodes. -/
theorem mergeReceipt_eq (memo : List ReceiptEntry) (m : Merge) (e : ReceiptEntry) :
    (∃ r, captureRecord env e = some r ∧ mergeReceipt env memo m e = m.adopt e.name r) ∨
      (captureRecord env e = none ∧
        ∃ detail, mergeReceipt env memo m e = m.reject e.name (e.name ++ ": " ++ detail)) := by
  cases hs : e.structuralError with
  | some detail =>
    refine .inr ⟨by simp [captureRecord, hs], "CORRUPT_JOURNAL: " ++ detail, ?_⟩
    simp only [mergeReceipt, hs]
  | none =>
    cases hd : decodeCaptured env e with
    | error refused =>
      exact .inr ⟨by simp [captureRecord, hs, hd, Except.toOption],
        refused.code.name ++ ": " ++ refused.detail, by simp [mergeReceipt, hs, recordOf_eq, hd]⟩
    | ok r =>
      have hr : captureRecord env e = some r := by simp [captureRecord, hs, hd, Except.toOption]
      obtain ⟨hid, hne⟩ := captureRecord_opId env hr
      exact .inl ⟨r, hr, by simp [mergeReceipt, hs, recordOf_eq, hd, ← hid, hne]⟩

/-! ### The invariant of the scan -/

/-- An error of the snapshot that names an operation as corrupt. -/
def ReportsCorrupt (id error : String) : Prop :=
  (∃ detail, error = id ++ ": " ++ detail) ∨
    error = "duplicate op_id " ++ Text.quote id ++
      " across ops/settled with non-equivalent records -- corrupt evidence"

/-- What the scan of some captures has established. -/
structure MergeInvariant (es : List ReceiptEntry) (m : Merge) : Prop where
  nodup : (m.results.map Prod.fst).Nodup
  corrupt_iff : ∀ id, id ∈ m.corrupt ↔ ¬ Consistent env es id
  lookup_iff : ∀ id r, m.results.lookup id = some r ↔
    Consistent env es id ∧ (copyRecords env es id).getLast? = some r
  reported : ∀ id ∈ m.corrupt, ∃ error ∈ m.errors, ReportsCorrupt id error

theorem copies_append (es : List ReceiptEntry) (e : ReceiptEntry) (id : String) :
    copies (es ++ [e]) id = if e.name = id then copies es id ++ [e] else copies es id := by
  by_cases h : e.name = id <;> simp [copies, h]

theorem copyRecords_append_of_ne {es : List ReceiptEntry} {e : ReceiptEntry} {id : String}
    (h : e.name ≠ id) : copyRecords env (es ++ [e]) id = copyRecords env es id := by
  rw [copyRecords, copies_append, if_neg h, copyRecords]

theorem consistent_append_of_ne {es : List ReceiptEntry} {e : ReceiptEntry} {id : String}
    (h : e.name ≠ id) : Consistent env (es ++ [e]) id ↔ Consistent env es id := by
  rw [Consistent, copyRecords_append_of_ne env h, copies_append, if_neg h, Consistent]

theorem copyRecords_append_self {es : List ReceiptEntry} {e : ReceiptEntry} {r : Record}
    (h : captureRecord env e = some r) :
    copyRecords env (es ++ [e]) e.name = copyRecords env es e.name ++ [r] := by
  rw [copyRecords, copies_append, if_pos rfl, List.filterMap_append, copyRecords]
  simp [h]

/-- An undecodable copy spoils its operation. -/
theorem not_consistent_append {es : List ReceiptEntry} {e : ReceiptEntry}
    (h : captureRecord env e = none) : ¬ Consistent env (es ++ [e]) e.name := by
  intro hc
  have := hc.1 e (by simp [copies])
  simp [h] at this

/-- A decodable copy keeps its operation consistent when it agrees with the last one. -/
theorem consistent_append_self {es : List ReceiptEntry} {e : ReceiptEntry} {r : Record}
    (h : captureRecord env e = some r) :
    Consistent env (es ++ [e]) e.name ↔ Consistent env es e.name ∧
      ∀ q, (copyRecords env es e.name).getLast? = some q → CopiesAgree q r := by
  have hcop : (∀ c ∈ copies (es ++ [e]) e.name, (captureRecord env c).isSome) ↔
      ∀ c ∈ copies es e.name, (captureRecord env c).isSome := by
    rw [copies_append, if_pos rfl]
    simp [or_imp, forall_and, h]
  rw [Consistent, Consistent, hcop, copyRecords_append_self env h, List.pairwise_append]
  simp only [List.pairwise_singleton, List.mem_singleton, forall_eq, true_and, and_assoc,
    and_congr_right_iff]
  intro hall hpw
  constructor
  · exact fun hr q hq => hr q (List.mem_of_getLast? hq)
  · -- agreement with the last copy is agreement with every copy
    intro hlast a ha
    rcases List.eq_nil_or_concat' (copyRecords env es e.name) with hnil | ⟨init, q, hq⟩
    · rw [hnil] at ha; cases ha
    · have hqr := hlast q (by rw [hq]; simp)
      rw [hq, List.mem_append, List.mem_singleton] at ha
      rcases ha with ha | rfl
      · rw [hq, List.pairwise_append] at hpw
        exact (hpw.2.2 a ha q (by simp)).trans hqr
      · exact hqr

theorem MergeInvariant.empty : MergeInvariant env [] .empty where
  nodup := List.nodup_nil
  corrupt_iff id := by simp [Merge.empty, Consistent, copies, copyRecords]
  lookup_iff id r := by simp [Merge.empty, copyRecords, copies]
  reported id h := by simp [Merge.empty] at h

/-- Rejecting the operation of a capture that makes it inconsistent keeps the invariant. -/
theorem MergeInvariant.reject {es : List ReceiptEntry} {m : Merge} {e : ReceiptEntry}
    (h : MergeInvariant env es m) (hbad : ¬ Consistent env (es ++ [e]) e.name) {error : String}
    (herror : ReportsCorrupt e.name error) :
    MergeInvariant env (es ++ [e]) (m.reject e.name error) where
  nodup := Assoc.nodup_pop h.nodup
  corrupt_iff id := by
    rcases eq_or_ne e.name id with rfl | hne
    · simp [Merge.reject, hbad]
    · simp [Merge.reject, Ne.symm hne, h.corrupt_iff id, consistent_append_of_ne env hne]
  lookup_iff id r := by
    rcases eq_or_ne e.name id with rfl | hne
    · simp [Merge.reject, Assoc.lookup_pop, hbad]
    · simp only [Merge.reject, Assoc.lookup_pop, if_neg (Ne.symm hne), h.lookup_iff id r,
        consistent_append_of_ne env hne, copyRecords_append_of_ne env hne]
  reported id hid := by
    rcases List.mem_cons.mp hid with rfl | hid
    · exact ⟨error, by simp [Merge.reject], herror⟩
    · obtain ⟨err, herr, hr⟩ := h.reported id hid
      exact ⟨err, by simp [Merge.reject, herr], hr⟩

/-- Recording a copy that agrees with the ones before it keeps the invariant. -/
theorem MergeInvariant.record {es : List ReceiptEntry} {m : Merge} {e : ReceiptEntry} {r : Record}
    (h : MergeInvariant env es m) (hr : captureRecord env e = some r)
    (hgood : Consistent env (es ++ [e]) e.name) :
    MergeInvariant env (es ++ [e]) { m with results := Assoc.set e.name r m.results } where
  nodup := Assoc.nodup_set r h.nodup
  corrupt_iff id := by
    rcases eq_or_ne e.name id with rfl | hne
    · have := ((consistent_append_self env hr).mp hgood).1
      simp [h.corrupt_iff, hgood, this]
    · simp [h.corrupt_iff id, consistent_append_of_ne env hne]
  lookup_iff id q := by
    rcases eq_or_ne e.name id with rfl | hne
    · simp [Assoc.lookup_set, hgood, copyRecords_append_self env hr]
    · simp only [Assoc.lookup_set, if_neg (Ne.symm hne), h.lookup_iff id q,
        consistent_append_of_ne env hne, copyRecords_append_of_ne env hne]
  reported := h.reported

/-- A capture of an operation already found corrupt changes nothing. -/
theorem MergeInvariant.ignore {es : List ReceiptEntry} {m : Merge} {e : ReceiptEntry} {r : Record}
    (h : MergeInvariant env es m) (hr : captureRecord env e = some r) (hc : e.name ∈ m.corrupt) :
    MergeInvariant env (es ++ [e]) m where
  nodup := h.nodup
  corrupt_iff id := by
    rcases eq_or_ne e.name id with rfl | hne
    · simp [h.corrupt_iff, consistent_append_self env hr, (h.corrupt_iff _).mp hc]
    · simp [h.corrupt_iff id, consistent_append_of_ne env hne]
  lookup_iff id q := by
    rcases eq_or_ne e.name id with rfl | hne
    · simp [h.lookup_iff, consistent_append_self env hr, (h.corrupt_iff _).mp hc]
    · simp only [h.lookup_iff id q, consistent_append_of_ne env hne,
        copyRecords_append_of_ne env hne]
  reported := h.reported

/-- The step of the scan. -/
theorem MergeInvariant.step {es : List ReceiptEntry} {m : Merge} (h : MergeInvariant env es m)
    (memo : List ReceiptEntry) (e : ReceiptEntry) :
    MergeInvariant env (es ++ [e]) (mergeReceipt env memo m e) := by
  rcases mergeReceipt_eq env memo m e with ⟨r, hr, hm⟩ | ⟨hr, detail, hm⟩
  · rw [hm]
    unfold Merge.adopt
    split
    · next hc => exact h.ignore env hr hc
    · next hc =>
      have hcons : Consistent env es e.name := by
        by_contra hn
        exact hc ((h.corrupt_iff e.name).mpr hn)
      split
      · next hl =>
        refine h.record env hr ((consistent_append_self env hr).mpr ⟨hcons, fun q hq => ?_⟩)
        rw [(h.lookup_iff e.name q).mpr ⟨hcons, hq⟩] at hl
        cases hl
      · next q hl =>
        have hlast := ((h.lookup_iff e.name q).mp hl).2
        split
        · next hagree =>
          refine h.record env hr ((consistent_append_self env hr).mpr ⟨hcons, fun p hp => ?_⟩)
          rw [hlast, Option.some.injEq] at hp
          exact hp ▸ hagree
        · next hagree =>
          refine h.reject env (fun hn => hagree ?_) (.inr rfl)
          exact ((consistent_append_self env hr).mp hn).2 q hlast
  · rw [hm]
    exact h.reject env (not_consistent_append env hr) (.inl ⟨detail, rfl⟩)

/-- The run of the scan. -/
theorem MergeInvariant.scan {es : List ReceiptEntry} {m : Merge} (h : MergeInvariant env es m)
    (memo fs : List ReceiptEntry) :
    MergeInvariant env (es ++ fs) (scanReceiptNamespace env memo m fs) := by
  induction fs generalizing es m with
  | nil => simpa [scanReceiptNamespace] using h
  | cons f fs ih =>
    have := ih (h.step env memo f)
    rwa [List.append_assoc] at this

theorem mergeReceipts_invariant (memo ops settled : List ReceiptEntry) :
    MergeInvariant env (ops ++ settled) (mergeReceipts env memo ops settled) := by
  have h := ((MergeInvariant.empty env).scan env [] ops).scan env memo settled
  simpa [mergeReceipts] using h

/-! ### The records of the snapshot -/

theorem mem_copyRecords {es : List ReceiptEntry} {id : String} {r : Record} :
    r ∈ copyRecords env es id ↔ ∃ e ∈ copies es id, captureRecord env e = some r := by
  simp [copyRecords]

theorem opId_of_mem_copyRecords {es : List ReceiptEntry} {id : String} {r : Record}
    (h : r ∈ copyRecords env es id) : r.opId = id := by
  obtain ⟨e, he, hr⟩ := (mem_copyRecords env).mp h
  rw [(captureRecord_opId env hr).1]
  simpa using (List.mem_filter.mp he).2

theorem captureRecord_clean {e : ReceiptEntry} {r : Record} (h : captureRecord env e = some r) :
    r.Clean := by
  unfold captureRecord at h
  split at h
  · cases h
  · cases hd : decodeCaptured env e with
    | error _ => simp [hd, Except.toOption] at h
    | ok q =>
      simp only [hd, Except.toOption, Option.some.injEq] at h
      subst h
      exact decodeCaptured_clean hd

/-- Copies that agree bind to the same projects. -/
theorem bindsToProject_congr {live : Option String} {a b : Record} (ha : a.Clean) (hb : b.Clean)
    (h : CopiesAgree a b) : bindsToProject env live a = bindsToProject env live b := by
  obtain ⟨hst, hid, hlin⟩ := binding_fields_eq ha hb h.2.2
  simp only [bindsToProject, recoveryIdentityBinding, Record.lineage?, hst, hid, hlin]

/-- A record is in the snapshot when it is the last of the consistent copies of its operation and
binds to the project. -/
theorem mem_records_iff (memo : List ReceiptEntry) (d : Disk) (r : Record) :
    r ∈ (semanticReceiptSnapshot env memo d).records ↔
      Consistent env (opsCaptures d ++ settledCaptures d) r.opId ∧
      (copyRecords env (opsCaptures d ++ settledCaptures d) r.opId).getLast? = some r ∧
      bindsToProject env (projectLineageIdentity env d) r = true := by
  have hinv := mergeReceipts_invariant env memo (opsCaptures d) (settledCaptures d)
  simp only [semanticReceiptSnapshot, List.mem_insertionSort, List.mem_map,
    List.mem_filter, Prod.exists, exists_eq_right]
  constructor
  · rintro ⟨id, hmem, hb⟩
    have hl := (hinv.lookup_iff id r).mp ((Assoc.mem_iff_lookup hinv.nodup id r).mp hmem)
    obtain rfl := opId_of_mem_copyRecords env (List.mem_of_getLast? hl.2)
    exact ⟨hl.1, hl.2, hb⟩
  · rintro ⟨hc, hl, hb⟩
    exact ⟨r.opId, (Assoc.mem_iff_lookup hinv.nodup _ r).mpr
      ((hinv.lookup_iff _ r).mpr ⟨hc, hl⟩), hb⟩

/-- The digest is framed from the captures the merge consumes, which are those of the project. -/
theorem snapshot_digest (memo : List ReceiptEntry) (d : Disk) :
    (semanticReceiptSnapshot env memo d).digest = semanticReceiptDigest env d := by
  unfold semanticReceiptSnapshot semanticReceiptDigest semanticReceiptDigestAt
  rw [probeAbsolute_root, probeAbsolute_root]
  rfl

end Saipen
