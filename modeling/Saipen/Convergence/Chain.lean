import Saipen.Convergence.Verdict
import Saipen.Journal.SnapshotMerge

/-! # What the verdict certifies

The verdict is positive for a chain of receipts whose `G`, `H` and `I` should be bound to the live source.
What it compares with the live source is `I` alone: the identity of `H` is compared with itself. -/

namespace Saipen.Convergence

open Text

variable {p : Printable} {s : Snapshot} {live : Identity} {r e f g h i : Record}

/-! ### The latest of some receipts -/

section Latest

variable {α κ : Type} [LinearOrder κ] {key : α → κ} {l : List α} {a b : α}

/-- With keys that differ, the first of the largest is the largest. -/
theorem argmax_eq_some_of_le (ha : a ∈ l) (hmax : ∀ b ∈ l, key b ≤ key a)
    (hinj : ∀ b ∈ l, key b = key a → b = a) : l.argmax key = some a := by
  cases hbest : l.argmax key with
  | none => rw [List.argmax_eq_none.mp hbest] at ha; cases ha
  | some m =>
    have hm := List.argmax_mem hbest
    have hle : key a ≤ key m := List.le_of_mem_argmax ha hbest
    rw [hinj m hm (le_antisymm (hmax m hm) hle)]

/-- The last of a sorted list has the largest key. -/
theorem le_getLast?_of_pairwise (hsorted : l.Pairwise fun a b => key a ≤ key b) (ha : l.getLast? = some a)
    (hb : b ∈ l) : key b ≤ key a := by
  obtain ⟨front, rfl⟩ := List.getLast?_eq_some_iff.mp ha
  rcases List.mem_append.mp hb with hb | hb
  · exact (List.pairwise_append.mp hsorted).2.2 b hb a (List.mem_singleton_self a)
  · rw [List.mem_singleton.mp hb]

end Latest

/-! ### The receipts of the stages -/

theorem mem_stageReceipts {records : List Record} :
    r ∈ stageReceipts records ↔ r ∈ records ∧ isStageReceipt r = true := by
  rw [stageReceipts, List.mem_insertionSort, List.mem_filter]

theorem sorted_stageReceipts (records : List Record) :
    (stageReceipts records).Pairwise fun a b => chronoKey a ≤ chronoKey b :=
  List.pairwise_insertionSort (fun a b => chronoKey a ≤ chronoKey b) _

/-- Receipts of one operation are one receipt. -/
def Distinct (records : List Record) : Prop := (records.map (·.opId)).Nodup

theorem Distinct.eq {records : List Record} (hd : Distinct records) (ha : e ∈ records) (hb : f ∈ records)
    (hkey : chronoKey e = chronoKey f) : e = f := by
  have hid : e.opId = f.opId := congrArg (fun k : ChronoKey => (ofLex (ofLex k).2).2) hkey
  exact List.inj_on_of_nodup_map hd ha hb hid

/-- The order in which receipts are listed is forgotten. -/
theorem stageReceipts_perm {records records' : List Record} (hd : Distinct records)
    (hperm : records'.Perm records) : stageReceipts records' = stageReceipts records := by
  have hsame : (stageReceipts records').Perm (stageReceipts records) :=
    (List.perm_insertionSort _ _).trans
      ((hperm.filter _).trans (List.perm_insertionSort _ _).symm)
  refine hsame.eq_of_pairwise (fun a b ha hb hab hba => ?_) (sorted_stageReceipts _) (sorted_stageReceipts _)
  have ha' := (mem_stageReceipts.mp (hsame.subset ha)).1
  have hb' := (mem_stageReceipts.mp hb).1
  exact hd.eq ha' hb' (le_antisymm hab hba)

/-! ### The walk back -/

/-- A receipt of a stage, among those that were read. -/
structure OfStage (records : List Record) (wanted : String) (r : Record) : Prop where
  mem : r ∈ records
  committed : isStageReceipt r = true
  stage : stage r = some wanted

/-- The latest receipt of a stage. -/
def IsLatest (records : List Record) (wanted : String) (r : Record) : Prop :=
  OfStage records wanted r ∧ ∀ r', OfStage records wanted r' → chronoKey r' ≤ chronoKey r

/-- The latest receipt of a stage before another one. -/
structure LatestBefore (records : List Record) (wanted : String) (before r : Record) : Prop
    extends OfStage records wanted r where
  earlier : chronoKey r < chronoKey before
  latest : ∀ r', OfStage records wanted r' → chronoKey r' < chronoKey before → chronoKey r' ≤ chronoKey r

theorem pickLatest_eq_some_iff (hd : Distinct s.records) {wanted : String} {before : Record} :
    pickLatest (stageReceipts s.records) wanted before = some r ↔ LatestBefore s.records wanted before r := by
  have hmem : ∀ r', (r' ∈ (stageReceipts s.records).filter fun r =>
      stage r = some wanted ∧ chronoKey r < chronoKey before) ↔
      OfStage s.records wanted r' ∧ chronoKey r' < chronoKey before := by
    intro r'
    rw [List.mem_filter, mem_stageReceipts, decide_eq_true_iff]
    exact ⟨fun ⟨⟨hr, hc⟩, hs, hk⟩ => ⟨⟨hr, hc, hs⟩, hk⟩, fun ⟨⟨hr, hc, hs⟩, hk⟩ => ⟨⟨hr, hc⟩, hs, hk⟩⟩
  constructor
  · intro hpick
    obtain ⟨hof, hkey⟩ := (hmem r).mp (List.argmax_mem hpick)
    exact ⟨hof, hkey, fun r' hr' hk' => List.le_of_mem_argmax ((hmem r').mpr ⟨hr', hk'⟩) hpick⟩
  · intro hlatest
    refine argmax_eq_some_of_le ((hmem r).mpr ⟨hlatest.toOfStage, hlatest.earlier⟩) (fun r' hr' => ?_)
      fun r' hr' hk' => ?_
    · obtain ⟨hof, hkey⟩ := (hmem r').mp hr'
      exact hlatest.latest r' hof hkey
    · exact hd.eq ((hmem r').mp hr').1.mem hlatest.mem hk'

theorem getLast?_stage_iff (hd : Distinct s.records) :
    ((stageReceipts s.records).filter fun r => stage r = some "I").getLast? = some r ↔
      IsLatest s.records "I" r := by
  have hmem : ∀ r', (r' ∈ (stageReceipts s.records).filter fun r => stage r = some "I") ↔
      OfStage s.records "I" r' := by
    intro r'
    rw [List.mem_filter, mem_stageReceipts, decide_eq_true_iff]
    exact ⟨fun ⟨⟨hr, hc⟩, hs⟩ => ⟨hr, hc, hs⟩, fun ⟨hr, hc, hs⟩ => ⟨⟨hr, hc⟩, hs⟩⟩
  have hsorted := (sorted_stageReceipts s.records).filter fun r => stage r = some "I"
  constructor
  · intro hlast
    exact ⟨(hmem r).mp (List.mem_of_getLast? hlast),
      fun r' hr' => le_getLast?_of_pairwise hsorted hlast ((hmem r').mpr hr')⟩
  · rintro ⟨hof, hlatest⟩
    cases hlast : ((stageReceipts s.records).filter fun r => stage r = some "I").getLast? with
    | none =>
      rw [List.getLast?_eq_none_iff] at hlast
      have hin := (hmem r).mpr hof
      rw [hlast] at hin
      cases hin
    | some m =>
      have hm := (hmem m).mp (List.mem_of_getLast? hlast)
      have hle := le_getLast?_of_pairwise hsorted hlast ((hmem r).mpr hof)
      rw [hd.eq hm.mem hof.mem (le_antisymm (hlatest m hm) hle)]

/-- The five receipts that the verdict looks at. -/
structure Picked (records : List Record) (e f g h i : Record) : Prop where
  final : IsLatest records "I" i
  gate : LatestBefore records "H" i h
  clean : LatestBefore records "G" h g
  hunt : LatestBefore records "F" g f
  test : LatestBefore records "E" f e

/-! ### Chains -/

/-- Five receipts with passing verdicts, the first three bound to one source and the next two to another,
with the live source under the last. -/
structure Linked (e f g h i : Record) (s₁ live : Identity) : Prop where
  passing : ∀ r ∈ [e, f, g, h, i], passes r = true
  before : ∃ s₀, identityOf e = some s₀ ∧ identityOf f = some s₀ ∧ identityOf g = some s₀
  result : resultOf g = some s₁
  gate : identityOf h = some s₁
  final : identityOf i = some live

/-- An unbroken chain of evidence for the live source. -/
structure Chain (records : List Record) (live : Identity) (e f g h i : Record) : Prop where
  test : OfStage records "E" e
  hunt : OfStage records "F" f
  clean : OfStage records "G" g
  gate : OfStage records "H" h
  final : IsLatest records "I" i
  strict : [chronoKey e, chronoKey f, chronoKey g, chronoKey h, chronoKey i].Pairwise (· < ·)
  linked : Linked e f g h i live live

/-- The receipts that were picked are in order. -/
theorem Picked.strict (hp : Picked s.records e f g h i) :
    [chronoKey e, chronoKey f, chronoKey g, chronoKey h, chronoKey i].Pairwise (· < ·) := by
  have hef := hp.test.earlier
  have hfg := hp.hunt.earlier
  have hgh := hp.clean.earlier
  have hhi := hp.gate.earlier
  refine List.isChain_iff_pairwise.mp ?_
  simp [hef, hfg, hgh, hhi]

/-- Picked receipts that are bound to the live source are a chain. -/
theorem Picked.chain (hp : Picked s.records e f g h i) (hl : Linked e f g h i live live) :
    Chain s.records live e f g h i :=
  ⟨hp.test.toOfStage, hp.hunt.toOfStage, hp.clean.toOfStage, hp.gate.toOfStage, hp.final, hp.strict, hl⟩

/-- A chain of the latest receipts is the one that is picked. -/
theorem Chain.picked (hc : Chain s.records live e f g h i) (he : IsLatest s.records "E" e)
    (hf : IsLatest s.records "F" f) (hg : IsLatest s.records "G" g) (hh : IsLatest s.records "H" h) :
    Picked s.records e f g h i := by
  have hstrict := hc.strict
  simp only [List.pairwise_cons, List.mem_cons, List.not_mem_nil, or_false, forall_eq_or_imp, forall_eq] at hstrict
  obtain ⟨⟨hef, -⟩, ⟨hfg, -⟩, ⟨hgh, -⟩, hhi, -⟩ := hstrict
  exact ⟨hc.final, ⟨hc.gate, hhi, fun r' hr' _ => hh.2 r' hr'⟩, ⟨hc.clean, hgh, fun r' hr' _ => hg.2 r' hr'⟩,
    ⟨hc.hunt, hfg, fun r' hr' _ => hf.2 r' hr'⟩, ⟨hc.test, hef, fun r' hr' _ => he.2 r' hr'⟩⟩

/-! ### What the checks decide -/

theorem reason_eq_nil_iff {fault : Prop} [Decidable fault] {text : String} :
    reason fault text = [] ↔ ¬ fault := by
  unfold reason
  split <;> simp [*]

theorem verdictFaults_eq_nil_iff : verdictFaults p r = [] ↔ passes r = true := by
  rw [verdictFaults, reason_eq_nil_iff, Bool.not_eq_false]

theorem sourceFaults_eq_nil_iff {s₀ gh s₁ : Identity} : sourceFaults f g s₀ gh s₁ = [] ↔
    identityOf f = some s₀ ∧ gh = s₀ ∧ resultOf g = some s₁ := by
  rw [sourceFaults, List.append_eq_nil_iff, List.append_eq_nil_iff, reason_eq_nil_iff, reason_eq_nil_iff,
    not_not, not_not, and_assoc]
  cases resultOf g with
  | none => simp
  | some result => rw [reason_eq_nil_iff, not_not, Option.some_inj]

/-- Receipts in order, the last of them bound to the live source, pass exactly when they are linked to the
identity that the gate behind CLEAN is bound to. -/
theorem judge_ok_iff (hstrict : ([e, f, g, h, i].map chronoKey).Pairwise (· < ·))
    (hlive : identityOf i = some live) :
    (judge p e f g h i live []).ok = true ↔ ∃ s₁, Linked e f g h i s₁ live := by
  rw [judge, if_neg (not_not.mpr hstrict)]
  split
  case h_1 s₀ gh s₁ he hg hh =>
    rw [List.isEmpty_iff, List.append_nil, List.append_eq_nil_iff, List.append_eq_nil_iff,
      sourceFaults_eq_nil_iff, reason_eq_nil_iff, List.flatMap_eq_nil_iff]
    constructor
    · rintro ⟨⟨⟨hf, rfl, hresult⟩, -⟩, hpassing⟩
      exact ⟨s₁, fun r hr => verdictFaults_eq_nil_iff.mp (hpassing r hr), ⟨_, he, hf, hg⟩, hresult, hh, hlive⟩
    · rintro ⟨s₁', hpassing, ⟨s₀', he', hf', hg'⟩, hresult, hh', -⟩
      obtain rfl : s₁ = s₁' := Option.some.inj (hh.symm.trans hh')
      obtain rfl : s₀ = s₀' := Option.some.inj (he.symm.trans he')
      obtain rfl : gh = s₀ := Option.some.inj (hg.symm.trans hg')
      exact ⟨⟨⟨hf', rfl, hresult⟩, not_not.mpr hh⟩, fun r hr => verdictFaults_eq_nil_iff.mpr (hpassing r hr)⟩
  case h_2 hnone =>
    refine iff_of_false Bool.false_ne_true ?_
    rintro ⟨s₁, -, ⟨s₀, he, -, hg⟩, -, hh, -⟩
    exact hnone _ _ _ he hg hh

theorem walkBack_ok_iff (hd : Distinct s.records) (hlatest : IsLatest s.records "I" i)
    (hlive : identityOf i = some live) :
    (walkBack p (stageReceipts s.records) i live []).ok = true ↔
      ∃ e f g h s₁, Picked s.records e f g h i ∧ Linked e f g h i s₁ live := by
  unfold walkBack
  dsimp only
  split
  case h_1 e f g h he hf hg hh =>
    rw [hh, Option.getD_some] at hg
    rw [hh, Option.getD_some, hg, Option.getD_some] at hf
    rw [hh, Option.getD_some, hg, Option.getD_some, hf, Option.getD_some] at he
    have hpicked : Picked s.records e f g h i :=
      ⟨hlatest, (pickLatest_eq_some_iff hd).mp hh, (pickLatest_eq_some_iff hd).mp hg,
        (pickLatest_eq_some_iff hd).mp hf, (pickLatest_eq_some_iff hd).mp he⟩
    rw [judge_ok_iff hpicked.strict hlive]
    constructor
    · rintro ⟨s₁, hlinked⟩
      exact ⟨e, f, g, h, s₁, hpicked, hlinked⟩
    · rintro ⟨e', f', g', h', s₁, hp', hlinked⟩
      obtain rfl := Option.some.inj (hh.symm.trans ((pickLatest_eq_some_iff hd).mpr hp'.gate))
      obtain rfl := Option.some.inj (hg.symm.trans ((pickLatest_eq_some_iff hd).mpr hp'.clean))
      obtain rfl := Option.some.inj (hf.symm.trans ((pickLatest_eq_some_iff hd).mpr hp'.hunt))
      obtain rfl := Option.some.inj (he.symm.trans ((pickLatest_eq_some_iff hd).mpr hp'.test))
      exact ⟨s₁, hlinked⟩
  case h_2 hnone =>
    refine iff_of_false Bool.false_ne_true ?_
    rintro ⟨e, f, g, h, -, hp, -⟩
    have hh := (pickLatest_eq_some_iff hd).mpr hp.gate
    have hg := (pickLatest_eq_some_iff hd).mpr hp.clean
    have hf := (pickLatest_eq_some_iff hd).mpr hp.hunt
    have he := (pickLatest_eq_some_iff hd).mpr hp.test
    refine hnone e f g h ?_ ?_ ?_ hh
    · rw [hh, Option.getD_some, hg, Option.getD_some, hf, Option.getD_some, he]
    · rw [hh, Option.getD_some, hg, Option.getD_some, hf]
    · rw [hh, Option.getD_some, hg]

/-- The verdict is positive exactly for picked receipts that are linked, to whatever source. -/
theorem convergenceVerdict_ok_iff (hread : s.errors = []) (hd : Distinct s.records) :
    (convergenceVerdict p s live []).ok = true ↔
      ∃ e f g h i s₁, Picked s.records e f g h i ∧ Linked e f g h i s₁ live := by
  rw [convergenceVerdict, if_neg (not_not.mpr hread)]
  dsimp only
  split
  case isTrue hempty =>
    refine iff_of_false Bool.false_ne_true ?_
    rintro ⟨e, f, g, h, i, -, hp, -⟩
    have hi := mem_stageReceipts.mpr ⟨hp.final.1.mem, hp.final.1.committed⟩
    rw [hempty] at hi
    cases hi
  case isFalse =>
    split
    case h_1 hnone =>
      refine iff_of_false Bool.false_ne_true ?_
      rintro ⟨e, f, g, h, i, -, hp, -⟩
      rw [(getLast?_stage_iff hd).mpr hp.final] at hnone
      cases hnone
    case h_2 i hlast =>
      have hlatest := (getLast?_stage_iff hd).mp hlast
      have hsame : ∀ {e f g h i'}, Picked s.records e f g h i' → i' = i := fun hp =>
        Option.some.inj (((getLast?_stage_iff hd).mpr hp.final).symm.trans hlast)
      split
      case h_1 hnone =>
        refine iff_of_false Bool.false_ne_true ?_
        rintro ⟨e, f, g, h, i', s₁, hp, hlinked⟩
        obtain rfl := hsame hp
        rw [hlinked.final] at hnone
        cases hnone
      case h_2 bound hbound =>
        split
        case isTrue hne =>
          refine iff_of_false Bool.false_ne_true ?_
          rintro ⟨e, f, g, h, i', s₁, hp, hlinked⟩
          obtain rfl := hsame hp
          exact hne (Option.some.inj (hbound.symm.trans hlinked.final))
        case isFalse heq =>
          rw [not_not.mp heq] at hbound
          rw [walkBack_ok_iff hd hlatest hbound]
          constructor
          · rintro ⟨e, f, g, h, s₁, hp, hlinked⟩
            exact ⟨e, f, g, h, i, s₁, hp, hlinked⟩
          · rintro ⟨e, f, g, h, i', s₁, hp, hlinked⟩
            obtain rfl := hsame hp
            exact ⟨e, f, g, h, s₁, hp, hlinked⟩

/-! ### Receipts of the project -/

/-- The receipts of a project's snapshot are of different operations. -/
theorem distinct_snapshot (env : Environment) (memo : List ReceiptEntry) (d : Disk) :
    Distinct (semanticReceiptSnapshot env memo d).records := by
  have hinv := mergeReceipts_invariant env memo (opsCaptures d) (settledCaptures d)
  have hid : ∀ e ∈ (mergeReceipts env memo (opsCaptures d) (settledCaptures d)).results, e.2.opId = e.1 :=
    fun e he => opId_of_mem_copyRecords env (List.mem_of_getLast?
      ((hinv.lookup_iff e.1 e.2).mp ((Assoc.mem_iff_lookup hinv.nodup e.1 e.2).mp he)).2)
  have hsorted : ((semanticReceiptSnapshot env memo d).records.map (·.opId)).Perm
      (((mergeReceipts env memo (opsCaptures d) (settledCaptures d)).results.filter fun e =>
        bindsToProject env (projectLineageIdentity env d) e.2).map Prod.fst) := by
    refine ((List.perm_insertionSort _ _).map _).trans (List.Perm.of_eq ?_)
    rw [List.map_map]
    exact List.map_congr_left fun e he => hid e (List.mem_of_mem_filter he)
  exact hsorted.nodup_iff.mpr (hinv.nodup.sublist (List.filter_sublist.map _))

/-! ### The law -/

/-- What a verdict over some receipts owes: it is positive only for an unbroken chain, it is positive when
the latest receipts are one, and the order of the receipts does not matter. -/
structure VerdictLaw (p : Printable) (s : Snapshot) (live : Identity) : Prop where
  sound : (convergenceVerdict p s live []).ok = true → ∃ e f g h i, Chain s.records live e f g h i
  complete : ∀ e f g h i, Chain s.records live e f g h i → IsLatest s.records "E" e →
    IsLatest s.records "F" f → IsLatest s.records "G" g → IsLatest s.records "H" h →
      (convergenceVerdict p s live []).ok = true
  orderFree : ∀ s' : Snapshot, s'.errors = s.errors → s'.records.Perm s.records →
    convergenceVerdict p s' live [] = convergenceVerdict p s live []

/-- The receipts that are picked are in order, but CLEAN left and the gate behind it ran on a source that is
not the live one. -/
def StaleGate (s : Snapshot) (live : Identity) : Prop :=
  ∃ e f g h i s₁, Picked s.records e f g h i ∧ Linked e f g h i s₁ live ∧ s₁ ≠ live

theorem verdict_law_iff (p : Printable) (s : Snapshot) (live : Identity) (hread : s.errors = [])
    (hd : Distinct s.records) :
    VerdictLaw p s live ↔ (StaleGate s live → ∃ e f g h i, Chain s.records live e f g h i) := by
  constructor
  · rintro hlaw ⟨e, f, g, h, i, s₁, hp, hlinked, -⟩
    exact hlaw.sound ((convergenceVerdict_ok_iff hread hd).mpr ⟨e, f, g, h, i, s₁, hp, hlinked⟩)
  · intro hstale
    refine ⟨fun hok => ?_, fun e f g h i hc he hf hg hh => ?_, fun s' herrors hperm => ?_⟩
    · obtain ⟨e, f, g, h, i, s₁, hp, hlinked⟩ := (convergenceVerdict_ok_iff hread hd).mp hok
      by_cases heq : s₁ = live
      · rw [heq] at hlinked
        exact ⟨e, f, g, h, i, hp.chain hlinked⟩
      · exact hstale ⟨e, f, g, h, i, s₁, hp, hlinked, heq⟩
    · exact (convergenceVerdict_ok_iff hread hd).mpr ⟨e, f, g, h, i, live, hc.picked he hf hg hh, hc.linked⟩
    · rw [convergenceVerdict, convergenceVerdict, herrors, stageReceipts_perm hd hperm]

/-! ### Five receipts -/

/-- A receipt of a stage at a minute, on one source and leaving another. -/
def sampleReceipt (wanted verdict minute source result : String) : Record where
  opId := "op-" ++ wanted
  status := .committed
  operation := "convergence_stage"
  semanticPayloadHash := ""
  createdAt := "2026-10-01T00:" ++ minute ++ ":00Z"
  agent := "a"
  projectIdentity := ""
  projectLineage := .absent
  verificationPolicy := none
  preconditions := none
  readPreconditions := none
  receiptMetadata := .value [("operation", .str "convergence_stage"), ("status", .str "COMMITTED"),
    ("stage", .str wanted), ("verdict", .str verdict), ("event_id", .str "E-1"), ("source_head", .str source),
    ("source_tree_fingerprint", .str source), ("resulting_source_head", .str result),
    ("resulting_source_tree_fingerprint", .str result)]
  progressIndex := 0
  targets := []
  extra := []

/-- A test gate and a hunt on `s0`, CLEAN from there to `s1`, the gate behind it on `s1` and the final hunt
on the source it is given. -/
def sampleSnapshot (final : String) : Snapshot where
  records := [sampleReceipt "E" "PASS" "01" "s0" "", sampleReceipt "F" "CLEAN" "02" "s0" "",
    sampleReceipt "G" "COMPLETED" "03" "s0" "s1", sampleReceipt "H" "PASS" "04" "s1" "",
    sampleReceipt "I" "CLEAN" "05" final ""]
  errors := []
  corruptOpIds := []
  digest := ""

/-- The source changed between the gate behind CLEAN and the final hunt, and the verdict is positive. -/
theorem stale_gate_certified : (convergenceVerdict samplePrintable (sampleSnapshot "s2") ⟨"s2", "s2"⟩ []).ok = true ∧
    ¬ VerdictLaw samplePrintable (sampleSnapshot "s2") ⟨"s2", "s2"⟩ := by
  have hok : (convergenceVerdict samplePrintable (sampleSnapshot "s2") ⟨"s2", "s2"⟩ []).ok = true := by
    decide +kernel
  have hgates : ∀ r ∈ (sampleSnapshot "s2").records, stage r = some "H" →
      identityOf r ≠ some ⟨"s2", "s2"⟩ := by decide
  refine ⟨hok, fun hlaw => ?_⟩
  obtain ⟨e, f, g, h, i, hc⟩ := hlaw.sound hok
  exact hgates h hc.gate.mem hc.gate.stage hc.linked.gate

theorem unbroken_chain_certified :
    (convergenceVerdict samplePrintable (sampleSnapshot "s1") ⟨"s1", "s1"⟩ []).ok = true ∧
      VerdictLaw samplePrintable (sampleSnapshot "s1") ⟨"s1", "s1"⟩ := by
  have hgates : ∀ r ∈ (sampleSnapshot "s1").records, stage r = some "H" →
      identityOf r = some ⟨"s1", "s1"⟩ := by decide
  refine ⟨by decide +kernel, (verdict_law_iff samplePrintable _ _ rfl (by unfold Distinct; decide)).mpr ?_⟩
  rintro ⟨e, f, g, h, i, s₁, hp, hlinked, hne⟩
  have hlive := hgates h hp.gate.mem hp.gate.stage
  exact absurd (Option.some.inj (hlinked.gate.symm.trans hlive)) hne

end Saipen.Convergence
