import Saipen.Checks
import Saipen.Closure.Resolver
import Saipen.Graph.Chain

/-! # Links and ends of provenance

A source has one link to follow, or is an end, or neither. The resolver accepts a source exactly when the
links lead from it to an end, within the depth and without coming back; and more release records make more
ends and no fewer links. -/

namespace Saipen.Closure

open Text Board

variable (w : World)

/-! ### Links and ends -/

/-- A DONE ticket of the BOARD. -/
structure DoneTicket (id : String) (t : Ticket) : Prop where
  named : isTicketId id = true
  read : (parseBoard w.board).ticket id = some t
  done : t.sectionName = "## DONE"

/-- A source and the one it hands the question on to. -/
inductive Link : String → String → Prop
  | successor {id next : String} {t : Ticket} (h : DoneTicket w id t)
      (hmode : closureMode t = "superseded_verified") (hnext : supersededBy t = some next) : Link id (strip next)
  | inherited {id next : String} {t : Ticket} (h : DoneTicket w id t)
      (hmode : closureMode t = "inherited_verified") (hnext : implementationSource t = some next) :
      Link id (strip next)
  | receipt {id work : String} (hid : isReceiptId id = true) (hok : (w.receiptStatus id).ok = true)
      (hclosed : (w.receiptStatus id).status = some "CLOSED")
      (hwork : (w.receiptStatus id).linkedWork = some work) (hne : work ≠ "") : Link id (strip work)

/-- What a cohort says of a release. -/
structure Shipped (c : Cohort) : Prop where
  shipped : c.publicationStatus = some "shipped"
  operation : text c.releaseOpId ≠ ""
  version : text c.version ≠ ""

/-- The publication successor of a cohort, with a reconciliation that binds it and, where it is shipped, a
release record that names it. -/
structure ProvenSuccessor (registry : Registry) (id : String) (edge : Except String SuccessorEdge)
    (target : Cohort) : Prop where
  bound : ∃ e data, edge = .ok e ∧ w.reconciliation registry e.opId = .ok data ∧ id ∈ data.sources ∧
    e.cohort = some data.target ∧ registry.lookup data.target = some target ∧
    (target.publicationStatus = some "shipped" → ∃ r ∈ publishedReleases w,
      r.opId = target.releaseOpId ∧ r.version = target.version ∧ r.cohortId = some data.target)
  flat : target.publicationSuccessor = none

/-- The cohort that a cohort of the registry was published as. -/
inductive PublishedAs (registry : Registry) (id : String) (c : Cohort) : Cohort → Prop
  | itself (h : c.publicationSuccessor = none) : PublishedAs registry id c c
  | successor {edge : Except String SuccessorEdge} {target : Cohort} (h : c.publicationSuccessor = some edge)
      (hproven : ProvenSuccessor w registry id edge target) : PublishedAs registry id c target

/-- A source that proves a publication itself. -/
inductive Terminal : String → Prop
  | release {source wanted : String} {r : Release} (hid : releaseId? source = some wanted)
      (hr : r ∈ publishedReleases w) (hnamed : releaseMatches r wanted = true) : Terminal source
  | ownPatch {id : String} {t : Ticket} {r : Release} (h : DoneTicket w id t)
      (hmode : closureMode t ∈ ["own_patch", "finding_invalidated"]) (hr : r ∈ publishedReleases w)
      (hnamed : text r.ticketId = id) : Terminal id
  | cohort {id cohortId : String} {t : Ticket} {registry : Registry} {c target : Cohort} (h : DoneTicket w id t)
      (hmode : closureMode t = "cohort") (hcohort : closureCohort t = some cohortId)
      (hregistry : w.registry = .ok registry) (hc : registry.lookup cohortId = some c)
      (hpublished : PublishedAs w registry cohortId c target) (hshipped : Shipped target) : Terminal id
  | external {id : String} {t : Ticket} (h : DoneTicket w id t)
      (hmode : closureMode t = "external_implementation") (hcurrent : w.resolutionProblems t = []) : Terminal id

/-- The links lead from a source to an end, within the depth and without repeating a source. -/
def Proven (source : String) : Prop :=
  ∃ path : List String, path.head? = some (strip source) ∧ path.IsChain (Link w) ∧ path.Nodup ∧
    path.length ≤ maxDepth ∧ ∃ last, path.getLast? = some last ∧ Terminal w last

/-! ### What is found at a source -/

/-- The source that a source is followed to. -/
def nextSource (source : String) : Option String :=
  match (found w source).2 with
  | .follow next _ _ => some (strip next)
  | .settled .. => none

/-- Whether a source is accepted as it is. -/
def isEnd (source : String) : Bool :=
  match (found w source).2 with
  | .follow .. => false
  | .settled ok _ _ => ok

/-- The answer of the resolver is that of a walk along the links. -/
theorem resolveFrom_ok (n : Nat) (chain : List String) (raw : String) :
    (resolveFrom w n chain raw).ok = Graph.arrives (nextSource w) (isEnd w) n chain (strip raw) := by
  induction n generalizing chain raw with
  | zero =>
    rw [resolveFrom, Graph.arrives]
    split_ifs <;> rfl
  | succ n ih =>
    rw [resolveFrom, Graph.arrives, nextSource, isEnd]
    dsimp only
    by_cases hempty : strip raw = ""
    · -- nothing is found at the empty source
      have hnone : (found w "").2 = .settled false _ none := rfl
      rw [if_pos hempty, hempty, hnone]
      split_ifs <;> rfl
    · rw [if_neg hempty]
      split_ifs with hmem
      · rfl
      · cases (found w (strip raw)).2 with
        | settled ok detail evidence => rfl
        | follow next granted refused =>
          dsimp only
          rw [← ih (chain ++ [strip raw]) next]
          split_ifs with hok
          · rfl
          · exact (Bool.eq_false_iff.mpr hok).symm

/-! ### What the three kinds of sources come to -/

variable {w} {id source next : String} {t : Ticket}

theorem head_of_isTicketId (h : isTicketId id = true) : id.toList.head? = some 'T' := by
  unfold isTicketId at h
  split at h
  · next digits hid =>
    rw [literal_eq_some_iff.mp hid]
    rfl
  · cases h

theorem head_of_isReceiptId (h : isReceiptId id = true) : id.toList.head? = some 'S' := by
  unfold isReceiptId at h
  split at h
  · next digits hid =>
    rw [literal_eq_some_iff.mp hid]
    rfl
  · cases h

theorem head_of_releaseId? {wanted : String} (h : releaseId? id = some wanted) : id.toList.head? = some 'r' := by
  unfold releaseId? at h
  split at h
  · next name hid =>
    rw [literal_eq_some_iff.mp hid]
    rfl
  · cases h

theorem found_of_release {wanted : String} (h : releaseId? source = some wanted) :
    found w source = ("release", resolveRelease w source wanted) := by
  rw [found, h]

theorem releaseId?_eq_none (h : source.toList.head? ≠ some 'r') : releaseId? source = none := by
  cases hrelease : releaseId? source with
  | none => rfl
  | some wanted => exact absurd (head_of_releaseId? hrelease) h

theorem found_of_ticket (h : isTicketId id = true) : found w id = ("work", resolveWork w id) := by
  rw [found, releaseId?_eq_none (by rw [head_of_isTicketId h]; decide)]
  exact if_pos h

theorem isTicketId_of_receipt (h : isReceiptId id = true) : isTicketId id = false := by
  refine Bool.eq_false_iff.mpr fun hticket => ?_
  have hhead := head_of_isTicketId hticket
  rw [head_of_isReceiptId h] at hhead
  exact absurd hhead (by decide)

theorem found_of_receipt (h : isReceiptId id = true) : found w id = ("source", resolveReceipt w id) := by
  rw [found, releaseId?_eq_none (by rw [head_of_isReceiptId h]; decide)]
  dsimp only
  rw [if_neg (by rw [isTicketId_of_receipt h]; decide), if_pos h]

theorem resolveRelease_eq_settled_iff {wanted : String} :
    (∃ detail evidence, resolveRelease w source wanted = .settled true detail evidence) ↔
      ∃ r ∈ publishedReleases w, releaseMatches r wanted = true := by
  rw [resolveRelease]
  cases hfind : (publishedReleases w).find? (releaseMatches · wanted) with
  | none =>
    refine iff_of_false (fun ⟨_, _, h⟩ => by cases h) ?_
    rintro ⟨r, hr, hnamed⟩
    exact List.find?_eq_none.mp hfind r hr hnamed
  | some r =>
    have hnamed := List.find?_some hfind
    exact iff_of_true ⟨_, _, rfl⟩ ⟨r, List.mem_of_find?_eq_some hfind, hnamed⟩

theorem resolveOwnPatch_eq_settled_iff :
    (∃ detail evidence, resolveOwnPatch w t = .settled true detail evidence) ↔
      ∃ r ∈ publishedReleases w, text r.ticketId = t.id := by
  rw [resolveOwnPatch]
  cases hfind : (publishedReleases w).find? fun r => text r.ticketId = t.id with
  | none =>
    refine iff_of_false (fun ⟨_, _, h⟩ => by cases h) ?_
    rintro ⟨r, hr, hnamed⟩
    exact List.find?_eq_none.mp hfind r hr (decide_eq_true hnamed)
  | some r =>
    exact iff_of_true ⟨_, _, rfl⟩
      ⟨r, List.mem_of_find?_eq_some hfind, by simpa using List.find?_some hfind⟩

theorem successorCohort_eq_ok_iff {registry : Registry} {edge : Except String SuccessorEdge}
    {x : String × Cohort} : successorCohort w registry id edge = .ok x ↔
      ∃ e data, edge = .ok e ∧ w.reconciliation registry e.opId = .ok data ∧ id ∈ data.sources ∧
        e.cohort = some data.target ∧ registry.lookup data.target = some x.2 ∧ x.1 = data.target ∧
        x.2.publicationSuccessor = none ∧
        (x.2.publicationStatus = some "shipped" → ∃ r ∈ publishedReleases w,
          r.opId = x.2.releaseOpId ∧ r.version = x.2.version ∧ r.cohortId = some data.target) := by
  rw [successorCohort, Checks.bind_eq_ok]
  refine exists_congr fun e => ?_
  rw [Checks.bind_eq_ok, ← exists_and_left]
  refine exists_congr fun data => and_congr_right fun _ => and_congr_right fun _ => ?_
  by_cases hbinds : id ∉ data.sources ∨ e.cohort ≠ some data.target
  · rw [if_pos hbinds]
    refine iff_of_false (fun h => by cases h) ?_
    rintro ⟨hmem, hcohort, -⟩
    exact hbinds.elim (fun h => h hmem) fun h => h hcohort
  rw [if_neg hbinds]
  rw [not_or, not_not, not_not] at hbinds
  obtain ⟨hmem, hcohort⟩ := hbinds
  rw [and_iff_right hmem, and_iff_right hcohort]
  cases hlookup : registry.lookup data.target with
  | none => exact iff_of_false (fun h => by cases h) fun h => by cases h.1
  | some target =>
    dsimp only
    by_cases hnested : target.publicationSuccessor.isSome = true
    · rw [if_pos hnested]
      refine iff_of_false (fun h => by cases h) ?_
      rintro ⟨htarget, -, hflat, -⟩
      rw [Option.some.inj htarget, hflat] at hnested
      cases hnested
    rw [if_neg hnested]
    have hflat : target.publicationSuccessor = none := Option.not_isSome_iff_eq_none.mp hnested
    split_ifs with hunproven
    · refine iff_of_false (fun h => by cases h) ?_
      rintro ⟨htarget, -, -, hrecord⟩
      rw [← Option.some.inj htarget] at hrecord
      obtain ⟨hshipped, hnone⟩ := hunproven
      refine hnone ?_
      obtain ⟨r, hr, hid, hversion, hnames⟩ := hrecord hshipped
      exact List.any_eq_true.mpr ⟨r, hr, decide_eq_true ⟨hid, hversion, hnames⟩⟩
    · constructor
      · intro h
        obtain rfl : (data.target, target) = x := Except.ok.inj h
        refine ⟨rfl, rfl, hflat, fun hshipped => ?_⟩
        by_contra hnone
        refine hunproven ⟨hshipped, fun hany => hnone ?_⟩
        obtain ⟨r, hr, hrecord⟩ := List.any_eq_true.mp hany
        exact ⟨r, hr, of_decide_eq_true hrecord⟩
      · rintro ⟨htarget, hid, -, -⟩
        rw [Option.some.inj htarget, ← hid]

/-- The cohort that stands for a cohort of the registry is the one it was published as. -/
theorem provenCohort_eq_ok_iff {registry : Registry} {c target : Cohort} :
    (∃ id', provenCohort w registry id c = .ok (id', target)) ↔ PublishedAs w registry id c target := by
  rw [provenCohort]
  cases hedge : c.publicationSuccessor with
  | none =>
    constructor
    · rintro ⟨id', h⟩
      obtain ⟨-, rfl⟩ := Prod.mk.inj (Except.ok.inj h)
      exact .itself hedge
    · intro h
      cases h with
      | itself => exact ⟨id, rfl⟩
      | successor h =>
        rw [hedge] at h
        cases h
  | some edge =>
    dsimp only
    constructor
    · rintro ⟨id', h⟩
      obtain ⟨e, data, he, hdata, hmem, hcohort, hlookup, -, hflat, hrecord⟩ := successorCohort_eq_ok_iff.mp h
      exact .successor hedge ⟨⟨e, data, he, hdata, hmem, hcohort, hlookup, hrecord⟩, hflat⟩
    · intro h
      cases h with
      | itself h =>
        rw [hedge] at h
        cases h
      | successor h hproven =>
        obtain rfl := Option.some.inj (hedge.symm.trans h)
        obtain ⟨⟨e, data, he, hdata, hmem, hcohort, hlookup, hrecord⟩, hflat⟩ := hproven
        exact ⟨data.target, successorCohort_eq_ok_iff.mpr
          ⟨e, data, he, hdata, hmem, hcohort, hlookup, rfl, hflat, hrecord⟩⟩

theorem resolveCohort_eq_settled_iff :
    (∃ detail evidence, resolveCohort w t = .settled true detail evidence) ↔
      ∃ cohortId registry c target, closureCohort t = some cohortId ∧ w.registry = .ok registry ∧
        registry.lookup cohortId = some c ∧ PublishedAs w registry cohortId c target ∧ Shipped target := by
  rw [resolveCohort]
  cases hcohort : closureCohort t with
  | none =>
    refine iff_of_false (fun ⟨_, _, h⟩ => by cases h) ?_
    rintro ⟨_, _, _, _, h, -⟩
    cases h
  | some cohortId =>
    dsimp only
    cases hregistry : w.registry with
    | error e =>
      refine iff_of_false (fun ⟨_, _, h⟩ => by cases h) ?_
      rintro ⟨_, _, _, _, -, h, -⟩
      cases h
    | ok registry =>
      dsimp only
      cases hlookup : registry.lookup cohortId with
      | none =>
        refine iff_of_false (fun ⟨_, _, h⟩ => by cases h) ?_
        rintro ⟨_, _, c, _, h, h', hc, -⟩
        rw [← Option.some.inj h, ← Except.ok.inj h', hlookup] at hc
        cases hc
      | some c =>
        dsimp only
        have hinner : (∃ cohortId' registry' c' target, some cohortId = some cohortId' ∧
            (Except.ok registry : Except String Registry) = .ok registry' ∧ registry'.lookup cohortId' = some c' ∧
            PublishedAs w registry' cohortId' c' target ∧ Shipped target) ↔
            ∃ target, PublishedAs w registry cohortId c target ∧ Shipped target := by
          constructor
          · rintro ⟨_, _, _, target, h, h', hc, hpublished, hshipped⟩
            obtain rfl := Option.some.inj h
            obtain rfl := Except.ok.inj h'
            obtain rfl := Option.some.inj (hlookup.symm.trans hc)
            exact ⟨target, hpublished, hshipped⟩
          · rintro ⟨target, hpublished, hshipped⟩
            exact ⟨cohortId, registry, c, target, rfl, rfl, hlookup, hpublished, hshipped⟩
        rw [hinner]
        simp only [← provenCohort_eq_ok_iff]
        cases provenCohort w registry cohortId c with
        | error e =>
          refine iff_of_false (fun ⟨_, _, h⟩ => by cases h) ?_
          rintro ⟨_, ⟨_, h⟩, -⟩
          cases h
        | ok stand =>
          obtain ⟨id', target⟩ := stand
          have hstand : (∃ x, (∃ id'', (Except.ok (id', target) : Except String _) = .ok (id'', x)) ∧ Shipped x) ↔
              Shipped target := by
            constructor
            · rintro ⟨x, ⟨_, h⟩, hshipped⟩
              obtain ⟨-, rfl⟩ := Prod.mk.inj (Except.ok.inj h)
              exact hshipped
            · exact fun h => ⟨target, ⟨id', rfl⟩, h⟩
          rw [hstand]
          dsimp only
          split_ifs with hpending hidentity
          · exact iff_of_false (fun ⟨_, _, h⟩ => by cases h) fun h => hpending h.shipped
          · exact iff_of_false (fun ⟨_, _, h⟩ => by cases h) fun h => hidentity.elim h.operation h.version
          · rw [not_or] at hidentity
            exact iff_of_true ⟨_, _, rfl⟩ ⟨not_not.mp hpending, hidentity.1, hidentity.2⟩

theorem resolveCohort_ne_follow {g r : String → String} : resolveCohort w t ≠ .follow next g r := by
  unfold resolveCohort
  split
  · exact fun h => by cases h
  · split
    · exact fun h => by cases h
    · split
      · exact fun h => by cases h
      · split
        · exact fun h => by cases h
        · split_ifs <;> exact fun h => by cases h

theorem resolveOwnPatch_ne_follow {g r : String → String} : resolveOwnPatch w t ≠ .follow next g r := by
  unfold resolveOwnPatch
  split <;> exact fun h => by cases h

theorem resolveRelease_ne_follow {wanted : String} {g r : String → String} :
    resolveRelease w source wanted ≠ .follow next g r := by
  unfold resolveRelease
  split <;> exact fun h => by cases h

/-! ### Tickets -/

theorem id_of_read (h : (parseBoard w.board).ticket id = some t) : t.id = id := by
  simpa using List.find?_some h

theorem resolveWork_of_done (h : DoneTicket w id t) : resolveWork w id = resolveDone w id t := by
  rw [resolveWork, h.read]
  exact if_neg (not_not.mpr h.done)

theorem found_of_done (h : DoneTicket w id t) : (found w id).2 = resolveDone w id t := by
  rw [found_of_ticket h.named, resolveWork_of_done h]

/-- A ticket that is followed or accepted is a DONE ticket of the BOARD. -/
theorem doneTicket_of_resolveWork (hid : isTicketId id = true) (h : ∀ detail, resolveWork w id ≠ refuse detail) :
    ∃ t, DoneTicket w id t := by
  unfold resolveWork at h
  split at h
  · exact absurd rfl (h _)
  · next t hread =>
    split_ifs at h with hdone
    · exact absurd rfl (h _)
    · exact ⟨t, hid, hread, not_not.mp hdone⟩

/-- A ticket was closed in one of six ways. -/
theorem closureMode_cases (t : Ticket) : closureMode t = "external_implementation" ∨
    closureMode t = "superseded_verified" ∨ closureMode t = "inherited_verified" ∨ closureMode t = "cohort" ∨
    closureMode t ∈ ["own_patch", "finding_invalidated"] := by
  unfold closureMode
  dsimp only
  split_ifs with hknown
  · generalize lower (t.field "closure_mode") = mode at hknown ⊢
    simp only [List.mem_cons, List.not_mem_nil, or_false] at hknown ⊢
    tauto
  · simp

theorem resolveDone_eq_follow_iff :
    (∃ g r, resolveDone w id t = .follow next g r) ↔
      closureMode t = "superseded_verified" ∧ supersededBy t = some next ∨
        closureMode t = "inherited_verified" ∧ implementationSource t = some next := by
  rw [resolveDone]
  split_ifs with hexternal hcurrent hsuperseded hinherited hcohort
  · simp [hexternal]
  · simp [hexternal, refuse]
  · rw [hsuperseded]
    cases supersededBy t <;> simp [refuse]
  · rw [hinherited]
    cases implementationSource t <;> simp [refuse]
  · simp [hcohort, resolveCohort_ne_follow]
  · simp [hsuperseded, hinherited, resolveOwnPatch_ne_follow]

/-- What a DONE ticket is accepted for. -/
theorem resolveDone_eq_settled_iff :
    (∃ detail evidence, resolveDone w id t = .settled true detail evidence) ↔
      closureMode t = "external_implementation" ∧ w.resolutionProblems t = [] ∨
      closureMode t = "cohort" ∧ (∃ detail evidence, resolveCohort w t = .settled true detail evidence) ∨
      closureMode t ∈ ["own_patch", "finding_invalidated"] ∧
        ∃ detail evidence, resolveOwnPatch w t = .settled true detail evidence := by
  rw [resolveDone]
  rcases closureMode_cases t with hmode | hmode | hmode | hmode | hmode
  · rw [if_pos hmode]
    split_ifs with hcurrent <;> simp [hmode, hcurrent, refuse]
  · rw [if_neg (by simp [hmode]), if_pos hmode]
    cases supersededBy t <;> simp [hmode, refuse]
  · rw [if_neg (by simp [hmode]), if_neg (by simp [hmode]), if_pos hmode]
    cases implementationSource t <;> simp [hmode, refuse]
  · simp [hmode]
  · rw [List.mem_cons, List.mem_singleton] at hmode
    rcases hmode with hmode | hmode <;> simp [hmode]

/-! ### Source receipts -/

theorem resolveReceipt_eq_follow_iff :
    (∃ g r, resolveReceipt w id = .follow next g r) ↔
      (w.receiptStatus id).ok = true ∧ (w.receiptStatus id).status = some "CLOSED" ∧
        (w.receiptStatus id).linkedWork = some next ∧ next ≠ "" := by
  have htext : text (w.receiptStatus id).status = "CLOSED" ↔ (w.receiptStatus id).status = some "CLOSED" := by
    cases (w.receiptStatus id).status <;> simp [text]
  rw [resolveReceipt]
  by_cases hok : (w.receiptStatus id).ok = false
  · rw [if_pos hok]
    simp [refuse, hok]
  rw [if_neg hok]
  by_cases hclosed : text (w.receiptStatus id).status ≠ "CLOSED"
  · rw [if_pos hclosed]
    simp [refuse, ← htext, hclosed]
  rw [if_neg hclosed]
  split
  · next hnone => simp [refuse, hnone]
  · next hempty =>
    refine iff_of_false (fun ⟨_, _, h⟩ => by cases h) ?_
    rintro ⟨-, -, hwork, hne⟩
    exact hne (Option.some.inj (hwork.symm.trans hempty))
  · next work hne hwork =>
    rw [hwork]
    constructor
    · rintro ⟨g, r, h⟩
      cases h
      exact ⟨Bool.not_eq_false _ ▸ hok, htext.mp (not_not.mp hclosed), rfl, hne⟩
    · rintro ⟨-, -, h, -⟩
      cases h
      exact ⟨_, _, rfl⟩

theorem resolveReceipt_ne_settled {detail : String} {evidence : Option Evidence} :
    resolveReceipt w id ≠ .settled true detail evidence := by
  rw [resolveReceipt]
  split
  · exact fun h => by cases h
  · split
    · exact fun h => by cases h
    · split <;> exact fun h => by cases h

/-! ### What the resolver follows and accepts -/

theorem nextSource_eq_some_iff : nextSource w source = some next ↔
    ∃ raw g r, (found w source).2 = .follow raw g r ∧ strip raw = next := by
  rw [nextSource]
  cases (found w source).2 with
  | settled => simp
  | follow raw g r => simp

/-- The links of a source are those the resolver follows. -/
theorem link_iff : Link w source next ↔ nextSource w source = some next := by
  rw [nextSource_eq_some_iff]
  constructor
  · intro h
    cases h with
    | successor h hmode hnext =>
      obtain ⟨g, r, hfollow⟩ := resolveDone_eq_follow_iff.mpr (.inl ⟨hmode, hnext⟩)
      exact ⟨_, g, r, by rw [found_of_done h, hfollow], rfl⟩
    | inherited h hmode hnext =>
      obtain ⟨g, r, hfollow⟩ := resolveDone_eq_follow_iff.mpr (.inr ⟨hmode, hnext⟩)
      exact ⟨_, g, r, by rw [found_of_done h, hfollow], rfl⟩
    | receipt hid hok hclosed hwork hne =>
      obtain ⟨g, r, hfollow⟩ := resolveReceipt_eq_follow_iff.mpr ⟨hok, hclosed, hwork, hne⟩
      exact ⟨_, g, r, by rw [found_of_receipt hid, hfollow], rfl⟩
  · rintro ⟨raw, g, r, hfollow, rfl⟩
    unfold found at hfollow
    split at hfollow
    · exact absurd hfollow resolveRelease_ne_follow
    · split_ifs at hfollow with hticket hreceipt
      · obtain ⟨t, h⟩ := doneTicket_of_resolveWork (w := w) hticket fun detail hrefuse => by
          rw [show resolveWork w source = .follow raw g r from hfollow] at hrefuse
          cases hrefuse
        have hdone : resolveDone w source t = .follow raw g r := resolveWork_of_done h ▸ hfollow
        rcases resolveDone_eq_follow_iff.mp ⟨g, r, hdone⟩ with ⟨hmode, hnext⟩ | ⟨hmode, hnext⟩
        · exact .successor h hmode hnext
        · exact .inherited h hmode hnext
      · obtain ⟨hok, hclosed, hwork, hne⟩ := resolveReceipt_eq_follow_iff.mp ⟨g, r, hfollow⟩
        exact .receipt hreceipt hok hclosed hwork hne
      · cases hfollow

theorem isEnd_iff : isEnd w source = true ↔ ∃ detail evidence, (found w source).2 = .settled true detail evidence := by
  rw [isEnd]
  cases (found w source).2 with
  | settled ok detail evidence => cases ok <;> simp
  | follow => simp

/-- The ends are the sources that the resolver accepts as they are. -/
theorem terminal_iff : Terminal w source ↔ isEnd w source = true := by
  rw [isEnd_iff]
  constructor
  · intro h
    cases h with
    | release hid hr hnamed =>
      rw [found_of_release hid]
      exact resolveRelease_eq_settled_iff.mpr ⟨_, hr, hnamed⟩
    | ownPatch h hmode hr hnamed =>
      rw [found_of_done h]
      refine resolveDone_eq_settled_iff.mpr (.inr (.inr ⟨hmode, ?_⟩))
      exact resolveOwnPatch_eq_settled_iff.mpr ⟨_, hr, hnamed.trans (id_of_read h.read).symm⟩
    | cohort h hmode hcohort hregistry hc hpublished hshipped =>
      rw [found_of_done h]
      refine resolveDone_eq_settled_iff.mpr (.inr (.inl ⟨hmode, ?_⟩))
      exact resolveCohort_eq_settled_iff.mpr ⟨_, _, _, _, hcohort, hregistry, hc, hpublished, hshipped⟩
    | external h hmode hcurrent =>
      rw [found_of_done h]
      exact resolveDone_eq_settled_iff.mpr (.inl ⟨hmode, hcurrent⟩)
  · rintro ⟨detail, evidence, hsettled⟩
    unfold found at hsettled
    split at hsettled
    · next wanted hid =>
      obtain ⟨r, hr, hnamed⟩ := resolveRelease_eq_settled_iff.mp ⟨detail, evidence, hsettled⟩
      exact .release hid hr hnamed
    · split_ifs at hsettled with hticket hreceipt
      · obtain ⟨t, h⟩ := doneTicket_of_resolveWork (w := w) hticket fun detail' hrefuse => by
          rw [show resolveWork w source = .settled true detail evidence from hsettled] at hrefuse
          cases hrefuse
        have hdone : resolveDone w source t = .settled true detail evidence := resolveWork_of_done h ▸ hsettled
        rcases resolveDone_eq_settled_iff.mp ⟨detail, evidence, hdone⟩ with
          ⟨hmode, hcurrent⟩ | ⟨hmode, hcohort⟩ | ⟨hmode, hown⟩
        · exact .external h hmode hcurrent
        · obtain ⟨_, _, _, _, hcohort, hregistry, hc, hpublished, hshipped⟩ := resolveCohort_eq_settled_iff.mp hcohort
          exact .cohort h hmode hcohort hregistry hc hpublished hshipped
        · obtain ⟨r, hr, hnamed⟩ := resolveOwnPatch_eq_settled_iff.mp hown
          exact .ownPatch h hmode hr (hnamed.trans (id_of_read h.read))
      · exact absurd hsettled resolveReceipt_ne_settled
      · cases hsettled

/-- An end has no link. -/
theorem nextSource_of_isEnd (h : isEnd w source = true) : nextSource w source = none := by
  obtain ⟨detail, evidence, hfound⟩ := isEnd_iff.mp h
  rw [nextSource, hfound]

/-- The resolver accepts the sources with proven provenance. -/
theorem resolve_ok_iff : (resolveImplementationSource w source).ok = true ↔ Proven w source := by
  rw [resolveImplementationSource, resolveFrom_ok, Graph.arrives_iff]
  have hlink : Graph.Next (nextSource w) = Link w := by
    funext a b
    exact propext link_iff.symm
  rw [hlink]
  refine exists_congr fun path => and_congr_right fun _ => and_congr_right fun _ => and_congr_right fun _ => ?_
  constructor
  · rintro ⟨-, hlength, last, hlast, -, hgoal⟩
    exact ⟨hlength, last, hlast, terminal_iff.mpr hgoal⟩
  · rintro ⟨hlength, last, hlast, hterminal⟩
    have hgoal := terminal_iff.mp hterminal
    exact ⟨fun _ _ => List.not_mem_nil, hlength, last, hlast, nextSource_of_isEnd hgoal, hgoal⟩

/-! ### More release records -/

/-- Another state of the project, which differs in its release records alone and has those of the first. -/
structure MoreReleases (w w' : World) : Prop where
  board : w'.board = w.board
  registry : w'.registry = w.registry
  reconciliation : w'.reconciliation = w.reconciliation
  resolutionProblems : w'.resolutionProblems = w.resolutionProblems
  receiptStatus : w'.receiptStatus = w.receiptStatus
  records : publishedReleases w ⊆ publishedReleases w'

variable {w' : World}

theorem DoneTicket.mono (hmore : MoreReleases w w') (h : DoneTicket w id t) : DoneTicket w' id t :=
  ⟨h.named, by rw [hmore.board, h.read], h.done⟩

theorem Link.mono (hmore : MoreReleases w w') (h : Link w source next) : Link w' source next := by
  cases h with
  | successor h hmode hnext => exact .successor (h.mono hmore) hmode hnext
  | inherited h hmode hnext => exact .inherited (h.mono hmore) hmode hnext
  | receipt hid hok hclosed hwork hne =>
    rw [← hmore.receiptStatus] at hok hclosed hwork
    exact .receipt hid hok hclosed hwork hne

theorem ProvenSuccessor.mono (hmore : MoreReleases w w') {registry : Registry}
    {edge : Except String SuccessorEdge} {target : Cohort} (h : ProvenSuccessor w registry id edge target) :
    ProvenSuccessor w' registry id edge target := by
  obtain ⟨e, data, he, hdata, hmem, hcohort, hlookup, hrecord⟩ := h.bound
  rw [← hmore.reconciliation] at hdata
  refine ⟨⟨e, data, he, hdata, hmem, hcohort, hlookup, fun hshipped => ?_⟩, h.flat⟩
  obtain ⟨r, hr, hnames⟩ := hrecord hshipped
  exact ⟨r, hmore.records hr, hnames⟩

theorem PublishedAs.mono (hmore : MoreReleases w w') {registry : Registry} {c target : Cohort}
    (h : PublishedAs w registry id c target) : PublishedAs w' registry id c target := by
  cases h with
  | itself h => exact .itself h
  | successor h hproven => exact .successor h (hproven.mono hmore)

theorem Terminal.mono (hmore : MoreReleases w w') (h : Terminal w source) : Terminal w' source := by
  cases h with
  | release hid hr hnamed => exact .release hid (hmore.records hr) hnamed
  | ownPatch h hmode hr hnamed => exact .ownPatch (h.mono hmore) hmode (hmore.records hr) hnamed
  | cohort h hmode hcohort hregistry hc hpublished hshipped =>
    rw [← hmore.registry] at hregistry
    exact .cohort (h.mono hmore) hmode hcohort hregistry hc (hpublished.mono hmore) hshipped
  | external h hmode hcurrent =>
    rw [← hmore.resolutionProblems] at hcurrent
    exact .external (h.mono hmore) hmode hcurrent

/-- Proven provenance outlives every further release record. -/
theorem Proven.mono (hmore : MoreReleases w w') (h : Proven w source) : Proven w' source := by
  obtain ⟨path, hhead, hchain, hnodup, hlength, last, hlast, hterminal⟩ := h
  exact ⟨path, hhead, hchain.imp fun _ _ => Link.mono hmore, hnodup, hlength, last, hlast,
    hterminal.mono hmore⟩

theorem mem_adopt {records : List Release} {r x : Release} : x ∈ adopt records r ↔ x ∈ records ∨ x = r := by
  rw [adopt]
  split_ifs with hmem
  · exact ⟨.inl, fun h => h.elim id fun h => h ▸ hmem⟩
  · rw [List.mem_append, List.mem_singleton]

theorem mem_foldl_adopt {records more : List Release} {x : Release} :
    x ∈ more.foldl adopt records ↔ x ∈ records ∨ x ∈ more := by
  induction more generalizing records with
  | nil => simp
  | cons r more ih => rw [List.foldl_cons, ih, mem_adopt, List.mem_cons, or_assoc]

/-- The published releases are the terminal records of the journal, of `release_receipt.json` and of
`release_receipts/`. -/
theorem mem_publishedReleases {r : Release} : r ∈ publishedReleases w ↔
    (r ∈ w.committed.getD [] ∨ w.receipt = some r ∨ r ∈ w.receipts) ∧ isPublished r = true := by
  rw [publishedReleases, List.mem_filter, mem_foldl_adopt, mem_foldl_adopt, or_assoc, Option.mem_toList]

/-- Records that are added to `release_receipts/` are more records. -/
theorem moreReleases_of_receipts {receipts : List Release} (h : w.receipts ⊆ receipts) :
    MoreReleases w { w with receipts } := by
  refine ⟨rfl, rfl, rfl, rfl, rfl, fun r hr => ?_⟩
  obtain ⟨hfrom, hpublished⟩ := mem_publishedReleases.mp hr
  exact mem_publishedReleases.mpr ⟨hfrom.imp_right fun h' => h'.imp_right fun hr => h hr, hpublished⟩

/-- **Provenance.** The resolver answers ok exactly for the sources whose links lead to an end, and further
release records take no answer back. -/
theorem resolve_provenance (w : World) (source : String) :
    ((resolveImplementationSource w source).ok = true ↔ Proven w source) ∧
      ∀ w', MoreReleases w w' → (resolveImplementationSource w source).ok = true →
        (resolveImplementationSource w' source).ok = true := by
  refine ⟨resolve_ok_iff, fun w' hmore h => ?_⟩
  exact resolve_ok_iff.mpr ((resolve_ok_iff.mp h).mono hmore)

/-! ### Records and cohorts that are not taken at their word -/

/-- A cohort and the one that its `publication_successor` names. -/
def Succeeds (registry : Registry) (a b : String) : Prop :=
  ∃ c e, registry.lookup a = some c ∧ c.publicationSuccessor = some (.ok e) ∧ e.cohort = some b

/-- A source with a release record that it names or that names it, a ticket of a cohort whose successors come
to a shipped one, or a ticket with a current external resolution. -/
inductive Evident (w : World) : String → Prop
  | release {source wanted : String} {r : Release} (hid : releaseId? source = some wanted)
      (hr : r ∈ publishedReleases w) (hnamed : releaseMatches r wanted = true) : Evident w source
  | ticket {id : String} {t : Ticket} {r : Release} (h : DoneTicket w id t) (hr : r ∈ publishedReleases w)
      (hnamed : text r.ticketId = id) : Evident w id
  | cohort {id cohortId last : String} {t : Ticket} {registry : Registry} {c : Cohort} (h : DoneTicket w id t)
      (hmode : closureMode t = "cohort") (hcohort : closureCohort t = some cohortId)
      (hregistry : w.registry = .ok registry)
      (hsuccessors : Relation.ReflTransGen (Succeeds registry) cohortId last)
      (hc : registry.lookup last = some c) (hshipped : Shipped c) : Evident w id
  | external {id : String} {t : Ticket} (h : DoneTicket w id t)
      (hmode : closureMode t = "external_implementation") (hcurrent : w.resolutionProblems t = []) : Evident w id

/-- The links lead from a source to evidence of either kind. -/
def Evidenced (w : World) (source : String) : Prop :=
  ∃ path : List String, path.head? = some (strip source) ∧ path.IsChain (Link w) ∧ path.Nodup ∧
    path.length ≤ maxDepth ∧ ∃ last, path.getLast? = some last ∧ Evident w last

/-- A ticket that inherits from an unknown release, although a release record names it. -/
def inheriting : Ticket where
  id := "T-1"
  sectionName := "## DONE"
  checkbox := 'x'
  needs := []
  fields := [("closure_mode", "inherited_verified"), ("implementation_source", "release:v9")]
  raw := "- [x] T-1 port it | closure_mode: inherited_verified | implementation_source: release:v9"
  description := "port it"

/-- A ticket of a cohort with a shipped successor. -/
def ofCohort : Ticket where
  id := "T-2"
  sectionName := "## DONE"
  checkbox := 'x'
  needs := []
  fields := [("closure_mode", "cohort"), ("closure_cohort", "C-1")]
  raw := "- [x] T-2 ship it | closure_mode: cohort | closure_cohort: C-1"
  description := "ship it"

/-- A ticket with a patch of its own, which a release record names. -/
def ofPatch : Ticket where
  id := "T-3"
  sectionName := "## DONE"
  checkbox := 'x'
  needs := []
  fields := []
  raw := "- [x] T-3 test it"
  description := "test it"

/-- The record of the release that names a ticket. -/
def recordOf (id : String) : Release := { commit := some "abc", version := some "1", ticketId := some id }

/-- A project with the three tickets. -/
def sampleWorld : World where
  printable := samplePrintable
  board := "## DONE\n" ++ inheriting.raw ++ "\n" ++ ofCohort.raw ++ "\n" ++ ofPatch.raw
  registry := .ok [("C-1", { publicationSuccessor := some (.ok ⟨some "C-2", "op"⟩) }),
    ("C-2", { publicationStatus := some "shipped", releaseOpId := some "op-1", version := some "1" })]
  committed := some []
  receipt := none
  receipts := [recordOf "T-1", recordOf "T-3"]
  reconciliation := fun _ _ => .ok ⟨["C-1"], "C-2"⟩
  resolutionProblems := fun _ => []
  receiptStatus := fun _ => { ok := false }

theorem sampleWorld_tickets : (parseBoard sampleWorld.board).tickets = [inheriting, ofCohort, ofPatch] := by
  decide +kernel

theorem inheriting_done : DoneTicket sampleWorld "T-1" inheriting :=
  ⟨by decide, by rw [Parsed.ticket, sampleWorld_tickets]; rfl, rfl⟩

theorem ofCohort_done : DoneTicket sampleWorld "T-2" ofCohort :=
  ⟨by decide, by rw [Parsed.ticket, sampleWorld_tickets]; rfl, rfl⟩

theorem ofPatch_done : DoneTicket sampleWorld "T-3" ofPatch :=
  ⟨by decide, by rw [Parsed.ticket, sampleWorld_tickets]; rfl, rfl⟩

theorem evident_of_sample (hid : strip id = id) (h : Evident sampleWorld id) : Evidenced sampleWorld id :=
  ⟨[id], congrArg some hid.symm, .singleton _, List.nodup_singleton _, Nat.le_add_left 1 31, _, rfl, h⟩

/-- The ticket that inherits is refused although a release record names it, and the ticket of the cohort is
refused although the successor of its cohort is shipped. -/
theorem evidence_refused :
    (Evidenced sampleWorld "T-1" ∧ (resolveImplementationSource sampleWorld "T-1").ok = false) ∧
      Evidenced sampleWorld "T-2" ∧ (resolveImplementationSource sampleWorld "T-2").ok = false := by
  refine ⟨⟨evident_of_sample (by decide) ?_, ?_⟩, evident_of_sample (by decide) ?_, ?_⟩
  · have hrecord : recordOf "T-1" ∈ publishedReleases sampleWorld := by decide
    exact .ticket inheriting_done hrecord rfl
  · have hsource : implementationSource inheriting = some "release:v9" := by decide
    have hlink : nextSource sampleWorld "T-1" = some "release:v9" :=
      link_iff.mp (.inherited inheriting_done (by decide) hsource)
    rw [resolveImplementationSource, resolveFrom_ok, show strip "T-1" = "T-1" by decide, maxDepth, Graph.arrives,
      if_neg List.not_mem_nil, hlink]
    decide +kernel
  · have hcohort : closureCohort ofCohort = some "C-1" := by decide
    refine .cohort ofCohort_done (by decide) hcohort rfl (.single ⟨_, _, rfl, rfl, rfl⟩) rfl ⟨rfl, ?_, ?_⟩ <;> decide
  · have hfound : (found sampleWorld "T-2").2 = resolveDone sampleWorld "T-2" ofCohort := found_of_done ofCohort_done
    rw [resolveImplementationSource, resolveFrom_ok, show strip "T-2" = "T-2" by decide, maxDepth, Graph.arrives,
      if_neg List.not_mem_nil, nextSource, isEnd, hfound]
    decide +kernel

/-- A third record leaves the ticket with a patch of its own published. -/
theorem resolve_provenance_sample :
    (resolveImplementationSource { sampleWorld with receipts := recordOf "T-9" :: sampleWorld.receipts } "T-3").ok =
      true := by
  have hrecord : recordOf "T-3" ∈ publishedReleases sampleWorld := by decide
  have hproven : Proven sampleWorld "T-3" :=
    ⟨["T-3"], by decide, .singleton _, List.nodup_singleton _, by decide, _, rfl,
      .ownPatch ofPatch_done (by decide) hrecord rfl⟩
  refine (resolve_provenance sampleWorld "T-3").2 _ (moreReleases_of_receipts ?_) (resolve_ok_iff.mpr hproven)
  exact List.subset_cons_self _ _

end Saipen.Closure
