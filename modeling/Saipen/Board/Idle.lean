import Mathlib.Data.List.Dedup
import Mathlib.Data.List.Sort
import Saipen.Board.Blockers
import Saipen.Text.Stamp

/-! # Idle classification

`classify_idle_work` says why no ticket can be worked on: it counts the root blockers by their classes into
what an operator has to decide, what is blocked outside and what has been put off. The class counted is the
one the group was recorded with, that of its first root. -/

namespace Saipen.Board

open Text Grouping

/-! ### Due instants -/

/-- `deferred_operator_class`. -/
def deferredOperatorClass (blocker : String) : Option String :=
  let head := upper (strip (String.ofList (before " -- ".toList (strip blocker).toList)))
  if head = "WAIT_USER_CONFIRMATION" ∨ head = "WAIT_USER_DECISION" ∨ head = "BLOCKED_EXTERNAL" then some head
  else none

/-- `retry_not_before`. -/
def Ticket.retryNotBefore (t : Ticket) : Option String :=
  let value := t.field "retry_not_before"
  if value = "" ∨ isoUtcSortKey value = none then none else some value

/-- `deferred_state`: whether a due instant has been reached. -/
def deferredState (now : Int) (t : Ticket) : Option Bool :=
  if t.sectionName ≠ "## BLOCKED" then none
  else
    match t.retryNotBefore with
    | none => none
    | some due =>
        if deferredOperatorClass t.blocker = none then none
        else (isoUtcSortKey due).map fun stamp => stamp ≤ now

/-- What `operator_gates` lists of a ticket. -/
structure OperatorGate where
  ticket : String
  retryNotBefore : Option String
  due : Bool

variable (word : Char → Bool) (ts : Tickets) (now : Int)

/-- `operator_gates`. -/
def operatorGates : List OperatorGate :=
  ts.entries.filterMap fun t => (deferredState now t).map fun due => ⟨t.id, t.retryNotBefore, due⟩

/-- The tickets of the gates that are due, or of all of them if none is. -/
def gateTickets : List String :=
  let gates := operatorGates ts now
  if gates.any (·.due) then (gates.filter (·.due)).map (·.ticket) else gates.map (·.ticket)

/-! ### The classification -/

/-- Why a root is idle. -/
inductive IdleKind where
  | operatorRequired
  | externallyBlocked
  | futureGated
deriving DecidableEq

/-- What a blocker class is counted as. -/
def idleKind (klass : String) : Option IdleKind :=
  if klass ∈ ["WAIT_USER_DECISION", "WAIT_USER_CONFIRMATION", "DEFERRED_BY_OPERATOR", "WAIT_ROLE"] then
    some .operatorRequired
  else if klass = "BLOCKED_EXTERNAL" then some .externallyBlocked
  else if klass ∈ ["FUTURE_GATE", "HELD", "FUTURE/STRATEGIC"] then some .futureGated
  else none

/-- The roots counted as a kind, group after group. -/
def countedAs (kind : IdleKind) : List String :=
  (projectBlockers word ts).flatMap fun g =>
    if idleKind g.blockerClass = some kind then g.rootTickets else []

/-- `sorted(set(filter(None, ids)))`. -/
def sortedSet (ids : List String) : List String := (ids.filter (· ≠ "")).dedup.insertionSort (· ≤ ·)

/-- What the audit inbox reports. -/
structure InboxSummary where
  unresolvedAuditCount : Option Int
  pending : Nat
  residue : Bool
  invalid : Bool

/-- What the gate of future work reports. -/
structure FutureGate where
  eligible : List String
  refinable : List String
  refreshRequired : Bool

/-- The disposition of an idle project. -/
inductive Disposition where
  | allWorkComplete
  | idleBlockedExternal
  | idleOperatorRequired
  | idleFutureGated
  | noAdmissibleWork
deriving DecidableEq

/-- What `classify_idle_work` returns, the projection aside. -/
structure IdleWork where
  disposition : Disposition
  unresolvedAuditCount : Int
  nextExactAction : String
  externallyBlocked : List String
  operatorRequired : List String
  futureGated : List String
deriving DecidableEq

variable (inbox : Option InboxSummary) (gate : Option FutureGate)

/-- `unresolved_audit_count`. -/
def auditCount : Int :=
  match inbox with
  | none => 0
  | some i => i.unresolvedAuditCount.getD i.pending

/-- Nothing is left on the BOARD or in the inbox. -/
def allComplete : Bool :=
  ts.entries.all (fun t => !t.waits && t.sectionName != "## DOING") && auditCount inbox == 0 &&
    !inbox.any (fun i => i.residue || i.invalid)

/-- The future work there is. -/
def futureTickets : List String :=
  match gate with
  | none => []
  | some g => if g.eligible = [] then g.refinable else g.eligible

/-- The group of the publications that wait for the shared index. -/
def stagingGroup : Option BlockerGroup := (projectBlockers word ts).find? (·.cause == "publication-staging")

/-- The action for a ticket an operator has to decide on. -/
def operatorAction (target : String) : String :=
  let t := ts.get target
  let holder := (t.map (·.field "blocked_on")).getD ""
  let blocker := (t.map Ticket.blocker).getD ""
  if holder ≠ "" ∧ startsWith blocker ("ACTIVE_DEPENDENCY:" ++ holder) ∧ holder ∈ (t.map Ticket.needs).getD []
  then "saipen ticket unblock " ++ target
  else "saipen status"

/-- The action for work that has been put off. -/
def futureAction : String :=
  match gate with
  | none => "saipen future status"
  | some g =>
      match g.eligible with
      | id :: _ => "saipen future promote " ++ id
      | [] => if g.refreshRequired then "saipen future refresh" else "saipen future status"

/-- `classify_idle_work`. -/
def classifyIdleWork : IdleWork :=
  if allComplete ts inbox then ⟨.allWorkComplete, 0, "saipen status", [], [], []⟩
  else
    let operatorRequired := sortedSet (gateTickets ts now ++ countedAs word ts .operatorRequired)
    let externallyBlocked := sortedSet (countedAs word ts .externallyBlocked)
    let futureGated := sortedSet (countedAs word ts .futureGated ++ futureTickets gate)
    let staging := stagingGroup word ts
    let idle := fun disposition nextExactAction =>
      ⟨disposition, auditCount inbox, nextExactAction, externallyBlocked, operatorRequired, futureGated⟩
    match externallyBlocked, operatorRequired, futureGated, staging with
    | id :: _, _, _, none => idle .idleBlockedExternal ("saipen ticket resolve-external " ++ id)
    | _, id :: _, _, staging =>
        let target := (staging.bind fun g => g.rootTickets.head?).getD id
        idle .idleOperatorRequired (operatorAction ts target)
    | _, [], _ :: _, _ => idle .idleFutureGated (futureAction gate)
    | _, [], [], _ => idle .noAdmissibleWork "saipen status"

/-! ### What is counted -/

/-- Every root blocker is counted under its own class. -/
def CountsOwnClass : Prop :=
  ∀ m ∈ projectedRoots word ts, ∀ kind, m.2.id ∈ countedAs word ts kind ↔ idleKind m.2.klass = some kind

/-- Tickets that hold something up under one obstruction are counted as the same kind. -/
def ClassesAgree : Prop :=
  ∀ u v, Holds ts u → Holds ts v → (u.root word).sharedBlocker word = (v.root word).sharedBlocker word →
    idleKind (blockerClass word u.blocker) = idleKind (blockerClass word v.blocker)

variable {word ts now inbox gate} {ts' : Tickets} {id : String} {kind : IdleKind} {r : Root}

theorem mem_countedAs : id ∈ countedAs word ts kind ↔
    ∃ b ∈ rootGroups word ts, idleKind b.lead.2.klass = some kind ∧ ∃ m ∈ b.members, m.2.id = id := by
  unfold countedAs projectBlockers
  rw [List.flatMap_map, List.mem_flatMap]
  refine exists_congr fun b => and_congr_right fun _ => ?_
  split_ifs with hkind
  · have hlead : idleKind b.lead.2.klass = some kind := hkind
    rw [and_iff_right hlead]
    simp [blockerGroup, List.mem_eraseDups]
  · exact ⟨fun h => absurd h List.not_mem_nil, fun h => absurd h.1 hkind⟩

variable (word ts) in
/-- The groups of the roots. -/
theorem bunches_rootGroups :
    Bunches (fun m : String × Root => m.2.sharedBlocker word) (projectedRoots word ts) (rootGroups word ts) :=
  bunches_of _

/-- The classes of the roots of one obstruction agree. -/
theorem classesAgree_iff : ClassesAgree word ts ↔
    ∀ m ∈ projectedRoots word ts, ∀ n ∈ projectedRoots word ts,
      m.2.sharedBlocker word = n.2.sharedBlocker word → idleKind m.2.klass = idleKind n.2.klass := by
  constructor
  · intro h m hm n hn hkey
    rcases root_of_projected hm with ⟨u, hu, hmu⟩ | ⟨d, hd, -⟩
    · rcases root_of_projected hn with ⟨v, hv, hnv⟩ | ⟨e, he, -⟩
      · rw [hmu, hnv] at hkey ⊢
        rw [Ticket.root_klass, Ticket.root_klass]
        exact h u v hu hv hkey
      · -- a root that is missing shares its obstruction with no other
        have hwork : n.2.sharedBlocker word = .work e := by rw [he, sharedBlocker_unresolved]
        have hid : m.2.id = n.2.id := (id_of_work (hkey.trans hwork)).trans (id_of_work hwork).symm
        rw [root_ext hm hn hid]
    · have hwork : m.2.sharedBlocker word = .work d := by rw [hd, sharedBlocker_unresolved]
      have hid : m.2.id = n.2.id := (id_of_work hwork).trans (id_of_work (hkey.symm.trans hwork)).symm
      rw [root_ext hm hn hid]
  · intro h u v hu hv hkey
    obtain ⟨m, hm, hmu⟩ := hu.projected word
    obtain ⟨n, hn, hnv⟩ := hv.projected word
    have := h m hm n hn (by rw [hmu, hnv]; exact hkey)
    rwa [hmu, hnv, Ticket.root_klass, Ticket.root_klass] at this

theorem mem_countedAs_of_agree (h : ClassesAgree word ts) :
    id ∈ countedAs word ts kind ↔ ∃ m ∈ projectedRoots word ts, m.2.id = id ∧ idleKind m.2.klass = some kind := by
  have hagree := classesAgree_iff.mp h
  have hgroups := bunches_rootGroups word ts
  rw [mem_countedAs]
  constructor
  · rintro ⟨b, hb, hkind, m, hm, rfl⟩
    obtain ⟨hmem, hkey⟩ := hgroups.same b hb m hm
    obtain ⟨hlead, -⟩ := hgroups.same b hb b.lead (hgroups.lead b hb)
    exact ⟨m, hmem, rfl, (hagree m hmem b.lead hlead hkey).trans hkind⟩
  · rintro ⟨m, hmem, rfl, hkind⟩
    obtain ⟨b, hb, hm⟩ := hgroups.every m hmem
    obtain ⟨-, hkey⟩ := hgroups.same b hb m hm
    obtain ⟨hlead, -⟩ := hgroups.same b hb b.lead (hgroups.lead b hb)
    exact ⟨b, hb, (hagree b.lead hlead m hmem hkey.symm).trans hkind, m, hm, rfl⟩

/-- The roots are counted under their own classes exactly when the classes of one obstruction agree. -/
theorem countsOwnClass_iff : CountsOwnClass word ts ↔ ClassesAgree word ts := by
  constructor
  · intro h
    have hgroups := bunches_rootGroups word ts
    have hlead : ∀ m ∈ projectedRoots word ts, ∀ b ∈ rootGroups word ts, m ∈ b.members →
        idleKind b.lead.2.klass = idleKind m.2.klass := by
      intro m hm b hb hmem
      have hown : ∀ kind, idleKind b.lead.2.klass = some kind → idleKind m.2.klass = some kind :=
        fun kind hkind => (h m hm kind).mp (mem_countedAs.mpr ⟨b, hb, hkind, m, hmem, rfl⟩)
      cases hkind : idleKind b.lead.2.klass with
      | some kind => exact (hown kind hkind).symm
      | none =>
        cases hm' : idleKind m.2.klass with
        | none => rfl
        | some kind =>
          obtain ⟨c, hc, hkindc, n, hn, hid⟩ := mem_countedAs.mp ((h m hm kind).mpr hm')
          obtain ⟨hnmem, hnkey⟩ := hgroups.same c hc n hn
          obtain ⟨-, hmkey⟩ := hgroups.same b hb m hmem
          have hcb : c = b := by
            refine hgroups.eq_of_key hc hb (hnkey.symm.trans (Eq.trans ?_ hmkey))
            rw [root_ext hnmem hm hid]
          rw [hcb, hkind] at hkindc
          exact hkindc
    rw [classesAgree_iff]
    intro m hm n hn hkey
    obtain ⟨b, hb, hmb⟩ := hgroups.every m hm
    obtain ⟨c, hc, hnc⟩ := hgroups.every n hn
    have hbc : b = c := hgroups.eq_of_key hb hc
      ((hgroups.same b hb m hmb).2.symm.trans (hkey.trans (hgroups.same c hc n hnc).2))
    rw [← hlead m hm b hb hmb, ← hlead n hn c hc hnc, hbc]
  · intro h m hm kind
    rw [mem_countedAs_of_agree h]
    constructor
    · rintro ⟨n, hn, hid, hkind⟩
      rwa [← root_ext hn hm hid]
    · exact fun hkind => ⟨m, hm, rfl, hkind⟩

/-! ### Another order of the tickets -/

theorem get_of_perm (h : ts'.entries.Perm ts.entries) : ts'.get = ts.get := by
  funext id
  refine Option.ext fun t => ?_
  rw [Tickets.get_eq_some_iff, Tickets.get_eq_some_iff, h.mem_iff]

variable (word) in
theorem projectedRoots_perm (h : ts'.entries.Perm ts.entries) :
    (projectedRoots word ts').Perm (projectedRoots word ts) := by
  have hroots : rootBlockers word ts' = rootBlockers word ts := by
    funext id
    rw [rootBlockers, rootBlockers, get_of_perm h, h.length_eq]
  unfold projectedRoots
  rw [hroots]
  exact h.flatMap_right _

theorem holds_of_perm (h : ts'.entries.Perm ts.entries) {u : Ticket} : Holds ts' u ↔ Holds ts u := by
  have hiff : ∀ {a b : Tickets}, a.entries.Perm b.entries → Holds a u → Holds b u := by
    intro a b hab hu
    refine ⟨hab.mem_iff.mp hu.mem, get_of_perm hab ▸ hu.leaf, ?_⟩
    rcases hu.waited with hblocked | ⟨htodo, p, hp, hwaits, hlive⟩
    · exact .inl hblocked
    · exact .inr ⟨htodo, p, hab.mem_iff.mp hp, hwaits, get_of_perm hab ▸ hlive⟩
  exact ⟨hiff h, hiff h.symm⟩

theorem classesAgree_of_perm (h : ts'.entries.Perm ts.entries) (hagree : ClassesAgree word ts) :
    ClassesAgree word ts' :=
  fun u v hu hv => hagree u v ((holds_of_perm h).mp hu) ((holds_of_perm h).mp hv)

theorem sortedSet_congr {xs ys : List String} (h : ∀ id, id ∈ xs ↔ id ∈ ys) : sortedSet xs = sortedSet ys := by
  unfold sortedSet
  have hperm : (xs.filter (· ≠ "")).dedup.Perm (ys.filter (· ≠ "")).dedup := by
    refine (List.perm_ext_iff_of_nodup (List.nodup_dedup _) (List.nodup_dedup _)).mpr fun id => ?_
    rw [List.mem_dedup, List.mem_dedup, List.mem_filter, List.mem_filter, h id]
  refine List.Perm.eq_of_pairwise' (List.pairwise_insertionSort _ _) (List.pairwise_insertionSort _ _) ?_
  exact ((List.perm_insertionSort _ _).trans hperm).trans (List.perm_insertionSort _ _).symm

theorem gateTickets_perm (h : ts'.entries.Perm ts.entries) :
    (gateTickets ts' now).Perm (gateTickets ts now) := by
  have hgates : (operatorGates ts' now).Perm (operatorGates ts now) := h.filterMap _
  unfold gateTickets
  dsimp only
  rw [hgates.any_eq]
  split_ifs
  · exact (hgates.filter _).map _
  · exact hgates.map _

theorem allComplete_of_perm (h : ts'.entries.Perm ts.entries) : allComplete ts' inbox = allComplete ts inbox := by
  unfold allComplete
  rw [h.all_eq]

/-! ### The action for a staged publication -/

theorem head_of_stagingRefusal {cs : List Char} (h : stagingRefusal.matchesAt word cs = true) :
    cs.head? = some 'P' := by
  obtain ⟨p, q, hpq⟩ : ∃ p q, stagingRefusal = .seq (.seq (.one (· == 'P')) p) q := ⟨_, _, rfl⟩
  rw [Pattern.matchesAt, hpq, Pattern.run, Pattern.run, Pattern.run] at h
  cases cs with
  | nil => simp at h
  | cons c cs =>
    by_cases hc : c = 'P'
    · rw [hc, List.head?_cons]
    · simp [hc] at h

/-- A staged publication is no active dependency. -/
theorem not_startsWith_dependency {raw : String} (h : publicationStagingBlocker word raw = true) (id : String) :
    startsWith raw ("ACTIVE_DEPENDENCY:" ++ id) = false := by
  have hdependency : startsWith raw ("ACTIVE_DEPENDENCY:" ++ id) = true → raw.toList.head? = some 'A' := by
    intro hdep
    obtain ⟨rest, hrest⟩ := List.isPrefixOf_iff_prefix.mp hdep
    rw [← hrest, String.toList_append]
    rfl
  refine Bool.eq_false_iff.mpr fun hdep => ?_
  rcases Bool.or_eq_true_iff.mp h with hstaging | hpublication
  · rw [head_of_stagingRefusal hstaging] at hdependency
    exact absurd (hdependency hdep) (by decide)
  · obtain ⟨rest, hrest⟩ := List.isPrefixOf_iff_prefix.mp (Bool.and_eq_true_iff.mp hpublication).1
    have hp : raw.toList.head? = some 'p' := by
      rw [← hrest]
      rfl
    rw [hp] at hdependency
    exact absurd (hdependency hdep) (by decide)

theorem lower_ne_of_no_dash {cs : List Char} (h : '-' ∉ cs) :
    lower (String.ofList cs) ≠ "publication-staging" := by
  intro heq
  have hmem : '-' ∈ (lower (String.ofList cs)).toList := by rw [heq]; decide
  rw [lower, String.toList_ofList, String.toList_ofList, List.mem_map] at hmem
  obtain ⟨c, hc, hlower⟩ := hmem
  split_ifs at hlower with hkelvin
  · exact absurd hlower (by decide)
  · have hdash : c = '-' := by
      delta Char.toLower at hlower
      split_ifs at hlower with hupper
      · have hval := congrArg (fun d : Char => d.val.toNat) hlower
        have hge := UInt32.le_iff_toNat_le.mp hupper.1
        have hle := UInt32.le_iff_toNat_le.mp hupper.2
        simp only [UInt32.toNat_add] at hval
        simp at hval hge hle
        omega
      · exact hlower
    exact h (hdash ▸ hc)

theorem staging_iff : r.sharedBlocker word = .sharedIndex ↔ publicationStagingBlocker word r.raw = true := by
  unfold Root.sharedBlocker
  dsimp only
  split_ifs with hstaging <;> simp [hstaging]

/-- The cause of a group is staging exactly when that of its first root is. -/
theorem cause_iff {b : Bunch (String × Root)} (hb : b ∈ rootGroups word ts) :
    (blockerGroup word b).cause = "publication-staging" ↔
      publicationStagingBlocker word b.lead.2.raw = true := by
  have hgroups := bunches_rootGroups word ts
  obtain ⟨hlead, -⟩ := hgroups.same b hb b.lead (hgroups.lead b hb)
  have hklass : publicationStagingBlocker word b.lead.2.raw = false →
      lower b.lead.2.klass ≠ "publication-staging" := by
    intro hstaging
    rcases root_of_projected hlead with ⟨u, -, hu⟩ | ⟨d, hd, -⟩
    · rw [hu, Ticket.root_raw] at hstaging
      rw [hu, Ticket.root_klass, blockerClass, hstaging, if_neg Bool.false_ne_true]
      split_ifs
      · decide +kernel
      · refine lower_ne_of_no_dash fun hmem => ?_
        have := List.mem_takeWhile_imp hmem
        simp at this
    · have hunknown : lower "UNKNOWN" ≠ "publication-staging" := by decide +kernel
      rw [hd]
      exact hunknown
  unfold blockerGroup
  dsimp only
  split_ifs with hstaging
  · exact iff_of_true rfl hstaging
  · exact iff_of_false (hklass (Bool.eq_false_iff.mpr hstaging)) hstaging

theorem stagingGroup_eq_none_iff : stagingGroup word ts = none ↔
    ∀ m ∈ projectedRoots word ts, m.2.sharedBlocker word ≠ .sharedIndex := by
  have hgroups := bunches_rootGroups word ts
  rw [stagingGroup, projectBlockers, List.find?_eq_none]
  constructor
  · intro h m hm hshared
    obtain ⟨b, hb, hmem⟩ := hgroups.every m hm
    have hkey := (hgroups.same b hb m hmem).2
    refine h _ (List.mem_map_of_mem hb) (beq_iff_eq.mpr ((cause_iff hb).mpr (staging_iff.mp ?_)))
    exact hkey.symm.trans hshared
  · intro h g hg hcause
    obtain ⟨b, hb, rfl⟩ := List.mem_map.mp hg
    have hlead := (hgroups.same b hb b.lead (hgroups.lead b hb)).1
    exact h b.lead hlead (staging_iff.mpr ((cause_iff hb).mp (beq_iff_eq.mp hcause)))

/-- Whatever ticket stands first among the staged publications, the action is the same. -/
theorem operatorAction_of_staging {g : BlockerGroup} (h : stagingGroup word ts = some g) (d : String) :
    operatorAction ts (g.rootTickets.head?.getD d) = "saipen status" := by
  have hgroups := bunches_rootGroups word ts
  obtain ⟨b, hb, rfl⟩ := List.mem_map.mp (List.mem_of_find?_eq_some h)
  have hcause : (blockerGroup word b).cause = "publication-staging" := by
    simpa using List.find?_some h
  have hmem : ∀ e ∈ (blockerGroup word b).rootTickets, operatorAction ts e = "saipen status" := by
    intro e he
    obtain ⟨m, hm, rfl⟩ := List.mem_map.mp (List.mem_eraseDups.mp he)
    obtain ⟨hproj, hkey⟩ := hgroups.same b hb m hm
    have hstaging : m.2.sharedBlocker word = .sharedIndex :=
      hkey.trans (staging_iff.mpr ((cause_iff hb).mp hcause))
    rcases root_of_projected hproj with ⟨u, hu, hmu⟩ | ⟨x, hx, -⟩
    · rw [hmu, staging_iff, Ticket.root_raw] at hstaging
      rw [hmu, Ticket.root_id, operatorAction, Tickets.get_eq_some_iff.mpr ⟨hu.mem, rfl⟩]
      simp [not_startsWith_dependency hstaging]
    · rw [hx, sharedBlocker_unresolved] at hstaging
      cases hstaging
  cases htickets : (blockerGroup word b).rootTickets with
  | nil =>
    have hlead : b.lead.2.id ∈ (blockerGroup word b).rootTickets :=
      List.mem_eraseDups.mpr (List.mem_map_of_mem (hgroups.lead b hb))
    rw [htickets] at hlead
    exact absurd hlead List.not_mem_nil
  | cons e es => exact hmem e (htickets ▸ List.mem_cons_self)

/-! ### The results do not depend on the order -/

theorem classifyIdleWork_of_perm (h : ts'.entries.Perm ts.entries) (hagree : ClassesAgree word ts) :
    classifyIdleWork word ts' now inbox gate = classifyIdleWork word ts now inbox gate := by
  have hroots := projectedRoots_perm word h
  have hcounted : ∀ kind id, id ∈ countedAs word ts' kind ↔ id ∈ countedAs word ts kind := by
    intro kind id
    rw [mem_countedAs_of_agree (classesAgree_of_perm h hagree), mem_countedAs_of_agree hagree]
    exact exists_congr fun m => and_congr_left fun _ => hroots.mem_iff
  have hoperator : sortedSet (gateTickets ts' now ++ countedAs word ts' .operatorRequired) =
      sortedSet (gateTickets ts now ++ countedAs word ts .operatorRequired) :=
    sortedSet_congr fun id => by
      rw [List.mem_append, List.mem_append, (gateTickets_perm h).mem_iff, hcounted]
  have hexternal : sortedSet (countedAs word ts' .externallyBlocked) =
      sortedSet (countedAs word ts .externallyBlocked) :=
    sortedSet_congr (hcounted _)
  have hfuture : sortedSet (countedAs word ts' .futureGated ++ futureTickets gate) =
      sortedSet (countedAs word ts .futureGated ++ futureTickets gate) :=
    sortedSet_congr fun id => by rw [List.mem_append, List.mem_append, hcounted]
  have hnone : stagingGroup word ts' = none ↔ stagingGroup word ts = none := by
    rw [stagingGroup_eq_none_iff, stagingGroup_eq_none_iff]
    exact forall_congr' fun m => imp_congr_left hroots.mem_iff
  have haction : operatorAction ts' = operatorAction ts := by
    funext target
    rw [operatorAction, operatorAction, get_of_perm h]
  unfold classifyIdleWork
  rw [allComplete_of_perm h, hoperator, hexternal, hfuture, haction]
  split_ifs
  · rfl
  · cases hstaging : stagingGroup word ts with
    | none => rw [hnone.mpr hstaging]
    | some g =>
      cases hstaging' : stagingGroup word ts' with
      | none => rw [hnone.mp hstaging'] at hstaging; cases hstaging
      | some g' =>
        have hact := operatorAction_of_staging hstaging
        have hact' := operatorAction_of_staging hstaging'
        rw [haction] at hact'
        cases sortedSet (countedAs word ts .externallyBlocked) <;>
          cases sortedSet (gateTickets ts now ++ countedAs word ts .operatorRequired) <;>
            cases sortedSet (countedAs word ts .futureGated ++ futureTickets gate) <;>
              simp [hact, hact']

/-- Idle classification counts every root blocker under its own class, whatever the order of the tickets,
and its results are the same then, exactly when no two tickets that hold something up name one obstruction
and have classes that are counted as different kinds. -/
theorem idle_orderFree_iff (word : Char → Bool) (ts : Tickets) :
    (∀ ts' : Tickets, ts'.entries.Perm ts.entries → CountsOwnClass word ts' ∧
        ∀ now inbox gate, classifyIdleWork word ts' now inbox gate = classifyIdleWork word ts now inbox gate) ↔
      ClassesAgree word ts := by
  constructor
  · exact fun h => countsOwnClass_iff.mp (h ts (List.Perm.refl _)).1
  · intro hagree ts' h
    exact ⟨countsOwnClass_iff.mpr (classesAgree_of_perm h hagree),
      fun now inbox gate => classifyIdleWork_of_perm h hagree⟩

/-- A ticket held back, and one blocked outside whose text has the word in it. -/
def heldTickets : List Ticket :=
  [⟨"T-1", "## BLOCKED", ' ', [], [("blocker", "HELD -- architecture review")], "", ""⟩,
    ⟨"T-2", "## BLOCKED", ' ', [], [("blocker", "BLOCKED_EXTERNAL -- upstream withheld the fix")], "", ""⟩]

/-- The BOARD with the ticket held back first. -/
def heldFirst : Tickets := ⟨heldTickets, by decide⟩

/-- The same tickets the other way round. -/
def heldLast : Tickets := ⟨heldTickets.reverse, by decide⟩

/-- Which of two tickets stands first decides why the project is idle, and one is counted under the class of
the other. -/
theorem order_decides_disposition :
    heldLast.entries.Perm heldFirst.entries ∧
      classifyIdleWork (fun _ => false) heldFirst 0 none none =
        ⟨.idleFutureGated, 0, "saipen future status", [], [], ["T-1", "T-2"]⟩ ∧
      classifyIdleWork (fun _ => false) heldLast 0 none none =
        ⟨.idleBlockedExternal, 0, "saipen ticket resolve-external T-1", ["T-1", "T-2"], [], []⟩ ∧
      ("T-2", Ticket.root (fun _ => false) ⟨"T-2", "## BLOCKED", ' ', [],
        [("blocker", "BLOCKED_EXTERNAL -- upstream withheld the fix")], "", ""⟩) ∈
          projectedRoots (fun _ => false) heldFirst ∧
      idleKind (blockerClass (fun _ => false) "BLOCKED_EXTERNAL -- upstream withheld the fix") =
        some .externallyBlocked ∧
      "T-2" ∉ countedAs (fun _ => false) heldFirst .externallyBlocked := by
  decide +kernel

end Saipen.Board
