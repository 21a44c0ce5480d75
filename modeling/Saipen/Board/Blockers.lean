import Saipen.Board.Graph
import Saipen.Grouping
import Saipen.Text.Case
import Saipen.Text.Pattern

/-! # Root blockers

`_root_blockers` follows what a ticket waits for down to the tickets nothing on the BOARD holds up, and
`project_blockers` groups these roots by the obstruction their texts name. A group is recorded as its first
root has it. -/

namespace Saipen.Board

open Text Grouping

variable (word : Char → Bool)

/-! ### What a blocker says -/

/-- `^PUBLICATION_STAGING_BLOCKED(?:\s|:|$)`. -/
def stagingRefusal : Pattern :=
  .all [.lit "PUBLICATION_STAGING_BLOCKED", .any [.space, .lit ":", .notAhead (.one fun _ => true)]]

/-- `\bforeign\b.*\bstag`, in any case. -/
def foreignStaging : Pattern :=
  .all [.edge, .word? "foreign", .edge, .many (.one (· != '\n')), .edge, .word? "stag"]

/-- `_publication_staging_blocker`. -/
def publicationStagingBlocker (raw : String) : Bool :=
  stagingRefusal.matchesAt word raw.toList ||
    (startsWith raw "publication blocked:" && foreignStaging.search word raw.toList)

/-- `^ACTIVE_DEPENDENCY\s*:\s*(T-\d+)`: the ticket a blocker waits for. -/
def activeDependency (raw : String) : Option String := do
  let rest ← literal "ACTIVE_DEPENDENCY".toList raw.toList
  let rest ← literal [':'] (rest.dropWhile isSpace)
  let rest ← literal "T-".toList (rest.dropWhile isSpace)
  if rest.takeWhile isDecimal = [] then none
  else some (String.ofList ("T-".toList ++ rest.takeWhile isDecimal))

/-- `re.split(r"[\s:\-]+", raw)[0]`. -/
def firstWord (raw : String) : String :=
  String.ofList (raw.toList.takeWhile fun c => !(isSpace c || c == ':' || c == '-'))

/-- The blocker of a ticket. -/
def Ticket.blocker (t : Ticket) : String := t.field "blocker"

/-! ### Roots -/

/-- A root blocker: the ticket, its blocker class and its blocker. -/
structure Root where
  id : String
  klass : String
  raw : String
deriving DecidableEq

/-- What stands for a ticket that does not exist, or that waits for itself. -/
def unresolved (id : String) : Root := ⟨id, "UNKNOWN", "unresolved or cyclic dependency"⟩

/-- The class of a blocker. -/
def blockerClass (raw : String) : String :=
  if publicationStagingBlocker word raw then "WAIT_USER_DECISION"
  else if raw = "" then "UNKNOWN"
  else firstWord raw

/-- A ticket that is a root itself. -/
def Ticket.root (t : Ticket) : Root := ⟨t.id, blockerClass word t.blocker, t.blocker⟩

@[simp] theorem Ticket.root_id (t : Ticket) : (t.root word).id = t.id := rfl

@[simp] theorem Ticket.root_klass (t : Ticket) : (t.root word).klass = blockerClass word t.blocker := by
  simp only [Ticket.root]

@[simp] theorem Ticket.root_raw (t : Ticket) : (t.root word).raw = t.blocker := rfl

/-- What a ticket waits for: what it names, else what it needs if it is open. -/
def Ticket.dependencies (t : Ticket) : List String :=
  match activeDependency t.blocker, t.blockedOn with
  | some id, _ => [id]
  | none, some id => [id]
  | none, none => if t.sectionName = "## TODO" then t.needs else []

/-- The sections of the tickets that wait. -/
def Ticket.waits (t : Ticket) : Bool := t.sectionName == "## BLOCKED" || t.sectionName == "## TODO"

variable (get : String → Option Ticket)

/-- The dependencies that are not over: missing tickets, and those that wait themselves. -/
def liveDependencies (t : Ticket) : List String := t.dependencies.filter fun id => (get id).all Ticket.waits

/-- `_root_blockers` behind the tickets seen, as many steps as there are tickets not seen. -/
def rootsFrom : Nat → List String → String → List Root
  | 0, _, id => [unresolved id]
  | n + 1, seen, id =>
      if id ∈ seen then [unresolved id]
      else
        match get id with
        | none => [unresolved id]
        | some t =>
            let roots := (liveDependencies get t).flatMap (rootsFrom n (id :: seen))
            if roots = [] then [t.root word] else roots.eraseDups

variable (ts : Tickets)

/-- `_root_blockers`. -/
def rootBlockers (id : String) : List Root := rootsFrom word ts.get ts.entries.length [] id

/-! ### The projection -/

/-- The obstructions roots share. -/
inductive SharedBlocker where
  | sharedIndex
  | externalPublication
  | markhunt
  | warningOwner
  | heldChain
  | operatorWitness
  | work (root : String)
deriving DecidableEq

/-- `shared_blocker_id`. -/
def SharedBlocker.text : SharedBlocker → String
  | sharedIndex => "release:shared-index"
  | externalPublication => "release:external-publication"
  | markhunt => "triage:markhunt"
  | warningOwner => "observability:warning-owner"
  | heldChain => "architecture:held-chain"
  | operatorWitness => "acceptance:operator-witness"
  | work root => "work:" ++ root

/-- Groups by obstruction are groups by its text. -/
theorem SharedBlocker.text_injective : Function.Injective SharedBlocker.text := by
  intro a b h
  cases a <;> cases b
  case work.work root other =>
    have hlist : root.toList = other.toList := by simpa [text] using congrArg String.toList h
    rw [String.toList_injective hlist]
  all_goals first
    | rfl
    | exact absurd h (by decide +kernel)
    | exact absurd (congrArg (·.toList.head?) h) (by simp [text])

/-- `root_owner`, for a root of a class. -/
def SharedBlocker.owner (klass : String) : SharedBlocker → String
  | sharedIndex => "tools/saipen_engine/release.py"
  | externalPublication => "operator:external-publication"
  | markhunt => "human:triage"
  | warningOwner => "observability:warning"
  | heldChain => "architecture:gate"
  | operatorWitness => "operator:acceptance"
  | work _ =>
      if klass = "BLOCKED_EXTERNAL" then "tools/saipen_engine/external.py"
      else "tools/saipen_engine/board.py"

/-- `part in text`. -/
def contains (part text : String) : Bool := (partitionOn part.toList text.toList).isSome

/-- The obstruction a root names. -/
def Root.sharedBlocker (r : Root) : SharedBlocker :=
  let rawUpper := upper r.raw
  if publicationStagingBlocker word r.raw then .sharedIndex
  else if contains "PUBLICATION_BLOCKED_EXTERNAL" rawUpper then .externalPublication
  else if contains "MARKHUNT_TRIAGE_REQUIRED" rawUpper then .markhunt
  else if contains "PERMANENT_WARNING_OWNER" rawUpper then .warningOwner
  else if r.klass == "HELD" || contains "HELD" rawUpper then .heldChain
  else if contains "[LIVE]" rawUpper || contains "ACCEPTANCE_WITNESS" rawUpper then .operatorWitness
  else .work r.id

/-- A group of roots. -/
structure BlockerGroup where
  sharedBlocker : SharedBlocker
  owner : String
  blockerClass : String
  cause : String
  rootCause : String
  whoCanAuthorize : String
  command : Option String
  rootTickets : List String
  dependentTickets : List String

/-- The roots of the tickets that wait, with the tickets: an open ticket that only holds up itself is left
out. -/
def projectedRoots : List (String × Root) :=
  ts.entries.flatMap fun t =>
    let roots := rootBlockers word ts t.id
    if t.waits = false ∨ (t.sectionName = "## TODO" ∧ ∀ r ∈ roots, r.id = t.id) then []
    else roots.map fun r => (t.id, r)

/-- The record of a group, as its first root has it. -/
def blockerGroup (b : Bunch (String × Root)) : BlockerGroup :=
  let root := b.lead.2
  let shared := root.sharedBlocker word
  let owner := shared.owner root.klass
  let rootCause := if root.raw = "" then "No verified root-cause evidence is recorded" else root.raw
  let rootTickets := (b.members.map fun m => m.2.id).eraseDups
  { sharedBlocker := shared
    owner
    blockerClass := root.klass
    cause := if publicationStagingBlocker word root.raw then "publication-staging" else lower root.klass
    rootCause
    whoCanAuthorize :=
      if contains "operator" owner || contains "human" owner || contains "USER" root.klass then "operator"
      else "root_owner"
    command :=
      if root.klass = "BLOCKED_EXTERNAL" then some ("saipen ticket resolve-external " ++ root.id) else none
    rootTickets
    dependentTickets := (b.members.map Prod.fst).eraseDups.filter (· ∉ rootTickets) }

/-- The roots by obstruction. -/
def rootGroups : List (Bunch (String × Root)) := of (fun m => m.2.sharedBlocker word) (projectedRoots word ts)

/-- `project_blockers`. -/
def projectBlockers : List BlockerGroup := (rootGroups word ts).map (blockerGroup word)

variable {word get ts} {id : String} {r : Root} {t u : Ticket}

/-! ### Where the roots are -/

theorem mem_liveDependencies : id ∈ liveDependencies get t ↔
    id ∈ t.dependencies ∧ ∀ u, get id = some u → u.waits = true := by
  unfold liveDependencies
  rw [List.mem_filter]
  cases get id <;> simp

/-- The tickets seen are all there are, if no step is left. -/
def Seen (ts : Tickets) (n : Nat) (seen : List String) : Prop :=
  seen.Nodup ∧ seen ⊆ ts.ids ∧ ts.entries.length ≤ n + seen.length

theorem Seen.mem_of_zero {seen : List String} (h : Seen ts 0 seen) (hid : id ∈ ts.ids) : id ∈ seen := by
  have hlen : ts.ids.length ≤ seen.length := by simpa [Tickets.ids] using h.2.2
  exact ((h.1.subperm h.2.1).perm_of_length_le hlen).mem_iff.mpr hid

theorem Seen.cons {n : Nat} {seen : List String} (h : Seen ts (n + 1) seen) (hid : id ∈ ts.ids)
    (hnew : id ∉ seen) : Seen ts n (id :: seen) := by
  refine ⟨List.nodup_cons.mpr ⟨hnew, h.1⟩, List.cons_subset.mpr ⟨hid, h.2.1⟩, ?_⟩
  have := h.2.2
  rw [List.length_cons]
  omega

theorem Seen.start : Seen ts ts.entries.length [] := ⟨List.nodup_nil, List.nil_subset _, by simp⟩

theorem mem_ids_of_get (h : ts.get id = some t) : id ∈ ts.ids :=
  List.mem_map.mpr ⟨t, (Tickets.get_eq_some_iff.mp h).1, (Tickets.get_eq_some_iff.mp h).2⟩

/-- More steps change nothing. -/
theorem rootsFrom_of_le {n m : Nat} {seen : List String} (h : Seen ts n seen) (hle : n ≤ m) :
    rootsFrom word ts.get m seen id = rootsFrom word ts.get n seen id := by
  induction n generalizing m seen id with
  | zero =>
    cases m with
    | zero => rfl
    | succ m =>
      rw [rootsFrom, rootsFrom]
      split_ifs with hseen
      · rfl
      · cases hget : ts.get id with
        | none => rfl
        | some t => exact absurd (h.mem_of_zero (mem_ids_of_get hget)) hseen
  | succ n ih =>
    obtain ⟨m, rfl⟩ : ∃ k, m = k + 1 := ⟨m - 1, by omega⟩
    rw [rootsFrom, rootsFrom]
    split_ifs with hseen
    · rfl
    · cases hget : ts.get id with
      | none => rfl
      | some t =>
        have hstep : rootsFrom word ts.get m (id :: seen) = rootsFrom word ts.get n (id :: seen) :=
          funext fun d => ih (h.cons (mem_ids_of_get hget) hseen) (by omega)
        rw [hstep]

theorem rootsFrom_ne_nil (n : Nat) (seen : List String) (id : String) : rootsFrom word get n seen id ≠ [] := by
  cases n with
  | zero => exact List.cons_ne_nil _ _
  | succ n =>
    rw [rootsFrom]
    split_ifs with hseen
    · exact List.cons_ne_nil _ _
    · cases get id with
      | none => exact List.cons_ne_nil _ _
      | some t =>
        dsimp only
        split_ifs with hroots
        · exact List.cons_ne_nil _ _
        · obtain ⟨r, hr⟩ := List.exists_mem_of_ne_nil _ hroots
          exact List.ne_nil_of_mem (List.mem_eraseDups.mpr hr)

/-- The roots of a ticket that waits for others are theirs. -/
theorem mem_rootsFrom_succ {n : Nat} {seen : List String} (hget : get id = some t) (hseen : id ∉ seen) :
    r ∈ rootsFrom word get (n + 1) seen id ↔
      liveDependencies get t = [] ∧ r = t.root word ∨
        ∃ d ∈ liveDependencies get t, r ∈ rootsFrom word get n (id :: seen) d := by
  rw [rootsFrom, if_neg hseen, hget]
  dsimp only
  cases hlive : liveDependencies get t with
  | nil => simp
  | cons d ds =>
    have hroots : (d :: ds).flatMap (rootsFrom word get n (id :: seen)) ≠ [] := by
      intro h
      exact rootsFrom_ne_nil n _ d (List.flatMap_eq_nil_iff.mp h d List.mem_cons_self)
    rw [if_neg hroots, List.mem_eraseDups, List.mem_flatMap]
    simp

/-- A ticket nothing holds up, that holds up itself or an other. -/
structure Holds (ts : Tickets) (u : Ticket) : Prop where
  mem : u ∈ ts.entries
  leaf : liveDependencies ts.get u = []
  waited : u.sectionName = "## BLOCKED" ∨
    u.sectionName = "## TODO" ∧ ∃ p ∈ ts.entries, p.waits = true ∧ u.id ∈ liveDependencies ts.get p

/-- Where a root comes from: it is a ticket that waits for nothing, the one asked for or one another waits
for, or it stands for a ticket that is missing or waits for others. -/
def Origin (word : Char → Bool) (ts : Tickets) (id : String) (r : Root) : Prop :=
  (∃ u ∈ ts.entries, liveDependencies ts.get u = [] ∧ r = u.root word ∧
    (u.id = id ∨ ∃ p ∈ ts.entries, p.waits = true ∧ u.id ∈ liveDependencies ts.get p)) ∨
  ∃ d, r = unresolved d ∧ ∀ u, ts.get d = some u → liveDependencies ts.get u ≠ []

theorem origin_of_rootsFrom {n : Nat} {seen : List String} (h : Seen ts n seen)
    (hseen : ∀ d ∈ seen, ∀ u, ts.get d = some u → liveDependencies ts.get u ≠ [])
    (hwaits : ∀ u, ts.get id = some u → u.waits = true) (hr : r ∈ rootsFrom word ts.get n seen id) :
    Origin word ts id r := by
  induction n generalizing seen id with
  | zero =>
    refine .inr ⟨id, List.mem_singleton.mp hr, fun u hu => ?_⟩
    exact hseen id (h.mem_of_zero (mem_ids_of_get hu)) u hu
  | succ n ih =>
    by_cases hmem : id ∈ seen
    · rw [rootsFrom, if_pos hmem] at hr
      exact .inr ⟨id, List.mem_singleton.mp hr, hseen id hmem⟩
    · cases hget : ts.get id with
      | none =>
        rw [rootsFrom, if_neg hmem, hget] at hr
        exact .inr ⟨id, List.mem_singleton.mp hr, fun u hu => by cases hget.symm.trans hu⟩
      | some t =>
        obtain ⟨htmem, rfl⟩ := Tickets.get_eq_some_iff.mp hget
        rcases (mem_rootsFrom_succ hget hmem).mp hr with ⟨hleaf, rfl⟩ | ⟨d, hd, hr⟩
        · exact .inl ⟨t, htmem, hleaf, rfl, .inl rfl⟩
        · have hnext : ∀ e ∈ t.id :: seen, ∀ u, ts.get e = some u → liveDependencies ts.get u ≠ [] := by
            intro e he u hu
            rcases List.mem_cons.mp he with rfl | he
            · rw [Option.some.inj (hget.symm.trans hu)] at hd
              exact List.ne_nil_of_mem hd
            · exact hseen e he u hu
          have := ih (h.cons (mem_ids_of_get hget) hmem) hnext (mem_liveDependencies.mp hd).2 hr
          rcases this with ⟨u, hu, hleaf, rfl, hid⟩ | hmissing
          · refine .inl ⟨u, hu, hleaf, rfl, .inr ?_⟩
            rcases hid with rfl | hp
            · exact ⟨t, htmem, hwaits t hget, hd⟩
            · exact hp
          · exact .inr hmissing

/-- What a ticket waits for itself is a root of it, if that waits for nothing. -/
theorem mem_rootBlockers_of_live {p : Ticket} (hp : p ∈ ts.entries) (hu : u ∈ ts.entries)
    (hlive : u.id ∈ liveDependencies ts.get p) (hleaf : liveDependencies ts.get u = []) :
    u.root word ∈ rootBlockers word ts p.id := by
  have hne : p.id ≠ u.id := by
    intro h
    have hget := Tickets.get_eq_some_iff.mpr ⟨hp, h⟩
    rw [Tickets.get_eq_some_iff.mpr ⟨hu, rfl⟩] at hget
    rw [← Option.some.inj hget, hleaf] at hlive
    exact List.not_mem_nil hlive
  obtain ⟨n, hn⟩ : ∃ n, ts.entries.length = n + 2 := by
    have hsub : [p.id, u.id].length ≤ ts.ids.length := by
      apply List.Subperm.length_le (List.Nodup.subperm (by simp [hne]) ?_)
      intro d hd
      rcases List.mem_cons.mp hd with rfl | hd
      · exact List.mem_map_of_mem hp
      · exact List.mem_singleton.mp hd ▸ List.mem_map_of_mem hu
    rw [Tickets.ids, List.length_map] at hsub
    exact ⟨ts.entries.length - 2, by simp at hsub; omega⟩
  rw [rootBlockers, hn, mem_rootsFrom_succ (Tickets.get_eq_some_iff.mpr ⟨hp, rfl⟩) List.not_mem_nil]
  refine .inr ⟨u.id, hlive, ?_⟩
  rw [mem_rootsFrom_succ (Tickets.get_eq_some_iff.mpr ⟨hu, rfl⟩) (by simpa using hne.symm)]
  exact .inl ⟨hleaf, rfl⟩

theorem rootBlockers_of_leaf (hu : u ∈ ts.entries) (hleaf : liveDependencies ts.get u = []) :
    rootBlockers word ts u.id = [u.root word] := by
  obtain ⟨n, hn⟩ : ∃ n, ts.entries.length = n + 1 :=
    ⟨ts.entries.length - 1, by have := List.length_pos_of_mem hu; omega⟩
  rw [rootBlockers, hn, rootsFrom, if_neg List.not_mem_nil, Tickets.get_eq_some_iff.mpr ⟨hu, rfl⟩]
  simp [hleaf]

/-! ### The roots projected -/

theorem mem_projectedRoots {m : String × Root} : m ∈ projectedRoots word ts ↔
    ∃ t ∈ ts.entries, t.waits = true ∧ m.1 = t.id ∧ m.2 ∈ rootBlockers word ts t.id ∧
      ¬(t.sectionName = "## TODO" ∧ ∀ r ∈ rootBlockers word ts t.id, r.id = t.id) := by
  unfold projectedRoots
  rw [List.mem_flatMap]
  refine exists_congr fun t => and_congr_right fun _ => ?_
  dsimp only
  split_ifs with hskip
  · refine ⟨fun h => absurd h List.not_mem_nil, fun ⟨hwaits, _, _, hnot⟩ => ?_⟩
    rcases hskip with h | h
    · rw [hwaits] at h
      cases h
    · exact absurd h hnot
  · obtain ⟨hwaits, hnot⟩ := not_or.mp hskip
    rw [List.mem_map]
    constructor
    · rintro ⟨r, hr, rfl⟩
      exact ⟨by simpa using hwaits, rfl, hr, hnot⟩
    · rintro ⟨-, hid, hr, -⟩
      exact ⟨m.2, hr, Prod.ext hid.symm rfl⟩

/-- A root projected is a ticket that holds something up, or stands for one that is missing or waits. -/
theorem root_of_projected {m : String × Root} (h : m ∈ projectedRoots word ts) :
    (∃ u, Holds ts u ∧ m.2 = u.root word) ∨
      ∃ d, m.2 = unresolved d ∧ ∀ u, ts.get d = some u → liveDependencies ts.get u ≠ [] := by
  obtain ⟨t, ht, hwaits, -, hr, hnot⟩ := mem_projectedRoots.mp h
  have hget : ∀ u, ts.get t.id = some u → u.waits = true := by
    intro u hu
    rw [Tickets.get_eq_some_iff.mpr ⟨ht, rfl⟩] at hu
    exact Option.some.inj hu ▸ hwaits
  rcases origin_of_rootsFrom .start (fun _ hd => absurd hd List.not_mem_nil) hget hr with
    ⟨u, hu, hleaf, heq, hid⟩ | hmissing
  · refine .inl ⟨u, ⟨hu, hleaf, ?_⟩, heq⟩
    rcases hid with hid | ⟨p, hp, hpwaits, hlive⟩
    · obtain rfl : u = t := by
        have hget := Tickets.get_eq_some_iff.mpr ⟨hu, hid⟩
        rw [Tickets.get_eq_some_iff.mpr ⟨ht, rfl⟩] at hget
        exact (Option.some.inj hget).symm
      by_contra hcon
      have hblocked : u.sectionName ≠ "## BLOCKED" := fun h => hcon (.inl h)
      refine hnot ⟨by simpa [Ticket.waits, hblocked] using hwaits, fun r hr => ?_⟩
      rw [rootBlockers_of_leaf hu hleaf, List.mem_singleton] at hr
      exact hr ▸ rfl
    · by_cases hblocked : u.sectionName = "## BLOCKED"
      · exact .inl hblocked
      · have huwaits := (mem_liveDependencies.mp hlive).2 u (Tickets.get_eq_some_iff.mpr ⟨hu, rfl⟩)
        exact .inr ⟨by simpa [Ticket.waits, hblocked] using huwaits, p, hp, hpwaits, hlive⟩
  · exact .inr hmissing

variable (word) in
/-- A ticket that holds something up is projected. -/
theorem Holds.projected (h : Holds ts u) : ∃ m ∈ projectedRoots word ts, m.2 = u.root word := by
  by_cases hblocked : u.sectionName = "## BLOCKED"
  · refine ⟨(u.id, u.root word), mem_projectedRoots.mpr ⟨u, h.mem, ?_, rfl, ?_, ?_⟩, rfl⟩
    · simp [Ticket.waits, hblocked]
    · rw [rootBlockers_of_leaf h.mem h.leaf]
      exact List.mem_singleton_self _
    · rintro ⟨htodo, -⟩
      rw [hblocked] at htodo
      exact absurd htodo (by decide)
  · obtain ⟨-, p, hp, hwaits, hlive⟩ := h.waited.resolve_left hblocked
    have hr : u.root word ∈ rootBlockers word ts p.id := mem_rootBlockers_of_live hp h.mem hlive h.leaf
    refine ⟨(p.id, u.root word), mem_projectedRoots.mpr ⟨p, hp, hwaits, rfl, hr, ?_⟩, rfl⟩
    rintro ⟨-, hself⟩
    have hid : u.id = p.id := hself _ hr
    have hget := Tickets.get_eq_some_iff.mpr ⟨hp, hid.symm⟩
    rw [Tickets.get_eq_some_iff.mpr ⟨h.mem, rfl⟩] at hget
    rw [← Option.some.inj hget, h.leaf] at hlive
    exact List.not_mem_nil hlive

/-- Roots of one ticket are one root. -/
theorem root_ext {m n : String × Root} (hm : m ∈ projectedRoots word ts) (hn : n ∈ projectedRoots word ts)
    (hid : m.2.id = n.2.id) : m.2 = n.2 := by
  have hleaf : ∀ u d, Holds ts u → (∀ v, ts.get d = some v → liveDependencies ts.get v ≠ []) → u.id ≠ d :=
    fun u d hu hd heq => hd u (Tickets.get_eq_some_iff.mpr ⟨hu.mem, heq⟩) hu.leaf
  rcases root_of_projected hm with ⟨u, hu, hmu⟩ | ⟨d, hmd, hd⟩ <;>
    rcases root_of_projected hn with ⟨v, hv, hnv⟩ | ⟨e, hne, he⟩
  · rw [hmu, hnv] at hid ⊢
    have hget : ts.get v.id = some u := Tickets.get_eq_some_iff.mpr ⟨hu.mem, hid⟩
    rw [Tickets.get_eq_some_iff.mpr ⟨hv.mem, rfl⟩] at hget
    rw [Option.some.inj hget]
  · rw [hmu, hne] at hid
    exact absurd hid (hleaf u e hu he)
  · rw [hmd, hnv] at hid
    exact absurd hid.symm (hleaf v d hv hd)
  · rw [hmd, hne] at hid ⊢
    exact congrArg unresolved hid

/-! ### Obstructions -/

/-- An obstruction of its own names the root. -/
theorem id_of_work {x : String} (h : r.sharedBlocker word = .work x) : r.id = x := by
  unfold Root.sharedBlocker at h
  dsimp only at h
  split_ifs at h
  exact SharedBlocker.work.inj h

theorem sharedBlocker_unresolved (d : String) : (unresolved d).sharedBlocker word = .work d := by
  have hstaging : publicationStagingBlocker word "unresolved or cyclic dependency" = false := rfl
  have hother : ∀ part ∈ ["PUBLICATION_BLOCKED_EXTERNAL", "MARKHUNT_TRIAGE_REQUIRED",
      "PERMANENT_WARNING_OWNER", "HELD", "[LIVE]", "ACCEPTANCE_WITNESS"],
      contains part (upper "unresolved or cyclic dependency") = false := by decide +kernel
  simp only [List.forall_mem_cons] at hother
  simp [Root.sharedBlocker, unresolved, hstaging, hother]

end Saipen.Board
