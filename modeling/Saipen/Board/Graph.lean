import Saipen.Assoc
import Saipen.Board.Parse
import Saipen.Graph.Chain

/-! # The dependency graph of the BOARD

`board_graph_errors` checks the references between tickets: what a ticket needs, what it waits on and what
supersedes it. Cycles of the needs are found by a search with three colours, cycles of supersessions by
following every superseded ticket. -/

namespace Saipen.Board

open Text Graph

/-- The tickets of a BOARD, by their ids. -/
structure Tickets where
  entries : List Ticket
  distinct : (entries.map Ticket.id).Nodup

namespace Tickets

/-- `tickets.get(id)`. -/
def get (ts : Tickets) (id : String) : Option Ticket := ts.entries.find? (·.id = id)

/-- `tickets.keys()`. -/
def ids (ts : Tickets) : List String := ts.entries.map Ticket.id

end Tickets

/-- `_field`. -/
def Ticket.field (t : Ticket) (name : String) : String := strip ((t.fields.lookup name).getD "")

/-- The ticket that supersedes a ticket. -/
def Ticket.successor (t : Ticket) : Option String :=
  if t.field "superseded_by" = "" then none else some (t.field "superseded_by")

/-- The ticket a ticket waits on. -/
def Ticket.blockedOn (t : Ticket) : Option String :=
  if t.field "blocked_on" = "" then none else some (t.field "blocked_on")

/-- What `board_graph_errors` reports. -/
inductive GraphError where
  | noSuccessor (id successor : String)
  | notDone (id successor : String)
  | cyclicSupersession (path : List String)
  | noNeed (id need : String)
  | noBlocker (id blockedOn : String)
  | notNeeded (id blockedOn : String)
  | manyParents (id prior parent : String)
  | cyclicNeeds (path : List String)
deriving DecidableEq

/-- The text of an error, given the lines the tickets stand on. -/
def GraphError.text (lineNo : String → Nat) : GraphError → String
  | noSuccessor id successor => "supersession " ++ id ++ " names nonexistent successor " ++ successor
  | notDone id successor => "supersession " ++ id ++ " names non-DONE successor " ++ successor
  | cyclicSupersession path => "cyclic supersession: " ++ " -> ".intercalate path
  | noNeed id need => id ++ " needs nonexistent " ++ need ++ " (line " ++ (lineNo id).repr ++ ")"
  | noBlocker id blockedOn => id ++ " blocked_on nonexistent " ++ blockedOn
  | notNeeded id blockedOn => id ++ " blocked_on " ++ blockedOn ++ " is missing from its needs graph"
  | manyParents id prior parent => id ++ " has multiple continuation parents: " ++ prior ++ ", " ++ parent
  | cyclicNeeds path => "cyclic needs: " ++ " -> ".intercalate path

variable (ts : Tickets)

/-! ### Supersession -/

/-- `superseded`. -/
def superseded : List (String × String) :=
  ts.entries.filterMap fun t => t.successor.map fun successor => (t.id, successor)

/-- A successor has to exist and be done. -/
def successorErrors : List GraphError :=
  ts.entries.filterMap fun t => t.successor.bind fun successor =>
    match ts.get successor with
    | none => some (.noSuccessor t.id successor)
    | some s => if s.sectionName ≠ "## DONE" then some (.notDone t.id successor) else none

/-- The walk from a superseded ticket. -/
def supersessionWalk (start : String) : Option (Option (List String)) :=
  follow (fun id => (superseded ts).lookup id) ((superseded ts).length + 1) [] start

/-- A cycle is reported for every superseded ticket whose walk runs into it. -/
def supersessionCycles : List (List String) :=
  (superseded ts).filterMap fun r => (supersessionWalk ts r.1).getD none

/-! ### Needs -/

/-- A need has to exist. -/
def needErrors : List GraphError :=
  ts.entries.flatMap fun t =>
    (t.needs.filter fun need => need ∉ ts.ids).map fun need => .noNeed t.id need

/-- A ticket waits on one that exists and that it needs, and no other waits on that. -/
def reserve (s : List (String × String) × List GraphError) (t : Ticket) :
    List (String × String) × List GraphError :=
  match t.blockedOn with
  | none => s
  | some blockedOn =>
      if blockedOn ∉ ts.ids then (s.1, s.2 ++ [.noBlocker t.id blockedOn])
      else
        let missing := if blockedOn ∈ t.needs then [] else [.notNeeded t.id blockedOn]
        let prior := ((s.1.lookup blockedOn).filter (· ≠ t.id)).toList
        ((blockedOn, t.id) :: s.1,
          s.2 ++ missing ++ prior.map fun prior => .manyParents blockedOn prior t.id)

/-- The errors of the reservations. -/
def reservationErrors : List GraphError := (ts.entries.foldl (reserve ts) ([], [])).2

/-- What a ticket needs. -/
def needsOf (id : String) : List String := ((ts.get id).map Ticket.needs).getD []

/-- The search for cycles of the needs. -/
def needsSearch : Search String := Search.all ts.ids (needsOf ts)

/-! ### The errors -/

/-- `board_graph_errors`. -/
def boardGraphErrors : List GraphError :=
  successorErrors ts ++ (supersessionCycles ts).map .cyclicSupersession ++ needErrors ts ++
    reservationErrors ts ++ (needsSearch ts).cycles.map .cyclicNeeds

/-- One ticket needs another, and both exist. -/
def Needs (a b : String) : Prop := ∃ t ∈ ts.entries, t.id = a ∧ b ∈ t.needs ∧ b ∈ ts.ids

/-- One ticket is superseded by another. -/
def SupersededBy (a b : String) : Prop := ∃ t ∈ ts.entries, t.id = a ∧ t.successor = some b

variable {ts} {a b id : String}

theorem Tickets.get_eq_some_iff {t : Ticket} : ts.get id = some t ↔ t ∈ ts.entries ∧ t.id = id := by
  obtain ⟨entries, hdistinct⟩ := ts
  unfold Tickets.get
  constructor
  · intro h
    exact ⟨List.mem_of_find?_eq_some h, by simpa using List.find?_some h⟩
  · rintro ⟨hmem, rfl⟩
    dsimp only at hmem ⊢
    induction entries with
    | nil => cases hmem
    | cons u us ih =>
      rw [List.map_cons, List.nodup_cons] at hdistinct
      rcases List.mem_cons.mp hmem with rfl | hmem
      · simp
      · have hne : u.id ≠ t.id := fun h => hdistinct.1 (h ▸ List.mem_map_of_mem hmem)
        rw [List.find?_cons_of_neg (by simpa using hne)]
        exact ih hdistinct.2 hmem

theorem edge_iff : Edge ts.ids (needsOf ts) a b ↔ Needs ts a b := by
  unfold Edge needsOf Needs
  constructor
  · rintro ⟨ha, hb, hneed⟩
    obtain ⟨t, ht, rfl⟩ := List.mem_map.mp ha
    rw [Tickets.get_eq_some_iff.mpr ⟨ht, rfl⟩] at hneed
    exact ⟨t, ht, rfl, hneed, hb⟩
  · rintro ⟨t, ht, rfl, hneed, hb⟩
    refine ⟨List.mem_map_of_mem ht, hb, ?_⟩
    rw [Tickets.get_eq_some_iff.mpr ⟨ht, rfl⟩]
    exact hneed

theorem superseded_keys : ((superseded ts).map Prod.fst).Sublist ts.ids := by
  unfold superseded Tickets.ids
  induction ts.entries with
  | nil => exact .slnil
  | cons t us ih =>
    rw [List.filterMap_cons]
    cases t.successor with
    | none => exact ih.cons _
    | some successor => exact ih.cons_cons _

theorem next_iff : Next (fun id => (superseded ts).lookup id) a b ↔ SupersededBy ts a b := by
  have hnodup : ((superseded ts).map Prod.fst).Nodup := superseded_keys.nodup ts.distinct
  unfold Next SupersededBy
  rw [← Assoc.mem_iff_lookup hnodup, superseded, List.mem_filterMap]
  constructor
  · rintro ⟨t, ht, heq⟩
    obtain ⟨successor, hsuccessor, heq⟩ := Option.map_eq_some_iff.mp heq
    obtain ⟨rfl, rfl⟩ := Prod.mk.inj heq
    exact ⟨t, ht, rfl, hsuccessor⟩
  · rintro ⟨t, ht, rfl, hsuccessor⟩
    exact ⟨t, ht, by rw [hsuccessor, Option.map_some]⟩

/-! ### The errors are exact -/

/-- The error names a cycle. -/
def GraphError.namesCycle : GraphError → Bool
  | cyclicSupersession _ | cyclicNeeds _ => true
  | _ => false

theorem namesCycle_of_reserve {e : GraphError} {s : List (String × String) × List GraphError} {t : Ticket}
    (h : e ∈ (reserve ts s t).2) : e ∈ s.2 ∨ e.namesCycle = false := by
  unfold reserve at h
  cases hblocked : t.blockedOn with
  | none => exact .inl (by simpa [hblocked] using h)
  | some blockedOn =>
    simp only [hblocked] at h
    split_ifs at h with hexists hneeded
    · simp only [List.append_nil, List.mem_append, List.mem_map] at h
      rcases h with h | ⟨prior, -, rfl⟩
      · exact .inl h
      · exact .inr rfl
    · simp only [List.mem_append, List.mem_singleton, List.mem_map] at h
      rcases h with (h | rfl) | ⟨prior, -, rfl⟩
      · exact .inl h
      · exact .inr rfl
      · exact .inr rfl
    · rcases List.mem_append.mp h with h | h
      · exact .inl h
      · exact .inr (List.mem_singleton.mp h ▸ rfl)

theorem namesCycle_of_reservation {e : GraphError} (h : e ∈ reservationErrors ts) : e.namesCycle = false := by
  have hfold : ∀ (us : List Ticket) (s : List (String × String) × List GraphError),
      e ∈ (us.foldl (reserve ts) s).2 → e ∈ s.2 ∨ e.namesCycle = false := by
    intro us
    induction us with
    | nil => exact fun s h => .inl h
    | cons t us ih =>
      intro s h
      rcases ih _ h with h | h
      · exact namesCycle_of_reserve h
      · exact .inr h
  exact (hfold _ _ h).resolve_left List.not_mem_nil

theorem namesCycle_of_successor {e : GraphError} (h : e ∈ successorErrors ts) : e.namesCycle = false := by
  obtain ⟨t, -, ht⟩ := List.mem_filterMap.mp h
  obtain ⟨successor, -, ht⟩ := Option.bind_eq_some_iff.mp ht
  cases hget : ts.get successor with
  | none =>
    rw [hget] at ht
    exact Option.some.inj ht ▸ rfl
  | some s =>
    rw [hget] at ht
    dsimp only at ht
    split_ifs at ht
    exact Option.some.inj ht ▸ rfl

theorem mem_cyclicNeeds {path : List String} :
    .cyclicNeeds path ∈ boardGraphErrors ts ↔ path ∈ (needsSearch ts).cycles := by
  have hreserved : .cyclicNeeds path ∉ reservationErrors ts :=
    fun h => Bool.noConfusion (namesCycle_of_reservation h)
  have hsuccessor : .cyclicNeeds path ∉ successorErrors ts :=
    fun h => Bool.noConfusion (namesCycle_of_successor h)
  simp [boardGraphErrors, needErrors, hreserved, hsuccessor]

theorem mem_cyclicSupersession {path : List String} :
    .cyclicSupersession path ∈ boardGraphErrors ts ↔ path ∈ supersessionCycles ts := by
  have hreserved : .cyclicSupersession path ∉ reservationErrors ts :=
    fun h => Bool.noConfusion (namesCycle_of_reservation h)
  have hsuccessor : .cyclicSupersession path ∉ successorErrors ts :=
    fun h => Bool.noConfusion (namesCycle_of_successor h)
  simp [boardGraphErrors, needErrors, hreserved, hsuccessor]

/-- The walk from a superseded ticket comes to an answer. -/
theorem supersessionWalk_ne_none (start : String) : supersessionWalk ts start ≠ none := by
  have hkeys : ∀ a b, (superseded ts).lookup a = some b → a ∈ (superseded ts).map Prod.fst :=
    fun a b h => List.mem_map_of_mem (f := Prod.fst) (Assoc.mem_of_lookup h)
  apply follow_ne_none hkeys (List.nil_subset _) List.nodup_nil
  simp

theorem isCycle_of_mem_supersessionCycles {path : List String} (h : path ∈ supersessionCycles ts) :
    IsCycle (SupersededBy ts) path := by
  have hiff : Next (fun id => (superseded ts).lookup id) = SupersededBy ts := by
    funext a b
    exact propext next_iff
  obtain ⟨r, -, hr⟩ := List.mem_filterMap.mp h
  rw [← hiff]
  cases hwalk : supersessionWalk ts r.1 with
  | none => simp [hwalk] at hr
  | some answer =>
    rw [hwalk, Option.getD_some] at hr
    subst hr
    exact isCycle_of_follow ⟨.nil, fun b hb => by simp at hb⟩ hwalk

theorem supersessionCycles_of_transGen (h : Relation.TransGen (SupersededBy ts) id id) :
    ∃ path, path ∈ supersessionCycles ts := by
  have hiff : Next (fun id => (superseded ts).lookup id) = SupersededBy ts := by
    funext a b
    exact propext next_iff
  rw [← hiff] at h
  obtain ⟨b, hb, -⟩ := Relation.TransGen.head'_iff.mp h
  have hmem : (id, b) ∈ superseded ts := Assoc.mem_of_lookup hb
  cases hwalk : supersessionWalk ts id with
  | none => exact absurd hwalk (supersessionWalk_ne_none id)
  | some answer =>
    cases answer with
    | none => exact absurd hwalk (follow_ne_end h)
    | some path => exact ⟨path, List.mem_filterMap.mpr ⟨(id, b), hmem, by rw [hwalk, Option.getD_some]⟩⟩

/-- `board_graph_errors` ends, and reports cycles exactly: every search and every walk comes to its end,
there is a cycle among the errors exactly when the relation has one, and every path reported is one. -/
theorem boardGraphErrors_exact (ts : Tickets) :
    ((∀ starts, starts <+: ts.ids →
        (starts.foldl (Search.visit ts.ids (needsOf ts)) Search.start).frames = []) ∧
      ∀ start, supersessionWalk ts start ≠ none) ∧
    ((∃ path, .cyclicNeeds path ∈ boardGraphErrors ts) ↔ ∃ id, Relation.TransGen (Needs ts) id id) ∧
    (∀ path, .cyclicNeeds path ∈ boardGraphErrors ts → IsCycle (Needs ts) path) ∧
    ((∃ path, .cyclicSupersession path ∈ boardGraphErrors ts) ↔
      ∃ id, Relation.TransGen (SupersededBy ts) id id) ∧
    ∀ path, .cyclicSupersession path ∈ boardGraphErrors ts → IsCycle (SupersededBy ts) path := by
  have hneeds : Edge ts.ids (needsOf ts) = Needs ts := by
    funext a b
    exact propext edge_iff
  refine ⟨⟨fun starts hprefix => ?_, supersessionWalk_ne_none⟩, ?_, fun path h => ?_, ?_, fun path h => ?_⟩
  · exact (Search.foldl_spec hprefix.subset rfl (Search.Sound.start _ _)).1
  · rw [← hneeds, ← Search.cycles_ne_nil_iff]
    simp only [mem_cyclicNeeds]
    exact ⟨fun ⟨_, h⟩ => List.ne_nil_of_mem h, List.exists_mem_of_ne_nil _⟩
  · rw [← hneeds]
    exact Search.isCycle_of_mem_cycles (mem_cyclicNeeds.mp h)
  · simp only [mem_cyclicSupersession]
    constructor
    · rintro ⟨path, hpath⟩
      exact (isCycle_of_mem_supersessionCycles hpath).transGen
    · rintro ⟨id, h⟩
      exact supersessionCycles_of_transGen h
  · exact isCycle_of_mem_supersessionCycles (mem_cyclicSupersession.mp h)

end Saipen.Board
