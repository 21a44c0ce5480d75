import Saipen.Board.Graph
import Saipen.Text.Case
import Saipen.Text.Stamp

/-! # The Pick Rule

`pick_next_work` names the ticket to work on next: the child a BLOCKED parent waits for, else the topmost
workable ticket a user asked for, else the topmost workable one. A claim on a ticket outside `## DOING` is
history and stops nobody, unless its owner and its time do not make a pair. -/

namespace Saipen.Board

open Text

/-! ### Claims -/

/-- `CLAIM_STATUS`. -/
inductive ClaimStatus where
  | unclaimed
  | self
  | foreignLive
  | foreignStale
  | invalid
deriving DecidableEq

/-- `CLAIM_LIVENESS_WINDOW`, in microseconds. -/
def claimLivenessWindow : Int := 15 * 60 * 1000000

/-- `claim_status`, for an agent at an instant. -/
def claimStatus (agent : Option String) (now : Int) (t : Ticket) : ClaimStatus :=
  let owner := t.field "owner"
  let claimTime := t.field "claim_time"
  if (owner != "") != (claimTime != "") then .invalid
  else if owner = "" then .unclaimed
  else
    match isoUtcSortKey claimTime with
    | none => .invalid
    | some stamp =>
        if agent.getD "" ≠ "" ∧ owner = agent.getD "" then .self
        else if claimLivenessWindow ≤ now - stamp then .foreignStale
        else .foreignLive

/-! ### Workable tickets -/

variable (ts : Tickets) (agent : Option String) (now : Int)

/-- `ticket_has_blocker`. -/
def Ticket.hasBlocker (t : Ticket) : Bool := (t.fields.lookup "blocker").isSome

/-- `ticket_is_workable`. -/
def ticketIsWorkable (t : Ticket) : Bool :=
  let status := claimStatus agent now t
  let claimBlocks := status == .invalid || (t.sectionName == "## DOING" && status == .foreignLive)
  t.sectionName == "## TODO" && t.checkbox == ' ' && !t.hasBlocker && !claimBlocks &&
    t.needs.all fun need => (ts.get need).any fun n => n.sectionName == "## DONE"

/-- `is_user_explicit`. -/
def isUserExplicit (t : Ticket) : Bool :=
  lower (t.field "user_explicit") == "true" &&
    (t.field "request_witness" == "" || t.field "request_witness" == "operator_carrier")

/-- `workable_tickets`. -/
def workableTickets : List Ticket := ts.entries.filter (ticketIsWorkable ts agent now)

/-- The workable child a BLOCKED ticket waits for. -/
def reservedBy (parent : Ticket) : Option Ticket :=
  if parent.sectionName ≠ "## BLOCKED" then none
  else
    (ts.get (parent.field "blocked_on")).filter fun child =>
      parent.field "blocked_on" ∈ parent.needs ∧ ticketIsWorkable ts agent now child

/-- The children of `reserved_continuation_child`. -/
def reservedChildren : List Ticket := ts.entries.filterMap (reservedBy ts agent now)

/-- `reserved_continuation_child`. -/
def reservedContinuationChild : Option Ticket :=
  match reservedChildren ts agent now with
  | [child] => some child
  | _ => none

/-- `pick_next_work`. -/
def pickNextWork : Option String × String :=
  match reservedContinuationChild ts agent now with
  | some child => (some child.id, "dependency-continuation")
  | none =>
      match (workableTickets ts agent now).find? isUserExplicit with
      | some t => (some t.id, "start-user-explicit")
      | none =>
          match workableTickets ts agent now with
          | t :: _ => (some t.id, "start")
          | [] => (none, "none")

/-! ### What is workable, and what comes first -/

/-- A ticket that can be worked on: open, not blocked, its claim pair in order, and all it needs done. -/
structure Workable (t : Ticket) : Prop where
  todo : t.sectionName = "## TODO"
  unchecked : t.checkbox = ' '
  unblocked : t.hasBlocker = false
  claim : claimStatus agent now t ≠ .invalid
  needs : ∀ need ∈ t.needs, ∃ n ∈ ts.entries, n.id = need ∧ n.sectionName = "## DONE"

/-- The first ticket of the BOARD with a property. -/
def Topmost (P : Ticket → Prop) (t : Ticket) : Prop :=
  ∃ above below, ts.entries = above ++ t :: below ∧ P t ∧ ∀ u ∈ above, ¬P u

/-- A child is reserved by a BLOCKED parent that needs it and waits on it. -/
def Reserves (parent child : Ticket) : Prop :=
  parent.sectionName = "## BLOCKED" ∧ parent.field "blocked_on" = child.id ∧ child.id ∈ parent.needs ∧
    child ∈ ts.entries ∧ Workable ts agent now child

/-- The parents with a workable child: exactly one of them, and it reserves this child. -/
def OnlyReservation (child : Ticket) : Prop :=
  ∃ above parent below, ts.entries = above ++ parent :: below ∧ Reserves ts agent now parent child ∧
    ∀ other ∈ above ++ below, ∀ c, ¬Reserves ts agent now other c

/-- What the Pick Rule says. -/
inductive PickRule : Option String × String → Prop where
  | reserved (child : Ticket) (h : OnlyReservation ts agent now child) :
      PickRule (some child.id, "dependency-continuation")
  | userExplicit (t : Ticket) (hnone : ∀ child, ¬OnlyReservation ts agent now child)
      (h : Topmost ts (fun u => Workable ts agent now u ∧ isUserExplicit u = true) t) :
      PickRule (some t.id, "start-user-explicit")
  | topmost (t : Ticket) (hnone : ∀ child, ¬OnlyReservation ts agent now child)
      (hordinary : ∀ u ∈ ts.entries, Workable ts agent now u → isUserExplicit u = false)
      (h : Topmost ts (Workable ts agent now) t) : PickRule (some t.id, "start")
  | idle (h : ∀ u ∈ ts.entries, ¬Workable ts agent now u) : PickRule (none, "none")

variable {ts agent now} {t : Ticket}

theorem ticketIsWorkable_iff : ticketIsWorkable ts agent now t = true ↔ Workable ts agent now t := by
  have hneed : ∀ need, (ts.get need).any (fun n => n.sectionName == "## DONE") = true ↔
      ∃ n ∈ ts.entries, n.id = need ∧ n.sectionName = "## DONE" := by
    intro need
    constructor
    · intro h
      cases hget : ts.get need with
      | none => simp [hget] at h
      | some n =>
        obtain ⟨hmem, hid⟩ := Tickets.get_eq_some_iff.mp hget
        exact ⟨n, hmem, hid, by simpa [hget] using h⟩
    · rintro ⟨n, hmem, hid, hdone⟩
      rw [Tickets.get_eq_some_iff.mpr ⟨hmem, hid⟩]
      simpa using hdone
  constructor
  · intro h
    simp only [ticketIsWorkable, Bool.and_eq_true, Bool.not_eq_true', List.all_eq_true, hneed, beq_iff_eq,
      Bool.or_eq_false_iff, beq_eq_false_iff_ne] at h
    exact ⟨h.1.1.1.1, h.1.1.1.2, h.1.1.2, h.1.2.1, h.2⟩
  · intro h
    have hclaim : (claimStatus agent now t == .invalid) = false := beq_eq_false_iff_ne.mpr h.claim
    simp only [ticketIsWorkable, h.todo, h.unchecked, h.unblocked, hclaim, Bool.and_eq_true, List.all_eq_true]
    exact ⟨by simp, fun need hmem => (hneed need).mpr (h.needs need hmem)⟩

theorem reservedBy_eq_some_iff {parent child : Ticket} :
    reservedBy ts agent now parent = some child ↔ Reserves ts agent now parent child := by
  unfold reservedBy Reserves
  rw [← ticketIsWorkable_iff]
  split_ifs with hblocked
  · simp only [false_iff]
    exact fun h => hblocked h.1
  · rw [Option.filter_eq_some_iff, Tickets.get_eq_some_iff, decide_eq_true_iff]
    constructor
    · rintro ⟨⟨hmem, hid⟩, hneed, hwork⟩
      exact ⟨not_not.mp hblocked, hid.symm, hid ▸ hneed, hmem, hwork⟩
    · rintro ⟨-, hid, hneed, hmem, hwork⟩
      exact ⟨⟨hmem, hid.symm⟩, hid ▸ hneed, hwork⟩

/-- A list has one image where one of its members has one and no other. -/
theorem filterMap_eq_singleton_iff {α β : Type} {f : α → Option β} {l : List α} {b : β} :
    l.filterMap f = [b] ↔
      ∃ above a below, l = above ++ a :: below ∧ f a = some b ∧ ∀ x ∈ above ++ below, f x = none := by
  constructor
  · intro h
    induction l with
    | nil => cases h
    | cons c l ih =>
      cases hc : f c with
      | none =>
        rw [List.filterMap_cons_none hc] at h
        obtain ⟨above, a, below, rfl, ha, hrest⟩ := ih h
        refine ⟨c :: above, a, below, rfl, ha, fun x hx => ?_⟩
        rcases List.mem_cons.mp hx with rfl | hx
        · exact hc
        · exact hrest x hx
      | some d =>
        rw [List.filterMap_cons_some hc, List.cons.injEq, List.filterMap_eq_nil_iff] at h
        exact ⟨[], c, l, rfl, h.1 ▸ hc, fun x hx => h.2 x hx⟩
  · rintro ⟨above, a, below, rfl, ha, hrest⟩
    have habove : above.filterMap f = [] :=
      List.filterMap_eq_nil_iff.mpr fun x hx => hrest x (List.mem_append_left _ hx)
    have hbelow : below.filterMap f = [] :=
      List.filterMap_eq_nil_iff.mpr fun x hx => hrest x (List.mem_append_right _ hx)
    rw [List.filterMap_append, habove, List.filterMap_cons_some ha, hbelow, List.nil_append]

theorem onlyReservation_iff {child : Ticket} :
    OnlyReservation ts agent now child ↔ reservedContinuationChild ts agent now = some child := by
  have hsingle : reservedContinuationChild ts agent now = some child ↔
      reservedChildren ts agent now = [child] := by
    unfold reservedContinuationChild
    split
    · next c hc => simp [hc]
    · next hc => simpa using fun h => hc child h
  rw [hsingle, reservedChildren, filterMap_eq_singleton_iff]
  unfold OnlyReservation
  simp only [reservedBy_eq_some_iff, Option.eq_none_iff_forall_ne_some, ne_eq]

theorem topmost_of_find {P : Ticket → Prop} {p : Ticket → Bool} (hp : ∀ u, p u = true ↔ P u)
    (h : ts.entries.find? p = some t) : Topmost ts P t := by
  obtain ⟨ht, above, below, hsplit, habove⟩ := List.find?_eq_some_iff_append.mp h
  refine ⟨above, below, hsplit, (hp t).mp ht, fun u hu hPu => ?_⟩
  have := habove u hu
  rw [(hp u).mpr hPu] at this
  cases this

/-- `pick_next_work` follows the Pick Rule. -/
theorem pickNextWork_rule (ts : Tickets) (agent : Option String) (now : Int) :
    PickRule ts agent now (pickNextWork ts agent now) := by
  unfold pickNextWork
  cases hreserved : reservedContinuationChild ts agent now with
  | some child => exact .reserved child (onlyReservation_iff.mpr hreserved)
  | none =>
    have hnone : ∀ child, ¬OnlyReservation ts agent now child := by
      intro child h
      rw [onlyReservation_iff, hreserved] at h
      cases h
    dsimp only
    cases hexplicit : (workableTickets ts agent now).find? isUserExplicit with
    | some t =>
      refine .userExplicit t hnone (topmost_of_find (fun u => ?_) (List.find?_filter ▸ hexplicit))
      rw [decide_eq_true_iff, ticketIsWorkable_iff]
    | none =>
      dsimp only
      cases hworkable : workableTickets ts agent now with
      | nil =>
        refine .idle fun u hu hwork => ?_
        have := List.filter_eq_nil_iff.mp hworkable u hu
        exact this (ticketIsWorkable_iff.mpr hwork)
      | cons t rest =>
        refine .topmost t hnone (fun u hu hwork => ?_) ?_
        · have hmem : u ∈ workableTickets ts agent now :=
            List.mem_filter.mpr ⟨hu, ticketIsWorkable_iff.mpr hwork⟩
          simpa using List.find?_eq_none.mp hexplicit u hmem
        · have hhead : ts.entries.find? (ticketIsWorkable ts agent now) = some t := by
            rw [← List.head?_filter]
            exact congrArg List.head? hworkable
          exact topmost_of_find (fun _ => ticketIsWorkable_iff) hhead

/-- Whatever the rule names is workable. -/
theorem PickRule.workable {pick : Option String × String} (h : PickRule ts agent now pick) {id : String}
    (hid : pick.1 = some id) : ∃ t ∈ ts.entries, t.id = id ∧ Workable ts agent now t := by
  cases h with
  | reserved child h =>
    obtain ⟨-, parent, -, -, ⟨-, -, -, hmem, hwork⟩, -⟩ := h
    exact ⟨child, hmem, Option.some.inj hid, hwork⟩
  | userExplicit t hnone h =>
    obtain ⟨above, below, hsplit, ⟨hwork, -⟩, -⟩ := h
    exact ⟨t, by rw [hsplit]; simp, Option.some.inj hid, hwork⟩
  | topmost t hnone hordinary h =>
    obtain ⟨above, below, hsplit, hwork, -⟩ := h
    exact ⟨t, by rw [hsplit]; simp, Option.some.inj hid, hwork⟩
  | idle h => cases hid

/-- The rule names no ticket only where none is workable. -/
theorem PickRule.idle_of_none {pick : Option String × String} (h : PickRule ts agent now pick)
    (hnone : pick.1 = none) : ∀ u ∈ ts.entries, ¬Workable ts agent now u := by
  cases h with
  | idle h => exact h
  | reserved | userExplicit | topmost => cases hnone

/-- Work picking is sound, complete and in the order of the Pick Rule. -/
theorem pickNextWork_spec (ts : Tickets) (agent : Option String) (now : Int) :
    (∀ id, (pickNextWork ts agent now).1 = some id →
      ∃ t ∈ ts.entries, t.id = id ∧ Workable ts agent now t) ∧
    ((pickNextWork ts agent now).1 = none ↔ ∀ u ∈ ts.entries, ¬Workable ts agent now u) ∧
    PickRule ts agent now (pickNextWork ts agent now) := by
  have hrule := pickNextWork_rule ts agent now
  refine ⟨fun id => hrule.workable, ⟨hrule.idle_of_none, fun hidle => ?_⟩, hrule⟩
  cases hpick : (pickNextWork ts agent now).1 with
  | none => rfl
  | some id =>
    obtain ⟨t, hmem, -, hwork⟩ := hrule.workable hpick
    exact absurd hwork (hidle t hmem)

/-- A ticket of a small BOARD. -/
def sampleTicket (id sectionName : String) (needs : List String) (fields : List (String × String)) : Ticket :=
  { id, sectionName, checkbox := ' ', needs, fields, raw := "", description := "" }

/-- A ticket another agent claimed five minutes ago. -/
def claimedBoard : Tickets :=
  ⟨[sampleTicket "T-1" "## TODO" [] [("owner", "other"), ("claim_time", "2026-10-13T08:00:00Z")]], by decide⟩

/-- Two BLOCKED parents, each with a workable child of its own, and another ticket above them. -/
def twoReservations : Tickets :=
  ⟨[sampleTicket "T-1" "## TODO" [] [], sampleTicket "T-2" "## TODO" [] [], sampleTicket "T-3" "## TODO" [] [],
    sampleTicket "T-4" "## BLOCKED" ["T-2"] [("blocker", "waits"), ("blocked_on", "T-2")],
    sampleTicket "T-5" "## BLOCKED" ["T-3"] [("blocker", "waits"), ("blocked_on", "T-3")]], by decide⟩

/-- A claim of another on a ticket in `## TODO` does not keep it from being picked, and two reservations
are none. -/
theorem claims_and_two_reservations_pass :
    (pickNextWork claimedBoard (some "me") ((isoUtcSortKey "2026-10-13T08:05:00Z").getD 0) =
        (some "T-1", "start") ∧
      ∀ t ∈ claimedBoard.entries,
        claimStatus (some "me") ((isoUtcSortKey "2026-10-13T08:05:00Z").getD 0) t = .foreignLive) ∧
    pickNextWork twoReservations none 0 = (some "T-1", "start") ∧
      (reservedChildren twoReservations none 0).map Ticket.id = ["T-2", "T-3"] := by
  decide +kernel

end Saipen.Board
