import Saipen.Board.Graph

/-! # The graph of a BOARD without errors

What `board_graph_errors` asks of a BOARD, as a property of its tickets: it reports nothing exactly when the
property holds. The property carries over to the tickets that are left when no ticket that is left refers to
one that is not. -/

namespace Saipen.Board

open Graph

variable (ts : Tickets)

/-- A ticket waits on one that exists and that it needs. -/
def Ticket.WaitsWell (t : Ticket) : Prop := ∀ b, t.blockedOn = some b → b ∈ ts.ids ∧ b ∈ t.needs

/-- Two tickets do not wait on the same one. -/
def Apart (t u : Ticket) : Prop := ∀ b, t.blockedOn = some b → u.blockedOn ≠ some b

/-- The references of a BOARD are in order. -/
structure Ordered : Prop where
  successor : ∀ t ∈ ts.entries, ∀ s, t.successor = some s → ∃ u ∈ ts.entries, u.id = s ∧ u.sectionName = "## DONE"
  supersession : ∀ id, ¬Relation.TransGen (SupersededBy ts) id id
  need : ∀ t ∈ ts.entries, ∀ need ∈ t.needs, need ∈ ts.ids
  waits : ∀ t ∈ ts.entries, t.WaitsWell ts
  parent : ts.entries.Pairwise Apart
  needs : ∀ id, ¬Relation.TransGen (Needs ts) id id

variable {ts} {t u : Ticket} {a b id : String}

/-! ### One kind of error at a time -/

theorem successorErrors_eq_nil_iff : successorErrors ts = [] ↔
    ∀ t ∈ ts.entries, ∀ s, t.successor = some s → ∃ u ∈ ts.entries, u.id = s ∧ u.sectionName = "## DONE" := by
  rw [successorErrors, List.filterMap_eq_nil_iff]
  refine forall₂_congr fun t _ => ?_
  rw [Option.bind_eq_none_iff]
  refine forall₂_congr fun s _ => ?_
  cases hget : ts.get s with
  | none =>
    refine iff_of_false (Option.some_ne_none _) ?_
    rintro ⟨u, hu, hid, -⟩
    rw [Tickets.get_eq_some_iff.mpr ⟨hu, hid⟩] at hget
    cases hget
  | some v =>
    dsimp only
    rw [ite_eq_right_iff]
    constructor
    · intro h
      obtain ⟨hv, hid⟩ := Tickets.get_eq_some_iff.mp hget
      exact ⟨v, hv, hid, by_contra fun hopen => Option.some_ne_none _ (h hopen)⟩
    · rintro ⟨u, hu, hid, hdone⟩ hopen
      rw [Tickets.get_eq_some_iff.mpr ⟨hu, hid⟩] at hget
      exact absurd (Option.some.inj hget ▸ hdone) hopen

theorem supersessionCycles_eq_nil_iff :
    supersessionCycles ts = [] ↔ ∀ id, ¬Relation.TransGen (SupersededBy ts) id id := by
  constructor
  · intro h id hcycle
    obtain ⟨path, hpath⟩ := supersessionCycles_of_transGen hcycle
    rw [h] at hpath
    cases hpath
  · intro h
    refine List.eq_nil_iff_forall_not_mem.mpr fun path hpath => ?_
    obtain ⟨id, hcycle⟩ := (isCycle_of_mem_supersessionCycles hpath).transGen
    exact h id hcycle

theorem needErrors_eq_nil_iff : needErrors ts = [] ↔ ∀ t ∈ ts.entries, ∀ need ∈ t.needs, need ∈ ts.ids := by
  rw [needErrors, List.flatMap_eq_nil_iff]
  refine forall₂_congr fun t _ => ?_
  rw [List.map_eq_nil_iff, List.filter_eq_nil_iff]
  simp only [decide_eq_true_eq, not_not]

theorem needsSearch_eq_nil_iff :
    (needsSearch ts).cycles = [] ↔ ∀ id, ¬Relation.TransGen (Needs ts) id id := by
  have hneeds : Edge ts.ids (needsOf ts) = Needs ts := by
    funext a b
    exact propext edge_iff
  rw [needsSearch, ← not_iff_not, ← ne_eq, Search.cycles_ne_nil_iff, hneeds, not_forall_not]

/-! ### Reservations -/

/-- What one ticket adds to the reservations. -/
theorem reserve_eq_nil_iff {s : List (String × String) × List GraphError} (hnew : ∀ r ∈ s.1, r.2 ≠ t.id) :
    (reserve ts s t).2 = [] ↔
      s.2 = [] ∧ t.WaitsWell ts ∧ ∀ b, t.blockedOn = some b → s.1.lookup b = none := by
  rw [reserve]
  cases hblocked : t.blockedOn with
  | none => simp [Ticket.WaitsWell, hblocked]
  | some b =>
    have hprior : ((s.1.lookup b).filter (· ≠ t.id)).toList = [] ↔ s.1.lookup b = none := by
      cases hlookup : s.1.lookup b with
      | none => simp
      | some prior => simp [hnew _ (Assoc.mem_of_lookup hlookup)]
    have hwaits : t.WaitsWell ts ↔ b ∈ ts.ids ∧ b ∈ t.needs := by
      rw [Ticket.WaitsWell]
      refine ⟨fun h => h b hblocked, fun h b' hb' => ?_⟩
      obtain rfl := Option.some.inj (hblocked.symm.trans hb')
      exact h
    rw [hwaits]
    dsimp only
    by_cases hexists : b ∈ ts.ids
    · rw [if_neg (not_not.mpr hexists)]
      by_cases hneeded : b ∈ t.needs
      · rw [if_pos hneeded, List.append_nil, List.append_eq_nil_iff, List.map_eq_nil_iff, hprior]
        simp [hexists, hneeded]
      · simp [hneeded]
    · simp [hexists]

theorem reserve_reserved (s : List (String × String) × List GraphError) (t : Ticket) :
    (reserve ts s t).1 = s.1 ∨ ∃ b, t.blockedOn = some b ∧ (reserve ts s t).1 = (b, t.id) :: s.1 := by
  rw [reserve]
  cases t.blockedOn with
  | none => exact .inl rfl
  | some b =>
    dsimp only
    split_ifs with hexists
    · exact .inr ⟨b, rfl, rfl⟩
    · exact .inr ⟨b, rfl, rfl⟩
    · exact .inl rfl

/-- A ticket that waits on one that exists reserves it. -/
theorem reserve_lookup {s : List (String × String) × List GraphError} (h : t.WaitsWell ts) (b : String) :
    (reserve ts s t).1.lookup b = none ↔ t.blockedOn ≠ some b ∧ s.1.lookup b = none := by
  rw [reserve]
  cases hblocked : t.blockedOn with
  | none => simp
  | some b' =>
    have hexists := (h b' hblocked).1
    dsimp only
    rw [if_neg (not_not.mpr hexists), Assoc.lookup_cons]
    by_cases hsame : b = b'
    · simp [hsame]
    · simp [hsame, Ne.symm hsame]

/-- The tickets come one after the other, each with an id that has not reserved anything. -/
theorem foldl_reserve_eq_nil_iff (us : List Ticket) : ∀ {s : List (String × String) × List GraphError},
    (us.map Ticket.id).Nodup → (∀ r ∈ s.1, r.2 ∉ us.map Ticket.id) →
    ((us.foldl (reserve ts) s).2 = [] ↔ s.2 = [] ∧ (∀ t ∈ us, t.WaitsWell ts) ∧ us.Pairwise Apart ∧
      ∀ t ∈ us, ∀ b, t.blockedOn = some b → s.1.lookup b = none) := by
  induction us with
  | nil => simp
  | cons t us ih =>
    intro s hnodup hnew
    rw [List.map_cons, List.nodup_cons] at hnodup
    have hnew' : ∀ r ∈ (reserve ts s t).1, r.2 ∉ us.map Ticket.id := by
      intro r hr
      have hold : r ∈ s.1 → r.2 ∉ us.map Ticket.id :=
        fun hmem h => hnew r hmem (List.mem_cons_of_mem _ h)
      rcases @reserve_reserved ts s t with hsame | ⟨b, -, hmore⟩
      · exact hold (hsame ▸ hr)
      · rw [hmore] at hr
        rcases List.mem_cons.mp hr with rfl | hr
        · exact hnodup.1
        · exact hold hr
    have hhead := @reserve_eq_nil_iff ts t s fun r hr heq => hnew r hr (heq ▸ List.mem_cons_self)
    rw [List.foldl_cons, ih hnodup.2 hnew', hhead, List.pairwise_cons, List.forall_mem_cons, List.forall_mem_cons]
    constructor
    · rintro ⟨⟨herrors, hwell, hfree⟩, hwaits, hapart, hreserved⟩
      refine ⟨herrors, ⟨hwell, hwaits⟩, ⟨fun u hu b hb hub => ?_, hapart⟩, hfree, fun u hu b hb => ?_⟩
      · exact ((reserve_lookup hwell b).mp (hreserved u hu b hub)).1 hb
      · exact ((reserve_lookup hwell b).mp (hreserved u hu b hb)).2
    · rintro ⟨herrors, ⟨hwell, hwaits⟩, ⟨happ, hapart⟩, hfree, hreserved⟩
      refine ⟨⟨herrors, hwell, hfree⟩, hwaits, hapart, fun u hu b hb => ?_⟩
      exact (reserve_lookup hwell b).mpr ⟨fun htb => happ u hu b htb hb, hreserved u hu b hb⟩

theorem reservationErrors_eq_nil_iff : reservationErrors ts = [] ↔
    (∀ t ∈ ts.entries, t.WaitsWell ts) ∧ ts.entries.Pairwise Apart := by
  rw [reservationErrors, foldl_reserve_eq_nil_iff ts.entries ts.distinct fun r hr => absurd hr List.not_mem_nil]
  simp

/-- Nothing is reported exactly when the references are in order. -/
theorem graphErrors_eq_nil_iff : boardGraphErrors ts = [] ↔ Ordered ts := by
  rw [boardGraphErrors, List.append_eq_nil_iff, List.append_eq_nil_iff, List.append_eq_nil_iff,
    List.append_eq_nil_iff, List.map_eq_nil_iff, List.map_eq_nil_iff, successorErrors_eq_nil_iff,
    supersessionCycles_eq_nil_iff, needErrors_eq_nil_iff, reservationErrors_eq_nil_iff, needsSearch_eq_nil_iff]
  constructor
  · rintro ⟨⟨⟨⟨hsuccessor, hsupersession⟩, hneed⟩, hwaits, hparent⟩, hneeds⟩
    exact ⟨hsuccessor, hsupersession, hneed, hwaits, hparent, hneeds⟩
  · intro h
    exact ⟨⟨⟨⟨h.successor, h.supersession⟩, h.need⟩, h.waits, h.parent⟩, h.needs⟩

/-! ### Fewer tickets -/

/-- The tickets that are left without those of some ids. -/
def Tickets.without (ts : Tickets) (P : List String) : Tickets :=
  ⟨ts.entries.filter fun t => t.id ∉ P, (List.filter_sublist.map _).nodup ts.distinct⟩

variable {P : List String}

theorem Tickets.mem_without : t ∈ (ts.without P).entries ↔ t ∈ ts.entries ∧ t.id ∉ P := by
  rw [Tickets.without, List.mem_filter, decide_eq_true_eq]

theorem Tickets.mem_ids_without : id ∈ (ts.without P).ids ↔ id ∈ ts.ids ∧ id ∉ P := by
  simp only [Tickets.ids, List.mem_map, Tickets.mem_without]
  constructor
  · rintro ⟨t, ⟨ht, hleft⟩, rfl⟩
    exact ⟨⟨t, ht, rfl⟩, hleft⟩
  · rintro ⟨⟨t, ht, rfl⟩, hleft⟩
    exact ⟨t, ⟨ht, hleft⟩, rfl⟩

/-- The references stay in order when no ticket that is left refers to one that is not. -/
theorem Ordered.without (h : Ordered ts)
    (hneeds : ∀ t ∈ ts.entries, t.id ∉ P → ∀ need ∈ t.needs, need ∉ P)
    (hsuccessor : ∀ t ∈ ts.entries, t.id ∉ P → ∀ s, t.successor = some s → s ∉ P) : Ordered (ts.without P) where
  successor t ht s hs := by
    obtain ⟨hmem, hleft⟩ := Tickets.mem_without.mp ht
    obtain ⟨u, hu, rfl, hdone⟩ := h.successor t hmem s hs
    exact ⟨u, Tickets.mem_without.mpr ⟨hu, hsuccessor t hmem hleft _ hs⟩, rfl, hdone⟩
  supersession id hcycle := by
    have hmono : ∀ a b, SupersededBy (ts.without P) a b → SupersededBy ts a b := by
      rintro a b ⟨t, ht, hta, htb⟩
      exact ⟨t, (Tickets.mem_without.mp ht).1, hta, htb⟩
    exact h.supersession id (Relation.TransGen.mono hmono _ _ hcycle)
  need t ht need hneed := by
    obtain ⟨hmem, hleft⟩ := Tickets.mem_without.mp ht
    exact Tickets.mem_ids_without.mpr ⟨h.need t hmem need hneed, hneeds t hmem hleft need hneed⟩
  waits t ht b hb := by
    obtain ⟨hmem, hleft⟩ := Tickets.mem_without.mp ht
    obtain ⟨hexists, hneeded⟩ := h.waits t hmem b hb
    exact ⟨Tickets.mem_ids_without.mpr ⟨hexists, hneeds t hmem hleft b hneeded⟩, hneeded⟩
  parent := h.parent.sublist List.filter_sublist
  needs id hcycle := by
    have hmono : ∀ a b, Needs (ts.without P) a b → Needs ts a b := by
      rintro a b ⟨t, ht, hta, hneed, hb⟩
      exact ⟨t, (Tickets.mem_without.mp ht).1, hta, hneed, (Tickets.mem_ids_without.mp hb).1⟩
    exact h.needs id (Relation.TransGen.mono hmono _ _ hcycle)

end Saipen.Board
