import Saipen.Operations.Gate
import Saipen.Operations.GoalRuns

/-! # STATE and LOG agree on the goal counters

Every operation but a checkpoint moves the counters of STATE as it moves the count over the LOG. A
checkpoint keeps them together exactly when the text it writes does not move the count. -/

namespace Saipen.Operations

open Text Board Checks

variable {isWordChar : Char → Bool} {w : World}

/-! ### What messages mean -/

/-- The LOG keeps of every message what it means for the counters. -/
def World.Faithful (isWordChar : Char → Bool) (w : World) : Prop :=
  ∀ e : Event, meaning isWordChar (w.recorded e) = meaning isWordChar e.text

/-- What a message means. -/
def Message.effect (isWordChar : Char → Bool) (m : Message) : Effect :=
  if m.taxonomy = "DEC" then meaning isWordChar m.text else .nothing

theorem effect_event (hw : w.Faithful isWordChar) (tail : Option Nat) (taxonomy : String)
    (ticket : Option String) (agent text : String) :
    effect isWordChar (w.event tail taxonomy ticket agent text) =
      Message.effect isWordChar ⟨taxonomy, ticket, text⟩ := by
  have htext : meaning isWordChar (w.event tail taxonomy ticket agent text).text = meaning isWordChar text := hw _
  rw [effect, htext]
  rfl

theorem effects_events (hw : w.Faithful isWordChar) (agent : String) (ms : List Message) :
    ∀ tail : Option Nat, (w.events agent tail ms).map (effect isWordChar) =
      ms.map (Message.effect isWordChar) := by
  induction ms with
  | nil => exact fun _ => rfl
  | cons m ms ih =>
    intro tail
    rw [World.events, List.map_cons, List.map_cons, effect_event hw, ih]

theorem effect_of_head {m : Message} {c : Char} (h : m.text.toList.head? = some c)
    (hspace : isSpace c = false) (hletter : c ≠ 'g') : m.effect isWordChar = .nothing := by
  unfold Message.effect
  split
  · exact meaning_of_head h hspace hletter
  · rfl

/-- Messages that mean nothing. -/
def Silent (isWordChar : Char → Bool) (ms : List Message) : Prop :=
  ∀ m ∈ ms, m.effect isWordChar = .nothing

theorem silent_claim (seat agent ticket detail : String) (inPlace : Bool) :
    Silent isWordChar [claimMessage seat agent ticket detail inPlace] := by
  intro m hm
  obtain rfl := List.mem_singleton.mp hm
  by_cases h : (inPlace && seat ≠ "" && seat ≠ agent) = true
  · refine effect_of_head (c := 'a') ?_ (by decide) (by decide)
    rw [claimMessage, if_pos h]
    simp only [String.toList_append]
    rfl
  · refine effect_of_head (c := 'c') ?_ (by decide) (by decide)
    rw [claimMessage, if_neg h]
    simp only [String.toList_append]
    rfl

theorem silent_finish (ticket previous publication : String) (ran : Option String)
    (parent : Option (String × String)) :
    Silent isWordChar (finishMessages ticket previous publication ran parent) := by
  intro m hm
  rw [finishMessages, List.mem_append, List.mem_cons, Option.mem_toList, Option.mem_toList] at hm
  rcases hm with hm | rfl | hm
  · obtain ⟨text, -, rfl⟩ := Option.mem_map.mp hm
    exact if_neg (by decide : ¬ "RUN" = "DEC")
  · refine effect_of_head (c := 't') ?_ (by decide) (by decide)
    simp only [String.toList_append]
    rfl
  · obtain ⟨p, -, rfl⟩ := Option.mem_map.mp hm
    refine effect_of_head (c := 'b') ?_ (by decide) (by decide)
    simp only [String.toList_append]
    rfl

theorem silent_reconcile (adopted attested : List String) (summary : String) :
    Silent isWordChar (reconcileMessages adopted attested summary) := by
  intro m hm
  rw [reconcileMessages, List.mem_append, List.mem_append, List.mem_map, List.mem_map,
    List.mem_singleton] at hm
  rcases hm with (⟨t, -, rfl⟩ | ⟨t, -, rfl⟩) | rfl
  · refine effect_of_head (c := 'L') ?_ (by decide) (by decide)
    simp only [String.toList_append]
    rfl
  · refine effect_of_head (c := 'l') ?_ (by decide) (by decide)
    simp only [String.toList_append]
    rfl
  · refine effect_of_head (c := 'r') ?_ (by decide) (by decide)
    simp only [String.toList_append]
    rfl

theorem opens_append {opening : List Char} {s t : String} (h : opening <+: s.toList) :
    opening <+: (s ++ t).toList := by
  rw [String.toList_append]
  exact h.trans (List.prefix_append _ _)

/-- A goal checkpoint is a marker. -/
theorem meaning_checkpointText (hword : isWordChar ' ' = false) (waves tickets : Nat) (source : String) :
    meaning isWordChar (checkpointText waves tickets source) = .marker := by
  have hmem : "goal checkpoint" ∈ markerWords := by simp [markerWords]
  have hopening : "goal checkpoint".toList ++ [' '] <+: "goal checkpoint -- goal_waves ".toList := by
    decide +kernel
  refine meaning_of_marker hword hmem ?_
  unfold checkpointText
  repeat apply opens_append
  exact hopening

theorem silent_added (ticket : String) :
    Message.effect isWordChar ⟨"DEC", some ticket, "ticket added via SAIOPS -- goal entry"⟩ = .nothing := by
  have hhead : "ticket added via SAIOPS -- goal entry".toList.head? = some 't' := by decide
  exact effect_of_head hhead (by decide) (by decide)

/-- A goal entry counts one wave from a new start. -/
theorem effects_goalEntry (hword : isWordChar ' ' = false) (objective : String)
    (active : Option String) (plan : List String) (n : Counts) :
    ((goalEntryMessages objective active plan).map (Message.effect isWordChar)).foldl Effect.apply n =
      { waves := 1, tickets := 0 } := by
  have hpivot : meaning isWordChar ("goal pivot -- " ++ objective ++
      (active.map fun t => " (active " ++ t ++ " checkpointed to TODO)").getD "") = .marker := by
    have hmem : "goal pivot" ∈ markerWords := by simp [markerWords]
    have hopening : "goal pivot".toList ++ [' '] <+: "goal pivot -- ".toList := by decide
    exact meaning_of_marker hword hmem (opens_append (opens_append hopening))
  have hplan : ∀ es : List Effect, (∀ e ∈ es, e = .nothing) → ∀ n : Counts, es.foldl Effect.apply n = n := by
    intro es hes n
    induction es with
    | nil => rfl
    | cons e es ih =>
      rw [List.foldl_cons, hes e List.mem_cons_self]
      exact ih fun f hf => hes f (List.mem_cons_of_mem _ hf)
  rw [goalEntryMessages, List.map_cons, List.map_cons, List.foldl_cons, List.foldl_cons]
  rw [Message.effect, if_pos rfl, hpivot, Message.effect, if_pos rfl, meaning_incrementText .waves Nat.one_pos]
  rw [hplan]
  · rfl
  · intro e he
    rw [List.map_map, List.mem_map] at he
    obtain ⟨t, -, rfl⟩ := he
    rw [Function.comp_apply]
    exact silent_added t

/-! ### Agreement -/

/-- Under a goal STATE counts what the LOG counts. -/
def Agrees (isWordChar : Char → Bool) (c : Checkpoint) : Prop :=
  c.state.executionIntent = some "goal" →
    ∀ k, c.state.counter k = some ((derivedGoalCounters isWordChar c.events).get k)

theorem count_eq (s : State) (k : Counter) : s.count k = (s.counter k).getD 0 := by cases k <;> rfl

theorem counter_setCount (s : State) (k l : Counter) (n : Nat) :
    (s.setCount k n).counter l = if k = l then some n else s.counter l := by
  cases k <;> cases l <;> rfl

/-- Silent messages move neither side. -/
theorem agrees_commit (hw : w.Faithful isWordChar) {agent utc : String} {p : Placement}
    {ms : List Message} (hms : Silent isWordChar ms) {s : State} {c : Checkpoint}
    (hintent : s.executionIntent = c.state.executionIntent)
    (hcount : c.state.executionIntent = some "goal" → ∀ k, s.counter k = c.state.counter k)
    (h : Agrees isWordChar c) : Agrees isWordChar (w.commit agent utc p ms s c) := by
  intro hgoal k
  have hgoal : c.state.executionIntent = some "goal" := hintent ▸ hgoal
  have hsilent : ∀ e ∈ w.events agent c.tail ms, effect isWordChar e = .nothing := by
    intro e he
    have hmem : effect isWordChar e ∈ ms.map (Message.effect isWordChar) :=
      effects_events hw agent ms c.tail ▸ List.mem_map_of_mem he
    obtain ⟨m, hm, heq⟩ := List.mem_map.mp hmem
    rw [← heq, hms m hm]
  have hevents : (w.commit agent utc p ms s c).events = c.events ++ w.events agent c.tail ms := rfl
  have hcounter : (w.commit agent utc p ms s c).state.counter k = s.counter k := by cases k <;> rfl
  rw [hevents, derived_append_nothing _ hsilent, hcounter, hcount hgoal, h hgoal]

/-- An agreeing state has nothing to repair. -/
theorem stateCounterRepairs_of_agrees {c : Checkpoint} (h : Agrees isWordChar c) :
    stateCounterRepairs isWordChar c = [] := by
  unfold stateCounterRepairs
  split
  case isTrue => rfl
  case isFalse hgoal =>
    rw [List.filterMap_eq_nil_iff]
    intro k _
    unfold counterRepair
    rw [h (not_not.mp hgoal) k]
    exact if_pos rfl

/-! ### Transitions -/

section Moves

variable {r : Request} {c c' : Checkpoint} {destination : String} {subject : Option String}
  {blocker : String}

/-- A move that is not counted adds one event, which means nothing. -/
theorem agrees_uncounted (hmove : countedMove c.state destination = none)
    (h : Agrees isWordChar c) :
    Agrees isWordChar (w.transitioned destination subject blocker r c) := by
  have hevents : ∃ text, (w.transitioned destination subject blocker r c).events =
      c.events ++ [w.event c.tail "RUN" subject r.agent text] := by
    unfold World.transitioned
    dsimp only
    rw [hmove]
    exact ⟨_, rfl⟩
  have hstate : (w.transitioned destination subject blocker r c).state.executionIntent =
      c.state.executionIntent ∧
      ∀ k, (w.transitioned destination subject blocker r c).state.counter k = c.state.counter k := by
    unfold World.transitioned
    dsimp only
    rw [hmove]
    dsimp only
    split <;> exact ⟨rfl, fun k => by cases k <;> rfl⟩
  intro hgoal k
  rw [hstate.1] at hgoal
  obtain ⟨text, hevents⟩ := hevents
  rw [hstate.2, h hgoal, hevents, derived_append_nothing]
  intro e he
  obtain rfl := List.mem_singleton.mp he
  have hrun : (w.event c.tail "RUN" subject r.agent text).taxonomy = "RUN" := rfl
  exact effect_of_taxonomy (by rw [hrun]; decide)

/-- What counting does: one more, and at the cap the pause of the valve or a new start. -/
theorem bump_cases (w : World) (k : Counter) (agent utc : String) (s moved : State)
    (events : List Event) :
    ∃ tail next, (w.bump k agent utc s moved events).2 = events ++
        w.event tail "DEC" none agent (incrementText k (s.count k) (s.count k + 1)) :: next ∧
      (w.bump k agent utc s moved events).1.executionIntent = moved.executionIntent ∧
      ((next = [] ∧
          (∀ l, (w.bump k agent utc s moved events).1.counter l =
            if k = l then some (s.count k + 1) else moved.counter l) ∧
          (w.bump k agent utc s moved events).1.nextAction =
            if s.count k + 1 < k.cap then moved.nextAction
            else valveWait ((s.setCount k (s.count k + 1)).count .waves)
              ((s.setCount k (s.count k + 1)).count .tickets)) ∨
        (k.cap ≤ s.count k + 1 ∧
          (∀ l, (w.bump k agent utc s moved events).1.counter l = some 0) ∧
          ∃ tail waves tickets source,
            next = [w.event tail "DEC" none agent (checkpointText waves tickets source)])) := by
  unfold World.bump
  dsimp only
  split
  case isTrue hcap =>
    refine ⟨_, [], rfl, ?_, .inl ⟨rfl, fun l => ?_, ?_⟩⟩
    · cases k <;> rfl
    · cases k <;> cases l <;> rfl
    · cases k <;> rfl
  case isFalse hcap =>
    split
    case h_1 =>
      refine ⟨_, [], rfl, ?_, .inl ⟨rfl, fun l => ?_, ?_⟩⟩
      · cases k <;> rfl
      · cases k <;> cases l <;> rfl
      · rfl
    case h_2 source hsource =>
      refine ⟨_, _, rfl, ?_, .inr ⟨Nat.not_lt.mp hcap, fun l => ?_, _, _, _, source, rfl⟩⟩
      · cases k <;> rfl
      · cases l <;> rfl

theorem countedMove_eq_some {s : State} {k : Counter} (h : countedMove s destination = some k) :
    s.executionIntent = some "goal" ∧ destination ≠ "DONE" := by
  unfold countedMove at h
  split at h
  case isTrue => cases h
  case isFalse hgoal =>
    refine ⟨not_not.mp hgoal, ?_⟩
    rintro rfl
    rw [if_neg (fun h => absurd h.1 (by decide)), if_neg (fun h => absurd h.1 (by decide))] at h
    cases h

/-- A counted move is the move, and the count behind it. -/
theorem transitioned_counted {k : Counter} (hmove : countedMove c.state destination = some k) (w : World)
    (subject : Option String) (blocker : String) (r : Request) :
    ∃ moved : State, ∃ board, ∃ move : Event, (∀ l, moved.counter l = c.state.counter l) ∧
      moved.executionIntent = c.state.executionIntent ∧
      moved.nextAction = actionAfter destination subject c.state ∧ move.taxonomy = "RUN" ∧
      w.transitioned destination subject blocker r c =
        ⟨(w.bump k r.agent r.utc c.state moved (c.events ++ [move])).1, board,
          (w.bump k r.agent r.utc c.state moved (c.events ++ [move])).2⟩ := by
  obtain ⟨-, hdone⟩ := countedMove_eq_some hmove
  unfold World.transitioned
  dsimp only
  rw [hmove]
  dsimp only
  rw [if_neg hdone]
  refine ⟨_, _, _, ?_, ?_, ?_, ?_, rfl⟩
  · intro l
    cases l <;> rfl
  · rfl
  · rfl
  · rfl

/-- What a counted move leaves, from an agreeing state: one more than the LOG counts, or the pause of
the valve or a new start as soon as the cap is reached. -/
theorem counted_move (hword : isWordChar ' ' = false) (hw : w.Faithful isWordChar) {k : Counter}
    (hmove : countedMove c.state destination = some k) (h : Agrees isWordChar c)
    (subject : Option String) (blocker : String) (r : Request) :
    let n := (derivedGoalCounters isWordChar c.events).get k + 1
    let d := w.transitioned destination subject blocker r c
    Agrees isWordChar d ∧
      if n < k.cap then d.state.counter k = some n ∧ d.state.nextAction = actionAfter destination subject c.state
      else
        (∀ l, d.state.counter l = some 0) ∨
          (d.state.counter k = some n ∧
            d.state.nextAction = valveWait (d.state.count .waves) (d.state.count .tickets)) := by
  obtain ⟨hgoal, -⟩ := countedMove_eq_some hmove
  obtain ⟨moved, board, move, hcounters, hintent, haction, hrun, hd⟩ :=
    transitioned_counted hmove w subject blocker r
  obtain ⟨tail, next, hevents, hbumped, hcases⟩ :=
    bump_cases w k r.agent r.utc c.state moved (c.events ++ [move])
  have hcount : c.state.count k = (derivedGoalCounters isWordChar c.events).get k := by
    rw [count_eq, h hgoal, Option.getD_some]
  have hstart : derivedGoalCounters isWordChar (c.events ++ [move]) =
      derivedGoalCounters isWordChar c.events := by
    refine derived_append_nothing _ fun e he => ?_
    rw [List.mem_singleton.mp he]
    exact effect_of_taxonomy (by rw [hrun]; decide)
  have hone : effect isWordChar (w.event tail "DEC" none r.agent
      (incrementText k (c.state.count k) (c.state.count k + 1))) = .increment k := by
    rw [effect_event hw, Message.effect, if_pos rfl, meaning_incrementText k (Nat.lt_succ_self _)]
  dsimp only
  rw [hd, ← hcount]
  rcases hcases with ⟨rfl, hnew, hnext⟩ | ⟨hcap, hzero, tail', waves, tickets, source, rfl⟩
  · have hderived : derivedGoalCounters isWordChar (w.bump k r.agent r.utc c.state moved
        (c.events ++ [move])).2 = (derivedGoalCounters isWordChar c.events).add k := by
      rw [hevents, derived_append, hstart, List.map_singleton, hone]
      rfl
    refine ⟨fun _ l => ?_, ?_⟩
    · rw [hderived, hnew, Counts.get_add, hcounters, h hgoal]
      split
      case isTrue hk => rw [hcount, hk]
      case isFalse => rfl
    · split
      case isTrue hcap => exact ⟨by rw [hnew, if_pos rfl], by rw [hnext, if_pos hcap, haction]⟩
      case isFalse hcap =>
        refine .inr ⟨by rw [hnew, if_pos rfl], ?_⟩
        have hsame : ∀ l, (c.state.setCount k (c.state.count k + 1)).count l =
            (w.bump k r.agent r.utc c.state moved (c.events ++ [move])).1.count l := by
          intro l
          rw [count_eq (c.state.setCount ..), counter_setCount, count_eq (World.bump ..).1, hnew, hcounters]
        rw [hnext, if_neg hcap, hsame, hsame]
  · have hmarker : effect isWordChar (w.event tail' "DEC" none r.agent
        (checkpointText waves tickets source)) = .marker := by
      rw [effect_event hw, Message.effect, if_pos rfl, meaning_checkpointText hword]
    have hderived : derivedGoalCounters isWordChar (w.bump k r.agent r.utc c.state moved
        (c.events ++ [move])).2 = {} := by
      rw [hevents, derived_append, List.map_cons, List.map_singleton, hmarker]
      rfl
    refine ⟨fun _ l => ?_, ?_⟩
    · rw [hderived, hzero, Counts.get_zero]
    · rw [if_neg (Nat.not_lt.mpr hcap)]
      exact .inl hzero

end Moves

/-! ### One operation -/

/-- The text of a checkpoint leaves the count alone: it means nothing, or it is a marker on counters
that are at their start. -/
def Step.Fair (isWordChar : Char → Bool) (st : Step) (c : Checkpoint) : Prop :=
  ∀ r c', st.op = .checkpoint r → st.world.planCheckpoint r c = .ok c' →
    c.state.executionIntent = some "goal" → upper r.taxonomy = "DEC" →
      meaning isWordChar r.description = .nothing ∨
        (meaning isWordChar r.description = .marker ∧
          c.state.count .waves = 0 ∧ c.state.count .tickets = 0)

/-- **Inversion.** An accepted checkpoint adds its event, and leaves the counters. -/
theorem planCheckpoint_ok {r : CheckpointRequest} {c c' : Checkpoint}
    (h : w.planCheckpoint r c = .ok c') :
    c'.events = c.events ++ [w.event c.tail (upper r.taxonomy) r.ticket r.agent r.description] ∧
      c'.state.executionIntent = c.state.executionIntent ∧
      ∀ k, c'.state.counter k = c.state.counter k := by
  simp only [World.planCheckpoint, bind_eq_ok, refuseOn_eq_ok, refuseIf_eq_ok, pure_eq_ok] at h
  obtain ⟨-, -, -, -, -, -, -, -, rfl⟩ := h
  exact ⟨rfl, rfl, fun k => by cases k <;> rfl⟩

theorem Effect.apply_eq_self_iff {n : Counts} {e : Effect} :
    e.apply n = n ↔ e = .nothing ∨ (e = .marker ∧ n = {}) := by
  cases e with
  | nothing => simp [Effect.apply]
  | marker => simp [Effect.apply, eq_comm]
  | increment k => cases k <;> simp [Effect.apply, Counts.add, Counts.ext_iff]

/-- In an agreeing state the counters are at their start when the count is. -/
theorem fair_iff {c : Checkpoint} (h : Agrees isWordChar c) (hgoal : c.state.executionIntent = some "goal")
    {e : Effect} :
    (e = .nothing ∨ e = .marker ∧ derivedGoalCounters isWordChar c.events = {}) ↔
      (e = .nothing ∨ e = .marker ∧ c.state.count .waves = 0 ∧ c.state.count .tickets = 0) := by
  have hcount : ∀ k, c.state.count k = (derivedGoalCounters isWordChar c.events).get k := by
    intro k
    rw [count_eq, h hgoal, Option.getD_some]
  rw [hcount, hcount, Counts.ext_iff]
  rfl

/-- A transition keeps the agreement. -/
theorem agrees_transition (hword : isWordChar ' ' = false) (hw : w.Faithful isWordChar) (r : Request)
    {c : Checkpoint} (h : Agrees isWordChar c) : Agrees isWordChar (w.transition isWordChar r c) := by
  unfold World.transition
  split
  case h_2 => exact h
  case h_1 c' hplan =>
    obtain ⟨subject, blocker, -, -, rfl⟩ := planTransition_ok hplan
    cases hmove : countedMove c.state (upper r.destination) with
    | none => exact agrees_uncounted hmove h
    | some k => exact (counted_move hword hw hmove h subject blocker r).1

/-- **One operation.** It keeps the agreement, a checkpoint exactly if its text is fair. -/
theorem agrees_perform_iff (hword : isWordChar ' ' = false) {st : Step}
    (hw : st.world.Faithful isWordChar) {c : Checkpoint} (h : Agrees isWordChar c) :
    Agrees isWordChar (st.perform isWordChar c) ↔ st.Fair isWordChar c := by
  obtain ⟨world, op, agent, utc, admitted, place⟩ := st
  have hother : (∀ r, op ≠ .checkpoint r) → Agrees isWordChar
      (Step.perform isWordChar ⟨world, op, agent, utc, admitted, place⟩ c) →
      (Agrees isWordChar (Step.perform isWordChar ⟨world, op, agent, utc, admitted, place⟩ c) ↔
        Step.Fair isWordChar ⟨world, op, agent, utc, admitted, place⟩ c) :=
    fun hop hagrees => ⟨fun _ r _ hr => absurd hr (hop r), fun _ => hagrees⟩
  cases op with
  | goalEntry objective active plan =>
    refine hother (fun _ hop => by cases hop) ?_
    unfold Step.perform
    dsimp only
    split
    case isFalse => exact h
    case isTrue =>
      intro _ k
      have hevents : (world.commit agent utc (place c) (goalEntryMessages objective active plan)
          { c.state with executionIntent := some "goal", goalWaves := some 1, goalTickets := some 0 }
          c).events = c.events ++ world.events agent c.tail (goalEntryMessages objective active plan) := rfl
      rw [hevents, derived_append, effects_events hw, effects_goalEntry hword]
      cases k <;> rfl
  | transition r =>
    refine hother (fun _ hop => by cases hop) ?_
    exact agrees_transition hword hw r h
  | checkpoint r =>
    cases hplan : world.planCheckpoint r c with
    | error e =>
      have hsame : Step.perform isWordChar ⟨world, .checkpoint r, agent, utc, admitted, place⟩ c = c := by
        rw [Step.perform]
        simp only [hplan]
      rw [hsame]
      refine iff_of_true h fun r' c' hr hc => ?_
      cases hr
      rw [hplan] at hc
      cases hc
    | ok c' =>
      have hnext : Step.perform isWordChar ⟨world, .checkpoint r, agent, utc, admitted, place⟩ c = c' := by
        rw [Step.perform]
        simp only [hplan]
      obtain ⟨hevents, hintent, hcounters⟩ := planCheckpoint_ok hplan
      rw [hnext]
      have hderived : derivedGoalCounters isWordChar c'.events =
          (Message.effect isWordChar ⟨upper r.taxonomy, r.ticket, r.description⟩).apply
            (derivedGoalCounters isWordChar c.events) := by
        rw [hevents, derived_append, List.map_singleton, effect_event hw]
        rfl
      constructor
      · intro hagrees r' d hr _ hgoal hdec
        cases hr
        have hsame : ∀ k, (derivedGoalCounters isWordChar c'.events).get k =
            (derivedGoalCounters isWordChar c.events).get k := by
          intro k
          have hnew := hagrees (hintent.trans hgoal) k
          rw [hcounters, h hgoal] at hnew
          exact (Option.some.inj hnew).symm
        rw [← fair_iff h hgoal, ← Effect.apply_eq_self_iff]
        rw [Message.effect, if_pos hdec] at hderived
        exact hderived.symm.trans (Counts.ext_get hsame)
      · intro hfair hgoal k
        rw [hintent] at hgoal
        rw [hcounters, h hgoal, hderived, Message.effect]
        split
        case isFalse => rfl
        case isTrue hdec =>
          rw [Effect.apply_eq_self_iff.mpr ((fair_iff h hgoal).mpr (hfair r c' rfl hplan hgoal hdec))]
  | claim ticket detail inPlace =>
    refine hother (fun _ hop => by cases hop) ?_
    unfold Step.perform
    dsimp only
    split
    case isFalse => exact h
    case isTrue => exact agrees_commit hw (silent_claim _ _ _ _ _) rfl (fun _ _ => rfl) h
  | finish ticket publication ran parent =>
    refine hother (fun _ hop => by cases hop) ?_
    unfold Step.perform
    dsimp only
    split
    case isFalse => exact h
    case isTrue => exact agrees_commit hw (silent_finish _ _ _ _ _) rfl (fun _ _ => rfl) h
  | reconcile adopted attested summary =>
    refine hother (fun _ hop => by cases hop) ?_
    unfold Step.perform
    dsimp only
    rw [stateCounterRepairs_of_agrees h]
    split
    case isFalse => exact h
    case isTrue => exact agrees_commit hw (silent_reconcile _ _ _) rfl (fun _ _ => rfl) h

/-! ### Runs -/

/-- What is claimed of a state under a goal: STATE counts what the LOG counts, reconciliation finds no
counter to repair, and the valve trips at the move that reaches the cap, and at no earlier one. -/
structure GoalSound (isWordChar : Char → Bool) (c : Checkpoint) : Prop where
  agrees : Agrees isWordChar c
  settled : stateCounterRepairs isWordChar c = []
  valve : ∀ (w : World) (r : Request) (c' : Checkpoint) (k : Counter), w.Faithful isWordChar →
    w.planTransition isWordChar r c = .ok c' → countedMove c.state (upper r.destination) = some k →
      let n := (derivedGoalCounters isWordChar c.events).get k + 1
      if n < k.cap then
        c'.state.counter k = some n ∧
          ∃ subject, c'.state.nextAction = actionAfter (upper r.destination) subject c.state
      else
        (∀ l, c'.state.counter l = some 0) ∨
          (c'.state.counter k = some n ∧
            c'.state.nextAction = valveWait (c'.state.count .waves) (c'.state.count .tickets))

theorem goalSound_iff_agrees (hword : isWordChar ' ' = false) {c : Checkpoint} :
    GoalSound isWordChar c ↔ Agrees isWordChar c := by
  refine ⟨GoalSound.agrees, fun h => ⟨h, stateCounterRepairs_of_agrees h, ?_⟩⟩
  intro w r c' k hw hplan hmove
  obtain ⟨subject, blocker, -, -, rfl⟩ := planTransition_ok hplan
  have hleft := (counted_move hword hw hmove h subject blocker r).2
  dsimp only at hleft ⊢
  split
  case isTrue hcap =>
    rw [if_pos hcap] at hleft
    exact ⟨hleft.1, subject, hleft.2⟩
  case isFalse hcap =>
    rw [if_neg hcap] at hleft
    exact hleft

/-- Every checkpoint of a run is fair where it stands. -/
def FairRun (isWordChar : Char → Bool) : List Step → Checkpoint → Prop
  | [], _ => True
  | st :: sts, c => st.Fair isWordChar c ∧ FairRun isWordChar sts (st.perform isWordChar c)

/-- A project at rest. -/
def idleProject : Checkpoint where
  state := ⟨"DONE", "none", "ada", "none", "saipen continue", "2026-01-01T00:00:00Z", some "SHIP", none,
    none, none, some 4⟩
  board := parseBoard "## DOING\n## TODO\n## DONE\n## BLOCKED\n"
  events := [⟨4, "RUN", none, "ada", "transition to DONE"⟩]

/-- A goal with one planned ticket. -/
def enterGoal : Step where
  world := openWorld
  op := .goalEntry "Ship the parser" none ["T-1"]
  agent := "ada"
  utc := "2026-01-02T00:00:00Z"
  admitted := fun _ => true
  place := fun _ => ⟨"SCOUT", "T-1", "PHASE SCOUT T-1", "none", some "DONE",
    parseBoard "## DOING\n- [/] T-1 Ship the parser | owner: ada\n## TODO\n## DONE\n## BLOCKED\n"⟩

/-- A decision that is put on record. -/
def onRecord (text : String) : Step where
  world := openWorld
  op := .checkpoint ⟨"ada", "DEC", none, text, "2026-01-02T01:00:00Z"⟩
  agent := "ada"
  utc := "2026-01-02T01:00:00Z"
  admitted := fun _ => true
  place := fun c => ⟨c.state.phase, c.state.task, c.state.nextAction, c.state.blocker,
    c.state.transitionFrom, c.board⟩

end Saipen.Operations
