import Saipen.AuditInbox.Consumption

/-! # Runs of the audit inbox

Every access of a careful run keeps the invariant, stage by stage, so in every state such a run
leads to all deleted bytes are proven and every layer has the record written last for it. -/

namespace Saipen.AuditInbox

open FileTree Run

variable {π : Type} {W : World} {B : Bytes}

/-! ### Planning under the lock -/

section Locked

variable {past : List Moment} {plan : Plan} {targets : List Target} {binding : Slot}

/-- The targets of a plan stand at different paths once they are prepared. -/
theorem Plan.Sound.nodup_prepared (h : plan.Sound B past)
    (htargets : targets.map Target.planned = plan.targets) :
    (targets.map Target.path).Nodup := by
  have hpaths : targets.map Target.path = plan.targets.map Prod.fst := by
    rw [← htargets, List.map_map]
    rfl
  rw [hpaths]
  exact h.nodup

/-- A sound plan writes the binding; it does not delete it. -/
theorem Plan.Sound.write_of_binding (h : plan.Sound B past) {x : Path × Change}
    (hx : x ∈ plan.targets) (hpath : x.1 = bindingPath) : ∃ content, x.2 = .write content := by
  obtain ⟨path, change⟩ := x
  cases change with
  | write content => exact ⟨content, rfl⟩
  | deleteFile =>
    obtain ⟨⟨q, e⟩, he, hq⟩ := List.mem_map.mp (h.guarded _ hx)
    obtain rfl : q = path := hq
    exact absurd hpath (h.justified _ hx e he).1

/-- A target that was prepared with the hash of its precondition is justified. -/
theorem Plan.Sound.justified_prepared (h : plan.Sound B past) {t : Target} {e : String}
    (ht : t.planned ∈ plan.targets) (he : (t.path, e) ∈ plan.preconditions)
    (hbefore : t.change = .deleteFile ∨ t.path = bindingPath → t.before = e) :
    Justified B past plan.payload.path plan.record t := by
  obtain ⟨path, change, before⟩ := t
  have hj := h.justified _ ht e he
  cases change with
  | deleteFile =>
    obtain rfl : before = e := hbefore (.inl rfl)
    exact hj
  | write content =>
    intro hpath
    obtain rfl : before = e := hbefore (.inr hpath)
    exact hj hpath

/-- A precondition on the binding compares the hash of its file. -/
theorem preconditionToken_binding (h : plan.Sound B past)
    (htargets : targets.map Target.planned = plan.targets) (slot : Slot) :
    preconditionToken B targets bindingPath slot = fileToken B slot := by
  unfold preconditionToken
  split
  · next t hfind =>
    have hmem : t.planned ∈ plan.targets := by
      rw [← htargets]
      exact List.mem_map_of_mem (List.mem_of_find?_eq_some hfind)
    have hpath : t.path = bindingPath := by simpa using List.find?_some hfind
    obtain ⟨content, hcontent⟩ := h.write_of_binding hmem hpath
    rw [Target.live, show t.change = .write content from hcontent, token_write]
  · rfl

/-- A precondition that holds justifies the targets at its path. -/
theorem checking_told {path : Path} {expected : String} {rest : List (Path × String)}
    {slot : Slot} {holds : Prop} (hpath : path = bindingPath → slot = binding)
    (hcareful : ∀ t ∈ targets, t.path = path → t.change = .deleteFile → t.before = expected)
    (htoken : preconditionToken B targets path slot = expected)
    (h : (Stage.checking plan targets ((path, expected) :: rest)).Told B holds binding past) :
    (Stage.checking plan targets rest).Told B holds binding past := by
  obtain ⟨hw, hsound, htargets, hbefore, hrest, hj⟩ := h
  refine ⟨hw, hsound, htargets, hbefore, fun e he => hrest e (List.mem_cons_of_mem _ he), ?_⟩
  intro t ht
  rcases hj t ht with hjust | ⟨e, he⟩
  · exact .inl hjust
  rcases List.mem_cons.mp he with heq | he
  · obtain ⟨hp, rfl⟩ := Prod.mk.inj heq
    have hplanned : t.planned ∈ plan.targets := htargets ▸ List.mem_map_of_mem ht
    refine .inl (hsound.justified_prepared hplanned (hp ▸ hrest _ List.mem_cons_self) ?_)
    rintro (hdelete | hbinding)
    · exact hcareful t ht hp hdelete
    · -- the binding was prepared and is compared under one lock
      obtain ⟨content, hcontent⟩ := hsound.write_of_binding hplanned hbinding
      have hslot := hpath (hp.symm.trans hbinding)
      rw [hbefore t ht hbinding, ← htoken, hp.symm.trans hbinding, hslot,
        preconditionToken_binding hsound htargets, Target.live,
        show t.change = .write content from hcontent, token_write]
  · exact .inr ⟨e, he⟩

end Locked

/-! ### The verdict of recovery -/

section Judged

variable {judged : List (Target × Classification)} {binding : Slot}

theorem pendingSuffix_subset : pendingSuffix judged ⊆ judged :=
  (List.dropWhile_suffix _).subset

theorem classify_pending {t : Target} {slot : Slot} (h : t.classify B slot = .pending) :
    t.live B slot = t.before := by
  unfold Target.classify classifyTarget at h
  split_ifs at h with hafter hbefore
  exact hbefore

theorem classify_applied {t : Target} {slot : Slot} (h : t.classify B slot = .alreadyApplied) :
    t.live B slot = t.change.after B := by
  unfold Target.classify classifyTarget at h
  split_ifs at h with hafter
  exact hafter

/-- What is replayed still stands at the state before it. -/
theorem live_of_suffix (hconflict : judged.any (·.2 = .conflict) = false)
    (horder : ((pendingSuffix judged).any fun x =>
      x.2 = .alreadyApplied && !x.1.isNoop B) = false)
    (hjudged : ∀ x ∈ judged, x.1.path = bindingPath → x.2 = x.1.classify B binding)
    {t : Target} (ht : t ∈ (pendingSuffix judged).map Prod.fst) (hpath : t.path = bindingPath) :
    t.live B binding = t.before := by
  obtain ⟨x, hx, rfl⟩ := List.mem_map.mp ht
  have hmem := pendingSuffix_subset hx
  have hclass := hjudged x hmem hpath
  cases hverdict : x.2 with
  | conflict =>
    have hno := List.any_eq_false.mp hconflict x hmem
    simp [hverdict] at hno
  | pending => exact classify_pending (hclass.symm.trans hverdict)
  | alreadyApplied =>
    have hnoop := List.any_eq_false.mp horder x hx
    simp only [hverdict, decide_true, Bool.true_and, Bool.not_eq_true', Bool.not_eq_false,
      Target.isNoop, decide_eq_true_eq] at hnoop
    exact (classify_applied (hclass.symm.trans hverdict)).trans hnoop.symm

end Judged

/-! ### Binding a layer -/

theorem layersOf_rememberNamed (doc : Dict) (rel digest : String) (observedAt : Json) :
    layersOf (rememberNamed doc rel digest observedAt) = layersOf doc := by
  unfold rememberNamed
  dsimp only
  split_ifs
  · rfl
  · exact layersOf_set_ne (by decide) _

/-- The document `bind_layer` writes has its record and keeps the others. -/
theorem layersOf_document (b : BindRequest) (doc record : Dict) (rel : String) :
    (layersOf (b.document doc record)).get rel =
      if rel = b.rel then some (.obj record) else (layersOf doc).get rel := by
  have hlayers : layersOf (b.document doc record) = Dict.set (layersOf doc) b.rel (.obj record) := by
    unfold BindRequest.document
    dsimp only
    split_ifs
    · rw [layersOf_rememberNamed, layersOf_setLayer]
    · exact layersOf_setLayer _ _ _
  rw [hlayers, Dict.get, Dict.set, Assoc.lookup_set]
  rfl

/-! ### One access -/

section Accesses

variable {s s' : System π} {p : π} {outcome : Option Outcome} {utc : String}

/-- The state an answer gives. -/
theorem moved {s₁ : System π} {o o' : Option Outcome} (h : some (s₁, o) = some (s', o')) :
    s₁ = s' := (Prod.mk.inj (Option.some.inj h)).1

theorem moved_pair {r : System π × Option Outcome} (h : some r = some (s', outcome)) :
    r.1 = s' := congrArg Prod.fst (Option.some.inj h)

/-- A change of the project outside the calls. -/
theorem Invariant.outside (h : Invariant B s) (hsub : s.moments ⊆ s'.moments)
    (hstages : s'.stages = s.stages) (hwriter : s'.writer = s.writer)
    (hbinding : s'.binding = s.binding) (hoperations : s'.operations = s.operations)
    (heffects : s'.effects = s.effects) : Invariant B s' where
  operations op hop := (h.operations op (hoperations ▸ hop)).mono hsub
  told p := by
    rw [hstages, hwriter, hbinding]
    exact (h.told p).mono hsub fun hw => ⟨hw, rfl⟩
  proven rel c hc := (h.proven rel c (heffects ▸ hc)).mono hsub
  kept rel record hrecord := by
    rw [hbinding]
    exact h.kept rel record (heffects ▸ hrecord)

variable [DecidableEq π]

/-- An access inside `delete_gate`. -/
theorem Invariant.gateAccess (h : Invariant W.toBytes s)
    (hstage : (∃ r, s.stages p = .gateBinding r) ∨ (∃ r doc, s.stages p = .gateLayer r doc) ∨
      (∃ r c, s.stages p = .gateIndex r c) ∨ (∃ r g, s.stages p = .gateReceipt r g) ∨
      ∃ r g work, s.stages p = .gateBoard r g work)
    (hstep : advance W s p (.step utc) = some (s', outcome)) : Invariant W.toBytes s' := by
  have htold := h.told p
  unfold advance at hstep
  rcases hstage with ⟨r, hst⟩ | ⟨r, doc, hst⟩ | ⟨r, c, hst⟩ | ⟨r, g, hst⟩ | ⟨r, g, work, hst⟩
  · simp only [hst] at hstep
    split at hstep
    · obtain rfl := moved hstep
      exact h.at trivial
    · next doc hdoc =>
      obtain rfl := moved hstep
      exact h.at ⟨s.moment, moment_mem_moments, layers_of_readBinding hdoc⟩
  · simp only [hst] at hstep htold
    obtain rfl := moved_pair hstep
    exact h.gate (gateSnapshot_told htold)
  · simp only [hst] at hstep htold
    obtain rfl := moved_pair hstep
    exact h.gate (gateDerive_told (m := s.moment) htold moment_mem_moments)
  · simp only [hst] at hstep htold
    obtain rfl := moved_pair hstep
    exact h.gate (gateStatus_told (m := s.moment) htold moment_mem_moments)
  · simp only [hst] at hstep htold
    obtain rfl := moved_pair hstep
    exact h.gate (gateWork_told (m := s.moment) moment_mem_moments htold)

/-- An access of `consume_layer` between the gate and the lock. -/
theorem Invariant.planAccess (h : Invariant W.toBytes s) (hcareful : s.Careful W p (.step utc))
    (hstage : (∃ r g, s.stages p = .planBinding r g) ∨
      (∃ r g doc record, s.stages p = .planDocs r g doc record) ∨
      (∃ r g doc record docs, s.stages p = .planLayer r g doc record docs) ∨
      (∃ r g doc record docs before, s.stages p = .planPrecondition r g doc record docs before) ∨
      ∃ plan, s.stages p = .ready plan)
    (hstep : advance W s p (.step utc) = some (s', outcome)) : Invariant W.toBytes s' := by
  have htold := h.told p
  unfold advance at hstep
  unfold System.Careful at hcareful
  rcases hstage with ⟨r, g, hst⟩ | ⟨r, g, doc, record, hst⟩ | ⟨r, g, doc, record, docs, hst⟩ |
    ⟨r, g, doc, record, docs, before, hst⟩ | ⟨plan, hst⟩
  · simp only [hst] at hstep htold
    split at hstep
    · obtain rfl := moved hstep
      exact h.at trivial
    · obtain rfl := moved hstep
      exact h.at htold
  · simp only [hst] at hstep htold
    split at hstep
    · obtain rfl := moved hstep
      exact h.at trivial
    · obtain rfl := moved hstep
      exact h.at htold
  · simp only [hst] at hstep htold hcareful
    split at hstep
    · next hnone =>
      obtain rfl := moved hstep
      exact h.at ⟨htold, fun hsome => by rw [hnone] at hsome; cases hsome⟩
    · next c c' hcurrent hslot =>
      obtain rfl := moved hstep
      -- the bytes that are hashed are the ones the gate saw
      obtain rfl := hcareful c hcurrent c' (by rw [hslot]; rfl)
      exact h.at ⟨htold, fun _ =>
        ⟨_, htold.proven _ hcurrent, ⟨s.moment, moment_mem_moments, hslot⟩, rfl⟩⟩
    · obtain rfl := moved hstep
      exact h.at trivial
  · simp only [hst] at hstep htold hcareful
    split_ifs at hstep
    · obtain rfl := moved hstep
      exact h.at trivial
    · obtain rfl := moved hstep
      exact h.at (planOf_sound htold.1 htold.2 moment_mem_moments hcareful)
  · simp only [hst, Option.ite_none_right_eq_some] at hstep htold
    obtain ⟨hfree, hstep⟩ := hstep
    obtain rfl := moved hstep
    exact h.lock hfree ⟨trivial, htold⟩

/-- An access of `run_mutation` before its record is published. -/
theorem Invariant.prepareAccess (h : Invariant W.toBytes s) (hcareful : s.Careful W p (.step utc))
    (hstage : (∃ plan, s.stages p = .locked plan) ∨ (∃ plan, s.stages p = .preflight plan) ∨
      (∃ plan done rest, s.stages p = .preparing plan done rest) ∨
      (∃ plan targets rest, s.stages p = .checking plan targets rest) ∨
      ∃ plan targets, s.stages p = .starting plan targets)
    (hstep : advance W s p (.step utc) = some (s', outcome)) : Invariant W.toBytes s' := by
  have htold := h.told p
  unfold advance at hstep
  unfold System.Careful at hcareful
  rcases hstage with ⟨plan, hst⟩ | ⟨plan, hst⟩ | ⟨plan, done, rest, hst⟩ |
    ⟨plan, targets, rest, hst⟩ | ⟨plan, targets, hst⟩
  · simp only [hst] at hstep htold
    split at hstep
    · split_ifs at hstep <;> obtain rfl := moved hstep <;> exact h.at htold.1
    · obtain rfl := moved hstep
      exact h.at htold
  · simp only [hst] at hstep htold
    split at hstep
    · obtain rfl := moved hstep
      exact h.at ⟨htold.1, htold.2, rfl, fun t ht => by cases ht⟩
    · next op hpending =>
      have hop : op ∈ s.operations := List.mem_of_mem_filter (hpending ▸ List.mem_singleton_self op)
      split_ifs at hstep
      · obtain rfl := moved hstep
        exact h.at htold.1
      · obtain rfl := moved hstep
        exact h.at ⟨htold.1, h.operations op hop,
          fun plan' hplan' => Option.mem_some.mp hplan' ▸ htold.2, rfl, fun x hx => by cases hx⟩
    · obtain rfl := moved hstep
      exact h.at htold.1
  · simp only [hst] at htold
    obtain ⟨hw, hsound, htargets, hbefore⟩ := htold
    cases rest with
    | nil =>
      simp only [hst] at hstep
      obtain rfl := moved hstep
      rw [List.append_nil] at htargets
      refine h.at ⟨hw, hsound, htargets, hbefore, fun e he => he, fun t ht => .inr ?_⟩
      have hplanned : t.planned ∈ plan.targets := htargets ▸ List.mem_map_of_mem ht
      obtain ⟨⟨q, e⟩, he, hq⟩ := List.mem_map.mp (hsound.guarded _ hplanned)
      obtain rfl : q = t.path := hq
      exact ⟨e, he⟩
    | cons x rest =>
      simp only [hst] at hstep
      obtain rfl := moved hstep
      refine h.at ⟨hw, hsound, ?_, ?_⟩
      · rw [← htargets, List.map_append, List.append_assoc]
        rfl
      · intro t ht hpath
        rcases List.mem_append.mp ht with ht | ht
        · exact hbefore t ht hpath
        · obtain rfl := List.mem_singleton.mp ht
          show x.2.token _ (s.files x.1) = x.2.token _ (s.files bindingPath)
          rw [show x.1 = bindingPath from hpath]
  · cases rest with
    | nil =>
      simp only [hst] at hstep htold
      obtain ⟨hw, hsound, htargets, -, -, hj⟩ := htold
      obtain rfl := moved hstep
      refine h.at ⟨hw, hsound.nodup_prepared htargets, fun t ht => ?_⟩
      rcases hj t ht with hjust | ⟨e, he⟩
      · exact hjust
      · cases he
    | cons x rest =>
      simp only [hst] at hstep htold hcareful
      split_ifs at hstep with htoken
      · obtain rfl := moved hstep
        refine h.at (checking_told (fun hpath => ?_) (hcareful htoken) htoken htold)
        rw [hpath]
        rfl
      · obtain rfl := moved hstep
        exact h.at htold.1
  · simp only [hst] at hstep htold
    obtain ⟨hw, hnodup, hj⟩ := htold
    obtain rfl := moved hstep
    have hsound : (Operation.mk plan.opId plan.payload plan.record targets plan.preconditions
        .prepared).Sound W.toBytes s.moments := ⟨hnodup, hj⟩
    refine h.step (p := p) (List.Subset.refl _) (fun q hq => at_of_ne hq) (fun q _ hwq => ⟨hwq, rfl⟩)
      (fun op hop => ?_) h.proven h.kept ?_
    · rcases List.mem_append.mp hop with hop | hop
      · exact h.operations op hop
      · rw [List.mem_singleton.mp hop]
        exact hsound
    · rw [at_stage]
      exact ⟨hw, hsound⟩

/-- An access of the apply loop. -/
theorem Invariant.applyAccess (h : Invariant W.toBytes s) (hcareful : s.Careful W p (.step utc))
    (hstage : (∃ op, s.stages p = .begun op) ∨ (∃ op rest, s.stages p = .applying op rest) ∨
      (∃ op t rest, s.stages p = .acting op t rest) ∨
      ∃ op t rest, s.stages p = .landed op t rest)
    (hstep : advance W s p (.step utc) = some (s', outcome)) : Invariant W.toBytes s' := by
  have htold := h.told p
  unfold advance at hstep
  unfold System.Careful at hcareful
  rcases hstage with ⟨op, hst⟩ | ⟨op, rest, hst⟩ | ⟨op, t, rest, hst⟩ | ⟨op, t, rest, hst⟩
  · simp only [hst] at hstep htold
    obtain rfl := moved hstep
    exact h.mark ⟨htold.1, htold.2.justified⟩
  · cases rest with
    | nil =>
      simp only [hst] at hstep htold
      obtain rfl := moved hstep
      exact h.at ⟨htold.1, fun plan hplan => by cases hplan⟩
    | cons t rest =>
      simp only [hst] at hstep htold
      split at hstep
      · obtain rfl := moved hstep
        exact h.at ⟨htold.1, fun u hu => htold.2 u (List.mem_cons_of_mem _ hu)⟩
      · next hpending =>
        obtain rfl := moved hstep
        refine h.at ⟨htold.1, fun hpath => ?_, htold.2⟩
        rw [hpath] at hpending
        exact classify_pending hpending
      · obtain rfl := moved_pair hstep
        exact h.conflict htold.1
  · simp only [hst] at hstep htold hcareful
    obtain ⟨hw, hlive, hj⟩ := htold
    split at hstep
    · obtain rfl := moved_pair hstep
      exact h.conflict hw
    · next s₁ hact =>
      obtain rfl := moved hstep
      have hacted := h.acted hact (hj t List.mem_cons_self) hcareful hlive
      exact h.act hacted hw ⟨hacted.writer.trans hw,
        fun u hu => (hj u (List.mem_cons_of_mem _ hu)).mono hacted.moments⟩
  · simp only [hst] at hstep htold
    split_ifs at hstep
    · obtain rfl := moved hstep
      exact h.at htold
    · obtain rfl := moved_pair hstep
      exact h.conflict htold.1

/-- An access at the end of a mutation. -/
theorem Invariant.settleAccess (h : Invariant W.toBytes s)
    (hstage : (∃ op next, s.stages p = .verifying op next) ∨
      ∃ op next, s.stages p = .settling op next)
    (hstep : advance W s p (.step utc) = some (s', outcome)) : Invariant W.toBytes s' := by
  have htold := h.told p
  unfold advance at hstep
  rcases hstage with ⟨op, next, hst⟩ | ⟨op, next, hst⟩
  · simp only [hst] at hstep htold
    split_ifs at hstep
    · obtain rfl := moved hstep
      exact h.mark htold
    · obtain rfl := moved_pair hstep
      exact h.conflict htold.1
  · cases next with
    | none =>
      simp only [hst] at hstep htold
      obtain rfl := moved hstep
      exact h.mark htold.1
    | some plan =>
      simp only [hst] at hstep htold
      obtain rfl := moved hstep
      exact h.mark ⟨htold.1, htold.2 plan rfl, rfl, fun t ht => by cases ht⟩

/-- An access of recovery before its end. -/
theorem Invariant.recoverAccess (h : Invariant W.toBytes s) (hcareful : s.Careful W p (.step utc))
    (hstage : (∃ opId, s.stages p = .recoverLock opId) ∨ (∃ opId, s.stages p = .recovering opId) ∨
      (∃ op next judged rest, s.stages p = .judging op next judged rest) ∨
      ∃ op next rest, s.stages p = .replaying op next rest)
    (hstep : advance W s p (.step utc) = some (s', outcome)) : Invariant W.toBytes s' := by
  have htold := h.told p
  unfold advance at hstep
  unfold System.Careful at hcareful
  rcases hstage with ⟨opId, hst⟩ | ⟨opId, hst⟩ | ⟨op, next, judged, rest, hst⟩ |
    ⟨op, next, rest, hst⟩
  · simp only [hst, Option.ite_none_right_eq_some] at hstep
    obtain ⟨hfree, hstep⟩ := hstep
    obtain rfl := moved hstep
    exact h.lock hfree trivial
  · simp only [hst] at hstep htold
    split at hstep
    · obtain rfl := moved hstep
      exact h.at htold
    · next op hfind =>
      split_ifs at hstep
      · obtain rfl := moved hstep
        exact h.at htold
      · obtain rfl := moved hstep
        exact h.at htold
      · obtain rfl := moved hstep
        exact h.at ⟨htold, h.operations op (List.mem_of_find?_eq_some hfind),
          (fun plan hplan => by cases hplan), rfl, (fun x hx => by cases hx)⟩
  · simp only [hst] at htold
    obtain ⟨hw, hsound, hnext, htargets, hjudged⟩ := htold
    cases rest with
    | cons t rest =>
      simp only [hst] at hstep
      obtain rfl := moved hstep
      refine h.at ⟨hw, hsound, hnext, ?_, fun x hx hpath => ?_⟩
      · rw [← htargets, List.map_append, List.append_assoc]
        rfl
      · rcases List.mem_append.mp hx with hx | hx
        · exact hjudged x hx hpath
        · obtain rfl := List.mem_singleton.mp hx
          show t.classify _ (s.files t.path) = t.classify _ (s.files bindingPath)
          rw [show t.path = bindingPath from hpath]
    | nil =>
      simp only [hst] at hstep
      rw [List.append_nil] at htargets
      split_ifs at hstep with hconflict horder haborted
      · obtain rfl := moved_pair hstep
        exact h.conflict hw
      · obtain rfl := moved_pair hstep
        exact h.conflict hw
      · cases next with
        | none =>
          obtain rfl := moved hstep
          exact h.mark hw
        | some plan =>
          obtain rfl := moved hstep
          exact h.mark ⟨hw, hnext plan rfl, rfl, fun t ht => by cases ht⟩
      · obtain rfl := moved hstep
        have hsuffix : ∀ t ∈ (pendingSuffix judged).map Prod.fst, t ∈ op.targets := by
          intro t ht
          rw [← htargets]
          exact List.map_subset _ pendingSuffix_subset ht
        refine h.at ⟨hw, hnext, ?_, fun t ht => hsound.justified t (hsuffix t ht), ?_⟩
        · refine List.Nodup.sublist ?_ hsound.nodup
          rw [← htargets]
          exact ((List.dropWhile_suffix _).sublist.map _).map _
        · exact fun t ht => live_of_suffix (Bool.eq_false_iff.mpr hconflict)
            (Bool.eq_false_iff.mpr horder) hjudged ht
  · cases rest with
    | nil =>
      simp only [hst] at hstep htold
      obtain rfl := moved hstep
      exact h.at ⟨htold.1, htold.2.1⟩
    | cons t rest =>
      simp only [hst] at hstep htold hcareful
      obtain ⟨hw, hnext, hnodup, hj, hlive⟩ := htold
      split at hstep
      · obtain rfl := moved_pair hstep
        exact h.conflict hw
      · next s₁ hact =>
        obtain rfl := moved hstep
        have hacted := h.acted hact (hj t List.mem_cons_self) hcareful (hlive t List.mem_cons_self)
        obtain ⟨hother, hrest⟩ := List.nodup_cons.mp hnodup
        have hacting : (Stage.replaying op next rest).Told W.toBytes (s₁.writer = some p) s₁.binding
            s₁.moments := by
          refine ⟨hacted.writer.trans hw, fun plan hplan => (hnext plan hplan).mono hacted.moments,
            hrest, fun u hu => (hj u (List.mem_cons_of_mem _ hu)).mono hacted.moments,
            fun u hu hpath => ?_⟩
          -- the binding has one target at most, and it was not this one
          have hne : t.path ≠ bindingPath := fun heq =>
            hother (heq ▸ hpath ▸ List.mem_map_of_mem hu)
          rw [hacted.binding hne]
          exact hlive u (List.mem_cons_of_mem _ hu) hpath
        exact (h.act hacted hw hacting).marked

/-- An access of `bind_layer`, and the end of a call. -/
theorem Invariant.bindAccess (h : Invariant W.toBytes s)
    (hstage : (∃ b, s.stages p = .bindLock b) ∨ (∃ b, s.stages p = .bindReading b) ∨
      (∃ b doc record, s.stages p = .bindWriting b doc record) ∨ s.stages p = .releasing)
    (hstep : advance W s p (.step utc) = some (s', outcome)) : Invariant W.toBytes s' := by
  have htold := h.told p
  unfold advance at hstep
  rcases hstage with ⟨b, hst⟩ | ⟨b, hst⟩ | ⟨b, doc, record, hst⟩ | hst
  · simp only [hst, Option.ite_none_right_eq_some] at hstep
    obtain ⟨hfree, hstep⟩ := hstep
    obtain rfl := moved hstep
    exact h.lock hfree trivial
  · simp only [hst] at hstep htold
    split at hstep
    · obtain rfl := moved hstep
      exact h.at htold
    · next doc hdoc =>
      obtain rfl := moved hstep
      refine h.at ⟨htold, fun rel => ?_⟩
      rw [layersOf_document, layers_of_readBinding hdoc]
  · simp only [hst] at hstep htold
    obtain ⟨hw, hlayers⟩ := htold
    split at hstep
    · obtain rfl := moved hstep
      exact h.at hw
    · obtain rfl := moved hstep
      exact h.bound hw hlayers
  · simp only [hst] at hstep htold
    obtain rfl := moved hstep
    exact h.unlock fun q hq hwq => absurd (Option.some.inj (hwq.symm.trans htold)) hq

/-- **One access.** -/
theorem Invariant.access (h : Invariant W.toBytes s) (hcareful : s.Careful W p (.step utc))
    (hstep : advance W s p (.step utc) = some (s', outcome)) : Invariant W.toBytes s' := by
  cases hst : s.stages p with
  | idle => simp [advance, hst] at hstep
  | gateBinding r => exact h.gateAccess (.inl ⟨r, hst⟩) hstep
  | gateLayer r doc => exact h.gateAccess (.inr (.inl ⟨r, doc, hst⟩)) hstep
  | gateIndex r c => exact h.gateAccess (.inr (.inr (.inl ⟨r, c, hst⟩))) hstep
  | gateReceipt r g => exact h.gateAccess (.inr (.inr (.inr (.inl ⟨r, g, hst⟩)))) hstep
  | gateBoard r g work => exact h.gateAccess (.inr (.inr (.inr (.inr ⟨r, g, work, hst⟩)))) hstep
  | planBinding r g => exact h.planAccess hcareful (.inl ⟨r, g, hst⟩) hstep
  | planDocs r g doc record => exact h.planAccess hcareful (.inr (.inl ⟨r, g, doc, record, hst⟩)) hstep
  | planLayer r g doc record docs =>
    exact h.planAccess hcareful (.inr (.inr (.inl ⟨r, g, doc, record, docs, hst⟩))) hstep
  | planPrecondition r g doc record docs before =>
    exact h.planAccess hcareful
      (.inr (.inr (.inr (.inl ⟨r, g, doc, record, docs, before, hst⟩)))) hstep
  | ready plan => exact h.planAccess hcareful (.inr (.inr (.inr (.inr ⟨plan, hst⟩)))) hstep
  | locked plan => exact h.prepareAccess hcareful (.inl ⟨plan, hst⟩) hstep
  | preflight plan => exact h.prepareAccess hcareful (.inr (.inl ⟨plan, hst⟩)) hstep
  | preparing plan done rest =>
    exact h.prepareAccess hcareful (.inr (.inr (.inl ⟨plan, done, rest, hst⟩))) hstep
  | checking plan targets rest =>
    exact h.prepareAccess hcareful (.inr (.inr (.inr (.inl ⟨plan, targets, rest, hst⟩)))) hstep
  | starting plan targets =>
    exact h.prepareAccess hcareful (.inr (.inr (.inr (.inr ⟨plan, targets, hst⟩)))) hstep
  | begun op => exact h.applyAccess hcareful (.inl ⟨op, hst⟩) hstep
  | applying op rest => exact h.applyAccess hcareful (.inr (.inl ⟨op, rest, hst⟩)) hstep
  | acting op t rest => exact h.applyAccess hcareful (.inr (.inr (.inl ⟨op, t, rest, hst⟩))) hstep
  | landed op t rest => exact h.applyAccess hcareful (.inr (.inr (.inr ⟨op, t, rest, hst⟩))) hstep
  | verifying op next => exact h.settleAccess (.inl ⟨op, next, hst⟩) hstep
  | settling op next => exact h.settleAccess (.inr ⟨op, next, hst⟩) hstep
  | recoverLock opId => exact h.recoverAccess hcareful (.inl ⟨opId, hst⟩) hstep
  | recovering opId => exact h.recoverAccess hcareful (.inr (.inl ⟨opId, hst⟩)) hstep
  | judging op next judged rest =>
    exact h.recoverAccess hcareful (.inr (.inr (.inl ⟨op, next, judged, rest, hst⟩))) hstep
  | replaying op next rest =>
    exact h.recoverAccess hcareful (.inr (.inr (.inr ⟨op, next, rest, hst⟩))) hstep
  | bindLock b => exact h.bindAccess (.inl ⟨b, hst⟩) hstep
  | bindReading b => exact h.bindAccess (.inr (.inl ⟨b, hst⟩)) hstep
  | bindWriting b doc record => exact h.bindAccess (.inr (.inr (.inl ⟨b, doc, record, hst⟩))) hstep
  | releasing => exact h.bindAccess (.inr (.inr (.inr hst))) hstep

/-- The start of a call relies on nothing. -/
theorem Invariant.called (h : Invariant B s) (call : Call) : Invariant B (s.at p call.start) :=
  h.at (by cases call <;> trivial)

/-- A call that dies or raises leaves the lock free, if it had it. -/
theorem Invariant.aborted (h : Invariant B s) :
    Invariant B ((s.hold (if s.writer = some p then none else s.writer)).at p .idle) := by
  refine h.unlock fun q hq hw => ?_
  rw [if_neg fun hp => hq (Option.some.inj (hw.symm.trans hp)), hw]

/-- **One move.** -/
theorem Invariant.move (h : Invariant W.toBytes s) (hmove : CarefulMove W s s') :
    Invariant W.toBytes s' := by
  obtain ⟨m, hcareful, hmove⟩ := hmove
  cases m with
  | act p e =>
    obtain ⟨⟨s₁, outcome⟩, hstep, rfl⟩ := Option.map_eq_some_iff.mp hmove
    cases e with
    | step utc => exact h.access hcareful hstep
    | call call =>
      cases hst : s.stages p <;> simp only [advance, hst] at hstep <;> try cases hstep
      exact h.called call
    | abort =>
      cases hst : s.stages p <;> simp only [advance, hst] at hstep <;> try cases hstep
      all_goals exact h.aborted
  | produce path slot =>
    simp only [System.move] at hmove
    split_ifs at hmove with hpath
    obtain rfl := Option.some.inj hmove
    exact h.outside moments_subset_put rfl rfl (put_binding hpath) rfl rfl
  | learn facts =>
    obtain rfl := Option.some.inj hmove
    exact h.outside (List.subset_cons_self _ _) rfl rfl rfl rfl rfl

end Accesses

/-! ### Runs -/

/-- **The audit inbox keeps its evidence.** In every state a careful run leads to, the bytes of every
deleted layer are those of a binding whose receipt has been closed or retired and whose Work, if any,
has been DONE, and every layer has the record written last for it. -/
theorem inbox_keeps_evidence [DecidableEq π] {start s : System π} (hstart : start.Initial)
    (hrun : Runs (CarefulMove W) start s) :
    (∀ rel c, .deleted rel c ∈ s.effects → Proven W.toBytes s.moments rel c) ∧
      ∀ rel record, lastRecorded s.effects rel = some record →
        s.binding.layers.get rel = some (.obj record) := by
  have hinv : Invariant W.toBytes s :=
    keeps (fun _ _ h hmove => h.move hmove) hrun hstart.invariant
  exact ⟨hinv.proven, hinv.kept⟩

/-! ### One consumption with a producer beside it -/

section Sample

/-- A text is its own digest and a binding has that of its layers' names; LOG and STATE are always
ready to close a layer. -/
def sampleWorld : World where
  sha256
    | .text s => s
    | .doc (.obj doc) _ => ",".intercalate ((layersOf doc).map Prod.fst)
    | _ => ""
  sizeBytes _ := 0
  refuses _ := none
  hashText _ := "0"
  closure _ _ _ _ _ _ := some (.text "log", .text "state")
  verify _ := true

/-- The receipt of the text `a` is closed. -/
def sampleFacts : Facts where
  receiptForDigest digest := if digest = "a" then some ⟨"SRC-1", none⟩ else none
  status _ := some ⟨"CLOSED", "archive", none⟩
  workIsDone _ := false

/-- One layer with the text `a`, and no binding yet. -/
def sampleStart : System Bool where
  files path := if path = ["audit", "1.md"] then .file (.text "a") else .absent
  facts := sampleFacts
  operations := []
  writer := none
  stages _ := .idle
  past := []
  effects := []

def sampleBind : BindRequest where
  rel := "audit/2.md"
  layer := some 2
  generation := 1
  fileSha256 := "c"
  sizeBytes := 1
  receiptId := "SRC-2"
  receiptSha256 := "c"
  binding := "exact"
  linkedWork := none
  state := "ACTIVE"
  provenance := none

/-- The next `n` accesses of a process. -/
def accesses (p : Bool) (n : Nat) : List (Move Bool) := List.replicate n (.act p (.step "now"))

/-- The layer is consumed; `between` happens when its documents are planned. -/
def sampleMoves (between : List (Move Bool)) (n : Nat) : List (Move Bool) :=
  .act true (.call (.consume ⟨"audit/1.md", "agent", false⟩)) :: accesses true 6 ++ between ++
    accesses true n

theorem initial_sampleStart : sampleStart.Initial := ⟨rfl, rfl, fun _ => rfl, rfl⟩

/-- A move of any kind. -/
def AnyMove [DecidableEq π] (W : World) (s s' : System π) : Prop :=
  ∃ m : Move π, s.move W m = some s'

theorem runs_moves [DecidableEq π] {ms : List (Move π)} {s t : System π}
    (h : s.moves W ms = some t) : Runs (AnyMove W) s t := by
  induction ms generalizing s with
  | nil =>
    obtain rfl := Option.some.inj h
    exact .refl
  | cons m ms ih =>
    obtain ⟨u, hu, ht⟩ := Option.bind_eq_some_iff.mp h
    exact .head ⟨m, hu⟩ (ih ht)

/-- A list of moves that are all careful. -/
def CarefulMoves [DecidableEq π] (W : World) : System π → List (Move π) → Prop
  | _, [] => True
  | s, m :: ms => m.Careful W s ∧ ∀ t ∈ s.move W m, CarefulMoves W t ms

/-- Whether every move of a list is careful. -/
def decideCarefulMoves [DecidableEq π] (W : World) :
    ∀ (s : System π) (ms : List (Move π)), Decidable (CarefulMoves W s ms)
  | _, [] => isTrue trivial
  | s, m :: ms =>
    have := fun t => decideCarefulMoves W t ms
    inferInstanceAs (Decidable (m.Careful W s ∧ ∀ t ∈ s.move W m, CarefulMoves W t ms))

instance [DecidableEq π] (W : World) (s : System π) (ms : List (Move π)) :
    Decidable (CarefulMoves W s ms) := decideCarefulMoves W s ms

theorem runs_careful [DecidableEq π] (ms : List (Move π)) {s t : System π}
    (hcareful : CarefulMoves W s ms) (h : s.moves W ms = some t) : Runs (CarefulMove W) s t := by
  induction ms generalizing s with
  | nil =>
    obtain rfl := Option.some.inj h
    exact .refl
  | cons m ms ih =>
    obtain ⟨u, hu, ht⟩ := Option.bind_eq_some_iff.mp h
    exact .head ⟨m, hcareful.1, hu⟩ (ih (hcareful.2 u hu) ht)

/-- The state behind a consumption with the given moves between the gate and the plan. -/
def sampleEnd (between : List (Move Bool)) (n : Nat)
    (h : (sampleStart.moves sampleWorld (sampleMoves between n)).isSome := by decide) :
    System Bool :=
  (sampleStart.moves sampleWorld (sampleMoves between n)).get h

/-- A consumption that nobody disturbs deletes its layer and settles it. -/
theorem quiet_consumption_keeps_evidence :
    (∀ rel c, .deleted rel c ∈ (sampleEnd [] 30).effects →
        Proven sampleWorld.toBytes (sampleEnd [] 30).moments rel c) ∧
      ∀ rel record, lastRecorded (sampleEnd [] 30).effects rel = some record →
        (sampleEnd [] 30).binding.layers.get rel = some (.obj record) :=
  inbox_keeps_evidence initial_sampleStart
    (runs_careful (sampleMoves [] 30) (by decide) (Option.some_get _).symm)

/-- A producer replaces the layer behind the gate. -/
def replaced : List (Move Bool) := [.produce ["audit", "1.md"] (.file (.text "b"))]

/-- Another layer is bound between the two reads of the binding. -/
def boundBetween : List (Move Bool) := .act false (.call (.bind sampleBind)) :: accesses false 4

/-- The bytes of a layer that was replaced behind the gate are deleted although no receipt knows
them, and the record of a layer that is bound between the two reads of the binding is dropped. -/
theorem unseen_layer_deleted :
    sampleStart.Initial ∧
      (∃ s, Runs (AnyMove sampleWorld) sampleStart s ∧
        .deleted "audit/1.md" (.text "b") ∈ s.effects ∧
          ¬ Proven sampleWorld.toBytes s.moments "audit/1.md" (.text "b")) ∧
      ∃ s, Runs (AnyMove sampleWorld) sampleStart s ∧
        (lastRecorded s.effects "audit/2.md").isSome ∧
          s.binding.layers.get "audit/2.md" = none := by
  refine ⟨initial_sampleStart, ⟨sampleEnd replaced 19, ?_, by decide, ?_⟩,
    sampleEnd boundBetween 30, ?_, by decide, by decide⟩
  · exact runs_moves (Option.some_get _).symm
  · rintro ⟨record, ⟨m, hm, hbinds⟩, -⟩
    have hlayers : ∀ m ∈ (sampleEnd replaced 19).moments,
        (m.files bindingPath).layers.get "audit/1.md" = none ∧
          m.facts.receiptForDigest "b" = none := by decide
    rcases hbinds with hbound | ⟨receipt, hreceipt, -⟩
    · rw [(hlayers m hm).1] at hbound
      cases hbound
    · rw [show sampleWorld.toBytes.sha256 (.text "b") = "b" from rfl, (hlayers m hm).2] at hreceipt
      cases hreceipt
  · exact runs_moves (Option.some_get _).symm

end Sample

end Saipen.AuditInbox
